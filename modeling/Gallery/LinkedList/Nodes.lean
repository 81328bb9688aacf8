import Gallery.Linear
import Gallery.LinkedList

namespace Gallery

-- A node of `photo_list`.
structure Item where
  K : Data
  next : Option Addr

namespace Items

abbrev ItemHeap := Heap Item

def putNext (h : ItemHeap) (a : Addr) (x : Option Addr) : ItemHeap :=
  h.update a (fun n => some { n with next := x })

def setNext (h : ItemHeap) (a : Addr) (x : Option Addr) : Option ItemHeap :=
  h.modify a (fun n => { n with next := x })

section Source

variable (h : ItemHeap)

def listFirst (root : Option Addr) : Option (Option Addr × ItemHeap × Option Addr) :=
  match root with
  | none => some (none, h, none)
  | some first => do
      let node ← h.cell first
      let h ← setNext h first none
      some (some first, h, node.next)

def listPush (root other : Option Addr) : Option (ItemHeap × Option Addr) :=
  match other with
  | none => some (h, root)
  | some o => do
      let h ← setNext h o root
      some (h, some o)

def listInsert (root : Option Addr) (K : Data) : ItemHeap × Option Addr :=
  let (new, h) := h.alloc ⟨K, root⟩
  (h, some new)

-- `while(aux->next != NULL) aux = aux->next;`. The rounds of every loop are bounded by
-- the addresses handed out.
def lastLoop : Nat → Addr → Option Addr
  | 0, _ => none
  | fuel + 1, aux => do
      let node ← h.cell aux
      match node.next with
      | none => some aux
      | some next => lastLoop fuel next

def listAppend (root other : Option Addr) : Option (ItemHeap × Option Addr) :=
  match other with
  | none => some (h, root)
  | some o =>
      match root with
      | none => do
          let h ← setNext h o none
          some (h, some o)
      | some r => do
          let aux ← lastLoop h h.brk r
          let h ← setNext h aux (some o)
          let h ← setNext h o none
          some (h, some r)

-- The search behind the first item: `aux_seg` holds the item found and `aux` is the one
-- before.
def listRemoveLoop (K : Data) : Nat → Addr → Addr → Option (Option (Addr × Addr))
  | 0, _, _ => none
  | fuel + 1, aux, aux_seg => do
      let node ← h.cell aux_seg
      if equalData node.K K then some (some (aux, aux_seg))
      else
        match node.next with
        | none => some none
        | some next => do
            let before ← h.cell aux
            let aux ← before.next
            listRemoveLoop K fuel aux next

def listRemove (root : Option Addr) (K : Data) : Option (Nat × ItemHeap × Option Addr) :=
  match root with
  | none => some (0, h, none)
  | some r => do
      let first ← h.cell r
      if equalData first.K K then
        let h ← h.free r
        some (1, h, first.next)
      else
        match first.next with
        | none => some (0, h, some r)
        | some aux_seg =>
            match ← listRemoveLoop h K h.brk r aux_seg with
            | none => some (0, h, some r)
            | some (aux, aux_seg) =>
                let node ← h.cell aux_seg
                let h ← setNext h aux node.next
                let h ← h.free aux_seg
                some (1, h, some r)

def listSearchLoop (K : Data) : Nat → Addr → Option (Option Addr)
  | 0, _ => none
  | fuel + 1, aux => do
      let node ← h.cell aux
      if equalData node.K K then some (some aux)
      else
        match node.next with
        | none => some none
        | some next => listSearchLoop K fuel next

def listSearch (root : Option Addr) (K : Data) : Option (Option Addr) :=
  match root with
  | none => some none
  | some r => listSearchLoop h K h.brk r

def listFree (root : Option Addr) : Option (ItemHeap × List Access) :=
  freeLoop Item.next h.brk h root []

def listsConcatenate (list1 list2 : Option Addr) : Option (ItemHeap × Option Addr) :=
  match list1 with
  | none => some (h, list2)
  | some r => do
      let aux ← lastLoop h h.brk r
      let h ← setNext h aux list2
      some (h, some r)

-- `count` is an `int`.
def listCountLoop : Nat → Addr → Int32 → Option Int32
  | 0, _, _ => none
  | fuel + 1, aux, count => do
      let node ← h.cell aux
      match node.next with
      | none => some count
      | some next => listCountLoop fuel next (count + 1)

def listCount (root : Option Addr) : Option Int32 :=
  match root with
  | none => some 0
  | some r => listCountLoop h h.brk r 1

end Source

-- A list of items read from its root: `ns` lists the nodes up to NULL.
abbrev Holds (h : ItemHeap) (root : Option Addr) (ns : List (Addr × Data)) : Prop :=
  Segment Item.next Item.K h root ns none

-- The cells that are not among these are left alone.
def SameOutside (h h' : ItemHeap) (ns : List (Addr × Data)) : Prop :=
  ∀ a, a ∉ ns.map Prod.fst → h'.cell a = h.cell a

section Links

variable {h : ItemHeap} {a b : Addr} {x : Item} {root q : Option Addr} {us : List (Addr × Data)}

theorem setNext_of_cell (hx : h.cell a = some x) (q : Option Addr) :
    setNext h a q = some (putNext h a q) := h.modify_of_live a _ (h.live_of_cell hx)

theorem putNext_cell_self (hx : h.cell a = some x) (q : Option Addr) :
    (putNext h a q).cell a = some { x with next := q } := h.update_cell_self _ hx

theorem putNext_cell_ne (hb : b ≠ a) (q : Option Addr) : (putNext h a q).cell b = h.cell b :=
  h.update_cell_ne a b _ hb

theorem frame_putNext {p : Option Addr} {ns : List (Addr × Data)}
    (hs : Segment Item.next Item.K h root ns p) (ha : a ∉ ns.map Prod.fst) (q : Option Addr) :
    Segment Item.next Item.K (putNext h a q) root ns p :=
  hs.frame (fun _ hb => putNext_cell_ne (ne_of_mem_of_not_mem hb ha) q)

-- A path to a node ends where the node's new link leads.
theorem relink_last (hs : Segment Item.next Item.K h root us (some a)) (hx : h.cell a = some x)
    (ha : a ∉ us.map Prod.fst) (q : Option Addr) :
    Segment Item.next Item.K (putNext h a q) root (us ++ [(a, x.K)]) q :=
  (frame_putNext hs ha q).concat (putNext_cell_self hx q)

end Links

section First

variable {h : ItemHeap} {root : Option Addr} {ns : List (Addr × Data)}

theorem listFirst_nil (hs : Holds h root []) : listFirst h root = some (none, h, none) := by
  obtain rfl : root = none := hs
  rfl

theorem listFirst_cons {a : Addr} {K : Data} (hs : Holds h root ((a, K) :: ns)) :
    ∃ h' root', listFirst h root = some (some a, h', root') ∧ h'.cell a = some ⟨K, none⟩ ∧
      Holds h' root' ns ∧ SameOutside h h' [(a, K)] := by
  have hnotmem := (List.nodup_cons.mp hs.nodup).1
  obtain ⟨rfl, x, hx, rfl, hrest⟩ := hs
  refine ⟨putNext h a none, x.next, ?_, putNext_cell_self hx none, ?_, ?_⟩
  · simp [listFirst, hx, setNext_of_cell hx]
  · exact frame_putNext hrest hnotmem none
  · exact fun b hb => putNext_cell_ne (by simpa using hb) none

theorem listInsert_holds (hs : Holds h root ns) (K : Data) :
    ∃ h', listInsert h root K = (h', some h.brk) ∧ Holds h' (some h.brk) ((h.brk, K) :: ns) ∧
      SameOutside h h' [(h.brk, K)] := by
  have hcell : ∀ a, a ≠ h.brk → (h.alloc ⟨K, root⟩).2.cell a = h.cell a := by
    intro a ha
    rw [h.alloc_cell, if_neg ha]
  refine ⟨(h.alloc ⟨K, root⟩).2, rfl, ⟨rfl, ⟨K, root⟩, ?_, rfl, ?_⟩, ?_⟩
  · rw [h.alloc_cell, if_pos rfl]
  · exact hs.frame (fun a ha => hcell a (ne_of_mem_of_not_mem ha hs.brk_notMem))
  · exact fun a ha => hcell a (by simpa using ha)

theorem listPush_holds {o : Addr} {x : Item} (hs : Holds h root ns) (ho : o ∉ ns.map Prod.fst)
    (hx : h.cell o = some x) :
    ∃ h', listPush h root (some o) = some (h', some o) ∧ Holds h' (some o) ((o, x.K) :: ns) ∧
      SameOutside h h' [(o, x.K)] := by
  refine ⟨putNext h o root, ?_, ⟨rfl, _, putNext_cell_self hx root, rfl, ?_⟩, ?_⟩
  · simp [listPush, setNext_of_cell hx]
  · exact frame_putNext hs ho root
  · exact fun a ha => putNext_cell_ne (by simpa using ha) root

end First

section Last

variable {h : ItemHeap} {root : Option Addr} {ns ms : List (Addr × Data)}

-- The walk to the last item.
theorem lastLoop_eq {fuel : Nat} {a : Addr} (hs : Holds h (some a) ns) (hfuel : ns.length ≤ fuel) :
    ∃ us l x, ns = us ++ [(l, x.K)] ∧ h.cell l = some x ∧
      Segment Item.next Item.K h (some a) us (some l) ∧ lastLoop h fuel a = some l := by
  induction ns generalizing a fuel with
  | nil => cases hs
  | cons n ns ih =>
      obtain ⟨k, K⟩ := n
      obtain ⟨hp, x, hx, rfl, hrest⟩ := hs
      obtain rfl := Option.some.inj hp
      obtain ⟨fuel, rfl⟩ : ∃ rounds, fuel = rounds + 1 := by
        cases fuel with
        | zero => simp at hfuel
        | succ fuel => exact ⟨fuel, rfl⟩
      cases hnext : x.next with
      | none =>
          rw [hnext] at hrest
          obtain rfl : ns = [] := hrest.eq_nil
          exact ⟨[], a, x, rfl, hx, rfl, by simp [lastLoop, hx, hnext]⟩
      | some next =>
          rw [hnext] at hrest
          obtain ⟨us, l, y, rfl, hy, hus, hloop⟩ := ih hrest (by simpa using hfuel)
          refine ⟨(a, x.K) :: us, l, y, rfl, hy, ⟨rfl, x, hx, rfl, hnext ▸ hus⟩, ?_⟩
          simp [lastLoop, hx, hnext, hloop]

theorem listAppend_holds {o : Addr} {x : Item} (hs : Holds h root ns) (ho : o ∉ ns.map Prod.fst)
    (hx : h.cell o = some x) :
    ∃ h', listAppend h root (some o) = some (h', root.or (some o)) ∧
      Holds h' (root.or (some o)) (ns ++ [(o, x.K)]) ∧ SameOutside h h' (ns ++ [(o, x.K)]) := by
  cases root with
  | none =>
      obtain rfl : ns = [] := hs.eq_nil
      refine ⟨putNext h o none, ?_, ⟨rfl, _, putNext_cell_self hx none, rfl, rfl⟩, ?_⟩
      · simp [listAppend, setNext_of_cell hx]
      · exact fun a ha => putNext_cell_ne (by simpa using ha) none
  | some r =>
      obtain ⟨us, l, y, rfl, hy, hus, hloop⟩ := lastLoop_eq hs hs.length_le
      have hl : l ∉ us.map Prod.fst := hs.notMem_of_append.1
      have hol : o ≠ l := fun he => ho (by simp [he])
      have hx' : (putNext h l (some o)).cell o = some x := (putNext_cell_ne hol _).trans hx
      have hlast := relink_last hus hy hl (some o)
      refine ⟨putNext (putNext h l (some o)) o none, ?_, relink_last hlast hx' ho none, ?_⟩
      · simp [listAppend, hloop, setNext_of_cell hy, setNext_of_cell hx']
      · intro a ha
        simp only [List.map_append, List.mem_append, List.map_singleton, List.mem_singleton,
          not_or] at ha
        rw [putNext_cell_ne ha.2, putNext_cell_ne ha.1.2]

theorem listsConcatenate_holds {root' : Option Addr} (hs : Holds h root ns)
    (hs' : Holds h root' ms) (hdisj : List.Disjoint (ns.map Prod.fst) (ms.map Prod.fst)) :
    ∃ h', listsConcatenate h root root' = some (h', root.or root') ∧
      Holds h' (root.or root') (ns ++ ms) ∧ SameOutside h h' ns := by
  cases root with
  | none =>
      obtain rfl : ns = [] := hs.eq_nil
      exact ⟨h, rfl, hs', fun _ _ => rfl⟩
  | some r =>
      obtain ⟨us, l, y, rfl, hy, hus, hloop⟩ := lastLoop_eq hs hs.length_le
      have hl : l ∉ us.map Prod.fst := hs.notMem_of_append.1
      refine ⟨putNext h l root', ?_, segment_append.mpr ⟨root', ?_, ?_⟩, ?_⟩
      · simp [listsConcatenate, hloop, setNext_of_cell hy]
      · exact relink_last hus hy hl root'
      · exact frame_putNext hs' (fun hmem => hdisj (by simp) hmem) root'
      · intro a ha
        exact putNext_cell_ne (fun he => ha (by simp [he])) root'

end Last

section Search

variable {h : ItemHeap} {root : Option Addr} {ns : List (Addr × Data)}

theorem equalData_eq_false {K1 K2 : Data} (hne : K1.id ≠ K2.id) : equalData K1 K2 = false := by
  rw [Bool.eq_false_iff]
  exact fun he => hne ((equalData_iff K1 K2).mp he)

theorem listSearchLoop_eq (K : Data) {fuel : Nat} {a : Addr} (hs : Holds h (some a) ns)
    (hfuel : ns.length ≤ fuel) :
    listSearchLoop h K fuel a = some ((ns.find? (fun n => n.2.id == K.id)).map Prod.fst) := by
  induction ns generalizing a fuel with
  | nil => cases hs
  | cons n ns ih =>
      obtain ⟨k, kd⟩ := n
      obtain ⟨hp, x, hx, rfl, hrest⟩ := hs
      obtain rfl := Option.some.inj hp
      obtain ⟨fuel, rfl⟩ : ∃ rounds, fuel = rounds + 1 := by
        cases fuel with
        | zero => simp at hfuel
        | succ fuel => exact ⟨fuel, rfl⟩
      by_cases hid : x.K.id = K.id
      · simp [listSearchLoop, hx, (equalData_iff x.K K).mpr hid, hid]
      · rw [List.find?_cons_of_neg (by simpa using hid)]
        cases hnext : x.next with
        | none =>
            rw [hnext] at hrest
            obtain rfl : ns = [] := hrest.eq_nil
            simp [listSearchLoop, hx, equalData_eq_false hid, hnext]
        | some next =>
            rw [← ih (hnext ▸ hrest) (by simpa using hfuel)]
            simp [listSearchLoop, hx, equalData_eq_false hid, hnext]

-- The node of the first item with the id, or NULL.
theorem listSearch_holds (hs : Holds h root ns) (K : Data) :
    listSearch h root K = some ((ns.find? (fun n => n.2.id == K.id)).map Prod.fst) := by
  cases root with
  | none =>
      obtain rfl : ns = [] := hs.eq_nil
      rfl
  | some r => exact listSearchLoop_eq K hs hs.length_le

theorem listCountLoop_eq {fuel : Nat} {a : Addr} (count : Nat) (hs : Holds h (some a) ns)
    (hfuel : ns.length ≤ fuel) :
    listCountLoop h fuel a (Int32.ofNat (count + 1)) = some (Int32.ofNat (count + ns.length)) := by
  induction ns generalizing a fuel count with
  | nil => cases hs
  | cons n ns ih =>
      obtain ⟨k, kd⟩ := n
      obtain ⟨hp, x, hx, rfl, hrest⟩ := hs
      obtain rfl := Option.some.inj hp
      obtain ⟨fuel, rfl⟩ : ∃ rounds, fuel = rounds + 1 := by
        cases fuel with
        | zero => simp at hfuel
        | succ fuel => exact ⟨fuel, rfl⟩
      cases hnext : x.next with
      | none =>
          rw [hnext] at hrest
          obtain rfl : ns = [] := hrest.eq_nil
          simp [listCountLoop, hx, hnext]
      | some next =>
          have hloop := ih (count + 1) (hnext ▸ hrest) (by simpa using hfuel)
          rw [← ofNat_succ] at hloop
          simp only [listCountLoop, hx, hnext, Option.bind_eq_bind, Option.bind_some, hloop,
            List.length_cons]
          rw [Nat.add_assoc, Nat.add_comm 1]

theorem listCount_holds (hs : Holds h root ns) :
    listCount h root = some (Int32.ofNat ns.length) := by
  cases root with
  | none =>
      obtain rfl : ns = [] := hs.eq_nil
      rfl
  | some r =>
      rw [listCount, ← Nat.zero_add ns.length]
      exact listCountLoop_eq 0 hs hs.length_le

end Search

section Free

variable {h : ItemHeap} {root : Option Addr} {ns : List (Addr × Data)}

-- Every item is read once and given back once, and nothing else is touched.
theorem listFree_holds (hs : Holds h root ns) :
    ∃ h', listFree h root = some (h', releases (ns.map Prod.fst)) ∧
      (∀ a ∈ ns.map Prod.fst, h'.cell a = none) ∧
      ∀ a, a ∉ ns.map Prod.fst → h'.cell a = h.cell a := by
  obtain ⟨h', hloop, hgone, hkept⟩ := freeLoop_segment Item.next [] hs hs.length_le
  rw [List.nil_append] at hloop
  exact ⟨h', hloop, hgone, hkept⟩

end Free

section Remove

variable {h : ItemHeap} {root : Option Addr} {ns : List (Addr × Data)}

-- An item behind another one taken out.
theorem remove_after {us vs : List (Addr × Data)} {a b : Addr} {x y : Item}
    (hs : Holds h root (us ++ (a, x.K) :: (b, y.K) :: vs)) (hx : h.cell a = some x)
    (hy : h.cell b = some y) :
    ∃ h', (setNext h a y.next).bind (fun h => h.free b) = some h' ∧
      Holds h' root (us ++ (a, x.K) :: vs) ∧
      SameOutside h h' (us ++ (a, x.K) :: (b, y.K) :: vs) := by
  have hcut : us ++ (a, x.K) :: (b, y.K) :: vs = (us ++ [(a, x.K)]) ++ (b, y.K) :: vs := by simp
  have hb := hcut ▸ hs
  obtain ⟨hbus, hbvs⟩ := hb.notMem_of_append
  obtain ⟨haus, havs⟩ := hs.notMem_of_append
  have hab : a ≠ b := fun he => havs (by simp [he])
  obtain ⟨m, hus, hp, x', -, -, hrest⟩ := segment_append.mp hs
  obtain rfl : m = some a := hp
  obtain ⟨-, y', hy', -, hvs⟩ := hrest
  obtain rfl := Option.some.inj (hy.symm.trans hy')
  have hlinked : Holds (putNext h a y.next) root ((us ++ [(a, x.K)]) ++ vs) := by
    refine segment_append.mpr ⟨y.next, relink_last hus hx haus _, frame_putNext hvs ?_ _⟩
    exact fun hmem => havs (List.mem_cons_of_mem _ hmem)
  have hglue : us ++ (a, x.K) :: vs = (us ++ [(a, x.K)]) ++ vs := by simp
  have hlive : (putNext h a y.next).Live b :=
    Heap.live_of_cell _ ((putNext_cell_ne hab.symm _).trans hy)
  refine ⟨(putNext h a y.next).update b (fun _ => none), ?_, ?_, ?_⟩
  · rw [setNext_of_cell hx, Option.bind_some, Heap.free_of_live _ b hlive]
  · rw [hglue]
    apply hlinked.frame
    intro c hc
    apply Heap.update_cell_ne
    rintro rfl
    rw [List.map_append, List.mem_append] at hc
    exact hc.elim hbus hbvs
  · intro c hc
    have hca : c ≠ a := fun he => hc (by simp [he])
    have hcb : c ≠ b := fun he => hc (by simp [he])
    rw [Heap.update_cell_ne _ b c _ hcb, putNext_cell_ne hca]

-- The search is at `b`, behind `a`; it has not met the id before.
theorem listRemoveLoop_eq (hs : Holds h root ns) (K : Data) (fuel : Nat) (us vs : List (Addr × Data))
    (a b : Addr) (ka kb : Data) (hns : ns = us ++ (a, ka) :: (b, kb) :: vs)
    (hK : ∀ n ∈ us ++ [(a, ka)], n.2.id ≠ K.id) (hfuel : vs.length < fuel) :
    ((∀ n ∈ ns, n.2.id ≠ K.id) ∧ listRemoveLoop h K fuel a b = some none) ∨
    ∃ us' vs' a' b' ka' kb', ns = us' ++ (a', ka') :: (b', kb') :: vs' ∧ kb'.id = K.id ∧
      (∀ n ∈ us' ++ [(a', ka')], n.2.id ≠ K.id) ∧
      listRemoveLoop h K fuel a b = some (some (a', b')) := by
  induction fuel generalizing us vs a b ka kb with
  | zero => omega
  | succ fuel ih =>
      have hcut : us ++ (a, ka) :: (b, kb) :: vs = (us ++ [(a, ka)]) ++ (b, kb) :: vs := by simp
      have hpath : Holds h root (us ++ (a, ka) :: (b, kb) :: vs) := hns ▸ hs
      obtain ⟨m, -, -, x, hx, -, hp, y, hy, rfl, hrest⟩ := segment_append.mp hpath
      by_cases hid : y.K.id = K.id
      · refine Or.inr ⟨us, vs, a, b, ka, y.K, hns, hid, hK, ?_⟩
        simp [listRemoveLoop, hy, (equalData_iff y.K K).mpr hid]
      · have hK' : ∀ n ∈ (us ++ [(a, ka)]) ++ [(b, y.K)], n.2.id ≠ K.id := by
          intro n hn
          rcases List.mem_append.mp hn with hn | hn
          · exact hK n hn
          · obtain rfl := List.mem_singleton.mp hn
            exact hid
        cases hnext : y.next with
        | none =>
            rw [hnext] at hrest
            obtain rfl : vs = [] := hrest.eq_nil
            refine Or.inl ⟨by rw [hns, hcut]; exact hK', ?_⟩
            simp [listRemoveLoop, hy, equalData_eq_false hid, hnext]
        | some next =>
            cases vs with
            | nil =>
                rw [hnext] at hrest
                cases hrest
            | cons v vs =>
                obtain rfl : next = v.1 := Option.some.inj (hnext.symm.trans hrest.1)
                have hloop : listRemoveLoop h K (fuel + 1) a b = listRemoveLoop h K fuel b v.1 := by
                  simp [listRemoveLoop, hy, equalData_eq_false hid, hnext, hx, hp]
                rw [hloop]
                exact ih (us ++ [(a, ka)]) vs b v.1 y.K v.2 (by rw [hns, hcut]) hK'
                  (by simpa using hfuel)

-- The node of the first item with the id and the nodes before it.
theorem eraseP_middle {us vs : List (Addr × Data)} {n : Addr × Data} {K : Data}
    (hus : ∀ u ∈ us, u.2.id ≠ K.id) (hn : n.2.id = K.id) :
    (us ++ n :: vs).eraseP (fun n => n.2.id == K.id) = us ++ vs := by
  rw [List.eraseP_append_right _ (fun u hu => by simpa using hus u hu),
    List.eraseP_cons_of_pos (by simpa using hn)]

-- How the search that starts behind the first item ends.
theorem listRemoveLoop_start {r : Addr} {x : Item} {b : Addr} {kb : Data} {vs : List (Addr × Data)}
    (hs : Holds h (some r) ((r, x.K) :: (b, kb) :: vs)) {K : Data} (hne : x.K.id ≠ K.id) :
    ((∀ n ∈ (r, x.K) :: (b, kb) :: vs, n.2.id ≠ K.id) ∧ listRemoveLoop h K h.brk r b = some none) ∨
    ∃ us' vs' a' b' ka' kb', (r, x.K) :: (b, kb) :: vs = us' ++ (a', ka') :: (b', kb') :: vs' ∧
      kb'.id = K.id ∧ (∀ n ∈ us' ++ [(a', ka')], n.2.id ≠ K.id) ∧
      listRemoveLoop h K h.brk r b = some (some (a', b')) := by
  have hlen := hs.length_le
  simp only [List.length_cons] at hlen
  exact listRemoveLoop_eq hs K h.brk [] vs r b x.K kb rfl (by simpa using hne) (by omega)

theorem listRemove_absent (hs : Holds h root ns) {K : Data} (hK : ∀ n ∈ ns, n.2.id ≠ K.id) :
    listRemove h root K = some (0, h, root) := by
  cases ns with
  | nil =>
      obtain rfl : root = none := hs
      rfl
  | cons n ns =>
      obtain ⟨r, kr⟩ := n
      have hpath := hs
      obtain ⟨rfl, x, hx, rfl, hrest⟩ := hs
      have hne : x.K.id ≠ K.id := hK (r, x.K) List.mem_cons_self
      cases ns with
      | nil =>
          have hnext : x.next = none := hrest
          simp [listRemove, hx, equalData_eq_false hne, hnext]
      | cons n ns =>
          obtain ⟨hnext, -⟩ := hrest
          rcases listRemoveLoop_start hpath hne with ⟨-, hloop⟩ |
            ⟨us', vs', a', b', ka', kb', hns, hid, -, -⟩
          · simp [listRemove, hx, equalData_eq_false hne, hnext, hloop]
          · exact absurd hid (hK (b', kb') (by rw [hns]; simp))

-- The first item with the id is the one that goes.
theorem listRemove_first (hs : Holds h root ns) {K : Data} (hK : ∃ n ∈ ns, n.2.id = K.id) :
    ∃ h' root', listRemove h root K = some (1, h', root') ∧
      Holds h' root' (ns.eraseP (fun n => n.2.id == K.id)) ∧ SameOutside h h' ns := by
  cases ns with
  | nil => simp at hK
  | cons n ns =>
      obtain ⟨r, kr⟩ := n
      have hpath := hs
      have hnotmem := (List.nodup_cons.mp hs.nodup).1
      obtain ⟨rfl, x, hx, rfl, hrest⟩ := hs
      by_cases hid : x.K.id = K.id
      · refine ⟨h.update r (fun _ => none), x.next, ?_, ?_, ?_⟩
        · simp [listRemove, hx, (equalData_iff x.K K).mpr hid, h.free_of_live r (h.live_of_cell hx)]
        · rw [List.eraseP_cons_of_pos (by simpa using hid)]
          exact hrest.frame (fun a ha => h.update_cell_ne r a _ (ne_of_mem_of_not_mem ha hnotmem))
        · exact fun a ha => h.update_cell_ne r a _ (fun he => ha (by simp [he]))
      · cases ns with
        | nil =>
            obtain ⟨n, hn, hnid⟩ := hK
            obtain rfl := List.mem_singleton.mp hn
            exact absurd hnid hid
        | cons n ns =>
            obtain ⟨hnext, -⟩ := hrest
            rcases listRemoveLoop_start hpath hid with ⟨hnone, -⟩ |
              ⟨us', vs', a', b', ka', kb', hns, hid', hfirst, hloop⟩
            · obtain ⟨n, hn, hnid⟩ := hK
              exact absurd hnid (hnone n hn)
            · rw [hns] at hpath ⊢
              have hcut : us' ++ (a', ka') :: (b', kb') :: vs' =
                  (us' ++ [(a', ka')]) ++ (b', kb') :: vs' := by simp
              obtain ⟨m, -, -, x', hx', rfl, -, y, hy, rfl, -⟩ := segment_append.mp hpath
              obtain ⟨h', hcall, hheld, hsame⟩ := remove_after hpath hx' hy
              obtain ⟨h1, hset, hfree⟩ := Option.bind_eq_some_iff.mp hcall
              refine ⟨h', some r, ?_, ?_, hsame⟩
              · simp [listRemove, hx, equalData_eq_false hid, hnext, hloop, hy, hset, hfree]
              · rw [hcut, eraseP_middle hfirst hid']
                simpa using hheld

end Remove

section List

-- What the operations do to a list, told of the list of its nodes.
structure ImplementsList (h : ItemHeap) (root : Option Addr) (ns : List (Addr × Data)) : Prop where
  insert : ∀ K, ∃ h', listInsert h root K = (h', some h.brk) ∧
    Holds h' (some h.brk) ((h.brk, K) :: ns) ∧ SameOutside h h' [(h.brk, K)]
  append_null : listAppend h root none = some (h, root)
  append : ∀ o x, o ∉ ns.map Prod.fst → h.cell o = some x →
    ∃ h', listAppend h root (some o) = some (h', root.or (some o)) ∧
      Holds h' (root.or (some o)) (ns ++ [(o, x.K)]) ∧ SameOutside h h' (ns ++ [(o, x.K)])
  first_nil : ns = [] → listFirst h root = some (none, h, none)
  first_cons : ∀ a K rest, ns = (a, K) :: rest →
    ∃ h' root', listFirst h root = some (some a, h', root') ∧ h'.cell a = some ⟨K, none⟩ ∧
      Holds h' root' rest ∧ SameOutside h h' [(a, K)]
  remove_first : ∀ K : Data, (∃ n ∈ ns, n.2.id = K.id) →
    ∃ h' root', listRemove h root K = some (1, h', root') ∧
      Holds h' root' (ns.eraseP (fun n => n.2.id == K.id)) ∧ SameOutside h h' ns
  remove_absent : ∀ K : Data, (∀ n ∈ ns, n.2.id ≠ K.id) →
    listRemove h root K = some (0, h, root)
  search : ∀ K, listSearch h root K = some ((ns.find? (fun n => n.2.id == K.id)).map Prod.fst)
  concatenate : ∀ root' ms, Holds h root' ms → List.Disjoint (ns.map Prod.fst) (ms.map Prod.fst) →
    ∃ h', listsConcatenate h root root' = some (h', root.or root') ∧
      Holds h' (root.or root') (ns ++ ms) ∧ SameOutside h h' ns
  count : ∃ count, listCount h root = some count ∧ (count.toInt = ns.length ↔ ns.length < 2 ^ 31)

variable {h : ItemHeap} {root : Option Addr} {ns : List (Addr × Data)}

theorem items_implement_list (hs : Holds h root ns) : ImplementsList h root ns where
  insert := listInsert_holds hs
  append_null := rfl
  append := fun _ _ ho hx => listAppend_holds hs ho hx
  first_nil := by
    rintro rfl
    exact listFirst_nil hs
  first_cons := by
    rintro a K rest rfl
    exact listFirst_cons hs
  remove_first := fun _ hK => listRemove_first hs hK
  remove_absent := fun _ hK => listRemove_absent hs hK
  search := listSearch_holds hs
  concatenate := fun _ _ hs' hdisj => listsConcatenate_holds hs hs' hdisj
  count := ⟨_, listCount_holds hs, toInt_ofNat_eq_iff _⟩

-- Two photos with one id, the later one first.
theorem items_implement_list_sameId :
    ∃ h root, Holds h root [(1, setData [98] 7), (0, setData [97] 7)] ∧
      ImplementsList h root [(1, setData [98] 7), (0, setData [97] 7)] := by
  have hempty : Holds Heap.empty none [] := rfl
  obtain ⟨h, hcall, hfirst, -⟩ := listInsert_holds hempty (setData [97] 7)
  obtain rfl := (Prod.mk.inj hcall).1
  obtain ⟨h, -, hsecond, -⟩ := listInsert_holds hfirst (setData [98] 7)
  exact ⟨h, some 1, hsecond, items_implement_list hsecond⟩

-- One photo inserted over and over into an empty list.
def listOf (K : Data) : Nat → ItemHeap × Option Addr
  | 0 => (Heap.empty, none)
  | n + 1 => listInsert (listOf K n).1 (listOf K n).2 K

theorem listOf_holds (K : Data) (n : Nat) :
    ∃ ns, Holds (listOf K n).1 (listOf K n).2 ns ∧ ns.length = n := by
  induction n with
  | zero => exact ⟨[], rfl, rfl⟩
  | succ n ih =>
      obtain ⟨ns, hs, hlen⟩ := ih
      obtain ⟨h', hcall, hs', -⟩ := listInsert_holds hs K
      refine ⟨((listOf K n).1.brk, K) :: ns, ?_, by rw [List.length_cons, hlen]⟩
      rw [listOf, hcall]
      exact hs'

theorem listCount_wraps :
    ∃ ns, Holds (listOf (setData [97] 7) (2 ^ 31)).1 (listOf (setData [97] 7) (2 ^ 31)).2 ns ∧
      ns.length = 2 ^ 31 ∧
      ¬ ∃ count, listCount (listOf (setData [97] 7) (2 ^ 31)).1
        (listOf (setData [97] 7) (2 ^ 31)).2 = some count ∧ count.toInt = ns.length := by
  obtain ⟨ns, hs, hlen⟩ := listOf_holds (setData [97] 7) (2 ^ 31)
  refine ⟨ns, hs, hlen, ?_⟩
  rintro ⟨count, hcall, hcount⟩
  rw [listCount_holds hs] at hcall
  obtain rfl := Option.some.inj hcall
  rw [toInt_ofNat_eq_iff, hlen] at hcount
  exact Nat.lt_irrefl _ hcount

end List

section Refinement

variable {h : ItemHeap} {root : Option Addr} {ns : List (Addr × Data)}

-- The data of a list in the order of its nodes.
def photos (ns : List (Addr × Data)) : List Data := ns.map Prod.snd

theorem listRemove_refines (hs : Holds h root ns) (K : Data) :
    ∃ h' root' ns', listRemove h root K = some ((Gallery.listRemove (photos ns) K).1, h', root') ∧
      Holds h' root' ns' ∧ photos ns' = (Gallery.listRemove (photos ns) K).2 := by
  have hids : (photos ns).map Data.id = ns.map (fun n => n.2.id) := List.map_map
  rw [listRemove_fst, listRemove_snd, hids]
  by_cases hK : ∃ n ∈ ns, n.2.id = K.id
  · obtain ⟨h', root', hcall, hheld, -⟩ := listRemove_first hs hK
    refine ⟨h', root', _, ?_, hheld, ?_⟩
    · rw [if_pos (List.mem_map.mpr hK), hcall]
    · rw [photos, photos, List.eraseP_map]
      rfl
  · have hnone : ∀ n ∈ ns, n.2.id ≠ K.id := fun n hn he => hK ⟨n, hn, he⟩
    refine ⟨h, root, ns, ?_, hs, ?_⟩
    · rw [if_neg (fun hmem => hK (List.mem_map.mp hmem)), listRemove_absent hs hnone]
    · refine (List.eraseP_of_forall_not ?_).symm
      intro q hq
      obtain ⟨n, hn, rfl⟩ := List.mem_map.mp hq
      exact fun he => hnone n hn ((equalData_iff _ _).mp he)

theorem listSearch_refines (hs : Holds h root ns) (K : Data) :
    ∃ aux, listSearch h root K = some aux ∧
      aux.bind (fun a => (h.cell a).map Item.K) = Gallery.listSearch (photos ns) K := by
  refine ⟨_, listSearch_holds hs K, ?_⟩
  rw [listSearch_eq_find, photos, List.find?_map]
  change _ = (ns.find? (fun n => n.2.id == K.id)).map Prod.snd
  cases hfind : ns.find? (fun n => n.2.id == K.id) with
  | none => rfl
  | some n =>
      obtain ⟨x, hx, hk⟩ := hs.cell n (List.mem_of_find?_eq_some hfind)
      simp [hx, hk]

-- A write through the pointer that the search returned reaches the first item with the id.
theorem write_refines (hs : Holds h root ns) (K : Data) (f : Data → Data) {a : Addr}
    (ha : listSearch h root K = some (some a)) :
    ∃ h' ns', h.modify a (fun n => { n with K := f n.K }) = some h' ∧ Holds h' root ns' ∧
      photos ns' = listUpdate (photos ns) K f := by
  rw [listSearch_holds hs] at ha
  obtain ⟨n, hfind, rfl⟩ := Option.map_eq_some_iff.mp (Option.some.inj ha)
  obtain ⟨hid, us, vs, rfl, hus⟩ := List.find?_eq_some_iff_append.mp hfind
  obtain ⟨hnus, hnvs⟩ := hs.notMem_of_append
  obtain ⟨m, hpath, rfl, x, hx, hk, hrest⟩ := segment_append.mp hs
  have hother : ∀ b, b ≠ n.1 →
      (h.update n.1 (fun x => some { x with K := f x.K })).cell b = h.cell b :=
    fun b hb => h.update_cell_ne n.1 b _ hb
  refine ⟨_, us ++ (n.1, f n.2) :: vs, h.modify_of_live n.1 _ (h.live_of_cell hx), ?_, ?_⟩
  · refine segment_append.mpr ⟨some n.1, ?_, rfl, _, h.update_cell_self _ hx, ?_, ?_⟩
    · exact hpath.frame (fun b hb => hother b (ne_of_mem_of_not_mem hb hnus))
    · exact congrArg f hk
    · exact hrest.frame (fun b hb => hother b (ne_of_mem_of_not_mem hb hnvs))
  · simp only [photos, List.map_append, List.map_cons]
    rw [listUpdate_append f _ (by simpa using hid)]
    intro u hu
    obtain ⟨v, hv, rfl⟩ := List.mem_map.mp hu
    simpa using hus v hv

end Refinement

end Items

end Gallery
