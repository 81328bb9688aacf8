import Mathlib.Data.List.Chain
import Mathlib.Data.List.Nodup
import Mathlib.Data.List.Perm.Subperm

namespace Gallery

abbrev Addr := Nat

-- The nodes of a process. Addresses from `brk` on were never handed out.
structure Heap (α : Type) where
  cell : Addr → Option α
  brk : Addr
  fresh : ∀ a, brk ≤ a → cell a = none

namespace Heap

section Cells

variable {α : Type} (h : Heap α)

def empty : Heap α := ⟨fun _ => none, 0, fun _ _ => rfl⟩

def Live (a : Addr) : Prop := (h.cell a).isSome = true

instance (a : Addr) : Decidable (h.Live a) := inferInstanceAs (Decidable (_ = _))

-- A cell changed in place; an address that is not live stays so.
def update (a : Addr) (f : α → Option α) : Heap α where
  cell b := if b = a then (h.cell a).bind f else h.cell b
  brk := h.brk
  fresh b hb := by
    by_cases hba : b = a
    · subst hba
      rw [if_pos rfl, h.fresh b hb, Option.bind_none]
    · rw [if_neg hba, h.fresh b hb]

-- Allocation gives an address no live cell has; `none` is a null dereference or
-- the use of a freed cell.
def alloc (x : α) : Addr × Heap α :=
  (h.brk, {
    cell := fun b => if b = h.brk then some x else h.cell b
    brk := h.brk + 1
    fresh := fun b hb => by rw [if_neg (Nat.ne_of_gt hb), h.fresh b (Nat.le_of_succ_le hb)] })

def modify (a : Addr) (f : α → α) : Option (Heap α) :=
  if h.Live a then some (h.update a (fun x => some (f x))) else none

def free (a : Addr) : Option (Heap α) :=
  if h.Live a then some (h.update a (fun _ => none)) else none

theorem lt_brk_of_live (a : Addr) (ha : h.Live a) : a < h.brk := by
  by_contra hlt
  rw [Live, h.fresh a (Nat.le_of_not_lt hlt)] at ha
  cases ha

theorem modify_of_live (a : Addr) (f : α → α) (ha : h.Live a) :
    h.modify a f = some (h.update a (fun x => some (f x))) := if_pos ha

theorem free_of_live (a : Addr) (ha : h.Live a) : h.free a = some (h.update a (fun _ => none)) :=
  if_pos ha

theorem update_cell_ne (a b : Addr) (f : α → Option α) (hb : b ≠ a) :
    (h.update a f).cell b = h.cell b := if_neg hb

@[simp] theorem update_brk (a : Addr) (f : α → Option α) : (h.update a f).brk = h.brk := rfl

@[simp] theorem alloc_brk (x : α) : (h.alloc x).2.brk = h.brk + 1 := rfl

theorem alloc_cell (x : α) (a : Addr) :
    (h.alloc x).2.cell a = if a = h.brk then some x else h.cell a := rfl

end Cells

end Heap

-- A node of a doubly linked list.
structure Node (κ : Type) where
  K : κ
  next : Option Addr
  prev : Option Addr

namespace Heap

section Links

variable {κ : Type} (h : Heap (Node κ))

def key (a : Addr) : Option κ := (h.cell a).map Node.K

def next (a : Addr) : Option Addr := (h.cell a).bind Node.next

def prev (a : Addr) : Option Addr := (h.cell a).bind Node.prev

def putNext (a : Addr) (x : Option Addr) : Heap (Node κ) :=
  h.update a (fun n => some { n with next := x })

def putPrev (a : Addr) (x : Option Addr) : Heap (Node κ) :=
  h.update a (fun n => some { n with prev := x })

def drop (a : Addr) : Heap (Node κ) := h.update a (fun _ => none)

def setNext (a : Addr) (x : Option Addr) : Option (Heap (Node κ)) :=
  h.modify a (fun n => { n with next := x })

def setPrev (a : Addr) (x : Option Addr) : Option (Heap (Node κ)) :=
  h.modify a (fun n => { n with prev := x })

theorem live_of_key {a : Addr} {k : κ} (ha : h.key a = some k) : h.Live a := by
  rw [key] at ha
  rw [Live]
  cases hc : h.cell a with
  | none => rw [hc] at ha; cases ha
  | some n => rfl

theorem setNext_of_live (a : Addr) (x : Option Addr) (ha : h.Live a) :
    h.setNext a x = some (h.putNext a x) := h.modify_of_live a _ ha

theorem setPrev_of_live (a : Addr) (x : Option Addr) (ha : h.Live a) :
    h.setPrev a x = some (h.putPrev a x) := h.modify_of_live a _ ha

@[simp] theorem key_putNext (a : Addr) (x : Option Addr) (b : Addr) :
    (h.putNext a x).key b = h.key b := by
  by_cases hb : b = a
  · subst hb
    cases hc : h.cell b <;> simp [key, putNext, update, hc]
  · simp [key, putNext, update, hb]

@[simp] theorem key_putPrev (a : Addr) (x : Option Addr) (b : Addr) :
    (h.putPrev a x).key b = h.key b := by
  by_cases hb : b = a
  · subst hb
    cases hc : h.cell b <;> simp [key, putPrev, update, hc]
  · simp [key, putPrev, update, hb]

@[simp] theorem prev_putNext (a : Addr) (x : Option Addr) (b : Addr) :
    (h.putNext a x).prev b = h.prev b := by
  by_cases hb : b = a
  · subst hb
    cases hc : h.cell b <;> simp [prev, putNext, update, hc]
  · simp [prev, putNext, update, hb]

@[simp] theorem next_putPrev (a : Addr) (x : Option Addr) (b : Addr) :
    (h.putPrev a x).next b = h.next b := by
  by_cases hb : b = a
  · subst hb
    cases hc : h.cell b <;> simp [next, putPrev, update, hc]
  · simp [next, putPrev, update, hb]

theorem next_putNext (a : Addr) (x : Option Addr) (b : Addr) (ha : h.Live a) :
    (h.putNext a x).next b = if b = a then x else h.next b := by
  by_cases hb : b = a
  · subst hb
    obtain ⟨n, hn⟩ := Option.isSome_iff_exists.mp ha
    simp [next, putNext, update, hn]
  · simp [next, putNext, update, hb]

theorem prev_putPrev (a : Addr) (x : Option Addr) (b : Addr) (ha : h.Live a) :
    (h.putPrev a x).prev b = if b = a then x else h.prev b := by
  by_cases hb : b = a
  · subst hb
    obtain ⟨n, hn⟩ := Option.isSome_iff_exists.mp ha
    simp [prev, putPrev, update, hn]
  · simp [prev, putPrev, update, hb]

@[simp] theorem live_putNext (a : Addr) (x : Option Addr) (b : Addr) :
    (h.putNext a x).Live b ↔ h.Live b := by
  simpa [key, Live] using congrArg Option.isSome (h.key_putNext a x b)

@[simp] theorem live_putPrev (a : Addr) (x : Option Addr) (b : Addr) :
    (h.putPrev a x).Live b ↔ h.Live b := by
  simpa [key, Live] using congrArg Option.isSome (h.key_putPrev a x b)

theorem drop_cell_ne (a b : Addr) (hb : b ≠ a) : (h.drop a).cell b = h.cell b :=
  h.update_cell_ne a b _ hb

theorem key_drop (a b : Addr) (hb : b ≠ a) : (h.drop a).key b = h.key b := by
  rw [key, h.drop_cell_ne a b hb, key]

theorem next_drop (a b : Addr) (hb : b ≠ a) : (h.drop a).next b = h.next b := by
  rw [next, h.drop_cell_ne a b hb, next]

theorem prev_drop (a b : Addr) (hb : b ≠ a) : (h.drop a).prev b = h.prev b := by
  rw [prev, h.drop_cell_ne a b hb, prev]

end Links

end Heap

section Circle

variable {κ : Type}

-- One step around the circle, in both directions.
def Linked (h : Heap (Node κ)) (a b : Addr) : Prop := h.next a = some b ∧ h.prev b = some a

-- A circle of nodes read from its root: `ns` lists their addresses and data.
structure Circle (h : Heap (Node κ)) (root : Option Addr) (ns : List (Addr × κ)) : Prop where
  root_eq : root = (ns.map Prod.fst).head?
  nodup : (ns.map Prod.fst).Nodup
  key : ∀ n ∈ ns, h.key n.1 = some n.2
  path : (ns.map Prod.fst).IsChain (Linked h)
  closed : ∀ l ∈ (ns.map Prod.fst).getLast?, ∀ f ∈ (ns.map Prod.fst).head?, Linked h l f

theorem circle_nil (h : Heap (Node κ)) : Circle h none [] :=
  ⟨rfl, by simp, by simp, by simp, by simp⟩

-- A path survives any change of the last node's `next` and the first one's `prev`.
theorem path_frame {h h' : Heap (Node κ)} (as : List Addr) (hnodup : as.Nodup)
    (hnext : ∀ a ∈ as, as.getLast? ≠ some a → h'.next a = h.next a)
    (hprev : ∀ b ∈ as, as.head? ≠ some b → h'.prev b = h.prev b)
    (hpath : as.IsChain (Linked h)) : as.IsChain (Linked h') := by
  induction as with
  | nil => exact List.isChain_nil
  | cons a as ih =>
      cases as with
      | nil => exact List.isChain_singleton a
      | cons b as =>
          rw [List.isChain_cons_cons] at hpath ⊢
          obtain ⟨ha, hnodup'⟩ := List.nodup_cons.mp hnodup
          have hlast : (a :: b :: as).getLast? = (b :: as).getLast? := by simp
          constructor
          · have hna : (a :: b :: as).getLast? ≠ some a := by
              rw [hlast]
              exact fun h => ha (List.mem_of_getLast? h)
            have hnb : (a :: b :: as).head? ≠ some b := by
              rw [List.head?_cons]
              exact fun h => ha (Option.some.inj h ▸ List.mem_cons_self)
            exact ⟨(hnext a (by simp) hna).trans hpath.1.1, (hprev b (by simp) hnb).trans hpath.1.2⟩
          · apply ih hnodup' _ _ hpath.2
            · intro c hc hne
              exact hnext c (List.mem_cons_of_mem a hc) (hlast ▸ hne)
            · intro c hc _
              apply hprev c (List.mem_cons_of_mem a hc)
              rw [List.head?_cons]
              exact fun h => ha (Option.some.inj h ▸ hc)

section Steps

variable {h : Heap (Node κ)} {root : Option Addr} {us vs : List (Addr × κ)} {a b : Addr} {k k' : κ}

theorem Circle.live {ns : List (Addr × κ)} (hc : Circle h root ns) (n : Addr × κ) (hn : n ∈ ns) :
    h.Live n.1 := h.live_of_key (hc.key n hn)

-- The number of nodes is bounded by the addresses handed out.
theorem Circle.length_le {ns : List (Addr × κ)} (hc : Circle h root ns) : ns.length ≤ h.brk := by
  have hsub : ns.map Prod.fst ⊆ List.range h.brk := by
    intro a ha
    obtain ⟨n, hn, rfl⟩ := List.mem_map.mp ha
    exact List.mem_range.mpr (h.lt_brk_of_live _ (hc.live n hn))
  simpa using (hc.nodup.subperm hsub).length_le

theorem Circle.linked (hc : Circle h root (us ++ (a, k) :: (b, k') :: vs)) : Linked h a b := by
  have hpath := hc.path
  rw [List.map_append, List.map_cons, List.map_cons, List.isChain_append_cons_cons] at hpath
  exact hpath.2.1

end Steps

-- A circle is left alone by whatever happens to other cells.
theorem Circle.frame {h h' : Heap (Node κ)} {root : Option Addr} {ns : List (Addr × κ)}
    (hc : Circle h root ns) (hcell : ∀ a ∈ ns.map Prod.fst, h'.cell a = h.cell a) :
    Circle h' root ns := by
  have hnext : ∀ a ∈ ns.map Prod.fst, h'.next a = h.next a :=
    fun a ha => by rw [Heap.next, hcell a ha]; rfl
  have hprev : ∀ a ∈ ns.map Prod.fst, h'.prev a = h.prev a :=
    fun a ha => by rw [Heap.prev, hcell a ha]; rfl
  refine ⟨hc.root_eq, hc.nodup, ?_, ?_, ?_⟩
  · intro n hn
    rw [Heap.key, hcell n.1 (List.mem_map_of_mem hn)]
    exact hc.key n hn
  · exact path_frame _ hc.nodup (fun a ha _ => hnext a ha) (fun a ha _ => hprev a ha) hc.path
  · intro l hl f hf
    obtain ⟨hlf, hfl⟩ := hc.closed l hl f hf
    exact ⟨(hnext l (List.mem_of_getLast? hl)).trans hlf, (hprev f (List.mem_of_head? hf)).trans hfl⟩

-- A circle has no distinguished node: any of them can be the root.
theorem Circle.rotate {h : Heap (Node κ)} {root : Option Addr} {us vs : List (Addr × κ)}
    (hvs : vs ≠ []) (hc : Circle h root (us ++ vs)) :
    Circle h (vs.map Prod.fst).head? (vs ++ us) := by
  obtain ⟨v, vs, rfl⟩ := List.exists_cons_of_ne_nil hvs
  have hnodup := hc.nodup
  have hpath := hc.path
  have hclosed := hc.closed
  simp only [List.map_append] at hnodup hpath hclosed
  obtain ⟨hus, hvs', hlink⟩ := List.isChain_append.mp hpath
  obtain ⟨l, hl⟩ : ∃ l, ((v :: vs).map Prod.fst).getLast? = some l :=
    ⟨_, List.getLast?_eq_some_getLast (by simp)⟩
  have hlast : (us.map Prod.fst ++ (v :: vs).map Prod.fst).getLast? = some l := by
    rw [List.getLast?_append, hl, Option.some_or]
  refine ⟨by simp, ?_, ?_, ?_, ?_⟩
  · rw [List.map_append]
    exact List.nodup_append_comm.mp hnodup
  · intro n hn
    exact hc.key n (List.mem_append.mpr (List.mem_append.mp hn).symm)
  · rw [List.map_append, List.isChain_append]
    refine ⟨hvs', hus, ?_⟩
    intro a ha f hf
    obtain rfl := Option.some.inj (hl.symm.trans ha)
    apply hclosed l hlast f
    rw [List.head?_append, Option.mem_def.mp hf, Option.some_or]
    rfl
  · intro a ha f hf
    rw [List.map_append] at ha hf
    have hf : ((v :: vs).map Prod.fst).head? = some f := by simpa using hf
    cases hus' : (us.map Prod.fst).getLast? with
    | none =>
        have hnil : us.map Prod.fst = [] := List.getLast?_eq_none_iff.mp hus'
        rw [hnil, List.append_nil] at ha
        rw [hnil, List.nil_append] at hclosed
        exact hclosed a ha f hf
    | some u =>
        rw [List.getLast?_append, hus', Option.some_or] at ha
        obtain rfl := Option.some.inj ha
        exact hlink u hus' f hf

section Surgery

variable {h h' : Heap (Node κ)} {root : Option Addr}

-- A node between the last one and the root.
theorem Circle.insert_last {ns : List (Addr × κ)} {r l o : Addr} {k : κ} (hc : Circle h root ns)
    (hr : (ns.map Prod.fst).head? = some r) (hl : (ns.map Prod.fst).getLast? = some l)
    (ho : o ∉ ns.map Prod.fst) (hkey : ∀ a ∈ ns.map Prod.fst, h'.key a = h.key a)
    (hko : h'.key o = some k) (hlo : Linked h' l o) (hor : Linked h' o r)
    (hnext : ∀ a ∈ ns.map Prod.fst, a ≠ l → h'.next a = h.next a)
    (hprev : ∀ b ∈ ns.map Prod.fst, b ≠ r → h'.prev b = h.prev b) :
    Circle h' root (ns ++ [(o, k)]) := by
  have hmap : (ns ++ [(o, k)]).map Prod.fst = ns.map Prod.fst ++ [o] := by simp
  have hhead : (ns.map Prod.fst ++ [o]).head? = some r := by
    rw [List.head?_append, hr, Option.some_or]
  have hpath : (ns.map Prod.fst).IsChain (Linked h') := by
    apply path_frame _ hc.nodup _ _ hc.path
    · intro a ha hne
      exact hnext a ha (fun hal => hne (hal ▸ hl))
    · intro b hb hne
      exact hprev b hb (fun hbr => hne (hbr ▸ hr))
  refine ⟨?_, ?_, ?_, ?_, ?_⟩
  · rw [hmap, hhead, ← hr]
    exact hc.root_eq
  · rw [hmap]
    refine List.nodup_append.mpr ⟨hc.nodup, List.nodup_singleton o, ?_⟩
    intro a ha b hb
    obtain rfl := List.mem_singleton.mp hb
    exact fun hab => ho (hab ▸ ha)
  · intro n hn
    rcases List.mem_append.mp hn with hn | hn
    · rw [hkey n.1 (List.mem_map_of_mem hn), hc.key n hn]
    · obtain rfl := List.mem_singleton.mp hn
      exact hko
  · rw [hmap, List.isChain_append]
    refine ⟨hpath, List.isChain_singleton o, ?_⟩
    intro a ha b hb
    obtain rfl := Option.some.inj (hl.symm.trans ha)
    obtain rfl := Option.some.inj hb
    exact hlo
  · intro a ha b hb
    rw [hmap] at ha hb
    obtain rfl := Option.some.inj (List.getLast?_concat.symm.trans ha)
    obtain rfl := Option.some.inj (hhead.symm.trans hb)
    exact hor

-- The root taken out: the node after it becomes the root.
theorem Circle.remove_first {ns : List (Addr × κ)} {r s l : Addr} {kr : κ}
    (hc : Circle h root ((r, kr) :: ns)) (hs : (ns.map Prod.fst).head? = some s)
    (hl : (ns.map Prod.fst).getLast? = some l)
    (hkey : ∀ a ∈ ns.map Prod.fst, h'.key a = h.key a) (hls : Linked h' l s)
    (hnext : ∀ a ∈ ns.map Prod.fst, a ≠ l → h'.next a = h.next a)
    (hprev : ∀ b ∈ ns.map Prod.fst, b ≠ s → h'.prev b = h.prev b) :
    Circle h' (some s) ns := by
  have hnodup := (List.nodup_cons.mp hc.nodup).2
  refine ⟨hs.symm, hnodup, ?_, ?_, ?_⟩
  · intro n hn
    rw [hkey n.1 (List.mem_map_of_mem hn), hc.key n (List.mem_cons_of_mem _ hn)]
  · apply path_frame _ hnodup _ _ (List.isChain_cons.mp hc.path).2
    · intro a ha hne
      exact hnext a ha (fun hal => hne (hal ▸ hl))
    · intro b hb hne
      exact hprev b hb (fun hbs => hne (hbs ▸ hs))
  · intro a ha b hb
    obtain rfl := Option.some.inj (hl.symm.trans ha)
    obtain rfl := Option.some.inj (hs.symm.trans hb)
    exact hls

-- Two circles made one: the last node of each is followed by the root of the other.
theorem Circle.join {ns ms : List (Addr × κ)} {root' : Option Addr} {r1 l1 r2 l2 : Addr}
    (hc : Circle h root ns) (hd : Circle h root' ms) (hr1 : (ns.map Prod.fst).head? = some r1)
    (hl1 : (ns.map Prod.fst).getLast? = some l1) (hr2 : (ms.map Prod.fst).head? = some r2)
    (hl2 : (ms.map Prod.fst).getLast? = some l2)
    (hdisj : ((ns ++ ms).map Prod.fst).Nodup)
    (hkey : ∀ a ∈ (ns ++ ms).map Prod.fst, h'.key a = h.key a) (h12 : Linked h' l1 r2)
    (h21 : Linked h' l2 r1)
    (hnext : ∀ a ∈ (ns ++ ms).map Prod.fst, a ≠ l1 → a ≠ l2 → h'.next a = h.next a)
    (hprev : ∀ b ∈ (ns ++ ms).map Prod.fst, b ≠ r1 → b ≠ r2 → h'.prev b = h.prev b) :
    Circle h' root (ns ++ ms) := by
  rw [List.map_append] at hdisj hkey hnext hprev
  have hne : ∀ a ∈ ns.map Prod.fst, ∀ b ∈ ms.map Prod.fst, a ≠ b := (List.nodup_append.mp hdisj).2.2
  have hhead : (ns.map Prod.fst ++ ms.map Prod.fst).head? = some r1 := by
    rw [List.head?_append, hr1, Option.some_or]
  have hlast : (ns.map Prod.fst ++ ms.map Prod.fst).getLast? = some l2 := by
    rw [List.getLast?_append, hl2, Option.some_or]
  have hpath1 : (ns.map Prod.fst).IsChain (Linked h') := by
    apply path_frame _ hc.nodup _ _ hc.path
    · intro a ha hal
      exact hnext a (List.mem_append_left _ ha) (fun he => hal (he ▸ hl1))
        (hne a ha l2 (List.mem_of_getLast? hl2))
    · intro b hb hbr
      exact hprev b (List.mem_append_left _ hb) (fun he => hbr (he ▸ hr1))
        (hne b hb r2 (List.mem_of_head? hr2))
  have hpath2 : (ms.map Prod.fst).IsChain (Linked h') := by
    apply path_frame _ hd.nodup _ _ hd.path
    · intro a ha hal
      exact hnext a (List.mem_append_right _ ha) (hne l1 (List.mem_of_getLast? hl1) a ha).symm
        (fun he => hal (he ▸ hl2))
    · intro b hb hbr
      exact hprev b (List.mem_append_right _ hb) (hne r1 (List.mem_of_head? hr1) b hb).symm
        (fun he => hbr (he ▸ hr2))
  refine ⟨?_, ?_, ?_, ?_, ?_⟩
  · rw [List.map_append, hhead, ← hr1]
    exact hc.root_eq
  · rwa [List.map_append]
  · intro n hn
    rw [hkey n.1 (by simpa using List.mem_map_of_mem (f := Prod.fst) hn)]
    exact (List.mem_append.mp hn).elim (hc.key n) (hd.key n)
  · rw [List.map_append, List.isChain_append]
    refine ⟨hpath1, hpath2, ?_⟩
    intro a ha b hb
    obtain rfl := Option.some.inj (hl1.symm.trans ha)
    obtain rfl := Option.some.inj (hr2.symm.trans hb)
    exact h12
  · intro a ha b hb
    rw [List.map_append] at ha hb
    obtain rfl := Option.some.inj (hlast.symm.trans ha)
    obtain rfl := Option.some.inj (hhead.symm.trans hb)
    exact h21

-- The node after `b`, the root when `b` is the last.
def after (root : Option Addr) (vs : List (Addr × κ)) : Option Addr :=
  match vs with
  | [] => root
  | v :: _ => some v.1

theorem Circle.next_eq {us vs : List (Addr × κ)} {b : Addr} {kb : κ}
    (hc : Circle h root (us ++ (b, kb) :: vs)) : h.next b = after root vs := by
  cases vs with
  | nil =>
      have hlast : ((us ++ [(b, kb)]).map Prod.fst).getLast? = some b := by
        rw [List.map_append]
        exact List.getLast?_concat
      cases hroot : ((us ++ [(b, kb)]).map Prod.fst).head? with
      | none => simp at hroot
      | some r =>
          rw [after, hc.root_eq, hroot]
          exact (hc.closed b hlast r hroot).1
  | cons v vs => exact hc.linked.1

theorem Circle.next_last {us : List (Addr × κ)} {r b : Addr} {kb : κ}
    (hc : Circle h (some r) (us ++ [(b, kb)])) : h.next b = some r := hc.next_eq

-- A walk along `next` is back at the root only after the last node.
theorem Circle.next_cons {us vs : List (Addr × κ)} {r a b : Addr} {ka kb : κ}
    (hc : Circle h (some r) (us ++ (a, ka) :: (b, kb) :: vs)) : h.next a = some b ∧ b ≠ r := by
  refine ⟨hc.linked.1, ?_⟩
  have hcut : us ++ (a, ka) :: (b, kb) :: vs = (us ++ [(a, ka)]) ++ (b, kb) :: vs := by simp
  rw [hcut] at hc
  have hrmem : r ∈ (us ++ [(a, ka)]).map Prod.fst := by
    apply List.mem_of_head?
    rw [hc.root_eq]
    cases us <;> rfl
  have hnodup := hc.nodup
  rw [List.map_append] at hnodup
  exact fun he => (List.nodup_append.mp hnodup).2.2 r hrmem b (by simp) he.symm

theorem Circle.prev_after {us vs : List (Addr × κ)} {r : Addr} {n : Addr × κ}
    (hc : Circle h (some r) (us ++ n :: vs)) :
    ∃ t, after (some r) vs = some t ∧ h.next n.1 = some t ∧ h.prev t = some n.1 := by
  cases vs with
  | nil =>
      refine ⟨r, rfl, hc.next_last, (hc.closed n.1 ?_ r hc.root_eq.symm).2⟩
      rw [List.map_append]
      exact List.getLast?_concat
  | cons v vs => exact ⟨v.1, rfl, hc.linked.1, hc.linked.2⟩

theorem Circle.ne_root {us vs : List (Addr × κ)} {r : Addr} {n : Addr × κ} (hus : us ≠ [])
    (hc : Circle h (some r) (us ++ n :: vs)) : n.1 ≠ r := by
  obtain ⟨us, u, rfl⟩ : ∃ us' u, us = us' ++ [u] := by
    rcases List.eq_nil_or_concat' us with h | ⟨us', u, h⟩
    · exact absurd h hus
    · exact ⟨us', u, h⟩
  rw [List.append_assoc, List.singleton_append] at hc
  exact hc.next_cons.2

-- A node other than the root taken out.
theorem Circle.remove_after {us vs : List (Addr × κ)} {a b t : Addr} {ka kb : κ}
    (hc : Circle h root (us ++ (a, ka) :: (b, kb) :: vs)) (ht : after root vs = some t)
    (hkey : ∀ c ∈ (us ++ (a, ka) :: vs).map Prod.fst, h'.key c = h.key c) (hat : Linked h' a t)
    (hnext : ∀ c ∈ (us ++ (a, ka) :: vs).map Prod.fst, c ≠ a → h'.next c = h.next c)
    (hprev : ∀ c ∈ (us ++ (a, ka) :: vs).map Prod.fst, c ≠ t → h'.prev c = h.prev c) :
    Circle h' root (us ++ (a, ka) :: vs) := by
  have hcut : us ++ (a, ka) :: (b, kb) :: vs = (us ++ [(a, ka)]) ++ (b, kb) :: vs := by simp
  have hglue : us ++ (a, ka) :: vs = (us ++ [(a, ka)]) ++ vs := by simp
  rw [hcut] at hc
  rw [hglue] at hkey hnext hprev ⊢
  have hmem : ∀ c ∈ (vs ++ (us ++ [(a, ka)])).map Prod.fst,
      c ∈ ((us ++ [(a, ka)]) ++ vs).map Prod.fst := by
    intro c hc
    rw [List.map_append, List.mem_append] at hc ⊢
    exact hc.symm
  have hroot : root = ((us ++ [(a, ka)]).map Prod.fst).head? := by
    rw [hc.root_eq]
    cases us <;> rfl
  have hhead : ((vs ++ (us ++ [(a, ka)])).map Prod.fst).head? = some t := by
    rw [← ht]
    cases vs with
    | nil => exact hroot.symm
    | cons v vs => rfl
  have hlast : ((vs ++ (us ++ [(a, ka)])).map Prod.fst).getLast? = some a := by
    rw [← List.append_assoc, List.map_append]
    exact List.getLast?_concat
  have hturned := (hc.rotate (by simp)).remove_first hhead hlast (fun c hc => hkey c (hmem c hc)) hat
    (fun c hc => hnext c (hmem c hc)) (fun c hc => hprev c (hmem c hc))
  have hback := @Circle.rotate _ _ _ vs _ (by simp) hturned
  rwa [← hroot] at hback

end Surgery

end Circle

end Gallery
