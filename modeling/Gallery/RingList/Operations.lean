import Gallery.RingList

namespace Gallery

-- The first element with its links cut, and the ring without it.
def ringFirst (h : RingHeap) (root : Option Addr) : Option (Option Addr × RingHeap × Option Addr) :=
  match root with
  | none => some (none, h, none)
  | some first => do
      let next ← h.next first
      let (h, root) ←
        if next = first then some (h, none)
        else do
          let last ← h.prev first
          let h ← h.setPrev next (some last)
          let h ← h.setNext last (some next)
          some (h, some next)
      let h ← h.setNext first none
      let h ← h.setPrev first none
      some (some first, h, root)

def ringSearchLoop (h : RingHeap) (root : Addr) (K : DataR) : Nat → Addr → Option (Option Addr)
  | 0, _ => none
  | fuel + 1, aux => do
      let k ← h.key aux
      if equalDataR k K then some (some aux)
      else
        let next ← h.next aux
        if next = root then some none else ringSearchLoop h root K fuel next

def ringSearch (h : RingHeap) (root : Option Addr) (K : DataR) : Option (Option Addr) :=
  match root with
  | none => some none
  | some r => ringSearchLoop h r K h.brk r

def ringsConcatenate (h : RingHeap) (list1 list2 : Option Addr) : Option (RingHeap × Option Addr) :=
  match list1, list2 with
  | none, none => some (h, none)
  | none, some r2 => some (h, some r2)
  | some r1, none => some (h, some r1)
  | some r1, some r2 => do
      let last2 ← h.prev r2
      let h ← h.setNext last2 (some r1)
      let last1 ← h.prev r1
      let h ← h.setNext last1 (some r2)
      let aux ← h.prev r1
      let last2 ← h.prev r2
      let h ← h.setPrev r1 (some last2)
      let h ← h.setPrev r2 (some aux)
      some (h, some r1)

section First

variable {h h' : RingHeap} {root : Option Addr} {ns : List (Addr × DataR)}

-- A node with both links cut.
theorem cell_cut {r : Addr} {kr : DataR} (hk : h.key r = some kr) :
    ((h.putNext r none).putPrev r none).cell r = some ⟨kr, none, none⟩ := by
  obtain ⟨n, hn, rfl⟩ := Option.map_eq_some_iff.mp hk
  simp [Heap.putNext, Heap.putPrev, Heap.update, hn]

theorem cell_cut_ne {r a : Addr} (ha : a ≠ r) :
    ((h.putNext r none).putPrev r none).cell a = h.cell a := by
  simp [Heap.putNext, Heap.putPrev, Heap.update_cell_ne, ha]

theorem ringFirst_nil (hc : Circle h root []) : ringFirst h root = some (none, h, root) := by
  obtain rfl : root = none := hc.root_eq
  rfl

-- The head comes out with both links cut; the others stay a ring.
theorem ringFirst_cons {r : Addr} {kr : DataR} (hc : Circle h root ((r, kr) :: ns)) :
    ∃ h' root', ringFirst h root = some (some r, h', root') ∧ Circle h' root' ns ∧
      h'.cell r = some ⟨kr, none, none⟩ ∧ SameOutside h h' ((r, kr) :: ns) := by
  obtain rfl : root = some r := hc.root_eq
  have hlive : h.Live r := hc.live (r, kr) (by simp)
  cases ns with
  | nil =>
      have hnext : h.next r = some r := (hc.closed r rfl r rfl).1
      refine ⟨(h.putNext r none).putPrev r none, none, ?_, circle_nil _,
        cell_cut (hc.key (r, kr) (by simp)), ?_⟩
      · simp [ringFirst, hnext, Heap.setNext_of_live, Heap.setPrev_of_live, hlive]
      · intro a ha
        have har : a ≠ r := by simpa using ha
        exact cell_cut_ne har
  | cons n ns =>
      obtain ⟨s, ks⟩ := n
      obtain ⟨l, hl⟩ : ∃ l, (((s, ks) :: ns).map Prod.fst).getLast? = some l :=
        ⟨_, List.getLast?_eq_some_getLast (by simp)⟩
      obtain ⟨hnext, hprev, hsr, -, -, hlives, hlivel⟩ := root_neighbours hc hl
      have hkey : ((h.putPrev s (some l)).putNext l (some s)).key r = some kr := by
        simpa using hc.key (r, kr) (by simp)
      obtain ⟨hring, hsame⟩ := root_bypassed hc hl (fun a ha => cell_cut_ne ha)
      refine ⟨(((h.putPrev s (some l)).putNext l (some s)).putNext r none).putPrev r none, some s,
        ?_, hring, cell_cut hkey, hsame⟩
      simp [ringFirst, hnext, hsr, hprev, Heap.setNext_of_live, Heap.setPrev_of_live, hlives,
        hlivel, hlive]

end First

section Search

variable {h : RingHeap} {root : Option Addr} {ns : List (Addr × DataR)}

-- The search is at `a`; what it finds is the first node from there on.
theorem ringSearchLoop_eq {r : Addr} (hc : Circle h (some r) ns) (K : DataR) (fuel : Nat)
    (us vs : List (Addr × DataR)) (n : Addr × DataR) (hns : ns = us ++ n :: vs)
    (hfuel : vs.length < fuel) :
    ringSearchLoop h r K fuel n.1 =
      some (((n :: vs).find? (fun n => n.2 == K)).map Prod.fst) := by
  induction fuel generalizing us vs n with
  | zero => omega
  | succ fuel ih =>
      obtain ⟨a, ka⟩ := n
      have hkey : h.key a = some ka := hc.key (a, ka) (by simp [hns])
      by_cases hka : ka = K
      · subst hka
        simp [ringSearchLoop, hkey, (equalDataR_iff ka ka).mpr rfl]
      · have hne := equalDataR_eq_false hka
        cases vs with
        | nil =>
            have hnext : h.next a = some r := (hns ▸ hc).next_last
            simp [ringSearchLoop, hkey, hne, hnext, hka]
        | cons v vs =>
            obtain ⟨hnext, hvr⟩ : h.next a = some v.1 ∧ v.1 ≠ r := (hns ▸ hc).next_cons
            have hrest := ih (us ++ [(a, ka)]) vs v (by rw [hns]; simp) (by simpa using hfuel)
            rw [List.find?_cons_of_neg (by simpa using hka), ← hrest]
            simp [ringSearchLoop, hkey, hne, hnext, hvr]

-- The node of the first occurrence, or NULL.
theorem ringSearch_circle (hc : Circle h root ns) (K : DataR) :
    ringSearch h root K = some ((ns.find? (fun n => n.2 == K)).map Prod.fst) := by
  cases ns with
  | nil =>
      obtain rfl : root = none := hc.root_eq
      rfl
  | cons n ns =>
      obtain rfl : root = some n.1 := hc.root_eq
      exact ringSearchLoop_eq hc K h.brk [] ns n rfl hc.length_le

end Search

section Concatenate

variable {h : RingHeap} {root root' : Option Addr} {ns ms : List (Addr × DataR)}

theorem ringsConcatenate_circle (hc : Circle h root ns) (hd : Circle h root' ms)
    (hdisj : List.Disjoint (ns.map Prod.fst) (ms.map Prod.fst)) :
    ∃ h', ringsConcatenate h root root' = some (h', root.or root') ∧
      Circle h' (root.or root') (ns ++ ms) ∧ SameOutside h h' (ns ++ ms) := by
  cases ns with
  | nil =>
      obtain rfl : root = none := hc.root_eq
      refine ⟨h, ?_, by simpa using hd, fun _ _ => rfl⟩
      cases root' <;> rfl
  | cons n ns =>
      obtain rfl : root = some n.1 := hc.root_eq
      cases ms with
      | nil =>
          obtain rfl : root' = none := hd.root_eq
          exact ⟨h, rfl, by simpa using hc, fun _ _ => rfl⟩
      | cons m ms =>
          obtain rfl : root' = some m.1 := hd.root_eq
          obtain ⟨l1, hl1⟩ : ∃ l, ((n :: ns).map Prod.fst).getLast? = some l :=
            ⟨_, List.getLast?_eq_some_getLast (by simp)⟩
          obtain ⟨l2, hl2⟩ : ∃ l, ((m :: ms).map Prod.fst).getLast? = some l :=
            ⟨_, List.getLast?_eq_some_getLast (by simp)⟩
          have hlive : ∀ a ∈ ((n :: ns) ++ (m :: ms)).map Prod.fst, h.Live a := by
            intro a ha
            obtain ⟨v, hv, rfl⟩ := List.mem_map.mp ha
            exact (List.mem_append.mp hv).elim (hc.live v) (hd.live v)
          have hr1 : n.1 ∈ (n :: ns).map Prod.fst := by simp
          have hr2 : m.1 ∈ (m :: ms).map Prod.fst := by simp
          have hl1mem := List.mem_of_getLast? hl1
          have hl2mem := List.mem_of_getLast? hl2
          have hprev1 := (hc.closed l1 hl1 n.1 rfl).2
          have hprev2 := (hd.closed l2 hl2 m.1 rfl).2
          have hr : m.1 ≠ n.1 := fun he => hdisj hr1 (he ▸ hr2)
          have hl : l1 ≠ l2 := fun he => hdisj hl1mem (he ▸ hl2mem)
          rw [List.map_append] at hlive
          have hlive1 := fun a ha => hlive a (List.mem_append_left _ ha)
          have hlive2 := fun a ha => hlive a (List.mem_append_right _ ha)
          refine ⟨(((h.putNext l2 (some n.1)).putNext l1 (some m.1)).putPrev n.1 (some l2)).putPrev
            m.1 (some l1), ?_, ?_, ?_⟩
          · simp [ringsConcatenate, hprev1, hprev2, Heap.setNext_of_live, Heap.setPrev_of_live,
              hlive1 l1 hl1mem, hlive2 l2 hl2mem, hlive1 n.1 hr1, hlive2 m.1 hr2]
          · apply hc.join hd rfl hl1 rfl hl2
            · rw [List.map_append]
              exact List.nodup_append.mpr
                ⟨hc.nodup, hd.nodup, fun a ha b hb hab => hdisj ha (hab ▸ hb)⟩
            · simp
            · simp [Linked, Heap.next_putNext, Heap.prev_putPrev, hlive1 l1 hl1mem,
                hlive2 m.1 hr2]
            · simp [Linked, Heap.next_putNext, Heap.prev_putPrev, hlive1 l1 hl1mem,
                hlive2 l2 hl2mem, hlive1 n.1 hr1, hlive2 m.1 hr2, hl.symm, hr.symm]
            · intro a _ ha1 ha2
              simp [Heap.next_putNext, hlive1 l1 hl1mem, hlive2 l2 hl2mem, ha1, ha2]
            · intro b _ hb1 hb2
              simp [Heap.prev_putPrev, hlive1 n.1 hr1, hlive2 m.1 hr2, hb1, hb2]
          · intro a ha
            rw [List.map_append, List.mem_append, not_or] at ha
            have hal1 : a ≠ l1 := fun he => ha.1 (he ▸ hl1mem)
            have hal2 : a ≠ l2 := fun he => ha.2 (he ▸ hl2mem)
            have har1 : a ≠ n.1 := fun he => ha.1 (he ▸ hr1)
            have har2 : a ≠ m.1 := fun he => ha.2 (he ▸ hr2)
            simp [Heap.putNext, Heap.putPrev, Heap.update_cell_ne, hal1, hal2, har1, har2]

end Concatenate

section List

-- What the operations do to a ring, told of the list of its nodes from the root on.
structure ImplementsList (h : RingHeap) (root : Option Addr) (ns : List (Addr × DataR)) : Prop where
  push : ∀ o k, o ∉ ns.map Prod.fst → h.key o = some k →
    ∃ h', ringPush h root o = some (h', root.or (some o)) ∧
      Circle h' (root.or (some o)) (ns ++ [(o, k)]) ∧ SameOutside h h' (ns ++ [(o, k)])
  append : ∀ K, ∃ h', ringAppend h root K = some (h', root.or (some h.brk)) ∧
    Circle h' (root.or (some h.brk)) (ns ++ [(h.brk, K)]) ∧ SameOutside h h' (ns ++ [(h.brk, K)])
  first_nil : ns = [] → ringFirst h root = some (none, h, none)
  first_cons : ∀ r k rest, ns = (r, k) :: rest →
    ∃ h' root', ringFirst h root = some (some r, h', root') ∧ Circle h' root' rest ∧
      h'.cell r = some ⟨k, none, none⟩ ∧ SameOutside h h' ns
  remove_first : ∀ us n vs, ns = us ++ n :: vs → n.2 ∉ entries us →
    ∃ h' root', ringRemove h root n.2 = some (1, h', root') ∧ Circle h' root' (us ++ vs) ∧
      SameOutside h h' ns
  remove_absent : ∀ K, K ∉ entries ns → ringRemove h root K = some (0, h, root)
  search : ∀ K, ringSearch h root K = some ((ns.find? (fun n => n.2 == K)).map Prod.fst)
  count : ∃ count, ringCount h root = some count ∧ (count.toInt = ns.length ↔ ns.length < 2 ^ 31)
  concatenate : ∀ root' ms, Circle h root' ms → List.Disjoint (ns.map Prod.fst) (ms.map Prod.fst) →
    ∃ h', ringsConcatenate h root root' = some (h', root.or root') ∧
      Circle h' (root.or root') (ns ++ ms) ∧ SameOutside h h' (ns ++ ms)

variable {h h' : RingHeap} {root root' : Option Addr} {ns : List (Addr × DataR)}

-- An element put at the end leaves the root where it is, unless it is the only one.
theorem root_after_push {o : Addr} {k : DataR} (hc : Circle h root ns)
    (hc' : Circle h' root' (ns ++ [(o, k)])) : root' = root.or (some o) := by
  rw [hc'.root_eq, hc.root_eq, List.map_append, List.head?_append]
  rfl

theorem ring_implements_list (hc : Circle h root ns) : ImplementsList h root ns where
  push := by
    intro o k ho hk
    obtain ⟨h', root', hcall, hring, -, hsame⟩ := ringPush_circle hc o k ho hk
    obtain rfl := root_after_push hc hring
    exact ⟨h', hcall, hring, hsame⟩
  append := by
    intro K
    obtain ⟨h', root', hcall, hring, hsame⟩ := ringAppend_circle hc K
    obtain rfl := root_after_push hc hring
    exact ⟨h', hcall, hring, hsame⟩
  first_nil := by
    rintro rfl
    obtain rfl : root = none := hc.root_eq
    exact ringFirst_nil hc
  first_cons := by
    rintro r k rest rfl
    exact ringFirst_cons hc
  remove_first := by
    rintro us n vs rfl hn
    obtain ⟨h', root', hcall, hring, -, -, hsame⟩ := ringRemove_first hc hn
    exact ⟨h', root', hcall, hring, hsame⟩
  remove_absent := fun _ hK => ringRemove_absent hc hK
  search := ringSearch_circle hc
  count := ⟨_, ringCount_circle hc, toInt_ofNat_eq_iff _⟩
  concatenate := fun _ _ hd hdisj => ringsConcatenate_circle hc hd hdisj

-- Three nodes, of which two hold the same peer.
theorem ring_implements_list_threePeers :
    ∃ h root ns, entries ns = [⟨[49], 3001⟩, ⟨[49], 3002⟩, ⟨[49], 3001⟩] ∧ Circle h root ns ∧
      ImplementsList h root ns := by
  obtain ⟨h1, root1, -, hc1, -⟩ := ringAppend_circle (circle_nil Heap.empty) ⟨[49], 3001⟩
  obtain ⟨h2, root2, -, hc2, -⟩ := ringAppend_circle hc1 ⟨[49], 3002⟩
  obtain ⟨h3, root3, -, hc3, -⟩ := ringAppend_circle hc2 ⟨[49], 3001⟩
  exact ⟨h3, root3, _, rfl, hc3, ring_implements_list hc3⟩

-- One peer appended over and over to an empty ring.
def ringOf (K : DataR) : Nat → Option (RingHeap × Option Addr)
  | 0 => some (Heap.empty, none)
  | n + 1 => do
      let (h, root) ← ringOf K n
      ringAppend h root K

theorem ringOf_circle (K : DataR) (n : Nat) :
    ∃ h root ns, ringOf K n = some (h, root) ∧ Circle h root ns ∧ ns.length = n := by
  induction n with
  | zero => exact ⟨Heap.empty, none, [], rfl, circle_nil _, rfl⟩
  | succ n ih =>
      obtain ⟨h, root, ns, hring, hc, hlen⟩ := ih
      obtain ⟨h', root', hcall, hc', -⟩ := ringAppend_circle hc K
      exact ⟨h', root', ns ++ [(h.brk, K)], by simp [ringOf, hring, hcall], hc', by simp [hlen]⟩

theorem ringCount_wraps :
    ∃ h root ns, ringOf ⟨[49], 3001⟩ (2 ^ 31) = some (h, root) ∧ Circle h root ns ∧
      ns.length = 2 ^ 31 ∧ ¬ ∃ count, ringCount h root = some count ∧ count.toInt = ns.length := by
  obtain ⟨h, root, ns, hring, hc, hlen⟩ := ringOf_circle ⟨[49], 3001⟩ (2 ^ 31)
  refine ⟨h, root, ns, hring, hc, hlen, ?_⟩
  rintro ⟨count, hcall, hcount⟩
  rw [ringCount_circle hc] at hcall
  obtain rfl := Option.some.inj hcall
  rw [toInt_ofNat_eq_iff, hlen] at hcount
  exact Nat.lt_irrefl _ hcount

end List

end Gallery
