import Gallery.Linear
import Gallery.RingList

namespace Gallery

-- The ring cut open between its last element and its root.
def ringDering (h : RingHeap) (root : Option Addr) : Option (RingHeap × Option Addr) :=
  match root with
  | none => some (h, none)
  | some r => do
      let last ← h.prev r
      let h ← h.setNext last none
      let h ← h.setPrev r none
      some (h, some r)

-- `ring_free` with a record of its accesses. The rounds are bounded by the addresses
-- handed out.
def ringFree (h : RingHeap) (root : Option Addr) : Option (RingHeap × List Access) := do
  let (h, root) ← ringDering h root
  freeLoop Node.next h.brk h root []

section Dering

variable {h : RingHeap} {root : Option Addr} {ns : List (Addr × DataR)}

-- Nodes linked one after the other, the last one to NULL, are a path to NULL.
theorem segment_of_chain {κ : Type} {h : Heap (Node κ)} (ns : List (Addr × κ))
    (hkey : ∀ n ∈ ns, h.key n.1 = some n.2)
    (hpath : (ns.map Prod.fst).IsChain (fun a b => h.next a = some b))
    (hlast : ∀ l ∈ (ns.map Prod.fst).getLast?, h.next l = none) :
    Segment Node.next Node.K h (ns.map Prod.fst).head? ns none := by
  induction ns with
  | nil => rfl
  | cons n ns ih =>
      obtain ⟨x, hx, hk⟩ := Option.map_eq_some_iff.mp (hkey n List.mem_cons_self)
      have hnext : h.next n.1 = x.next := by rw [Heap.next, hx, Option.bind_some]
      refine ⟨rfl, x, hx, hk, ?_⟩
      cases ns with
      | nil => exact hnext.symm.trans (hlast n.1 rfl)
      | cons m ns =>
          rw [List.map_cons, List.map_cons, List.isChain_cons_cons] at hpath
          rw [← hnext, hpath.1]
          apply ih (fun n hn => hkey n (List.mem_cons_of_mem _ hn)) hpath.2
          intro l hl
          exact hlast l (by rw [List.map_cons, List.getLast?_cons, hl]; rfl)

-- Cutting the one link from the last node to the root leaves a path to NULL, also in a
-- ring of one node.
theorem ringDering_circle (hc : Circle h root ns) :
    ∃ h', ringDering h root = some (h', root) ∧ h'.brk = h.brk ∧
      Segment Node.next Node.K h' root ns none ∧ SameOutside h h' ns := by
  cases ns with
  | nil =>
      obtain rfl : root = none := hc.root_eq
      exact ⟨h, rfl, rfl, rfl, fun _ _ => rfl⟩
  | cons n ns =>
      obtain rfl : root = some n.1 := hc.root_eq
      obtain ⟨l, hl⟩ : ∃ l, ((n :: ns).map Prod.fst).getLast? = some l :=
        ⟨_, List.getLast?_eq_some_getLast (by simp)⟩
      have hprev := (hc.closed l hl n.1 rfl).2
      have hlmem := List.mem_of_getLast? hl
      have hliver : h.Live n.1 := hc.live n List.mem_cons_self
      have hlivel : h.Live l := by
        obtain ⟨v, hv, rfl⟩ := List.mem_map.mp hlmem
        exact hc.live v hv
      have hnext : ∀ a, ((h.putNext l none).putPrev n.1 none).next a =
          if a = l then none else h.next a := by
        intro a
        rw [Heap.next_putPrev, Heap.next_putNext _ _ _ _ hlivel]
      refine ⟨(h.putNext l none).putPrev n.1 none, ?_, rfl, ?_, ?_⟩
      · simp [ringDering, hprev, Heap.setNext_of_live, Heap.setPrev_of_live, hlivel, hliver]
      · apply segment_of_chain (n :: ns)
        · simpa using hc.key
        · refine (path_frame _ hc.nodup ?_ ?_ hc.path).imp (fun _ _ hab => hab.1)
          · intro a _ ha
            have hal : a ≠ l := by
              rintro rfl
              exact ha hl
            rw [hnext, if_neg hal]
          · intro b _ hb
            have hbr : b ≠ n.1 := by
              rintro rfl
              exact hb rfl
            rw [Heap.prev_putPrev _ _ _ _ (by simpa using hliver), if_neg hbr, Heap.prev_putNext]
        · intro a ha
          obtain rfl := Option.some.inj (hl.symm.trans ha)
          rw [hnext, if_pos rfl]
      · intro a ha
        have hal : a ≠ l := fun he => ha (he ▸ hlmem)
        have har : a ≠ n.1 := fun he => ha (by simp [he])
        simp [Heap.putNext, Heap.putPrev, Heap.update_cell_ne, hal, har]

end Dering

section Free

variable {h : RingHeap} {root : Option Addr} {ns : List (Addr × DataR)}

-- All nodes of a ring are given back, one by one, each after its link was read; the
-- rest of the memory is left alone.
theorem ringFree_circle (hc : Circle h root ns) :
    ∃ h' done, ringFree h root = some (h', done) ∧
      (∀ a, done.count (.free a) = if a ∈ ns.map Prod.fst then 1 else 0) ∧
      (∀ a, .link a ∈ done → a ∈ ns.map Prod.fst) ∧
      (∀ before a later, done = before ++ .free a :: later → .link a ∉ later) ∧
      (∀ a ∈ ns.map Prod.fst, h'.cell a = none) ∧ SameOutside h h' ns := by
  obtain ⟨h1, hcut, hbrk, hpath, hsame⟩ := ringDering_circle hc
  obtain ⟨h', hloop, hgone, hkept⟩ := freeLoop_segment Node.next [] hpath hpath.length_le
  refine ⟨h', releases (ns.map Prod.fst), ?_, ?_, ?_, ?_, hgone, ?_⟩
  · simp only [ringFree, hcut, Option.bind_eq_bind, Option.bind_some]
    simpa using hloop
  · intro a
    rw [count_releases_free]
    split
    case isTrue ha => exact List.count_eq_one_of_mem hc.nodup ha
    case isFalse ha => exact List.count_eq_zero_of_not_mem ha
  · exact fun a ha => mem_releases_link.mp ha
  · exact fun before a later hsplit => releases_split hc.nodup hsplit
  · exact fun a ha => (hkept a ha).trans (hsame a ha)

theorem ringFree_circle_threePeers :
    ∃ h root ns, entries ns = [⟨[49], 3001⟩, ⟨[49], 3002⟩, ⟨[49], 3001⟩] ∧ Circle h root ns ∧
      ∃ h' done, ringFree h root = some (h', done) ∧
        (∀ a, done.count (.free a) = if a ∈ ns.map Prod.fst then 1 else 0) ∧
        (∀ a, .link a ∈ done → a ∈ ns.map Prod.fst) ∧
        (∀ before a later, done = before ++ .free a :: later → .link a ∉ later) ∧
        (∀ a ∈ ns.map Prod.fst, h'.cell a = none) ∧ SameOutside h h' ns := by
  obtain ⟨h1, root1, -, hc1, -⟩ := ringAppend_circle (circle_nil Heap.empty) ⟨[49], 3001⟩
  obtain ⟨h2, root2, -, hc2, -⟩ := ringAppend_circle hc1 ⟨[49], 3002⟩
  obtain ⟨h3, root3, -, hc3, -⟩ := ringAppend_circle hc2 ⟨[49], 3001⟩
  exact ⟨h3, root3, _, rfl, hc3, ringFree_circle hc3⟩

end Free

end Gallery
