import Gallery.Circular

namespace Gallery

namespace Heap

section Cells

variable {α : Type} (h : Heap α)

theorem live_of_cell {a : Addr} {x : α} (ha : h.cell a = some x) : h.Live a := by
  rw [Live, ha]
  rfl

theorem update_cell_self {a : Addr} {x : α} (f : α → Option α) (ha : h.cell a = some x) :
    (h.update a f).cell a = f x := by
  simp [update, ha]

end Cells

end Heap

section Segment

variable {α κ : Type} (link : α → Option Addr) (data : α → κ)

-- A path along `link` from `p` to `q`: `ns` lists the nodes on it with their data.
def Segment (h : Heap α) : Option Addr → List (Addr × κ) → Option Addr → Prop
  | p, [], q => p = q
  | p, n :: ns, q => p = some n.1 ∧ ∃ x, h.cell n.1 = some x ∧ data x = n.2 ∧ Segment h (link x) ns q

variable {link data} {h h' : Heap α} {p q : Option Addr} {ns us vs : List (Addr × κ)}

theorem segment_append :
    Segment link data h p (us ++ vs) q ↔
      ∃ m, Segment link data h p us m ∧ Segment link data h m vs q := by
  induction us generalizing p with
  | nil => simp [Segment]
  | cons u us ih =>
      simp only [List.cons_append, Segment, ih]
      constructor
      · rintro ⟨hp, x, hx, hk, m, hus, hvs⟩
        exact ⟨m, ⟨hp, x, hx, hk, hus⟩, hvs⟩
      · rintro ⟨m, ⟨hp, x, hx, hk, hus⟩, hvs⟩
        exact ⟨hp, x, hx, hk, m, hus, hvs⟩

-- A path is left alone by whatever happens to other cells.
theorem Segment.frame (hs : Segment link data h p ns q)
    (hcell : ∀ a ∈ ns.map Prod.fst, h'.cell a = h.cell a) : Segment link data h' p ns q := by
  induction ns generalizing p with
  | nil => exact hs
  | cons n ns ih =>
      obtain ⟨hp, x, hx, hk, hrest⟩ := hs
      refine ⟨hp, x, ?_, hk, ih hrest (fun a ha => hcell a (List.mem_cons_of_mem _ ha))⟩
      rw [hcell n.1 List.mem_cons_self, hx]

theorem Segment.cell (hs : Segment link data h p ns q) (n : Addr × κ) (hn : n ∈ ns) :
    ∃ x, h.cell n.1 = some x ∧ data x = n.2 := by
  obtain ⟨us, vs, rfl⟩ := List.append_of_mem hn
  obtain ⟨m, -, -, x, hx, hk, -⟩ := segment_append.mp hs
  exact ⟨x, hx, hk⟩

theorem Segment.live (hs : Segment link data h p ns q) (n : Addr × κ) (hn : n ∈ ns) :
    h.Live n.1 := by
  obtain ⟨x, hx, -⟩ := hs.cell n hn
  exact h.live_of_cell hx

-- One more node at the end.
theorem Segment.concat {a : Addr} {x : α} (hs : Segment link data h p us (some a))
    (hx : h.cell a = some x) : Segment link data h p (us ++ [(a, data x)]) (link x) :=
  segment_append.mpr ⟨some a, hs, rfl, x, hx, rfl, rfl⟩

theorem Segment.eq_nil (hs : Segment link data h none ns q) : ns = [] := by
  cases ns with
  | nil => rfl
  | cons n ns => cases hs.1

-- The memory determines where a path to NULL leads.
theorem Segment.unique (hs : Segment link data h p us none) (hs' : Segment link data h p vs none) :
    us = vs := by
  induction us generalizing p vs with
  | nil =>
      cases vs with
      | nil => rfl
      | cons v vs =>
          obtain rfl : p = none := hs
          cases hs'.1
  | cons u us ih =>
      cases vs with
      | nil =>
          obtain rfl : p = none := hs'
          cases hs.1
      | cons v vs =>
          obtain ⟨rfl, x, hx, hk, hrest⟩ := hs
          obtain ⟨hp, y, hy, hk', hrest'⟩ := hs'
          have hfst : u.1 = v.1 := Option.some.inj hp
          obtain rfl := Option.some.inj (hx.symm.trans (hfst ▸ hy))
          rw [ih hrest hrest', Prod.ext hfst (hk.symm.trans hk')]

-- A path that ends meets no node twice: from a node on there is only one way to NULL.
theorem Segment.nodup (hs : Segment link data h p ns none) : (ns.map Prod.fst).Nodup := by
  induction ns generalizing p with
  | nil => simp
  | cons n ns ih =>
      obtain ⟨hp, x, hx, hk, hrest⟩ := hs
      rw [List.map_cons, List.nodup_cons]
      refine ⟨fun hmem => ?_, ih hrest⟩
      obtain ⟨m, hm, hfst⟩ := List.mem_map.mp hmem
      obtain ⟨us, vs, rfl⟩ := List.append_of_mem hm
      obtain ⟨t, -, htail⟩ := segment_append.mp hrest
      obtain rfl : t = some n.1 := htail.1.trans (congrArg some hfst)
      have hwhole : Segment link data h (some n.1) (n :: (us ++ m :: vs)) none :=
        ⟨rfl, x, hx, hk, hrest⟩
      have := congrArg List.length (hwhole.unique htail)
      simp only [List.length_cons, List.length_append] at this
      omega

theorem Segment.notMem_of_append {n : Addr × κ} (hs : Segment link data h p (us ++ n :: vs) none) :
    n.1 ∉ us.map Prod.fst ∧ n.1 ∉ vs.map Prod.fst := by
  have hnodup := hs.nodup
  rw [List.map_append, List.map_cons, List.nodup_middle, List.nodup_cons] at hnodup
  simpa [List.mem_append, not_or] using hnodup.1

-- The number of nodes is bounded by the addresses handed out.
theorem Segment.length_le (hs : Segment link data h p ns none) : ns.length ≤ h.brk := by
  have hsub : ns.map Prod.fst ⊆ List.range h.brk := by
    intro a ha
    obtain ⟨n, hn, rfl⟩ := List.mem_map.mp ha
    exact List.mem_range.mpr (h.lt_brk_of_live _ (hs.live n hn))
  simpa using (hs.nodup.subperm hsub).length_le

theorem Segment.brk_notMem (hs : Segment link data h p ns q) : h.brk ∉ ns.map Prod.fst := by
  intro hmem
  obtain ⟨n, hn, he⟩ := List.mem_map.mp hmem
  exact absurd (he ▸ h.lt_brk_of_live _ (hs.live n hn)) (Nat.lt_irrefl _)

end Segment

section Release

-- The reads and the frees of a loop that gives nodes back.
inductive Access
  | link (a : Addr)
  | free (a : Addr)
  deriving DecidableEq, Repr

variable {α κ : Type} (link : α → Option Addr) {data : α → κ}

-- `while(root != NULL){ aux = root; root = root->next; free(aux); }` with a record of
-- its accesses; `none` is the use of a node that is not there.
def freeLoop : Nat → Heap α → Option Addr → List Access → Option (Heap α × List Access)
  | _, h, none, done => some (h, done)
  | 0, _, some _, _ => none
  | fuel + 1, h, some aux, done => do
      let node ← h.cell aux
      let h ← h.free aux
      freeLoop fuel h (link node) (done ++ [.link aux, .free aux])

-- Each node is read and then freed.
def releases (as : List Addr) : List Access := as.flatMap (fun a => [.link a, .free a])

@[simp] theorem releases_cons (a : Addr) (as : List Addr) :
    releases (a :: as) = .link a :: .free a :: releases as := rfl

theorem mem_releases_link {a : Addr} {as : List Addr} : .link a ∈ releases as ↔ a ∈ as := by
  simp [releases]

theorem count_releases_free (a : Addr) (as : List Addr) :
    (releases as).count (.free a) = as.count a := by
  induction as with
  | nil => rfl
  | cons b as ih => simp [List.count_cons, ih]

-- Nothing is read after it was freed when no node is given back twice.
theorem releases_split {as : List Addr} {us vs : List Access} {a : Addr} (hnodup : as.Nodup)
    (h : releases as = us ++ .free a :: vs) : .link a ∉ vs := by
  induction as generalizing us with
  | nil => simp [releases] at h
  | cons b as ih =>
      obtain ⟨hb, hnodup⟩ := List.nodup_cons.mp hnodup
      rw [releases_cons] at h
      cases us with
      | nil => cases h
      | cons u us =>
          obtain ⟨-, h⟩ := List.cons.inj h
          cases us with
          | nil =>
              obtain ⟨hba, rfl⟩ := List.cons.inj h
              obtain rfl := Access.free.inj hba
              exact fun hmem => hb (mem_releases_link.mp hmem)
          | cons u us => exact ih hnodup (List.cons.inj h).2

-- The loop gives back the nodes of the path in their order and touches no others.
theorem freeLoop_segment {h : Heap α} {p : Option Addr} {ns : List (Addr × κ)} {fuel : Nat}
    (done : List Access) (hs : Segment link data h p ns none) (hfuel : ns.length ≤ fuel) :
    ∃ h', freeLoop link fuel h p done = some (h', done ++ releases (ns.map Prod.fst)) ∧
      (∀ a ∈ ns.map Prod.fst, h'.cell a = none) ∧
      ∀ a, a ∉ ns.map Prod.fst → h'.cell a = h.cell a := by
  induction ns generalizing h p fuel done with
  | nil =>
      obtain rfl : p = none := hs
      exact ⟨h, by simp [freeLoop, releases], by simp, fun _ _ => rfl⟩
  | cons n ns ih =>
      have hnodup := hs.nodup
      rw [List.map_cons, List.nodup_cons] at hnodup
      obtain ⟨rfl, x, hx, -, hrest⟩ := hs
      obtain ⟨fuel, rfl⟩ : ∃ rounds, fuel = rounds + 1 := by
        cases fuel with
        | zero => simp at hfuel
        | succ fuel => exact ⟨fuel, rfl⟩
      have hother : ∀ a, a ≠ n.1 → (h.update n.1 (fun _ => none)).cell a = h.cell a :=
        fun a ha => h.update_cell_ne n.1 a _ ha
      have hkept : Segment link data (h.update n.1 (fun _ => none)) (link x) ns none :=
        hrest.frame (fun a ha => hother a (fun he => hnodup.1 (he ▸ ha)))
      obtain ⟨h', hloop, hgone, hsame⟩ :=
        ih (done ++ [.link n.1, .free n.1]) hkept (by simpa using hfuel)
      refine ⟨h', ?_, ?_, ?_⟩
      · simp [freeLoop, hx, h.free_of_live n.1 (h.live_of_cell hx), hloop]
      · intro a ha
        rcases List.mem_cons.mp ha with rfl | ha
        · rw [hsame _ hnodup.1, h.update_cell_self _ hx]
        · exact hgone a ha
      · intro a ha
        simp only [List.map_cons, List.mem_cons, not_or] at ha
        rw [hsame a ha.2, hother a ha.1]

end Release

end Gallery
