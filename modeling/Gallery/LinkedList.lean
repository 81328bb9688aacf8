import Gallery.Data

namespace Gallery

-- The list read from its root. A pointer to an item stands for the first item
-- with its id, which is the one `list_search` finds.
def listInsert (root : List Data) (K : Data) : List Data := K :: root

def listFirst (root : List Data) : Option (Data × List Data) :=
  match root with
  | [] => none
  | K :: rest => some (K, rest)

def listRemove (root : List Data) (K : Data) : Nat × List Data :=
  match root with
  | [] => (0, [])
  | first :: rest =>
      if equalData first K then (1, rest)
      else
        let (found, rest) := listRemove rest K
        (found, first :: rest)

def listSearch (root : List Data) (K : Data) : Option Data :=
  match root with
  | [] => none
  | first :: rest => if equalData first K then some first else listSearch rest K

-- A write through the pointer `list_search` returned.
def listUpdate (root : List Data) (K : Data) (f : Data → Data) : List Data :=
  match root with
  | [] => []
  | first :: rest =>
      if equalData first K then f first :: rest else first :: listUpdate rest K f

-- An `int`.
def listCount (root : List Data) : Int32 :=
  match root with
  | [] => 0
  | _ :: rest => listCount rest + 1

theorem equalData_iff (K1 K2 : Data) : equalData K1 K2 = true ↔ K1.id = K2.id := by
  simp [equalData]

@[simp] theorem listCount_eq_length (root : List Data) :
    listCount root = Int32.ofNat root.length := by
  induction root with
  | nil => rfl
  | cons K rest ih => rw [listCount, ih, ofNat_succ, List.length_cons]

theorem listSearch_eq_find (root : List Data) (K : Data) :
    listSearch root K = root.find? (fun first => equalData first K) := by
  induction root with
  | nil => rfl
  | cons first rest ih =>
      rw [listSearch, List.find?_cons, ih]
      cases equalData first K <;> rfl

theorem listRemove_snd (root : List Data) (K : Data) :
    (listRemove root K).2 = root.eraseP (fun first => equalData first K) := by
  induction root with
  | nil => rfl
  | cons first rest ih =>
      rw [listRemove, List.eraseP_cons]
      cases h : equalData first K <;> simp [ih]

theorem listRemove_map_id (root : List Data) (K : Data) :
    (listRemove root K).2.map Data.id = (root.map Data.id).erase K.id := by
  induction root with
  | nil => rfl
  | cons first rest ih =>
      rw [listRemove, List.map_cons]
      by_cases h : first.id = K.id
      · rw [if_pos ((equalData_iff _ _).mpr h), h, List.erase_cons_head]
      · rw [if_neg (fun he => h ((equalData_iff _ _).mp he)), List.erase_cons_tail (by simpa using h),
          List.map_cons, ih]

theorem listRemove_fst (root : List Data) (K : Data) :
    (listRemove root K).1 = if K.id ∈ root.map Data.id then 1 else 0 := by
  induction root with
  | nil => rfl
  | cons first rest ih =>
      by_cases h : first.id = K.id
      · simp [listRemove, equalData, h]
      · simp [listRemove, equalData, h, Ne.symm h, ih]

theorem listSearch_none (root : List Data) (K : Data) :
    listSearch root K = none ↔ K.id ∉ root.map Data.id := by
  rw [listSearch_eq_find, List.find?_eq_none]
  simp only [equalData_iff, List.mem_map, not_exists, not_and]

theorem listSearch_some (root : List Data) (K found : Data) (h : listSearch root K = some found) :
    found ∈ root ∧ found.id = K.id := by
  rw [listSearch_eq_find] at h
  have hp := List.find?_some (p := fun first => equalData first K) h
  exact ⟨List.mem_of_find?_eq_some h, (equalData_iff _ _).mp hp⟩

theorem listSearch_of_mem (root : List Data) (K found : Data) (hids : (root.map Data.id).Nodup)
    (hmem : found ∈ root) (hid : found.id = K.id) : listSearch root K = some found := by
  induction root with
  | nil => cases hmem
  | cons first rest ih =>
      rw [List.map_cons, List.nodup_cons] at hids
      rw [listSearch]
      rcases List.mem_cons.mp hmem with rfl | hrest
      · rw [if_pos ((equalData_iff _ _).mpr hid)]
      · have hne : first.id ≠ K.id := by
          rw [← hid]
          exact fun h => hids.1 (h ▸ List.mem_map_of_mem hrest)
        rw [if_neg (fun h => hne ((equalData_iff _ _).mp h))]
        exact ih hids.2 hrest

-- With distinct ids the first item with an id is the only one.
theorem listUpdate_eq_map (root : List Data) (K : Data) (f : Data → Data)
    (hids : (root.map Data.id).Nodup) :
    listUpdate root K f = root.map (fun q => if q.id = K.id then f q else q) := by
  induction root with
  | nil => rfl
  | cons first rest ih =>
      rw [List.map_cons, List.nodup_cons] at hids
      rw [listUpdate, List.map_cons]
      by_cases h : first.id = K.id
      · rw [if_pos ((equalData_iff _ _).mpr h), if_pos h]
        have hrest : rest.map (fun q => if q.id = K.id then f q else q) = rest.map id := by
          apply List.map_congr_left
          intro q hq
          rw [if_neg, id]
          exact fun hqid => hids.1 (h.trans hqid.symm ▸ List.mem_map_of_mem hq)
        rw [hrest, List.map_id]
      · rw [if_neg (fun he => h ((equalData_iff _ _).mp he)), if_neg h, ih hids.2]

theorem listRemove_eq_filter (root : List Data) (K : Data) (hids : (root.map Data.id).Nodup) :
    (listRemove root K).2 = root.filter (fun q => q.id != K.id) := by
  induction root with
  | nil => rfl
  | cons first rest ih =>
      rw [List.map_cons, List.nodup_cons] at hids
      rw [listRemove]
      by_cases h : first.id = K.id
      · rw [if_pos ((equalData_iff _ _).mpr h), List.filter_cons_of_neg (by simp [h])]
        refine (List.filter_eq_self.mpr fun q hq => ?_).symm
        have hne : q.id ≠ K.id := fun hqid => hids.1 (h.trans hqid.symm ▸ List.mem_map_of_mem hq)
        simpa using hne
      · rw [if_neg (fun he => h ((equalData_iff _ _).mp he)), List.filter_cons_of_pos (by simpa using h),
          ← ih hids.2]

theorem listUpdate_map_id (root : List Data) (K : Data) (f : Data → Data)
    (hf : ∀ K, (f K).id = K.id) : (listUpdate root K f).map Data.id = root.map Data.id := by
  induction root with
  | nil => rfl
  | cons first rest ih =>
      rw [listUpdate]
      split
      · simp [hf]
      · simp [ih]

-- A write that keeps the id is seen by later searches for this id only.
theorem listSearch_listUpdate (root : List Data) (K K' : Data) (f : Data → Data)
    (hf : ∀ K, (f K).id = K.id) :
    listSearch (listUpdate root K f) K' =
      if K.id = K'.id then (listSearch root K').map f else listSearch root K' := by
  induction root with
  | nil => simp [listUpdate, listSearch]
  | cons first rest ih =>
      by_cases hK : K.id = K'.id
      · rw [if_pos hK] at ih ⊢
        rw [listUpdate, listSearch]
        by_cases hfirst : first.id = K.id
        · have heq : equalData first K = true := (equalData_iff _ _).mpr hfirst
          have heq' : equalData first K' = true := (equalData_iff _ _).mpr (hfirst.trans hK)
          have hfeq : equalData (f first) K' = true :=
            (equalData_iff _ _).mpr ((hf first).trans (hfirst.trans hK))
          rw [if_pos heq, listSearch, if_pos hfeq, if_pos heq', Option.map_some]
        · have hne : ¬equalData first K = true := fun h => hfirst ((equalData_iff _ _).mp h)
          have hne' : ¬equalData first K' = true := fun h =>
            hfirst (((equalData_iff _ _).mp h).trans hK.symm)
          rw [if_neg hne, listSearch, if_neg hne', if_neg hne', ih]
      · rw [if_neg hK] at ih ⊢
        rw [listUpdate, listSearch]
        by_cases hfirst : first.id = K.id
        · have heq : equalData first K = true := (equalData_iff _ _).mpr hfirst
          have hne : ¬equalData first K' = true := fun h =>
            hK (hfirst.symm.trans ((equalData_iff _ _).mp h))
          have hfne : ¬equalData (f first) K' = true := fun h =>
            hK (hfirst.symm.trans ((hf first).symm.trans ((equalData_iff _ _).mp h)))
          rw [if_pos heq, listSearch, if_neg hfne, if_neg hne]
        · have hne : ¬equalData first K = true := fun h => hfirst ((equalData_iff _ _).mp h)
          rw [if_neg hne, listSearch, ih]

theorem listUpdate_append {us vs : List Data} {K q : Data} (f : Data → Data)
    (hus : ∀ u ∈ us, u.id ≠ K.id) (hq : q.id = K.id) :
    listUpdate (us ++ q :: vs) K f = us ++ f q :: vs := by
  induction us with
  | nil => rw [List.nil_append, listUpdate, if_pos ((equalData_iff _ _).mpr hq), List.nil_append]
  | cons u us ih =>
      have hu : ¬equalData u K = true := fun he => hus u List.mem_cons_self ((equalData_iff _ _).mp he)
      rw [List.cons_append, listUpdate, if_neg hu, ih (fun v hv => hus v (List.mem_cons_of_mem _ hv)),
        List.cons_append]

section Members

variable {root : List Data} {K q : Data}

theorem mem_listRemove (hq : q ∈ root) (hid : q.id ≠ K.id) : q ∈ (listRemove root K).2 := by
  rw [listRemove_snd]
  exact (List.mem_eraseP_of_neg (by simpa [equalData] using hid)).mpr hq

theorem mem_listUpdate (f : Data → Data) (hq : q ∈ root) :
    q ∈ listUpdate root K f ∨ f q ∈ listUpdate root K f := by
  induction root with
  | nil => cases hq
  | cons first rest ih =>
      rw [listUpdate]
      split
      · rcases List.mem_cons.mp hq with rfl | hq
        · exact Or.inr List.mem_cons_self
        · exact Or.inl (List.mem_cons_of_mem _ hq)
      · rcases List.mem_cons.mp hq with rfl | hq
        · exact Or.inl List.mem_cons_self
        · exact (ih hq).imp (List.mem_cons_of_mem _) (List.mem_cons_of_mem _)

theorem listUpdate_mem (f : Data → Data) {found : Data} (h : listSearch root K = some found) :
    f found ∈ listUpdate root K f := by
  induction root with
  | nil => cases h
  | cons first rest ih =>
      rw [listSearch] at h
      rw [listUpdate]
      split at h
      · obtain rfl := Option.some.inj h
        rw [if_pos ‹_›]
        exact List.mem_cons_self
      · rw [if_neg ‹_›]
        exact List.mem_cons_of_mem _ (ih h)

theorem of_mem_listUpdate (f : Data → Data) (h : q ∈ listUpdate root K f) :
    q ∈ root ∨ ∃ found, listSearch root K = some found ∧ q = f found := by
  induction root with
  | nil => cases h
  | cons first rest ih =>
      rw [listUpdate] at h
      rw [listSearch]
      split at h
      · rw [if_pos ‹_›]
        rcases List.mem_cons.mp h with rfl | h
        · exact Or.inr ⟨first, rfl, rfl⟩
        · exact Or.inl (List.mem_cons_of_mem _ h)
      · rw [if_neg ‹_›]
        rcases List.mem_cons.mp h with rfl | h
        · exact Or.inl List.mem_cons_self
        · exact (ih h).imp (List.mem_cons_of_mem _) id

end Members

end Gallery
