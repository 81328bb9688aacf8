import Gallery.Peer.Threads

namespace Gallery

-- The table of a photo has room for what it holds and holds no keyword twice.
def Data.TableOk (photo : Data) : Prop := photo.n_keywords ≤ MAX_KEYWORDS ∧ photo.keyword.Nodup

def PeerStore.TablesOk (s : PeerStore) : Prop := ∀ photo ∈ s.photo_list, photo.TableOk

-- What the two tests of `add_keyword` are for.
def Data.Takes (photo : Data) (keyword : CString) : Prop :=
  photo.n_keywords < MAX_KEYWORDS ∧ keyword ∉ photo.keyword

theorem Data.TableOk.withKeyword {photo : Data} {keyword : CString} (h : photo.TableOk)
    (htakes : photo.Takes keyword) : (photo.withKeyword keyword).TableOk := by
  have hroom : (photo.withKeyword keyword).n_keywords = photo.n_keywords + 1 := by
    simp [Data.n_keywords, Data.withKeyword]
  refine ⟨hroom ▸ htakes.1, ?_⟩
  rw [Data.withKeyword, (List.perm_append_singleton _ _).nodup_iff, List.nodup_cons]
  exact ⟨htakes.2, h.2⟩

section Routines

variable {s s' : PeerStore} {routine : Routine}

-- The photo got no keyword from anybody since this thread tested its table.
def PeerStore.Unchanged (s : PeerStore) : Routine → Prop
  | .insertKeyword id _ insertions => s.insertions id = insertions
  | _ => True

instance (s : PeerStore) : DecidablePred s.Unchanged
  | .insertKeyword _ _ _ => inferInstanceAs (Decidable (_ = _))
  | .insertPhoto _ _ | .openToWrite _ _ | .write _ _ _ | .findPhoto _ _ | .checkFull _ _
  | .searchKeyword _ _ _ | .removePhoto _ | .unlinkPhoto _ | .lookupPhoto _ | .copyPhoto _ _
  | .openToRead _ _ | .lockPhotos | .sendPhotos _ => instDecidableTrue

-- What a thread knows from its tests, as long as the table is the one it tested.
def PeerStore.Tested (s : PeerStore) : Routine → Prop
  | .searchKeyword id _ insertions => insertions ≤ s.insertions id ∧
      (s.insertions id = insertions →
        ∀ aux ∈ listSearch s.photo_list (setData [] id), aux.n_keywords < MAX_KEYWORDS)
  | .insertKeyword id keyword insertions => insertions ≤ s.insertions id ∧
      (s.insertions id = insertions →
        ∀ aux ∈ listSearch s.photo_list (setData [] id), aux.Takes keyword)
  | _ => True

theorem KeywordPart.tested {next : Option Routine} (h : KeywordPart s routine s' next)
    (htested : s.Tested routine) : ∀ r ∈ next, s'.Tested r := by
  intro r hr
  cases h with
  | find id keyword =>
      obtain ⟨_, -, rfl⟩ := Option.map_eq_some_iff.mp hr
      exact trivial
  | @check id keyword aux haux =>
      split at hr
      case isTrue hroom =>
        obtain rfl := Option.some.inj hr
        refine ⟨Nat.le_refl _, fun _ aux' haux' => ?_⟩
        rwa [← Option.some.inj (haux.symm.trans haux')]
      case isFalse => cases hr
  | @search id keyword insertions aux haux =>
      split at hr
      case isTrue => cases hr
      case isFalse hnew =>
        obtain rfl := Option.some.inj hr
        refine ⟨htested.1, fun heq aux' haux' => ?_⟩
        obtain rfl := Option.some.inj (haux.symm.trans haux')
        exact ⟨htested.2 heq aux haux, fun hmem => hnew ((searchKeyword_iff _ _).mpr hmem)⟩
  | insert id keyword insertions haux => cases hr

section Insertion

variable {id : UInt32} {keyword : CString} {aux : Data}

theorem insertKeyword_room (hroom : aux.n_keywords < MAX_KEYWORDS) :
    (s.insertKeyword id keyword aux).photo_list =
      listUpdate s.photo_list (setData [] id) (·.withKeyword keyword) := if_pos hroom

theorem tablesOk_insertKeyword (haux : listSearch s.photo_list (setData [] id) = some aux)
    (hok : s.TablesOk) (htakes : aux.Takes keyword) :
    (s.insertKeyword id keyword aux).TablesOk := by
  intro photo hphoto
  rw [insertKeyword_room htakes.1] at hphoto
  rcases of_mem_listUpdate _ hphoto with hold | ⟨found, hfound, rfl⟩
  · exact hok photo hold
  · obtain rfl := Option.some.inj (haux.symm.trans hfound)
    exact (hok aux (listSearch_some _ _ _ haux).1).withKeyword htakes

-- What another thread tested is another photo, or not the same any more.
theorem known_insertKeyword (hroom : aux.n_keywords < MAX_KEYWORDS) {id' : UInt32}
    {insertions : Nat} {P : Data → Prop} (hle : insertions ≤ s.insertions id')
    (hknown : s.insertions id' = insertions →
      ∀ aux ∈ listSearch s.photo_list (setData [] id'), P aux) :
    insertions ≤ (s.insertKeyword id keyword aux).insertions id' ∧
      ((s.insertKeyword id keyword aux).insertions id' = insertions →
        ∀ aux' ∈ listSearch (s.insertKeyword id keyword aux).photo_list (setData [] id'), P aux') := by
  by_cases hid : id' = id
  · subst hid
    have hnext : (s.insertKeyword id' keyword aux).insertions id' = s.insertions id' + 1 :=
      Function.update_self _ _ _
    rw [hnext]
    exact ⟨Nat.le_succ_of_le hle, fun heq => absurd hle (by omega)⟩
  · have hsame : (s.insertKeyword id keyword aux).insertions id' = s.insertions id' :=
      Function.update_of_ne hid _ _
    have hother : listSearch (s.insertKeyword id keyword aux).photo_list (setData [] id') =
        listSearch s.photo_list (setData [] id') := by
      rw [insertKeyword_room hroom, listSearch_listUpdate _ _ _ (·.withKeyword keyword) (fun _ => rfl)]
      exact if_neg (Ne.symm hid)
    rw [hsame, hother]
    exact ⟨hle, hknown⟩

theorem tested_insertKeyword (hroom : aux.n_keywords < MAX_KEYWORDS) {r : Routine}
    (hr : s.Tested r) : (s.insertKeyword id keyword aux).Tested r := by
  cases r
  case searchKeyword id' keyword' insertions => exact known_insertKeyword hroom hr.1 hr.2
  case insertKeyword id' keyword' insertions => exact known_insertKeyword hroom hr.1 hr.2
  all_goals exact trivial

end Insertion

end Routines

namespace PeerThreads

-- The requests are for keywords.
def KeywordStep (_ : PeerThreads) : ThreadAction → Prop
  | .call (.addKeyword _ _) => True
  | .call _ => False
  | .run _ | .copyFreed _ _ => True

-- No other thread inserts a keyword into the photo between the tests and the insertion of
-- this one.
def Undisturbed (s : PeerThreads) (a : ThreadAction) : Prop :=
  ∀ routine ∈ s.part a, s.store.Unchanged routine

instance (s : PeerThreads) : DecidablePred s.KeywordStep
  | .call (.addKeyword _ _) | .run _ | .copyFreed _ _ => instDecidableTrue
  | .call (.addPhoto _ _) | .call (.deletePhoto _) | .call (.sendPhoto _) | .call .sendAllPhotos =>
      instDecidableFalse

instance (s : PeerThreads) : DecidablePred s.Undisturbed := fun a =>
  inferInstanceAs (Decidable (∀ routine ∈ s.part a, s.store.Unchanged routine))

-- What holds while threads add keywords: nobody does anything else.
structure TablesInv (s : PeerThreads) : Prop where
  adds : ∀ routine ∈ s.threads, routine.addsKeyword = true
  tested : ∀ routine ∈ s.threads, s.store.Tested routine
  tables : s.store.TablesOk

variable {s t : PeerThreads} {a : ThreadAction}

-- One part of a thread that adds a keyword.
theorem tablesInv_part {store store' : PeerStore} {routine : Routine} {rest : List Routine}
    {next : Option Routine} (h : TablesInv ⟨store, routine :: rest⟩)
    (hunchanged : store.Unchanged routine) (hpart : KeywordPart store routine store' next) :
    TablesInv ⟨store', rest ++ next.toList⟩ := by
  have hadds : ∀ r ∈ rest ++ next.toList, r.addsKeyword = true := by
    intro r hr
    rcases List.mem_append.mp hr with hrest | hr
    · exact h.adds r (List.mem_cons_of_mem _ hrest)
    · exact hpart.addsKeyword r (Option.mem_toList.mp hr)
  have htested := h.tested routine List.mem_cons_self
  have hkept : (∀ r ∈ rest, store'.Tested r) ∧ store'.TablesOk := by
    rcases hpart.store with rfl | ⟨id, keyword, insertions, aux, rfl, haux, rfl⟩
    · exact ⟨fun r hr => h.tested r (List.mem_cons_of_mem _ hr), h.tables⟩
    · -- The table is the one that this thread tested.
      have htakes : aux.Takes keyword := htested.2 hunchanged aux haux
      exact ⟨fun r hr => tested_insertKeyword htakes.1 (h.tested r (List.mem_cons_of_mem _ hr)),
        tablesOk_insertKeyword haux h.tables htakes⟩
  refine ⟨hadds, ?_, hkept.2⟩
  intro r hr
  rcases List.mem_append.mp hr with hrest | hr
  · exact hkept.1 r hrest
  · exact hpart.tested htested r (Option.mem_toList.mp hr)

theorem tablesInv_step (h : TablesInv s) (ha : s.KeywordStep a) (hundisturbed : s.Undisturbed a)
    (hstep : s.step a = some t) : TablesInv t := by
  rcases step_cases hstep with ⟨request, rfl, rfl⟩ |
    ⟨routine, rest, store, next, hpart, hperm, hrun, rfl⟩
  case inl =>
    cases request
    case addKeyword id keyword =>
      refine ⟨?_, ?_, h.tables⟩
      all_goals
        intro routine hroutine
        rcases List.mem_append.mp hroutine with hold | hnew
      · exact h.adds routine hold
      · obtain rfl := List.mem_singleton.mp hnew
        rfl
      · exact h.tested routine hold
      · obtain rfl := List.mem_singleton.mp hnew
        exact trivial
    all_goals cases ha
  case inr =>
    have hpicked : TablesInv ⟨s.store, routine :: rest⟩ :=
      ⟨fun r hr => h.adds r (hperm.mem_iff.mpr hr), fun r hr => h.tested r (hperm.mem_iff.mpr hr),
        h.tables⟩
    have hadds := hpicked.adds routine List.mem_cons_self
    rcases hrun with hrun | ⟨photo, hcopy⟩
    · exact tablesInv_part hpicked (hundisturbed routine hpart) (runRoutine_addsKeyword hadds hrun)
    · obtain ⟨id, removals, rfl, -⟩ := copyFreed_cases hcopy
      cases hadds

-- The tables stay in order in every run in which no keyword is inserted into a photo that got
-- another one after the tests.
theorem keyword_tables_kept {start : PeerThreads} (hrest : start.AtRest)
    (htables : start.store.TablesOk)
    (hrun : Reaches step (fun s a => s.KeywordStep a ∧ s.Undisturbed a) start s) :
    s.store.TablesOk := by
  have hinv : TablesInv s := by
    apply hrun.invariant
    · exact ⟨fun routine h => by simp [hrest.1] at h, fun routine h => by simp [hrest.1] at h, htables⟩
    · exact fun s a t hs ha hstep => tablesInv_step hs ha.1 ha.2 hstep
  exact hinv.tables

-- A photo without keywords.
def onePhoto : PeerThreads :=
  ⟨⟨[⟨[112], 7, []⟩], Disk.empty (fun _ => []), false, fun photos _ _ => photos, fun _ => [],
    fun _ => 0, fun _ => 0, []⟩, []⟩

def twoRequests (keyword keyword' : CString) : List ThreadAction :=
  [.call (.addKeyword 7 keyword), .call (.addKeyword 7 keyword')]

theorem tablesOk_onePhoto : onePhoto.store.TablesOk := by
  intro photo hphoto
  obtain rfl := List.mem_singleton.mp hphoto
  exact ⟨Nat.zero_le _, List.nodup_nil⟩

-- Both find the photo before either tests its table, and one is done before the other tests.
theorem keyword_tables_kept_twoKeywords :
    ∃ s, execute step (fun s a => s.KeywordStep a ∧ s.Undisturbed a) onePhoto
        (twoRequests [120] [121] ++
          [.run 0, .run 0, .run 0, .run 1, .run 1, .run 0, .run 0, .run 0]) = some s ∧
      s.store.photo_list = [⟨[112], 7, [[120], [121]]⟩] ∧ s.store.TablesOk := by
  have hrun : (execute step (fun s a => s.KeywordStep a ∧ s.Undisturbed a) onePhoto
      (twoRequests [120] [121] ++
        [.run 0, .run 0, .run 0, .run 1, .run 1, .run 0, .run 0, .run 0])).map
      (fun s => s.store.photo_list) = some [⟨[112], 7, [[120], [121]]⟩] := by decide +kernel
  obtain ⟨s, hs, hlist⟩ := Option.map_eq_some_iff.mp hrun
  refine ⟨s, hs, hlist, ?_⟩
  exact keyword_tables_kept ⟨rfl, rfl⟩ tablesOk_onePhoto (reaches_of_execute _ hs)

-- Both test the table before either inserts.
theorem keyword_inserted_twice :
    ¬ ∀ start s : PeerThreads, start.AtRest → start.store.TablesOk →
      Reaches step KeywordStep start s → s.store.TablesOk := by
  intro h
  have hrun : (execute step KeywordStep onePhoto
      (twoRequests [65] [65] ++ List.replicate 8 (.run 0))).map (fun s => s.store.photo_list) =
        some [⟨[112], 7, [[65], [65]]⟩] := by decide +kernel
  obtain ⟨s, hs, hlist⟩ := Option.map_eq_some_iff.mp hrun
  have hok := h onePhoto s ⟨rfl, rfl⟩ tablesOk_onePhoto (reaches_of_execute _ hs)
  have hnodup := (hok ⟨[112], 7, [[65], [65]]⟩ (by rw [hlist]; exact List.mem_cons_self)).2
  exact absurd hnodup (by decide)

end PeerThreads

end Gallery
