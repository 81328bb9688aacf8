import Gallery.Peer.Threads

namespace Gallery

section Parts

variable (id : UInt32)

-- What a part of a handler has to do with the file of a photo.
def Routine.writesFile : Routine → Bool
  | .openToWrite id' _ | .write id' _ _ => id' == id
  | _ => false

def Routine.unlinksFile : Routine → Bool
  | .unlinkPhoto id' => id' == id
  | _ => false

def Routine.readsFile : Routine → Bool
  | .openToRead photo _ => photo.id == id
  | _ => false

def Routine.holdsLock : Routine → Bool
  | .sendPhotos _ => true
  | _ => false

end Parts

namespace PeerThreads

section Conditions

variable (s : PeerThreads) (id : UInt32)

def Writing : Prop := ∃ r ∈ s.threads, r.writesFile id = true

def Unlinking : Prop := ∃ r ∈ s.threads, r.unlinksFile id = true

def Reading : Prop := ∃ r ∈ s.threads, r.readsFile id = true

-- The file of this photo may be asked for and is not unlinked yet.
def Present : Prop := id ∈ s.store.ids ∨ s.Unlinking id

instance : Decidable (s.Writing id) := inferInstanceAs (Decidable (∃ r ∈ s.threads, _))
instance : Decidable (s.Unlinking id) := inferInstanceAs (Decidable (∃ r ∈ s.threads, _))
instance : Decidable (s.Reading id) := inferInstanceAs (Decidable (∃ r ∈ s.threads, _))
instance : Decidable (s.Present id) := inferInstanceAs (Decidable (_ ∨ _))

-- The file of a photo is opened after it is written and before it is unlinked, an id is
-- used again only after its last photo is gone, and a photo is copied while it is there. No
-- keyword goes past its table.
def KeepsFiles : Routine → Prop
  | .insertPhoto photo _ => ¬s.Present photo.id ∧ ¬s.Writing photo.id ∧ ¬s.Reading photo.id
  | .insertKeyword id _ _ =>
      ∀ aux ∈ listSearch s.store.photo_list (setData [] id), aux.n_keywords < MAX_KEYWORDS
  | .removePhoto id => s.store.ids.count id ≤ 1
  | .copyPhoto id removals => s.store.removals id = removals
  | .openToRead photo _ => ¬s.Writing photo.id ∧ s.Present photo.id
  | .sendPhotos (photo :: _) => ¬s.Writing photo.id
  | _ => True

instance : DecidablePred s.KeepsFiles
  | .insertPhoto _ _ => inferInstanceAs (Decidable (_ ∧ _ ∧ _))
  | .insertKeyword id _ _ => inferInstanceAs (Decidable
      (∀ aux ∈ listSearch s.store.photo_list (setData [] id), aux.n_keywords < MAX_KEYWORDS))
  | .removePhoto _ => inferInstanceAs (Decidable (_ ≤ 1))
  | .copyPhoto _ _ => inferInstanceAs (Decidable (_ = _))
  | .openToRead _ _ => inferInstanceAs (Decidable (_ ∧ _))
  | .sendPhotos (_ :: _) => inferInstanceAs (Decidable (¬_))
  | .openToWrite _ _ | .write _ _ _ | .findPhoto _ _ | .checkFull _ _ | .searchKeyword _ _ _
  | .unlinkPhoto _ | .lookupPhoto _ | .lockPhotos | .sendPhotos [] => instDecidableTrue

end Conditions

-- Photos that come to the peer are not empty.
def AddsBytes (_ : PeerThreads) : ThreadAction → Prop
  | .call (.addPhoto _ bytes) => bytes ≠ []
  | _ => True

instance (s : PeerThreads) : DecidablePred s.AddsBytes
  | .call (.addPhoto _ bytes) => inferInstanceAs (Decidable (bytes ≠ []))
  | .call (.addKeyword _ _) | .call (.deletePhoto _) | .call (.sendPhoto _) | .call .sendAllPhotos
  | .run _ | .copyFreed _ _ => instDecidableTrue

def OrdersFiles (s : PeerThreads) (a : ThreadAction) : Prop := ∀ r ∈ s.part a, s.KeepsFiles r

instance (s : PeerThreads) : DecidablePred s.OrdersFiles := fun a =>
  inferInstanceAs (Decidable (∀ r ∈ s.part a, s.KeepsFiles r))

def FilesReadable (s : PeerThreads) : Prop :=
  ∀ photo ∈ s.store.photo_list,
    s.store.disk.read (fileName photo.id) = some (s.store.content photo.id) ∧
    s.store.content photo.id ≠ []

-- What each thread relies on for its next part.
def Fits (s : PeerThreads) : Routine → Prop
  | .insertPhoto _ bytes => bytes ≠ []
  | .openToWrite id bytes => bytes = s.store.content id
  | .write id file bytes =>
      bytes = s.store.content id ∧ s.store.disk.Opened (fileName id) file ∧
      (s.Present id → s.store.disk.entries (fileName id) = some file)
  | .unlinkPhoto id => id ∉ s.store.ids
  | .openToRead photo content => content = s.store.content photo.id
  | .sendPhotos rest => ∀ photo ∈ rest, photo.id ∈ s.store.ids
  | _ => True

-- A file that nobody is writing holds its photo, as long as the photo may be asked for.
structure FilesInv (s : PeerThreads) : Prop where
  fits : ∀ r ∈ s.threads, s.Fits r
  unlinks : ∀ id, s.threads.countP (·.unlinksFile id) ≤ 1
  content : ∀ id, s.Present id → s.store.content id ≠ []
  files : ∀ id, s.Present id → ¬s.Writing id →
    s.store.disk.read (fileName id) = some (s.store.content id)
  holders : s.threads.countP (·.holdsLock) = if s.store.photo_lock then 1 else 0
  opened : ∀ o ∈ s.store.opened, o.found = some o.content ∧ o.content ≠ []

section Pool

variable {store store' : PeerStore} {l l' : List Routine}

theorem exists_perm {p : Routine → Bool} (hperm : l.Perm l') :
    (∃ r ∈ l, p r = true) ↔ ∃ r ∈ l', p r = true := by
  simp only [hperm.mem_iff]

theorem present_perm (hperm : l.Perm l') (id : UInt32) :
    Present ⟨store, l⟩ id ↔ Present ⟨store, l'⟩ id := or_congr_right (exists_perm hperm)

-- The order of the threads does not matter.
theorem keepsFiles_perm {r : Routine} (h : KeepsFiles ⟨store, l⟩ r) (hperm : l.Perm l') :
    KeepsFiles ⟨store, l'⟩ r := by
  have hwriting : ∀ id, Writing ⟨store, l⟩ id ↔ Writing ⟨store, l'⟩ id := fun _ => exists_perm hperm
  cases r
  case insertPhoto photo bytes =>
    exact ⟨fun hp => h.1 ((present_perm hperm _).mpr hp), fun hw => h.2.1 ((hwriting _).mpr hw),
      fun hr => h.2.2 ((exists_perm hperm).mpr hr)⟩
  case openToRead photo content =>
    exact ⟨fun hw => h.1 ((hwriting _).mpr hw), (present_perm hperm _).mp h.2⟩
  case sendPhotos photos =>
    cases photos with
    | nil => exact trivial
    | cons photo photos => exact fun hw => h ((hwriting _).mpr hw)
  all_goals exact h

theorem filesInv_perm (h : FilesInv ⟨store, l⟩) (hperm : l.Perm l') : FilesInv ⟨store, l'⟩ := by
  have hwriting : ∀ id, Writing ⟨store, l'⟩ id ↔ Writing ⟨store, l⟩ id :=
    fun _ => exists_perm hperm.symm
  have hpresent : ∀ id, Present ⟨store, l'⟩ id ↔ Present ⟨store, l⟩ id := present_perm hperm.symm
  refine ⟨?_, ?_, ?_, ?_, ?_, h.opened⟩
  · intro r hr
    have hfits := h.fits r (hperm.mem_iff.mpr hr)
    cases r
    case write id file bytes =>
      exact ⟨hfits.1, hfits.2.1, fun hp => hfits.2.2 ((hpresent id).mp hp)⟩
    all_goals exact hfits
  · intro id
    rw [← hperm.countP_eq]
    exact h.unlinks id
  · exact fun id hp => h.content id ((hpresent id).mp hp)
  · exact fun id hp hw => h.files id ((hpresent id).mp hp) (fun hw' => hw ((hwriting id).mpr hw'))
  · rw [← hperm.countP_eq]
    exact h.holders

-- A part that leaves the files alone.
def Plain (r : Routine) : Prop := ∀ id, r.writesFile id = false ∧ r.unlinksFile id = false

theorem exists_append {p : Routine → Bool} {l rest : List Routine} (hl : ∀ r ∈ l, p r = false) :
    (∃ r ∈ l ++ rest, p r = true) ↔ ∃ r ∈ rest, p r = true := by
  constructor
  · rintro ⟨r, hr, hp⟩
    rcases List.mem_append.mp hr with hr | hr
    · rw [hl r hr] at hp
      cases hp
    · exact ⟨r, hr, hp⟩
  · rintro ⟨r, hr, hp⟩
    exact ⟨r, List.mem_append_right _ hr, hp⟩

theorem unlinks_append {l rest : List Routine} (id : UInt32) (hl : ∀ r ∈ l, Plain r) :
    (l ++ rest).countP (·.unlinksFile id) = rest.countP (·.unlinksFile id) := by
  have hzero : l.countP (·.unlinksFile id) = 0 := by
    rw [List.countP_eq_zero]
    intro r hr
    simp [(hl r hr id).2]
  rw [List.countP_append, hzero, Nat.zero_add]

theorem countP_swap {p : Routine → Bool} {r r' : Routine} {rest : List Routine} (hr : p r = false)
    (hr' : p r' = false) : (r' :: rest).countP p = (r :: rest).countP p := by
  rw [List.countP_cons_of_neg (Bool.eq_false_iff.mp hr),
    List.countP_cons_of_neg (Bool.eq_false_iff.mp hr')]

theorem holdsLock_locked {photos : List Data} (h : FilesInv ⟨store, l⟩)
    (hmem : .sendPhotos photos ∈ l) : store.photo_lock = true := by
  have hpos : 0 < l.countP (·.holdsLock) := List.countP_pos_iff.mpr ⟨_, hmem, rfl⟩
  by_contra hlock
  have hholders : l.countP (·.holdsLock) = 0 := h.holders.trans (if_neg hlock)
  omega

variable {old new rest : List Routine}

-- Parts that change neither the listed ids nor the files nor who is about to.
theorem filesInv_frame (h : FilesInv ⟨store, old ++ rest⟩) (hids : store'.ids = store.ids)
    (hcontent : store'.content = store.content) (hdisk : store'.disk = store.disk)
    (hold : ∀ r ∈ old, Plain r) (hnew : ∀ r ∈ new, Plain r ∧ Fits ⟨store', new ++ rest⟩ r)
    (hholders : (new ++ rest).countP (·.holdsLock) = if store'.photo_lock then 1 else 0)
    (hopened : ∀ o ∈ store'.opened, o.found = some o.content ∧ o.content ≠ []) :
    FilesInv ⟨store', new ++ rest⟩ := by
  have hplain : ∀ r ∈ new, Plain r := fun r hr => (hnew r hr).1
  have hwriting : ∀ id, Writing ⟨store', new ++ rest⟩ id ↔ Writing ⟨store, old ++ rest⟩ id :=
    fun id => (exists_append (fun r hr => (hplain r hr id).1)).trans
      (exists_append (fun r hr => (hold r hr id).1)).symm
  have hpresent : ∀ id, Present ⟨store', new ++ rest⟩ id ↔ Present ⟨store, old ++ rest⟩ id := by
    intro id
    rw [Present, Present, hids]
    exact or_congr_right ((exists_append (fun r hr => (hplain r hr id).2)).trans
      (exists_append (fun r hr => (hold r hr id).2)).symm)
  refine ⟨?_, ?_, ?_, ?_, hholders, hopened⟩
  · intro r hr
    rcases List.mem_append.mp hr with hmem | hmem
    · exact (hnew r hmem).2
    · have hfits := h.fits r (List.mem_append_right _ hmem)
      cases r
      case openToWrite => exact hfits.trans (congrFun hcontent.symm _)
      case openToRead => exact hfits.trans (congrFun hcontent.symm _)
      case write id file bytes =>
        simp only [Fits, hcontent, hdisk, hpresent id]
        exact hfits
      case unlinkPhoto => exact fun hid => hfits (hids ▸ hid)
      case sendPhotos => exact fun photo hphoto => hids ▸ hfits photo hphoto
      all_goals exact hfits
  · intro id
    rw [unlinks_append id hplain, ← unlinks_append id hold]
    exact h.unlinks id
  · intro id hp
    rw [hcontent]
    exact h.content id ((hpresent id).mp hp)
  · intro id hp hw
    rw [hdisk, hcontent]
    exact h.files id ((hpresent id).mp hp) (fun hw' => hw ((hwriting id).mpr hw'))

theorem present_cons (r : Routine) (id : UInt32) :
    Present ⟨store, r :: rest⟩ id ↔ r.unlinksFile id = true ∨ Present ⟨store, rest⟩ id := by
  simp only [Present, Unlinking, List.mem_cons, exists_eq_or_imp]
  exact or_left_comm

theorem writing_cons (r : Routine) (id : UInt32) :
    Writing ⟨store, r :: rest⟩ id ↔ r.writesFile id = true ∨ Writing ⟨store, rest⟩ id := by
  simp only [Writing, List.mem_cons, exists_eq_or_imp]

-- The first part of `add_photo` lists a photo under an id that was not in use.
theorem filesInv_insert {photo : Data} {bytes : List Byte}
    (h : FilesInv ⟨store, .insertPhoto photo bytes :: rest⟩)
    (hkeeps : KeepsFiles ⟨store, .insertPhoto photo bytes :: rest⟩ (.insertPhoto photo bytes))
    (hids : store'.ids = photo.id :: store.ids)
    (hcontent : store'.content = Function.update store.content photo.id bytes)
    (hdisk : store'.disk = store.disk) (hlock : store'.photo_lock = store.photo_lock)
    (hopened : store'.opened = store.opened) :
    FilesInv ⟨store', .openToWrite photo.id bytes :: rest⟩ := by
  obtain ⟨hpresent, hwriting, hreading⟩ := hkeeps
  have hbytes : bytes ≠ [] := h.fits _ List.mem_cons_self
  have hsame : ∀ id, id ≠ photo.id → store'.content id = store.content id := by
    intro id hid
    rw [hcontent, Function.update_of_ne hid]
  -- Any other id is in use just when it was before.
  have hother : ∀ id, id ≠ photo.id → Present ⟨store', .openToWrite photo.id bytes :: rest⟩ id →
      Present ⟨store, .insertPhoto photo bytes :: rest⟩ id := by
    intro id hid hp
    simp only [present_cons, Routine.unlinksFile, Bool.false_eq_true, false_or] at hp ⊢
    rw [Present, hids, List.mem_cons, or_iff_right hid] at hp
    exact hp
  refine ⟨?_, ?_, ?_, ?_, ?_, ?_⟩
  · intro r hr
    rcases List.mem_cons.mp hr with rfl | hmem
    · rw [Fits, hcontent, Function.update_self]
    · have hmem' := List.mem_cons_of_mem (Routine.insertPhoto photo bytes) hmem
      have hfits := h.fits r hmem'
      cases r
      case openToWrite id content =>
        have hid : id ≠ photo.id := by
          rintro rfl
          exact hwriting ⟨_, hmem', by simp [Routine.writesFile]⟩
        exact hfits.trans (hsame id hid).symm
      case openToRead photo' content =>
        have hid : photo'.id ≠ photo.id :=
          fun hid => hreading ⟨_, hmem', by simp [Routine.readsFile, hid]⟩
        exact hfits.trans (hsame _ hid).symm
      case write id file content =>
        have hid : id ≠ photo.id := by
          rintro rfl
          exact hwriting ⟨_, hmem', by simp [Routine.writesFile]⟩
        obtain ⟨hcontent', hfile, hentry⟩ := hfits
        rw [Fits, hdisk, hsame id hid]
        exact ⟨hcontent', hfile, fun hp => hentry (hother id hid hp)⟩
      case unlinkPhoto id =>
        have hid : id ≠ photo.id := by
          rintro rfl
          exact hpresent (Or.inr ⟨_, hmem', by simp [Routine.unlinksFile]⟩)
        rw [Fits, hids, List.mem_cons, not_or]
        exact ⟨hid, hfits⟩
      case sendPhotos photos =>
        intro photo' hphoto'
        rw [hids]
        exact List.mem_cons_of_mem _ (hfits photo' hphoto')
      all_goals exact hfits
  · exact fun id => (countP_swap rfl rfl).trans_le (h.unlinks id)
  · intro id hp
    by_cases hid : id = photo.id
    · rw [hid, hcontent, Function.update_self]
      exact hbytes
    · rw [hsame id hid]
      exact h.content id (hother id hid hp)
  · intro id hp hw
    have hid : id ≠ photo.id := by
      rintro rfl
      exact hw ((writing_cons _ _).mpr (Or.inl (by simp [Routine.writesFile])))
    rw [hdisk, hsame id hid]
    apply h.files id (hother id hid hp)
    intro hw'
    rcases (writing_cons _ _).mp hw' with hw' | hw'
    · cases hw'
    · exact hw ((writing_cons _ _).mpr (Or.inr hw'))
  · rw [hlock]
    exact (countP_swap rfl rfl).trans h.holders
  · rw [hopened]
    exact h.opened

-- Its file is opened, which empties it,
theorem filesInv_openToWrite {id : UInt32} {bytes : List Byte}
    (h : FilesInv ⟨store, .openToWrite id bytes :: rest⟩) :
    FilesInv ⟨store.setDisk (store.disk.create (fileName id) []).2,
      .write id (store.disk.create (fileName id) []).1 bytes :: rest⟩ := by
  have hpresent : ∀ id',
      Present ⟨store.setDisk (store.disk.create (fileName id) []).2,
        .write id (store.disk.create (fileName id) []).1 bytes :: rest⟩ id' ↔
      Present ⟨store, .openToWrite id bytes :: rest⟩ id' := by
    intro id'
    simp only [present_cons, Routine.unlinksFile]
    rfl
  refine ⟨?_, ?_, ?_, ?_, ?_, h.opened⟩
  · intro r hr
    rcases List.mem_cons.mp hr with rfl | hmem
    · exact ⟨h.fits _ List.mem_cons_self, Disk.create_opened, fun _ => by simp [PeerStore.setDisk]⟩
    · have hfits := h.fits r (List.mem_cons_of_mem _ hmem)
      cases r
      case write id' file content =>
        obtain ⟨hcontent, hfile, hentry⟩ := hfits
        refine ⟨hcontent, hfile.create, fun hp => ?_⟩
        have hentry' := hentry ((hpresent id').mp hp)
        rw [PeerStore.setDisk, Disk.create_entries]
        split
        case isTrue hname => rw [Disk.create_fst _ _ _ (hname ▸ hentry')]
        case isFalse => exact hentry'
      all_goals exact hfits
  · exact fun id' => (countP_swap rfl rfl).trans_le (h.unlinks id')
  · exact fun id' hp => h.content id' ((hpresent id').mp hp)
  · intro id' hp hw
    rw [writing_cons, not_or] at hw
    have hid : fileName id' ≠ fileName id := by
      intro hname
      obtain rfl := fileName_injective hname
      exact hw.1 (by simp [Routine.writesFile])
    rw [PeerStore.setDisk, Disk.create_read, if_neg hid]
    apply h.files id' ((hpresent id').mp hp)
    rw [writing_cons, not_or]
    exact ⟨hw.1, hw.2⟩
  · exact (countP_swap rfl rfl).trans h.holders

-- and written.
theorem filesInv_write {id : UInt32} {file : Nat} {bytes : List Byte}
    (h : FilesInv ⟨store, .write id file bytes :: rest⟩) :
    FilesInv ⟨store.setDisk (store.disk.write file bytes), rest⟩ := by
  obtain ⟨hbytes, hfile, hentry⟩ := h.fits _ List.mem_cons_self
  have hpresent : ∀ id', Present ⟨store.setDisk (store.disk.write file bytes), rest⟩ id' ↔
      Present ⟨store, .write id file bytes :: rest⟩ id' := by
    intro id'
    simp only [present_cons, Routine.unlinksFile, Bool.false_eq_true, false_or]
    rfl
  refine ⟨?_, ?_, ?_, ?_, ?_, h.opened⟩
  · intro r hr
    have hfits := h.fits r (List.mem_cons_of_mem _ hr)
    cases r
    case write id' file' content =>
      obtain ⟨hcontent, hfile', hentry'⟩ := hfits
      exact ⟨hcontent, hfile'.write, fun hp => hentry' ((hpresent id').mp hp)⟩
    all_goals exact hfits
  · exact fun id' => (List.countP_cons_of_neg Bool.false_ne_true).symm.trans_le (h.unlinks id')
  · exact fun id' hp => h.content id' ((hpresent id').mp hp)
  · intro id' hp hw
    rw [PeerStore.setDisk]
    by_cases hid : id' = id
    · subst hid
      rw [Disk.write_read_self _ _ (hentry ((hpresent id').mp hp)), hbytes]
    · rw [hfile.write_read_other (fun hname => hid (fileName_injective hname))]
      apply h.files id' ((hpresent id').mp hp)
      rw [writing_cons, not_or]
      exact ⟨by simpa [Routine.writesFile] using Ne.symm hid, hw⟩
  · exact (List.countP_cons_of_neg Bool.false_ne_true).symm.trans h.holders

-- A photo is taken off the list,
theorem filesInv_remove {id : UInt32} (h : FilesInv ⟨store, .removePhoto id :: rest⟩)
    (hkeeps : store.ids.count id ≤ 1) (hlock : store.photo_lock = false) (hmem : id ∈ store.ids)
    (hids' : store'.ids = store.ids.erase id)
    (hsame : store'.content = store.content ∧ store'.disk = store.disk ∧
      store'.photo_lock = store.photo_lock ∧ store'.opened = store.opened) :
    FilesInv ⟨store', .unlinkPhoto id :: rest⟩ := by
  obtain ⟨hcontent, hdisk, hlock', hopened⟩ := hsame
  have hgone : id ∉ store.ids.erase id := by
    rw [← List.count_eq_zero, List.count_erase_self]
    omega
  have hpresent : ∀ id', Present ⟨store', .unlinkPhoto id :: rest⟩ id' →
      Present ⟨store, .removePhoto id :: rest⟩ id' := by
    intro id' hp
    simp only [present_cons, Routine.unlinksFile, Bool.false_eq_true, false_or, beq_iff_eq] at hp ⊢
    rcases hp with rfl | hp | hp
    · exact Or.inl hmem
    · exact Or.inl (List.mem_of_mem_erase (hids' ▸ hp))
    · exact Or.inr hp
  refine ⟨?_, ?_, ?_, ?_, ?_, hopened ▸ h.opened⟩
  · intro r hr
    rcases List.mem_cons.mp hr with rfl | hrest
    · rw [Fits, hids']
      exact hgone
    · have hfits := h.fits r (List.mem_cons_of_mem _ hrest)
      cases r
      case openToWrite => exact hfits.trans (congrFun hcontent.symm _)
      case openToRead => exact hfits.trans (congrFun hcontent.symm _)
      case write id' file content =>
        rw [Fits, hcontent, hdisk]
        exact ⟨hfits.1, hfits.2.1, fun hp => hfits.2.2 (hpresent id' hp)⟩
      case unlinkPhoto id' =>
        rw [Fits, hids']
        exact fun hid => hfits (List.mem_of_mem_erase hid)
      case sendPhotos photos' =>
        -- Nobody goes through the list while the lock is free.
        have hheld := holdsLock_locked h (List.mem_cons_of_mem _ hrest)
        exact absurd (hlock.symm.trans hheld) Bool.false_ne_true
      all_goals exact hfits
  · intro id'
    have hrest : rest.countP (·.unlinksFile id') ≤ 1 :=
      (List.countP_cons_of_neg Bool.false_ne_true).symm.trans_le (h.unlinks id')
    by_cases hid : id' = id
    · have hnone : rest.countP (·.unlinksFile id') = 0 := by
        rw [List.countP_eq_zero]
        intro r hr hu
        have hfits := h.fits r (List.mem_cons_of_mem _ hr)
        cases r
        case unlinkPhoto id'' =>
          rw [Routine.unlinksFile, beq_iff_eq] at hu
          exact hfits (hu ▸ hid ▸ hmem)
        all_goals cases hu
      rw [List.countP_cons, hnone]
      split <;> omega
    · rw [List.countP_cons_of_neg (by simpa [Routine.unlinksFile] using Ne.symm hid)]
      exact hrest
  · intro id' hp
    rw [hcontent]
    exact h.content id' (hpresent id' hp)
  · intro id' hp hw
    rw [hcontent, hdisk]
    apply h.files id' (hpresent id' hp)
    rw [writing_cons, not_or] at hw ⊢
    exact ⟨by simp [Routine.writesFile], hw.2⟩
  · rw [hlock']
    exact (countP_swap rfl rfl).trans h.holders

-- and its file unlinked.
theorem filesInv_unlink {id : UInt32} (h : FilesInv ⟨store, .unlinkPhoto id :: rest⟩) :
    FilesInv ⟨store.setDisk (store.disk.unlink (fileName id)), rest⟩ := by
  have hgone : id ∉ store.ids := h.fits _ List.mem_cons_self
  have hlast : rest.countP (·.unlinksFile id) = 0 := by
    have hone : (Routine.unlinkPhoto id :: rest).countP (·.unlinksFile id) ≤ 1 := h.unlinks id
    rw [List.countP_cons_of_pos (by simp [Routine.unlinksFile])] at hone
    omega
  have hpresent : ∀ id', Present ⟨store.setDisk (store.disk.unlink (fileName id)), rest⟩ id' →
      id' ≠ id ∧ Present ⟨store, .unlinkPhoto id :: rest⟩ id' := by
    intro id' hp
    refine ⟨?_, (present_cons _ _).mpr (Or.inr hp)⟩
    rintro rfl
    rcases hp with hid | ⟨r, hr, hu⟩
    · exact hgone hid
    · exact List.countP_eq_zero.mp hlast r hr hu
  refine ⟨?_, ?_, ?_, ?_, ?_, h.opened⟩
  · intro r hr
    have hfits := h.fits r (List.mem_cons_of_mem _ hr)
    cases r
    case write id' file content =>
      obtain ⟨hcontent, hfile, hentry⟩ := hfits
      refine ⟨hcontent, hfile.unlink, fun hp => ?_⟩
      obtain ⟨hid, hp'⟩ := hpresent id' hp
      rw [PeerStore.setDisk, Disk.unlink_entries _ _ _ (fun hname => hid (fileName_injective hname))]
      exact hentry hp'
    all_goals exact hfits
  · intro id'
    exact (List.sublist_cons_self _ rest).countP_le.trans (h.unlinks id')
  · exact fun id' hp => h.content id' (hpresent id' hp).2
  · intro id' hp hw
    obtain ⟨hid, hp'⟩ := hpresent id' hp
    rw [PeerStore.setDisk, Disk.unlink_read, if_neg (fun hname => hid (fileName_injective hname))]
    apply h.files id' hp'
    rw [writing_cons, not_or]
    exact ⟨Bool.false_ne_true, hw⟩
  · exact (List.countP_cons_of_neg Bool.false_ne_true).symm.trans h.holders

-- What a file that is opened in time holds.
theorem opened_openPhoto (h : FilesInv ⟨store, l⟩) {photo : Data} (hp : Present ⟨store, l⟩ photo.id)
    (hw : ¬Writing ⟨store, l⟩ photo.id) :
    ∀ o ∈ (store.openPhoto photo (store.content photo.id)).opened,
      o.found = some o.content ∧ o.content ≠ [] := by
  intro o ho
  rcases List.mem_append.mp ho with hold | hnew
  · exact h.opened o hold
  · obtain rfl := List.mem_singleton.mp hnew
    exact ⟨h.files photo.id hp hw, h.content photo.id hp⟩

-- A part that at most looks a photo up or opens its file.
theorem filesInv_reader {r : Routine} (h : FilesInv ⟨store, r :: rest⟩)
    (hr : Plain r)
    (hsame : store'.ids = store.ids ∧ store'.content = store.content ∧ store'.disk = store.disk)
    (hnew : ∀ r ∈ new, Plain r ∧ Fits ⟨store', new ++ rest⟩ r)
    (hholders : (new ++ rest).countP (·.holdsLock) = if store'.photo_lock then 1 else 0)
    (hopened : ∀ o ∈ store'.opened, o.found = some o.content ∧ o.content ≠ []) :
    FilesInv ⟨store', new ++ rest⟩ := by
  have hold : FilesInv ⟨store, [r] ++ rest⟩ := h
  obtain ⟨hids, hcontent, hdisk⟩ := hsame
  refine filesInv_frame hold hids hcontent hdisk ?_ hnew hholders hopened
  intro r' hr'
  obtain rfl := List.mem_singleton.mp hr'
  exact hr

-- The last part of a handler, when it is such a part.
theorem filesInv_ends {r : Routine} (h : FilesInv ⟨store, r :: rest⟩) (hr : Plain r)
    (hfree : r.holdsLock = false)
    (hsame : store'.ids = store.ids ∧ store'.content = store.content ∧ store'.disk = store.disk)
    (hlock : store'.photo_lock = store.photo_lock)
    (hopened : ∀ o ∈ store'.opened, o.found = some o.content ∧ o.content ≠ []) :
    FilesInv ⟨store', rest⟩ := by
  have hnew : ∀ r ∈ ([] : List Routine), Plain r ∧ Fits ⟨store', [] ++ rest⟩ r := by
    intro r hr
    cases hr
  refine filesInv_reader h hr hsame hnew ?_ hopened
  rw [hlock]
  exact (List.countP_cons_of_neg (Bool.eq_false_iff.mp hfree)).symm.trans h.holders

theorem filesInv_keyword {r : Routine} {next : Option Routine} (h : FilesInv ⟨store, r :: rest⟩)
    (hkeeps : KeepsFiles ⟨store, r :: rest⟩ r) (hadds : r.addsKeyword = true)
    (hrun : runRoutine store r = some (store', next)) :
    FilesInv ⟨store', next.toList ++ rest⟩ := by
  have hadds' : ∀ r : Routine, r.addsKeyword = true →
      Plain r ∧ r.holdsLock = false ∧ ∀ s : PeerThreads, s.Fits r := by
    intro r hr
    cases r
    case findPhoto | checkFull | searchKeyword | insertKeyword =>
      exact ⟨fun _ => ⟨rfl, rfl⟩, rfl, fun _ => trivial⟩
    all_goals cases hr
  have hpart := runRoutine_addsKeyword hadds hrun
  have hids : store'.ids = store.ids := by
    rcases hpart.store with rfl | ⟨id, keyword, insertions, aux, rfl, haux, rfl⟩
    · rfl
    · have hroom : aux.n_keywords < MAX_KEYWORDS := hkeeps aux haux
      rw [PeerStore.ids, PeerStore.insertKeyword, if_pos hroom]
      exact listUpdate_map_id _ _ _ (fun _ => rfl)
  have hrest : store'.content = store.content ∧ store'.disk = store.disk ∧
      store'.photo_lock = store.photo_lock ∧ store'.opened = store.opened := by
    rcases hpart.store with rfl | ⟨id, keyword, insertions, aux, -, -, rfl⟩
    all_goals exact ⟨rfl, rfl, rfl, rfl⟩
  obtain ⟨hcontent, hdisk, hlock, hopened⟩ := hrest
  have hnext' : ∀ r' ∈ next.toList, r'.addsKeyword = true :=
    fun r' hr' => hpart.addsKeyword r' (Option.mem_toList.mp hr')
  refine filesInv_reader h (hadds' r hadds).1 ⟨hids, hcontent, hdisk⟩ ?_ ?_ (hopened ▸ h.opened)
  · exact fun r' hr' => ⟨(hadds' r' (hnext' r' hr')).1, (hadds' r' (hnext' r' hr')).2.2 _⟩
  · rw [hlock, ← h.holders]
    cases next with
    | none => exact (List.countP_cons_of_neg (by simp [(hadds' r hadds).2.1])).symm
    | some r' =>
        exact countP_swap (hadds' r hadds).2.1 (hadds' r' (hnext' r' List.mem_cons_self)).2.1

-- One part of any handler.
theorem filesInv_part {r : Routine} {next : Option Routine} (h : FilesInv ⟨store, r :: rest⟩)
    (hkeeps : KeepsFiles ⟨store, r :: rest⟩ r) (hrun : runRoutine store r = some (store', next)) :
    FilesInv ⟨store', next.toList ++ rest⟩ := by
  by_cases hadds : r.addsKeyword = true
  · exact filesInv_keyword h hkeeps hadds hrun
  have hfits := h.fits r List.mem_cons_self
  cases r
  case findPhoto | checkFull | searchKeyword | insertKeyword => exact absurd rfl hadds
  case insertPhoto photo bytes =>
    simp only [runRoutine] at hrun
    split at hrun
    · cases hrun
    · obtain ⟨rfl, rfl⟩ := Prod.mk.inj (Option.some.inj hrun)
      exact filesInv_insert h hkeeps rfl rfl rfl rfl rfl
  case openToWrite id bytes =>
    obtain ⟨rfl, rfl⟩ := Prod.mk.inj (Option.some.inj hrun)
    exact filesInv_openToWrite h
  case write id file bytes =>
    obtain ⟨rfl, rfl⟩ := Prod.mk.inj (Option.some.inj hrun)
    exact filesInv_write h
  case removePhoto id =>
    simp only [runRoutine] at hrun
    split at hrun
    · cases hrun
    case isFalse hlock =>
      obtain ⟨rfl, rfl⟩ := Prod.mk.inj (Option.some.inj hrun)
      have hids : (store.removePhoto id).2.ids = store.ids.erase id := listRemove_map_id _ _
      have hfound : (store.removePhoto id).1 = if id ∈ store.ids then 1 else 0 :=
        listRemove_fst _ _
      by_cases hmem : id ∈ store.ids
      · rw [hfound, if_pos hmem, if_pos Nat.one_ne_zero]
        exact filesInv_remove h hkeeps (Bool.eq_false_iff.mpr hlock) hmem hids ⟨rfl, rfl, rfl, rfl⟩
      · rw [hfound, if_neg hmem, if_neg (fun hne => hne rfl)]
        rw [List.erase_of_not_mem hmem] at hids
        exact filesInv_ends h (fun _ => ⟨rfl, rfl⟩) rfl ⟨hids, rfl, rfl⟩ rfl h.opened
  case unlinkPhoto id =>
    obtain ⟨rfl, rfl⟩ := Prod.mk.inj (Option.some.inj hrun)
    exact filesInv_unlink h
  case lookupPhoto id =>
    simp only [runRoutine] at hrun
    split at hrun
    · cases hrun
    · obtain ⟨rfl, rfl⟩ := Prod.mk.inj (Option.some.inj hrun)
      cases listSearch store.photo_list (setData [] id) with
      | none => exact filesInv_ends h (fun _ => ⟨rfl, rfl⟩) rfl ⟨rfl, rfl, rfl⟩ rfl h.opened
      | some photo =>
          refine filesInv_reader h (fun _ => ⟨rfl, rfl⟩) ⟨rfl, rfl, rfl⟩ ?_ ?_ ?_
          · intro r hr
            obtain rfl := List.mem_singleton.mp hr
            exact ⟨fun _ => ⟨rfl, rfl⟩, trivial⟩
          · exact (countP_swap rfl rfl).trans h.holders
          · exact h.opened
  case copyPhoto id removals =>
    simp only [runRoutine] at hrun
    split at hrun
    · obtain ⟨photo, -, hrun⟩ := Option.bind_eq_some_iff.mp hrun
      obtain ⟨rfl, rfl⟩ := Prod.mk.inj (Option.some.inj hrun)
      refine filesInv_reader h (fun _ => ⟨rfl, rfl⟩) ⟨rfl, rfl, rfl⟩ ?_ ?_ ?_
      · intro r hr
        obtain rfl := List.mem_singleton.mp hr
        exact ⟨fun _ => ⟨rfl, rfl⟩, rfl⟩
      · exact (countP_swap rfl rfl).trans h.holders
      · exact h.opened
    · cases hrun
  case openToRead photo content =>
    obtain ⟨rfl, rfl⟩ := Prod.mk.inj (Option.some.inj hrun)
    obtain rfl : content = store.content photo.id := hfits
    refine filesInv_ends h (fun _ => ⟨rfl, rfl⟩) rfl ⟨rfl, rfl, rfl⟩ rfl ?_
    exact opened_openPhoto h hkeeps.2 hkeeps.1
  case lockPhotos =>
    simp only [runRoutine] at hrun
    split at hrun
    · cases hrun
    case isFalse hlock =>
      obtain ⟨rfl, rfl⟩ := Prod.mk.inj (Option.some.inj hrun)
      refine filesInv_reader h (fun _ => ⟨rfl, rfl⟩) ⟨rfl, rfl, rfl⟩ ?_ ?_ ?_
      · intro r hr
        obtain rfl := List.mem_singleton.mp hr
        exact ⟨fun _ => ⟨rfl, rfl⟩, fun photo hphoto => List.mem_map_of_mem hphoto⟩
      · have hfree : rest.countP (·.holdsLock) = 0 :=
          (List.countP_cons_of_neg Bool.false_ne_true).symm.trans (h.holders.trans (if_neg hlock))
        exact (List.countP_cons_of_pos rfl).trans (congrArg (· + 1) hfree)
      · exact h.opened
  case sendPhotos photos =>
    have hlock := holdsLock_locked h List.mem_cons_self
    have hholders : (Routine.sendPhotos photos :: rest).countP (·.holdsLock) = 1 :=
      h.holders.trans (if_pos hlock)
    cases photos with
    | nil =>
        obtain ⟨rfl, rfl⟩ := Prod.mk.inj (Option.some.inj hrun)
        refine filesInv_reader h (fun _ => ⟨rfl, rfl⟩) ⟨rfl, rfl, rfl⟩ ?_ ?_ ?_
        · intro r hr
          cases hr
        · rw [List.countP_cons_of_pos rfl] at hholders
          exact Nat.succ_inj.mp hholders
        · exact h.opened
    | cons photo photos =>
        obtain ⟨rfl, rfl⟩ := Prod.mk.inj (Option.some.inj hrun)
        refine filesInv_reader h (fun _ => ⟨rfl, rfl⟩) ⟨rfl, rfl, rfl⟩ ?_ ?_ ?_
        · intro r hr
          obtain rfl := List.mem_singleton.mp hr
          exact ⟨fun _ => ⟨rfl, rfl⟩, fun photo' h' => hfits photo' (List.mem_cons_of_mem _ h')⟩
        · refine Eq.trans ?_ (hholders.trans (if_pos hlock).symm)
          exact (List.countP_cons_of_pos rfl).trans (List.countP_cons_of_pos rfl).symm
        · exact opened_openPhoto h (Or.inl (hfits photo List.mem_cons_self)) hkeeps

end Pool

section Runs

variable {s t start : PeerThreads} {a : ThreadAction}

theorem filesInv_call (h : FilesInv s) (request : PeerRequest) (ha : s.AddsBytes (.call request)) :
    FilesInv ⟨s.store, s.threads ++ [request.routine]⟩ := by
  have hnone : FilesInv ⟨s.store, [] ++ s.threads⟩ := h
  have hrequest : Plain request.routine ∧ request.routine.holdsLock = false ∧
      Fits ⟨s.store, [request.routine] ++ s.threads⟩ request.routine := by
    cases request
    case addPhoto photo bytes => exact ⟨fun _ => ⟨rfl, rfl⟩, rfl, ha⟩
    all_goals exact ⟨fun _ => ⟨rfl, rfl⟩, rfl, trivial⟩
  obtain ⟨hplain, hfree, hfits⟩ := hrequest
  have hfirst : FilesInv ⟨s.store, [request.routine] ++ s.threads⟩ := by
    refine filesInv_frame hnone rfl rfl rfl ?_ ?_ ?_ h.opened
    · intro r hr
      cases hr
    · intro r hr
      obtain rfl := List.mem_singleton.mp hr
      exact ⟨hplain, hfits⟩
    · exact (List.countP_cons_of_neg (Bool.eq_false_iff.mp hfree)).trans h.holders
  exact filesInv_perm hfirst List.perm_append_comm

theorem filesInv_step (h : FilesInv s) (hadds : s.AddsBytes a) (horders : s.OrdersFiles a)
    (hstep : s.step a = some t) : FilesInv t := by
  rcases step_cases hstep with ⟨request, rfl, rfl⟩ | ⟨r, rest, store, next, hpart, hperm, hrun, rfl⟩
  · exact filesInv_call h request hadds
  · have hpicked : FilesInv ⟨s.store, r :: rest⟩ := filesInv_perm h hperm
    have hkeeps : KeepsFiles ⟨s.store, r :: rest⟩ r := keepsFiles_perm (horders r hpart) hperm
    rcases hrun with hrun | ⟨photo, hcopy⟩
    · exact filesInv_perm (filesInv_part hpicked hkeeps hrun) List.perm_append_comm
    · -- The photo is still there when it is copied.
      obtain ⟨id, removals, rfl, hgone⟩ := copyFreed_cases hcopy
      exact absurd hkeeps hgone

theorem filesInv_start (hrest : start.AtRest) (hopened : start.store.opened = [])
    (hfiles : start.FilesReadable) : FilesInv start := by
  have hpresent : ∀ id, start.Present id → ∃ photo ∈ start.store.photo_list, photo.id = id := by
    rintro id (hid | ⟨r, hr, -⟩)
    · exact List.mem_map.mp hid
    · rw [hrest.1] at hr
      cases hr
  refine ⟨?_, ?_, ?_, ?_, ?_, ?_⟩
  · intro r hr
    rw [hrest.1] at hr
    cases hr
  · intro id
    rw [hrest.1]
    exact Nat.zero_le 1
  · intro id hp
    obtain ⟨photo, hphoto, rfl⟩ := hpresent id hp
    exact (hfiles photo hphoto).2
  · intro id hp _
    obtain ⟨photo, hphoto, rfl⟩ := hpresent id hp
    exact (hfiles photo hphoto).1
  · rw [hrest.1, hrest.2]
    rfl
  · intro o ho
    rw [hopened] at ho
    cases ho

-- Every photo that is asked for is there in full, as long as its file is opened between the
-- end of its write and its deletion and ids are not used again too early.
theorem listed_photos_served (hrest : start.AtRest) (hopened : start.store.opened = [])
    (hfiles : start.FilesReadable)
    (hrun : Reaches step (fun s a => s.AddsBytes a ∧ s.OrdersFiles a) start s) :
    ∀ o ∈ s.store.opened, o.found = some o.content ∧ o.content ≠ [] :=
  (hrun.invariant (filesInv_start hrest hopened hfiles)
    (fun _ _ _ hs ha hstep => filesInv_step hs ha.1 ha.2 hstep)).opened

-- Photo 1 with its file.
def oneFile : PeerThreads where
  store :=
    { photo_list := [setData [112] 1]
      disk := (Disk.empty (fun _ => [])).enter (fileName 1) [5]
      photo_lock := false
      overrun := fun photos _ _ => photos
      content := fun _ => [5]
      removals := fun _ => 0
      insertions := fun _ => 0
      opened := [] }
  threads := []

-- Photo 7 is added while all photos are asked for, and photo 1 deleted while it is.
def addAndDelete : List ThreadAction :=
  [.call (.addPhoto (setData [113] 7) [1, 2]), .run 0, .call .sendAllPhotos, .run 0, .run 1, .run 0,
    .call (.deletePhoto 1), .run 0, .run 1, .run 1, .call (.sendPhoto 1), .run 1, .run 1, .run 0,
    .run 0, .run 0]

theorem listed_photos_served_addAndDelete :
    ∃ s, execute step (fun s a => s.AddsBytes a ∧ s.OrdersFiles a) oneFile addAndDelete = some s ∧
      s.store.opened.map (fun o => (o.photo.id, o.found)) =
        [(7, some [1, 2]), (1, some [5]), (1, some [5])] ∧
      ∀ o ∈ s.store.opened, o.found = some o.content ∧ o.content ≠ [] := by
  have hrun : (execute step (fun s a => s.AddsBytes a ∧ s.OrdersFiles a) oneFile addAndDelete).map
      (fun s => s.store.opened.map (fun o => (o.photo.id, o.found))) =
        some [(7, some [1, 2]), (1, some [5]), (1, some [5])] := by decide +kernel
  obtain ⟨s, hs, hopened⟩ := Option.map_eq_some_iff.mp hrun
  have hfiles : oneFile.FilesReadable := by
    intro photo hphoto
    obtain rfl := List.mem_singleton.mp hphoto
    exact ⟨rfl, List.cons_ne_nil _ _⟩
  exact ⟨s, hs, hopened, listed_photos_served ⟨rfl, rfl⟩ rfl hfiles (reaches_of_execute _ hs)⟩

-- No photo at all.
def noFile : PeerThreads := ⟨⟨[], Disk.empty (fun _ => []), false, fun photos _ _ => photos,
  fun _ => [], fun _ => 0, fun _ => 0, []⟩, []⟩

-- A photo is listed before its file exists.
theorem listed_photo_not_served :
    ¬ ∀ start s : PeerThreads, start.AtRest → start.store.opened = [] → start.FilesReadable →
      Reaches step AddsBytes start s →
      ∀ o ∈ s.store.opened, o.found = some o.content ∧ o.content ≠ [] := by
  intro h
  have hrun : (execute step AddsBytes noFile [.call (.addPhoto (setData [113] 7) [1, 2]), .run 0,
      .call (.sendPhoto 7), .run 1, .run 1, .run 1]).map (fun s => s.store.opened) =
        some [⟨setData [113] 7, none, [1, 2]⟩] := by decide +kernel
  obtain ⟨s, hs, hopened⟩ := Option.map_eq_some_iff.mp hrun
  have hserved := h _ s ⟨rfl, rfl⟩ rfl (fun _ hphoto => absurd hphoto List.not_mem_nil)
    (reaches_of_execute _ hs)
  rw [hopened] at hserved
  have hfound := (hserved _ List.mem_cons_self).1
  cases hfound

end Runs

end PeerThreads

end Gallery
