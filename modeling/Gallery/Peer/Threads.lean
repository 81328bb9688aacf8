import Gallery.Disk
import Gallery.Peer.Theorems
import Gallery.Transition

namespace Gallery

-- One attempt of `send_photo` to open the file of a photo from `photo_list`: what it
-- found, and the bytes of this photo.
structure Opening where
  photo : Data
  found : Option (List Byte)
  content : List Byte
  deriving DecidableEq

-- What the threads of a peer share. The last four only record: the bytes of the photo that
-- was last listed under an id, how many photos with an id were removed and how many keywords
-- inserted, and the files opened so far.
structure PeerStore where
  photo_list : List Data
  disk : Disk CString (List Byte)
  photo_lock : Bool
  overrun : Overrun
  content : UInt32 → List Byte
  removals : UInt32 → Nat
  insertions : UInt32 → Nat
  opened : List Opening

namespace PeerStore

def ids (s : PeerStore) : List UInt32 := s.photo_list.map Data.id

def setPhotos (s : PeerStore) (photos : List Data) : PeerStore := { s with photo_list := photos }

def setDisk (s : PeerStore) (disk : Disk CString (List Byte)) : PeerStore := { s with disk := disk }

def lock (s : PeerStore) (held : Bool) : PeerStore := { s with photo_lock := held }

-- `fopen(file_name, "rb")`
def openPhoto (s : PeerStore) (photo : Data) (content : List Byte) : PeerStore :=
  { s with opened := s.opened ++ [⟨photo, s.disk.read (fileName photo.id), content⟩] }

-- The item is freed, if there is one.
def removePhoto (s : PeerStore) (id : UInt32) : Nat × PeerStore :=
  let (found, photo_list) := listRemove s.photo_list (setData [] id)
  (found, { s with
    photo_list := photo_list
    removals := Function.update s.removals id (s.removals id + found) })

-- `strcpy(aux->K.keyword[aux->K.n_keywords++], keyword)`, past the table when it is full.
def insertKeyword (s : PeerStore) (id : UInt32) (keyword : CString) (aux : Data) : PeerStore :=
  { s with
    photo_list :=
      if aux.n_keywords < MAX_KEYWORDS then
        listUpdate s.photo_list (setData [] id) (fun aux =>
          { aux with keyword := aux.keyword ++ [keyword] })
      else s.overrun s.photo_list id keyword
    insertions := Function.update s.insertions id (s.insertions id + 1) }

-- What one handler at a time sees.
def peer (s : PeerStore) : Peer := ⟨s.photo_list, s.disk.read⟩

end PeerStore

-- Where a thread stands: the section under `photo_lock`, the copy, the file operation or the
-- test that comes next. A photo that `list_search` found is known by its id; with it goes how
-- many were removed by then, or how many keywords inserted when its table was tested.
inductive Routine
  | insertPhoto (photo : Data) (bytes : List Byte)
  | openToWrite (id : UInt32) (bytes : List Byte)
  | write (id : UInt32) (file : Nat) (bytes : List Byte)
  | findPhoto (id : UInt32) (keyword : CString)
  | checkFull (id : UInt32) (keyword : CString)
  | searchKeyword (id : UInt32) (keyword : CString) (insertions : Nat)
  | insertKeyword (id : UInt32) (keyword : CString) (insertions : Nat)
  | removePhoto (id : UInt32)
  | unlinkPhoto (id : UInt32)
  | lookupPhoto (id : UInt32)
  | copyPhoto (id : UInt32) (removals : Nat)
  | openToRead (photo : Data) (content : List Byte)
  | lockPhotos
  | sendPhotos (rest : List Data)

-- A request once its message is read. The bytes of a photo are those that `recv_all` gets.
inductive PeerRequest
  | addPhoto (photo : Data) (bytes : List Byte)
  | addKeyword (id : UInt32) (keyword : CString)
  | deletePhoto (id : UInt32)
  | sendPhoto (id : UInt32)
  | sendAllPhotos

def PeerRequest.routine : PeerRequest → Routine
  | .addPhoto photo bytes => .insertPhoto photo bytes
  | .addKeyword id keyword => .findPhoto id keyword
  | .deletePhoto id => .removePhoto id
  | .sendPhoto id => .lookupPhoto id
  | .sendAllPhotos => .lockPhotos

-- One part of a handler and what comes after it. `none` is a thread that waits for the
-- lock, or that follows a pointer to a photo which is gone (`copyFreed` has the copy made
-- then). Answers and broadcasts touch nothing that is shared here.
def runRoutine (s : PeerStore) : Routine → Option (PeerStore × Option Routine)
  | .insertPhoto photo bytes =>
      if s.photo_lock then none
      else
        let s := { s with content := Function.update s.content photo.id bytes }
        some (s.setPhotos (listInsert s.photo_list photo), some (.openToWrite photo.id bytes))
  | .openToWrite id bytes =>
      let (file, disk) := s.disk.create (fileName id) []
      some (s.setDisk disk, some (.write id file bytes))
  | .write _ file bytes => some (s.setDisk (s.disk.write file bytes), none)
  | .findPhoto id keyword =>
      if s.photo_lock then none
      else
        some (s, (listSearch s.photo_list (setData [] id)).map (fun _ => .checkFull id keyword))
  | .checkFull id keyword => do
      let aux ← listSearch s.photo_list (setData [] id)
      some (s, if aux.n_keywords < MAX_KEYWORDS
        then some (.searchKeyword id keyword (s.insertions id)) else none)
  | .searchKeyword id keyword insertions => do
      let aux ← listSearch s.photo_list (setData [] id)
      some (s, if searchKeyword aux keyword then none
        else some (.insertKeyword id keyword insertions))
  | .insertKeyword id keyword _ =>
      -- There is no test in this section: the table may be full by now.
      if s.photo_lock then none
      else do
        let aux ← listSearch s.photo_list (setData [] id)
        some (s.insertKeyword id keyword aux, none)
  | .removePhoto id =>
      if s.photo_lock then none
      else
        let (found, s) := s.removePhoto id
        some (s, if found ≠ 0 then some (.unlinkPhoto id) else none)
  | .unlinkPhoto id => some (s.setDisk (s.disk.unlink (fileName id)), none)
  | .lookupPhoto id =>
      if s.photo_lock then none
      else
        some (s, (listSearch s.photo_list (setData [] id)).map (fun _ =>
          .copyPhoto id (s.removals id)))
  | .copyPhoto id removals =>
      -- `photo = aux->K`, without the lock.
      if s.removals id = removals then do
        let photo ← listSearch s.photo_list (setData [] id)
        some (s, some (.openToRead photo (s.content photo.id)))
      else none
  | .openToRead photo content => some (s.openPhoto photo content, none)
  | .lockPhotos =>
      if s.photo_lock then none
      else some (s.lock true, some (.sendPhotos s.photo_list))
  | .sendPhotos [] => some (s.lock false, none)
  | .sendPhotos (photo :: rest) =>
      some (s.openPhoto photo (s.content photo.id), some (.sendPhotos rest))

-- The copy of an item that was freed after it was looked up: malloc may have put anything
-- in its place, another photo too.
def copyFreed (s : PeerStore) (photo : Data) : Routine → Option (PeerStore × Option Routine)
  | .copyPhoto id removals =>
      if s.removals id = removals then none
      else some (s, some (.openToRead photo (s.content photo.id)))
  | _ => none

structure PeerThreads where
  store : PeerStore
  threads : List Routine

inductive ThreadAction
  -- A thread reads a request from its connection.
  | call (request : PeerRequest)
  -- A thread goes on.
  | run (i : Nat)
  -- It goes on with what it finds in place of a photo that is gone.
  | copyFreed (i : Nat) (photo : Data)

def PeerThreads.step (s : PeerThreads) : ThreadAction → Option PeerThreads
  | .call request => some ⟨s.store, s.threads ++ [request.routine]⟩
  | .run i => do
      let (routine, threads) ← pick s.threads i
      let (store, next) ← runRoutine s.store routine
      some ⟨store, threads ++ next.toList⟩
  | .copyFreed i photo => do
      let (routine, threads) ← pick s.threads i
      let (store, next) ← Gallery.copyFreed s.store photo routine
      some ⟨store, threads ++ next.toList⟩

-- The part of a handler that an action carries out.
def PeerThreads.part (s : PeerThreads) : ThreadAction → Option Routine
  | .call _ => none
  | .run i | .copyFreed i _ => s.threads[i]?

-- No handler runs.
def PeerThreads.AtRest (s : PeerThreads) : Prop := s.threads = [] ∧ s.store.photo_lock = false

-- Everything an action can do.
theorem PeerThreads.step_cases {s t : PeerThreads} {a : ThreadAction} (h : s.step a = some t) :
    (∃ request, a = .call request ∧ t = ⟨s.store, s.threads ++ [request.routine]⟩) ∨
    ∃ routine rest store next, s.part a = some routine ∧ s.threads.Perm (routine :: rest) ∧
      (runRoutine s.store routine = some (store, next) ∨
        ∃ photo, copyFreed s.store photo routine = some (store, next)) ∧
      t = ⟨store, rest ++ next.toList⟩ := by
  cases a with
  | call request => exact Or.inl ⟨request, rfl, (Option.some.inj h).symm⟩
  | run i =>
      obtain ⟨⟨routine, rest⟩, hpick, h⟩ := Option.bind_eq_some_iff.mp h
      obtain ⟨⟨store, next⟩, hrun, h⟩ := Option.bind_eq_some_iff.mp h
      exact Or.inr ⟨routine, rest, store, next, pick_get hpick, pick_perm hpick, Or.inl hrun,
        (Option.some.inj h).symm⟩
  | copyFreed i photo =>
      obtain ⟨⟨routine, rest⟩, hpick, h⟩ := Option.bind_eq_some_iff.mp h
      obtain ⟨⟨store, next⟩, hcopy, h⟩ := Option.bind_eq_some_iff.mp h
      exact Or.inr ⟨routine, rest, store, next, pick_get hpick, pick_perm hpick,
        Or.inr ⟨photo, hcopy⟩, (Option.some.inj h).symm⟩

theorem copyFreed_cases {s s' : PeerStore} {photo : Data} {routine : Routine}
    {next : Option Routine} (h : copyFreed s photo routine = some (s', next)) :
    ∃ id removals, routine = .copyPhoto id removals ∧ s.removals id ≠ removals := by
  cases routine
  case copyPhoto id removals =>
    refine ⟨id, removals, rfl, fun heq => ?_⟩
    simp only [copyFreed, if_pos heq] at h
    cases h
  all_goals cases h

section Keywords

def Data.withKeyword (photo : Data) (keyword : CString) : Data :=
  { photo with keyword := photo.keyword ++ [keyword] }

def Routine.addsKeyword : Routine → Bool
  | .findPhoto _ _ | .checkFull _ _ | .searchKeyword _ _ _ | .insertKeyword _ _ _ => true
  | _ => false

-- The parts of `add_keyword` one by one. Only the insertion changes anything.
inductive KeywordPart (s : PeerStore) : Routine → PeerStore → Option Routine → Prop
  | find (id : UInt32) (keyword : CString) :
      KeywordPart s (.findPhoto id keyword) s
        ((listSearch s.photo_list (setData [] id)).map (fun _ => .checkFull id keyword))
  | check (id : UInt32) (keyword : CString) {aux : Data}
      (haux : listSearch s.photo_list (setData [] id) = some aux) :
      KeywordPart s (.checkFull id keyword) s (if aux.n_keywords < MAX_KEYWORDS
        then some (.searchKeyword id keyword (s.insertions id)) else none)
  | search (id : UInt32) (keyword : CString) (insertions : Nat) {aux : Data}
      (haux : listSearch s.photo_list (setData [] id) = some aux) :
      KeywordPart s (.searchKeyword id keyword insertions) s
        (if searchKeyword aux keyword then none else some (.insertKeyword id keyword insertions))
  | insert (id : UInt32) (keyword : CString) (insertions : Nat) {aux : Data}
      (haux : listSearch s.photo_list (setData [] id) = some aux) :
      KeywordPart s (.insertKeyword id keyword insertions) (s.insertKeyword id keyword aux) none

theorem runRoutine_addsKeyword {s s' : PeerStore} {routine : Routine} {next : Option Routine}
    (hadds : routine.addsKeyword = true) (h : runRoutine s routine = some (s', next)) :
    KeywordPart s routine s' next := by
  cases routine
  case findPhoto id keyword =>
    simp only [runRoutine] at h
    split at h
    · cases h
    · obtain ⟨rfl, rfl⟩ := Prod.mk.inj (Option.some.inj h)
      exact .find id keyword
  case checkFull id keyword =>
    obtain ⟨aux, haux, h⟩ := Option.bind_eq_some_iff.mp h
    obtain ⟨rfl, rfl⟩ := Prod.mk.inj (Option.some.inj h)
    exact .check id keyword haux
  case searchKeyword id keyword insertions =>
    obtain ⟨aux, haux, h⟩ := Option.bind_eq_some_iff.mp h
    obtain ⟨rfl, rfl⟩ := Prod.mk.inj (Option.some.inj h)
    exact .search id keyword insertions haux
  case insertKeyword id keyword insertions =>
    simp only [runRoutine] at h
    split at h
    · cases h
    · obtain ⟨aux, haux, h⟩ := Option.bind_eq_some_iff.mp h
      obtain ⟨rfl, rfl⟩ := Prod.mk.inj (Option.some.inj h)
      exact .insert id keyword insertions haux
  all_goals cases hadds

theorem KeywordPart.addsKeyword {s s' : PeerStore} {routine : Routine} {next : Option Routine}
    (h : KeywordPart s routine s' next) : ∀ r ∈ next, r.addsKeyword = true := by
  intro r hr
  cases h with
  | find id keyword =>
      obtain ⟨_, -, rfl⟩ := Option.map_eq_some_iff.mp hr
      rfl
  | check id keyword haux =>
      split at hr
      · exact Option.some.inj hr ▸ rfl
      · cases hr
  | search id keyword insertions haux =>
      split at hr
      · cases hr
      · exact Option.some.inj hr ▸ rfl
  | insert id keyword insertions haux => cases hr

theorem KeywordPart.store {s s' : PeerStore} {routine : Routine} {next : Option Routine}
    (h : KeywordPart s routine s' next) :
    s' = s ∨ ∃ id keyword insertions aux, routine = .insertKeyword id keyword insertions ∧
      listSearch s.photo_list (setData [] id) = some aux ∧ s' = s.insertKeyword id keyword aux := by
  cases h with
  | insert id keyword insertions haux =>
      exact Or.inr ⟨id, keyword, insertions, _, rfl, haux, rfl⟩
  | _ => exact Or.inl rfl

end Keywords

section Alone

variable {s : PeerStore}

-- A handler that no other one comes between.
inductive RunsAlone : PeerStore → Option Routine → PeerStore → Prop
  | done {s : PeerStore} : RunsAlone s none s
  | step {s t u : PeerStore} {routine : Routine} {next : Option Routine}
      (h : runRoutine s routine = some (t, next)) (hrest : RunsAlone t next u) :
      RunsAlone s (some routine) u

-- It is a run of the threads of the peer,
theorem RunsAlone.reaches {routine : Option Routine} {t : PeerStore} (h : RunsAlone s routine t) :
    Reaches PeerThreads.step (fun _ _ => True) ⟨s, routine.toList⟩ ⟨t, []⟩ := by
  induction h with
  | done => exact Reaches.refl
  | step h _ ih =>
      refine (Reaches.refl.step (.run 0) trivial ?_).trans ih
      simp [PeerThreads.step, pick, h]

-- and does what the handler does when it is taken as one operation.
theorem addPhoto_alone {photo : Data} {size : Nat} {sock sock' : Sock} {p : Peer}
    (hlock : s.photo_lock = false) (h : storePhoto s.peer sock photo size = some (p, sock')) :
    let bytes := (recvAll sock.conn size).stored.take size
    ∃ t, RunsAlone s (some (PeerRequest.routine (.addPhoto photo bytes))) t ∧ t.peer = p := by
  simp only [storePhoto] at h
  split at h
  · cases h
  · obtain ⟨rfl, -⟩ := Prod.mk.inj (Option.some.inj h)
    refine ⟨_, .step (if_neg (by simp [hlock])) (.step rfl (.step rfl .done)), ?_⟩
    simp only [PeerStore.peer, PeerStore.setDisk, PeerStore.setPhotos, Peer.writeFile, Peer.mk.injEq,
      true_and]
    funext name
    exact s.disk.create_write_read _ _ _ _

theorem addKeyword_alone (id : UInt32) (keyword : CString) (hlock : s.photo_lock = false) :
    ∃ t, RunsAlone s (some (PeerRequest.routine (.addKeyword id keyword))) t ∧
      t.peer = (insertKeyword s.peer id keyword).2 := by
  simp only [insertKeyword, PeerStore.peer, PeerRequest.routine]
  cases hfound : listSearch s.photo_list (setData [] id) with
  | none =>
      have hfind : runRoutine s (.findPhoto id keyword) = some (s, none) := by
        simp [runRoutine, hlock, hfound]
      exact ⟨s, .step hfind .done, rfl⟩
  | some aux =>
      have hfind : runRoutine s (.findPhoto id keyword) = some (s, some (.checkFull id keyword)) := by
        simp [runRoutine, hlock, hfound]
      by_cases hfull : aux.n_keywords < MAX_KEYWORDS
      case neg =>
        have hcheck : runRoutine s (.checkFull id keyword) = some (s, none) := by
          simp [runRoutine, hfound, hfull]
        exact ⟨s, .step hfind (.step hcheck .done), by simp [hfull]⟩
      case pos =>
        have hcheck : runRoutine s (.checkFull id keyword) =
            some (s, some (.searchKeyword id keyword (s.insertions id))) := by
          simp [runRoutine, hfound, hfull]
        cases hknown : searchKeyword aux keyword with
        | true =>
            have hsearch : runRoutine s (.searchKeyword id keyword (s.insertions id)) =
                some (s, none) := by
              simp [runRoutine, hfound, hknown]
            exact ⟨s, .step hfind (.step hcheck (.step hsearch .done)), by simp [hfull, hknown]⟩
        | false =>
            have hsearch : runRoutine s (.searchKeyword id keyword (s.insertions id)) =
                some (s, some (.insertKeyword id keyword (s.insertions id))) := by
              simp [runRoutine, hfound, hknown]
            have hinsert : runRoutine s (.insertKeyword id keyword (s.insertions id)) =
                some (s.insertKeyword id keyword aux, none) := by
              simp [runRoutine, hlock, hfound]
            exact ⟨_, .step hfind (.step hcheck (.step hsearch (.step hinsert .done))),
              by simp [hfull, hknown, PeerStore.insertKeyword]⟩

theorem deletePhoto_alone {id : UInt32} {sock : Sock} {m : MessagePhoto} {h : Handled}
    (hlock : s.photo_lock = false) (hid : sscanfId m.text = some id)
    (hdelete : deletePhoto s.peer sock m = some h) :
    ∃ t, RunsAlone s (some (PeerRequest.routine (.deletePhoto id))) t ∧ t.peer = h.peer := by
  have hpeer : h.peer =
      (let p : Peer := ⟨(listRemove s.photo_list (setData [] id)).2, s.disk.read⟩
      if (listRemove s.photo_list (setData [] id)).1 ≠ 0 then p.unlink (fileName id) else p) := by
    simp only [deletePhoto, hid, Option.bind_eq_bind, Option.bind_some, PeerStore.peer] at hdelete
    split at hdelete
    all_goals
      obtain rfl := Option.some.inj hdelete
      rfl
  rw [hpeer]
  by_cases hfound : (listRemove s.photo_list (setData [] id)).1 = 0
  · have hremove : runRoutine s (.removePhoto id) =
        some ((s.removePhoto id).2, none) := by
      simp [runRoutine, hlock, PeerStore.removePhoto, hfound]
    exact ⟨_, .step hremove .done, by simp [hfound, PeerStore.peer, PeerStore.removePhoto]⟩
  · have hremove : runRoutine s (.removePhoto id) =
        some ((s.removePhoto id).2, some (.unlinkPhoto id)) := by
      simp [runRoutine, hlock, PeerStore.removePhoto, hfound]
    refine ⟨_, .step hremove (.step rfl .done), ?_⟩
    simp only [if_pos hfound, PeerStore.peer, PeerStore.removePhoto, PeerStore.setDisk, Peer.unlink,
      Peer.mk.injEq, true_and]
    funext name
    exact s.disk.unlink_read _ _

end Alone

end Gallery
