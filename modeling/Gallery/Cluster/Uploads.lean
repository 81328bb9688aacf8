import Gallery.Cluster.Convergence
import Gallery.Cluster.Progress
import Gallery.Cluster.Replication

namespace Gallery

open Text

section Photos

-- The photo that a part of a handler lists, writes or passes on.
def Task.photo : Task → Option Data
  | .insertPhoto K _ _ _ | .writePhoto K _ _ _ => some K
  | .lockPeers (.photo K) | .broadcast (.photo K) _ => some K
  | _ => none

-- The bytes that it brings along.
def Task.content : Task → Option (List Byte)
  | .insertPhoto _ size bytes _ | .writePhoto _ size bytes _ => some (bytes.take size)
  | _ => none

-- The photo whose file is there by now.
def Task.written : Task → Option Data
  | .lockPeers (.photo K) | .broadcast (.photo K) _ => some K
  | _ => none

def Task.writes (x : UInt32) : Task → Prop
  | .writePhoto K _ _ _ => K.id = x
  | _ => False

def Task.deletes : Task → Bool
  | .removePhoto _ _ | .unlinkPhoto _ _ | .answerDelete _ _ => true
  | .lockPeers (.delete _) | .broadcast (.delete _) _ => true
  | _ => false

-- Bytes that are as many as announced, not none, and for which `recv_all` has a number.
def WholeBytes (size : Nat) (bytes : List Byte) : Prop :=
  size ≠ 0 ∧ size ≤ bytes.length ∧ size < 2 ^ 31

-- A name that is read back from the header of its photo, and with which this fits its buffer
-- whatever the size and the id.
def FittingName (name : CString) : Prop :=
  (name ≠ [] ∧ 44 ∉ name ∧ 0 ∉ name) ∧ name.length ≤ 75

def Data.Fresh (K : Data) : Prop := FittingName K.name ∧ K.keyword = []

def Task.Whole : Task → Prop
  | .askId name size bytes => FittingName name ∧ WholeBytes size bytes
  | .insertPhoto K size bytes _ | .writePhoto K size bytes _ => K.Fresh ∧ WholeBytes size bytes
  | .lockPeers (.photo K) | .broadcast (.photo K) _ => K.Fresh
  | _ => True

instance (size : Nat) (bytes : List Byte) : Decidable (WholeBytes size bytes) :=
  inferInstanceAs (Decidable (size ≠ 0 ∧ size ≤ bytes.length ∧ size < 2 ^ 31))

instance (name : CString) : Decidable (FittingName name) :=
  inferInstanceAs (Decidable ((name ≠ [] ∧ 44 ∉ name ∧ 0 ∉ name) ∧ name.length ≤ 75))

-- A file that can be sent as a photo's.
def FullFile (p : Peer) (name : CString) : Prop :=
  ∃ bytes, p.files name = some bytes ∧ bytes ≠ [] ∧ bytes.length < 2 ^ 31

theorem sendPhoto_files {p : Peer} {K : Data} {bytes : List Byte} (h : p.sendPhoto K = some bytes) :
    p.files (fileName K.id) = some bytes :=
  (Option.ite_none_right_eq_some.mp h).2

theorem sendPhoto_transferable {p : Peer} {K : Data} {bytes : List Byte}
    (h : p.sendPhoto K = some bytes) (hne : bytes ≠ []) :
    Transferable p K ∧ p.photoBytes K = bytes := by
  obtain ⟨⟨hsends, hname, hcount, hkeyword⟩, hfile⟩ := Option.ite_none_right_eq_some.mp h
  have hbytes : p.photoBytes K = bytes := by rw [Peer.photoBytes, hfile, Option.getD_some]
  simp only [Peer.sends, hfile, Option.any_some, Bool.and_eq_true, decide_eq_true_eq] at hsends
  exact ⟨⟨hname, ⟨bytes, hfile, hne⟩, hcount, hkeyword, hbytes ▸ hsends.1⟩, hbytes⟩

-- The parts of the handler of its packet leave the receiver as `add_photo` does that reads it
-- from the connection.
theorem packet_stored {p : Peer} {K : Data} {bytes : List Byte} (h : p.sendPhoto K = some bytes)
    (hne : bytes ≠ []) (hlt : bytes.length < 2 ^ 31) (online : DataR → Bool) (photo_id : UInt32)
    (r : Replica) (buff : MessagePhoto) (s : Sock) (more : List Byte) (ns : List Nat)
    (hb : s.conn.bytes = photoStream p buff K ++ more)
    (hframed : Framed s.conn (photoReads p K ++ ns)) :
    ∃ m handled ret inserted task written, (recvAndUnstreamPhoto s.conn).buff = some m ∧
      addPhotoPeer r.peer ⟨s.out, (recvAndUnstreamPhoto s.conn).conn⟩ m.text = some (handled, ret) ∧
      runTask online photo_id r (Packet.photo K bytes).task = some inserted ∧
      inserted.next = some task ∧ runTask online photo_id inserted.replica task = some written ∧
      written.next = none ∧ written.replica = r.setPeer handled.peer := by
  obtain ⟨htransferable, hbytes⟩ := sendPhoto_transferable h hne
  obtain ⟨m, conn, ret, hbuff, hadd, -, -⟩ :=
    addPhotoPeer_framed p buff K htransferable r.peer s more ns hb hframed
  have hsize : ¬ (bytes.length = 0 ∨ bytes.length < bytes.length ∨ 2 ^ 31 ≤ bytes.length) := by
    have hpos := List.length_pos_iff.mpr hne
    omega
  refine ⟨m, _, ret, _, _, _, hbuff, hadd, rfl, rfl, if_neg hsize, rfl, ?_⟩
  rw [hbytes, List.take_length]
  rfl

theorem Data.Fresh.sendPhoto {K : Data} (hK : K.Fresh) {p : Peer} (hfile : FullFile p (fileName K.id)) :
    ∃ bytes, p.sendPhoto K = some bytes ∧ bytes ≠ [] ∧ bytes.length < 2 ^ 31 := by
  obtain ⟨bytes, hbytes, hne, hlt⟩ := hfile
  obtain ⟨hname, hkeyword⟩ := hK
  have hnone : K.n_keywords = 0 := by rw [Data.n_keywords, hkeyword]; rfl
  have hsize : (decimal bytes.length).length ≤ 10 :=
    length_decimal_le (by decide) (Nat.lt_trans hlt (by decide))
  have hid : (decimal K.id.toNat).length ≤ 10 :=
    length_decimal_le (by decide) (Nat.lt_trans K.id.toNat_lt (by decide))
  have hzero : (decimal 0).length = 1 := by decide
  have hheader : (photoHeaderText K bytes.length).length < MAX_SIZE := by
    rw [length_photoHeaderText, hnone, hzero, MAX_SIZE]
    have hle := hname.2
    omega
  refine ⟨bytes, ?_, hne, hlt⟩
  have hsends : p.sends K = true := by simp [Peer.sends, hbytes, hheader, hnone]
  have hlegible : K.Legible := ⟨hname.1, hnone ▸ Nat.zero_le _, by simp [hkeyword]⟩
  rw [Peer.sendPhoto, if_pos ⟨hsends, hlegible⟩, hbytes]

-- Ids and names, which keywords do not touch.
def Replica.titles (r : Replica) : List (UInt32 × CString) :=
  r.peer.photo_list.map (fun K => (K.id, K.name))

variable (photo_id : UInt32) (r : Replica)

-- What a part of a handler does with photos and their files, deletions apart.
inductive PhotoStep (task : Task) (e : Effect) : Prop
  | ask (name : CString) (size : Nat) (bytes : List Byte) (htask : task = .askId name size bytes)
      (hreplica : e.replica = r) (hid : e.photo_id = photo_id + 1) (hsent : e.sent = [])
      (hanswers : e.answers = [.id (photo_id + 1)])
      (hnext : e.next = if photo_id + 1 = 0 then none
        else some (.insertPhoto (setData name (photo_id + 1)) size bytes false))
  | insert (K : Data) (size : Nat) (bytes : List Byte) (isPeer : Bool)
      (htask : task = .insertPhoto K size bytes isPeer)
      (hreplica : e.replica = r.setPhotos (K :: r.peer.photo_list)) (hid : e.photo_id = photo_id)
      (hsent : e.sent = []) (hanswers : e.answers = [])
      (hnext : e.next = some (.writePhoto K size bytes isPeer))
  | write (K : Data) (size : Nat) (bytes : List Byte) (isPeer : Bool)
      (htask : task = .writePhoto K size bytes isPeer)
      (hreplica : e.replica = r.setPeer (r.peer.writeFile (fileName K.id) (bytes.take size)))
      (hid : e.photo_id = photo_id) (hsent : e.sent = []) (hanswers : e.answers = [])
      (hnext : e.next = if isPeer then none else some (.lockPeers (.photo K)))
  | tell (K : Data) (htask : task.written = some K) (hpeer : e.replica.peer = r.peer)
      (hid : e.photo_id = photo_id) (hanswers : e.answers = [])
      (hnext : ∀ next, e.next = some next → next.written = some K ∧ next.deletes = false)
      (hsent : ∀ q packet, (q, packet) ∈ e.sent →
        ∃ bytes, r.peer.sendPhoto K = some bytes ∧ packet = .photo K bytes)
  | other (hphoto : task.photo = none) (hasks : task.asksId = false)
      (htitles : e.replica.titles = r.titles) (hfiles : e.replica.peer.files = r.peer.files)
      (hid : e.photo_id = photo_id) (hanswers : ∀ n, .id n ∉ e.answers)
      (hnext : ∀ next, e.next = some next →
        next.photo = none ∧ next.asksId = false ∧ next.deletes = false)
      (hsent : ∀ q packet, (q, packet) ∈ e.sent →
        packet.task.photo = none ∧ packet.task.deletes = false)

variable {photo_id r}

-- No part of a handler leads to another one that asks for an id.
theorem runTask_asks {task : Task} {e : Effect} (h : PhotoStep photo_id r task e) {next : Task}
    (hnext : e.next = some next) : next.asksId = false := by
  cases h with
  | ask name size bytes htask hreplica hid hsent hanswers hasked =>
      rw [hasked] at hnext
      split at hnext
      · cases hnext
      · exact Option.some.inj hnext ▸ rfl
  | insert K size bytes isPeer htask hreplica hid hsent hanswers hinserted =>
      exact Option.some.inj (hinserted.symm.trans hnext) ▸ rfl
  | write K size bytes isPeer htask hreplica hid hsent hanswers hdone =>
      rw [hdone] at hnext
      split at hnext
      · cases hnext
      · exact Option.some.inj hnext ▸ rfl
  | tell K htask hpeer hid hanswers hgoes hsent =>
      have hwritten := (hgoes next hnext).1
      cases next <;> first | rfl | cases hwritten
  | other hphoto hasks htitles hfiles hid hanswers hgoes hsent => exact (hgoes next hnext).2.1

theorem keywordDone_photo {message : CString} {isPeer : Bool} {success : Int32} {next : Task}
    (h : keywordDone message isPeer success = some next) :
    next.photo = none ∧ next.asksId = false ∧ next.deletes = false := by
  cases isPeer with
  | true => cases h
  | false =>
      obtain rfl := Option.some.inj h
      exact ⟨rfl, rfl, rfl⟩

theorem titles_update {id : UInt32} {f : Data → Data} (hid : ∀ K, (f K).id = K.id)
    (hname : ∀ K, (f K).name = K.name) :
    (r.setPhotos (listUpdate r.peer.photo_list (setData [] id) f)).titles = r.titles := by
  change (listUpdate r.peer.photo_list _ f).map _ = r.peer.photo_list.map _
  induction r.peer.photo_list with
  | nil => rfl
  | cons first rest ih =>
      rw [listUpdate]
      split
      · simp [hid, hname]
      · simp [ih]

theorem runTask_photoStep {online : DataR → Bool} {task : Task} {e : Effect}
    (h : runTask online photo_id r task = some e) (hsettled : task.Settled online)
    (hdeletes : task.deletes = false) (hin : task.InTable r) : PhotoStep photo_id r task e := by
  cases task with
  | askId name size bytes =>
      obtain rfl := Option.some.inj h
      exact .ask name size bytes rfl rfl rfl rfl rfl rfl
  | insertPhoto K size bytes isPeer =>
      obtain rfl := Option.some.inj h
      exact .insert K size bytes isPeer rfl rfl rfl rfl rfl rfl
  | writePhoto K size bytes isPeer =>
      obtain ⟨-, h⟩ := Option.ite_none_left_eq_some.mp h
      obtain rfl := Option.some.inj h
      exact .write K size bytes isPeer rfl rfl rfl rfl rfl rfl
  | findPhoto message isPeer =>
      obtain ⟨_, -, h⟩ := Option.bind_eq_some_iff.mp h
      obtain rfl := Option.some.inj h
      refine .other rfl rfl rfl rfl rfl (by simp) (fun next hnext => ?_) (by simp)
      dsimp only at hnext
      split at hnext
      · exact keywordDone_photo hnext
      · exact Option.some.inj hnext ▸ ⟨rfl, rfl, rfl⟩
  | checkFull message isPeer =>
      obtain ⟨_, -, h⟩ := Option.bind_eq_some_iff.mp h
      obtain rfl := Option.some.inj h
      refine .other rfl rfl rfl rfl rfl (by simp) (fun next hnext => ?_) (by simp)
      dsimp only at hnext
      split at hnext
      · exact Option.some.inj hnext ▸ ⟨rfl, rfl, rfl⟩
      · exact keywordDone_photo hnext
  | searchKeyword message isPeer =>
      obtain ⟨_, -, h⟩ := Option.bind_eq_some_iff.mp h
      obtain rfl := Option.some.inj h
      refine .other rfl rfl rfl rfl rfl (by simp) (fun next hnext => ?_) (by simp)
      dsimp only at hnext
      split at hnext
      · exact keywordDone_photo hnext
      · exact Option.some.inj hnext ▸ ⟨rfl, rfl, rfl⟩
  | insertKeyword message isPeer =>
      obtain ⟨⟨id, keyword⟩, hscan, h⟩ := Option.bind_eq_some_iff.mp h
      obtain rfl := Option.some.inj h
      refine .other rfl rfl ?_ rfl rfl (by simp) (fun next hnext => keywordDone_photo hnext) (by simp)
      dsimp only
      rw [if_pos (hin _ hscan)]
      exact titles_update (fun _ => rfl) (fun _ => rfl)
  | answerKeyword message success =>
      obtain rfl := Option.some.inj h
      refine .other rfl rfl rfl rfl rfl (by simp) (fun next hnext => ?_) (by simp)
      dsimp only at hnext
      split at hnext
      · exact Option.some.inj hnext ▸ ⟨rfl, rfl, rfl⟩
      · cases hnext
  | lockPeers news =>
      obtain ⟨-, h⟩ := Option.ite_none_left_eq_some.mp h
      obtain rfl := Option.some.inj h
      cases news with
      | photo K =>
          exact .tell K rfl rfl rfl rfl (fun next hnext => Option.some.inj hnext ▸ ⟨rfl, rfl⟩)
            (by simp)
      | keyword message =>
          exact .other rfl rfl rfl rfl rfl (by simp)
            (fun next hnext => Option.some.inj hnext ▸ ⟨rfl, rfl, rfl⟩) (by simp)
      | delete message => cases hdeletes
  | broadcast news rest =>
      cases news with
      | photo K =>
          cases rest with
          | nil =>
              obtain rfl := Option.some.inj h
              exact .tell K rfl rfl rfl rfl (by simp) (by simp)
          | cons q rest =>
              have hq := hsettled q List.mem_cons_self
              simp only [runTask, hq, if_true] at h
              obtain ⟨packet, hpacket, h⟩ := Option.bind_eq_some_iff.mp h
              obtain ⟨bytes, hfile, rfl⟩ := Option.map_eq_some_iff.mp hpacket
              obtain rfl := Option.some.inj h
              refine .tell K rfl rfl rfl rfl
                (fun next hnext => Option.some.inj hnext ▸ ⟨rfl, rfl⟩) ?_
              intro q' packet hsent
              obtain ⟨-, rfl⟩ := Prod.mk.inj (List.mem_singleton.mp hsent)
              exact ⟨bytes, hfile, rfl⟩
      | keyword message =>
          cases rest with
          | nil =>
              obtain rfl := Option.some.inj h
              exact .other rfl rfl rfl rfl rfl (by simp) (by simp) (by simp)
          | cons q rest =>
              have hq := hsettled q List.mem_cons_self
              simp only [runTask, hq, if_true] at h
              obtain rfl := Option.some.inj h
              refine .other rfl rfl rfl rfl rfl (by simp)
                (fun next hnext => Option.some.inj hnext ▸ ⟨rfl, rfl, rfl⟩) ?_
              intro q' packet hsent
              obtain ⟨-, rfl⟩ := Prod.mk.inj (List.mem_singleton.mp hsent)
              exact ⟨rfl, rfl⟩
      | delete message => cases hdeletes
  | removePhoto message isPeer => cases hdeletes
  | unlinkPhoto message isPeer => cases hdeletes
  | answerDelete message found => cases hdeletes
  | registerPeer K asker => exact hsettled.elim
  | sendAllPhotos asker => exact hsettled.elim
  | deletePeer K => exact hsettled.elim

end Photos

section Works

-- The handlers at work, and those that the messages on their way will start.
def Cluster.works (s : Cluster) : List (DataR × Task) :=
  s.threads ++ s.packets.map (fun a => (a.1, a.2.task))

variable {s t : Cluster} {a : ClusterAction}

-- What a step does to the work there is.
inductive WorksStep (s t : Cluster) (a : ClusterAction) : Prop
  | call (p : DataR) (request : Call) (task : Task) (ha : a = .call p request)
      (htask : request.task = some task) (hreplica : t.replica = s.replica)
      (hid : t.photo_id = s.photo_id) (hworks : ∀ x, x ∈ t.works ↔ x ∈ s.works ∨ x = (p, task))
  | run (i : Nat) (p : DataR) (task : Task) (threads rest : List (DataR × Task)) (e : Effect)
      (ha : a = .run i) (hpick : pick s.threads i = some ((p, task), threads))
      (hrun : runTask s.listening s.photo_id (s.replica p) task = some e) (ht : t = s.apply p threads e)
      (hold : ∀ x, x ∈ s.works ↔ x = (p, task) ∨ x ∈ rest)
      (hworks : ∀ x, x ∈ t.works ↔ x ∈ rest ∨ (∃ next, e.next = some next ∧ x = (p, next)) ∨
        ∃ q packet, (q, packet) ∈ e.sent ∧ x = (q, packet.task))
  | deliver (i : Nat) (ha : a = .deliver i) (hreplica : t.replica = s.replica)
      (hid : t.photo_id = s.photo_id) (hworks : ∀ x, x ∈ t.works ↔ x ∈ s.works)

theorem step_works (h : s.step a = some t) : WorksStep s t a := by
  cases a with
  | call p request =>
      simp only [Cluster.step] at h
      split at h
      · obtain ⟨task, htask, rfl⟩ := Option.map_eq_some_iff.mp h
        refine .call p request task rfl htask rfl rfl (fun x => ?_)
        simp only [Cluster.works, List.mem_append, List.mem_singleton]
        tauto
      · cases h
  | run i =>
      obtain ⟨⟨⟨p, task⟩, threads⟩, hpick, h⟩ := Option.bind_eq_some_iff.mp h
      obtain ⟨e, hrun, h⟩ := Option.bind_eq_some_iff.mp h
      obtain rfl := Option.some.inj h
      refine .run i p task threads (threads ++ s.packets.map (fun a => (a.1, a.2.task))) e rfl hpick
        hrun rfl (fun x => ?_) (fun x => ?_)
      · rw [Cluster.works, List.mem_append, (pick_perm hpick).mem_iff, List.mem_cons, List.mem_append,
          or_assoc]
      · have hnext : x ∈ (e.next.map (fun next => (p, next))).toList ↔
            ∃ next, e.next = some next ∧ x = (p, next) := by
          cases e.next <;> simp
        have hsent : x ∈ e.sent.map (fun a => (a.1, a.2.task)) ↔
            ∃ q packet, (q, packet) ∈ e.sent ∧ x = (q, packet.task) := by
          rw [List.mem_map]
          constructor
          · rintro ⟨⟨q, packet⟩, hmem, rfl⟩
            exact ⟨q, packet, hmem, rfl⟩
          · rintro ⟨q, packet, hmem, rfl⟩
            exact ⟨(q, packet), hmem, rfl⟩
        simp only [Cluster.works, Cluster.apply, List.map_append, List.mem_append, hnext, hsent]
        exact or_or_or_comm
  | deliver i =>
      obtain ⟨⟨⟨p, packet⟩, packets⟩, hpick, h⟩ := Option.bind_eq_some_iff.mp h
      obtain rfl := Option.some.inj h
      refine .deliver i rfl rfl rfl (fun x => ?_)
      have hold := ((pick_perm hpick).map (fun a : DataR × Packet => (a.1, a.2.task))).mem_iff (a := x)
      rw [List.map_cons, List.mem_cons] at hold
      simp only [Cluster.works, List.mem_append, List.mem_singleton, hold]
      tauto

theorem works_quiet (h : s.Quiet) : s.works = [] := by
  rw [Cluster.works, h.1, h.2]
  rfl

end Works

section Uploads

-- Clients upload photos, with all the bytes they announce and a name that can be passed on,
-- and add keywords; nobody deletes.
def Call.Keeps : Call → Prop
  | .addPhoto message bytes => (∀ name ∈ (sscanfNameSize message).1.name, FittingName name) ∧
      WholeBytes (sscanfNameSize message).1.size bytes
  | .addKeyword message => (sscanfKeyword message).isSome = true
  | .deletePhoto _ => False

def ClusterAction.Keeps : ClusterAction → Prop
  | .call _ request => request.Keeps
  | _ => True

instance (a : ClusterAction) : Decidable a.Keeps :=
  match a with
  | .call _ (.addPhoto message bytes) =>
      inferInstanceAs (Decidable ((∀ name ∈ (sscanfNameSize message).1.name, FittingName name) ∧
        WholeBytes (sscanfNameSize message).1.size bytes))
  | .call _ (.addKeyword message) => inferInstanceAs (Decidable ((sscanfKeyword message).isSome = true))
  | .call _ (.deletePhoto _) => isFalse id
  | .run _ => isTrue trivial
  | .deliver _ => isTrue trivial

-- Every broadcast is about a photo whose file is there.
structure Cluster.Filed (s : Cluster) : Prop where
  connected : s.Connected
  whole : ∀ p task, (p, task) ∈ s.works → task.deletes = false ∧ task.Whole
  written : ∀ p task K, (p, task) ∈ s.works → task.written = some K →
    FullFile (s.replica p).peer (fileName K.id)

-- Besides, no id is ahead of the counter.
structure Cluster.Secured (s : Cluster) : Prop extends s.Filed where
  issued : ∀ p task K, (p, task) ∈ s.works → task.photo = some K → K.id ≤ s.photo_id
  listed : ∀ p x, x ∈ (s.replica p).ids → x ≤ s.photo_id

theorem titles_ids (r : Replica) : r.titles.map Prod.fst = r.ids := by
  simp [Replica.titles, Replica.ids, Function.comp_def]

theorem call_task_keeps {request : Call} {task : Task} (hkeeps : request.Keeps)
    (h : request.task = some task) :
    task.deletes = false ∧ task.Whole ∧ task.photo = none ∧ task.written = none := by
  cases request with
  | addPhoto message bytes =>
      obtain ⟨name, hname, rfl⟩ := Option.map_eq_some_iff.mp h
      exact ⟨rfl, ⟨hkeeps.1 name hname, hkeeps.2⟩, rfl, rfl⟩
  | addKeyword message =>
      obtain rfl := Option.some.inj h
      exact ⟨rfl, trivial, rfl, rfl⟩
  | deletePhoto message => exact hkeeps.elim

theorem written_photo {task : Task} {K : Data} (h : task.written = some K) : task.photo = some K := by
  cases task with
  | lockPeers news => cases news <;> exact h
  | broadcast news rest => cases news <;> exact h
  | _ => cases h

theorem whole_of_photo_none {task : Task} (hphoto : task.photo = none) (hasks : task.asksId = false) :
    task.Whole := by
  cases task with
  | lockPeers news => cases news <;> trivial
  | broadcast news rest => cases news <;> trivial
  | _ => trivial

theorem fresh_of_whole {task : Task} {K : Data} (h : task.photo = some K) (hwhole : task.Whole) :
    K.Fresh := by
  cases task with
  | insertPhoto K' size bytes isPeer => exact Option.some.inj h ▸ hwhole.1
  | writePhoto K' size bytes isPeer => exact Option.some.inj h ▸ hwhole.1
  | lockPeers news =>
      cases news with
      | photo K' => exact Option.some.inj h ▸ hwhole
      | _ => cases h
  | broadcast news rest =>
      cases news with
      | photo K' => exact Option.some.inj h ▸ hwhole
      | _ => cases h
  | _ => cases h

theorem whole_of_written {task : Task} {K : Data} (h : task.written = some K) (hK : K.Fresh) :
    task.Whole := by
  cases task with
  | lockPeers news =>
      cases news with
      | photo K' => exact Option.some.inj h ▸ hK
      | _ => trivial
  | broadcast news rest =>
      cases news with
      | photo K' => exact Option.some.inj h ▸ hK
      | _ => trivial
  | _ => cases h

theorem content_of_written {task : Task} {K : Data} (h : task.written = some K) :
    task.content = none := by
  cases task <;> first | rfl | cases h

theorem written_of_photo_none {task : Task} (h : task.photo = none) : task.written = none := by
  cases hwritten : task.written with
  | none => rfl
  | some K => rw [written_photo hwritten] at h; cases h

variable {s t : Cluster} {a : ClusterAction}

-- What a step of a run without deletions does to the photos of one peer.
theorem Cluster.Filed.photoStep (hs : s.Filed) {p : DataR} {task : Task} {e : Effect}
    (hmem : (p, task) ∈ s.threads) (hin : task.InTable (s.replica p))
    (hrun : runTask s.listening s.photo_id (s.replica p) task = some e) :
    PhotoStep s.photo_id (s.replica p) task e := by
  obtain ⟨-, hsettled⟩ := hs.connected.threads p task hmem
  exact runTask_photoStep hrun hsettled (hs.whole p task (List.mem_append_left _ hmem)).1 hin

theorem FullFile.writeFile {p : Peer} {name other : CString} {bytes : List Byte}
    (hfile : FullFile p other) (hbytes : bytes ≠ [] ∧ bytes.length < 2 ^ 31) :
    FullFile (p.writeFile name bytes) other := by
  unfold FullFile
  rw [Peer.writeFile_files]
  split
  · exact ⟨bytes, rfl, hbytes⟩
  · exact hfile

theorem WholeBytes.take {size : Nat} {bytes : List Byte} (h : WholeBytes size bytes) :
    bytes.take size ≠ [] ∧ (bytes.take size).length < 2 ^ 31 := by
  obtain ⟨hsize, hle, hlt⟩ := h
  rw [← List.length_pos_iff, List.length_take]
  omega

-- Where a piece of work comes from: it was there before, says nothing about a photo, is the
-- next part for a photo, or a message about one.
inductive WorkOrigin (s t : Cluster) (q : DataR) (task : Task) : Prop
  | old (hmem : (q, task) ∈ s.works)
  | fresh (hphoto : task.photo = none) (hdeletes : task.deletes = false) (hwhole : task.Whole)
  | issued (name : CString) (size : Nat) (bytes : List Byte)
      (hmem : (q, .askId name size bytes) ∈ s.works) (hid : t.photo_id = s.photo_id + 1)
      (htask : task = .insertPhoto (setData name t.photo_id) size bytes false)
  | listed (K : Data) (size : Nat) (bytes : List Byte) (isPeer : Bool)
      (hmem : (q, .insertPhoto K size bytes isPeer) ∈ s.works)
      (htask : task = .writePhoto K size bytes isPeer)
  | wrote (K : Data) (size : Nat) (bytes : List Byte) (isPeer : Bool)
      (hmem : (q, .writePhoto K size bytes isPeer) ∈ s.works) (htask : task = .lockPeers (.photo K))
      (hfile : (t.replica q).peer.files (fileName K.id) = some (bytes.take size))
  | told (K : Data) (before : Task) (hmem : (q, before) ∈ s.works) (hbefore : before.written = some K)
      (hwritten : task.written = some K) (hdeletes : task.deletes = false)
  | sent (p : DataR) (K : Data) (before : Task) (bytes : List Byte) (hmem : (p, before) ∈ s.works)
      (hbefore : before.written = some K)
      (hfile : (s.replica p).peer.sendPhoto K = some bytes)
      (htask : task = .insertPhoto K bytes.length bytes true)

theorem works_origin (hs : s.Filed) (hkeeps : a.Keeps) (hin : s.InTable a)
    (h : s.step a = some t) {q : DataR}
    {task : Task} (hmem : (q, task) ∈ t.works) : WorkOrigin s t q task := by
  cases step_works h with
  | call p request new ha htask hreplica hid hworks =>
      rcases (hworks _).mp hmem with hold | hnew
      · exact .old hold
      · obtain ⟨rfl, rfl⟩ := Prod.mk.inj hnew
        subst ha
        obtain ⟨hdeletes, hwhole, hphoto, -⟩ := call_task_keeps hkeeps htask
        exact .fresh hphoto hdeletes hwhole
  | deliver i ha hreplica hid hworks => exact .old ((hworks _).mp hmem)
  | run i p ran threads rest e ha hpick hrun ht hold hworks =>
      subst ha
      have hran : (p, ran) ∈ s.works := (hold _).mpr (Or.inl rfl)
      have hstep := hs.photoStep (pick_mem hpick) (hin _ (pick_get hpick)) hrun
      rcases (hworks _).mp hmem with hrest | ⟨next, hnext, hnew⟩ | ⟨q', packet, hpacket, hnew⟩
      · exact .old ((hold _).mpr (Or.inr hrest))
      · obtain ⟨rfl, rfl⟩ := Prod.mk.inj hnew
        cases hstep with
        | ask name size bytes htask hreplica hid hsent hanswers hasked =>
            rw [hasked] at hnext
            split at hnext
            · cases hnext
            · obtain rfl := Option.some.inj hnext
              have hcounter : t.photo_id = s.photo_id + 1 := by rw [ht]; exact hid
              exact .issued name size bytes (htask ▸ hran) hcounter (by rw [hcounter])
        | insert K size bytes isPeer htask hreplica hid hsent hanswers hinserted =>
            obtain rfl := Option.some.inj (hinserted.symm.trans hnext)
            exact .listed K size bytes isPeer (htask ▸ hran) rfl
        | write K size bytes isPeer htask hreplica hid hsent hanswers hdone =>
            rw [hdone] at hnext
            split at hnext
            · cases hnext
            · obtain rfl := Option.some.inj hnext
              refine .wrote K size bytes isPeer (htask ▸ hran) rfl ?_
              rw [ht, apply_replica_self, hreplica]
              exact if_pos rfl
        | tell K htask hpeer hid hanswers hgoes hsent =>
            obtain ⟨hwritten, hdeletes⟩ := hgoes _ hnext
            exact .told K ran hran htask hwritten hdeletes
        | other hphoto hasks htitles hfiles hid hanswers hgoes hsent =>
            obtain ⟨hnone, hasks', hdeletes⟩ := hgoes _ hnext
            exact .fresh hnone hdeletes (whole_of_photo_none hnone hasks')
      · obtain ⟨rfl, rfl⟩ := Prod.mk.inj hnew
        cases hstep with
        | ask name size bytes htask hreplica hid hsent hanswers hnext => simp [hsent] at hpacket
        | insert K size bytes isPeer htask hreplica hid hsent hanswers hnext => simp [hsent] at hpacket
        | write K size bytes isPeer htask hreplica hid hsent hanswers hnext => simp [hsent] at hpacket
        | tell K htask hpeer hid hanswers hnext hsent =>
            obtain ⟨bytes, hfile, rfl⟩ := hsent _ _ hpacket
            exact .sent p K ran bytes hran htask hfile rfl
        | other hphoto hasks htitles hfiles hid hanswers hnext hsent =>
            obtain ⟨hnone, hdeletes⟩ := hsent _ _ hpacket
            refine .fresh hnone hdeletes (whole_of_photo_none hnone ?_)
            cases packet <;> rfl

-- What becomes of the photos and files of one peer.
inductive ReplicaStep (s t : Cluster) (q : DataR) : Prop
  | same (htitles : (t.replica q).titles = (s.replica q).titles)
      (hfiles : (t.replica q).peer.files = (s.replica q).peer.files)
  | listed (K : Data) (size : Nat) (bytes : List Byte) (isPeer : Bool)
      (hmem : (q, .insertPhoto K size bytes isPeer) ∈ s.works)
      (hnext : (q, .writePhoto K size bytes isPeer) ∈ t.works)
      (htitles : (t.replica q).titles = (K.id, K.name) :: (s.replica q).titles)
      (hfiles : (t.replica q).peer.files = (s.replica q).peer.files)
  | wrote (K : Data) (size : Nat) (bytes : List Byte) (isPeer : Bool)
      (hmem : (q, .writePhoto K size bytes isPeer) ∈ s.works)
      (htitles : (t.replica q).titles = (s.replica q).titles)
      (hfiles : (t.replica q).peer =
        (s.replica q).peer.writeFile (fileName K.id) (bytes.take size))

theorem replica_step (hs : s.Filed) (hin : s.InTable a) (h : s.step a = some t) (q : DataR) :
    ReplicaStep s t q := by
  cases step_works h with
  | call p request new ha htask hreplica hid hworks => exact .same (by rw [hreplica]) (by rw [hreplica])
  | deliver i ha hreplica hid hworks => exact .same (by rw [hreplica]) (by rw [hreplica])
  | run i p ran threads rest e ha hpick hrun ht hold hworks =>
      subst ha
      have hran : (p, ran) ∈ s.works := (hold _).mpr (Or.inl rfl)
      rcases eq_or_ne q p with rfl | hqp
      · have hself : t.replica q = e.replica := by rw [ht, apply_replica_self]
        cases hs.photoStep (pick_mem hpick) (hin _ (pick_get hpick)) hrun with
        | ask name size bytes htask hreplica hid hsent hanswers hnext =>
            exact .same (by rw [hself, hreplica]) (by rw [hself, hreplica])
        | insert K size bytes isPeer htask hreplica hid hsent hanswers hnext =>
            have hwrites := (hworks _).mpr (Or.inr (Or.inl ⟨_, hnext, rfl⟩))
            exact .listed K size bytes isPeer (htask ▸ hran) hwrites (by rw [hself, hreplica]; rfl)
              (by rw [hself, hreplica]; rfl)
        | write K size bytes isPeer htask hreplica hid hsent hanswers hnext =>
            exact .wrote K size bytes isPeer (htask ▸ hran) (by rw [hself, hreplica]; rfl)
              (by rw [hself, hreplica]; rfl)
        | tell K htask hpeer hid hanswers hnext hsent =>
            exact .same (by rw [hself, Replica.titles, hpeer, Replica.titles]) (by rw [hself, hpeer])
        | other hphoto hasks htitles hfiles hid hanswers hnext hsent =>
            exact .same (by rw [hself, htitles]) (by rw [hself, hfiles])
      · exact .same (by rw [ht, apply_replica_of_ne hqp]) (by rw [ht, apply_replica_of_ne hqp])

-- A file that can be sent stays so.
theorem files_step (hs : s.Filed) (hin : s.InTable a) (h : s.step a = some t) {q : DataR}
    {name : CString} (hfile : FullFile (s.replica q).peer name) : FullFile (t.replica q).peer name := by
  cases replica_step hs hin h q with
  | same htitles hfiles =>
      unfold FullFile
      rwa [hfiles]
  | listed K size bytes isPeer hmem hnext htitles hfiles =>
      unfold FullFile
      rwa [hfiles]
  | wrote K size bytes isPeer hmem htitles hfiles =>
      rw [hfiles]
      exact hfile.writeFile (hs.whole q _ hmem).2.2.take

-- The counter only grows.
theorem photo_id_le_step (hs : s.Connected) (hwrap : s.Unwrapped a) (h : s.step a = some t) :
    s.photo_id ≤ t.photo_id := by
  rcases photo_id_step hs h with hid | ⟨hid, i, p, name, size, bytes, rfl, hthread⟩
  · rw [hid]
    exact UInt32.le_refl _
  · rw [hid]
    exact UInt32.le_of_lt (lt_succ_of_unwrapped (hwrap _ hthread rfl))

theorem works_quiet_not_mem (h : s.Quiet) {x : DataR × Task} : x ∉ s.works := by
  rw [works_quiet h]
  exact List.not_mem_nil

theorem filed_quiet (hs : s.Connected) (h : s.Quiet) : s.Filed :=
  ⟨hs, fun _ _ hmem => absurd hmem (works_quiet_not_mem h),
    fun _ _ _ hmem => absurd hmem (works_quiet_not_mem h)⟩

theorem filed_step (hs : s.Filed) (hkeeps : a.Keeps) (hin : s.InTable a) (h : s.step a = some t) :
    t.Filed where
  connected := (connected_step hs.connected h).1
  whole := by
    intro q task hmem
    cases works_origin hs hkeeps hin h hmem with
    | old hmem => exact hs.whole q task hmem
    | fresh hphoto hdeletes hwhole => exact ⟨hdeletes, hwhole⟩
    | issued name size bytes hmem hid htask =>
        rw [htask]
        obtain ⟨-, hname, hbytes⟩ := hs.whole q _ hmem
        exact ⟨rfl, ⟨hname, rfl⟩, hbytes⟩
    | listed K size bytes isPeer hmem htask =>
        rw [htask]
        exact ⟨rfl, (hs.whole q _ hmem).2⟩
    | wrote K size bytes isPeer hmem htask hfile =>
        rw [htask]
        exact ⟨rfl, (hs.whole q _ hmem).2.1⟩
    | told K before hmem hbefore hwritten hdeletes =>
        exact ⟨hdeletes, whole_of_written hwritten
          (fresh_of_whole (written_photo hbefore) (hs.whole q _ hmem).2)⟩
    | sent p K before bytes hmem hbefore hfile htask =>
        have hK := fresh_of_whole (written_photo hbefore) (hs.whole p _ hmem).2
        obtain ⟨b, hb, hne, hlt⟩ := hK.sendPhoto (hs.written p before K hmem hbefore)
        obtain rfl := Option.some.inj (hfile.symm.trans hb)
        rw [htask]
        exact ⟨rfl, hK, Nat.ne_of_gt (List.length_pos_iff.mpr hne), Nat.le_refl _, hlt⟩
  written := by
    intro q task K hmem hK
    have hnone : task.photo = none → False := by
      intro hphoto
      rw [written_of_photo_none hphoto] at hK
      cases hK
    cases works_origin hs hkeeps hin h hmem with
    | old hmem => exact files_step hs hin h (hs.written q task K hmem hK)
    | fresh hphoto hdeletes hwhole => exact (hnone hphoto).elim
    | issued name size bytes hmem hid htask => simp [htask, Task.written] at hK
    | listed K' size bytes isPeer hmem htask => simp [htask, Task.written] at hK
    | wrote K' size bytes isPeer hmem htask hfile =>
        rw [htask] at hK
        obtain rfl := Option.some.inj hK
        exact ⟨_, hfile, (hs.whole q _ hmem).2.2.take⟩
    | told K' before hmem hbefore hwritten hdeletes =>
        obtain rfl := Option.some.inj (hwritten.symm.trans hK)
        exact files_step hs hin h (hs.written q before K' hmem hbefore)
    | sent p K' before bytes hmem hbefore hfile htask => simp [htask, Task.written] at hK

theorem secured_step (hs : s.Secured) (hkeeps : a.Keeps) (hin : s.InTable a) (hwrap : s.Unwrapped a)
    (h : s.step a = some t) : t.Secured where
  toFiled := filed_step hs.toFiled hkeeps hin h
  issued := by
    intro q task K hmem hK
    have hgrows := photo_id_le_step hs.connected hwrap h
    have hkept : ∀ p before, (p, before) ∈ s.works → before.photo = some K → K.id ≤ t.photo_id :=
      fun p before hmem hK => UInt32.le_trans (hs.issued p before K hmem hK) hgrows
    cases works_origin hs.toFiled hkeeps hin h hmem with
    | old hmem => exact hkept q task hmem hK
    | fresh hphoto hdeletes hwhole =>
        rw [hphoto] at hK
        cases hK
    | issued name size bytes hmem hid htask =>
        rw [htask] at hK
        obtain rfl := Option.some.inj hK
        exact UInt32.le_refl _
    | listed K' size bytes isPeer hmem htask =>
        rw [htask] at hK
        exact hkept q _ hmem hK
    | wrote K' size bytes isPeer hmem htask hfile =>
        rw [htask] at hK
        exact hkept q _ hmem hK
    | told K' before hmem hbefore hwritten hdeletes =>
        obtain rfl := Option.some.inj ((written_photo hwritten).symm.trans hK)
        exact hkept q before hmem (written_photo hbefore)
    | sent p K' before bytes hmem hbefore hfile htask =>
        rw [htask] at hK
        obtain rfl := Option.some.inj hK
        exact hkept p before hmem (written_photo hbefore)
  listed := by
    intro q x hx
    have hgrows := photo_id_le_step hs.connected hwrap h
    rw [← titles_ids] at hx
    cases replica_step hs.toFiled hin h q with
    | same htitles hfiles =>
        rw [htitles, titles_ids] at hx
        exact UInt32.le_trans (hs.listed q x hx) hgrows
    | wrote K size bytes isPeer hmem htitles hfiles =>
        rw [htitles, titles_ids] at hx
        exact UInt32.le_trans (hs.listed q x hx) hgrows
    | listed K size bytes isPeer hmem hnext htitles hfiles =>
        rw [htitles, List.map_cons, titles_ids] at hx
        rcases List.mem_cons.mp hx with rfl | hold
        · exact UInt32.le_trans (hs.issued q _ K hmem rfl) hgrows
        · exact UInt32.le_trans (hs.listed q x hold) hgrows

-- A write that is to come is done by the step or still to come.
theorem works_writes (h : s.step a = some t) {q : DataR} {K : Data} {size : Nat}
    {bytes content : List Byte} {isPeer : Bool} {x : UInt32}
    (hmem : (q, .writePhoto K size bytes isPeer) ∈ s.works) (hid : K.id = x)
    (hcontent : bytes.take size = content) :
    (t.replica q).peer.files (fileName x) = some content ∨
      ∃ task, (q, task) ∈ t.works ∧ task.writes x := by
  cases step_works h with
  | call p request new ha htask hreplica hid' hworks =>
      exact Or.inr ⟨_, (hworks _).mpr (Or.inl hmem), hid⟩
  | deliver i ha hreplica hid' hworks => exact Or.inr ⟨_, (hworks _).mpr hmem, hid⟩
  | run i p ran threads rest e ha hpick hrun ht hold hworks =>
      rcases (hold _).mp hmem with hself | hrest
      · obtain ⟨rfl, rfl⟩ := Prod.mk.inj hself
        obtain ⟨-, hrun⟩ := Option.ite_none_left_eq_some.mp hrun
        obtain rfl := Option.some.inj hrun
        refine Or.inl ?_
        rw [ht, apply_replica_self, ← hid, ← hcontent]
        exact if_pos rfl
      · exact Or.inr ⟨_, (hworks _).mpr (Or.inl hrest), hid⟩

end Uploads

section Found

variable {online : DataR → Bool} {photo_id : UInt32} {r : Replica} {task : Task} {e : Effect}
  {s t : Cluster} {a : ClusterAction}

-- The message of a handler that has found the photo its keyword is for.
def Task.found : Task → Option CString
  | .checkFull message _ | .searchKeyword message _ | .insertKeyword message _ => some message
  | _ => none

def Task.Finds (r : Replica) (task : Task) : Prop :=
  ∀ message ∈ task.found, ∀ k ∈ sscanfKeyword message, k.1 ∈ r.ids

theorem finds_none (h : task.found = none) : task.Finds r := by
  intro message hmessage
  rw [h] at hmessage
  cases hmessage

theorem keywordDone_finds {message : CString} {isPeer : Bool} {success : Int32} {next : Task}
    (h : keywordDone message isPeer success = some next) : next.Finds r := by
  cases isPeer with
  | true => cases h
  | false => exact finds_none (Option.some.inj h ▸ rfl)

theorem deleteDone_finds {message : CString} {isPeer : Bool} {found : Nat} {next : Task}
    (h : deleteDone message isPeer found = some next) : next.Finds r := by
  cases isPeer with
  | true => cases h
  | false => exact finds_none (Option.some.inj h ▸ rfl)

-- Only `findPhoto` leads to a handler that has found its photo.
theorem runTask_finds (h : runTask online photo_id r task = some e) (hsettled : task.Settled online)
    (hfinds : task.Finds r) {next : Task} (hnext : e.next = some next) : next.Finds r := by
  cases task with
  | findPhoto message isPeer =>
      obtain ⟨⟨id, keyword⟩, hscan, h⟩ := Option.bind_eq_some_iff.mp h
      obtain rfl := Option.some.inj h
      dsimp only at hnext
      split at hnext
      · exact keywordDone_finds hnext
      case h_2 aux haux =>
        obtain rfl := Option.some.inj hnext
        intro other hother k hk
        obtain rfl := Option.some.inj hother
        obtain rfl := Option.some.inj (hscan.symm.trans hk)
        by_contra hmissing
        rw [(listSearch_none r.peer.photo_list (setData [] id)).mpr hmissing] at haux
        cases haux
  | checkFull message isPeer =>
      obtain ⟨_, -, h⟩ := Option.bind_eq_some_iff.mp h
      obtain rfl := Option.some.inj h
      dsimp only at hnext
      split at hnext
      · exact Option.some.inj hnext ▸ hfinds
      · exact keywordDone_finds hnext
  | searchKeyword message isPeer =>
      obtain ⟨_, -, h⟩ := Option.bind_eq_some_iff.mp h
      obtain rfl := Option.some.inj h
      dsimp only at hnext
      split at hnext
      · exact keywordDone_finds hnext
      · exact Option.some.inj hnext ▸ hfinds
  | insertKeyword message isPeer =>
      obtain ⟨_, -, h⟩ := Option.bind_eq_some_iff.mp h
      obtain rfl := Option.some.inj h
      exact keywordDone_finds hnext
  | askId name size bytes =>
      obtain rfl := Option.some.inj h
      obtain ⟨-, hnext⟩ := Option.ite_none_left_eq_some.mp hnext
      exact finds_none (Option.some.inj hnext ▸ rfl)
  | insertPhoto K size bytes isPeer =>
      obtain rfl := Option.some.inj h
      exact finds_none (Option.some.inj hnext ▸ rfl)
  | writePhoto K size bytes isPeer =>
      obtain ⟨-, h⟩ := Option.ite_none_left_eq_some.mp h
      obtain rfl := Option.some.inj h
      obtain ⟨-, hnext⟩ := Option.ite_none_left_eq_some.mp hnext
      exact finds_none (Option.some.inj hnext ▸ rfl)
  | answerKeyword message success =>
      obtain rfl := Option.some.inj h
      obtain ⟨-, hnext⟩ := Option.ite_none_right_eq_some.mp hnext
      exact finds_none (Option.some.inj hnext ▸ rfl)
  | removePhoto message isPeer =>
      obtain ⟨id, -, h⟩ := Option.bind_eq_some_iff.mp h
      obtain rfl := Option.some.inj h
      dsimp only at hnext
      split at hnext
      · exact finds_none (Option.some.inj hnext ▸ rfl)
      · exact deleteDone_finds hnext
  | unlinkPhoto message isPeer =>
      obtain ⟨id, -, h⟩ := Option.bind_eq_some_iff.mp h
      obtain rfl := Option.some.inj h
      exact deleteDone_finds hnext
  | answerDelete message found =>
      obtain rfl := Option.some.inj h
      obtain ⟨-, hnext⟩ := Option.ite_none_right_eq_some.mp hnext
      exact finds_none (Option.some.inj hnext ▸ rfl)
  | lockPeers news =>
      obtain ⟨-, h⟩ := Option.ite_none_left_eq_some.mp h
      obtain rfl := Option.some.inj h
      exact finds_none (Option.some.inj hnext ▸ rfl)
  | broadcast news rest =>
      cases rest with
      | nil =>
          obtain rfl := Option.some.inj h
          cases hnext
      | cons K rest =>
          simp only [runTask, hsettled K List.mem_cons_self, if_true] at h
          obtain ⟨packet, -, h⟩ := Option.bind_eq_some_iff.mp h
          obtain rfl := Option.some.inj h
          exact finds_none (Option.some.inj hnext ▸ rfl)
  | registerPeer K asker => exact hsettled.elim
  | sendAllPhotos asker => exact hsettled.elim
  | deletePeer K => exact hsettled.elim

-- Whatever a handler has found is there.
def Cluster.Finds (s : Cluster) : Prop := ∀ p task, (p, task) ∈ s.works → task.Finds (s.replica p)

theorem ids_step (hs : s.Filed) (hin : s.InTable a) (h : s.step a = some t) {q : DataR} {x : UInt32}
    (hx : x ∈ (s.replica q).ids) : x ∈ (t.replica q).ids := by
  rw [← titles_ids] at hx ⊢
  cases replica_step hs hin h q with
  | same htitles hfiles => rwa [htitles]
  | wrote K size bytes isPeer hmem htitles hfiles => rwa [htitles]
  | listed K size bytes isPeer hmem hnext htitles hfiles =>
      rw [htitles]
      exact List.mem_cons_of_mem _ hx

theorem finds_step (hs : s.Filed) (hfinds : s.Finds) (hin : s.InTable a) (h : s.step a = some t) :
    t.Finds := by
  have hkept : ∀ {q : DataR} {task : Task}, task.Finds (s.replica q) → task.Finds (t.replica q) :=
    fun hfound message hmessage k hk => ids_step hs hin h (hfound message hmessage k hk)
  intro q task hmem
  cases step_works h with
  | call p request first ha htask hreplica hid hworks =>
      rcases (hworks _).mp hmem with hold | hnew
      · exact hkept (hfinds q task hold)
      · obtain ⟨-, rfl⟩ := Prod.mk.inj hnew
        refine finds_none ?_
        cases request with
        | addPhoto message bytes =>
            obtain ⟨name, -, rfl⟩ := Option.map_eq_some_iff.mp htask
            rfl
        | addKeyword message => exact Option.some.inj htask ▸ rfl
        | deletePhoto message => exact Option.some.inj htask ▸ rfl
  | deliver i ha hreplica hid hworks => exact hkept (hfinds q task ((hworks _).mp hmem))
  | run i p ran threads rest e ha hpick hrun ht hold hworks =>
      have hran := pick_mem hpick
      rcases (hworks _).mp hmem with hrest | ⟨next, hnext, hnew⟩ | ⟨q', packet, -, hnew⟩
      · exact hkept (hfinds q task ((hold _).mpr (Or.inr hrest)))
      · obtain ⟨rfl, rfl⟩ := Prod.mk.inj hnew
        exact hkept (runTask_finds hrun (hs.connected.threads q ran hran).2
          (hfinds q ran ((hold _).mpr (Or.inl rfl))) hnext)
      · obtain ⟨-, rfl⟩ := Prod.mk.inj hnew
        exact finds_none (by cases packet <;> rfl)

theorem finds_quiet (h : s.Quiet) : s.Finds :=
  fun _ _ hmem => absurd hmem (works_quiet_not_mem h)

-- A keyword is about to be written past the table of its photo.
def Task.WritesPast (r : Replica) : Task → Prop
  | .insertKeyword message _ => ∃ k ∈ sscanfKeyword message,
      ∃ aux ∈ listSearch r.peer.photo_list (setData [] k.1), MAX_KEYWORDS ≤ aux.n_keywords
  | _ => False

-- It is not written into a photo that is gone.
theorem Task.Finds.writesPast (hfinds : task.Finds r) (hpast : ¬task.InTable r) : task.WritesPast r := by
  cases task with
  | insertKeyword message isPeer =>
      simp only [Task.InTable, not_forall] at hpast
      obtain ⟨k, hk, hroom⟩ := hpast
      cases haux : listSearch r.peer.photo_list (setData [] k.1) with
      | none => exact absurd (hfinds message rfl k hk) ((listSearch_none _ _).mp haux)
      | some aux =>
          refine ⟨k, hk, aux, haux, Nat.le_of_not_lt (fun hlt => hroom ?_)⟩
          exact roomFor_iff.mpr ⟨aux, haux, hlt⟩
  | _ => exact absurd trivial hpast

end Found

section Finish

variable {s t : Cluster} {start : Cluster} {n : Nat}

-- In a run without deletions no handler crashes.
theorem Cluster.Filed.not_crashes (hs : s.Filed) {p : DataR} {task : Task}
    (hmem : (p, task) ∈ s.threads) : ¬task.Crashes (s.replica p) := by
  intro hcrash
  have hwork : (p, task) ∈ s.works := List.mem_append_left _ hmem
  obtain ⟨hdeletes, hwhole⟩ := hs.whole p task hwork
  cases task with
  | writePhoto K size bytes isPeer =>
      obtain ⟨-, hsize, hlength, hlt⟩ := hwhole
      rcases hcrash with hzero | hshort | hlong
      · exact absurd hzero hsize
      · exact absurd hlength (Nat.not_le_of_lt hshort)
      · exact absurd hlt (Nat.not_lt.mpr hlong)
  | broadcast news rest =>
      cases news with
      | photo K =>
          cases rest with
          | nil => exact hcrash.elim
          | cons q rest =>
              obtain ⟨bytes, hsent, -⟩ := Data.Fresh.sendPhoto hwhole (hs.written p _ K hwork rfl)
              rw [Task.Crashes, hsent] at hcrash
              cases hcrash
      | keyword message => exact hcrash.elim
      | delete message => exact hcrash.elim
  | _ => exact hcrash.elim

-- Clients upload and add keywords, and every keyword goes into the table of its photo.
def Cluster.Keeps (s : Cluster) (a : ClusterAction) : Prop := a.Keeps ∧ s.InTable a

instance (s : Cluster) (a : ClusterAction) : Decidable (s.Keeps a) :=
  inferInstanceAs (Decidable (a.Keeps ∧ s.InTable a))

theorem ClusterAction.Keeps.scans {a : ClusterAction} (ha : a.Keeps) : a.Scans := by
  cases a with
  | call p request =>
      cases request with
      | addPhoto message bytes => trivial
      | addKeyword message => exact ha
      | deletePhoto message => exact ha.elim
  | run i => trivial
  | deliver i => trivial

theorem keeps_of_cost {a : ClusterAction} (hcost : a.cost = 1) (hin : s.InTable a) : s.Keeps a := by
  cases a with
  | call p request => cases hcost
  | run i => exact ⟨trivial, hin⟩
  | deliver i => exact ⟨trivial, hin⟩

def Cluster.WritesPast (s : Cluster) : Prop :=
  ∃ p task, (p, task) ∈ s.threads ∧ task.WritesPast (s.replica p)

theorem Cluster.Finds.writesPast {a : ClusterAction} (hfinds : s.Finds) (hpast : ¬s.InTable a) :
    s.WritesPast := by
  cases a with
  | call p request => exact absurd trivial hpast
  | deliver i => exact absurd trivial hpast
  | run i =>
      simp only [Cluster.InTable, not_forall] at hpast
      obtain ⟨⟨p, task⟩, hthread, hpast⟩ := hpast
      have hmem := List.mem_of_getElem? hthread
      exact ⟨p, task, hmem, (hfinds p task (List.mem_append_left _ hmem)).writesPast hpast⟩

-- Uploads come to an end, wherever the handlers stand: they get by themselves to where all is
-- done, or to a table that is full too late. A broadcast always has the file of its photo.
theorem uploads_finish (hstart : start.Connected) (hquiet : start.Quiet)
    (hfree : ∀ p, (start.replica p).peer_lock = false) (hothers : start.Others n)
    (hrun : Reaches Cluster.step Cluster.Keeps start s) :
    (∀ p K rest, (p, .broadcast (.photo K) rest) ∈ s.threads →
      ∃ bytes, (s.replica p).peer.sendPhoto K = some bytes ∧ bytes ≠ []) ∧
    ∃ t, Reaches Cluster.step (fun s a => a.cost = 1 ∧ s.InTable a) s t ∧
      (t.Quiet ∨ t.WritesPast) := by
  let I : Cluster → Prop := fun s => s.Filed ∧ s.Finds ∧ s.Others n ∧ s.Locked ∧ s.Scans
  have hstep : ∀ s a t, I s → s.Keeps a → s.step a = some t → I t := by
    rintro s a t ⟨hs, hfinds, hothers, hlocked, hscans⟩ ⟨hkeeps, hin⟩ h
    exact ⟨filed_step hs hkeeps hin h, finds_step hs hfinds hin h,
      (work_step ⟨hs.connected, hothers⟩ h).1.2, locked_step hlocked h,
      scans_step hscans hkeeps.scans h⟩
  have hs : I s := hrun.invariant ⟨filed_quiet hstart hquiet, finds_quiet hquiet, hothers,
    locked_quiet hquiet hfree, scans_quiet hquiet⟩ hstep
  refine ⟨fun p K rest hmem => ?_, exists_reaches_of_progress (Cluster.work n) ?_ hs⟩
  · have hwork := List.mem_append_left (s.packets.map (fun a => (a.1, a.2.task))) hmem
    obtain ⟨bytes, hsent, hne, -⟩ :=
      Data.Fresh.sendPhoto (hs.1.whole p _ hwork).2 (hs.1.written p _ K hwork rfl)
    exact ⟨bytes, hsent, hne⟩
  · rintro s ⟨hs, hfinds, hothers, hlocked, hscans⟩
    rcases exists_step hs.connected hlocked hscans with
      hquiet | ⟨a, t, hcost, h⟩ | ⟨p, task, hmem, hcrash⟩
    · exact Or.inl (Or.inl hquiet)
    · by_cases hin : s.InTable a
      · refine Or.inr ⟨a, t, ⟨hcost, hin⟩, h,
          hstep s a t ⟨hs, hfinds, hothers, hlocked, hscans⟩ (keeps_of_cost hcost hin) h, ?_⟩
        have hwork := (work_step ⟨hs.connected, hothers⟩ h).2
        have hgain : a.gain n = 0 := by
          cases a with
          | call p request => cases hcost
          | run i => rfl
          | deliver i => rfl
        omega
      · exact Or.inl (Or.inr (hfinds.writesPast hin))
    · exact absurd hcrash (hs.not_crashes hmem)

theorem uploads_finish_uploadsAtOnce :
    ∃ s, execute Cluster.step Cluster.Keeps idlePeers uploadsAtOnce = some s ∧
      (∀ p K rest, (p, .broadcast (.photo K) rest) ∈ s.threads →
        ∃ bytes, (s.replica p).peer.sendPhoto K = some bytes ∧ bytes ≠ []) ∧
      ∃ t, Reaches Cluster.step (fun s a => a.cost = 1 ∧ s.InTable a) s t ∧
        (t.Quiet ∨ t.WritesPast) := by
  have hruns : (execute Cluster.step Cluster.Keeps idlePeers uploadsAtOnce).isSome := by
    decide +kernel
  obtain ⟨s, hs⟩ := Option.isSome_iff_exists.mp hruns
  exact ⟨s, hs, uploads_finish (among_connected (by decide) _ _) ⟨rfl, rfl⟩ (fun _ => rfl)
    idlePeers_others (reaches_of_execute _ hs)⟩

end Finish

end Gallery
