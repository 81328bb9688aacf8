import Gallery.Cluster
import Gallery.Peer.Theorems
import Mathlib.Data.List.Nodup

namespace Gallery

section Tokens

-- What the messages on their way and the threads carry, each counted on its own.
variable (fp : DataR × Packet → Nat) (ft : DataR × Task → Nat)

def Cluster.tokens (s : Cluster) : Nat := total fp s.packets + total ft s.threads

variable {s t : Cluster}

theorem tokens_call {p : DataR} {request : Call}
    (hnone : ∀ p request task, Call.task request = some task → ft (p, task) = 0)
    (h : s.step (.call p request) = some t) : t.tokens fp ft = s.tokens fp ft := by
  simp only [Cluster.step] at h
  split at h
  · obtain ⟨task, htask, rfl⟩ := Option.map_eq_some_iff.mp h
    simp [Cluster.tokens, hnone p request task htask]
  · cases h

theorem tokens_deliver {i : Nat} (hsame : ∀ p packet, ft (p, Packet.task packet) = fp (p, packet))
    (h : s.step (.deliver i) = some t) : t.tokens fp ft = s.tokens fp ft := by
  obtain ⟨⟨⟨p, packet⟩, packets⟩, hpick, h⟩ := Option.bind_eq_some_iff.mp h
  dsimp only at h
  obtain rfl := Option.some.inj h
  have hgone := total_pick fp hpick
  simp only [Cluster.tokens, total_append, total_cons, total_nil, hsame]
  omega

theorem tokens_apply {i : Nat} {p : DataR} {task : Task} {threads : List (DataR × Task)}
    (e : Effect) (hpick : pick s.threads i = some ((p, task), threads)) :
    (s.apply p threads e).tokens fp ft + ft (p, task) =
      s.tokens fp ft + (total fp e.sent + e.next.elim 0 (fun next => ft (p, next))) := by
  have hgone := total_pick ft hpick
  have hnext : total ft (e.next.map (fun next => (p, next))).toList =
      e.next.elim 0 (fun next => ft (p, next)) := by
    cases e.next <;> simp
  simp only [Cluster.tokens, Cluster.apply, total_append, hnext]
  omega

end Tokens

section Pending

-- How much is on its way to the peer `q`. News count `w` once it is settled who gets
-- them, and `u` before their broadcast took the list of peers.
variable (u w : News → Nat) (q : DataR)

def Task.pending (p : DataR) : Task → Nat
  | .insertPhoto K _ _ isPeer => if q = p then w (.photo K) else if isPeer then 0 else u (.photo K)
  | .writePhoto K _ _ isPeer => if q = p ∨ isPeer = true then 0 else u (.photo K)
  | .findPhoto message isPeer => if q = p ∧ isPeer = true then w (.keyword message) else 0
  | .checkFull message isPeer => if q = p ∧ isPeer = true then w (.keyword message) else 0
  | .searchKeyword message isPeer => if q = p ∧ isPeer = true then w (.keyword message) else 0
  | .insertKeyword message isPeer => if q = p ∧ isPeer = true then w (.keyword message) else 0
  | .answerKeyword message success => if q = p ∨ success ≠ 1 then 0 else u (.keyword message)
  | .removePhoto message isPeer => if q = p ∧ isPeer = true then w (.delete message) else 0
  | .unlinkPhoto message isPeer => if q = p ∨ isPeer = true then 0 else u (.delete message)
  | .answerDelete message found => if q = p ∨ found = 0 then 0 else u (.delete message)
  | .lockPeers news => if q = p then 0 else u news
  | .broadcast news rest => rest.count q * w news
  | _ => 0

def Packet.weight : Packet → Nat
  | .photo K _ => w (.photo K)
  | .keyword message => w (.keyword message)
  | .delete message => w (.delete message)
  | _ => 0

def packetPending (a : DataR × Packet) : Nat := if q = a.1 then a.2.weight w else 0

def taskPending (a : DataR × Task) : Nat := a.2.pending u w q a.1

def Effect.pending (p : DataR) (e : Effect) : Nat :=
  total (packetPending w q) e.sent + e.next.elim 0 (Task.pending u w q p)

def Cluster.pending (s : Cluster) : Nat :=
  total (packetPending w q) s.packets + total (taskPending u w q) s.threads

theorem pending_packet_task (p : DataR) (packet : Packet) :
    taskPending u w q (p, packet.task) = packetPending w q (p, packet) := by
  cases packet with
  | newPeer K asker => simp [taskPending, packetPending, Packet.task, Task.pending, Packet.weight]
  | photo K bytes =>
      by_cases hq : q = p <;>
        simp [taskPending, packetPending, Packet.task, Task.pending, Packet.weight, hq]
  | keyword message =>
      by_cases hq : q = p <;>
        simp [taskPending, packetPending, Packet.task, Task.pending, Packet.weight, hq]
  | delete message =>
      by_cases hq : q = p <;>
        simp [taskPending, packetPending, Packet.task, Task.pending, Packet.weight, hq]
  | deletePeer K => simp [taskPending, packetPending, Packet.task, Task.pending, Packet.weight]

theorem pending_call_task {p : DataR} {request : Call} {task : Task} (h : request.task = some task) :
    taskPending u w q (p, task) = 0 := by
  cases request with
  | addPhoto message bytes =>
      obtain ⟨name, -, rfl⟩ := Option.map_eq_some_iff.mp h
      rfl
  | addKeyword message =>
      obtain rfl := Option.some.inj h
      simp [taskPending, Task.pending]
  | deletePhoto message =>
      obtain rfl := Option.some.inj h
      simp [taskPending, Task.pending]

theorem weight_packet {p : Peer} {news : News} {packet : Packet} (h : news.packet p = some packet) :
    packet.weight w = w news := by
  cases news with
  | photo K =>
      obtain ⟨bytes, -, rfl⟩ := Option.map_eq_some_iff.mp h
      rfl
  | keyword message =>
      obtain rfl := Option.some.inj h
      rfl
  | delete message =>
      obtain rfl := Option.some.inj h
      rfl

variable {s t : Cluster}

theorem pending_call {p : DataR} {request : Call} (h : s.step (.call p request) = some t) :
    t.pending u w q = s.pending u w q :=
  tokens_call (packetPending w q) (taskPending u w q)
    (fun _ _ _ htask => pending_call_task u w q htask) h

theorem pending_deliver {i : Nat} (h : s.step (.deliver i) = some t) :
    t.pending u w q = s.pending u w q :=
  tokens_deliver (packetPending w q) (taskPending u w q) (pending_packet_task u w q) h

theorem pending_apply {i : Nat} {p : DataR} {task : Task} {threads : List (DataR × Task)}
    (e : Effect) (hpick : pick s.threads i = some ((p, task), threads)) :
    (s.apply p threads e).pending u w q + task.pending u w q p =
      s.pending u w q + e.pending u w q p :=
  tokens_apply (packetPending w q) (taskPending u w q) e hpick

-- Requests and messages that come in change no peer.
theorem call_frame {p : DataR} {request : Call} (h : s.step (.call p request) = some t) :
    t.replica = s.replica ∧ t.mail = s.mail := by
  simp only [Cluster.step] at h
  split at h
  · obtain ⟨task, -, rfl⟩ := Option.map_eq_some_iff.mp h
    exact ⟨rfl, rfl⟩
  · cases h

theorem deliver_frame {i : Nat} (h : s.step (.deliver i) = some t) :
    t.replica = s.replica ∧ t.mail = s.mail := by
  obtain ⟨_, -, h⟩ := Option.bind_eq_some_iff.mp h
  obtain rfl := Option.some.inj h
  exact ⟨rfl, rfl⟩

theorem quiet_pending (hs : s.Quiet) (u w : News → Nat) (q : DataR) : s.pending u w q = 0 := by
  simp [Cluster.pending, hs.1, hs.2]

end Pending

section Moves

variable (online : DataR → Bool) (photo_id : UInt32) (p : DataR) (r : Replica)

-- A broadcast that takes the list of peers does so for `q` as `u` said.
def TakesList (u w : News → Nat) (q : DataR) (task : Task) : Prop :=
  ∀ news, task = .lockPeers news → r.peer_list.tail.count q * w news = if q = p then 0 else u news

-- What a part of a handler does with the news: it passes them on, makes some, or
-- brings them to its own list of photos.
inductive Move (task : Task) (e : Effect) : Prop
  | pass (hphotos : e.replica.peer.photo_list = r.peer.photo_list) (hid : e.photo_id = photo_id)
      (hpending : ∀ u w q, TakesList p r u w q task →
        e.pending u w q p = task.pending u w q p)
  | refuse (name : CString) (size : Nat) (bytes : List Byte) (htask : task = .askId name size bytes)
      (hphotos : e.replica.peer.photo_list = r.peer.photo_list) (hzero : photo_id + 1 = 0)
      (hid : e.photo_id = photo_id + 1) (hnext : e.next = none) (hsent : e.sent = [])
  | issue (name : CString) (size : Nat) (bytes : List Byte) (htask : task = .askId name size bytes)
      (hphotos : e.replica.peer.photo_list = r.peer.photo_list) (hne : photo_id + 1 ≠ 0)
      (hid : e.photo_id = photo_id + 1) (hsent : e.sent = [])
      (hnext : e.next = some (.insertPhoto (setData name (photo_id + 1)) size bytes false))
  | insert (K : Data) (size : Nat) (bytes : List Byte) (isPeer : Bool)
      (htask : task = .insertPhoto K size bytes isPeer)
      (hphotos : e.replica.peer.photo_list = K :: r.peer.photo_list) (hid : e.photo_id = photo_id)
      (hsent : e.sent = []) (hnext : e.next = some (.writePhoto K size bytes isPeer))
  | remove (message : CString) (isPeer : Bool) (id : UInt32)
      (htask : task = .removePhoto message isPeer) (hscan : sscanfId message = some id)
      (hphotos : e.replica.peer.photo_list = (listRemove r.peer.photo_list (setData [] id)).2)
      (hid : e.photo_id = photo_id) (hsent : e.sent = [])
      (hnext : e.next = if id ∈ r.ids then some (.unlinkPhoto message isPeer)
        else deleteDone message isPeer 0)
  | insertKeyword (message : CString) (isPeer : Bool) (id : UInt32) (keyword : CString)
      (htask : task = .insertKeyword message isPeer)
      (hscan : sscanfKeyword message = some (id, keyword))
      (hphotos : e.replica.peer.photo_list = listUpdate r.peer.photo_list (setData [] id)
        (fun aux => { aux with keyword := aux.keyword ++ [keyword] }))
      (hid : e.photo_id = photo_id) (hsent : e.sent = [])
      (hnext : e.next = keywordDone message isPeer 1)
  | overrun (message : CString) (isPeer : Bool) (htask : task = .insertKeyword message isPeer)
      (hpast : ¬task.InTable r) (hid : e.photo_id = photo_id) (hsent : e.sent = [])
      (hnext : e.next = keywordDone message isPeer 1)
  | dropKeyword (message : CString) (id : UInt32) (keyword : CString)
      (hscan : sscanfKeyword message = some (id, keyword))
      (htask : (task = .findPhoto message true ∨ task = .checkFull message true ∨
          task = .searchKeyword message true) ∧ listSearch r.peer.photo_list (setData [] id) = none ∨
        (∃ aux, listSearch r.peer.photo_list (setData [] id) = some aux ∧
          (task = .checkFull message true ∧ MAX_KEYWORDS ≤ aux.n_keywords ∨
            task = .searchKeyword message true ∧ keyword ∈ aux.keyword)))
      (hphotos : e.replica.peer.photo_list = r.peer.photo_list) (hid : e.photo_id = photo_id)
      (hsent : e.sent = []) (hnext : e.next = none)

theorem roomFor_iff {r : Replica} {id : UInt32} :
    r.roomFor id = true ↔
      ∃ aux, listSearch r.peer.photo_list (setData [] id) = some aux ∧ aux.n_keywords < MAX_KEYWORDS := by
  rw [Replica.roomFor, Option.any_eq_true]
  simp only [decide_eq_true_eq]

theorem item_cases (r : Replica) (id : UInt32) :
    listSearch r.peer.photo_list (setData [] id) = none ∨
      listSearch r.peer.photo_list (setData [] id) = some (r.item id) := by
  rw [Replica.item]
  cases listSearch r.peer.photo_list (setData [] id) with
  | none => exact .inl rfl
  | some aux => exact .inr rfl

theorem runTask_move {task : Task} {e : Effect} (h : runTask online photo_id r task = some e)
    (hprobe : ∀ news K rest, task = .broadcast news (K :: rest) → online K = true) :
    Move photo_id p r task e := by
  cases task with
  | askId name size bytes =>
      obtain rfl := Option.some.inj h
      by_cases hzero : photo_id + 1 = 0
      · exact .refuse name size bytes rfl rfl hzero rfl (if_pos hzero) rfl
      · exact .issue name size bytes rfl rfl hzero rfl rfl (if_neg hzero)
  | insertPhoto K size bytes isPeer =>
      obtain rfl := Option.some.inj h
      exact .insert K size bytes isPeer rfl rfl rfl rfl rfl
  | writePhoto K size bytes isPeer =>
      simp only [runTask] at h
      split at h
      · cases h
      · obtain rfl := Option.some.inj h
        refine .pass rfl rfl (fun u w q _ => ?_)
        cases isPeer <;> simp [Effect.pending, Task.pending]
  | findPhoto message isPeer =>
      obtain ⟨⟨id, keyword⟩, hscan, h⟩ := Option.bind_eq_some_iff.mp h
      dsimp only at h
      cases hsearch : listSearch r.peer.photo_list (setData [] id) with
      | none =>
          obtain rfl := Option.some.inj h
          cases isPeer with
          | true =>
              exact .dropKeyword message id keyword hscan (.inl ⟨.inl rfl, hsearch⟩) rfl rfl rfl
                (by simp [hsearch, keywordDone])
          | false =>
              refine .pass rfl rfl (fun u w q _ => ?_)
              simp [Effect.pending, Task.pending, hsearch, keywordDone]
      | some aux =>
          obtain rfl := Option.some.inj h
          refine .pass rfl rfl (fun u w q _ => ?_)
          simp [Effect.pending, Task.pending, hsearch]
  | checkFull message isPeer =>
      obtain ⟨⟨id, keyword⟩, hscan, h⟩ := Option.bind_eq_some_iff.mp h
      dsimp only at h
      obtain rfl := Option.some.inj h
      by_cases hfull : (r.item id).n_keywords < MAX_KEYWORDS
      · refine .pass rfl rfl (fun u w q _ => ?_)
        simp [Effect.pending, Task.pending, hfull]
      · cases isPeer with
        | true =>
            refine .dropKeyword message id keyword hscan ?_ rfl rfl rfl (by simp [hfull, keywordDone])
            rcases item_cases r id with hsearch | hsearch
            · exact .inl ⟨.inr (.inl rfl), hsearch⟩
            · exact .inr ⟨r.item id, hsearch, .inl ⟨rfl, Nat.le_of_not_lt hfull⟩⟩
        | false =>
            refine .pass rfl rfl (fun u w q _ => ?_)
            simp [Effect.pending, Task.pending, hfull, keywordDone]
  | searchKeyword message isPeer =>
      obtain ⟨⟨id, keyword⟩, hscan, h⟩ := Option.bind_eq_some_iff.mp h
      dsimp only at h
      obtain rfl := Option.some.inj h
      by_cases hfound : searchKeyword (r.item id) keyword = true
      · cases isPeer with
        | true =>
            refine .dropKeyword message id keyword hscan ?_ rfl rfl rfl (by simp [hfound, keywordDone])
            rcases item_cases r id with hsearch | hsearch
            · exact .inl ⟨.inr (.inr rfl), hsearch⟩
            · exact .inr ⟨r.item id, hsearch, .inr ⟨rfl, (searchKeyword_iff keyword _).mp hfound⟩⟩
        | false =>
            refine .pass rfl rfl (fun u w q _ => ?_)
            simp [Effect.pending, Task.pending, hfound, keywordDone]
      · refine .pass rfl rfl (fun u w q _ => ?_)
        simp [Effect.pending, Task.pending, hfound]
  | insertKeyword message isPeer =>
      obtain ⟨⟨id, keyword⟩, hscan, h⟩ := Option.bind_eq_some_iff.mp h
      obtain rfl := Option.some.inj h
      by_cases hroom : r.roomFor id = true
      · exact .insertKeyword message isPeer id keyword rfl hscan (if_pos hroom) rfl rfl rfl
      · exact .overrun message isPeer rfl (fun hin => hroom (hin _ hscan)) rfl rfl rfl
  | answerKeyword message success =>
      obtain rfl := Option.some.inj h
      refine .pass rfl rfl (fun u w q _ => ?_)
      by_cases hsuccess : success = 1 <;> simp [Effect.pending, Task.pending, hsuccess]
  | removePhoto message isPeer =>
      obtain ⟨id, hscan, h⟩ := Option.bind_eq_some_iff.mp h
      obtain rfl := Option.some.inj h
      refine .remove message isPeer id rfl hscan rfl rfl rfl ?_
      have hfound : (listRemove r.peer.photo_list (setData [] id)).1 = if id ∈ r.ids then 1 else 0 :=
        listRemove_fst _ _
      rw [hfound]
      by_cases hmem : id ∈ r.ids
      · simp only [if_pos hmem, ne_eq, one_ne_zero, not_false_eq_true, if_true]
      · simp only [if_neg hmem, ne_eq, not_true_eq_false, if_false]
  | unlinkPhoto message isPeer =>
      obtain ⟨id, hscan, h⟩ := Option.bind_eq_some_iff.mp h
      obtain rfl := Option.some.inj h
      refine .pass rfl rfl (fun u w q _ => ?_)
      cases isPeer <;> simp [Effect.pending, Task.pending, deleteDone]
  | answerDelete message found =>
      obtain rfl := Option.some.inj h
      refine .pass rfl rfl (fun u w q _ => ?_)
      by_cases hfound : found = 0 <;> simp [Effect.pending, Task.pending, hfound]
  | lockPeers news =>
      simp only [runTask] at h
      split at h
      · cases h
      · obtain rfl := Option.some.inj h
        refine .pass rfl rfl (fun u w q htakes => ?_)
        simpa [Effect.pending, Task.pending] using htakes news rfl
  | broadcast news rest =>
      cases rest with
      | nil =>
          obtain rfl := Option.some.inj h
          refine .pass rfl rfl (fun u w q _ => ?_)
          simp [Effect.pending, Task.pending]
      | cons K rest =>
          simp only [runTask, hprobe news K rest rfl, if_true] at h
          obtain ⟨packet, hpacket, h⟩ := Option.bind_eq_some_iff.mp h
          obtain rfl := Option.some.inj h
          refine .pass rfl rfl (fun u w q _ => ?_)
          have hweight := weight_packet w hpacket
          by_cases hq : q = K
          · simp [Effect.pending, Task.pending, packetPending, hweight, hq, Nat.add_mul, Nat.add_comm]
          · simp [Effect.pending, Task.pending, packetPending, hq, Ne.symm hq]
  | registerPeer K asker =>
      simp only [runTask] at h
      split at h
      · cases h
      · obtain rfl := Option.some.inj h
        refine .pass rfl rfl (fun u w q _ => ?_)
        cases asker <;> simp [Effect.pending, Task.pending]
  | sendAllPhotos asker =>
      obtain ⟨photos, hphotos, h⟩ := Option.bind_eq_some_iff.mp h
      obtain ⟨-, h⟩ := Option.ite_none_right_eq_some.mp h
      obtain rfl := Option.some.inj h
      refine .pass rfl rfl (fun u w q _ => ?_)
      simp [Effect.pending, Task.pending]
  | deletePeer K =>
      simp only [runTask] at h
      split at h
      · cases h
      · obtain rfl := Option.some.inj h
        refine .pass rfl rfl (fun u w q _ => ?_)
        simp [Effect.pending, Task.pending]

end Moves

section Local

-- The parts of the handlers that touch no list of peers and send nothing.
def Task.Local : Task → Prop
  | .lockPeers _ => False
  | .broadcast _ _ => False
  | .registerPeer _ _ => False
  | .sendAllPhotos _ => False
  | .deletePeer _ => False
  | _ => True

structure Effect.Local (r : Replica) (e : Effect) : Prop where
  peer_list : e.replica.peer_list = r.peer_list
  next : ∀ task, e.next = some task → task.Local ∨ ∃ news, task = .lockPeers news
  sent : e.sent = []
  reports : e.reports = []
  mail : e.mail = []

theorem keywordDone_local {message : CString} {isPeer : Bool} {success : Int32} {task : Task}
    (h : keywordDone message isPeer success = some task) : task.Local := by
  cases isPeer with
  | true => cases h
  | false =>
      obtain rfl := Option.some.inj h
      trivial

theorem deleteDone_local {message : CString} {isPeer : Bool} {found : Nat} {task : Task}
    (h : deleteDone message isPeer found = some task) : task.Local := by
  cases isPeer with
  | true => cases h
  | false =>
      obtain rfl := Option.some.inj h
      trivial

theorem runTask_local {online : DataR → Bool} {photo_id : UInt32} {r : Replica} {task : Task}
    {e : Effect} (h : runTask online photo_id r task = some e) (htask : task.Local) : e.Local r := by
  cases task with
  | askId name size bytes =>
      obtain rfl := Option.some.inj h
      refine ⟨rfl, fun next hnext => ?_, rfl, rfl, rfl⟩
      dsimp only at hnext
      split at hnext
      · cases hnext
      · obtain rfl := Option.some.inj hnext
        exact .inl trivial
  | insertPhoto K size bytes isPeer =>
      obtain rfl := Option.some.inj h
      exact ⟨rfl, fun next hnext => Option.some.inj hnext ▸ .inl trivial, rfl, rfl, rfl⟩
  | writePhoto K size bytes isPeer =>
      simp only [runTask] at h
      split at h
      · cases h
      · obtain rfl := Option.some.inj h
        refine ⟨rfl, fun next hnext => ?_, rfl, rfl, rfl⟩
        cases isPeer with
        | true => cases hnext
        | false => exact .inr ⟨.photo K, (Option.some.inj hnext).symm⟩
  | findPhoto message isPeer =>
      obtain ⟨⟨id, keyword⟩, -, h⟩ := Option.bind_eq_some_iff.mp h
      obtain rfl := Option.some.inj h
      refine ⟨rfl, fun next hnext => .inl ?_, rfl, rfl, rfl⟩
      dsimp only at hnext
      split at hnext
      · exact keywordDone_local hnext
      · obtain rfl := Option.some.inj hnext
        trivial
  | checkFull message isPeer =>
      obtain ⟨⟨id, keyword⟩, -, h⟩ := Option.bind_eq_some_iff.mp h
      obtain rfl := Option.some.inj h
      refine ⟨rfl, fun next hnext => .inl ?_, rfl, rfl, rfl⟩
      dsimp only at hnext
      split at hnext
      · obtain rfl := Option.some.inj hnext
        trivial
      · exact keywordDone_local hnext
  | searchKeyword message isPeer =>
      obtain ⟨⟨id, keyword⟩, -, h⟩ := Option.bind_eq_some_iff.mp h
      obtain rfl := Option.some.inj h
      refine ⟨rfl, fun next hnext => .inl ?_, rfl, rfl, rfl⟩
      dsimp only at hnext
      split at hnext
      · exact keywordDone_local hnext
      · obtain rfl := Option.some.inj hnext
        trivial
  | insertKeyword message isPeer =>
      obtain ⟨⟨id, keyword⟩, -, h⟩ := Option.bind_eq_some_iff.mp h
      obtain rfl := Option.some.inj h
      exact ⟨rfl, fun next hnext => .inl (keywordDone_local hnext), rfl, rfl, rfl⟩
  | answerKeyword message success =>
      obtain rfl := Option.some.inj h
      refine ⟨rfl, fun next hnext => .inr ?_, rfl, rfl, rfl⟩
      dsimp only at hnext
      split at hnext
      · exact ⟨_, (Option.some.inj hnext).symm⟩
      · cases hnext
  | removePhoto message isPeer =>
      obtain ⟨id, -, h⟩ := Option.bind_eq_some_iff.mp h
      obtain rfl := Option.some.inj h
      refine ⟨rfl, fun next hnext => .inl ?_, rfl, rfl, rfl⟩
      dsimp only at hnext
      split at hnext
      · obtain rfl := Option.some.inj hnext
        trivial
      · exact deleteDone_local hnext
  | unlinkPhoto message isPeer =>
      obtain ⟨id, -, h⟩ := Option.bind_eq_some_iff.mp h
      obtain rfl := Option.some.inj h
      exact ⟨rfl, fun next hnext => .inl (deleteDone_local hnext), rfl, rfl, rfl⟩
  | answerDelete message found =>
      obtain rfl := Option.some.inj h
      refine ⟨rfl, fun next hnext => .inr ?_, rfl, rfl, rfl⟩
      dsimp only at hnext
      split at hnext
      · exact ⟨_, (Option.some.inj hnext).symm⟩
      · cases hnext
  | lockPeers news => exact htask.elim
  | broadcast news rest => exact htask.elim
  | registerPeer K asker => exact htask.elim
  | sendAllPhotos asker => exact htask.elim
  | deletePeer K => exact htask.elim

theorem call_task_local {request : Call} {task : Task} (h : request.task = some task) : task.Local := by
  cases request with
  | addPhoto message bytes =>
      obtain ⟨name, -, rfl⟩ := Option.map_eq_some_iff.mp h
      trivial
  | addKeyword message =>
      obtain rfl := Option.some.inj h
      trivial
  | deletePhoto message =>
      obtain rfl := Option.some.inj h
      trivial

end Local

section Connected

-- Nobody joins or leaves, and a broadcast under way has only peers that listen
-- before it.
def Task.Settled (online : DataR → Bool) : Task → Prop
  | .broadcast _ rest => ∀ K ∈ rest, online K = true
  | .registerPeer _ _ => False
  | .sendAllPhotos _ => False
  | .deletePeer _ => False
  | _ => True

def Packet.Settled : Packet → Prop
  | .newPeer _ _ => False
  | .deletePeer _ => False
  | _ => True

-- The peers that listen know each other.
structure Cluster.Connected (s : Cluster) : Prop where
  peer_list : ∀ p, s.listening p = true → ∃ rest, (s.replica p).peer_list = p :: rest ∧
    rest.Nodup ∧ ∀ q, q ∈ rest ↔ s.listening q = true ∧ q ≠ p
  threads : ∀ p task, (p, task) ∈ s.threads → s.listening p = true ∧ task.Settled s.listening
  packets : ∀ p packet, (p, packet) ∈ s.packets → s.listening p = true ∧ packet.Settled

-- The effect of a settled part of a handler.
structure Effect.Settled (online : DataR → Bool) (r : Replica) (e : Effect) : Prop where
  peer_list : e.replica.peer_list = r.peer_list
  next : ∀ task, e.next = some task → task.Settled online
  sent : ∀ p packet, (p, packet) ∈ e.sent → online p = true ∧ packet.Settled

theorem Task.Local.settled {online : DataR → Bool} {task : Task} (h : task.Local) :
    task.Settled online := by
  cases task <;> first | exact h | trivial

theorem news_packet_settled {p : Peer} {news : News} {packet : Packet}
    (h : news.packet p = some packet) : packet.Settled := by
  cases news with
  | photo K =>
      obtain ⟨bytes, -, rfl⟩ := Option.map_eq_some_iff.mp h
      trivial
  | keyword message =>
      obtain rfl := Option.some.inj h
      trivial
  | delete message =>
      obtain rfl := Option.some.inj h
      trivial

theorem packet_task_settled {online : DataR → Bool} {packet : Packet} (h : packet.Settled) :
    packet.task.Settled online := by
  cases packet <;> trivial

theorem runTask_settled {online : DataR → Bool} {photo_id : UInt32} {r : Replica} {task : Task}
    {e : Effect} (h : runTask online photo_id r task = some e) (htask : task.Settled online)
    (hlist : ∀ K ∈ r.peer_list.tail, online K = true) : e.Settled online r := by
  by_cases hlocal : task.Local
  · have he := runTask_local h hlocal
    refine ⟨he.peer_list, fun next hnext => ?_, fun p packet hsent => ?_⟩
    · rcases he.next next hnext with hnext' | ⟨news, rfl⟩
      · exact hnext'.settled
      · trivial
    · rw [he.sent] at hsent
      cases hsent
  · cases task with
    | lockPeers news =>
        simp only [runTask] at h
        split at h
        · cases h
        · obtain rfl := Option.some.inj h
          exact ⟨rfl, fun task hnext => Option.some.inj hnext ▸ hlist, fun _ _ hsent => nomatch hsent⟩
    | broadcast news rest =>
        cases rest with
        | nil =>
            obtain rfl := Option.some.inj h
            exact ⟨rfl, fun _ hnext => (nomatch hnext), fun _ _ hsent => nomatch hsent⟩
        | cons K rest =>
            have hK := htask K List.mem_cons_self
            simp only [runTask, hK, if_true] at h
            obtain ⟨packet, hpacket, h⟩ := Option.bind_eq_some_iff.mp h
            obtain rfl := Option.some.inj h
            refine ⟨rfl, fun task hnext => ?_, fun q other hsent => ?_⟩
            · obtain rfl := Option.some.inj hnext
              exact fun K' hK' => htask K' (List.mem_cons_of_mem K hK')
            · obtain ⟨rfl, rfl⟩ := Prod.mk.inj (List.mem_singleton.mp hsent)
              exact ⟨hK, news_packet_settled hpacket⟩
    | registerPeer K asker => exact htask.elim
    | sendAllPhotos asker => exact htask.elim
    | deletePeer K => exact htask.elim
    | _ => exact absurd trivial hlocal

variable {s t : Cluster}

theorem apply_replica_self {p : DataR} {threads : List (DataR × Task)} {e : Effect} :
    (s.apply p threads e).replica p = e.replica := Function.update_self ..

theorem apply_replica_of_ne {p q : DataR} {threads : List (DataR × Task)} {e : Effect} (h : q ≠ p) :
    (s.apply p threads e).replica q = s.replica q := Function.update_of_ne h ..

theorem Cluster.Connected.tail_online (hs : s.Connected) {p : DataR} (hp : s.listening p = true) :
    ∀ K ∈ (s.replica p).peer_list.tail, s.listening K = true := by
  obtain ⟨rest, hlist, -, hmem⟩ := hs.peer_list p hp
  intro K hK
  rw [hlist] at hK
  exact ((hmem K).mp hK).1

theorem Cluster.Connected.tail_count (hs : s.Connected) {p q : DataR} (hp : s.listening p = true)
    (hq : s.listening q = true) :
    (s.replica p).peer_list.tail.count q = if q = p then 0 else 1 := by
  obtain ⟨rest, hlist, hnodup, hmem⟩ := hs.peer_list p hp
  rw [hlist, List.tail_cons]
  by_cases hqp : q = p
  · rw [if_pos hqp, List.count_eq_zero]
    exact fun h => ((hmem q).mp h).2 hqp
  · rw [if_neg hqp]
    exact List.count_eq_one_of_mem hnodup ((hmem q).mpr ⟨hq, hqp⟩)

theorem takesList (hs : s.Connected) {p q : DataR} (hp : s.listening p = true)
    (hq : s.listening q = true) (w : News → Nat) (task : Task) :
    TakesList p (s.replica p) w w q task := by
  intro news _
  rw [hs.tail_count hp hq]
  split
  · exact Nat.zero_mul _
  · exact Nat.one_mul _

theorem listening_step {a : ClusterAction} (h : s.step a = some t) : t.listening = s.listening := by
  cases a with
  | call p request =>
      simp only [Cluster.step] at h
      split at h
      · obtain ⟨task, -, rfl⟩ := Option.map_eq_some_iff.mp h
        rfl
      · cases h
  | run i =>
      obtain ⟨_, -, h⟩ := Option.bind_eq_some_iff.mp h
      obtain ⟨e, -, h⟩ := Option.bind_eq_some_iff.mp h
      obtain rfl := Option.some.inj h
      rfl
  | deliver i =>
      obtain ⟨_, -, h⟩ := Option.bind_eq_some_iff.mp h
      obtain rfl := Option.some.inj h
      rfl

theorem connected_step {a : ClusterAction} (hs : s.Connected) (h : s.step a = some t) :
    t.Connected ∧ t.listening = s.listening := by
  cases a with
  | call p request =>
      simp only [Cluster.step] at h
      split at h
      case isFalse => cases h
      case isTrue hp =>
        obtain ⟨task, htask, rfl⟩ := Option.map_eq_some_iff.mp h
        refine ⟨⟨hs.peer_list, fun q other hmem => ?_, hs.packets⟩, rfl⟩
        rcases List.mem_append.mp hmem with hold | hnew
        · exact hs.threads q other hold
        · obtain ⟨rfl, rfl⟩ := Prod.mk.inj (List.mem_singleton.mp hnew)
          exact ⟨hp, (call_task_local htask).settled⟩
  | run i =>
      obtain ⟨⟨⟨p, task⟩, threads⟩, hpick, h⟩ := Option.bind_eq_some_iff.mp h
      obtain ⟨e, hrun, h⟩ := Option.bind_eq_some_iff.mp h
      obtain rfl := Option.some.inj h
      obtain ⟨hp, htask⟩ := hs.threads p task (pick_mem hpick)
      have he := runTask_settled hrun htask (hs.tail_online hp)
      refine ⟨⟨fun q hq => ?_, fun q other hmem => ?_, fun q packet hmem => ?_⟩, rfl⟩
      · obtain ⟨rest, hlist, hrest⟩ := hs.peer_list q hq
        refine ⟨rest, ?_, hrest⟩
        by_cases hqp : q = p
        · rw [hqp, apply_replica_self, he.peer_list, ← hqp, hlist]
        · rw [apply_replica_of_ne hqp, hlist]
      · rcases List.mem_append.mp hmem with hold | hnew
        · exact hs.threads q other (pick_rest_subset hpick hold)
        · obtain ⟨next, hnext, heq⟩ := Option.map_eq_some_iff.mp (Option.mem_toList.mp hnew)
          obtain ⟨rfl, rfl⟩ := Prod.mk.inj heq
          exact ⟨hp, he.next next hnext⟩
      · rcases List.mem_append.mp hmem with hold | hnew
        · exact hs.packets q packet hold
        · exact he.sent q packet hnew
  | deliver i =>
      obtain ⟨⟨⟨p, packet⟩, packets⟩, hpick, h⟩ := Option.bind_eq_some_iff.mp h
      obtain rfl := Option.some.inj h
      obtain ⟨hp, hpacket⟩ := hs.packets p packet (pick_mem hpick)
      refine ⟨⟨hs.peer_list, fun q other hmem => ?_, fun q other hmem => ?_⟩, rfl⟩
      · rcases List.mem_append.mp hmem with hold | hnew
        · exact hs.threads q other hold
        · obtain ⟨rfl, rfl⟩ := Prod.mk.inj (List.mem_singleton.mp hnew)
          exact ⟨hp, packet_task_settled hpacket⟩
      · exact hs.packets q other (pick_rest_subset hpick hmem)

-- Nobody's list of peers changes.
theorem peer_list_step {a : ClusterAction} (hs : s.Connected) (h : s.step a = some t) (q : DataR) :
    (t.replica q).peer_list = (s.replica q).peer_list := by
  cases a with
  | call p request => rw [(call_frame h).1]
  | run i =>
      obtain ⟨⟨⟨p, task⟩, threads⟩, hpick, h⟩ := Option.bind_eq_some_iff.mp h
      obtain ⟨e, hrun, h⟩ := Option.bind_eq_some_iff.mp h
      obtain rfl := Option.some.inj h
      obtain ⟨hp, htask⟩ := hs.threads p task (pick_mem hpick)
      by_cases hqp : q = p
      · rw [hqp, apply_replica_self, (runTask_settled hrun htask (hs.tail_online hp)).peer_list]
      · rw [apply_replica_of_ne hqp]
  | deliver i => rw [(deliver_frame h).1]

-- The counter moves only when a thread asks for an id.
theorem photo_id_step {a : ClusterAction} (hs : s.Connected) (h : s.step a = some t) :
    t.photo_id = s.photo_id ∨ t.photo_id = s.photo_id + 1 ∧
      ∃ i p name size bytes, a = .run i ∧ s.threads[i]? = some (p, .askId name size bytes) := by
  cases a with
  | call p request =>
      simp only [Cluster.step] at h
      split at h
      · obtain ⟨task, -, rfl⟩ := Option.map_eq_some_iff.mp h
        exact .inl rfl
      · cases h
  | run i =>
      obtain ⟨⟨⟨p, task⟩, threads⟩, hpick, h⟩ := Option.bind_eq_some_iff.mp h
      obtain ⟨e, hrun, h⟩ := Option.bind_eq_some_iff.mp h
      obtain rfl := Option.some.inj h
      obtain ⟨hp, htask⟩ := hs.threads p task (pick_mem hpick)
      have hthread := pick_get hpick
      have hmove := runTask_move s.listening s.photo_id p (s.replica p) hrun (by
        intro news K rest hbroadcast
        rw [hbroadcast] at htask
        exact htask K List.mem_cons_self)
      cases hmove with
      | pass hphotos hid hpending => exact .inl hid
      | refuse name size bytes htask hphotos hzero hid hnext hsent =>
          exact .inr ⟨hid, i, p, name, size, bytes, rfl, htask ▸ hthread⟩
      | issue name size bytes htask hphotos hne hid hsent hnext =>
          exact .inr ⟨hid, i, p, name, size, bytes, rfl, htask ▸ hthread⟩
      | insert K size bytes isPeer htask hphotos hid hsent hnext => exact .inl hid
      | remove message isPeer id htask hscan hphotos hid hsent hnext => exact .inl hid
      | insertKeyword message isPeer id keyword htask hscan hphotos hid hsent hnext => exact .inl hid
      | overrun message isPeer htask hpast hid hsent hnext => exact .inl hid
      | dropKeyword message id keyword hscan htask hphotos hid hsent hnext => exact .inl hid
  | deliver i =>
      obtain ⟨_, -, h⟩ := Option.bind_eq_some_iff.mp h
      obtain rfl := Option.some.inj h
      exact .inl rfl

-- Peers that were started one after the other and hold the same.
def localPeer (port : Int32) : DataR := ⟨[49, 50, 55, 46, 48, 46, 48, 46, 49], port⟩

def Cluster.among (peers : List DataR) (peer : Peer) (photo_id : UInt32) : Cluster where
  replica p := ⟨peer, p :: peers.erase p, false, untouched p⟩
  listening p := decide (p ∈ peers)
  photo_id := photo_id
  threads := []
  packets := []
  answers := []
  reports := []
  mail := []

theorem among_connected {peers : List DataR} (hpeers : peers.Nodup) (peer : Peer) (photo_id : UInt32) :
    (Cluster.among peers peer photo_id).Connected := by
  refine ⟨fun p hp => ?_, fun _ _ h => (nomatch h), fun _ _ h => nomatch h⟩
  refine ⟨peers.erase p, rfl, hpeers.erase p, fun q => ?_⟩
  rw [hpeers.mem_erase_iff]
  simp [Cluster.among, and_comm]

-- What there is to see when a run is over.
structure Outcome (α : Type) where
  threads : Nat
  packets : Nat
  listening : List Bool
  views : List α
  answers : List Answer
  deriving DecidableEq

def Cluster.outcome {α : Type} (s : Cluster) (peers : List DataR) (view : Replica → α) : Outcome α :=
  ⟨s.threads.length, s.packets.length, peers.map s.listening, peers.map (fun p => view (s.replica p)),
    s.answers⟩

theorem outcome_quiet {α : Type} {s : Cluster} {peers : List DataR} {view : Replica → α}
    {views : List α} {answers : List Answer} {listening : List Bool}
    (h : s.outcome peers view = ⟨0, 0, listening, views, answers⟩) :
    s.Quiet ∧ peers.map s.listening = listening := by
  obtain ⟨hthreads, hpackets, hlistening, -, -⟩ := Outcome.mk.inj h
  exact ⟨⟨List.length_eq_zero_iff.mp hthreads, List.length_eq_zero_iff.mp hpackets⟩, hlistening⟩

end Connected

end Gallery
