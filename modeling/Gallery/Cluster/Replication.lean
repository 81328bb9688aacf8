import Gallery.Cluster.Moves

namespace Gallery

-- Whose message a handler handles.
inductive Origin
  | client (request : Call)
  | peer (packet : Packet)

-- A handler at a peer and everything it has sent so far.
structure Handler where
  peer : DataR
  origin : Origin
  sent : List (DataR × Packet) := []
  answers : List Answer := []
  mail : List (DataR × List (Data × List Byte)) := []

namespace Handler

def fresh (p : DataR) (origin : Origin) : Handler := { peer := p, origin := origin }

@[simp] theorem fresh_peer (p : DataR) (origin : Origin) : (fresh p origin).peer = p := rfl

@[simp] theorem fresh_origin (p : DataR) (origin : Origin) : (fresh p origin).origin = origin := rfl

def record (h : Handler) (e : Effect) : Handler :=
  { h with sent := h.sent ++ e.sent, answers := h.answers ++ e.answers, mail := h.mail ++ e.mail }

def Silent (h : Handler) : Prop := h.sent = [] ∧ h.answers = [] ∧ h.mail = []

-- What the other peers are to be told about a request that succeeded, by the answer it got.
def news (h : Handler) : Option News :=
  match h.origin, h.answers with
  | .client (.addPhoto message _), [.id n] =>
      if n = 0 then none
      else (sscanfNameSize message).1.name.map (fun name => .photo (setData name n))
  | .client (.addKeyword message), [.keyword _ success] =>
      if success = 1 then some (.keyword message) else none
  | .client (.deletePhoto message), [.delete _ found] =>
      if found = 0 then none else some (.delete message)
  | _, _ => none

end Handler

-- What a message is news of; the bytes of a photo are left out.
def Packet.news : Packet → Option News
  | .photo K _ => some (.photo K)
  | .keyword message => some (.keyword message)
  | .delete message => some (.delete message)
  | .newPeer _ _ | .deletePeer _ => none

-- The peers that a broadcast of this one goes to.
def Cluster.others (s : Cluster) (p : DataR) : List DataR := (s.replica p).peer_list.tail

-- The messages a handler has sent, and those it owes: one to each of the other peers.
def Handler.messages (h : Handler) : List (DataR × Option News) :=
  h.sent.map (fun m => (m.1, m.2.news))

def Handler.broadcasts (h : Handler) : List (DataR × Option Broadcast) :=
  h.messages.map (fun m => (m.1, m.2.map News.broadcast))

def Handler.owed (h : Handler) (others : List DataR) : List (DataR × Option News) :=
  match h.news with
  | none => []
  | some news => others.map (fun q => (q, some news))

-- The message a handler has taken off the network.
def Handler.handled (h : Handler) : List (DataR × Packet) :=
  match h.origin with
  | .client _ => []
  | .peer packet => [(h.peer, packet)]

namespace Handler

section Duties

variable (others : List DataR) (h : Handler)

def FromPeer : Prop := ∃ packet, h.origin = .peer packet

-- Before it has told anybody anything.
def Works (isPeer : Bool) (request : Call) : Prop :=
  h.Silent ∧ if isPeer then h.FromPeer else h.origin = .client request

-- After the client was told that its request succeeded.
def Owes (news : News) : Prop := h.news = some news ∧ h.sent = [] ∧ h.mail = []

-- How far a handler is with its messages before a part of it.
def At : Task → Prop
  | .askId name _ _ =>
      ∃ message bytes, h.Works false (.addPhoto message bytes) ∧
        (sscanfNameSize message).1.name = some name
  | .insertPhoto K _ _ isPeer | .writePhoto K _ _ isPeer =>
      if isPeer then h.FromPeer ∧ h.Silent else h.Owes (.photo K)
  | .findPhoto message isPeer | .checkFull message isPeer | .searchKeyword message isPeer
  | .insertKeyword message isPeer => h.Works isPeer (.addKeyword message)
  | .answerKeyword message _ => h.Works false (.addKeyword message)
  | .removePhoto message isPeer | .unlinkPhoto message isPeer => h.Works isPeer (.deletePhoto message)
  | .answerDelete message _ => h.Works false (.deletePhoto message)
  | .lockPeers news => h.Owes news
  | .broadcast news rest =>
      h.news = some news ∧
      h.messages ++ rest.map (fun q => (q, some news)) = others.map (fun q => (q, some news))
  | .registerPeer _ _ | .sendAllPhotos _ | .deletePeer _ => False

-- How far it is when it is finished.
def Done : Prop := h.messages = h.owed others ∧ (h.FromPeer → h.Silent)

def After : Option Task → Prop
  | none => h.Done others
  | some task => h.At others task

variable {others h}

theorem news_fromPeer (hpeer : h.FromPeer) : h.news = none := by
  obtain ⟨packet, horigin⟩ := hpeer
  simp [news, horigin]

-- The handler of a message of a peer tells nobody anything.
theorem At.silent {task : Task} (hat : h.At others task) (hpeer : h.FromPeer) : h.Silent := by
  have hnews := news_fromPeer hpeer
  cases task
  case askId =>
    obtain ⟨message, bytes, hworks, -⟩ := hat
    exact hworks.1
  case insertPhoto K size bytes isPeer =>
    cases isPeer with
    | true => exact hat.2
    | false => exact absurd (hnews.symm.trans hat.1) (Option.some_ne_none _).symm
  case writePhoto K size bytes isPeer =>
    cases isPeer with
    | true => exact hat.2
    | false => exact absurd (hnews.symm.trans hat.1) (Option.some_ne_none _).symm
  case lockPeers news => exact absurd (hnews.symm.trans hat.1) (Option.some_ne_none _).symm
  case broadcast news rest => exact absurd (hnews.symm.trans hat.1) (Option.some_ne_none _).symm
  case registerPeer | sendAllPhotos | deletePeer => exact hat.elim
  all_goals exact hat.1

theorem done_of_silent (hsilent : h.Silent) (hnews : h.news = none) : h.Done others := by
  refine ⟨?_, fun _ => hsilent⟩
  rw [messages, owed, hnews, hsilent.1]
  rfl

theorem record_nothing {e : Effect} (hsent : e.sent = []) (hanswers : e.answers = [])
    (hmail : e.mail = []) : h.record e = h := by
  simp [record, hsent, hanswers, hmail]

theorem news_record {e : Effect} (hanswers : e.answers = []) : (h.record e).news = h.news := by
  simp [news, record, hanswers]

theorem messages_record (e : Effect) :
    (h.record e).messages = h.messages ++ e.sent.map (fun m => (m.1, m.2.news)) := by
  simp [messages, record]

theorem news_packet {p : Peer} {news : News} {packet : Packet}
    (hpacket : news.packet p = some packet) :
    packet.news = some news := by
  cases news with
  | photo K =>
      obtain ⟨bytes, -, rfl⟩ := Option.map_eq_some_iff.mp hpacket
      rfl
  | keyword message =>
      obtain rfl := Option.some.inj hpacket
      rfl
  | delete message =>
      obtain rfl := Option.some.inj hpacket
      rfl

theorem keywordDone_after {isPeer : Bool} {message : CString} (success : Int32)
    (hworks : h.Works isPeer (.addKeyword message)) :
    h.After others (keywordDone message isPeer success) := by
  cases isPeer with
  | true => exact done_of_silent hworks.1 (news_fromPeer hworks.2)
  | false => exact hworks

theorem deleteDone_after {isPeer : Bool} {message : CString} (found : Nat)
    (hworks : h.Works isPeer (.deletePhoto message)) :
    h.After others (deleteDone message isPeer found) := by
  cases isPeer with
  | true => exact done_of_silent hworks.1 (news_fromPeer hworks.2)
  | false => exact hworks

-- The answer is the first thing a client hears.
theorem record_answer {e : Effect} {request : Call} (hworks : h.Works false request)
    (hsent : e.sent = []) (hmail : e.mail = []) :
    (h.record e).sent = [] ∧ (h.record e).mail = [] ∧ (h.record e).answers = e.answers ∧
      (h.record e).origin = .client request := by
  obtain ⟨⟨hs, ha, hm⟩, horigin⟩ := hworks
  refine ⟨?_, ?_, ?_, horigin⟩
  · rw [record, hs, hsent, List.append_nil]
  · rw [record, hm, hmail, List.append_nil]
  · rw [record, ha, List.nil_append]

theorem done_of_client {request : Call} (horigin : h.origin = .client request) (hsent : h.sent = [])
    (hnews : h.news = none) : h.Done others := by
  constructor
  · rw [messages, owed, hnews, hsent]
    rfl
  · rintro ⟨packet, hpeer⟩
    rw [horigin] at hpeer
    cases hpeer

section Run

variable {online : DataR → Bool} {photo_id : UInt32} {r : Replica} {task : Task} {e : Effect}

-- An answer promises a broadcast just when it says that the request succeeded.
theorem askId_after {name : CString} {size : Nat} {bytes : List Byte}
    (hat : h.At others (.askId name size bytes))
    (hrun : runTask online photo_id r (.askId name size bytes) = some e) :
    (h.record e).After others e.next := by
  obtain ⟨message, bytes', hworks, hname⟩ := hat
  have he := Option.some.inj hrun
  have hsent' : e.sent = [] := by rw [← he]
  have hmail' : e.mail = [] := by rw [← he]
  obtain ⟨hsent, hmail, hanswers, horigin⟩ := record_answer hworks hsent' hmail'
  have hanswer : (h.record e).answers = [.id (photo_id + 1)] := by rw [hanswers, ← he]
  have hnext : e.next = if photo_id + 1 = 0 then none
      else some (.insertPhoto (setData name (photo_id + 1)) size bytes false) := by rw [← he]
  rw [hnext]
  by_cases hzero : photo_id + 1 = 0
  · rw [if_pos hzero]
    apply done_of_client horigin hsent
    simp only [news, horigin, hanswer, if_pos hzero]
  · rw [if_neg hzero]
    refine ⟨?_, hsent, hmail⟩
    simp only [news, horigin, hanswer, if_neg hzero, hname, Option.map_some]

theorem answerKeyword_after {message : CString} {success : Int32}
    (hat : h.At others (.answerKeyword message success))
    (hrun : runTask online photo_id r (.answerKeyword message success) = some e) :
    (h.record e).After others e.next := by
  have he := Option.some.inj hrun
  have hsent' : e.sent = [] := by rw [← he]
  have hmail' : e.mail = [] := by rw [← he]
  obtain ⟨hsent, hmail, hanswers, horigin⟩ := record_answer hat hsent' hmail'
  have hanswer : (h.record e).answers = [.keyword message success] := by rw [hanswers, ← he]
  have hnext : e.next = if success = 1 then some (.lockPeers (.keyword message)) else none := by
    rw [← he]
  rw [hnext]
  by_cases hsuccess : success = 1
  · rw [if_pos hsuccess]
    refine ⟨?_, hsent, hmail⟩
    simp only [news, horigin, hanswer, if_pos hsuccess]
  · rw [if_neg hsuccess]
    apply done_of_client horigin hsent
    simp only [news, horigin, hanswer, if_neg hsuccess]

theorem answerDelete_after {message : CString} {found : Nat}
    (hat : h.At others (.answerDelete message found))
    (hrun : runTask online photo_id r (.answerDelete message found) = some e) :
    (h.record e).After others e.next := by
  have he := Option.some.inj hrun
  have hsent' : e.sent = [] := by rw [← he]
  have hmail' : e.mail = [] := by rw [← he]
  obtain ⟨hsent, hmail, hanswers, horigin⟩ := record_answer hat hsent' hmail'
  have hanswer : (h.record e).answers = [.delete message found] := by rw [hanswers, ← he]
  have hnext : e.next = if found ≠ 0 then some (.lockPeers (.delete message)) else none := by
    rw [← he]
  rw [hnext]
  by_cases hfound : found = 0
  · rw [if_neg (fun hne => hne hfound)]
    apply done_of_client horigin hsent
    simp only [news, horigin, hanswer, if_pos hfound]
  · rw [if_pos hfound]
    refine ⟨?_, hsent, hmail⟩
    simp only [news, horigin, hanswer, if_neg hfound]

-- A round of the loop of a broadcast pays off one message.
theorem broadcast_after {news : News} {rest : List DataR} (hat : h.At others (.broadcast news rest))
    (hrun : runTask online photo_id r (.broadcast news rest) = some e)
    (hsettled : (Task.broadcast news rest).Settled online) :
    (h.record e).After others e.next := by
  obtain ⟨hnews, hmessages⟩ := hat
  cases rest with
  | nil =>
      obtain rfl := Option.some.inj hrun
      rw [record_nothing rfl rfl rfl]
      refine ⟨?_, fun hpeer => ?_⟩
      · rw [owed, hnews]
        simpa using hmessages
      · exact absurd ((news_fromPeer hpeer).symm.trans hnews) (Option.some_ne_none _).symm
  | cons K rest =>
      have hK := hsettled K List.mem_cons_self
      simp only [runTask, hK, if_true] at hrun
      obtain ⟨packet, hpacket, hrun⟩ := Option.bind_eq_some_iff.mp hrun
      obtain rfl := Option.some.inj hrun
      refine ⟨(news_record rfl).trans hnews, ?_⟩
      rw [messages_record, ← hmessages]
      simp [news_packet hpacket]

-- Each part of a handler does its share.
theorem runTask_after (hat : h.At others task) (hrun : runTask online photo_id r task = some e)
    (hsettled : task.Settled online) (hothers : r.peer_list.tail = others) :
    (h.record e).After others e.next := by
  cases task with
  | askId name size bytes => exact askId_after hat hrun
  | insertPhoto K size bytes isPeer =>
      obtain rfl := Option.some.inj hrun
      rw [record_nothing rfl rfl rfl]
      exact hat
  | writePhoto K size bytes isPeer =>
      simp only [runTask] at hrun
      split at hrun
      · cases hrun
      · obtain rfl := Option.some.inj hrun
        rw [record_nothing rfl rfl rfl]
        cases isPeer with
        | true => exact done_of_silent hat.2 (news_fromPeer hat.1)
        | false => exact hat
  | findPhoto message isPeer =>
      obtain ⟨⟨id, keyword⟩, -, hrun⟩ := Option.bind_eq_some_iff.mp hrun
      obtain rfl := Option.some.inj hrun
      rw [record_nothing rfl rfl rfl]
      dsimp only
      split
      · exact keywordDone_after (-2) hat
      · exact hat
  | checkFull message isPeer =>
      obtain ⟨⟨id, keyword⟩, -, hrun⟩ := Option.bind_eq_some_iff.mp hrun
      obtain rfl := Option.some.inj hrun
      rw [record_nothing rfl rfl rfl]
      dsimp only
      split
      · exact hat
      · exact keywordDone_after (-1) hat
  | searchKeyword message isPeer =>
      obtain ⟨⟨id, keyword⟩, -, hrun⟩ := Option.bind_eq_some_iff.mp hrun
      obtain rfl := Option.some.inj hrun
      rw [record_nothing rfl rfl rfl]
      dsimp only
      split
      · exact keywordDone_after (-3) hat
      · exact hat
  | insertKeyword message isPeer =>
      obtain ⟨⟨id, keyword⟩, -, hrun⟩ := Option.bind_eq_some_iff.mp hrun
      obtain rfl := Option.some.inj hrun
      rw [record_nothing rfl rfl rfl]
      exact keywordDone_after 1 hat
  | answerKeyword message success => exact answerKeyword_after hat hrun
  | removePhoto message isPeer =>
      obtain ⟨id, -, hrun⟩ := Option.bind_eq_some_iff.mp hrun
      obtain rfl := Option.some.inj hrun
      rw [record_nothing rfl rfl rfl]
      dsimp only
      split
      · exact hat
      · exact deleteDone_after 0 hat
  | unlinkPhoto message isPeer =>
      obtain ⟨id, -, hrun⟩ := Option.bind_eq_some_iff.mp hrun
      obtain rfl := Option.some.inj hrun
      rw [record_nothing rfl rfl rfl]
      exact deleteDone_after 1 hat
  | answerDelete message found => exact answerDelete_after hat hrun
  | lockPeers news =>
      simp only [runTask] at hrun
      split at hrun
      · cases hrun
      · obtain rfl := Option.some.inj hrun
        rw [record_nothing rfl rfl rfl]
        -- The whole ring is still to be told.
        refine ⟨hat.1, ?_⟩
        rw [messages, hat.2.1, hothers]
        rfl
  | broadcast news rest => exact broadcast_after hat hrun hsettled
  | registerPeer K asker => exact hat.elim
  | sendAllPhotos asker => exact hat.elim
  | deletePeer K => exact hat.elim

end Run

end Duties

end Handler

-- A cluster whose handlers keep records. The cluster itself goes on as it would.
structure Recorded where
  cluster : Cluster
  live : List (Handler × Task)
  finished : List Handler

namespace Recorded

def start (s : Cluster) : Recorded := ⟨s, [], []⟩

def handlers (s : Recorded) : List Handler := s.live.map Prod.fst ++ s.finished

def step (s : Recorded) (a : ClusterAction) : Option Recorded := do
  let cluster ← s.cluster.step a
  match a with
  | .call p request => do
      let task ← request.task
      some { s with cluster := cluster, live := s.live ++ [(.fresh p (.client request), task)] }
  | .run i => do
      let ((h, task), live) ← pick s.live i
      let e ← runTask s.cluster.listening s.cluster.photo_id (s.cluster.replica h.peer) task
      let h := h.record e
      match e.next with
      | none => some ⟨cluster, live, s.finished ++ [h]⟩
      | some task => some ⟨cluster, live ++ [(h, task)], s.finished⟩
  | .deliver i => do
      let ((p, packet), _) ← pick s.cluster.packets i
      some { s with cluster := cluster, live := s.live ++ [(.fresh p (.peer packet), packet.task)] }

-- The records are about the threads there are.
def Agrees (s : Recorded) : Prop := s.cluster.threads = s.live.map (fun x => (x.1.peer, x.2))

section Steps

variable {s t : Recorded} {a : ClusterAction}

-- Everything a step can do to the records.
theorem step_cases (hagrees : s.Agrees) (h : s.step a = some t) :
    s.cluster.step a = some t.cluster ∧
    ((∃ p request task, request.task = some task ∧ s.cluster.listening p = true ∧
        t.cluster.packets = s.cluster.packets ∧
        t.live = s.live ++ [(.fresh p (.client request), task)] ∧
        t.finished = s.finished) ∨
      (∃ i h task live e, pick s.live i = some ((h, task), live) ∧
        runTask s.cluster.listening s.cluster.photo_id (s.cluster.replica h.peer) task = some e ∧
        t.cluster.packets = s.cluster.packets ++ e.sent ∧
        t.live = live ++ (e.next.map (fun task => (h.record e, task))).toList ∧
        t.finished = s.finished ++ if e.next.isNone then [h.record e] else []) ∨
      (∃ i p packet packets, pick s.cluster.packets i = some ((p, packet), packets) ∧
        t.cluster.packets = packets ∧
        t.live = s.live ++ [(.fresh p (.peer packet), packet.task)] ∧
        t.finished = s.finished)) ∧
    t.Agrees := by
  obtain ⟨cluster, hcluster, h⟩ := Option.bind_eq_some_iff.mp h
  cases a with
  | call p request =>
      obtain ⟨task, htask, h⟩ := Option.bind_eq_some_iff.mp h
      obtain rfl := Option.some.inj h
      have hcall := hcluster
      simp only [Cluster.step, htask, Option.map_some] at hcall
      split at hcall
      case isFalse => cases hcall
      case isTrue hp =>
        obtain rfl := Option.some.inj hcall
        refine ⟨hcluster, Or.inl ⟨p, request, task, htask, hp, rfl, rfl, rfl⟩, ?_⟩
        simpa [Agrees] using hagrees
  | run i =>
      obtain ⟨⟨⟨h', task⟩, live⟩, hpick, h⟩ := Option.bind_eq_some_iff.mp h
      obtain ⟨e, hrun, h⟩ := Option.bind_eq_some_iff.mp h
      have hthread : pick s.cluster.threads i =
          some ((h'.peer, task), live.map (fun x => (x.1.peer, x.2))) := by
        rw [hagrees, pick_map, hpick]
        rfl
      have happly : cluster = s.cluster.apply h'.peer (live.map (fun x => (x.1.peer, x.2))) e := by
        simp only [Cluster.step, hthread, Option.bind_eq_bind, Option.bind_some, hrun] at hcluster
        exact (Option.some.inj hcluster).symm
      subst happly
      simp only at h
      cases hnext : e.next with
      | none =>
          rw [hnext] at h
          obtain rfl := Option.some.inj h
          refine ⟨hcluster, Or.inr (Or.inl ⟨i, h', task, live, e, hpick, hrun, rfl, ?_, ?_⟩), ?_⟩
          · simp [hnext]
          · simp [hnext]
          · simp [Agrees, Cluster.apply, hnext]
      | some next =>
          rw [hnext] at h
          obtain rfl := Option.some.inj h
          refine ⟨hcluster, Or.inr (Or.inl ⟨i, h', task, live, e, hpick, hrun, rfl, ?_, ?_⟩), ?_⟩
          · simp [hnext]
          · simp [hnext]
          · simp [Agrees, Cluster.apply, hnext, Handler.record]
  | deliver i =>
      obtain ⟨⟨⟨p, packet⟩, packets⟩, hpick, h⟩ := Option.bind_eq_some_iff.mp h
      obtain rfl := Option.some.inj h
      have hdeliver := hcluster
      simp only [Cluster.step, hpick, Option.bind_eq_bind, Option.bind_some] at hdeliver
      obtain rfl := Option.some.inj hdeliver
      refine ⟨hcluster, Or.inr (Or.inr ⟨i, p, packet, packets, hpick, rfl, rfl, rfl⟩), ?_⟩
      simpa [Agrees] using hagrees

-- The records leave no step of the cluster out.
theorem step_of_cluster {c : Cluster} (hagrees : s.Agrees) (h : s.cluster.step a = some c) :
    ∃ t, s.step a = some t ∧ t.cluster = c := by
  cases a with
  | call p request =>
      have hcall := h
      simp only [Cluster.step] at hcall
      split at hcall
      case isFalse => cases hcall
      case isTrue =>
        obtain ⟨task, htask, -⟩ := Option.map_eq_some_iff.mp hcall
        refine ⟨⟨c, s.live ++ [(.fresh p (.client request), task)], s.finished⟩, ?_, rfl⟩
        simp [step, h, htask]
  | run i =>
      have hthreads : s.cluster.threads = s.live.map (fun x => (x.1.peer, x.2)) := hagrees
      obtain ⟨⟨⟨p, task⟩, threads⟩, hpick, hrun⟩ := Option.bind_eq_some_iff.mp h
      rw [hthreads, pick_map] at hpick
      obtain ⟨⟨⟨h', task'⟩, live⟩, hpick', hmap⟩ := Option.map_eq_some_iff.mp hpick
      obtain ⟨hthread, -⟩ := Prod.mk.inj hmap
      obtain ⟨rfl, rfl⟩ := Prod.mk.inj hthread
      obtain ⟨e, he, -⟩ := Option.bind_eq_some_iff.mp hrun
      dsimp only at he
      cases hnext : e.next with
      | none =>
          refine ⟨⟨c, live, s.finished ++ [h'.record e]⟩, ?_, rfl⟩
          simp [step, h, hpick', he, hnext]
      | some next =>
          refine ⟨⟨c, live ++ [(h'.record e, next)], s.finished⟩, ?_, rfl⟩
          simp [step, h, hpick', he, hnext]
  | deliver i =>
      obtain ⟨⟨⟨p, packet⟩, packets⟩, hpick, -⟩ := Option.bind_eq_some_iff.mp h
      refine ⟨⟨c, s.live ++ [(.fresh p (.peer packet), packet.task)], s.finished⟩, ?_, rfl⟩
      simp [step, h, hpick]

end Steps

section Replication

variable {start : Cluster} {s t : Recorded} {a : ClusterAction}

-- Every run of the cluster has its records.
theorem exists_recorded {ok : Cluster → ClusterAction → Prop} {c : Cluster}
    (hthreads : start.threads = []) (hrun : Reaches Cluster.step ok start c) :
    ∃ s, Reaches step (fun s a => ok s.cluster a) (.start start) s ∧ s.cluster = c ∧ s.Agrees := by
  induction hrun with
  | refl => exact ⟨.start start, Reaches.refl, rfl, hthreads⟩
  | step a _ ha ht ih =>
      obtain ⟨s, hs, rfl, hagrees⟩ := ih
      obtain ⟨t, hstep, rfl⟩ := step_of_cluster hagrees ht
      exact ⟨t, hs.step a ha hstep, rfl, (step_cases hagrees hstep).2.2⟩

-- Every handler has done its share so far; the others of a peer are those of the start.
structure Kept (start : Cluster) (s : Recorded) : Prop where
  agrees : s.Agrees
  connected : s.cluster.Connected
  listening : s.cluster.listening = start.listening
  lists : ∀ p, (s.cluster.replica p).peer_list = (start.replica p).peer_list
  live : ∀ x ∈ s.live, x.1.At (start.others x.1.peer) x.2
  finished : ∀ h ∈ s.finished, start.listening h.peer = true ∧ h.Done (start.others h.peer)

theorem call_task_at {p : DataR} {request : Call} {task : Task} {others : List DataR}
    (h : request.task = some task) :
    (Handler.fresh p (.client request)).At others task := by
  cases request with
  | addPhoto message bytes =>
      obtain ⟨name, hname, rfl⟩ := Option.map_eq_some_iff.mp h
      exact ⟨message, bytes, ⟨⟨rfl, rfl, rfl⟩, rfl⟩, hname⟩
  | addKeyword message =>
      obtain rfl := Option.some.inj h
      exact ⟨⟨rfl, rfl, rfl⟩, rfl⟩
  | deletePhoto message =>
      obtain rfl := Option.some.inj h
      exact ⟨⟨rfl, rfl, rfl⟩, rfl⟩

theorem packet_task_at {p : DataR} {packet : Packet} {others : List DataR} (h : packet.Settled) :
    (Handler.fresh p (.peer packet)).At others packet.task := by
  cases packet with
  | photo K bytes => exact ⟨⟨_, rfl⟩, rfl, rfl, rfl⟩
  | keyword message => exact ⟨⟨rfl, rfl, rfl⟩, _, rfl⟩
  | delete message => exact ⟨⟨rfl, rfl, rfl⟩, _, rfl⟩
  | newPeer K asker => exact h.elim
  | deletePeer K => exact h.elim

theorem kept_start (hstart : start.Connected) (hquiet : start.Quiet) : Kept start (.start start) where
  agrees := hquiet.1
  connected := hstart
  listening := rfl
  lists := fun _ => rfl
  live := by simp [Recorded.start]
  finished := by simp [Recorded.start]

theorem kept_step (hs : Kept start s) (h : s.step a = some t) : Kept start t := by
  obtain ⟨hcluster, hcases, hagrees⟩ := step_cases hs.agrees h
  obtain ⟨hconnected, hlistening⟩ := connected_step hs.connected hcluster
  have hlists : ∀ p, (t.cluster.replica p).peer_list = (start.replica p).peer_list :=
    fun p => (peer_list_step hs.connected hcluster p).trans (hs.lists p)
  have hrecords : (∀ x ∈ t.live, x.1.At (start.others x.1.peer) x.2) ∧
      ∀ h ∈ t.finished, start.listening h.peer = true ∧ h.Done (start.others h.peer) := by
    rcases hcases with ⟨p, request, task, htask, -, -, hlive, hfinished⟩ |
      ⟨i, h', task, live, e, hpick, hrun, -, hlive, hfinished⟩ |
      ⟨i, p, packet, packets, hpick, -, hlive, hfinished⟩
    · rw [hlive, hfinished]
      refine ⟨?_, hs.finished⟩
      intro x hx
      rcases List.mem_append.mp hx with hold | hnew
      · exact hs.live x hold
      · obtain rfl := List.mem_singleton.mp hnew
        exact call_task_at htask
    · have hmem : (h'.peer, task) ∈ s.cluster.threads := by
        rw [hs.agrees]
        exact List.mem_map_of_mem (pick_mem hpick)
      obtain ⟨hpeer, hsettled⟩ := hs.connected.threads _ _ hmem
      have hafter := Handler.runTask_after (hs.live _ (pick_mem hpick)) hrun hsettled
        (congrArg List.tail (hs.lists h'.peer))
      rw [hlive, hfinished]
      constructor
      · intro x hx
        rcases List.mem_append.mp hx with hold | hnew
        · exact hs.live x (pick_rest_subset hpick hold)
        · obtain ⟨next, hnext, rfl⟩ := Option.map_eq_some_iff.mp (Option.mem_toList.mp hnew)
          rw [hnext] at hafter
          exact hafter
      · intro h hh
        rcases List.mem_append.mp hh with hold | hnew
        · exact hs.finished h hold
        · split at hnew
          case isFalse => cases hnew
          case isTrue hnone =>
            obtain rfl := List.mem_singleton.mp hnew
            rw [Option.isNone_iff_eq_none.mp hnone] at hafter
            exact ⟨hs.listening ▸ hpeer, hafter⟩
    · rw [hlive, hfinished]
      refine ⟨?_, hs.finished⟩
      intro x hx
      rcases List.mem_append.mp hx with hold | hnew
      · exact hs.live x hold
      · obtain rfl := List.mem_singleton.mp hnew
        exact packet_task_at (hs.connected.packets _ _ (pick_mem hpick)).2
  exact ⟨hagrees, hconnected, hlistening.trans hs.listening, hlists, hrecords.1, hrecords.2⟩

-- Each message that was sent is on its way or has its one handler.
def Conserved (s : Recorded) : Prop :=
  (s.cluster.packets ++ s.handlers.flatMap Handler.handled).Perm (s.handlers.flatMap Handler.sent)

-- A new handler takes its message, if it has one.
theorem conserved_append {h : Handler} {task : Task} (hs : s.Conserved) (hsent : h.sent = [])
    (hpackets : (t.cluster.packets ++ h.handled).Perm s.cluster.packets)
    (hlive : t.live = s.live ++ [(h, task)]) (hfinished : t.finished = s.finished) : t.Conserved := by
  have hhandlers : t.handlers.Perm (h :: s.handlers) := by
    simp only [handlers, hlive, hfinished, List.map_append, List.map_cons, List.map_nil,
      List.append_assoc, List.singleton_append]
    exact List.perm_middle
  have hhandled := hhandlers.flatMap_right Handler.handled
  have hsent' := hhandlers.flatMap_right Handler.sent
  rw [List.flatMap_cons] at hhandled hsent'
  rw [hsent, List.nil_append] at hsent'
  have hsame : (t.cluster.packets ++ (h.handled ++ s.handlers.flatMap Handler.handled)).Perm
      (s.cluster.packets ++ s.handlers.flatMap Handler.handled) := by
    rw [← List.append_assoc]
    exact hpackets.append_right _
  exact ((hhandled.append_left _).trans hsame).trans (hs.trans hsent'.symm)

theorem conserved_run {h : Handler} {task : Task} {live : List (Handler × Task)} {i : Nat} {e : Effect}
    (hs : s.Conserved) (hpick : pick s.live i = some ((h, task), live))
    (hpackets : t.cluster.packets = s.cluster.packets ++ e.sent)
    (hlive : t.live = live ++ (e.next.map (fun task => (h.record e, task))).toList)
    (hfinished : t.finished = s.finished ++ if e.next.isNone then [h.record e] else []) :
    t.Conserved := by
  let rest := live.map Prod.fst ++ s.finished
  have hbefore : s.handlers.Perm (h :: rest) :=
    ((pick_perm hpick).map Prod.fst).append_right s.finished
  have hafter : t.handlers.Perm (h.record e :: rest) := by
    rw [handlers, hlive, hfinished]
    cases e.next with
    | none =>
        have hlast := List.perm_append_singleton (h.record e) rest
        simpa only [rest, Option.map_none, Option.toList_none, List.append_nil, Option.isNone_none,
          if_true, List.append_assoc] using hlast
    | some next => simp [rest]
  have hhandled := hafter.flatMap_right Handler.handled
  have hsent := hafter.flatMap_right Handler.sent
  have hhandled' := hbefore.flatMap_right Handler.handled
  have hsent' := hbefore.flatMap_right Handler.sent
  rw [List.flatMap_cons] at hhandled hsent hhandled' hsent'
  calc List.Perm (t.cluster.packets ++ t.handlers.flatMap Handler.handled)
        ((s.cluster.packets ++ e.sent) ++ s.handlers.flatMap Handler.handled) := by
        rw [hpackets]
        exact (hhandled.trans hhandled'.symm).append_left _
    List.Perm _ (e.sent ++ (s.cluster.packets ++ s.handlers.flatMap Handler.handled)) := by
        rw [← List.append_assoc]
        exact List.perm_append_comm.append_right _
    List.Perm _ (e.sent ++ (h.sent ++ rest.flatMap Handler.sent)) := (hs.trans hsent').append_left _
    List.Perm _ ((h.sent ++ e.sent) ++ rest.flatMap Handler.sent) := by
        rw [← List.append_assoc]
        exact List.perm_append_comm.append_right _
    List.Perm _ (t.handlers.flatMap Handler.sent) := hsent.symm

-- No message is lost or handled twice.
theorem messages_conserved (hquiet : start.Quiet)
    (hrun : Reaches step (fun _ _ => True) (.start start) s) : s.Agrees ∧ s.Conserved := by
  apply hrun.invariant
  · refine ⟨hquiet.1, ?_⟩
    rw [Conserved, Recorded.start, hquiet.2]
    exact List.Perm.nil
  · rintro s a t ⟨hagrees, hs⟩ - h
    obtain ⟨-, hcases, hagrees'⟩ := step_cases hagrees h
    refine ⟨hagrees', ?_⟩
    rcases hcases with ⟨p, request, task, -, -, hpackets, hlive, hfinished⟩ |
      ⟨i, h', task, live, e, hpick, -, hpackets, hlive, hfinished⟩ |
      ⟨i, p, packet, packets, hpick, hpackets, hlive, hfinished⟩
    · refine conserved_append hs rfl ?_ hlive hfinished
      rw [hpackets]
      simp [Handler.handled]
    · exact conserved_run hs hpick hpackets hlive hfinished
    · refine conserved_append hs rfl ?_ hlive hfinished
      rw [hpackets]
      exact List.perm_append_comm.trans (pick_perm hpick).symm

-- Requests that succeed are passed on, once to each of the other peers, by the peer they
-- were made at and by nobody else.
theorem replication_once (hstart : start.Connected) (hquiet : start.Quiet)
    (hrun : Reaches step (fun _ _ => True) (.start start) s) :
    (∀ h ∈ s.handlers, h.FromPeer → h.sent = [] ∧ h.answers = [] ∧ h.mail = []) ∧
    (∀ h ∈ s.finished, (start.others h.peer).Nodup ∧
      ∀ q, q ∈ start.others h.peer ↔ start.listening q = true ∧ q ≠ h.peer) ∧
    s.finished.flatMap Handler.messages = s.finished.flatMap (fun h => h.owed (start.others h.peer)) := by
  have hkept := hrun.invariant (kept_start hstart hquiet) (fun _ _ _ hs _ h => kept_step hs h)
  refine ⟨?_, ?_, ?_⟩
  · intro h hh hpeer
    rcases List.mem_append.mp hh with hlive | hfinished
    · obtain ⟨x, hx, rfl⟩ := List.mem_map.mp hlive
      exact (hkept.live x hx).silent hpeer
    · exact (hkept.finished h hfinished).2.2 hpeer
  · intro h hh
    obtain ⟨rest, hlist, hnodup, hmem⟩ := hstart.peer_list h.peer (hkept.finished h hh).1
    rw [Cluster.others, hlist]
    exact ⟨hnodup, hmem⟩
  · exact List.flatMap_congr (fun h hh => (hkept.finished h hh).2.1)

-- A photo of one byte is uploaded at the first of three peers and reaches the others.
def freshPeers : Cluster :=
  Cluster.among [localPeer 3001, localPeer 3002, localPeer 3003] ⟨[], fun _ => none⟩ 0

def uploadAtFirst : List ClusterAction :=
  [.call (localPeer 3001) (.addPhoto [97, 44, 49] [5])] ++ List.replicate 7 (.run 0) ++
    [.deliver 0, .run 0, .run 0, .deliver 0, .run 0, .run 0]

theorem replication_once_uploadAtFirst :
    ∃ s, execute step (fun _ _ => True) (.start freshPeers) uploadAtFirst = some s ∧
      s.finished.map (fun h => (h.peer, h.broadcasts)) =
        [(localPeer 3001, [(localPeer 3002, some ⟨[], 9, some (setData [97] 1)⟩),
            (localPeer 3003, some ⟨[], 9, some (setData [97] 1)⟩)]),
          (localPeer 3002, []), (localPeer 3003, [])] ∧
      (∀ h ∈ s.handlers, h.FromPeer → h.sent = [] ∧ h.answers = [] ∧ h.mail = []) ∧
      s.finished.flatMap Handler.messages =
        s.finished.flatMap (fun h => h.owed (freshPeers.others h.peer)) := by
  have hrun : (execute step (fun _ _ => True) (.start freshPeers) uploadAtFirst).map
      (fun s => s.finished.map (fun h => (h.peer, h.broadcasts))) =
        some [(localPeer 3001, [(localPeer 3002, some ⟨[], 9, some (setData [97] 1)⟩),
            (localPeer 3003, some ⟨[], 9, some (setData [97] 1)⟩)]),
          (localPeer 3002, []), (localPeer 3003, [])] := by decide +kernel
  obtain ⟨s, hs, hmessages⟩ := Option.map_eq_some_iff.mp hrun
  obtain ⟨hsilent, -, hsent⟩ :=
    replication_once (among_connected (by decide) _ _) ⟨rfl, rfl⟩ (reaches_of_execute _ hs)
  exact ⟨s, hs, hmessages, hsilent, hsent⟩

end Replication

end Recorded

end Gallery
