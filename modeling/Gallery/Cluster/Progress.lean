import Gallery.Cluster.Moves

namespace Gallery

section Work

-- The steps that news lead to at one peer, its accepting them included.
def News.work : News → Nat
  | .photo _ => 3
  | .keyword _ => 5
  | .delete _ => 3

-- `n` is the number of the other peers.
variable (n : Nat)

def News.broadcastWork (news : News) : Nat := 2 + n * (1 + news.work)

-- The steps that a part of a handler and all that follows from it still take.
def Task.work : Task → Nat
  | .askId name _ _ => 3 + News.broadcastWork n (.photo (setData name 0))
  | .insertPhoto K _ _ isPeer => 2 + if isPeer then 0 else News.broadcastWork n (.photo K)
  | .writePhoto K _ _ isPeer => 1 + if isPeer then 0 else News.broadcastWork n (.photo K)
  | .findPhoto message isPeer => 4 + if isPeer then 0 else 1 + News.broadcastWork n (.keyword message)
  | .checkFull message isPeer => 3 + if isPeer then 0 else 1 + News.broadcastWork n (.keyword message)
  | .searchKeyword message isPeer =>
      2 + if isPeer then 0 else 1 + News.broadcastWork n (.keyword message)
  | .insertKeyword message isPeer =>
      1 + if isPeer then 0 else 1 + News.broadcastWork n (.keyword message)
  | .answerKeyword message _ => 1 + News.broadcastWork n (.keyword message)
  | .removePhoto message isPeer => 2 + if isPeer then 0 else 1 + News.broadcastWork n (.delete message)
  | .unlinkPhoto message isPeer => 1 + if isPeer then 0 else 1 + News.broadcastWork n (.delete message)
  | .answerDelete message _ => 1 + News.broadcastWork n (.delete message)
  | .lockPeers news => News.broadcastWork n news
  | .broadcast news rest => 1 + rest.length * (1 + news.work)
  | .registerPeer _ _ => 2
  | .sendAllPhotos _ => 1
  | .deletePeer _ => 1

def Packet.work (packet : Packet) : Nat := 1 + packet.task.work n

-- The steps a request takes in all: 5, 7 and 5 at the peer it is made at, and those of
-- the messages to the others.
def Call.work : Call → Nat
  | .addPhoto _ _ => 5 + 4 * n
  | .addKeyword _ => 7 + 6 * n
  | .deletePhoto _ => 5 + 4 * n

def packetWork (a : DataR × Packet) : Nat := a.2.work n

def taskWork (a : DataR × Task) : Nat := a.2.work n

def Cluster.work (s : Cluster) : Nat := s.tokens (packetWork n) (taskWork n)

variable {n}

theorem work_call_task {request : Call} {task : Task} (h : request.task = some task) :
    task.work n = request.work n := by
  cases request with
  | addPhoto message bytes =>
      obtain ⟨name, -, rfl⟩ := Option.map_eq_some_iff.mp h
      simp only [Task.work, Call.work, News.broadcastWork, News.work]
      omega
  | addKeyword message =>
      obtain rfl := Option.some.inj h
      simp only [Task.work, Call.work, News.broadcastWork, News.work, Bool.false_eq_true, if_false]
      omega
  | deletePhoto message =>
      obtain rfl := Option.some.inj h
      simp only [Task.work, Call.work, News.broadcastWork, News.work, Bool.false_eq_true, if_false]
      omega

theorem work_packet {p : Peer} {news : News} {packet : Packet} (h : news.packet p = some packet) :
    packet.work n = news.work := by
  cases news with
  | photo K =>
      obtain ⟨bytes, -, rfl⟩ := Option.map_eq_some_iff.mp h
      rfl
  | keyword message =>
      obtain rfl := Option.some.inj h
      rfl
  | delete message =>
      obtain rfl := Option.some.inj h
      rfl

theorem work_keywordDone (message : CString) (isPeer : Bool) (success : Int32) :
    (keywordDone message isPeer success).elim 0 (Task.work n) =
      if isPeer then 0 else 1 + News.broadcastWork n (.keyword message) := by
  cases isPeer <;> rfl

theorem work_deleteDone (message : CString) (isPeer : Bool) (found : Nat) :
    (deleteDone message isPeer found).elim 0 (Task.work n) =
      if isPeer then 0 else 1 + News.broadcastWork n (.delete message) := by
  cases isPeer <;> rfl

-- Where a part chooses between two, both leave less work than it had.
theorem work_ite {c : Prop} [Decidable c] {first second : Option Task} {bound : Nat}
    (hfirst : c → first.elim 0 (Task.work n) < bound)
    (hsecond : ¬c → second.elim 0 (Task.work n) < bound) :
    0 + (if c then first else second).elim 0 (Task.work n) + 1 ≤ bound := by
  rw [Nat.zero_add]
  split
  · exact hfirst ‹_›
  · exact hsecond ‹_›

-- Every part of a handler uses up one step of its work.
theorem work_runTask {online : DataR → Bool} {photo_id : UInt32} {r : Replica} {task : Task}
    {e : Effect} (h : runTask online photo_id r task = some e) (hsettled : task.Settled online)
    (hothers : r.peer_list.tail.length = n) :
    total (packetWork n) e.sent + e.next.elim 0 (Task.work n) + 1 ≤ task.work n := by
  cases task with
  | askId name size bytes =>
      obtain rfl := Option.some.inj h
      refine work_ite (fun _ => ?_) (fun _ => ?_)
      · show 0 < 3 + _
        omega
      · show 2 + News.broadcastWork n (.photo (setData name 0)) < 3 + _
        omega
  | insertPhoto K size bytes isPeer =>
      obtain rfl := Option.some.inj h
      show 0 + (1 + _) + 1 ≤ 2 + _
      omega
  | writePhoto K size bytes isPeer =>
      simp only [runTask] at h
      split at h
      · cases h
      · obtain rfl := Option.some.inj h
        cases isPeer with
        | true => exact le_rfl
        | false =>
            show 0 + News.broadcastWork n _ + 1 ≤ 1 + News.broadcastWork n _
            omega
  | findPhoto message isPeer =>
      obtain ⟨⟨id, keyword⟩, hscan, h⟩ := Option.bind_eq_some_iff.mp h
      obtain rfl := Option.some.inj h
      cases listSearch r.peer.photo_list (setData [] id) with
      | none =>
          show 0 + (keywordDone message isPeer (-2)).elim 0 (Task.work n) + 1 ≤ 4 + _
          rw [work_keywordDone]
          omega
      | some aux =>
          show 0 + (3 + _) + 1 ≤ 4 + _
          omega
  | checkFull message isPeer =>
      obtain ⟨⟨id, keyword⟩, hscan, h⟩ := Option.bind_eq_some_iff.mp h
      obtain rfl := Option.some.inj h
      refine work_ite (fun _ => ?_) (fun _ => ?_)
      · show 2 + _ < 3 + _
        omega
      · rw [work_keywordDone]
        show _ < 3 + _
        omega
  | searchKeyword message isPeer =>
      obtain ⟨⟨id, keyword⟩, hscan, h⟩ := Option.bind_eq_some_iff.mp h
      obtain rfl := Option.some.inj h
      refine work_ite (fun _ => ?_) (fun _ => ?_)
      · rw [work_keywordDone]
        show _ < 2 + _
        omega
      · show 1 + _ < 2 + _
        omega
  | insertKeyword message isPeer =>
      obtain ⟨⟨id, keyword⟩, hscan, h⟩ := Option.bind_eq_some_iff.mp h
      obtain rfl := Option.some.inj h
      show 0 + (keywordDone message isPeer 1).elim 0 (Task.work n) + 1 ≤ 1 + _
      rw [work_keywordDone]
      omega
  | answerKeyword message success =>
      obtain rfl := Option.some.inj h
      refine work_ite (fun _ => ?_) (fun _ => ?_)
      · show News.broadcastWork n _ < 1 + News.broadcastWork n _
        omega
      · show 0 < 1 + _
        omega
  | removePhoto message isPeer =>
      obtain ⟨id, hscan, h⟩ := Option.bind_eq_some_iff.mp h
      obtain rfl := Option.some.inj h
      refine work_ite (fun _ => ?_) (fun _ => ?_)
      · show 1 + _ < 2 + _
        omega
      · rw [work_deleteDone]
        show _ < 2 + _
        omega
  | unlinkPhoto message isPeer =>
      obtain ⟨id, hscan, h⟩ := Option.bind_eq_some_iff.mp h
      obtain rfl := Option.some.inj h
      show 0 + (deleteDone message isPeer 1).elim 0 (Task.work n) + 1 ≤ 1 + _
      rw [work_deleteDone]
      omega
  | answerDelete message found =>
      obtain rfl := Option.some.inj h
      refine work_ite (fun _ => ?_) (fun _ => ?_)
      · show News.broadcastWork n _ < 1 + News.broadcastWork n _
        omega
      · show 0 < 1 + _
        omega
  | lockPeers news =>
      simp only [runTask] at h
      split at h
      · cases h
      · obtain rfl := Option.some.inj h
        show 0 + (1 + r.peer_list.tail.length * _) + 1 ≤ 2 + n * _
        rw [hothers]
        omega
  | broadcast news rest =>
      cases rest with
      | nil =>
          obtain rfl := Option.some.inj h
          simp [Task.work]
      | cons K rest =>
          have hK := hsettled K List.mem_cons_self
          simp only [runTask, hK, if_true] at h
          obtain ⟨packet, hpacket, h⟩ := Option.bind_eq_some_iff.mp h
          obtain rfl := Option.some.inj h
          have hwork : packet.work n = news.work := work_packet hpacket
          simp [Task.work, packetWork, hwork, Nat.add_mul]
          omega
  | registerPeer K asker => exact hsettled.elim
  | sendAllPhotos asker => exact hsettled.elim
  | deletePeer K => exact hsettled.elim

variable {s t : Cluster} {a : ClusterAction}

-- Everybody that listens has `n` others to tell.
def Cluster.Others (n : Nat) (s : Cluster) : Prop :=
  ∀ p, s.listening p = true → (s.replica p).peer_list.tail.length = n

-- A request brings its work with it, every other action does some.
def ClusterAction.gain (n : Nat) : ClusterAction → Nat
  | .call _ request => request.work n
  | .run _ => 0
  | .deliver _ => 0

def ClusterAction.cost : ClusterAction → Nat
  | .call _ _ => 0
  | .run _ => 1
  | .deliver _ => 1

theorem work_step (hs : s.Connected ∧ s.Others n) (h : s.step a = some t) :
    (t.Connected ∧ t.Others n) ∧ t.work n + a.cost ≤ s.work n + a.gain n := by
  obtain ⟨hconnected, hlistening⟩ := connected_step hs.1 h
  have hothers : t.Others n := by
    intro p hp
    rw [hlistening] at hp
    rw [peer_list_step hs.1 h p]
    exact hs.2 p hp
  refine ⟨⟨hconnected, hothers⟩, ?_⟩
  cases a with
  | call p request =>
      simp only [Cluster.step] at h
      split at h
      · obtain ⟨task, htask, rfl⟩ := Option.map_eq_some_iff.mp h
        simp [Cluster.work, Cluster.tokens, taskWork, work_call_task htask, ClusterAction.cost,
          ClusterAction.gain, Nat.add_assoc]
      · cases h
  | run i =>
      obtain ⟨⟨⟨p, task⟩, threads⟩, hpick, h⟩ := Option.bind_eq_some_iff.mp h
      obtain ⟨e, hrun, h⟩ := Option.bind_eq_some_iff.mp h
      obtain rfl := Option.some.inj h
      obtain ⟨hp, htask⟩ := hs.1.threads p task (pick_mem hpick)
      have hwork := work_runTask hrun htask (hs.2 p hp)
      have hmoved : (s.apply p threads e).work n + task.work n =
          s.work n + (total (packetWork n) e.sent + e.next.elim 0 (Task.work n)) :=
        tokens_apply (packetWork n) (taskWork n) e hpick
      simp only [ClusterAction.cost, ClusterAction.gain]
      omega
  | deliver i =>
      obtain ⟨⟨⟨p, packet⟩, packets⟩, hpick, h⟩ := Option.bind_eq_some_iff.mp h
      obtain rfl := Option.some.inj h
      have hgone : total (packetWork n) s.packets =
          1 + packet.task.work n + total (packetWork n) packets := total_pick (packetWork n) hpick
      have hnew : taskWork n (p, packet.task) = packet.task.work n := rfl
      simp only [Cluster.work, Cluster.tokens, ClusterAction.cost, ClusterAction.gain, total_append,
        total_cons, total_nil, hnew]
      omega

-- However the handlers take turns, the requests of a schedule lead to no more steps than
-- the ones each of them takes alone.
theorem steps_bounded {schedule : List ClusterAction} (hs : s.Connected) (hquiet : s.Quiet)
    (hothers : s.Others n) (h : schedule.foldlM Cluster.step s = some t) :
    t.work n + total ClusterAction.cost schedule ≤ total (ClusterAction.gain n) schedule := by
  have hwork : t.work n + total ClusterAction.cost schedule ≤
      s.work n + total (ClusterAction.gain n) schedule :=
    (foldlM_work (fun _ _ _ hI hstep => work_step hI hstep) ⟨hs, hothers⟩ h).2
  have hnone : s.work n = 0 := by
    simp [Cluster.work, Cluster.tokens, hquiet.1, hquiet.2]
  omega

def idlePorts : List DataR := [localPeer 3001, localPeer 3002, localPeer 3003]

def idlePeers : Cluster := Cluster.among idlePorts ⟨[], fun _ => none⟩ 0

theorem idlePeers_others : idlePeers.Others 2 := by
  intro p hp
  have hmem : p ∈ idlePorts := of_decide_eq_true hp
  change (idlePorts.erase p).length = 2
  rw [List.length_erase_of_mem hmem]
  rfl

-- A photo takes 7 steps where it is uploaded and 3 at each other peer.
def uploadAlone : List ClusterAction :=
  [.call (localPeer 3001) (.addPhoto [97, 44, 49] [5])] ++ List.replicate 7 (.run 0) ++
    [.deliver 0, .run 0, .run 0, .deliver 0, .run 0, .run 0]

theorem steps_bounded_uploadAlone :
    ∃ t, uploadAlone.foldlM Cluster.step idlePeers = some t ∧
      total ClusterAction.cost uploadAlone = 13 ∧ t.work 2 + 13 ≤ 13 := by
  have hruns : (uploadAlone.foldlM Cluster.step idlePeers).isSome := by decide +kernel
  obtain ⟨t, ht⟩ := Option.isSome_iff_exists.mp hruns
  exact ⟨t, ht, by decide, steps_bounded (among_connected (by decide) _ _) ⟨rfl, rfl⟩
    idlePeers_others ht⟩

end Work

section Locks

-- A thread that broadcasts holds `peer_lock`, and no other does.
def Task.holdsLock : Task → Bool
  | .broadcast _ _ => true
  | _ => false

def lockWeight (p : DataR) (a : DataR × Task) : Nat := if a.1 = p ∧ a.2.holdsLock = true then 1 else 0

def Replica.locks (r : Replica) : Nat := if r.peer_lock then 1 else 0

def Cluster.Locked (s : Cluster) : Prop :=
  ∀ p, total (lockWeight p) s.threads = (s.replica p).locks

theorem lockWeight_self (p : DataR) (task : Task) :
    lockWeight p (p, task) = if task.holdsLock then 1 else 0 := by
  simp [lockWeight]

theorem lockWeight_of_ne {p q : DataR} (task : Task) (h : q ≠ p) : lockWeight q (p, task) = 0 := by
  simp [lockWeight, Ne.symm h]

theorem Task.Local.holdsLock {task : Task} (h : task.Local) : task.holdsLock = false := by
  cases task <;> first | rfl | exact h.elim

variable {online : DataR → Bool} {photo_id : UInt32} {r : Replica} {task : Task} {e : Effect}

theorem runTask_local_kept (h : runTask online photo_id r task = some e) (hlocal : task.Local) :
    e.replica.peer_lock = r.peer_lock ∧ (task.asksId = false → e.photo_id = photo_id) := by
  cases task with
  | askId name size bytes =>
      obtain rfl := Option.some.inj h
      exact ⟨rfl, fun hasks => by cases hasks⟩
  | insertPhoto K size bytes isPeer =>
      obtain rfl := Option.some.inj h
      exact ⟨rfl, fun _ => rfl⟩
  | writePhoto K size bytes isPeer =>
      obtain ⟨-, h⟩ := Option.ite_none_left_eq_some.mp h
      obtain rfl := Option.some.inj h
      exact ⟨rfl, fun _ => rfl⟩
  | findPhoto message isPeer =>
      obtain ⟨_, -, h⟩ := Option.bind_eq_some_iff.mp h
      obtain rfl := Option.some.inj h
      exact ⟨rfl, fun _ => rfl⟩
  | checkFull message isPeer =>
      obtain ⟨_, -, h⟩ := Option.bind_eq_some_iff.mp h
      obtain rfl := Option.some.inj h
      exact ⟨rfl, fun _ => rfl⟩
  | searchKeyword message isPeer =>
      obtain ⟨_, -, h⟩ := Option.bind_eq_some_iff.mp h
      obtain rfl := Option.some.inj h
      exact ⟨rfl, fun _ => rfl⟩
  | insertKeyword message isPeer =>
      obtain ⟨_, -, h⟩ := Option.bind_eq_some_iff.mp h
      obtain rfl := Option.some.inj h
      exact ⟨rfl, fun _ => rfl⟩
  | answerKeyword message success =>
      obtain rfl := Option.some.inj h
      exact ⟨rfl, fun _ => rfl⟩
  | removePhoto message isPeer =>
      obtain ⟨_, -, h⟩ := Option.bind_eq_some_iff.mp h
      obtain rfl := Option.some.inj h
      exact ⟨rfl, fun _ => rfl⟩
  | unlinkPhoto message isPeer =>
      obtain ⟨_, -, h⟩ := Option.bind_eq_some_iff.mp h
      obtain rfl := Option.some.inj h
      exact ⟨rfl, fun _ => rfl⟩
  | answerDelete message found =>
      obtain rfl := Option.some.inj h
      exact ⟨rfl, fun _ => rfl⟩
  | _ => exact hlocal.elim

-- The parts of the handlers that have to do with the other peers.
inductive PeersPart (online : DataR → Bool) (photo_id : UInt32) (r : Replica) : Task → Effect → Prop
  | lock (news : News) (hfree : r.peer_lock = false) :
      PeersPart online photo_id r (.lockPeers news)
        { replica := { r with peer_lock := true }
          next := some (.broadcast news r.peer_list.tail)
          photo_id := photo_id }
  | unlock (news : News) :
      PeersPart online photo_id r (.broadcast news [])
        { replica := { r with peer_lock := false }, next := none, photo_id := photo_id }
  | tell (news : News) (K : DataR) (rest : List DataR) (packet : Packet) (hK : online K = true)
      (hpacket : news.packet r.peer = some packet) :
      PeersPart online photo_id r (.broadcast news (K :: rest))
        { replica := r
          next := some (.broadcast news rest)
          photo_id := photo_id
          sent := [(K, packet)] }
  | strike (news : News) (K : DataR) (rest : List DataR) (hK : online K = false) :
      PeersPart online photo_id r (.broadcast news (K :: rest))
        { replica := { r with peer_list := r.peer_list.erase K }
          next := some (.broadcast news rest)
          photo_id := photo_id
          reports := [K] }
  | register (K : DataR) (asker : Option DataR) (hfree : r.peer_lock = false) :
      PeersPart online photo_id r (.registerPeer K asker)
        { replica := { r with peer_list := r.peer_list ++ [K] }
          next := asker.map Task.sendAllPhotos
          photo_id := photo_id }
  | sendPhotos (asker : DataR) (photos : List (Data × List Byte)) :
      PeersPart online photo_id r (.sendAllPhotos asker)
        { replica := r, next := none, photo_id := photo_id, mail := [(asker, photos)] }
  | remove (K : DataR) (hfree : r.peer_lock = false) :
      PeersPart online photo_id r (.deletePeer K)
        { replica := { r with peer_list := r.peer_list.erase K }, next := none, photo_id := photo_id }

theorem runTask_cases (h : runTask online photo_id r task = some e) :
    task.Local ∨ PeersPart online photo_id r task e := by
  by_cases hlocal : task.Local
  · exact .inl hlocal
  · right
    cases task with
    | lockPeers news =>
        obtain ⟨hfree, h⟩ := Option.ite_none_left_eq_some.mp h
        obtain rfl := Option.some.inj h
        exact .lock news (Bool.eq_false_iff.mpr hfree)
    | broadcast news rest =>
        cases rest with
        | nil =>
            obtain rfl := Option.some.inj h
            exact .unlock news
        | cons K rest =>
            simp only [runTask] at h
            split at h
            case isTrue hK =>
              obtain ⟨packet, hpacket, h⟩ := Option.bind_eq_some_iff.mp h
              obtain rfl := Option.some.inj h
              exact .tell news K rest packet hK hpacket
            case isFalse hK =>
              obtain rfl := Option.some.inj h
              exact .strike news K rest (Bool.eq_false_iff.mpr hK)
    | registerPeer K asker =>
        obtain ⟨hfree, h⟩ := Option.ite_none_left_eq_some.mp h
        obtain rfl := Option.some.inj h
        exact .register K asker (Bool.eq_false_iff.mpr hfree)
    | sendAllPhotos asker =>
        obtain ⟨photos, -, h⟩ := Option.bind_eq_some_iff.mp h
        obtain ⟨-, h⟩ := Option.ite_none_right_eq_some.mp h
        obtain rfl := Option.some.inj h
        exact .sendPhotos asker photos
    | deletePeer K =>
        obtain ⟨hfree, h⟩ := Option.ite_none_left_eq_some.mp h
        obtain rfl := Option.some.inj h
        exact .remove K (Bool.eq_false_iff.mpr hfree)
    | _ => exact absurd trivial hlocal

theorem runTask_photo_id (h : runTask online photo_id r task = some e) (hasks : task.asksId = false) :
    e.photo_id = photo_id := by
  rcases runTask_cases h with hlocal | hpart
  · exact (runTask_local_kept h hlocal).2 hasks
  · cases hpart <;> rfl

-- The lock is taken and given back with the broadcast.
theorem runTask_locks (h : runTask online photo_id r task = some e)
    (hheld : task.holdsLock = true → r.peer_lock = true) :
    e.replica.locks + (if task.holdsLock then 1 else 0) =
      r.locks + e.next.elim 0 (fun next => if next.holdsLock then 1 else 0) := by
  rcases runTask_cases h with hlocal | hpart
  · have hnext : ∀ next, e.next = some next → next.holdsLock = false := by
      intro next hnext
      rcases (runTask_local h hlocal).next next hnext with hlocal' | ⟨news, rfl⟩
      · exact hlocal'.holdsLock
      · rfl
    rw [Replica.locks, (runTask_local_kept h hlocal).1, hlocal.holdsLock, Replica.locks]
    cases hcase : e.next with
    | none => rfl
    | some next => simp [hnext next hcase]
  · cases hpart with
    | lock news hfree => simp [Replica.locks, Task.holdsLock, hfree]
    | unlock news => simp [Replica.locks, Task.holdsLock, hheld rfl]
    | register K asker hfree => cases asker <;> rfl
    | _ => rfl

variable {s t : Cluster} {a : ClusterAction}

theorem Cluster.Locked.held (hs : s.Locked) {p : DataR} (hmem : (p, task) ∈ s.threads)
    (hholds : task.holdsLock = true) : (s.replica p).peer_lock = true := by
  have hpos : 0 < total (lockWeight p) s.threads := by
    have hone : lockWeight p (p, task) = 1 := by simp [lockWeight, hholds]
    have hle := le_total (lockWeight p) hmem
    omega
  rw [hs p, Replica.locks] at hpos
  by_contra hfree
  simp [hfree] at hpos

theorem locked_step (hlocked : s.Locked) (h : s.step a = some t) : t.Locked := by
  cases a with
  | call p request =>
      simp only [Cluster.step] at h
      split at h
      · obtain ⟨task, htask, rfl⟩ := Option.map_eq_some_iff.mp h
        intro q
        have hnew : lockWeight q (p, task) = 0 := by
          simp [lockWeight, (call_task_local htask).holdsLock]
        rw [total_append, total_cons, hnew, total_nil]
        exact hlocked q
      · cases h
  | run i =>
      obtain ⟨⟨⟨p, task⟩, threads⟩, hpick, h⟩ := Option.bind_eq_some_iff.mp h
      obtain ⟨e, hrun, h⟩ := Option.bind_eq_some_iff.mp h
      obtain rfl := Option.some.inj h
      have hlocks := runTask_locks hrun (hlocked.held (pick_mem hpick))
      intro q
      have hgone := total_pick (lockWeight q) hpick
      have hnext : total (lockWeight q) (e.next.map (fun next => (p, next))).toList =
          e.next.elim 0 (fun next => lockWeight q (p, next)) := by
        cases e.next <;> simp
      have hq := hlocked q
      simp only [Cluster.apply, total_append, hnext]
      rcases eq_or_ne q p with rfl | hqp
      · simp only [lockWeight_self] at hgone ⊢
        rw [Function.update_self]
        omega
      · simp only [lockWeight_of_ne _ hqp] at hgone ⊢
        rw [Function.update_of_ne hqp, ← hq, hgone]
        cases e.next <;> simp
  | deliver i =>
      obtain ⟨⟨⟨p, packet⟩, packets⟩, hpick, h⟩ := Option.bind_eq_some_iff.mp h
      obtain rfl := Option.some.inj h
      intro q
      have hnew : lockWeight q (p, packet.task) = 0 := by
        cases packet <;> simp [lockWeight, Packet.task, Task.holdsLock]
      rw [total_append, total_cons, hnew, total_nil]
      exact hlocked q

end Locks

section Texts

-- What a handler is about, as it would tell the others.
def Task.about : Task → Option News
  | .findPhoto message _ | .checkFull message _ | .searchKeyword message _ | .insertKeyword message _
  | .answerKeyword message _ => some (.keyword message)
  | .removePhoto message _ | .unlinkPhoto message _ | .answerDelete message _ => some (.delete message)
  | .lockPeers news | .broadcast news _ => some news
  | _ => none

-- Its text holds an id, and a keyword where there is to be one.
def News.Scans : News → Prop
  | .photo _ => True
  | .keyword message => (sscanfKeyword message).isSome = true
  | .delete message => (sscanfId message).isSome = true

def Task.Scans (task : Task) : Prop := ∀ news ∈ task.about, news.Scans

def Call.Scans : Call → Prop
  | .addPhoto _ _ => True
  | .addKeyword message => (sscanfKeyword message).isSome = true
  | .deletePhoto message => (sscanfId message).isSome = true

def ClusterAction.Scans : ClusterAction → Prop
  | .call _ request => request.Scans
  | _ => True

instance (a : ClusterAction) : Decidable a.Scans :=
  match a with
  | .call _ (.addPhoto _ _) => isTrue trivial
  | .call _ (.addKeyword message) => inferInstanceAs (Decidable ((sscanfKeyword message).isSome = true))
  | .call _ (.deletePhoto message) => inferInstanceAs (Decidable ((sscanfId message).isSome = true))
  | .run _ => isTrue trivial
  | .deliver _ => isTrue trivial

structure Cluster.Scans (s : Cluster) : Prop where
  threads : ∀ p task, (p, task) ∈ s.threads → task.Scans
  packets : ∀ p packet, (p, packet) ∈ s.packets → packet.task.Scans

theorem scans_photo (K : Data) {task : Task} (h : task.about = some (.photo K)) : task.Scans := by
  intro news hnews
  rw [h] at hnews
  obtain rfl := Option.some.inj hnews
  trivial

theorem scans_about {task next : Task} (htask : task.Scans) (h : next.about = task.about) : next.Scans := by
  intro news hnews
  exact htask news (h ▸ hnews)

theorem scans_none {task : Task} (h : task.about = none) : task.Scans := by
  intro news hnews
  rw [h] at hnews
  cases hnews

theorem about_keywordDone {message : CString} {isPeer : Bool} {success : Int32} {next : Task}
    (h : keywordDone message isPeer success = some next) : next.about = some (.keyword message) := by
  obtain ⟨-, h⟩ := Option.ite_none_left_eq_some.mp h
  obtain rfl := Option.some.inj h
  rfl

theorem about_deleteDone {message : CString} {isPeer : Bool} {found : Nat} {next : Task}
    (h : deleteDone message isPeer found = some next) : next.about = some (.delete message) := by
  obtain ⟨-, h⟩ := Option.ite_none_left_eq_some.mp h
  obtain rfl := Option.some.inj h
  rfl

theorem about_packet {p : Peer} {news : News} {packet : Packet} (h : news.packet p = some packet) :
    packet.task.about = some news ∨ packet.task.about = none := by
  cases news with
  | photo K =>
      obtain ⟨bytes, -, rfl⟩ := Option.map_eq_some_iff.mp h
      exact .inr rfl
  | keyword message =>
      obtain rfl := Option.some.inj h
      exact .inl rfl
  | delete message =>
      obtain rfl := Option.some.inj h
      exact .inl rfl

variable {online : DataR → Bool} {photo_id : UInt32} {r : Replica} {task : Task} {e : Effect}

-- A part of a handler goes on with what the handler is about.
theorem runTask_about (h : runTask online photo_id r task = some e) {next : Task}
    (hnext : e.next = some next) :
    next.about = task.about ∨ next.about = none ∨ ∃ K, next.about = some (.photo K) := by
  cases task with
  | askId name size bytes =>
      obtain rfl := Option.some.inj h
      obtain ⟨-, hnext⟩ := Option.ite_none_left_eq_some.mp hnext
      obtain rfl := Option.some.inj hnext
      exact .inr (.inl rfl)
  | insertPhoto K size bytes isPeer =>
      obtain rfl := Option.some.inj h
      obtain rfl := Option.some.inj hnext
      exact .inl rfl
  | writePhoto K size bytes isPeer =>
      obtain ⟨-, h⟩ := Option.ite_none_left_eq_some.mp h
      obtain rfl := Option.some.inj h
      obtain ⟨-, hnext⟩ := Option.ite_none_left_eq_some.mp hnext
      obtain rfl := Option.some.inj hnext
      exact .inr (.inr ⟨K, rfl⟩)
  | findPhoto message isPeer =>
      obtain ⟨_, -, h⟩ := Option.bind_eq_some_iff.mp h
      obtain rfl := Option.some.inj h
      dsimp only at hnext
      split at hnext
      · exact .inl (about_keywordDone hnext)
      · obtain rfl := Option.some.inj hnext
        exact .inl rfl
  | checkFull message isPeer =>
      obtain ⟨_, -, h⟩ := Option.bind_eq_some_iff.mp h
      obtain rfl := Option.some.inj h
      dsimp only at hnext
      split at hnext
      · obtain rfl := Option.some.inj hnext
        exact .inl rfl
      · exact .inl (about_keywordDone hnext)
  | searchKeyword message isPeer =>
      obtain ⟨_, -, h⟩ := Option.bind_eq_some_iff.mp h
      obtain rfl := Option.some.inj h
      dsimp only at hnext
      split at hnext
      · exact .inl (about_keywordDone hnext)
      · obtain rfl := Option.some.inj hnext
        exact .inl rfl
  | insertKeyword message isPeer =>
      obtain ⟨_, -, h⟩ := Option.bind_eq_some_iff.mp h
      obtain rfl := Option.some.inj h
      exact .inl (about_keywordDone hnext)
  | answerKeyword message success =>
      obtain rfl := Option.some.inj h
      obtain ⟨-, hnext⟩ := Option.ite_none_right_eq_some.mp hnext
      obtain rfl := Option.some.inj hnext
      exact .inl rfl
  | removePhoto message isPeer =>
      obtain ⟨_, -, h⟩ := Option.bind_eq_some_iff.mp h
      obtain rfl := Option.some.inj h
      dsimp only at hnext
      split at hnext
      · obtain rfl := Option.some.inj hnext
        exact .inl rfl
      · exact .inl (about_deleteDone hnext)
  | unlinkPhoto message isPeer =>
      obtain ⟨_, -, h⟩ := Option.bind_eq_some_iff.mp h
      obtain rfl := Option.some.inj h
      exact .inl (about_deleteDone hnext)
  | answerDelete message found =>
      obtain rfl := Option.some.inj h
      obtain ⟨-, hnext⟩ := Option.ite_none_right_eq_some.mp hnext
      obtain rfl := Option.some.inj hnext
      exact .inl rfl
  | lockPeers news =>
      obtain ⟨-, h⟩ := Option.ite_none_left_eq_some.mp h
      obtain rfl := Option.some.inj h
      obtain rfl := Option.some.inj hnext
      exact .inl rfl
  | broadcast news rest =>
      rcases runTask_cases h with hlocal | hpart
      · exact hlocal.elim
      · cases hpart with
        | unlock => cases hnext
        | tell K rest packet hK hpacket =>
            obtain rfl := Option.some.inj hnext
            exact .inl rfl
        | strike K rest hK =>
            obtain rfl := Option.some.inj hnext
            exact .inl rfl
  | registerPeer K asker =>
      obtain ⟨-, h⟩ := Option.ite_none_left_eq_some.mp h
      obtain rfl := Option.some.inj h
      obtain ⟨asker, -, rfl⟩ := Option.map_eq_some_iff.mp hnext
      exact .inr (.inl rfl)
  | sendAllPhotos asker =>
      rcases runTask_cases h with hlocal | hpart
      · exact hlocal.elim
      · cases hpart with
        | sendPhotos photos => cases hnext
  | deletePeer K =>
      obtain ⟨-, h⟩ := Option.ite_none_left_eq_some.mp h
      obtain rfl := Option.some.inj h
      cases hnext

theorem runTask_scans (h : runTask online photo_id r task = some e) (htask : task.Scans) :
    (∀ next, e.next = some next → next.Scans) ∧
      ∀ q packet, (q, packet) ∈ e.sent → packet.task.Scans := by
  constructor
  · intro next hnext
    rcases runTask_about h hnext with hsame | hnone | ⟨K, hphoto⟩
    · exact scans_about htask hsame
    · exact scans_none hnone
    · exact scans_photo K hphoto
  · intro q packet hsent
    rcases runTask_cases h with hlocal | hpart
    · rw [(runTask_local h hlocal).sent] at hsent
      cases hsent
    · cases hpart with
      | tell news K rest packet' hK hpacket =>
          obtain ⟨-, rfl⟩ := Prod.mk.inj (List.mem_singleton.mp hsent)
          rcases about_packet hpacket with hsame | hnone
          · exact scans_about htask hsame
          · exact scans_none hnone
      | _ => cases hsent

variable {s t : Cluster} {a : ClusterAction}

theorem call_scans {request : Call} (hscans : request.Scans) (h : request.task = some task) :
    task.Scans := by
  cases request with
  | addPhoto message bytes =>
      obtain ⟨name, -, rfl⟩ := Option.map_eq_some_iff.mp h
      exact scans_none rfl
  | addKeyword message =>
      obtain rfl := Option.some.inj h
      exact fun news hnews => Option.some.inj hnews ▸ hscans
  | deletePhoto message =>
      obtain rfl := Option.some.inj h
      exact fun news hnews => Option.some.inj hnews ▸ hscans

theorem scans_step (hs : s.Scans) (ha : a.Scans) (h : s.step a = some t) : t.Scans := by
  cases a with
  | call p request =>
      simp only [Cluster.step] at h
      split at h
      · obtain ⟨task, htask, rfl⟩ := Option.map_eq_some_iff.mp h
        refine ⟨fun q other hmem => ?_, hs.packets⟩
        rcases List.mem_append.mp hmem with hold | hnew
        · exact hs.threads q other hold
        · obtain ⟨-, rfl⟩ := Prod.mk.inj (List.mem_singleton.mp hnew)
          exact call_scans ha htask
      · cases h
  | run i =>
      obtain ⟨⟨⟨p, task⟩, threads⟩, hpick, h⟩ := Option.bind_eq_some_iff.mp h
      obtain ⟨e, hrun, h⟩ := Option.bind_eq_some_iff.mp h
      obtain rfl := Option.some.inj h
      obtain ⟨hnext, hsent⟩ := runTask_scans hrun (hs.threads p task (pick_mem hpick))
      refine ⟨fun q other hmem => ?_, fun q packet hmem => ?_⟩
      · rcases List.mem_append.mp hmem with hold | hnew
        · exact hs.threads q other (pick_rest_subset hpick hold)
        · obtain ⟨next, hgoes, heq⟩ := Option.map_eq_some_iff.mp (Option.mem_toList.mp hnew)
          obtain ⟨-, rfl⟩ := Prod.mk.inj heq
          exact hnext next hgoes
      · rcases List.mem_append.mp hmem with hold | hnew
        · exact hs.packets q packet hold
        · exact hsent q packet hnew
  | deliver i =>
      obtain ⟨⟨⟨p, packet⟩, packets⟩, hpick, h⟩ := Option.bind_eq_some_iff.mp h
      obtain rfl := Option.some.inj h
      refine ⟨fun q other hmem => ?_, fun q other hmem => hs.packets q other (pick_rest_subset hpick hmem)⟩
      rcases List.mem_append.mp hmem with hold | hnew
      · exact hs.threads q other hold
      · obtain ⟨-, rfl⟩ := Prod.mk.inj (List.mem_singleton.mp hnew)
        exact hs.packets p packet (pick_mem hpick)

theorem scans_quiet (h : s.Quiet) : s.Scans := by
  refine ⟨fun p task hmem => ?_, fun p packet hmem => ?_⟩
  · rw [h.1] at hmem
    cases hmem
  · rw [h.2] at hmem
    cases hmem

end Texts

section Stuck

-- Where a handler ends its peer or goes on in memory that is too small: the bytes of a photo do
-- not come, or are too many; the photo to be sent cannot be.
def Task.Crashes (r : Replica) : Task → Prop
  | .writePhoto _ size bytes _ => size = 0 ∨ bytes.length < size ∨ 2 ^ 31 ≤ size
  | .broadcast (.photo K) (_ :: _) => r.peer.sendPhoto K = none
  | _ => False

variable {online : DataR → Bool} {photo_id : UInt32} {r : Replica} {task : Task}

-- Any other part of a handler can be run, unless it waits for the lock.
theorem runTask_isSome (hsettled : task.Settled online) (hscans : task.Scans) (halive : ¬ task.Crashes r)
    (hfree : ∀ news, task = .lockPeers news → r.peer_lock = false) :
    (runTask online photo_id r task).isSome := by
  cases task with
  | writePhoto K size bytes isPeer =>
      have hwhole : ¬ (size = 0 ∨ bytes.length < size ∨ 2 ^ 31 ≤ size) := halive
      rw [runTask, if_neg hwhole]
      rfl
  | findPhoto message isPeer =>
      obtain ⟨⟨id, keyword⟩, hscan⟩ := Option.isSome_iff_exists.mp (hscans _ rfl)
      simp [runTask, hscan]
  | checkFull message isPeer =>
      obtain ⟨⟨id, keyword⟩, hscan⟩ := Option.isSome_iff_exists.mp (hscans _ rfl)
      simp [runTask, hscan]
  | searchKeyword message isPeer =>
      obtain ⟨⟨id, keyword⟩, hscan⟩ := Option.isSome_iff_exists.mp (hscans _ rfl)
      simp [runTask, hscan]
  | insertKeyword message isPeer =>
      obtain ⟨⟨id, keyword⟩, hscan⟩ := Option.isSome_iff_exists.mp (hscans _ rfl)
      simp [runTask, hscan]
  | removePhoto message isPeer =>
      obtain ⟨id, hscan⟩ := Option.isSome_iff_exists.mp (hscans _ rfl)
      simp [runTask, hscan]
  | unlinkPhoto message isPeer =>
      obtain ⟨id, hscan⟩ := Option.isSome_iff_exists.mp (hscans _ rfl)
      simp [runTask, hscan]
  | lockPeers news => simp [runTask, hfree news rfl]
  | broadcast news rest =>
      cases rest with
      | nil => rfl
      | cons K rest =>
          have hK := hsettled K List.mem_cons_self
          cases news with
          | photo photo =>
              obtain ⟨bytes, hfile⟩ := Option.ne_none_iff_exists'.mp halive
              simp [runTask, hK, News.packet, hfile]
          | keyword message => simp [runTask, hK, News.packet]
          | delete message => simp [runTask, hK, News.packet]
  | registerPeer K asker => exact hsettled.elim
  | sendAllPhotos asker => exact hsettled.elim
  | deletePeer K => exact hsettled.elim
  | _ => rfl

variable {s : Cluster}

-- A thread that goes on, and so does the cluster.
theorem exists_run {p : DataR} (hmem : (p, task) ∈ s.threads)
    (hrun : (runTask s.listening s.photo_id (s.replica p) task).isSome) :
    ∃ i t, s.step (.run i) = some t := by
  obtain ⟨i, hi, hget⟩ := List.getElem_of_mem hmem
  obtain ⟨e, he⟩ := Option.isSome_iff_exists.mp hrun
  have hpick : pick s.threads i = some ((p, task), s.threads.eraseIdx i) := by
    rw [pick, List.getElem?_eq_getElem hi, hget]
    rfl
  exact ⟨i, s.apply p (s.threads.eraseIdx i) e, by simp [Cluster.step, hpick, he]⟩

-- As long as somebody is at work or a message is on its way there is a step that is not a new
-- request, or a handler has crashed.
theorem exists_step (hconnected : s.Connected) (hlocked : s.Locked) (hscans : s.Scans) :
    s.Quiet ∨ (∃ a t, a.cost = 1 ∧ s.step a = some t) ∨
      ∃ p task, (p, task) ∈ s.threads ∧ task.Crashes (s.replica p) := by
  by_cases hcrash : ∃ p task, (p, task) ∈ s.threads ∧ task.Crashes (s.replica p)
  · exact Or.inr (Or.inr hcrash)
  · have halive : ∀ p task, (p, task) ∈ s.threads → ¬ task.Crashes (s.replica p) :=
      fun p task hmem h => hcrash ⟨p, task, hmem, h⟩
    cases hpackets : s.packets with
    | cons a packets =>
        obtain ⟨t, ht⟩ : ∃ t, s.step (.deliver 0) = some t := by
          simp [Cluster.step, pick, hpackets]
        exact Or.inr (Or.inl ⟨.deliver 0, t, rfl, ht⟩)
    | nil =>
        by_cases hwait : ∃ p task, (p, task) ∈ s.threads ∧ ∀ news, task ≠ .lockPeers news
        · obtain ⟨p, task, hmem, hnot⟩ := hwait
          obtain ⟨-, hsettled⟩ := hconnected.threads p task hmem
          obtain ⟨i, t, ht⟩ := exists_run hmem (runTask_isSome hsettled (hscans.threads p task hmem)
            (halive p task hmem) (fun news hnews => absurd hnews (hnot news)))
          exact Or.inr (Or.inl ⟨.run i, t, rfl, ht⟩)
        · -- Everybody waits for a lock; nobody broadcasts, so all locks are free.
          have hall : ∀ p task, (p, task) ∈ s.threads → ∃ news, task = .lockPeers news := by
            intro p task hmem
            by_contra hnot
            exact hwait ⟨p, task, hmem, fun news hnews => hnot ⟨news, hnews⟩⟩
          have hnobody : ∀ p, (s.replica p).peer_lock = false := by
            intro p
            have hnone : total (lockWeight p) s.threads = 0 := by
              refine total_eq_zero (lockWeight p) ?_
              rintro ⟨q, task⟩ hmem
              obtain ⟨news, rfl⟩ := hall q task hmem
              simp [lockWeight, Task.holdsLock]
            rw [hlocked p, Replica.locks] at hnone
            by_contra hheld
            simp [hheld] at hnone
          cases hthreads : s.threads with
          | nil => exact Or.inl ⟨hthreads, hpackets⟩
          | cons a threads =>
              obtain ⟨p, task⟩ := a
              have hmem : (p, task) ∈ s.threads := hthreads ▸ List.mem_cons_self
              obtain ⟨-, hsettled⟩ := hconnected.threads p task hmem
              obtain ⟨i, t, ht⟩ := exists_run hmem (runTask_isSome hsettled (hscans.threads p task hmem)
                (halive p task hmem) (fun news _ => hnobody p))
              exact Or.inr (Or.inl ⟨.run i, t, rfl, ht⟩)

theorem locked_quiet (hquiet : s.Quiet) (hfree : ∀ p, (s.replica p).peer_lock = false) : s.Locked := by
  intro p
  rw [hquiet.1, total_nil, Replica.locks, hfree p]
  rfl

-- The locks never bring everything to a halt.
theorem no_deadlock {start : Cluster} (hstart : start.Connected) (hquiet : start.Quiet)
    (hfree : ∀ p, (start.replica p).peer_lock = false)
    (hrun : Reaches Cluster.step (fun _ a => a.Scans) start s) :
    s.Quiet ∨ (∃ a t, a.cost = 1 ∧ s.step a = some t) ∨
      ∃ p task, (p, task) ∈ s.threads ∧ task.Crashes (s.replica p) := by
  have hinv : s.Connected ∧ s.Locked ∧ s.Scans := by
    refine hrun.invariant (I := fun s => s.Connected ∧ s.Locked ∧ s.Scans)
      ⟨hstart, locked_quiet hquiet hfree, scans_quiet hquiet⟩ ?_
    rintro s a t ⟨hconnected, hlocked, hscans⟩ ha h
    exact ⟨(connected_step hconnected h).1, locked_step hlocked h, scans_step hscans ha h⟩
  exact exists_step hinv.1 hinv.2.1 hinv.2.2

-- One of two uploads at a peer broadcasts, the other one waits for it.
def uploadsAtOnce : List ClusterAction :=
  [.call (localPeer 3001) (.addPhoto [97, 44, 49] [5]),
    .call (localPeer 3001) (.addPhoto [98, 44, 49] [6])] ++ List.replicate 7 (.run 0)

theorem no_deadlock_uploadsAtOnce :
    ∃ s, execute Cluster.step (fun _ a => a.Scans) idlePeers uploadsAtOnce = some s ∧
      (s.threads.length = 2 ∧ (s.replica (localPeer 3001)).peer_lock = true ∧
        (s.step (.run 0)).isNone = true) ∧
      (s.Quiet ∨ (∃ a t, a.cost = 1 ∧ s.step a = some t) ∨
        ∃ p task, (p, task) ∈ s.threads ∧ task.Crashes (s.replica p)) := by
  have hruns : (execute Cluster.step (fun _ a => a.Scans) idlePeers uploadsAtOnce).map (fun s =>
      (s.threads.length, (s.replica (localPeer 3001)).peer_lock, (s.step (.run 0)).isNone)) =
        some (2, true, true) := by decide +kernel
  obtain ⟨s, hs, hend⟩ := Option.map_eq_some_iff.mp hruns
  obtain ⟨hthreads, hend⟩ := Prod.mk.inj hend
  obtain ⟨hlock, hwaits⟩ := Prod.mk.inj hend
  exact ⟨s, hs, ⟨hthreads, hlock, hwaits⟩, no_deadlock (among_connected (by decide) _ _) ⟨rfl, rfl⟩
    (fun _ => rfl) (reaches_of_execute _ hs)⟩

end Stuck

end Gallery
