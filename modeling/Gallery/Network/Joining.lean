import Gallery.Network.Liveness

namespace Gallery

section Uploads

-- The peers already in the system are those of `old`; `N` is the new peer.
variable (old : DataR → Bool) (N : DataR)

-- Clients only upload, and the only peer that joins is `N`.
def Task.Uploads : Task → Prop
  | .askId _ _ _ => True
  | .insertPhoto _ _ _ _ => True
  | .writePhoto _ _ _ _ => True
  | .lockPeers news => ∃ K, news = .photo K
  | .broadcast news rest => (∃ K, news = .photo K) ∧ ∀ q ∈ rest, old q = true ∨ q = N
  | .registerPeer K asker => K = N ∧ (asker = none ∨ asker = some N)
  | .sendAllPhotos asker => asker = N
  | _ => False

-- The new peer is at most sent photos.
def Task.Replicates : Task → Prop
  | .insertPhoto _ _ _ isPeer => isPeer = true
  | .writePhoto _ _ _ isPeer => isPeer = true
  | _ => False

def Packet.Uploads : Packet → Prop
  | .photo _ _ => True
  | .newPeer K asker => K = N ∧ (asker = none ∨ asker = some N)
  | _ => False

def Packet.Replicates : Packet → Prop
  | .photo _ _ => True
  | _ => False

-- The peers in the system know each other, and perhaps the new one.
structure Cluster.Uploads (s : Cluster) : Prop where
  peer_list : ∀ p, old p = true → ∃ rest, (s.replica p).peer_list = p :: rest ∧
    (∀ q, old q = true → rest.count q = if q = p then 0 else 1) ∧ ∀ q ∈ rest, old q = true ∨ q = N
  threads : ∀ p task, (p, task) ∈ s.threads →
    old p = true ∧ task.Uploads old N ∨ p = N ∧ s.listening N = true ∧ task.Replicates
  packets : ∀ p packet, (p, packet) ∈ s.packets →
    old p = true ∧ packet.Uploads N ∨ p = N ∧ s.listening N = true ∧ packet.Replicates
  mail : ∀ a ∈ s.mail, a.1 = N
  reports : s.reports = []

-- How a peer is told of the new one, and asked for its photos.
def Packet.registers : Packet → Nat
  | .newPeer _ _ => 1
  | _ => 0

def Task.registers : Task → Nat
  | .registerPeer _ _ => 1
  | _ => 0

def Packet.asksPhotos : Packet → Nat
  | .newPeer _ (some _) => 1
  | _ => 0

def Task.asksPhotos : Task → Nat
  | .registerPeer _ (some _) => 1
  | .sendAllPhotos _ => 1
  | _ => 0

def Cluster.registering (p : DataR) (s : Cluster) : Nat :=
  s.tokens (fun a => if a.1 = p then a.2.registers else 0)
    (fun a => if a.1 = p then a.2.registers else 0)

-- How often a peer was told of the new one, or will be.
def Cluster.registered (p : DataR) (s : Cluster) : Nat :=
  (s.replica p).peer_list.tail.count N + s.registering p

-- The requests for all photos, and their answers.
def Cluster.asking (s : Cluster) : Nat :=
  s.tokens (fun a => a.2.asksPhotos) (fun a => a.2.asksPhotos) + s.mail.length

-- Nobody is told anything new about the new peer, and its ring is the same.
structure Cluster.SameTellings (s t : Cluster) : Prop where
  own : (t.replica N).peer_list = (s.replica N).peer_list
  asking : t.asking = s.asking
  registered : ∀ p, old p = true → t.registered N p = s.registered N p

-- What a part of a handler of an old peer does while `N` joins.
structure Effect.Uploads (online : DataR → Bool) (r : Replica) (task : Task) (e : Effect) : Prop where
  peer_list : e.replica.peer_list = r.peer_list ++ List.replicate task.registers N
  next : ∀ next, e.next = some next → next.Uploads old N
  sent : ∀ p packet, (p, packet) ∈ e.sent →
    (old p = true ∨ p = N) ∧ online p = true ∧ packet.Replicates
  mail : e.mail = [] ∨ task = .sendAllPhotos N ∧ ∃ photos, e.mail = [(N, photos)] ∧
    photos.map Prod.fst = r.peer.photo_list
  reports : e.reports = []
  registers : e.next.elim 0 Task.registers = 0
  asksPhotos : e.next.elim 0 Task.asksPhotos + e.mail.length = task.asksPhotos

variable {old} {N}

theorem mapM_files {files : Data → Option (List Byte)} {photo_list : List Data}
    {photos : List (Data × List Byte)}
    (h : photo_list.mapM (fun photo => (files photo).map (fun bytes => (photo, bytes))) = some photos) :
    photos.map Prod.fst = photo_list := by
  induction photo_list generalizing photos with
  | nil =>
      obtain rfl := Option.some.inj h
      rfl
  | cons photo rest ih =>
      rw [List.mapM_cons] at h
      obtain ⟨first, hfirst, h⟩ := Option.bind_eq_some_iff.mp h
      obtain ⟨photos', hrest, h⟩ := Option.bind_eq_some_iff.mp h
      obtain ⟨bytes, -, rfl⟩ := Option.map_eq_some_iff.mp hfirst
      obtain rfl := Option.some.inj h
      rw [List.map_cons, ih hrest]

theorem runTask_uploads {online : DataR → Bool} {photo_id : UInt32} {r : Replica} {task : Task}
    {e : Effect} (h : runTask online photo_id r task = some e) (htask : task.Uploads old N)
    (hlist : ∀ q ∈ r.peer_list.tail, old q = true ∨ q = N)
    (hprobe : ∀ K ∈ task.probed, online K = true) : e.Uploads old N online r task := by
  cases task with
  | askId name size bytes =>
      obtain rfl := Option.some.inj h
      by_cases hzero : photo_id + 1 = 0
      · exact ⟨by simp [Task.registers], by simp [hzero], by simp, .inl rfl, rfl, by simp [hzero],
          by simp [hzero, Task.asksPhotos]⟩
      · refine ⟨by simp [Task.registers], fun next hnext => ?_, by simp, .inl rfl, rfl,
          by simp [hzero, Task.registers], by simp [hzero, Task.asksPhotos]⟩
        simp only [hzero, if_false, Option.some.injEq] at hnext
        obtain rfl := hnext
        trivial
  | insertPhoto K size bytes isPeer =>
      obtain rfl := Option.some.inj h
      refine ⟨by simp [Task.registers, Replica.setPhotos], fun next hnext => ?_, by simp, .inl rfl, rfl, rfl, rfl⟩
      obtain rfl := Option.some.inj hnext
      trivial
  | writePhoto K size bytes isPeer =>
      simp only [runTask] at h
      split at h
      · cases h
      · obtain rfl := Option.some.inj h
        cases isPeer with
        | true => exact ⟨by simp [Task.registers, Replica.setPeer], by simp, by simp, .inl rfl, rfl, rfl, rfl⟩
        | false =>
            refine ⟨by simp [Task.registers, Replica.setPeer], fun next hnext => ?_, by simp, .inl rfl, rfl, rfl, rfl⟩
            obtain rfl := Option.some.inj hnext
            exact ⟨K, rfl⟩
  | lockPeers news =>
      simp only [runTask] at h
      split at h
      · cases h
      · obtain rfl := Option.some.inj h
        refine ⟨by simp [Task.registers], fun next hnext => ?_, by simp, .inl rfl, rfl, rfl, rfl⟩
        obtain rfl := Option.some.inj hnext
        exact ⟨htask, hlist⟩
  | broadcast news rest =>
      cases rest with
      | nil =>
          obtain rfl := Option.some.inj h
          exact ⟨by simp [Task.registers], by simp, by simp, .inl rfl, rfl, rfl, rfl⟩
      | cons K rest =>
          have hK := hprobe K rfl
          obtain ⟨⟨photo, rfl⟩, hrest⟩ := htask
          simp only [runTask, hK, if_true] at h
          obtain ⟨packet, hpacket, h⟩ := Option.bind_eq_some_iff.mp h
          obtain rfl := Option.some.inj h
          refine ⟨by simp [Task.registers], fun next hnext => ?_, fun p other hsent => ?_, .inl rfl,
            rfl, rfl, rfl⟩
          · obtain rfl := Option.some.inj hnext
            exact ⟨⟨photo, rfl⟩, fun q hq => hrest q (List.mem_cons_of_mem K hq)⟩
          · obtain ⟨rfl, rfl⟩ := Prod.mk.inj (List.mem_singleton.mp hsent)
            obtain ⟨bytes, -, rfl⟩ := Option.map_eq_some_iff.mp hpacket
            exact ⟨hrest p List.mem_cons_self, hK, trivial⟩
  | registerPeer K asker =>
      obtain ⟨rfl, hasker⟩ := htask
      simp only [runTask] at h
      split at h
      · cases h
      · obtain rfl := Option.some.inj h
        rcases hasker with rfl | rfl
        · exact ⟨rfl, by simp, by simp, .inl rfl, rfl, rfl, rfl⟩
        · refine ⟨rfl, fun next hnext => ?_, by simp, .inl rfl, rfl, rfl, rfl⟩
          obtain rfl := Option.some.inj hnext
          exact rfl
  | sendAllPhotos asker =>
      obtain rfl : asker = N := htask
      obtain ⟨photos, hphotos, h⟩ := Option.bind_eq_some_iff.mp h
      obtain ⟨-, h⟩ := Option.ite_none_right_eq_some.mp h
      obtain rfl := Option.some.inj h
      exact ⟨by simp [Task.registers], by simp, by simp, .inr ⟨rfl, photos, rfl, mapM_files hphotos⟩,
        rfl, rfl, rfl⟩
  | _ => exact htask.elim

-- The new peer stores the photos it is sent.
theorem runTask_replicates {online : DataR → Bool} {photo_id : UInt32} {r : Replica} {task : Task}
    {e : Effect} (h : runTask online photo_id r task = some e) (htask : task.Replicates) :
    e.Local r ∧ ∀ next, e.next = some next → next.Replicates := by
  cases task with
  | insertPhoto K size bytes isPeer =>
      refine ⟨runTask_local h trivial, fun next hnext => ?_⟩
      obtain rfl := Option.some.inj h
      obtain rfl := Option.some.inj hnext
      exact htask
  | writePhoto K size bytes isPeer =>
      refine ⟨runTask_local h trivial, fun next hnext => ?_⟩
      obtain rfl : isPeer = true := htask
      simp only [runTask] at h
      split at h
      · cases h
      · obtain rfl := Option.some.inj h
        cases hnext
  | _ => exact htask.elim

variable {s t : Cluster}

theorem packet_registers (packet : Packet) : packet.task.registers = packet.registers := by
  cases packet <;> rfl

theorem packet_asksPhotos (packet : Packet) : packet.task.asksPhotos = packet.asksPhotos := by
  cases packet with
  | newPeer K asker => cases asker <;> rfl
  | _ => rfl

theorem call_registers {request : Call} {task : Task} (h : request.task = some task) :
    task.registers = 0 ∧ task.asksPhotos = 0 := by
  cases request with
  | addPhoto message bytes =>
      obtain ⟨name, -, rfl⟩ := Option.map_eq_some_iff.mp h
      exact ⟨rfl, rfl⟩
  | addKeyword message =>
      obtain rfl := Option.some.inj h
      exact ⟨rfl, rfl⟩
  | deletePhoto message =>
      obtain rfl := Option.some.inj h
      exact ⟨rfl, rfl⟩

theorem Task.Replicates.registers {task : Task} (h : task.Replicates) :
    task.registers = 0 ∧ task.asksPhotos = 0 := by
  cases task <;> first | exact ⟨rfl, rfl⟩ | exact h.elim

theorem Packet.Replicates.registers {packet : Packet} (h : packet.Replicates) :
    packet.registers = 0 ∧ packet.asksPhotos = 0 := by
  cases packet with
  | photo K bytes => exact ⟨rfl, rfl⟩
  | _ => exact h.elim

-- A list of peers only grows at its end.
theorem Cluster.Uploads.peer_list_append (hs : s.Uploads old N) (hN : old N = false) {p : DataR}
    (hp : old p = true) (n : Nat) :
    ∃ rest, (s.replica p).peer_list ++ List.replicate n N = p :: rest ∧
      rest.count N = (s.replica p).peer_list.tail.count N + n ∧
      (∀ q, old q = true → rest.count q = if q = p then 0 else 1) ∧
      ∀ q ∈ rest, old q = true ∨ q = N := by
  obtain ⟨rest, hlist, hcount, hmem⟩ := hs.peer_list p hp
  refine ⟨rest ++ List.replicate n N, by rw [hlist, List.cons_append], ?_, fun q hq => ?_, fun q hq => ?_⟩
  · rw [hlist, List.tail_cons, List.count_append, List.count_replicate_self]
  · have hne : q ≠ N := fun h => by rw [h, hN] at hq; cases hq
    rw [List.count_append, hcount q hq, List.count_replicate]
    simp [Ne.symm hne]
  · rcases List.mem_append.mp hq with hold | hnew
    · exact hmem q hold
    · exact .inr (List.eq_of_mem_replicate hnew)

-- What is left to show of a part of a handler: where its peer's list grows, and that
-- what follows and what is sent are of the same kind.
theorem uploads_apply {i : Nat} {p : DataR} {task : Task} {threads : List (DataR × Task)} {e : Effect}
    (hs : s.Uploads old N) (hN : old N = false) (hpick : pick s.threads i = some ((p, task), threads))
    (hlist : e.replica.peer_list = (s.replica p).peer_list ++ List.replicate task.registers N)
    (hself : p = N → task.registers = 0)
    (hnext : ∀ next, e.next = some next →
      old p = true ∧ next.Uploads old N ∨ p = N ∧ s.listening N = true ∧ next.Replicates)
    (hsent : ∀ q packet, (q, packet) ∈ e.sent →
      (old q = true ∨ q = N) ∧ s.listening q = true ∧ packet.Replicates)
    (hmail : ∀ a ∈ e.mail, a.1 = N) (hreports : e.reports = [])
    (hregisters : e.next.elim 0 Task.registers = 0)
    (hasks : e.next.elim 0 Task.asksPhotos + e.mail.length = task.asksPhotos) :
    (s.apply p threads e).Uploads old N ∧ s.SameTellings old N (s.apply p threads e) := by
  refine ⟨⟨fun q hq => ?_, fun q other hmem => ?_, fun q packet hmem => ?_, fun a hmem => ?_, ?_⟩, ?_, ?_,
    fun q hq => ?_⟩
  · rcases eq_or_ne q p with rfl | hqp
    · obtain ⟨rest, hrest, -, hcount, hin⟩ := hs.peer_list_append hN hq task.registers
      exact ⟨rest, by rw [apply_replica_self, hlist, hrest], hcount, hin⟩
    · rw [apply_replica_of_ne hqp]
      exact hs.peer_list q hq
  · rcases List.mem_append.mp hmem with hold | hnew
    · exact hs.threads q other (pick_rest_subset hpick hold)
    · obtain ⟨next, hnext', heq⟩ := Option.map_eq_some_iff.mp (Option.mem_toList.mp hnew)
      obtain ⟨rfl, rfl⟩ := Prod.mk.inj heq
      exact hnext next hnext'
  · rcases List.mem_append.mp hmem with hold | hnew
    · exact hs.packets q packet hold
    · obtain ⟨hq, honline, hpacket⟩ := hsent q packet hnew
      refine hq.imp (fun hq => ⟨hq, ?_⟩) (fun hq => ⟨hq, hq ▸ honline, hpacket⟩)
      cases packet with
      | photo K bytes => trivial
      | _ => exact hpacket.elim
  · rcases List.mem_append.mp hmem with hold | hnew
    · exact hs.mail a hold
    · exact hmail a hnew
  · simp [Cluster.apply, hs.reports, hreports]
  · rcases eq_or_ne N p with rfl | hNp
    · rw [apply_replica_self, hlist, hself rfl, List.replicate_zero, List.append_nil]
    · rw [apply_replica_of_ne hNp]
  · have htokens := tokens_apply (fun a => a.2.asksPhotos) (fun a => a.2.asksPhotos) e hpick
    have hzero : total (fun a => a.2.asksPhotos) e.sent = 0 :=
      total_eq_zero _ (fun a ha => (hsent a.1 a.2 ha).2.2.registers.2)
    have hlength : (s.apply p threads e).mail.length = s.mail.length + e.mail.length :=
      List.length_append
    simp only [Cluster.asking, hlength]
    change _ + task.asksPhotos = _ + (_ + e.next.elim 0 Task.asksPhotos) at htokens
    omega
  · have htokens := tokens_apply (fun a => if a.1 = q then a.2.registers else 0)
      (fun a => if a.1 = q then a.2.registers else 0) e hpick
    have hzero : total (fun a => if a.1 = q then a.2.registers else 0) e.sent = 0 :=
      total_eq_zero _ (fun a ha => by rw [(hsent a.1 a.2 ha).2.2.registers.1, ite_self])
    have hgone : e.next.elim 0 (fun next => if p = q then next.registers else 0) = 0 := by
      by_cases hpq : p = q
      · simpa only [if_pos hpq] using hregisters
      · cases e.next <;> simp [hpq]
    rw [hzero, hgone] at htokens
    simp only [Cluster.registered, Cluster.registering]
    rcases eq_or_ne q p with rfl | hqp
    · obtain ⟨rest, hrest, hcount, -⟩ := hs.peer_list_append hN hq task.registers
      rw [apply_replica_self, hlist, hrest, List.tail_cons, hcount]
      simp only [if_true] at htokens ⊢
      omega
    · rw [apply_replica_of_ne hqp]
      simp only [if_neg (Ne.symm hqp)] at htokens
      omega

theorem uploads_run {i : Nat} (hs : s.Uploads old N) (hN : old N = false)
    (hprobe : ∀ a ∈ s.threads[i]?, ∀ K ∈ a.2.probed, s.listening K = true)
    (h : s.step (.run i) = some t) :
    t.Uploads old N ∧ s.SameTellings old N t := by
  obtain ⟨⟨⟨p, task⟩, threads⟩, hpick, h⟩ := Option.bind_eq_some_iff.mp h
  obtain ⟨e, hrun, h⟩ := Option.bind_eq_some_iff.mp h
  obtain rfl := Option.some.inj h
  rcases hs.threads p task (pick_mem hpick) with ⟨hp, htask⟩ | ⟨rfl, hon, htask⟩
  · obtain ⟨rest, hlist, -, hmem⟩ := hs.peer_list p hp
    have he : e.Uploads old N s.listening (s.replica p) task :=
      runTask_uploads hrun htask (by rw [hlist]; exact hmem) (hprobe _ (pick_get hpick))
    refine uploads_apply hs hN hpick he.peer_list (fun hpN => ?_)
      (fun next hnext => .inl ⟨hp, he.next next hnext⟩) he.sent (fun a ha => ?_) he.reports he.registers
      he.asksPhotos
    · rw [hpN, hN] at hp
      cases hp
    rcases he.mail with hmail | ⟨-, photos, hmail, -⟩
    · rw [hmail] at ha
      cases ha
    · rw [hmail] at ha
      rw [List.mem_singleton.mp ha]
  · obtain ⟨he, hnext⟩ := runTask_replicates hrun htask
    have hnone : e.next.elim 0 Task.registers = 0 ∧ e.next.elim 0 Task.asksPhotos = 0 := by
      cases hnext' : e.next with
      | none => exact ⟨rfl, rfl⟩
      | some next => exact (hnext next hnext').registers
    refine uploads_apply hs hN hpick ?_ (fun _ => htask.registers.1) (fun next h => .inr ⟨rfl, hon, hnext next h⟩)
      (fun q packet hsent => ?_) (fun a ha => ?_) he.reports hnone.1 ?_
    · rw [htask.registers.1, he.peer_list, List.replicate_zero, List.append_nil]
    · rw [he.sent] at hsent
      cases hsent
    · rw [he.mail] at ha
      cases ha
    · rw [hnone.2, he.mail, htask.registers.2]
      rfl

def Call.addsPhoto : Call → Bool
  | .addPhoto _ _ => true
  | _ => false

-- Clients upload at peers that have joined.
def ClusterAction.Uploads (N : DataR) : ClusterAction → Prop
  | .call p request => p ≠ N ∧ request.addsPhoto = true
  | _ => True

theorem uploads_step {a : ClusterAction} (hs : s.Uploads old N) (hN : old N = false)
    (hlistening : ∀ p, p ≠ N → s.listening p = old p) (ha : a.Uploads N)
    (hprobe : ∀ i, a = .run i →
      ∀ a ∈ s.threads[i]?, ∀ K ∈ a.2.probed, s.listening K = true)
    (h : s.step a = some t) :
    t.Uploads old N ∧ s.SameTellings old N t := by
  cases a with
  | call p request =>
      have hasks := tokens_call (fun a => a.2.asksPhotos) (fun a => a.2.asksPhotos)
        (fun p _ _ htask => (call_registers htask).2) h
      have hregs := fun q => tokens_call (fun a => if a.1 = q then a.2.registers else 0)
        (fun a => if a.1 = q then a.2.registers else 0)
        (fun p _ _ htask => by simp only [(call_registers htask).1, ite_self]) h
      simp only [Cluster.step] at h
      split at h
      case isFalse => cases h
      case isTrue hp =>
        obtain ⟨task, htask, rfl⟩ := Option.map_eq_some_iff.mp h
        refine ⟨⟨hs.peer_list, fun q other hmem => ?_, hs.packets, hs.mail, hs.reports⟩,
          rfl, congrArg (· + s.mail.length) hasks,
          fun q _ => congrArg ((s.replica q).peer_list.tail.count N + ·) (hregs q)⟩
        rcases List.mem_append.mp hmem with hold | hnew
        · exact hs.threads q other hold
        · obtain ⟨rfl, rfl⟩ := Prod.mk.inj (List.mem_singleton.mp hnew)
          cases request with
          | addPhoto message bytes =>
              obtain ⟨name, -, rfl⟩ := Option.map_eq_some_iff.mp htask
              exact .inl ⟨hlistening q ha.1 ▸ hp, trivial⟩
          | addKeyword message => cases ha.2
          | deletePhoto message => cases ha.2
  | run i => exact uploads_run hs hN (hprobe i rfl) h
  | deliver i =>
      have hasks := tokens_deliver (fun a => a.2.asksPhotos) (fun a => a.2.asksPhotos)
        (fun p packet => packet_asksPhotos packet) h
      have hregs := fun q => tokens_deliver (fun a => if a.1 = q then a.2.registers else 0)
        (fun a => if a.1 = q then a.2.registers else 0)
        (fun p packet => by simp only [packet_registers]) h
      obtain ⟨⟨⟨p, packet⟩, packets⟩, hpick, h⟩ := Option.bind_eq_some_iff.mp h
      obtain rfl := Option.some.inj h
      refine ⟨⟨hs.peer_list, fun q other hmem => ?_, fun q other hmem => ?_, hs.mail, hs.reports⟩,
        rfl, congrArg (· + s.mail.length) hasks,
        fun q _ => congrArg ((s.replica q).peer_list.tail.count N + ·) (hregs q)⟩
      · rcases List.mem_append.mp hmem with hold | hnew
        · exact hs.threads q other hold
        · obtain ⟨rfl, rfl⟩ := Prod.mk.inj (List.mem_singleton.mp hnew)
          rcases hs.packets q packet (pick_mem hpick) with ⟨hq, hpacket⟩ | ⟨hq, hon, hpacket⟩
          · refine .inl ⟨hq, ?_⟩
            cases packet <;> exact hpacket
          · refine .inr ⟨hq, hon, ?_⟩
            cases packet with
            | photo K bytes => rfl
            | _ => exact hpacket.elim
      · exact hs.packets q other (pick_rest_subset hpick hmem)

end Uploads

section Stage

-- How far the new peer has come: what the gateway does with its type 0, then the
-- peers it still has to tell before it listens.
inductive JoinStage
  | apart
  | sent
  | appending
  | added (l : List DataR)
  | replied (l : List DataR)
  | telling (rest : List DataR)
  | waiting (rest : List DataR)
  | told (rest : List DataR)
  | listening

namespace JoinStage

variable (old : DataR → Bool) (N : DataR)

def newPeers : JoinStage → List DataR
  | .sent => [N]
  | _ => []

def lists : JoinStage → List (DataR × List DataR)
  | .replied l => [(N, l ++ [N])]
  | _ => []

def joiners : JoinStage → List (DataR × Joiner)
  | .apart => []
  | .telling rest => [(N, .notify rest false)]
  | .waiting rest => [(N, .await rest)]
  | .told rest => [(N, .notify rest true)]
  | .listening => []
  | _ => [(N, .asked)]

def listens : JoinStage → Bool
  | .listening => true
  | _ => false

def rest : JoinStage → List DataR
  | .telling rest => rest
  | .waiting rest => rest
  | .told rest => rest
  | _ => []

-- How often an old peer may have been told.
def tellings : JoinStage → Nat
  | .telling _ => 1
  | .waiting _ => 1
  | .told _ => 1
  | .listening => 1
  | _ => 0

def waits : JoinStage → Nat
  | .waiting _ => 1
  | _ => 0

def hasPhotos : JoinStage → Bool
  | .told _ => true
  | .listening => true
  | _ => false

-- A list of all old peers, each once.
def Roster (l : List DataR) : Prop := l.Nodup ∧ ∀ q, q ∈ l ↔ old q = true

def Told (g : Gateway) : JoinStage → Prop
  | .apart => g.task = .idle ∧ Roster old g.peer_list
  | .sent => g.task = .idle ∧ Roster old g.peer_list
  | .appending => g.task = .append N ∧ Roster old g.peer_list
  | .added l => Roster old l ∧ g.peer_list = l ++ [N] ∧
      (g.task = .lockProbe N ∨ g.list_lock = true ∧ ∃ rest, g.task = .probe N rest)
  | .replied l => Roster old l ∧ g.task = .idle
  | .telling rest => Roster old rest ∧ g.task = .idle
  | .waiting rest => (∀ q ∈ rest, old q = true) ∧ g.task = .idle
  | .told rest => (∀ q ∈ rest, old q = true) ∧ g.task = .idle
  | .listening => g.task = .idle

-- The ring of the new peer: its root is the new peer itself.
def Own (peer_list : List DataR) : JoinStage → Prop
  | .telling _ => peer_list.head? = some N
  | .waiting _ => peer_list.head? = some N
  | .told _ => peer_list.head? = some N
  | .listening => True
  | _ => peer_list = []

end JoinStage

-- The join of `N` stands at this stage.
structure Network.Joining (old : DataR → Bool) (N : DataR) (s : Network) (stage : JoinStage) : Prop where
  newPeers : s.newPeers = stage.newPeers N
  lists : s.lists = stage.lists N
  joiners : s.joiners = stage.joiners N
  gateway : stage.Told old N s.gateway
  own : stage.Own N (s.cluster.replica N).peer_list
  listening : s.cluster.listening = Function.update old N stage.listens
  uploads : s.cluster.Uploads old N
  asking : s.cluster.asking = stage.waits
  registered : ∀ p, old p = true → s.cluster.registered N p + stage.rest.count p ≤ stage.tellings

-- What a step does while `N` joins: the peers go on, the gateway does, or `N` puts
-- itself at the root of its ring, tells a peer, takes the photos in, or listens.
inductive JoinMove (N : DataR) (s t : Network) (a : NetworkAction) : JoinStage → JoinStage → Prop
  | cluster {stage : JoinStage} (b : ClusterAction) (ha : a = .cluster b)
      (h : s.cluster.step b = some t.cluster) : JoinMove N s t a stage stage
  | gateway {stage stage' : JoinStage} (hcluster : t.cluster = s.cluster)
      (hphotos : stage'.hasPhotos = stage.hasPhotos) : JoinMove N s t a stage stage'
  | asked (l peer_list : List DataR)
      (hcluster : t.cluster =
        s.cluster.setReplica N ((s.cluster.replica N).setPeerList peer_list)) :
      JoinMove N s t a (.replied l) (.telling l)
  | first (k : DataR) (rest : List DataR)
      (hcluster : t.cluster = s.cluster.send [(k, .newPeer N (some N))]) :
      JoinMove N s t a (.telling (k :: rest)) (.waiting rest)
  | photos (rest : List DataR) (j : Nat) (K : DataR) (photos : List (Data × List Byte))
      (mail : List (DataR × List (Data × List Byte))) (peer : Peer)
      (hpick : pick s.cluster.mail j = some ((K, photos), mail))
      (hpeer : (s.cluster.replica N).peer.recvPhotos photos = some peer)
      (hcluster : t.cluster =
        { s.cluster.setReplica N ((s.cluster.replica N).setPeer peer) with mail := mail }) :
      JoinMove N s t a (.waiting rest) (.told rest)
  | next (k : DataR) (rest : List DataR)
      (hcluster : t.cluster = s.cluster.send [(k, .newPeer N none)]) :
      JoinMove N s t a (.told (k :: rest)) (.told rest)
  | listen {stage : JoinStage} (hstage : stage = .telling [] ∨ stage = .told [])
      (hcluster : t.cluster = s.cluster.listen N) : JoinMove N s t a stage .listening

def GatewayTask.added : GatewayTask → Bool
  | .lockProbe _ => true
  | _ => false

-- One peer joins while clients upload at the others. The gateway gives a client a peer
-- at any moment but between putting the new peer into the list and locking it.
def Network.OneJoin (N : DataR) (s : Network) : NetworkAction → Prop
  | .cluster a => a.Uploads N
  | .start K => K = N
  | .assign => s.gateway.task.added = false
  | _ => True

variable {old : DataR → Bool} {N : DataR} {s t : Network} {stage : JoinStage}

theorem joining_cluster {a : ClusterAction} {c : Cluster} (hN : old N = false)
    (hs : s.Joining old N stage) (ha : a.Uploads N) (hprobe : s.ProbesListening (.cluster a))
    (h : s.cluster.step a = some c) : ({ s with cluster := c } : Network).Joining old N stage := by
  have hlistening : ∀ p, p ≠ N → s.cluster.listening p = old p := fun p hp => by
    rw [hs.listening, Function.update_of_ne hp]
  obtain ⟨huploads, hsame⟩ := uploads_step hs.uploads hN hlistening ha
    (fun i hi => by rw [hi] at hprobe; exact hprobe) h
  refine ⟨hs.newPeers, hs.lists, hs.joiners, hs.gateway, ?_, ?_, huploads, hsame.asking.trans hs.asking,
    fun p hp => ?_⟩
  · exact hsame.own ▸ hs.own
  · exact (listening_step h).trans hs.listening
  · rw [hsame.registered p hp]
    exact hs.registered p hp

theorem joining_start (hs : s.Joining old N stage) (h : s.step (.start N) = some t) :
    JoinMove N s t (.start N) stage .sent ∧ t.Joining old N .sent := by
  simp only [Network.step] at h
  split at h
  · cases h
  case isFalse hnew =>
    obtain rfl := Option.some.inj h
    rw [hs.listening, hs.joiners] at hnew
    cases stage with
    | apart =>
        refine ⟨.gateway rfl rfl, ?_, hs.lists, ?_, hs.gateway, hs.own, hs.listening, hs.uploads, hs.asking,
          hs.registered⟩
        · rw [hs.newPeers]
          rfl
        · rw [hs.joiners]
          rfl
    | _ => exact absurd (by simp [JoinStage.joiners, JoinStage.listens]) hnew

theorem joining_register {i : Nat} (hs : s.Joining old N stage) (h : s.step (.register i) = some t) :
    JoinMove N s t (.register i) stage .appending ∧ t.Joining old N .appending := by
  obtain ⟨⟨K, newPeers⟩, hpick, h⟩ := Option.bind_eq_some_iff.mp h
  rw [hs.newPeers] at hpick
  cases stage with
  | sent =>
      obtain ⟨rfl, rfl⟩ := pick_singleton hpick
      dsimp only at h
      split at h
      · obtain rfl := Option.some.inj h
        exact ⟨.gateway rfl rfl, rfl, hs.lists, hs.joiners, ⟨rfl, hs.gateway.2⟩, hs.own, hs.listening,
          hs.uploads, hs.asking, hs.registered⟩
      · cases h
  | _ => exact absurd hpick pick_nil

theorem send_nil (s : Cluster) : s.send [] = s := by
  simp [Cluster.send]

-- The gateway adds the new peer, asks the others and replies.
theorem runGateway_told {online : DataR → Bool} {g : Gateway} {e : GatewayEffect}
    (hstage : stage.Told old N g) (hprobe : ∀ K ∈ g.task.probed, online K = true)
    (h : runGateway online g = some e) :
    e.sent = [] ∧ ∃ l : List DataR, (JoinStage.added l).Told old N e.gateway ∧ e.lists = [] ∧
        (stage = .appending ∨ stage = .added l) ∨
      (JoinStage.replied l).Told old N e.gateway ∧ e.lists = [(N, l ++ [N])] ∧ stage = .added l := by
  obtain ⟨peer_list, list_lock, task⟩ := g
  cases stage with
  | appending =>
      obtain ⟨rfl, hroster⟩ := hstage
      simp only [runGateway] at h
      split at h
      · cases h
      · obtain rfl := Option.some.inj h
        exact ⟨rfl, peer_list, .inl ⟨⟨hroster, rfl, .inl rfl⟩, rfl, .inl rfl⟩⟩
  | added l =>
      obtain ⟨hroster, rfl, rfl | ⟨rfl, rest, rfl⟩⟩ := hstage
      · simp only [runGateway] at h
        split at h
        · cases h
        · obtain rfl := Option.some.inj h
          exact ⟨rfl, l, .inl ⟨⟨hroster, rfl, .inr ⟨rfl, _, rfl⟩⟩, rfl, .inr rfl⟩⟩
      · rcases rest with _ | ⟨k, _ | ⟨k', rest⟩⟩
        · obtain rfl := Option.some.inj h
          exact ⟨rfl, l, .inr ⟨⟨hroster, rfl⟩, rfl, rfl⟩⟩
        · obtain rfl := Option.some.inj h
          exact ⟨rfl, l, .inr ⟨⟨hroster, rfl⟩, rfl, rfl⟩⟩
        · have hk := hprobe k rfl
          simp only [runGateway, hk, if_true] at h
          obtain rfl := Option.some.inj h
          exact ⟨rfl, l, .inl ⟨⟨hroster, rfl, .inr ⟨rfl, _, rfl⟩⟩, rfl, .inr rfl⟩⟩
  | apart =>
      obtain ⟨rfl, -⟩ := hstage
      cases h
  | sent =>
      obtain ⟨rfl, -⟩ := hstage
      cases h
  | listening =>
      obtain rfl : task = .idle := hstage
      cases h
  | _ =>
      obtain ⟨-, rfl⟩ := hstage
      cases h

theorem joining_gateway (hs : s.Joining old N stage) (hprobe : s.ProbesListening .gateway)
    (h : s.step .gateway = some t) :
    ∃ stage', JoinMove N s t .gateway stage stage' ∧ t.Joining old N stage' := by
  obtain ⟨e, he, h⟩ := Option.bind_eq_some_iff.mp h
  obtain rfl := Option.some.inj h
  obtain ⟨hsent, l, ⟨htold, hlists, rfl | rfl⟩ | ⟨htold, hlists, rfl⟩⟩ :=
    runGateway_told hs.gateway hprobe he
  · refine ⟨.added l, ?_⟩
    rw [hsent, send_nil, hlists, List.append_nil]
    exact ⟨.gateway rfl rfl, hs.newPeers, hs.lists, hs.joiners, htold, hs.own, hs.listening, hs.uploads, hs.asking,
      hs.registered⟩
  · refine ⟨.added l, ?_⟩
    rw [hsent, send_nil, hlists, List.append_nil]
    exact ⟨.gateway rfl rfl, hs.newPeers, hs.lists, hs.joiners, htold, hs.own, hs.listening, hs.uploads, hs.asking,
      hs.registered⟩
  · refine ⟨.replied l, ?_⟩
    rw [hsent, send_nil, hs.lists, hlists]
    exact ⟨.gateway rfl rfl, hs.newPeers, rfl, hs.joiners, htold, hs.own, hs.listening, hs.uploads, hs.asking,
      hs.registered⟩

theorem roster_rotate {root : DataR} {rest : List DataR} (h : JoinStage.Roster old (root :: rest)) :
    JoinStage.Roster old (rest ++ [root]) := by
  have hperm := List.perm_append_singleton root rest
  exact ⟨hperm.nodup_iff.mpr h.1, fun q => hperm.mem_iff.trans (h.2 q)⟩

theorem assignPeer_told {online : DataR → Bool} {g g' : Gateway} (hstage : stage.Told old N g)
    (hone : g.task.added = false) (h : assignPeer online g = some g') :
    stage.Told old N g' := by
  obtain ⟨peer_list, list_lock, task⟩ := g
  simp only [assignPeer] at h
  split at h
  · cases h
  case isFalse hlock =>
    cases peer_list with
    | nil =>
        obtain rfl := Option.some.inj h
        exact hstage
    | cons root rest =>
        obtain rfl := Option.some.inj h
        cases stage with
        | apart => exact ⟨hstage.1, roster_rotate hstage.2⟩
        | sent => exact ⟨hstage.1, roster_rotate hstage.2⟩
        | appending => exact ⟨hstage.1, roster_rotate hstage.2⟩
        | added l =>
            obtain ⟨-, -, htask | ⟨hlocked, -⟩⟩ := hstage
            · rw [htask] at hone
              cases hone
            · exact absurd hlocked hlock
        | _ => exact hstage

theorem joining_assign (hs : s.Joining old N stage) (hone : s.OneJoin N .assign)
    (h : s.step .assign = some t) :
    JoinMove N s t .assign stage stage ∧ t.Joining old N stage := by
  obtain ⟨g, hg, rfl⟩ := Option.map_eq_some_iff.mp h
  refine ⟨.gateway rfl rfl, hs.newPeers, hs.lists, hs.joiners, assignPeer_told hs.gateway hone hg, hs.own,
    hs.listening, hs.uploads, hs.asking, hs.registered⟩

-- A peer of the list is told.
theorem uploads_send {c : Cluster} {k : DataR} {asker : Option DataR} (hc : c.Uploads old N)
    (hk : old k = true) (hasker : asker = none ∨ asker = some N) :
    (c.send [(k, .newPeer N asker)]).Uploads old N ∧
      (c.send [(k, .newPeer N asker)]).asking = c.asking + asker.elim 0 (fun _ => 1) ∧
      ∀ p, (c.send [(k, .newPeer N asker)]).registered N p =
        c.registered N p + if k = p then 1 else 0 := by
  refine ⟨⟨hc.peer_list, hc.threads, fun q packet hmem => ?_, hc.mail, hc.reports⟩, ?_, fun p => ?_⟩
  · rcases List.mem_append.mp hmem with hold | hnew
    · exact hc.packets q packet hold
    · obtain ⟨rfl, rfl⟩ := Prod.mk.inj (List.mem_singleton.mp hnew)
      exact .inl ⟨hk, rfl, hasker⟩
  · rcases hasker with rfl | rfl
    · simp [Cluster.asking, Cluster.tokens, Cluster.send, Packet.asksPhotos]
    · simp [Cluster.asking, Cluster.tokens, Cluster.send, Packet.asksPhotos]
      omega
  · simp only [Cluster.registered, Cluster.registering, Cluster.tokens, Cluster.send, total_append,
      total_cons, total_nil, Packet.registers]
    omega

-- Only the new peer's own replica and the photos sent to it change.
theorem uploads_setReplica {c : Cluster} {r : Replica} {mail : List (DataR × List (Data × List Byte))}
    (hN : old N = false) (hc : c.Uploads old N) (hmail : ∀ a ∈ mail, a ∈ c.mail) :
    ({ c.setReplica N r with mail := mail } : Cluster).Uploads old N ∧
      ∀ p, old p = true →
        ({ c.setReplica N r with mail := mail } : Cluster).registered N p = c.registered N p := by
  have hne : ∀ p, old p = true → p ≠ N := fun p hp h => by
    rw [h, hN] at hp
    cases hp
  have hsame : ∀ p, old p = true → (c.setReplica N r).replica p = c.replica p := fun p hp =>
    Function.update_of_ne (hne p hp) ..
  refine ⟨⟨fun p hp => ?_, hc.threads, hc.packets, fun a ha => hc.mail a (hmail a ha), hc.reports⟩,
    fun p hp => ?_⟩
  · exact hsame p hp ▸ hc.peer_list p hp
  · exact congrArg (fun r => r.peer_list.tail.count N + c.registering p) (hsame p hp)

theorem joining_asked {j : Nat} {l : List DataR} (a : NetworkAction) (hN : old N = false)
    (hs : s.Joining old N (.replied l)) (h : s.runJoiner N [] j .asked = some t) :
    JoinMove N s t a (.replied l) (.telling l) ∧ t.Joining old N (.telling l) := by
  obtain ⟨⟨⟨other, d_recv⟩, lists⟩, hpick, h⟩ := Option.bind_eq_some_iff.mp h
  obtain ⟨root, hroot, h⟩ := Option.bind_eq_some_iff.mp h
  rw [hs.lists] at hpick
  obtain ⟨hlist, rfl⟩ := pick_singleton hpick
  obtain ⟨rfl, rfl⟩ := Prod.mk.inj hlist
  have hown : (s.cluster.replica other).peer_list = [] := hs.own
  rw [hown, List.nil_append, List.getLast?_concat, Option.some.injEq] at hroot
  obtain rfl := hroot
  rw [if_pos rfl, hown, List.nil_append, List.dropLast_concat] at h
  obtain rfl := Option.some.inj h
  obtain ⟨huploads, hregistered⟩ := uploads_setReplica
    (r := (s.cluster.replica other).setPeerList (other :: l)) hN hs.uploads (fun a ha => ha)
  refine ⟨.asked l _ rfl, hs.newPeers, rfl, rfl, hs.gateway, ?_, hs.listening, huploads, hs.asking,
    fun p hp => ?_⟩
  · simp [JoinStage.Own, Cluster.setReplica, Replica.setPeerList]
  · have hnone := hs.registered p hp
    have honce := List.nodup_iff_count_le_one.mp hs.gateway.1.1 p
    have hsame := hregistered p hp
    simp only [JoinStage.rest, JoinStage.tellings, List.count_nil] at hnone ⊢
    change _ + _ ≤ 1
    rw [show (s.cluster.setReplica other ((s.cluster.replica other).setPeerList (other :: l))).registered
      other p = s.cluster.registered other p from hsame]
    omega

theorem joining_listen (hs : s.Joining old N stage)
    (hstage : stage = .telling [] ∨ stage = .told []) :
    ({ s with cluster := s.cluster.listen N, joiners := [] } : Network).Joining old N .listening := by
  have hlistening : (s.cluster.listen N).listening = Function.update old N true := by
    have hold := hs.listening
    simp only [Cluster.listen, hold, Function.update_idem]
  have hon : (s.cluster.listen N).listening N = true := by
    rw [hlistening, Function.update_self]
  have huploads : (s.cluster.listen N).Uploads old N :=
    ⟨hs.uploads.peer_list,
      fun p task hmem => (hs.uploads.threads p task hmem).imp_right (fun h => ⟨h.1, hon, h.2.2⟩),
      fun p packet hmem => (hs.uploads.packets p packet hmem).imp_right (fun h => ⟨h.1, hon, h.2.2⟩),
      hs.uploads.mail, hs.uploads.reports⟩
  rcases hstage with rfl | rfl
  · exact ⟨hs.newPeers, hs.lists, rfl, hs.gateway.2, trivial, hlistening, huploads, hs.asking,
      hs.registered⟩
  · exact ⟨hs.newPeers, hs.lists, rfl, hs.gateway.2, trivial, hlistening, huploads, hs.asking,
      hs.registered⟩

theorem count_told {k p : DataR} {rest : List DataR} {n m : Nat}
    (h : n + (k :: rest).count p ≤ m) : n + (if k = p then 1 else 0) + rest.count p ≤ m := by
  rw [List.count_cons] at h
  simp only [beq_iff_eq] at h
  omega

theorem joining_telling {k : DataR} {rest : List DataR}
    (hs : s.Joining old N (.telling (k :: rest))) :
    ({ s with
      cluster := s.cluster.send [(k, .newPeer N (some N))]
      joiners := [(N, .await rest)] } : Network).Joining old N (.waiting rest) := by
  obtain ⟨⟨hnodup, hroster⟩, htask⟩ := hs.gateway
  obtain ⟨huploads, hasking, hregistered⟩ :=
    uploads_send hs.uploads ((hroster k).mp List.mem_cons_self) (.inr rfl)
  refine ⟨hs.newPeers, hs.lists, rfl, ⟨fun q hq => ?_, htask⟩, hs.own, hs.listening, huploads, ?_,
    fun p hp => ?_⟩
  · exact (hroster q).mp (List.mem_cons_of_mem k hq)
  · rw [hasking, hs.asking]
    rfl
  · rw [hregistered]
    exact count_told (hs.registered p hp)

theorem joining_told {k : DataR} {rest : List DataR} (hs : s.Joining old N (.told (k :: rest))) :
    ({ s with
      cluster := s.cluster.send [(k, .newPeer N none)]
      joiners := [(N, .notify rest true)] } : Network).Joining old N (.told rest) := by
  obtain ⟨hrest, htask⟩ := hs.gateway
  obtain ⟨huploads, hasking, hregistered⟩ :=
    uploads_send hs.uploads (hrest k List.mem_cons_self) (.inl rfl)
  refine ⟨hs.newPeers, hs.lists, rfl, ⟨fun q hq => ?_, htask⟩, hs.own, hs.listening, huploads, ?_,
    fun p hp => ?_⟩
  · exact hrest q (List.mem_cons_of_mem k hq)
  · rw [hasking, hs.asking]
    rfl
  · rw [hregistered]
    exact count_told (hs.registered p hp)

theorem joining_await {j : Nat} {rest : List DataR} (a : NetworkAction) (hN : old N = false)
    (hs : s.Joining old N (.waiting rest)) (h : s.runJoiner N [] j (.await rest) = some t) :
    JoinMove N s t a (.waiting rest) (.told rest) ∧ t.Joining old N (.told rest) := by
  obtain ⟨⟨⟨other, photos⟩, mail⟩, hpick, h⟩ := Option.bind_eq_some_iff.mp h
  obtain ⟨peer, hpeer, h⟩ := Option.bind_eq_some_iff.mp h
  split at h
  case isFalse => cases h
  case isTrue =>
    obtain rfl := Option.some.inj h
    obtain ⟨huploads, hregistered⟩ := uploads_setReplica
      (r := (s.cluster.replica N).setPeer peer) hN hs.uploads (fun a ha => pick_rest_subset hpick ha)
    refine ⟨.photos rest j other photos mail peer hpick hpeer rfl, hs.newPeers, hs.lists, rfl, hs.gateway,
      ?_, hs.listening, huploads, ?_, fun p hp => ?_⟩
    · have hown : (s.cluster.replica N).peer_list.head? = some N := hs.own
      simpa [JoinStage.Own, Cluster.setReplica, Replica.setPeer] using hown
    · have hasking := hs.asking
      have hlength := (pick_perm hpick).length_eq
      simp only [Cluster.asking, JoinStage.waits, List.length_cons] at hasking hlength ⊢
      change s.cluster.tokens _ _ + mail.length = 0
      omega
    · rw [hregistered p hp]
      exact hs.registered p hp

theorem joining_join {i j : Nat} (hN : old N = false) (hs : s.Joining old N stage)
    (h : s.step (.join i j) = some t) :
    ∃ stage', JoinMove N s t (.join i j) stage stage' ∧ t.Joining old N stage' := by
  obtain ⟨⟨⟨K, joiner⟩, joiners⟩, hpick, h⟩ := Option.bind_eq_some_iff.mp h
  rw [hs.joiners] at hpick
  cases stage with
  | apart => exact absurd hpick pick_nil
  | listening => exact absurd hpick pick_nil
  | replied l =>
      obtain ⟨heq, rfl⟩ := pick_singleton hpick
      obtain ⟨rfl, rfl⟩ := Prod.mk.inj heq
      exact ⟨_, joining_asked _ hN hs h⟩
  | waiting rest =>
      obtain ⟨heq, rfl⟩ := pick_singleton hpick
      obtain ⟨rfl, rfl⟩ := Prod.mk.inj heq
      exact ⟨_, joining_await _ hN hs h⟩
  | telling rest =>
      obtain ⟨heq, rfl⟩ := pick_singleton hpick
      obtain ⟨rfl, rfl⟩ := Prod.mk.inj heq
      cases rest with
      | nil =>
          obtain rfl := Option.some.inj h
          exact ⟨_, .listen (.inl rfl) rfl, joining_listen hs (.inl rfl)⟩
      | cons k rest =>
          obtain ⟨root, hroot, h⟩ := Option.bind_eq_some_iff.mp h
          obtain rfl := Option.some.inj (hroot.symm.trans hs.own)
          split at h
          · obtain rfl := Option.some.inj h
            exact ⟨_, .first k rest rfl, joining_telling hs⟩
          · cases h
  | told rest =>
      obtain ⟨heq, rfl⟩ := pick_singleton hpick
      obtain ⟨rfl, rfl⟩ := Prod.mk.inj heq
      cases rest with
      | nil =>
          obtain rfl := Option.some.inj h
          exact ⟨_, .listen (.inr rfl) rfl, joining_listen hs (.inr rfl)⟩
      | cons k rest =>
          obtain ⟨root, hroot, h⟩ := Option.bind_eq_some_iff.mp h
          obtain rfl := Option.some.inj (hroot.symm.trans hs.own)
          split at h
          · obtain rfl := Option.some.inj h
            exact ⟨_, .next k rest rfl, joining_told hs⟩
          · cases h
  | _ =>
      obtain ⟨heq, rfl⟩ := pick_singleton hpick
      obtain ⟨rfl, rfl⟩ := Prod.mk.inj heq
      obtain ⟨a, hlist, -⟩ := Option.bind_eq_some_iff.mp h
      rw [hs.lists] at hlist
      exact absurd hlist pick_nil

theorem joining_step {a : NetworkAction} (hN : old N = false) (hs : s.Joining old N stage)
    (hone : s.OneJoin N a) (hprobe : s.ProbesListening a) (h : s.step a = some t) :
    ∃ stage', JoinMove N s t a stage stage' ∧ t.Joining old N stage' := by
  cases a with
  | cluster a =>
      simp only [Network.step] at h
      split at h
      · cases h
      · obtain ⟨c, hc, rfl⟩ := Option.map_eq_some_iff.mp h
        exact ⟨stage, .cluster a rfl hc, joining_cluster hN hs hone hprobe hc⟩
  | start K =>
      obtain rfl : K = N := hone
      exact ⟨_, joining_start hs h⟩
  | join i j => exact joining_join hN hs h
  | register i => exact ⟨_, joining_register hs h⟩
  | report i =>
      obtain ⟨a, hreport, -⟩ := Option.bind_eq_some_iff.mp h
      rw [hs.uploads.reports] at hreport
      exact absurd hreport pick_nil
  | gateway => exact joining_gateway hs hprobe h
  | assign => exact ⟨stage, joining_assign hs hone h⟩

end Stage

end Gallery
