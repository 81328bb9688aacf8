import Gallery.Cluster.Progress
import Gallery.Network.Liveness

namespace Gallery

section Model

-- Whom a handler owes the photos.
def Task.asker : Task → Option DataR
  | .registerPeer _ asker => asker
  | .sendAllPhotos asker => some asker
  | _ => none

def Packet.asker : Packet → Option DataR
  | .newPeer _ asker => asker
  | _ => none

-- The new peers that wait for the photos of `p`.
def Cluster.askers (s : Cluster) (p : DataR) : List DataR :=
  (s.threads.filter (fun a => a.1 == p)).filterMap (fun a => a.2.asker) ++
    (s.packets.filter (fun a => a.1 == p)).filterMap (fun a => a.2.asker)

-- A process that listens, or that is on its way to.
def Network.runs (s : Network) (p : DataR) : Bool :=
  s.cluster.listening p || s.joiners.any (fun a => a.1 == p)

-- The process of `p` ends, with its threads and connections; only its files are left. What it
-- has sent still arrives. Who waits for its photos reads the end of the connection, so that
-- `size` stays 0.
def Network.crash (s : Network) (p : DataR) : Network :=
  let c := s.cluster
  { s with
    cluster := { c with
      replica := Function.update c.replica p ⟨⟨[], (c.replica p).peer.files⟩, [], false,
        (c.replica p).memory⟩
      listening := Function.update c.listening p false
      threads := c.threads.filter (fun a => a.1 != p)
      packets := c.packets.filter (fun a => a.1 != p)
      mail := c.mail.filter (fun a => a.1 != p) ++ (c.askers p).map (fun asker => (asker, [])) }
    lists := s.lists.filter (fun a => a.1 != p)
    joiners := s.joiners.filter (fun a => a.1 != p) }

-- `crashed` only records who has crashed, also of those that have been started anew.
structure FaultyNetwork where
  network : Network
  crashed : List DataR

inductive FaultyAction
  | network (a : NetworkAction)
  | crash (p : DataR)

namespace FaultyNetwork

def step (s : FaultyNetwork) : FaultyAction → Option FaultyNetwork
  | .network a => (s.network.step a).map (fun network => { s with network := network })
  | .crash p => if s.network.runs p then some ⟨s.network.crash p, p :: s.crashed⟩ else none

def start (memory : DataR → Memory) : FaultyNetwork := ⟨Network.start memory, []⟩

-- Nobody is asked before it listens, unless it has crashed.
def ProbesKnown (s : FaultyNetwork) : FaultyAction → Prop
  | .network (.cluster (.run i)) => ∀ a ∈ s.network.cluster.threads[i]?, ∀ K ∈ a.2.probed,
      s.network.cluster.listening K = true ∨ K ∈ s.crashed
  | .network .gateway => ∀ K ∈ s.network.gateway.task.probed,
      s.network.cluster.listening K = true ∨ K ∈ s.crashed
  | _ => True

end FaultyNetwork

end Model

section Blame

-- Whom a thread or a message says to be gone.
def Task.blamed : Task → Option DataR
  | .deletePeer K => some K
  | _ => none

def Packet.blamed : Packet → Option DataR
  | .deletePeer K => some K
  | _ => none

def GatewayTask.blamed : GatewayTask → Option DataR
  | .remove dead _ => some dead
  | .lockTell dead _ => some dead
  | .tell dead _ _ _ => some dead
  | _ => none

-- Only peers of `dead` are said to be gone.
structure Network.BlamesOnly (dead : List DataR) (s : Network) : Prop where
  reports : ∀ p K, (p, K) ∈ s.cluster.reports → K ∈ dead
  threads : ∀ p task, (p, task) ∈ s.cluster.threads → ∀ K ∈ task.blamed, K ∈ dead
  packets : ∀ p packet, (p, packet) ∈ s.cluster.packets → ∀ K ∈ packet.blamed, K ∈ dead
  gateway : ∀ K ∈ s.gateway.task.blamed, K ∈ dead

-- No entry is removed but those of `dead`; the list of a peer of `dead` may be gone.
structure Network.Spares (dead : List DataR) (s t : Network) : Prop where
  gateway : ∀ K ∉ dead, s.gateway.peer_list.count K ≤ t.gateway.peer_list.count K
  replica : ∀ p ∉ dead, ∀ K ∉ dead,
    (s.cluster.replica p).peer_list.count K ≤ (t.cluster.replica p).peer_list.count K

variable {dead : List DataR} {s t u : Network}

theorem Network.Spares.of_eq (hg : t.gateway.peer_list = s.gateway.peer_list)
    (hr : ∀ p, (t.cluster.replica p).peer_list = (s.cluster.replica p).peer_list) : s.Spares dead t :=
  ⟨fun _ _ => hg ▸ le_refl _, fun p _ _ _ => hr p ▸ le_refl _⟩

theorem Network.Spares.trans (h : s.Spares dead t) (h' : t.Spares dead u) : s.Spares dead u :=
  ⟨fun K hK => (h.gateway K hK).trans (h'.gateway K hK),
    fun p hp K hK => (h.replica p hp K hK).trans (h'.replica p hp K hK)⟩

theorem Network.Spares.mono {dead' : List DataR} (h : s.Spares dead t) (hsub : dead ⊆ dead') :
    s.Spares dead' t :=
  ⟨fun K hK => h.gateway K (fun hmem => hK (hsub hmem)),
    fun p hp K hK => h.replica p (fun hmem => hp (hsub hmem)) K (fun hmem => hK (hsub hmem))⟩

theorem Network.BlamesOnly.mono {dead' : List DataR} (h : s.BlamesOnly dead) (hsub : dead ⊆ dead') :
    s.BlamesOnly dead' :=
  ⟨fun p K hmem => hsub (h.reports p K hmem), fun p task hmem K hK => hsub (h.threads p task hmem K hK),
    fun p packet hmem K hK => hsub (h.packets p packet hmem K hK), fun K hK => hsub (h.gateway K hK)⟩

theorem count_erase_other {l : List DataR} {K K' : DataR} (hK : K ∈ dead) (hK' : K' ∉ dead) :
    (l.erase K).count K' = l.count K' :=
  List.count_erase_of_ne (ne_of_mem_of_not_mem hK hK').symm

theorem Task.Local.blamed {task : Task} (h : task.Local) : task.blamed = none := by
  cases task <;> first | rfl | exact h.elim

-- The effect of a part of a handler.
structure Effect.Spares (dead : List DataR) (r : Replica) (e : Effect) : Prop where
  kept : ∀ K ∉ dead, r.peer_list.count K ≤ e.replica.peer_list.count K
  reports : ∀ K ∈ e.reports, K ∈ dead
  next : ∀ task, e.next = some task → task.blamed = none
  sent : ∀ p packet, (p, packet) ∈ e.sent → packet.blamed = none

theorem News.packet_blamed {news : News} {peer : Peer} {packet : Packet}
    (h : news.packet peer = some packet) : packet.blamed = none := by
  cases news with
  | photo K =>
      obtain ⟨bytes, -, rfl⟩ := Option.map_eq_some_iff.mp h
      rfl
  | keyword message =>
      obtain rfl := Option.some.inj h
      rfl
  | delete message =>
      obtain rfl := Option.some.inj h
      rfl

theorem runTask_spares {online : DataR → Bool} {photo_id : UInt32} {r : Replica} {task : Task}
    {e : Effect} (h : runTask online photo_id r task = some e) (hblamed : ∀ K ∈ task.blamed, K ∈ dead)
    (hprobe : ∀ K ∈ task.probed, online K = true ∨ K ∈ dead) : e.Spares dead r := by
  have hquiet : ∀ K ∈ ([] : List DataR), K ∈ dead := by simp
  have hstop : ∀ task, (none : Option Task) = some task → task.blamed = none := by simp
  have hsilent : ∀ p packet, (p, packet) ∈ ([] : List (DataR × Packet)) → packet.blamed = none := by simp
  have hbroadcasts : ∀ news rest task, some (Task.broadcast news rest) = some task → task.blamed = none :=
    fun _ _ _ heq => Option.some.inj heq ▸ rfl
  rcases runTask_cases h with hlocal | hpart
  · have he := runTask_local h hlocal
    refine ⟨fun K _ => he.peer_list ▸ le_refl _, he.reports ▸ hquiet, fun next hnext => ?_,
      he.sent ▸ hsilent⟩
    rcases he.next next hnext with hnext' | ⟨news, rfl⟩
    · exact hnext'.blamed
    · rfl
  · cases hpart with
    | lock news hfree => exact ⟨fun _ _ => le_refl _, hquiet, hbroadcasts _ _, hsilent⟩
    | unlock news => exact ⟨fun _ _ => le_refl _, hquiet, hstop, hsilent⟩
    | tell news K rest packet hK hpacket =>
        refine ⟨fun _ _ => le_refl _, hquiet, hbroadcasts _ _, fun p other hsent => ?_⟩
        obtain ⟨-, rfl⟩ := Prod.mk.inj (List.mem_singleton.mp hsent)
        exact News.packet_blamed hpacket
    | strike news K rest hoff =>
        have hK : K ∈ dead := (hprobe K rfl).resolve_left (Bool.eq_false_iff.mp hoff)
        exact ⟨fun K' hK' => (count_erase_other hK hK').ge, fun K' hK' => List.mem_singleton.mp hK' ▸ hK,
          hbroadcasts _ _, hsilent⟩
    | register K asker hfree =>
        refine ⟨fun K' _ => List.Sublist.count_le K' (List.sublist_append_left _ _), hquiet,
          fun task hnext => ?_, hsilent⟩
        obtain ⟨asker, -, rfl⟩ := Option.map_eq_some_iff.mp hnext
        rfl
    | sendPhotos asker photos => exact ⟨fun _ _ => le_refl _, hquiet, hstop, hsilent⟩
    | remove K hfree =>
        exact ⟨fun K' hK' => (count_erase_other (hblamed K rfl) hK').ge, hquiet, hstop, hsilent⟩

theorem spares_cluster {a : ClusterAction} {c : Cluster} (hs : s.BlamesOnly dead)
    (hprobe : FaultyNetwork.ProbesKnown ⟨s, dead⟩ (.network (.cluster a)))
    (h : s.cluster.step a = some c) :
    ({ s with cluster := c } : Network).BlamesOnly dead ∧ s.Spares dead { s with cluster := c } := by
  cases a with
  | call p request =>
      obtain ⟨-, h⟩ := Option.ite_none_right_eq_some.mp h
      obtain ⟨task, htask, rfl⟩ := Option.map_eq_some_iff.mp h
      refine ⟨⟨hs.reports, fun q other hmem => ?_, hs.packets, hs.gateway⟩, .of_eq rfl (fun _ => rfl)⟩
      rcases List.mem_append.mp hmem with hold | hnew
      · exact hs.threads q other hold
      · obtain ⟨-, rfl⟩ := Prod.mk.inj (List.mem_singleton.mp hnew)
        simp [(call_task_local htask).blamed]
  | run i =>
      obtain ⟨⟨⟨p, task⟩, threads⟩, hpick, h⟩ := Option.bind_eq_some_iff.mp h
      obtain ⟨e, hrun, h⟩ := Option.bind_eq_some_iff.mp h
      obtain rfl := Option.some.inj h
      have he := runTask_spares hrun (hs.threads p task (pick_mem hpick))
        (hprobe (p, task) (pick_get hpick))
      refine ⟨⟨fun q K hmem => ?_, fun q other hmem => ?_, fun q packet hmem => ?_, hs.gateway⟩,
        ⟨fun _ _ => le_refl _, fun q _ K hK => ?_⟩⟩
      · rcases List.mem_append.mp hmem with hold | hnew
        · exact hs.reports q K hold
        · obtain ⟨K', hK', heq⟩ := List.mem_map.mp hnew
          obtain ⟨-, rfl⟩ := Prod.mk.inj heq
          exact he.reports K' hK'
      · rcases List.mem_append.mp hmem with hold | hnew
        · exact hs.threads q other (pick_rest_subset hpick hold)
        · obtain ⟨next, hnext, heq⟩ := Option.map_eq_some_iff.mp (Option.mem_toList.mp hnew)
          obtain ⟨rfl, rfl⟩ := Prod.mk.inj heq
          simp [he.next next hnext]
      · rcases List.mem_append.mp hmem with hold | hnew
        · exact hs.packets q packet hold
        · simp [he.sent q packet hnew]
      · rcases eq_or_ne q p with rfl | hqp
        · rw [apply_replica_self]
          exact he.kept K hK
        · rw [apply_replica_of_ne hqp]
  | deliver i =>
      obtain ⟨⟨⟨p, packet⟩, packets⟩, hpick, h⟩ := Option.bind_eq_some_iff.mp h
      obtain rfl := Option.some.inj h
      refine ⟨⟨hs.reports, fun q other hmem => ?_,
        fun q other hmem => hs.packets q other (pick_rest_subset hpick hmem), hs.gateway⟩,
        .of_eq rfl (fun _ => rfl)⟩
      rcases List.mem_append.mp hmem with hold | hnew
      · exact hs.threads q other hold
      · obtain ⟨-, rfl⟩ := Prod.mk.inj (List.mem_singleton.mp hnew)
        have hpacket := hs.packets p packet (pick_mem hpick)
        cases packet <;> exact hpacket

-- Only `tell` sends, to whom answers.
theorem runGateway_sent {online : DataR → Bool} {g : Gateway} {e : GatewayEffect}
    (h : runGateway online g = some e) :
    ∀ p packet, (p, packet) ∈ e.sent → online p = true ∧ packet.blamed = g.task.blamed := by
  have hsilent : ∀ p packet, (p, packet) ∈ ([] : List (DataR × Packet)) →
      online p = true ∧ packet.blamed = g.task.blamed := by simp
  obtain ⟨peer_list, list_lock, task⟩ := g
  cases task with
  | idle => cases h
  | append K =>
      obtain ⟨-, h⟩ := Option.ite_none_left_eq_some.mp h
      obtain rfl := Option.some.inj h
      exact hsilent
  | lockProbe K =>
      obtain ⟨-, h⟩ := Option.ite_none_left_eq_some.mp h
      obtain rfl := Option.some.inj h
      exact hsilent
  | probe K rest =>
      rcases rest with _ | ⟨k, _ | ⟨k', rest⟩⟩
      · obtain rfl := Option.some.inj h
        exact hsilent
      · obtain rfl := Option.some.inj h
        exact hsilent
      · simp only [runGateway] at h
        split at h
        · obtain rfl := Option.some.inj h
          exact hsilent
        · obtain rfl := Option.some.inj h
          exact hsilent
  | remove gone sender =>
      obtain ⟨-, h⟩ := Option.ite_none_left_eq_some.mp h
      obtain rfl := Option.some.inj h
      exact hsilent
  | lockTell gone sender =>
      obtain ⟨-, h⟩ := Option.ite_none_left_eq_some.mp h
      split at h
      · obtain rfl := Option.some.inj h
        exact hsilent
      · obtain rfl := Option.some.inj h
        exact hsilent
  | tell gone sender first rest =>
      cases rest with
      | nil =>
          obtain rfl := Option.some.inj h
          exact hsilent
      | cons k rest =>
          simp only [runGateway] at h
          split at h
          · obtain ⟨-, h⟩ := Option.ite_none_right_eq_some.mp h
            obtain rfl := Option.some.inj h
            exact hsilent
          · obtain rfl := Option.some.inj h
            intro p packet hmem
            dsimp only at hmem
            split at hmem
            case isTrue hk =>
              obtain ⟨rfl, rfl⟩ := Prod.mk.inj (List.mem_singleton.mp hmem)
              exact ⟨hk, rfl⟩
            · cases hmem

theorem runGateway_spares {online : DataR → Bool} {g : Gateway} {e : GatewayEffect}
    (h : runGateway online g = some e) (hblamed : ∀ K ∈ g.task.blamed, K ∈ dead)
    (hprobe : ∀ K ∈ g.task.probed, online K = true ∨ K ∈ dead) :
    (∀ K ∈ e.gateway.task.blamed, K ∈ dead) ∧
      ∀ K ∉ dead, g.peer_list.count K ≤ e.gateway.peer_list.count K := by
  obtain ⟨peer_list, list_lock, task⟩ := g
  have hnobody : ∀ K ∈ (none : Option DataR), K ∈ dead := by simp
  cases task with
  | idle => cases h
  | append K =>
      obtain ⟨-, h⟩ := Option.ite_none_left_eq_some.mp h
      obtain rfl := Option.some.inj h
      exact ⟨hnobody, fun K' _ => List.Sublist.count_le K' (List.sublist_append_left _ _)⟩
  | lockProbe K =>
      obtain ⟨-, h⟩ := Option.ite_none_left_eq_some.mp h
      obtain rfl := Option.some.inj h
      exact ⟨hnobody, fun _ _ => le_refl _⟩
  | probe K rest =>
      rcases rest with _ | ⟨k, _ | ⟨k', rest⟩⟩
      · obtain rfl := Option.some.inj h
        exact ⟨hnobody, fun _ _ => le_refl _⟩
      · obtain rfl := Option.some.inj h
        exact ⟨hnobody, fun _ _ => le_refl _⟩
      · simp only [runGateway] at h
        split at h
        · obtain rfl := Option.some.inj h
          exact ⟨hnobody, fun _ _ => le_refl _⟩
        case isFalse hoff =>
          obtain rfl := Option.some.inj h
          have hk : k ∈ dead := (hprobe k rfl).resolve_left hoff
          exact ⟨hnobody, fun K' hK' => (count_erase_other hk hK').ge⟩
  | remove gone sender =>
      obtain ⟨-, h⟩ := Option.ite_none_left_eq_some.mp h
      obtain rfl := Option.some.inj h
      exact ⟨hblamed, fun K' hK' => (count_erase_other (hblamed gone rfl) hK').ge⟩
  | lockTell gone sender =>
      obtain ⟨-, h⟩ := Option.ite_none_left_eq_some.mp h
      split at h
      · obtain rfl := Option.some.inj h
        exact ⟨hnobody, fun _ _ => le_refl _⟩
      · obtain rfl := Option.some.inj h
        exact ⟨hblamed, fun _ _ => le_refl _⟩
  | tell gone sender first rest =>
      cases rest with
      | nil =>
          obtain rfl := Option.some.inj h
          exact ⟨hnobody, fun _ _ => le_refl _⟩
      | cons k rest =>
          simp only [runGateway] at h
          split at h
          · obtain ⟨-, h⟩ := Option.ite_none_right_eq_some.mp h
            obtain rfl := Option.some.inj h
            exact ⟨hnobody, fun _ _ => le_refl _⟩
          · obtain rfl := Option.some.inj h
            exact ⟨hblamed, fun _ _ => le_refl _⟩

-- What a new peer does: it puts itself at the root of its list, begins to listen, tells a peer
-- that listens, or takes the photos in.
inductive JoinerPart (s : Network) (K : DataR) (joiners : List (DataR × Joiner)) :
    Joiner → Network → Prop
  | list (peer_list rest : List DataR) (lists : List (DataR × List DataR))
      (hkept : ∀ k, (s.cluster.replica K).peer_list.count k ≤ peer_list.count k) :
      JoinerPart s K joiners .asked
        { s with
          cluster := s.cluster.setReplica K ((s.cluster.replica K).setPeerList peer_list)
          lists := lists
          joiners := joiners ++ [(K, .notify rest false)] }
  | listen (has_photos : Bool) :
      JoinerPart s K joiners (.notify [] has_photos)
        { s with cluster := s.cluster.listen K, joiners := joiners }
  | tell (k root : DataR) (asker : Option DataR) (rest : List DataR) (has_photos : Bool) (next : Joiner)
      (hk : s.cluster.listening k = true) :
      JoinerPart s K joiners (.notify (k :: rest) has_photos)
        { s with
          cluster := s.cluster.send [(k, .newPeer root asker)]
          joiners := joiners ++ [(K, next)] }
  | photos (rest : List DataR) (peer : Peer) (mail : List (DataR × List (Data × List Byte))) :
      JoinerPart s K joiners (.await rest)
        { s with
          cluster := { s.cluster.setReplica K ((s.cluster.replica K).setPeer peer) with mail := mail }
          joiners := joiners ++ [(K, .notify rest true)] }

theorem runJoiner_cases {K : DataR} {joiners : List (DataR × Joiner)} {j : Nat} {joiner : Joiner}
    (h : s.runJoiner K joiners j joiner = some t) : JoinerPart s K joiners joiner t := by
  cases joiner with
  | asked =>
      obtain ⟨⟨⟨other, d_recv⟩, lists⟩, -, h⟩ := Option.bind_eq_some_iff.mp h
      obtain ⟨root, hroot, h⟩ := Option.bind_eq_some_iff.mp h
      obtain ⟨-, h⟩ := Option.ite_none_right_eq_some.mp h
      obtain rfl := Option.some.inj h
      refine .list _ _ lists fun k => ?_
      exact (List.Sublist.count_le k (List.sublist_append_left _ d_recv)).trans (count_reroot hroot k).ge
  | notify rest has_photos =>
      cases rest with
      | nil =>
          obtain rfl := Option.some.inj h
          exact .listen has_photos
      | cons k rest =>
          obtain ⟨root, -, h⟩ := Option.bind_eq_some_iff.mp h
          obtain ⟨hk, h⟩ := Option.ite_none_right_eq_some.mp h
          split at h
          · obtain rfl := Option.some.inj h
            exact .tell k root none rest has_photos _ hk
          · obtain rfl := Option.some.inj h
            exact .tell k root (some K) rest has_photos _ hk
  | await rest =>
      obtain ⟨⟨⟨other, photos⟩, mail⟩, -, h⟩ := Option.bind_eq_some_iff.mp h
      obtain ⟨peer, -, h⟩ := Option.bind_eq_some_iff.mp h
      obtain ⟨-, h⟩ := Option.ite_none_right_eq_some.mp h
      obtain rfl := Option.some.inj h
      exact .photos rest peer mail

-- A change of one replica that keeps its list, the threads and messages being the same.
theorem spares_setReplica {K : DataR} {r : Replica} {mail : List (DataR × List (Data × List Byte))}
    (hs : s.BlamesOnly dead)
    (hr : ∀ K', (s.cluster.replica K).peer_list.count K' ≤ r.peer_list.count K')
    (hcluster : t.cluster = { s.cluster.setReplica K r with mail := mail })
    (hgateway : t.gateway = s.gateway) : t.BlamesOnly dead ∧ s.Spares dead t := by
  refine ⟨⟨?_, ?_, ?_, hgateway ▸ hs.gateway⟩, ⟨fun _ _ => hgateway ▸ le_refl _, fun p _ K' _ => ?_⟩⟩
  · rw [hcluster]
    exact hs.reports
  · rw [hcluster]
    exact hs.threads
  · rw [hcluster]
    exact hs.packets
  · rw [hcluster]
    rcases eq_or_ne p K with rfl | hp
    · simpa [Cluster.setReplica] using hr K'
    · simp [Cluster.setReplica, Function.update_of_ne hp]

theorem spares_send {sent : List (DataR × Packet)} (hs : s.BlamesOnly dead)
    (hsent : ∀ p packet, (p, packet) ∈ sent → ∀ K ∈ packet.blamed, K ∈ dead)
    (hcluster : t.cluster = s.cluster.send sent) (hgateway : t.gateway = s.gateway) :
    t.BlamesOnly dead ∧ s.Spares dead t := by
  refine ⟨⟨?_, ?_, ?_, hgateway ▸ hs.gateway⟩,
    .of_eq (by rw [hgateway]) (fun p => by rw [hcluster]; rfl)⟩
  · rw [hcluster]
    exact hs.reports
  · rw [hcluster]
    exact hs.threads
  · rw [hcluster]
    intro p packet hmem
    rcases List.mem_append.mp hmem with hold | hnew
    · exact hs.packets p packet hold
    · exact hsent p packet hnew

theorem spares_join {K : DataR} {joiners : List (DataR × Joiner)} {j : Nat} {joiner : Joiner}
    (hs : s.BlamesOnly dead) (h : s.runJoiner K joiners j joiner = some t) :
    t.BlamesOnly dead ∧ s.Spares dead t := by
  cases runJoiner_cases h with
  | list peer_list rest lists hkept => exact spares_setReplica (K := K) hs hkept rfl rfl
  | listen has_photos =>
      exact ⟨⟨hs.reports, hs.threads, hs.packets, hs.gateway⟩, .of_eq rfl (fun _ => rfl)⟩
  | tell k root asker rest has_photos next hk =>
      refine spares_send hs (fun p packet hmem => ?_) rfl rfl
      obtain ⟨-, rfl⟩ := Prod.mk.inj (List.mem_singleton.mp hmem)
      simp [Packet.blamed]
  | photos rest peer mail =>
      exact spares_setReplica (r := (s.cluster.replica K).setPeer peer) hs (fun _ => le_refl _) rfl rfl

theorem spares_step {a : NetworkAction} (hs : s.BlamesOnly dead)
    (hprobe : FaultyNetwork.ProbesKnown ⟨s, dead⟩ (.network a)) (h : s.step a = some t) :
    t.BlamesOnly dead ∧ s.Spares dead t := by
  cases a with
  | cluster a =>
      obtain ⟨-, h⟩ := Option.ite_none_left_eq_some.mp h
      obtain ⟨c, hc, rfl⟩ := Option.map_eq_some_iff.mp h
      exact spares_cluster hs hprobe hc
  | start K =>
      obtain ⟨-, h⟩ := Option.ite_none_left_eq_some.mp h
      obtain rfl := Option.some.inj h
      exact ⟨⟨hs.reports, hs.threads, hs.packets, hs.gateway⟩, .of_eq rfl (fun _ => rfl)⟩
  | join i j =>
      obtain ⟨⟨⟨K, joiner⟩, joiners⟩, -, h⟩ := Option.bind_eq_some_iff.mp h
      exact spares_join hs h
  | register i =>
      obtain ⟨⟨K, newPeers⟩, -, h⟩ := Option.bind_eq_some_iff.mp h
      obtain ⟨-, h⟩ := Option.ite_none_right_eq_some.mp h
      obtain rfl := Option.some.inj h
      exact ⟨⟨hs.reports, hs.threads, hs.packets, nofun⟩, .of_eq rfl (fun _ => rfl)⟩
  | report i =>
      obtain ⟨⟨⟨sender, gone⟩, reports⟩, hpick, h⟩ := Option.bind_eq_some_iff.mp h
      obtain ⟨-, h⟩ := Option.ite_none_right_eq_some.mp h
      obtain rfl := Option.some.inj h
      have hgone : gone ∈ dead := hs.reports sender gone (pick_mem hpick)
      refine ⟨⟨fun p K hmem => hs.reports p K (pick_rest_subset hpick hmem), hs.threads, hs.packets, ?_⟩,
        .of_eq rfl (fun _ => rfl)⟩
      intro K hK
      obtain rfl := Option.some.inj hK
      exact hgone
  | gateway =>
      obtain ⟨e, he, h⟩ := Option.bind_eq_some_iff.mp h
      obtain rfl := Option.some.inj h
      obtain ⟨hblamed, hkept⟩ := runGateway_spares he hs.gateway hprobe
      refine ⟨⟨hs.reports, hs.threads, fun p packet hmem => ?_, hblamed⟩,
        ⟨hkept, fun _ _ _ _ => le_refl _⟩⟩
      rcases List.mem_append.mp hmem with hold | hnew
      · exact hs.packets p packet hold
      · rw [(runGateway_sent he p packet hnew).2]
        exact hs.gateway
  | assign =>
      obtain ⟨g, hg, rfl⟩ := Option.map_eq_some_iff.mp h
      obtain ⟨htask, hcount⟩ := assignPeer_count hg
      refine ⟨⟨hs.reports, hs.threads, hs.packets, ?_⟩,
        ⟨fun K _ => (hcount K).ge, fun _ _ _ _ => le_refl _⟩⟩
      change ∀ K ∈ g.task.blamed, K ∈ dead
      rw [htask]
      exact hs.gateway

-- A crash takes the list of the peer with it.
theorem spares_crash {p : DataR} (hs : s.BlamesOnly dead) (hp : p ∈ dead) :
    (s.crash p).BlamesOnly dead ∧ s.Spares dead (s.crash p) := by
  refine ⟨⟨hs.reports, fun q task hmem => hs.threads q task (List.mem_filter.mp hmem).1,
    fun q packet hmem => hs.packets q packet (List.mem_filter.mp hmem).1, hs.gateway⟩,
    ⟨fun _ _ => le_refl _, fun q hq K _ => ?_⟩⟩
  have hqp : q ≠ p := (ne_of_mem_of_not_mem hp hq).symm
  simp [Network.crash, Function.update_of_ne hqp]

end Blame

namespace FaultyNetwork

variable {s t : FaultyNetwork}

theorem spares_faulty_step {a : FaultyAction} (hs : s.network.BlamesOnly s.crashed) (ha : s.ProbesKnown a)
    (h : s.step a = some t) :
    s.crashed ⊆ t.crashed ∧ t.network.BlamesOnly t.crashed ∧ s.network.Spares t.crashed t.network := by
  cases a with
  | network a =>
      obtain ⟨network, hnetwork, rfl⟩ := Option.map_eq_some_iff.mp h
      obtain ⟨hblames, hspares⟩ := spares_step hs ha hnetwork
      exact ⟨List.Subset.refl _, hblames, hspares⟩
  | crash p =>
      obtain ⟨-, h⟩ := Option.ite_none_right_eq_some.mp h
      obtain rfl := Option.some.inj h
      have hsub : s.crashed ⊆ p :: s.crashed := List.subset_cons_self p s.crashed
      obtain ⟨hblames, hspares⟩ := spares_crash (hs.mono hsub) List.mem_cons_self
      exact ⟨hsub, hblames, hspares⟩

theorem blamesOnly_start (memory : DataR → Memory) :
    (start memory).network.BlamesOnly (start memory).crashed :=
  ⟨nofun, nofun, nofun, nofun⟩

-- In a run in which nobody is asked before it listens only peers that have crashed are
-- said to be gone, and only they are struck off.
theorem only_crashed_struck_off {memory : DataR → Memory}
    (hs : Reaches step ProbesKnown (start memory) s) (ht : Reaches step ProbesKnown s t) :
    t.network.BlamesOnly t.crashed ∧ s.network.Spares t.crashed t.network := by
  have hblames : s.network.BlamesOnly s.crashed :=
    hs.invariant (blamesOnly_start memory) (fun _ _ _ hs ha h => (spares_faulty_step hs ha h).2.1)
  refine ht.invariant (I := fun t => t.network.BlamesOnly t.crashed ∧ s.network.Spares t.crashed t.network)
    ⟨hblames, .of_eq rfl (fun _ => rfl)⟩ (fun t a u hinv ha h => ?_)
  obtain ⟨hsub, hblames', hspares⟩ := spares_faulty_step hinv.1 ha h
  exact ⟨hblames', (hinv.2.mono hsub).trans hspares⟩

instance (s : FaultyNetwork) (a : FaultyAction) : Decidable (s.ProbesKnown a) :=
  match a with
  | .network (.cluster (.run i)) => inferInstanceAs (Decidable (∀ a ∈ s.network.cluster.threads[i]?,
      ∀ K ∈ a.2.probed, s.network.cluster.listening K = true ∨ K ∈ s.crashed))
  | .network .gateway => inferInstanceAs (Decidable (∀ K ∈ s.network.gateway.task.probed,
      s.network.cluster.listening K = true ∨ K ∈ s.crashed))
  | .network (.cluster (.call _ _)) => isTrue trivial
  | .network (.cluster (.deliver _)) => isTrue trivial
  | .network (.start _) => isTrue trivial
  | .network (.join _ _) => isTrue trivial
  | .network (.register _) => isTrue trivial
  | .network (.report _) => isTrue trivial
  | .network .assign => isTrue trivial
  | .crash _ => isTrue trivial

-- The third peer joins, with the photos of the first one.
def thirdJoin : List NetworkAction :=
  [.start (localPeer 3003), .register 0, .gateway, .gateway, .gateway, .gateway, .gateway, .join 0 0,
    .join 0 0, .cluster (.deliver 0), .cluster (.run 0), .cluster (.run 0), .join 0 0, .join 0 0,
    .join 0 0, .cluster (.deliver 0), .cluster (.run 0)]

def threeJoins : List NetworkAction :=
  firstJoin ++ secondJoin ++ [.cluster (.run 0), .join 0 0, .join 0 0] ++ thirdJoin

-- The third peer crashes; the second one finds out and reports it, and the gateway strikes it
-- off.
def crashFound : List FaultyAction :=
  .crash (localPeer 3003) ::
    (uploadAt (localPeer 3002) 0 7).map .network ++
      [.network (.report 0), .network .gateway, .network .gateway]

-- What each list of peers looks like, the gateway's first.
def lists (s : FaultyNetwork) : List (List DataR) :=
  s.network.gateway.peer_list ::
    [localPeer 3001, localPeer 3002, localPeer 3003].map (fun p => (s.network.cluster.replica p).peer_list)

theorem only_crashed_struck_off_crashFound :
    ∃ s t, execute step ProbesKnown (start untouched) (threeJoins.map .network) = some s ∧
      execute step ProbesKnown s crashFound = some t ∧ t.crashed = [localPeer 3003] ∧
      s.lists = [[localPeer 3001, localPeer 3002, localPeer 3003],
        [localPeer 3001, localPeer 3002, localPeer 3003],
        [localPeer 3002, localPeer 3001, localPeer 3003],
        [localPeer 3003, localPeer 3001, localPeer 3002]] ∧
      t.lists = [[localPeer 3001, localPeer 3002], [localPeer 3001, localPeer 3002, localPeer 3003],
        [localPeer 3002, localPeer 3001], []] ∧
      t.network.BlamesOnly [localPeer 3003] ∧ s.network.Spares [localPeer 3003] t.network := by
  have hruns : (execute step ProbesKnown (start untouched) (threeJoins.map .network)).bind (fun s =>
      (execute step ProbesKnown s crashFound).map (fun t => (t.crashed, s.lists, t.lists))) =
    some ([localPeer 3003],
      [[localPeer 3001, localPeer 3002, localPeer 3003], [localPeer 3001, localPeer 3002, localPeer 3003],
        [localPeer 3002, localPeer 3001, localPeer 3003], [localPeer 3003, localPeer 3001, localPeer 3002]],
      [[localPeer 3001, localPeer 3002], [localPeer 3001, localPeer 3002, localPeer 3003],
        [localPeer 3002, localPeer 3001], []]) := by decide +kernel
  obtain ⟨s, hs, ht⟩ := Option.bind_eq_some_iff.mp hruns
  obtain ⟨t, ht, hend⟩ := Option.map_eq_some_iff.mp ht
  obtain ⟨hcrashed, hbefore, hafter⟩ : t.crashed = _ ∧ s.lists = _ ∧ t.lists = _ := by
    simpa only [Prod.mk.injEq] using hend
  have hspared := only_crashed_struck_off (reaches_of_execute _ hs) (reaches_of_execute _ ht)
  rw [hcrashed] at hspared
  exact ⟨s, t, hs, ht, hcrashed, hbefore, hafter, hspared.1, hspared.2⟩

end FaultyNetwork

end Gallery
