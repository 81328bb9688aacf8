import Gallery.Cluster.Moves
import Gallery.Network

namespace Gallery

section Probes

-- The peer a thread asks next whether it is online, to strike it off if it is not.
def Task.probed : Task → Option DataR
  | .broadcast _ (K :: _) => some K
  | _ => none

def GatewayTask.probed : GatewayTask → Option DataR
  | .probe _ (k :: _ :: _) => some k
  | _ => none

-- Nobody is asked before it listens.
def Network.ProbesListening (s : Network) : NetworkAction → Prop
  | .cluster (.run i) => ∀ a ∈ s.cluster.threads[i]?, ∀ K ∈ a.2.probed, s.cluster.listening K = true
  | .gateway => ∀ K ∈ s.gateway.task.probed, s.cluster.listening K = true
  | _ => True

-- No entry is removed from the list of the gateway or of a peer.
structure Network.Keeps (s t : Network) : Prop where
  gateway : ∀ K, s.gateway.peer_list.count K ≤ t.gateway.peer_list.count K
  replica : ∀ p K, (s.cluster.replica p).peer_list.count K ≤ (t.cluster.replica p).peer_list.count K

theorem Network.Keeps.of_eq {s t : Network} (hg : t.gateway.peer_list = s.gateway.peer_list)
    (hr : ∀ p, (t.cluster.replica p).peer_list = (s.cluster.replica p).peer_list) : s.Keeps t :=
  ⟨fun _ => hg ▸ le_refl _, fun p _ => hr p ▸ le_refl _⟩

theorem Network.Keeps.trans {s t u : Network} (h : s.Keeps t) (h' : t.Keeps u) : s.Keeps u :=
  ⟨fun K => (h.gateway K).trans (h'.gateway K), fun p K => (h.replica p K).trans (h'.replica p K)⟩

end Probes

section Undisturbed

-- A thread does not strike anybody off on behalf of the gateway, and goes through
-- peers that are in the list of its peer.
def Task.Undisturbed (peer_list : List DataR) : Task → Prop
  | .deletePeer _ => False
  | .broadcast _ rest => ∀ K ∈ rest, K ∈ peer_list
  | _ => True

def Packet.Undisturbed : Packet → Prop
  | .deletePeer _ => False
  | _ => True

def GatewayTask.Undisturbed (peer_list : List DataR) : GatewayTask → Prop
  | .probe _ rest => ∀ K ∈ rest, K ∈ peer_list
  | .remove _ _ => False
  | .lockTell _ _ => False
  | .tell _ _ _ _ => False
  | _ => True

-- No peer was reported dead.
structure Network.Undisturbed (s : Network) : Prop where
  reports : s.cluster.reports = []
  threads : ∀ p task, (p, task) ∈ s.cluster.threads →
    task.Undisturbed (s.cluster.replica p).peer_list
  packets : ∀ p packet, (p, packet) ∈ s.cluster.packets → packet.Undisturbed
  gateway : s.gateway.task.Undisturbed s.gateway.peer_list

theorem Task.Undisturbed.mono {task : Task} {l l' : List DataR} (h : task.Undisturbed l)
    (hl : ∀ K, l.count K ≤ l'.count K) : task.Undisturbed l' := by
  cases task <;> try exact h
  case broadcast news rest =>
    exact fun K hK => List.count_pos_iff.mp ((List.count_pos_iff.mpr (h K hK)).trans_le (hl K))

theorem Task.Local.undisturbed {task : Task} {l : List DataR} (h : task.Local) :
    task.Undisturbed l := by
  cases task <;> first | exact h | trivial

theorem Packet.Settled.undisturbed {packet : Packet} (h : packet.Settled) : packet.Undisturbed := by
  cases packet <;> first | exact h | trivial

theorem GatewayTask.Undisturbed.mono {task : GatewayTask} {l l' : List DataR}
    (h : task.Undisturbed l) (hl : ∀ K, l.count K ≤ l'.count K) : task.Undisturbed l' := by
  cases task <;> try exact h
  case probe K rest =>
    exact fun k hk => List.count_pos_iff.mp ((List.count_pos_iff.mpr (h k hk)).trans_le (hl k))

-- The effect of a part of a handler that asks listening peers only.
structure Effect.Undisturbed (r : Replica) (e : Effect) : Prop where
  kept : ∀ K, r.peer_list.count K ≤ e.replica.peer_list.count K
  reports : e.reports = []
  next : ∀ task, e.next = some task → task.Undisturbed e.replica.peer_list
  sent : ∀ p packet, (p, packet) ∈ e.sent → packet.Undisturbed

theorem runTask_undisturbed {online : DataR → Bool} {photo_id : UInt32} {r : Replica} {task : Task}
    {e : Effect} (h : runTask online photo_id r task = some e) (htask : task.Undisturbed r.peer_list)
    (hprobe : ∀ K ∈ task.probed, online K = true) : e.Undisturbed r := by
  have hstop : ∀ l task, (none : Option Task) = some task → task.Undisturbed l := by simp
  have hsilent : ∀ p packet, (p, packet) ∈ ([] : List (DataR × Packet)) → packet.Undisturbed := by simp
  by_cases hlocal : task.Local
  · have he := runTask_local h hlocal
    refine ⟨fun K => he.peer_list ▸ le_refl _, he.reports, fun next hnext => ?_, fun p packet hsent => ?_⟩
    · rcases he.next next hnext with hnext' | ⟨news, rfl⟩
      · exact hnext'.undisturbed
      · trivial
    · rw [he.sent] at hsent
      cases hsent
  · cases task with
    | lockPeers news =>
        simp only [runTask] at h
        split at h
        · cases h
        · obtain rfl := Option.some.inj h
          refine ⟨fun _ => le_refl _, rfl, fun task hnext => ?_, hsilent⟩
          obtain rfl := Option.some.inj hnext
          exact fun K hK => List.mem_of_mem_tail hK
    | broadcast news rest =>
        cases rest with
        | nil =>
            obtain rfl := Option.some.inj h
            exact ⟨fun _ => le_refl _, rfl, hstop _, hsilent⟩
        | cons K rest =>
            have hK := hprobe K rfl
            simp only [runTask, hK, if_true] at h
            obtain ⟨packet, hpacket, h⟩ := Option.bind_eq_some_iff.mp h
            obtain rfl := Option.some.inj h
            refine ⟨fun _ => le_refl _, rfl, fun task hnext => ?_, fun q other hsent => ?_⟩
            · obtain rfl := Option.some.inj hnext
              exact fun K' hK' => htask K' (List.mem_cons_of_mem K hK')
            · obtain ⟨-, rfl⟩ := Prod.mk.inj (List.mem_singleton.mp hsent)
              exact (news_packet_settled hpacket).undisturbed
    | registerPeer K asker =>
        simp only [runTask] at h
        split at h
        · cases h
        · obtain rfl := Option.some.inj h
          refine ⟨fun K' => ?_, rfl, fun task hnext => ?_, hsilent⟩
          · exact List.Sublist.count_le K' (List.sublist_append_left _ _)
          · obtain ⟨asker, -, rfl⟩ := Option.map_eq_some_iff.mp hnext
            trivial
    | sendAllPhotos asker =>
        obtain ⟨photos, -, h⟩ := Option.bind_eq_some_iff.mp h
        obtain ⟨-, h⟩ := Option.ite_none_right_eq_some.mp h
        obtain rfl := Option.some.inj h
        exact ⟨fun _ => le_refl _, rfl, hstop _, hsilent⟩
    | deletePeer K => exact htask.elim
    | _ => exact absurd trivial hlocal

variable {s t : Network}

theorem undisturbed_cluster {a : ClusterAction} {c : Cluster} (hs : s.Undisturbed)
    (hprobe : s.ProbesListening (.cluster a)) (h : s.cluster.step a = some c) :
    ({ s with cluster := c } : Network).Undisturbed ∧ s.Keeps { s with cluster := c } := by
  cases a with
  | call p request =>
      simp only [Cluster.step] at h
      split at h
      · obtain ⟨task, htask, rfl⟩ := Option.map_eq_some_iff.mp h
        refine ⟨⟨hs.reports, fun q other hmem => ?_, hs.packets, hs.gateway⟩,
          Network.Keeps.of_eq rfl (fun _ => rfl)⟩
        rcases List.mem_append.mp hmem with hold | hnew
        · exact hs.threads q other hold
        · obtain ⟨-, rfl⟩ := Prod.mk.inj (List.mem_singleton.mp hnew)
          exact (call_task_local htask).undisturbed
      · cases h
  | run i =>
      obtain ⟨⟨⟨p, task⟩, threads⟩, hpick, h⟩ := Option.bind_eq_some_iff.mp h
      obtain ⟨e, hrun, h⟩ := Option.bind_eq_some_iff.mp h
      obtain rfl := Option.some.inj h
      have he := runTask_undisturbed hrun (hs.threads p task (pick_mem hpick))
        (hprobe (p, task) (pick_get hpick))
      have hkept : ∀ q K, (s.cluster.replica q).peer_list.count K ≤
          ((s.cluster.apply p threads e).replica q).peer_list.count K := by
        intro q K
        rcases eq_or_ne q p with rfl | hqp
        · rw [apply_replica_self]
          exact he.kept K
        · rw [apply_replica_of_ne hqp]
      refine ⟨⟨?_, fun q other hmem => ?_, fun q packet hmem => ?_, hs.gateway⟩,
        ⟨fun _ => le_refl _, hkept⟩⟩
      · change s.cluster.reports ++ e.reports.map (fun K => (p, K)) = []
        rw [hs.reports, he.reports]
        rfl
      · rcases List.mem_append.mp hmem with hold | hnew
        · exact (hs.threads q other (pick_rest_subset hpick hold)).mono (hkept q)
        · obtain ⟨next, hnext, heq⟩ := Option.map_eq_some_iff.mp (Option.mem_toList.mp hnew)
          obtain ⟨rfl, rfl⟩ := Prod.mk.inj heq
          change next.Undisturbed ((s.cluster.apply p threads e).replica p).peer_list
          rw [apply_replica_self]
          exact he.next next hnext
      · rcases List.mem_append.mp hmem with hold | hnew
        · exact hs.packets q packet hold
        · exact he.sent q packet hnew
  | deliver i =>
      obtain ⟨⟨⟨p, packet⟩, packets⟩, hpick, h⟩ := Option.bind_eq_some_iff.mp h
      obtain rfl := Option.some.inj h
      refine ⟨⟨hs.reports, fun q other hmem => ?_,
        fun q other hmem => hs.packets q other (pick_rest_subset hpick hmem), hs.gateway⟩,
        Network.Keeps.of_eq rfl (fun _ => rfl)⟩
      rcases List.mem_append.mp hmem with hold | hnew
      · exact hs.threads q other hold
      · obtain ⟨-, rfl⟩ := Prod.mk.inj (List.mem_singleton.mp hnew)
        have hpacket := hs.packets p packet (pick_mem hpick)
        cases packet with
        | deletePeer K => exact hpacket.elim
        | _ => trivial

-- The gateway only adds to its list.
theorem runGateway_undisturbed {online : DataR → Bool} {g : Gateway} {e : GatewayEffect}
    (h : runGateway online g = some e) (hg : g.task.Undisturbed g.peer_list)
    (hprobe : ∀ K ∈ g.task.probed, online K = true) :
    e.gateway.task.Undisturbed e.gateway.peer_list ∧ e.sent = [] ∧
      ∀ K, g.peer_list.count K ≤ e.gateway.peer_list.count K := by
  obtain ⟨peer_list, list_lock, task⟩ := g
  cases task with
  | idle => cases h
  | append K =>
      simp only [runGateway] at h
      split at h
      · cases h
      · obtain rfl := Option.some.inj h
        exact ⟨trivial, rfl, fun K' => List.Sublist.count_le K' (List.sublist_append_left _ _)⟩
  | lockProbe K =>
      simp only [runGateway] at h
      split at h
      · cases h
      · obtain rfl := Option.some.inj h
        exact ⟨fun _ hk => hk, rfl, fun _ => le_refl _⟩
  | probe K rest =>
      rcases rest with _ | ⟨k, _ | ⟨k', rest⟩⟩
      · obtain rfl := Option.some.inj h
        exact ⟨trivial, rfl, fun _ => le_refl _⟩
      · obtain rfl := Option.some.inj h
        exact ⟨trivial, rfl, fun _ => le_refl _⟩
      · have hk := hprobe k rfl
        simp only [runGateway, hk, if_true] at h
        obtain rfl := Option.some.inj h
        exact ⟨fun K' hK' => hg K' (List.mem_cons_of_mem k hK'), rfl, fun _ => le_refl _⟩
  | remove dead sender => exact hg.elim
  | lockTell dead sender => exact hg.elim
  | tell dead sender first rest => exact hg.elim

theorem assignPeer_count {online : DataR → Bool} {g g' : Gateway} (h : assignPeer online g = some g') :
    g'.task = g.task ∧ ∀ K, g'.peer_list.count K = g.peer_list.count K := by
  simp only [assignPeer] at h
  split at h
  · cases h
  · split at h
    · obtain rfl := Option.some.inj h
      exact ⟨rfl, fun _ => rfl⟩
    case h_2 root rest hlist =>
      obtain rfl := Option.some.inj h
      refine ⟨rfl, fun K => ?_⟩
      rw [hlist]
      exact (List.perm_append_singleton root rest).count_eq K

theorem count_reroot {l : List DataR} {root : DataR} (h : l.getLast? = some root) (K : DataR) :
    (root :: l.dropLast).count K = l.count K := by
  obtain ⟨l', rfl⟩ := List.getLast?_eq_some_iff.mp h
  rw [List.dropLast_concat]
  exact (List.perm_append_singleton root l').symm.count_eq K

-- A change of one replica that keeps its list, the threads being the same.
theorem undisturbed_setReplica {K : DataR} {r : Replica} {mail : List (DataR × List (Data × List Byte))}
    (hs : s.Undisturbed)
    (hr : ∀ K', (s.cluster.replica K).peer_list.count K' ≤ r.peer_list.count K')
    (hcluster : t.cluster = { s.cluster.setReplica K r with mail := mail })
    (hgateway : t.gateway = s.gateway) : t.Undisturbed ∧ s.Keeps t := by
  have hkept : ∀ p K', (s.cluster.replica p).peer_list.count K' ≤
      (t.cluster.replica p).peer_list.count K' := by
    intro p K'
    rw [hcluster]
    rcases eq_or_ne p K with rfl | hp
    · simpa [Cluster.setReplica] using hr K'
    · simp [Cluster.setReplica, Function.update_of_ne hp]
  refine ⟨⟨?_, fun p task hmem => ?_, fun p packet hmem => ?_, hgateway ▸ hs.gateway⟩,
    ⟨fun _ => hgateway ▸ le_refl _, hkept⟩⟩
  · rw [hcluster]
    exact hs.reports
  · rw [hcluster] at hmem
    exact (hs.threads p task hmem).mono (hkept p)
  · rw [hcluster] at hmem
    exact hs.packets p packet hmem

theorem undisturbed_send {sent : List (DataR × Packet)} (hs : s.Undisturbed)
    (hsent : ∀ p packet, (p, packet) ∈ sent → packet.Undisturbed)
    (hcluster : t.cluster = s.cluster.send sent) (hgateway : t.gateway = s.gateway) :
    t.Undisturbed ∧ s.Keeps t := by
  refine ⟨⟨?_, fun p task hmem => ?_, fun p packet hmem => ?_, hgateway ▸ hs.gateway⟩,
    .of_eq (by rw [hgateway]) (fun p => by rw [hcluster]; rfl)⟩
  · rw [hcluster]
    exact hs.reports
  · rw [hcluster] at hmem ⊢
    exact hs.threads p task hmem
  · rw [hcluster] at hmem
    rcases List.mem_append.mp hmem with hold | hnew
    · exact hs.packets p packet hold
    · exact hsent p packet hnew

theorem undisturbed_join {K : DataR} {joiners : List (DataR × Joiner)} {j : Nat} {joiner : Joiner}
    (hs : s.Undisturbed) (h : s.runJoiner K joiners j joiner = some t) :
    t.Undisturbed ∧ s.Keeps t := by
  cases joiner with
  | asked =>
      obtain ⟨⟨⟨other, d_recv⟩, lists⟩, -, h⟩ := Option.bind_eq_some_iff.mp h
      obtain ⟨root, hroot, h⟩ := Option.bind_eq_some_iff.mp h
      split at h
      · obtain rfl := Option.some.inj h
        refine undisturbed_setReplica (K := K) hs (fun K' => ?_) rfl rfl
        exact (List.Sublist.count_le K' (List.sublist_append_left _ d_recv)).trans
          (count_reroot hroot K').ge
      · cases h
  | notify rest has_photos =>
      cases rest with
      | nil =>
          obtain rfl := Option.some.inj h
          exact ⟨⟨hs.reports, hs.threads, hs.packets, hs.gateway⟩, .of_eq rfl (fun _ => rfl)⟩
      | cons k rest =>
          obtain ⟨root, -, h⟩ := Option.bind_eq_some_iff.mp h
          split at h
          · split at h
            · obtain rfl := Option.some.inj h
              refine undisturbed_send hs (fun p packet hmem => ?_) rfl rfl
              obtain ⟨-, rfl⟩ := Prod.mk.inj (List.mem_singleton.mp hmem)
              trivial
            · obtain rfl := Option.some.inj h
              refine undisturbed_send hs (fun p packet hmem => ?_) rfl rfl
              obtain ⟨-, rfl⟩ := Prod.mk.inj (List.mem_singleton.mp hmem)
              trivial
          · cases h
  | await rest =>
      obtain ⟨⟨⟨other, photos⟩, mail⟩, -, h⟩ := Option.bind_eq_some_iff.mp h
      obtain ⟨peer, -, h⟩ := Option.bind_eq_some_iff.mp h
      split at h
      · obtain rfl := Option.some.inj h
        exact undisturbed_setReplica (r := (s.cluster.replica K).setPeer peer) hs (fun _ => le_refl _)
          rfl rfl
      · cases h

theorem undisturbed_step {a : NetworkAction} (hs : s.Undisturbed) (hprobe : s.ProbesListening a)
    (h : s.step a = some t) : t.Undisturbed ∧ s.Keeps t := by
  cases a with
  | cluster a =>
      simp only [Network.step] at h
      split at h
      · cases h
      · obtain ⟨c, hc, rfl⟩ := Option.map_eq_some_iff.mp h
        exact undisturbed_cluster hs hprobe hc
  | start K =>
      simp only [Network.step] at h
      split at h
      · cases h
      · obtain rfl := Option.some.inj h
        exact ⟨⟨hs.reports, hs.threads, hs.packets, hs.gateway⟩, .of_eq rfl (fun _ => rfl)⟩
  | join i j =>
      obtain ⟨⟨⟨K, joiner⟩, joiners⟩, -, h⟩ := Option.bind_eq_some_iff.mp h
      exact undisturbed_join hs h
  | register i =>
      obtain ⟨⟨K, newPeers⟩, -, h⟩ := Option.bind_eq_some_iff.mp h
      dsimp only at h
      split at h
      · obtain rfl := Option.some.inj h
        exact ⟨⟨hs.reports, hs.threads, hs.packets, trivial⟩, .of_eq rfl (fun _ => rfl)⟩
      · cases h
  | report i =>
      obtain ⟨⟨_, _⟩, hpick, -⟩ := Option.bind_eq_some_iff.mp h
      rw [hs.reports] at hpick
      cases hpick
  | gateway =>
      obtain ⟨e, he, h⟩ := Option.bind_eq_some_iff.mp h
      obtain rfl := Option.some.inj h
      obtain ⟨hgateway, hsent, hkept⟩ := runGateway_undisturbed he hs.gateway hprobe
      refine ⟨⟨hs.reports, hs.threads, fun p packet hmem => ?_, hgateway⟩, ⟨hkept, fun _ _ => le_refl _⟩⟩
      rw [hsent] at hmem
      exact hs.packets p packet (by simpa [Cluster.send] using hmem)
  | assign =>
      obtain ⟨g, hg, rfl⟩ := Option.map_eq_some_iff.mp h
      obtain ⟨htask, hcount⟩ := assignPeer_count hg
      refine ⟨⟨hs.reports, hs.threads, hs.packets, ?_⟩,
        ⟨fun K => (hcount K).ge, fun _ _ => le_refl _⟩⟩
      change g.task.Undisturbed g.peer_list
      rw [htask]
      exact hs.gateway.mono (fun K => (hcount K).ge)

-- Asking a peer that does not listen strikes it off.
theorem not_keeps_of_offline {a : NetworkAction} (hs : s.Undisturbed) (hprobe : ¬s.ProbesListening a)
    (h : s.step a = some t) : ¬s.Keeps t := by
  have herase : ∀ {l : List DataR} {K : DataR}, K ∈ l → ¬l.count K ≤ (l.erase K).count K := by
    intro l K hK hle
    have hpos := List.count_pos_iff.mpr hK
    rw [List.count_erase_self] at hle
    omega
  intro hkeeps
  cases a with
  | cluster a =>
      cases a with
      | call p request => exact hprobe trivial
      | deliver i => exact hprobe trivial
      | run i =>
          simp only [Network.step] at h
          split at h
          · cases h
          obtain ⟨c, hc, rfl⟩ := Option.map_eq_some_iff.mp h
          obtain ⟨⟨⟨p, task⟩, threads⟩, hpick, hc⟩ := Option.bind_eq_some_iff.mp hc
          obtain ⟨e, hrun, hc⟩ := Option.bind_eq_some_iff.mp hc
          obtain rfl := Option.some.inj hc
          apply hprobe
          intro thread hthread K hK
          obtain rfl := Option.some.inj ((pick_get hpick).symm.trans hthread)
          have htask := hs.threads p task (pick_mem hpick)
          by_contra hoff
          cases task with
          | broadcast news rest =>
              cases rest with
              | nil => cases hK
              | cons k rest =>
                  obtain rfl := Option.some.inj hK
                  simp only [runTask, hoff] at hrun
                  obtain rfl := Option.some.inj hrun
                  have hle := hkeeps.replica p k
                  rw [apply_replica_self] at hle
                  exact herase (htask k List.mem_cons_self) hle
          | _ => cases hK
  | gateway =>
      obtain ⟨e, he, h⟩ := Option.bind_eq_some_iff.mp h
      obtain rfl := Option.some.inj h
      apply hprobe
      intro K hK
      by_contra hoff
      have hgateway := hs.gateway
      have hle := hkeeps.gateway K
      generalize s.gateway = g at he hK hgateway hle
      obtain ⟨peer_list, list_lock, task⟩ := g
      cases task with
      | probe K' rest =>
          rcases rest with _ | ⟨k, _ | ⟨k', rest⟩⟩
          · cases hK
          · cases hK
          · obtain rfl := Option.some.inj hK
            simp only [runGateway, hoff] at he
            obtain rfl := Option.some.inj he
            exact herase (hgateway k List.mem_cons_self) hle
      | _ => cases hK
  | start K => exact hprobe trivial
  | join i j => exact hprobe trivial
  | register i => exact hprobe trivial
  | report i => exact hprobe trivial
  | assign => exact hprobe trivial

theorem start_undisturbed (memory : DataR → Memory) : (Network.start memory).Undisturbed :=
  ⟨rfl, fun _ _ h => (nomatch h), fun _ _ h => (nomatch h), trivial⟩

theorem reaches_undisturbed {memory : DataR → Memory}
    (hs : Reaches Network.step Network.ProbesListening (.start memory) s) : s.Undisturbed :=
  hs.invariant (start_undisturbed memory) (fun _ _ _ hs hprobe h => (undisturbed_step hs hprobe h).1)

-- As long as no peer is asked before it listens nobody is struck off, and the first
-- time one is, it is.
theorem nobody_struck_off (memory : DataR → Memory) (s : Network)
    (hs : Reaches Network.step Network.ProbesListening (.start memory) s) :
    (∀ t, Reaches Network.step Network.ProbesListening s t → s.Keeps t) ∧
      ∀ a t, s.step a = some t → (s.Keeps t ↔ s.ProbesListening a) := by
  have hinv := reaches_undisturbed hs
  refine ⟨fun t ht => ?_, fun a t h => ⟨fun hkeeps => ?_, fun hprobe => ?_⟩⟩
  · have hboth : t.Undisturbed ∧ s.Keeps t := by
      refine ht.invariant (I := fun t => t.Undisturbed ∧ s.Keeps t)
        ⟨hinv, .of_eq rfl (fun _ => rfl)⟩ (fun t a u ht hprobe h => ?_)
      obtain ⟨hu, hkeeps⟩ := undisturbed_step ht.1 hprobe h
      exact ⟨hu, ht.2.trans hkeeps⟩
    exact hboth.2
  · by_contra hprobe
    exact not_keeps_of_offline hinv hprobe h hkeeps
  · exact (undisturbed_step hinv hprobe h).2

instance (s : Network) (a : NetworkAction) : Decidable (s.ProbesListening a) :=
  match a with
  | .cluster (.run i) => inferInstanceAs (Decidable
      (∀ a ∈ s.cluster.threads[i]?, ∀ K ∈ a.2.probed, s.cluster.listening K = true))
  | .cluster (.call _ _) => isTrue trivial
  | .cluster (.deliver _) => isTrue trivial
  | .gateway => inferInstanceAs (Decidable
      (∀ K ∈ s.gateway.task.probed, s.cluster.listening K = true))
  | .start _ => isTrue trivial
  | .join _ _ => isTrue trivial
  | .register _ => isTrue trivial
  | .report _ => isTrue trivial
  | .assign => isTrue trivial

-- The first peer joins: alone in the list, it listens at once.
def firstJoin : List NetworkAction :=
  [.start (localPeer 3001), .register 0, .gateway, .gateway, .gateway, .join 0 0, .join 0 0]

-- The second one, as far as the first peer has put it into its list.
def secondJoin : List NetworkAction :=
  [.start (localPeer 3002), .register 0, .gateway, .gateway, .gateway, .gateway, .join 0 0, .join 0 0,
    .cluster (.deliver 0), .cluster (.run 0)]

def uploadAt (p : DataR) (i runs : Nat) : List NetworkAction :=
  .cluster (.call p (.addPhoto [112, 44, 49] [7])) :: List.replicate runs (.cluster (.run i))

-- The second peer joins before the first one listens.
def overlappingJoins : List NetworkAction :=
  [.start (localPeer 3001), .register 0, .gateway, .gateway, .gateway, .start (localPeer 3002),
    .register 0, .gateway, .gateway]

-- The entries of the gateway and of the first peer, and who has not come to listen.
def Network.lists3001 (s : Network) : List DataR × List DataR × List DataR :=
  (s.gateway.peer_list, (s.cluster.replica (localPeer 3001)).peer_list, s.joiners.map Prod.fst)

def lastStep (schedule : List NetworkAction) (a : NetworkAction) :
    Option ((List DataR × List DataR × List DataR) × (List DataR × List DataR × List DataR)) :=
  (execute Network.step (fun _ _ => True) (.start untouched) schedule).bind
    (fun s => (s.step a).map (fun t => (s.lists3001, t.lists3001)))

theorem newcomers_struck_off :
    (∃ s t, execute Network.step (fun _ _ => True) (.start untouched) overlappingJoins = some s ∧
      s.step .gateway = some t ∧ s.joiners.map Prod.fst = [localPeer 3001, localPeer 3002] ∧
      s.gateway.peer_list = [localPeer 3001, localPeer 3002] ∧
      t.gateway.peer_list = [localPeer 3002]) ∧
    ∃ s t, execute Network.step (fun _ _ => True) (.start untouched)
        (firstJoin ++ secondJoin ++ uploadAt (localPeer 3001) 1 4) = some s ∧
      s.step (.cluster (.run 1)) = some t ∧ s.joiners.map Prod.fst = [localPeer 3002] ∧
      (s.cluster.replica (localPeer 3001)).peer_list = [localPeer 3001, localPeer 3002] ∧
      (t.cluster.replica (localPeer 3001)).peer_list = [localPeer 3001] := by
  constructor
  · have hend : lastStep overlappingJoins .gateway =
        some (([localPeer 3001, localPeer 3002], [], [localPeer 3001, localPeer 3002]),
          ([localPeer 3002], [], [localPeer 3001, localPeer 3002])) := by decide +kernel
    obtain ⟨s, hs, hlast⟩ := Option.bind_eq_some_iff.mp hend
    obtain ⟨t, ht, hlists⟩ := Option.map_eq_some_iff.mp hlast
    simp only [Network.lists3001, Prod.mk.injEq] at hlists
    exact ⟨s, t, hs, ht, hlists.1.2.2, hlists.1.1, hlists.2.1⟩
  · have hend : lastStep (firstJoin ++ secondJoin ++ uploadAt (localPeer 3001) 1 4) (.cluster (.run 1)) =
        some (([localPeer 3001, localPeer 3002], [localPeer 3001, localPeer 3002], [localPeer 3002]),
          ([localPeer 3001, localPeer 3002], [localPeer 3001], [localPeer 3002])) := by decide +kernel
    obtain ⟨s, hs, hlast⟩ := Option.bind_eq_some_iff.mp hend
    obtain ⟨t, ht, hlists⟩ := Option.map_eq_some_iff.mp hlast
    simp only [Network.lists3001, Prod.mk.injEq] at hlists
    exact ⟨s, t, hs, ht, hlists.1.2.2, hlists.1.2.1, hlists.2.2.1⟩

-- Two joins one after the other, then an upload.
def orderlyJoins : List NetworkAction :=
  firstJoin ++ secondJoin ++ [.cluster (.run 0), .join 0 0, .join 0 0] ++
    uploadAt (localPeer 3001) 0 6 ++ [.assign, .assign]

theorem nobody_struck_off_orderlyJoins :
    ∃ s, execute Network.step Network.ProbesListening (.start untouched) orderlyJoins = some s ∧
      s.lists3001 = ([localPeer 3001, localPeer 3002], [localPeer 3001, localPeer 3002], []) ∧
      (∀ t, Reaches Network.step Network.ProbesListening s t → s.Keeps t) ∧
      ∀ a t, s.step a = some t → (s.Keeps t ↔ s.ProbesListening a) := by
  obtain ⟨s, hs, hlists⟩ : ∃ s,
      execute Network.step Network.ProbesListening (.start untouched) orderlyJoins = some s ∧
        s.lists3001 = ([localPeer 3001, localPeer 3002], [localPeer 3001, localPeer 3002], []) :=
    Option.map_eq_some_iff.mp (by decide +kernel)
  exact ⟨s, hs, hlists, nobody_struck_off untouched s (reaches_of_execute orderlyJoins hs)⟩

end Undisturbed

end Gallery
