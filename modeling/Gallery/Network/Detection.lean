import Gallery.Network.Crashes

namespace Gallery

section Housed

-- Handlers run and messages arrive where somebody listens, the new peers do not listen yet, and
-- who broadcasts holds the lock alone.
structure Network.Housed (s : Network) : Prop where
  threads : ∀ p task, (p, task) ∈ s.cluster.threads → s.cluster.listening p = true
  packets : ∀ p packet, (p, packet) ∈ s.cluster.packets → s.cluster.listening p = true
  joiners : ∀ p joiner, (p, joiner) ∈ s.joiners → s.cluster.listening p = false
  nodup : (s.joiners.map Prod.fst).Nodup
  locked : s.cluster.Locked

variable {online : DataR → Bool} {photo_id : UInt32} {r : Replica} {task : Task} {e : Effect}

theorem runTask_sent (h : runTask online photo_id r task = some e) :
    ∀ p packet, (p, packet) ∈ e.sent → online p = true := by
  rcases runTask_cases h with hlocal | hpart
  · simp [(runTask_local h hlocal).sent]
  · cases hpart with
    | tell news K rest packet hK hpacket =>
        intro p other hmem
        obtain ⟨rfl, -⟩ := Prod.mk.inj (List.mem_singleton.mp hmem)
        exact hK
    | _ => simp

variable {s t : Network}

theorem housed_cluster {a : ClusterAction} {c : Cluster} (hs : s.Housed) (h : s.cluster.step a = some c) :
    ({ s with cluster := c } : Network).Housed := by
  have hlocked : c.Locked := locked_step hs.locked h
  cases a with
  | call p request =>
      obtain ⟨hp, h⟩ := Option.ite_none_right_eq_some.mp h
      obtain ⟨task, -, rfl⟩ := Option.map_eq_some_iff.mp h
      refine ⟨fun q other hmem => ?_, hs.packets, hs.joiners, hs.nodup, hlocked⟩
      rcases List.mem_append.mp hmem with hold | hnew
      · exact hs.threads q other hold
      · obtain ⟨rfl, -⟩ := Prod.mk.inj (List.mem_singleton.mp hnew)
        exact hp
  | run i =>
      obtain ⟨⟨⟨p, task⟩, threads⟩, hpick, h⟩ := Option.bind_eq_some_iff.mp h
      obtain ⟨e, hrun, h⟩ := Option.bind_eq_some_iff.mp h
      obtain rfl := Option.some.inj h
      refine ⟨fun q other hmem => ?_, fun q packet hmem => ?_, hs.joiners, hs.nodup, hlocked⟩
      · rcases List.mem_append.mp hmem with hold | hnew
        · exact hs.threads q other (pick_rest_subset hpick hold)
        · obtain ⟨next, -, heq⟩ := Option.map_eq_some_iff.mp (Option.mem_toList.mp hnew)
          obtain ⟨rfl, -⟩ := Prod.mk.inj heq
          exact hs.threads p task (pick_mem hpick)
      · rcases List.mem_append.mp hmem with hold | hnew
        · exact hs.packets q packet hold
        · exact runTask_sent hrun q packet hnew
  | deliver i =>
      obtain ⟨⟨⟨p, packet⟩, packets⟩, hpick, h⟩ := Option.bind_eq_some_iff.mp h
      obtain rfl := Option.some.inj h
      refine ⟨fun q other hmem => ?_, fun q other hmem => hs.packets q other (pick_rest_subset hpick hmem),
        hs.joiners, hs.nodup, hlocked⟩
      rcases List.mem_append.mp hmem with hold | hnew
      · exact hs.threads q other hold
      · obtain ⟨rfl, -⟩ := Prod.mk.inj (List.mem_singleton.mp hnew)
        exact hs.packets q packet (pick_mem hpick)

theorem housed_send {sent : List (DataR × Packet)} (hs : s.Housed)
    (hsent : ∀ p packet, (p, packet) ∈ sent → s.cluster.listening p = true)
    (hcluster : t.cluster = s.cluster.send sent)
    (hjoiners : (t.joiners.map Prod.fst).Perm (s.joiners.map Prod.fst)) : t.Housed := by
  refine ⟨?_, fun p packet hmem => ?_, fun p joiner hmem => ?_, hjoiners.nodup_iff.mpr hs.nodup, ?_⟩
  · rw [hcluster]
    exact hs.threads
  · rw [hcluster] at hmem ⊢
    rcases List.mem_append.mp hmem with hold | hnew
    · exact hs.packets p packet hold
    · exact hsent p packet hnew
  · obtain ⟨⟨q, other⟩, hother, rfl⟩ := List.mem_map.mp (hjoiners.mem_iff.mp (List.mem_map_of_mem hmem))
    rw [hcluster]
    exact hs.joiners q other hother
  · rw [hcluster]
    exact hs.locked

theorem housed_setReplica {K : DataR} {r : Replica} {mail : List (DataR × List (Data × List Byte))}
    (hs : s.Housed) (hr : r.peer_lock = (s.cluster.replica K).peer_lock)
    (hcluster : t.cluster = { s.cluster.setReplica K r with mail := mail })
    (hjoiners : (t.joiners.map Prod.fst).Perm (s.joiners.map Prod.fst)) : t.Housed := by
  refine ⟨?_, ?_, fun p joiner hmem => ?_, hjoiners.nodup_iff.mpr hs.nodup, fun p => ?_⟩
  · rw [hcluster]
    exact hs.threads
  · rw [hcluster]
    exact hs.packets
  · obtain ⟨⟨q, other⟩, hother, rfl⟩ := List.mem_map.mp (hjoiners.mem_iff.mp (List.mem_map_of_mem hmem))
    rw [hcluster]
    exact hs.joiners q other hother
  · rw [hcluster]
    rcases eq_or_ne p K with rfl | hp
    · simpa [Cluster.setReplica, Replica.locks, hr] using hs.locked p
    · simpa [Cluster.setReplica, Function.update_of_ne hp] using hs.locked p

theorem housed_join {i j : Nat} (hs : s.Housed) (h : s.step (.join i j) = some t) : t.Housed := by
  obtain ⟨⟨⟨K, joiner⟩, joiners⟩, hpick, h⟩ := Option.bind_eq_some_iff.mp h
  have hperm : (s.joiners.map Prod.fst).Perm (K :: joiners.map Prod.fst) := (pick_perm hpick).map Prod.fst
  have hsame : ∀ next : Joiner, ((joiners ++ [(K, next)]).map Prod.fst).Perm (s.joiners.map Prod.fst) := by
    intro next
    rw [List.map_append]
    exact (List.perm_append_singleton K _).trans hperm.symm
  cases runJoiner_cases h with
  | list peer_list rest lists hkept =>
      exact housed_setReplica (r := (s.cluster.replica K).setPeerList peer_list) hs rfl rfl (hsame _)
  | listen has_photos =>
      have hnodup : K ∉ joiners.map Prod.fst ∧ (joiners.map Prod.fst).Nodup :=
        List.nodup_cons.mp (hperm.nodup_iff.mp hs.nodup)
      have hlisten : ∀ {p}, s.cluster.listening p = true →
          Function.update s.cluster.listening K true p = true := by
        intro p hp
        rcases eq_or_ne p K with rfl | hpK
        · exact Function.update_self ..
        · rwa [Function.update_of_ne hpK]
      refine ⟨fun p task hmem => hlisten (hs.threads p task hmem),
        fun p packet hmem => hlisten (hs.packets p packet hmem), fun p joiner hmem => ?_, hnodup.2,
        hs.locked⟩
      have hpK : p ≠ K := fun heq => hnodup.1 (heq ▸ List.mem_map_of_mem hmem)
      change Function.update s.cluster.listening K true p = false
      rw [Function.update_of_ne hpK]
      exact hs.joiners p joiner (pick_rest_subset hpick hmem)
  | tell k root asker rest has_photos next hk =>
      refine housed_send hs (fun p packet hmem => ?_) rfl (hsame _)
      obtain ⟨rfl, -⟩ := Prod.mk.inj (List.mem_singleton.mp hmem)
      exact hk
  | photos rest peer mail =>
      exact housed_setReplica (r := (s.cluster.replica K).setPeer peer) hs rfl rfl (hsame _)

theorem housed_step {a : NetworkAction} (hs : s.Housed) (h : s.step a = some t) : t.Housed := by
  cases a with
  | cluster a =>
      obtain ⟨-, h⟩ := Option.ite_none_left_eq_some.mp h
      obtain ⟨c, hc, rfl⟩ := Option.map_eq_some_iff.mp h
      exact housed_cluster hs hc
  | start K =>
      obtain ⟨hnew, h⟩ := Option.ite_none_left_eq_some.mp h
      obtain rfl := Option.some.inj h
      rw [Bool.or_eq_true, not_or] at hnew
      refine ⟨hs.threads, hs.packets, fun p joiner hmem => ?_, ?_, hs.locked⟩
      · rcases List.mem_append.mp hmem with hold | hadded
        · exact hs.joiners p joiner hold
        · obtain ⟨rfl, -⟩ := Prod.mk.inj (List.mem_singleton.mp hadded)
          exact Bool.eq_false_iff.mpr hnew.1
      · have hfresh : K ∉ s.joiners.map Prod.fst := by
          intro hmem
          obtain ⟨a, ha, heq⟩ := List.mem_map.mp hmem
          exact hnew.2 (List.any_eq_true.mpr ⟨a, ha, beq_iff_eq.mpr heq⟩)
        rw [List.map_append]
        exact List.nodup_append_comm.mp (List.nodup_cons.mpr ⟨hfresh, hs.nodup⟩)
  | join i j => exact housed_join hs h
  | register i =>
      obtain ⟨⟨K, newPeers⟩, -, h⟩ := Option.bind_eq_some_iff.mp h
      obtain ⟨-, h⟩ := Option.ite_none_right_eq_some.mp h
      obtain rfl := Option.some.inj h
      exact ⟨hs.threads, hs.packets, hs.joiners, hs.nodup, hs.locked⟩
  | report i =>
      obtain ⟨⟨⟨sender, gone⟩, reports⟩, -, h⟩ := Option.bind_eq_some_iff.mp h
      obtain ⟨-, h⟩ := Option.ite_none_right_eq_some.mp h
      obtain rfl := Option.some.inj h
      exact ⟨hs.threads, hs.packets, hs.joiners, hs.nodup, hs.locked⟩
  | gateway =>
      obtain ⟨e, he, h⟩ := Option.bind_eq_some_iff.mp h
      obtain rfl := Option.some.inj h
      exact housed_send hs (fun p packet hmem => (runGateway_sent he p packet hmem).1) rfl
        (List.Perm.refl _)
  | assign =>
      obtain ⟨g, -, rfl⟩ := Option.map_eq_some_iff.mp h
      exact ⟨hs.threads, hs.packets, hs.joiners, hs.nodup, hs.locked⟩

theorem Network.runs_eq_false {K : DataR} :
    s.runs K = false ↔ s.cluster.listening K = false ∧ K ∉ s.joiners.map Prod.fst := by
  rw [Network.runs, Bool.or_eq_false_iff, List.any_eq_false]
  refine and_congr_right fun _ => ⟨fun hnone hmem => ?_, fun hnone a ha heq => ?_⟩
  · obtain ⟨a, ha, heq⟩ := List.mem_map.mp hmem
    exact hnone a ha (beq_iff_eq.mpr heq)
  · exact hnone (beq_iff_eq.mp heq ▸ List.mem_map_of_mem ha)

-- Who holds a lock is not a new peer.
theorem Network.Housed.not_joiner {p : DataR} (hs : s.Housed)
    (hlock : (s.cluster.replica p).peer_lock = true) : p ∉ s.joiners.map Prod.fst := by
  intro hmem
  obtain ⟨⟨q, joiner⟩, hjoiner, rfl⟩ := List.mem_map.mp hmem
  have hzero : total (lockWeight q) s.cluster.threads = 0 := by
    refine total_eq_zero _ fun a ha => ?_
    have hqa : a.1 ≠ q := by
      intro heq
      have hlistens := hs.threads a.1 a.2 ha
      rw [heq, hs.joiners q joiner hjoiner] at hlistens
      cases hlistens
    exact lockWeight_of_ne a.2 hqa.symm
  rw [hs.locked q, Replica.locks, hlock] at hzero
  cases hzero

theorem total_lockWeight_filter (p q : DataR) (threads : List (DataR × Task)) :
    total (lockWeight q) (threads.filter (fun a => a.1 != p)) =
      if q = p then 0 else total (lockWeight q) threads := by
  induction threads with
  | nil => simp
  | cons a threads ih =>
      obtain ⟨k, task⟩ := a
      rcases eq_or_ne k p with rfl | hk
      · rw [List.filter_cons_of_neg (by simp), ih, total_cons]
        split
        · rfl
        case isFalse hq => rw [lockWeight_of_ne task hq, Nat.zero_add]
      · rw [List.filter_cons_of_pos (by simpa using hk), total_cons, total_cons, ih]
        split
        case isTrue hq => rw [hq, lockWeight_of_ne task hk.symm]
        · rfl

theorem housed_crash (p : DataR) (hs : s.Housed) : (s.crash p).Housed := by
  have hother : ∀ {q}, q ≠ p → Function.update s.cluster.listening p false q = s.cluster.listening q :=
    fun hq => Function.update_of_ne hq ..
  refine ⟨fun q task hmem => ?_, fun q packet hmem => ?_, fun q joiner hmem => ?_, ?_, fun q => ?_⟩
  · obtain ⟨hmem, hq⟩ := List.mem_filter.mp hmem
    exact (hother (by simpa using hq)).trans (hs.threads q task hmem)
  · obtain ⟨hmem, hq⟩ := List.mem_filter.mp hmem
    exact (hother (by simpa using hq)).trans (hs.packets q packet hmem)
  · obtain ⟨hmem, hq⟩ := List.mem_filter.mp hmem
    exact (hother (by simpa using hq)).trans (hs.joiners q joiner hmem)
  · exact (List.filter_sublist.map Prod.fst).nodup hs.nodup
  · have hq := total_lockWeight_filter p q s.cluster.threads
    rcases eq_or_ne q p with rfl | hqp
    · simpa [Network.crash, Replica.locks] using hq
    · simpa [Network.crash, Function.update_of_ne hqp, hqp, hs.locked q] using hq

end Housed

namespace FaultyNetwork

theorem housed_reached {memory : DataR → Memory} {s : FaultyNetwork}
    (hs : Reaches step (fun _ _ => True) (start memory) s) :
    s.network.Housed := by
  refine hs.invariant (I := fun s => s.network.Housed)
    ⟨nofun, nofun, nofun, List.nodup_nil, fun _ => rfl⟩ (fun s a t hs _ h => ?_)
  cases a with
  | network a =>
      obtain ⟨network, hnetwork, rfl⟩ := Option.map_eq_some_iff.mp h
      exact housed_step hs hnetwork
  | crash p =>
      obtain ⟨-, h⟩ := Option.ite_none_right_eq_some.mp h
      obtain rfl := Option.some.inj h
      exact housed_crash p hs

section Chase

variable {p K : DataR}

-- Entries of `K` that a broadcast of `p` has not come to yet.
def Ahead (p K : DataR) (c : Cluster) : Prop :=
  ∀ news rest, (p, .broadcast news rest) ∈ c.threads → (c.replica p).peer_list.count K ≤ rest.count K

theorem runTask_of_locked {online : DataR → Bool} {photo_id : UInt32} {r : Replica} {task : Task}
    {e : Effect} (h : runTask online photo_id r task = some e) (hlock : r.peer_lock = true)
    (hother : task.holdsLock = false) :
    e.replica.peer_list = r.peer_list ∧ ∀ next, e.next = some next → next.holdsLock = false := by
  rcases runTask_cases h with hlocal | hpart
  · have he := runTask_local h hlocal
    refine ⟨he.peer_list, fun next hnext => ?_⟩
    rcases he.next next hnext with hnext' | ⟨news, rfl⟩
    · exact hnext'.holdsLock
    · rfl
  · cases hpart with
    | lock news hfree => exact absurd hlock (Bool.eq_false_iff.mp hfree)
    | register K asker hfree => exact absurd hlock (Bool.eq_false_iff.mp hfree)
    | remove K hfree => exact absurd hlock (Bool.eq_false_iff.mp hfree)
    | sendPhotos asker photos => exact ⟨rfl, by simp⟩
    | _ => cases hother

-- The thread that holds the lock passes an entry by, or strikes it off.
theorem runTask_broadcast_count {online : DataR → Bool} {photo_id : UInt32} {r : Replica} {news : News}
    {rest : List DataR} {e : Effect} (h : runTask online photo_id r (.broadcast news rest) = some e)
    (hK : online K = false) (hcount : r.peer_list.count K ≤ rest.count K) :
    ∀ news' rest', e.next = some (.broadcast news' rest') →
      e.replica.peer_list.count K ≤ rest'.count K := by
  intro news' rest' hnext
  rcases runTask_cases h with hlocal | hpart
  · exact hlocal.elim
  · cases hpart with
    | unlock => cases hnext
    | tell _ k rest packet hk hpacket =>
        obtain ⟨rfl, rfl⟩ := Task.broadcast.inj (Option.some.inj hnext)
        have hkK : k ≠ K := fun heq => by simp [heq, hK] at hk
        rwa [List.count_cons_of_ne hkK] at hcount
    | strike _ k rest hoff =>
        obtain ⟨rfl, rfl⟩ := Task.broadcast.inj (Option.some.inj hnext)
        rcases eq_or_ne k K with rfl | hkK
        · rw [List.count_cons_self] at hcount
          rw [List.count_erase_self]
          omega
        · rw [List.count_cons_of_ne hkK] at hcount
          rwa [List.count_erase_of_ne hkK.symm]

theorem ahead_cluster {s c : Cluster} {a : ClusterAction} (hlocked : s.Locked)
    (hlock : (s.replica p).peer_lock = true) (hK : s.listening K = false) (hahead : Ahead p K s)
    (h : s.step a = some c) : Ahead p K c := by
  cases a with
  | call q request =>
      obtain ⟨-, h⟩ := Option.ite_none_right_eq_some.mp h
      obtain ⟨task, htask, rfl⟩ := Option.map_eq_some_iff.mp h
      intro news rest hmem
      rcases List.mem_append.mp hmem with hold | hnew
      · exact hahead news rest hold
      · obtain ⟨-, rfl⟩ := Prod.mk.inj (List.mem_singleton.mp hnew)
        exact (call_task_local htask).elim
  | run i =>
      obtain ⟨⟨⟨q, task⟩, threads⟩, hpick, h⟩ := Option.bind_eq_some_iff.mp h
      obtain ⟨e, hrun, h⟩ := Option.bind_eq_some_iff.mp h
      obtain rfl := Option.some.inj h
      intro news rest hmem
      rcases eq_or_ne p q with rfl | hpq
      · rw [apply_replica_self]
        rcases List.mem_append.mp hmem with hold | hnew
        · -- The thread that runs is not the one that broadcasts.
          have hother : task.holdsLock = false := by
            by_contra hholds
            rw [Bool.not_eq_false] at hholds
            have hone := total_pick (lockWeight p) hpick
            have hle := le_total (lockWeight p) hold
            rw [hlocked p, lockWeight_self, hholds, Replica.locks, hlock] at hone
            rw [lockWeight_self] at hle
            simp only [Task.holdsLock, if_true] at hone hle
            omega
          rw [(runTask_of_locked hrun hlock hother).1]
          exact hahead news rest (pick_rest_subset hpick hold)
        · obtain ⟨next, hnext, heq⟩ := Option.map_eq_some_iff.mp (Option.mem_toList.mp hnew)
          obtain ⟨-, rfl⟩ := Prod.mk.inj heq
          cases task with
          | broadcast news' rest' =>
              exact runTask_broadcast_count hrun hK (hahead news' rest' (pick_mem hpick)) news rest hnext
          | _ => exact absurd ((runTask_of_locked hrun hlock rfl).2 _ hnext) (by simp [Task.holdsLock])
      · rw [apply_replica_of_ne hpq]
        rcases List.mem_append.mp hmem with hold | hnew
        · exact hahead news rest (pick_rest_subset hpick hold)
        · obtain ⟨next, -, heq⟩ := Option.map_eq_some_iff.mp (Option.mem_toList.mp hnew)
          exact absurd (Prod.mk.inj heq).1.symm hpq
  | deliver i =>
      obtain ⟨⟨⟨q, packet⟩, packets⟩, -, h⟩ := Option.bind_eq_some_iff.mp h
      obtain rfl := Option.some.inj h
      intro news rest hmem
      rcases List.mem_append.mp hmem with hold | hnew
      · exact hahead news rest hold
      · have htask := (Prod.mk.inj (List.mem_singleton.mp hnew)).2
        cases packet <;> cases htask

-- What a step of the network leaves as it is.
theorem ahead_of_eq {s t : Cluster} (hahead : Ahead p K s) (hthreads : t.threads = s.threads)
    (hlist : (t.replica p).peer_list = (s.replica p).peer_list) : Ahead p K t := by
  intro news rest hmem
  rw [hlist]
  exact hahead news rest (hthreads ▸ hmem)

-- `p` is at a broadcast until it gives the lock back, and `K` is not started anew.
def Holding (p K : DataR) (s : FaultyNetwork) : FaultyAction → Prop
  | .network (.start k) => k ≠ K ∧ (s.network.cluster.replica p).peer_lock = true
  | _ => (s.network.cluster.replica p).peer_lock = true

structure Chases (p K : DataR) (s : Network) : Prop where
  housed : s.Housed
  gone : s.runs K = false
  ahead : Ahead p K s.cluster

theorem chases_join {s t : Network} {i j : Nat} (hs : Chases p K s)
    (hlock : (s.cluster.replica p).peer_lock = true) (h : s.step (.join i j) = some t) : Chases p K t := by
  have hhoused := housed_join hs.housed h
  have hp := hs.housed.not_joiner hlock
  obtain ⟨hoff, hnone⟩ := Network.runs_eq_false.mp hs.gone
  obtain ⟨⟨⟨k, joiner⟩, joiners⟩, hpick, h⟩ := Option.bind_eq_some_iff.mp h
  have hperm : (s.joiners.map Prod.fst).Perm (k :: joiners.map Prod.fst) := (pick_perm hpick).map Prod.fst
  have hpk : p ≠ k := fun heq => hp (hperm.mem_iff.mpr (heq ▸ List.mem_cons_self))
  have hKk : K ≠ k := fun heq => hnone (hperm.mem_iff.mpr (heq ▸ List.mem_cons_self))
  have hgone : ∀ next : Joiner, K ∉ (joiners ++ [(k, next)]).map Prod.fst := by
    intro next
    rw [List.map_append]
    exact fun hmem => hnone (hperm.mem_iff.mpr ((List.perm_append_singleton k _).mem_iff.mp hmem))
  have hother : ∀ r : Replica, ((s.cluster.setReplica k r).replica p).peer_list =
      (s.cluster.replica p).peer_list := by
    intro r
    exact congrArg Replica.peer_list (Function.update_of_ne hpk ..)
  cases runJoiner_cases h with
  | list peer_list rest lists hkept =>
      exact ⟨hhoused, Network.runs_eq_false.mpr ⟨hoff, hgone _⟩, ahead_of_eq hs.ahead rfl (hother _)⟩
  | listen has_photos =>
      refine ⟨hhoused, Network.runs_eq_false.mpr ⟨?_, fun hmem => ?_⟩, ahead_of_eq hs.ahead rfl rfl⟩
      · change Function.update s.cluster.listening k true K = false
        rwa [Function.update_of_ne hKk]
      · exact hnone (hperm.mem_iff.mpr (List.mem_cons_of_mem k hmem))
  | tell q root asker rest has_photos next hq =>
      exact ⟨hhoused, Network.runs_eq_false.mpr ⟨hoff, hgone _⟩, ahead_of_eq hs.ahead rfl rfl⟩
  | photos rest peer mail =>
      exact ⟨hhoused, Network.runs_eq_false.mpr ⟨hoff, hgone _⟩, ahead_of_eq hs.ahead rfl (hother _)⟩

theorem chases_step {s t : Network} {a : NetworkAction} (hs : Chases p K s)
    (hlock : (s.cluster.replica p).peer_lock = true) (ha : ∀ k, a = .start k → k ≠ K)
    (h : s.step a = some t) : Chases p K t := by
  have hhoused := housed_step hs.housed h
  obtain ⟨hoff, hnone⟩ := Network.runs_eq_false.mp hs.gone
  cases a with
  | cluster a =>
      obtain ⟨-, h⟩ := Option.ite_none_left_eq_some.mp h
      obtain ⟨c, hc, rfl⟩ := Option.map_eq_some_iff.mp h
      refine ⟨hhoused, Network.runs_eq_false.mpr ⟨?_, hnone⟩,
        ahead_cluster hs.housed.locked hlock hoff hs.ahead hc⟩
      rwa [← listening_step hc] at hoff
  | start k =>
      obtain ⟨-, h⟩ := Option.ite_none_left_eq_some.mp h
      obtain rfl := Option.some.inj h
      refine ⟨hhoused, Network.runs_eq_false.mpr ⟨hoff, fun hmem => ?_⟩, ahead_of_eq hs.ahead rfl rfl⟩
      rw [List.map_append] at hmem
      rcases List.mem_append.mp hmem with hold | hnew
      · exact hnone hold
      · exact ha k rfl (List.mem_singleton.mp hnew).symm
  | join i j => exact chases_join hs hlock h
  | register i =>
      obtain ⟨⟨k, newPeers⟩, -, h⟩ := Option.bind_eq_some_iff.mp h
      obtain ⟨-, h⟩ := Option.ite_none_right_eq_some.mp h
      obtain rfl := Option.some.inj h
      exact ⟨hhoused, hs.gone, ahead_of_eq hs.ahead rfl rfl⟩
  | report i =>
      obtain ⟨⟨⟨sender, gone⟩, reports⟩, -, h⟩ := Option.bind_eq_some_iff.mp h
      obtain ⟨-, h⟩ := Option.ite_none_right_eq_some.mp h
      obtain rfl := Option.some.inj h
      exact ⟨hhoused, hs.gone, ahead_of_eq hs.ahead rfl rfl⟩
  | gateway =>
      obtain ⟨e, -, h⟩ := Option.bind_eq_some_iff.mp h
      obtain rfl := Option.some.inj h
      exact ⟨hhoused, hs.gone, ahead_of_eq hs.ahead rfl rfl⟩
  | assign =>
      obtain ⟨g, -, rfl⟩ := Option.map_eq_some_iff.mp h
      exact ⟨hhoused, hs.gone, ahead_of_eq hs.ahead rfl rfl⟩

theorem chases_crash {s : Network} (q : DataR) (hs : Chases p K s) : Chases p K (s.crash q) := by
  obtain ⟨hoff, hnone⟩ := Network.runs_eq_false.mp hs.gone
  refine ⟨housed_crash q hs.housed, Network.runs_eq_false.mpr ⟨?_, fun hmem => ?_⟩,
    fun news rest hmem => ?_⟩
  · change Function.update s.cluster.listening q false K = false
    rw [Function.update_apply]
    split
    · rfl
    · exact hoff
  · exact hnone ((List.filter_sublist.map Prod.fst).subset hmem)
  · obtain ⟨hmem, hpq⟩ := List.mem_filter.mp hmem
    have hne : p ≠ q := by simpa using hpq
    change ((Function.update s.cluster.replica q _) p).peer_list.count K ≤ rest.count K
    rw [Function.update_of_ne hne]
    exact hs.ahead news rest hmem

-- A broadcast that begins when `K` is gone has struck it off by its end, whatever else happens
-- meanwhile, unless `K` is the root of the list.
theorem crashed_peer_found {memory : DataR → Memory} {s t : FaultyNetwork} {news news' : News}
    {root : DataR} {rest : List DataR}
    (hs : Reaches step (fun _ _ => True) (start memory) s) (hgone : s.network.runs K = false)
    (hlist : (s.network.cluster.replica p).peer_list = root :: rest) (hroot : root ≠ K)
    (hbegun : (p, .broadcast news rest) ∈ s.network.cluster.threads)
    (ht : Reaches step (Holding p K) s t)
    (hdone : (p, .broadcast news' []) ∈ t.network.cluster.threads) :
    K ∉ (t.network.cluster.replica p).peer_list := by
  have hhoused := housed_reached hs
  have hstart : Chases p K s.network := by
    refine ⟨hhoused, hgone, fun news'' rest'' hmem => ?_⟩
    have hsame : rest'' = rest := by
      have hone : total (lockWeight p) s.network.cluster.threads ≤ 1 := by
        rw [hhoused.locked p, Replica.locks]
        split <;> decide
      have hholds : ∀ news rest, 0 < lockWeight p (p, .broadcast news rest) := by
        intro news rest
        rw [lockWeight_self]
        exact Nat.one_pos
      have hsame := eq_of_total_le_one (lockWeight p) hmem hbegun (hholds _ _) (hholds _ _) hone
      exact (Task.broadcast.inj (Prod.mk.inj hsame).2).2
    rw [hlist, List.count_cons_of_ne hroot, hsame]
  have hchases : Chases p K t.network := by
    refine ht.invariant (I := fun t => Chases p K t.network) hstart (fun u a v hu ha h => ?_)
    cases a with
    | network a =>
        obtain ⟨network, hnetwork, rfl⟩ := Option.map_eq_some_iff.mp h
        cases a with
        | start k => exact chases_step hu ha.2 (fun _ heq => NetworkAction.start.inj heq ▸ ha.1) hnetwork
        | _ => exact chases_step hu ha (by simp) hnetwork
    | crash q =>
        obtain ⟨-, h⟩ := Option.ite_none_right_eq_some.mp h
        obtain rfl := Option.some.inj h
        exact chases_crash q hu
  have hcount := hchases.ahead news' [] hdone
  rw [List.count_nil, Nat.le_zero] at hcount
  exact List.count_eq_zero.mp hcount

instance (p K : DataR) (s : FaultyNetwork) (a : FaultyAction) : Decidable (Holding p K s a) :=
  match a with
  | .network (.start k) =>
      inferInstanceAs (Decidable (k ≠ K ∧ (s.network.cluster.replica p).peer_lock = true))
  | .network (.cluster _) => inferInstanceAs (Decidable ((s.network.cluster.replica p).peer_lock = true))
  | .network (.join _ _) => inferInstanceAs (Decidable ((s.network.cluster.replica p).peer_lock = true))
  | .network (.register _) => inferInstanceAs (Decidable ((s.network.cluster.replica p).peer_lock = true))
  | .network (.report _) => inferInstanceAs (Decidable ((s.network.cluster.replica p).peer_lock = true))
  | .network .gateway => inferInstanceAs (Decidable ((s.network.cluster.replica p).peer_lock = true))
  | .network .assign => inferInstanceAs (Decidable ((s.network.cluster.replica p).peer_lock = true))
  | .crash _ => inferInstanceAs (Decidable ((s.network.cluster.replica p).peer_lock = true))

deriving instance DecidableEq for News, Task

-- The third of three peers crashes, and the second one gets a photo to tell the others of.
def crashThenUpload : List FaultyAction :=
  threeJoins.map .network ++ .crash (localPeer 3003) :: (uploadAt (localPeer 3002) 0 4).map .network

-- It comes to the end of its list while a new peer starts.
def broadcastEnds : List FaultyAction :=
  [.network (.cluster (.run 0)), .network (.start (localPeer 3004)), .network (.cluster (.run 0))]

def uploadedPhoto : Data := ⟨[112], 1, []⟩

theorem crashed_peer_found_crashThenUpload :
    ∃ s t, execute step (fun _ _ => True) (start untouched) crashThenUpload = some s ∧
      (s.network.cluster.replica (localPeer 3002)).peer_list =
        [localPeer 3002, localPeer 3001, localPeer 3003] ∧
      execute step (Holding (localPeer 3002) (localPeer 3003)) s broadcastEnds = some t ∧
      localPeer 3003 ∉ (t.network.cluster.replica (localPeer 3002)).peer_list := by
  have hruns : (execute step (fun _ _ => True) (start untouched) crashThenUpload).bind (fun s =>
      (execute step (Holding (localPeer 3002) (localPeer 3003)) s broadcastEnds).map (fun t =>
        (s.network.runs (localPeer 3003), (s.network.cluster.replica (localPeer 3002)).peer_list,
          decide ((localPeer 3002, Task.broadcast (.photo uploadedPhoto) [localPeer 3001, localPeer 3003]) ∈
            s.network.cluster.threads),
          decide ((localPeer 3002, Task.broadcast (.photo uploadedPhoto) []) ∈
            t.network.cluster.threads)))) =
      some (false, [localPeer 3002, localPeer 3001, localPeer 3003], true, true) := by decide +kernel
  obtain ⟨s, hs, ht⟩ := Option.bind_eq_some_iff.mp hruns
  obtain ⟨t, ht, hend⟩ := Option.map_eq_some_iff.mp ht
  simp only [Prod.mk.injEq, decide_eq_true_eq] at hend
  obtain ⟨hgone, hlist, hbegun, hdone⟩ := hend
  exact ⟨s, t, hs, hlist, ht, crashed_peer_found (reaches_of_execute _ hs) hgone hlist (by decide) hbegun
    (reaches_of_execute _ ht) hdone⟩

end Chase

end FaultyNetwork

end Gallery
