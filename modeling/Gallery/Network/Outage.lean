import Gallery.Network.Crashes

namespace Gallery

section Stuck

-- The gateway tells the others of a dead peer, and still has the sender of the report before it:
-- there the loop does not go on.
structure Gateway.Stuck (g : Gateway) : Prop where
  list_lock : g.list_lock = true
  task : ∃ dead sender first rest, g.task = .tell dead sender first rest ∧ sender ∈ rest ∧
    (first = true → rest.head? ≠ some sender)

theorem Gateway.Stuck.isIdle {g : Gateway} (h : g.Stuck) : g.task.isIdle = false := by
  obtain ⟨dead, sender, first, rest, htask, -⟩ := h.task
  rw [htask]
  rfl

theorem runGateway_stuck {online : DataR → Bool} {g : Gateway} {e : GatewayEffect} (hg : g.Stuck)
    (h : runGateway online g = some e) : e.gateway.Stuck ∧ e.gateway.peer_list = g.peer_list := by
  obtain ⟨dead, sender, first, rest, htask, hmem, hfirst⟩ := hg.task
  cases rest with
  | nil => cases hmem
  | cons k rest =>
      simp only [runGateway, htask] at h
      split at h
      case isTrue hk =>
        obtain ⟨hroot, -⟩ := Option.ite_none_right_eq_some.mp h
        exact absurd (congrArg some hk) (hfirst hroot)
      case isFalse hk =>
        obtain rfl := Option.some.inj h
        refine ⟨⟨hg.list_lock, dead, sender, false, rest, rfl, ?_,
          fun hroot => absurd hroot Bool.false_ne_true⟩, rfl⟩
        exact (List.mem_cons.mp hmem).resolve_left (fun heq => hk heq.symm)

-- What a stuck gateway keeps from the state `s` on.
structure Network.Halted (s t : Network) : Prop where
  stuck : t.gateway.Stuck
  peer_list : t.gateway.peer_list = s.gateway.peer_list
  photo_id : t.cluster.photo_id = s.cluster.photo_id

theorem halted_step {s t u : Network} {a : NetworkAction} (hs : s.Halted t) (h : t.step a = some u) :
    s.Halted u := by
  have hbusy := hs.stuck.isIdle
  cases a with
  | cluster a =>
      obtain ⟨hfree, h⟩ := Option.ite_none_left_eq_some.mp h
      obtain ⟨c, hc, rfl⟩ := Option.map_eq_some_iff.mp h
      refine ⟨hs.stuck, hs.peer_list, ?_⟩
      rw [← hs.photo_id]
      cases a with
      | call p request =>
          obtain ⟨-, hc⟩ := Option.ite_none_right_eq_some.mp hc
          obtain ⟨task, -, rfl⟩ := Option.map_eq_some_iff.mp hc
          rfl
      | run i =>
          obtain ⟨⟨⟨p, task⟩, threads⟩, hpick, hc⟩ := Option.bind_eq_some_iff.mp hc
          obtain ⟨e, hrun, hc⟩ := Option.bind_eq_some_iff.mp hc
          obtain rfl := Option.some.inj hc
          refine runTask_photo_id hrun ?_
          by_contra hasks
          rw [Bool.not_eq_false] at hasks
          apply hfree
          rw [Network.asksId, pick_get hpick, Option.any_some, hasks, hbusy]
          rfl
      | deliver i =>
          obtain ⟨⟨⟨p, packet⟩, packets⟩, -, hc⟩ := Option.bind_eq_some_iff.mp hc
          obtain rfl := Option.some.inj hc
          rfl
  | start K =>
      obtain ⟨-, h⟩ := Option.ite_none_left_eq_some.mp h
      obtain rfl := Option.some.inj h
      exact ⟨hs.stuck, hs.peer_list, hs.photo_id⟩
  | join i j =>
      obtain ⟨⟨⟨K, joiner⟩, joiners⟩, -, h⟩ := Option.bind_eq_some_iff.mp h
      cases runJoiner_cases h <;> exact ⟨hs.stuck, hs.peer_list, hs.photo_id⟩
  | register i =>
      obtain ⟨⟨K, newPeers⟩, -, h⟩ := Option.bind_eq_some_iff.mp h
      obtain ⟨hidle, -⟩ := Option.ite_none_right_eq_some.mp h
      rw [hbusy] at hidle
      cases hidle
  | report i =>
      obtain ⟨⟨⟨sender, dead⟩, reports⟩, -, h⟩ := Option.bind_eq_some_iff.mp h
      obtain ⟨hidle, -⟩ := Option.ite_none_right_eq_some.mp h
      rw [hbusy] at hidle
      cases hidle
  | gateway =>
      obtain ⟨e, he, h⟩ := Option.bind_eq_some_iff.mp h
      obtain rfl := Option.some.inj h
      obtain ⟨hstuck, hlist⟩ := runGateway_stuck hs.stuck he
      exact ⟨hstuck, hlist.trans hs.peer_list, hs.photo_id⟩
  | assign =>
      obtain ⟨g, hg, -⟩ := Option.map_eq_some_iff.mp h
      exact absurd hs.stuck.list_lock (Option.ite_none_left_eq_some.mp hg).1

-- It takes no further message, neither of a peer nor of a client.
theorem Gateway.Stuck.takes_nothing {s : Network} (h : s.gateway.Stuck) :
    (∀ i, s.step (.register i) = none) ∧ (∀ i, s.step (.report i) = none) ∧ s.step .assign = none := by
  refine ⟨fun i => Option.eq_none_iff_forall_ne_some.mpr fun t ht => ?_,
    fun i => Option.eq_none_iff_forall_ne_some.mpr fun t ht => ?_,
    Option.eq_none_iff_forall_ne_some.mpr fun t ht => ?_⟩
  · obtain ⟨⟨K, newPeers⟩, -, ht⟩ := Option.bind_eq_some_iff.mp ht
    have hidle := (Option.ite_none_right_eq_some.mp ht).1
    rw [h.isIdle] at hidle
    cases hidle
  · obtain ⟨⟨⟨sender, dead⟩, reports⟩, -, ht⟩ := Option.bind_eq_some_iff.mp ht
    have hidle := (Option.ite_none_right_eq_some.mp ht).1
    rw [h.isIdle] at hidle
    cases hidle
  · obtain ⟨g, hg, -⟩ := Option.map_eq_some_iff.mp ht
    exact (Option.ite_none_left_eq_some.mp hg).1 h.list_lock

end Stuck

namespace FaultyNetwork

variable {s t : FaultyNetwork} {dead sender : DataR}

theorem halted_reached (hs : s.network.gateway.Stuck) (ht : Reaches step (fun _ _ => True) s t) :
    s.network.Halted t.network := by
  refine ht.invariant (I := fun t => s.network.Halted t.network) ⟨hs, rfl, rfl⟩ (fun t a u hinv _ h => ?_)
  cases a with
  | network a =>
      obtain ⟨network, hnetwork, rfl⟩ := Option.map_eq_some_iff.mp h
      exact halted_step hinv hnetwork
  | crash p =>
      obtain ⟨-, h⟩ := Option.ite_none_right_eq_some.mp h
      obtain rfl := Option.some.inj h
      exact ⟨hinv.stuck, hinv.peer_list, hinv.photo_id⟩

theorem gateway_goes_on {e : GatewayEffect}
    (he : runGateway s.network.cluster.listening s.network.gateway = some e) :
    ∃ t, Reaches step (fun _ _ => True) s t ∧ t.network.gateway = e.gateway := by
  let t : FaultyNetwork := { s with network := { s.network with
    cluster := s.network.cluster.send e.sent
    gateway := e.gateway
    lists := s.network.lists ++ e.lists } }
  have hstep : s.step (.network .gateway) = some t := by
    simp only [step, Network.step, he]
    rfl
  exact ⟨t, Reaches.refl.step _ trivial hstep, rfl⟩

-- Left alone the gateway comes to the end of the list, where the sender is not in it.
theorem exists_idle {first : Bool} {rest : List DataR}
    (htask : s.network.gateway.task = .tell dead sender first rest) (hmem : sender ∉ rest) :
    ∃ t, Reaches step (fun _ _ => True) s t ∧ t.network.gateway.task = .idle := by
  induction rest generalizing s first with
  | nil =>
      have he : runGateway s.network.cluster.listening s.network.gateway = some
          { gateway := { s.network.gateway with list_lock := false, task := .idle } } := by
        simp only [runGateway, htask]
      obtain ⟨t, ht, hgateway⟩ := gateway_goes_on he
      exact ⟨t, ht, congrArg Gateway.task hgateway⟩
  | cons k rest ih =>
      obtain ⟨hk, hrest⟩ := not_or.mp (List.mem_cons.not.mp hmem)
      have he : runGateway s.network.cluster.listening s.network.gateway = some
          { gateway := { s.network.gateway with task := .tell dead sender false rest }
            sent := if s.network.cluster.listening k then [(k, .deletePeer dead)] else [] } := by
        simp only [runGateway, htask, if_neg (Ne.symm hk)]
      obtain ⟨t, ht, hgateway⟩ := gateway_goes_on he
      obtain ⟨u, hu, hidle⟩ := ih (congrArg Gateway.task hgateway) hrest
      exact ⟨u, ht.trans hu, hidle⟩

-- A report is done with when its sender is not listed or is the root of the list. Otherwise the
-- gateway never takes a message again, whatever the others do.
theorem report_handled_iff {l : List DataR} (hlock : s.network.gateway.list_lock = true)
    (htask : s.network.gateway.task = .tell dead sender true l) :
    ((∃ t, Reaches step (fun _ _ => True) s t ∧ t.network.gateway.task = .idle) ↔
      (sender ∈ l → l.head? = some sender)) ∧
    (¬(sender ∈ l → l.head? = some sender) → ∀ t, Reaches step (fun _ _ => True) s t →
      (∀ i, t.network.step (.register i) = none) ∧ (∀ i, t.network.step (.report i) = none) ∧
        t.network.step .assign = none ∧ t.network.gateway.peer_list = s.network.gateway.peer_list ∧
        t.network.cluster.photo_id = s.network.cluster.photo_id) := by
  have hstuck : ¬(sender ∈ l → l.head? = some sender) → s.network.gateway.Stuck := by
    intro hlisted
    obtain ⟨hmem, hroot⟩ := Classical.not_imp.mp hlisted
    exact ⟨hlock, dead, sender, true, l, htask, hmem, fun _ => hroot⟩
  refine ⟨⟨fun ⟨t, ht, hidle⟩ => ?_, fun hplace => ?_⟩, fun hlisted t ht => ?_⟩
  · by_contra hlisted
    have hbusy := (halted_reached (hstuck hlisted) ht).stuck.isIdle
    rw [hidle] at hbusy
    cases hbusy
  · by_cases hmem : sender ∈ l
    · obtain ⟨rest, rfl⟩ := List.head?_eq_some_iff.mp (hplace hmem)
      have he : runGateway s.network.cluster.listening s.network.gateway = some
          { gateway := { s.network.gateway with list_lock := false, task := .idle } } := by
        simp only [runGateway, htask, if_true]
      obtain ⟨t, ht, hgateway⟩ := gateway_goes_on he
      exact ⟨t, ht, congrArg Gateway.task hgateway⟩
    · exact exists_idle htask hmem
  · have hhalted := halted_reached (hstuck hlisted) ht
    obtain ⟨hregister, hreport, hassign⟩ := hhalted.stuck.takes_nothing
    exact ⟨hregister, hreport, hassign, hhalted.peer_list, hhalted.photo_id⟩

deriving instance DecidableEq for GatewayTask

-- The second peer, which is not at the root, has reported the third one.
theorem report_handled_iff_crashFound :
    ∃ s, execute step (fun _ _ => True) (start untouched) (threeJoins.map .network ++ crashFound) = some s ∧
      s.network.gateway.task =
        .tell (localPeer 3003) (localPeer 3002) true [localPeer 3001, localPeer 3002] ∧
      (¬∃ t, Reaches step (fun _ _ => True) s t ∧ t.network.gateway.task = .idle) ∧
      ∀ t, Reaches step (fun _ _ => True) s t →
        (∀ i, t.network.step (.register i) = none) ∧ t.network.step .assign = none ∧
          t.network.cluster.photo_id = 1 := by
  have hruns : (execute step (fun _ _ => True) (start untouched) (threeJoins.map .network ++ crashFound)).map
      (fun s => (s.network.gateway.task, s.network.gateway.list_lock, s.network.cluster.photo_id)) =
    some (.tell (localPeer 3003) (localPeer 3002) true [localPeer 3001, localPeer 3002], true, 1) := by
    decide +kernel
  obtain ⟨s, hs, hend⟩ := Option.map_eq_some_iff.mp hruns
  obtain ⟨htask, hlock, hid⟩ : s.network.gateway.task = _ ∧ s.network.gateway.list_lock = _ ∧
      s.network.cluster.photo_id = _ := by simpa only [Prod.mk.injEq] using hend
  obtain ⟨hiff, hnever⟩ := report_handled_iff hlock htask
  have hlisted : ¬(localPeer 3002 ∈ [localPeer 3001, localPeer 3002] →
      [localPeer 3001, localPeer 3002].head? = some (localPeer 3002)) := by decide +kernel
  refine ⟨s, hs, htask, fun hidle => hlisted (hiff.mp hidle), fun t ht => ?_⟩
  obtain ⟨hregister, -, hassign, -, hsame⟩ := hnever hlisted t ht
  exact ⟨hregister, hassign, hsame.trans hid⟩

end FaultyNetwork

end Gallery
