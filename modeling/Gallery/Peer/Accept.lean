import Gallery.Transition
import Mathlib.Data.List.Nodup

namespace Gallery

section Model

-- What `main` does next: `accept`, `pthread_create` or the `nanosleep`.
inductive AcceptPhase
  | accept
  | createThread
  | sleep
  deriving DecidableEq

-- A thread of `connection`: before it copies `*client_fd`, and with its own `fd`. `serves`
-- only records the connection that `fd` was open for when it was copied.
inductive ConnectionThread
  | start
  | serving (fd : Nat) (serves : Option Nat)
  deriving DecidableEq

-- The connections are numbered as they are accepted; `table` says which of them a
-- descriptor is open for. `served`, `overtaken` and `uncreated` only record: what the
-- threads took up, an `accept` before a thread had copied its descriptor, a
-- `pthread_create` that failed.
structure Acceptor where
  client_fd : Nat
  phase : AcceptPhase
  table : Nat → Option Nat
  accepted : Nat
  threads : List ConnectionThread
  served : List (Option Nat)
  overtaken : Bool
  uncreated : Bool

inductive AcceptorAction
  -- `accept` gives a descriptor that is not in use.
  | accept (fd : Nat)
  | createThread (created : Bool)
  | wake
  -- A thread copies `*client_fd`, or is done and closes `fd`.
  | run (i : Nat)

namespace Acceptor

variable (s : Acceptor)

def step (s : Acceptor) : AcceptorAction → Option Acceptor
  | .accept fd =>
      if s.phase = .accept ∧ s.table fd = none then
        some { s with
          client_fd := fd
          phase := .createThread
          table := Function.update s.table fd (some s.accepted)
          accepted := s.accepted + 1
          overtaken := s.overtaken || decide (.start ∈ s.threads) }
      else none
  | .createThread created =>
      if s.phase = .createThread then
        if created then some { s with phase := .sleep, threads := s.threads ++ [.start] }
        else some { s with phase := .sleep, uncreated := true }
      else none
  | .wake => if s.phase = .sleep then some { s with phase := .accept } else none
  | .run i => do
      let (thread, threads) ← pick s.threads i
      match thread with
      | .start =>
          let serves := s.table s.client_fd
          some { s with
            threads := threads ++ [.serving s.client_fd serves]
            served := s.served ++ [serves] }
      | .serving fd _ => some { s with threads := threads, table := Function.update s.table fd none }

def waits : ConnectionThread → Nat
  | .start => 1
  | .serving _ _ => 0

def connectionOf : ConnectionThread → Option Nat
  | .start => none
  | .serving _ serves => serves

-- The connections that no thread has taken up and for which there is or will be one.
def pending : Nat := total waits s.threads + if s.phase = .createThread then 1 else 0

def listening (client_fd : Nat) : Acceptor where
  client_fd := client_fd
  phase := .accept
  table _ := none
  accepted := 0
  threads := []
  served := []
  overtaken := false
  uncreated := false

end Acceptor

end Model

namespace Acceptor

section Steps

variable {s t : Acceptor} {a : AcceptorAction}

inductive StepCases (s t : Acceptor) : AcceptorAction → Prop
  | accept (fd : Nat) (hphase : s.phase = .accept) (hfree : s.table fd = none)
      (ht : t = { s with
        client_fd := fd
        phase := .createThread
        table := Function.update s.table fd (some s.accepted)
        accepted := s.accepted + 1
        overtaken := s.overtaken || decide (.start ∈ s.threads) }) : StepCases s t (.accept fd)
  | created (hphase : s.phase = .createThread)
      (ht : t = { s with phase := .sleep, threads := s.threads ++ [.start] }) :
      StepCases s t (.createThread true)
  | failed (hphase : s.phase = .createThread) (ht : t = { s with phase := .sleep, uncreated := true }) :
      StepCases s t (.createThread false)
  | wake (hphase : s.phase = .sleep) (ht : t = { s with phase := .accept }) : StepCases s t .wake
  | copy (i : Nat) (threads : List ConnectionThread) (hpick : pick s.threads i = some (.start, threads))
      (ht : t = { s with
        threads := threads ++ [.serving s.client_fd (s.table s.client_fd)]
        served := s.served ++ [s.table s.client_fd] }) : StepCases s t (.run i)
  | close (i : Nat) (fd : Nat) (serves : Option Nat) (threads : List ConnectionThread)
      (hpick : pick s.threads i = some (.serving fd serves, threads))
      (ht : t = { s with threads := threads, table := Function.update s.table fd none }) :
      StepCases s t (.run i)

theorem step_cases (h : s.step a = some t) : StepCases s t a := by
  cases a with
  | accept fd =>
      obtain ⟨⟨hphase, hfree⟩, h⟩ := Option.ite_none_right_eq_some.mp h
      exact .accept fd hphase hfree (Option.some.inj h).symm
  | createThread created =>
      obtain ⟨hphase, h⟩ := Option.ite_none_right_eq_some.mp h
      cases created with
      | true => exact .created hphase (Option.some.inj h).symm
      | false => exact .failed hphase (Option.some.inj h).symm
  | wake =>
      obtain ⟨hphase, h⟩ := Option.ite_none_right_eq_some.mp h
      exact .wake hphase (Option.some.inj h).symm
  | run i =>
      obtain ⟨⟨thread, threads⟩, hpick, h⟩ := Option.bind_eq_some_iff.mp h
      cases thread with
      | start => exact .copy i threads hpick (Option.some.inj h).symm
      | serving fd serves => exact .close i fd serves threads hpick (Option.some.inj h).symm

end Steps

section InStep

variable {s t : Acceptor} {a : AcceptorAction}

-- As long as no `accept` comes too early, `client_fd` is for the one thread that still
-- copies it, and every other thread has the descriptor of its own connection.
structure InStep (s : Acceptor) : Prop where
  pending : s.pending ≤ 1
  current : s.pending = 1 → ∃ n, s.accepted = n + 1 ∧ s.table s.client_fd = some n ∧
    some n ∉ s.threads.map connectionOf
  own : ∀ fd serves, .serving fd serves ∈ s.threads →
    ∃ n < s.accepted, serves = some n ∧ s.table fd = some n
  nodup : (s.threads.filterMap connectionOf).Nodup
  served : s.uncreated = false → s.served = (List.range s.served.length).map some ∧
    s.served.length + s.pending = s.accepted

theorem mem_connectionOf {threads : List ConnectionThread} {n : Nat} :
    n ∈ threads.filterMap connectionOf ↔ ∃ fd, .serving fd (some n) ∈ threads := by
  rw [List.mem_filterMap]
  constructor
  · rintro ⟨thread, hmem, hserves⟩
    cases thread with
    | start => cases hserves
    | serving fd serves =>
        obtain rfl : serves = some n := hserves
        exact ⟨fd, hmem⟩
  · rintro ⟨fd, hmem⟩
    exact ⟨_, hmem, rfl⟩

theorem overtaken_step (h : s.step a = some t) (ht : t.overtaken = false) : s.overtaken = false := by
  cases step_cases h with
  | accept fd hphase hfree ht' =>
      subst ht'
      exact (Bool.or_eq_false_iff.mp ht).1
  | _ => subst_vars; exact ht

theorem InStep.accept (hs : s.InStep) {fd : Nat} (hphase : s.phase = .accept) (hfree : s.table fd = none)
    (hstart : .start ∉ s.threads) :
    InStep { s with
      client_fd := fd
      phase := .createThread
      table := Function.update s.table fd (some s.accepted)
      accepted := s.accepted + 1
      overtaken := s.overtaken || decide (.start ∈ s.threads) } := by
  have hwaits : total waits s.threads = 0 := by
    refine total_eq_zero waits (fun thread hmem => ?_)
    cases thread with
    | start => exact absurd hmem hstart
    | serving fd serves => rfl
  have hpending : s.pending = 0 := by simp [Acceptor.pending, hwaits, hphase]
  refine ⟨by simp [Acceptor.pending, hwaits], fun _ => ?_, fun fd' serves hmem => ?_, hs.nodup, fun hc => ?_⟩
  · refine ⟨s.accepted, rfl, Function.update_self .., fun hmem => ?_⟩
    obtain ⟨thread, hthread, hserves⟩ := List.mem_map.mp hmem
    cases thread with
    | start => cases hserves
    | serving fd' serves =>
        obtain ⟨n, hn, rfl, -⟩ := hs.own fd' serves hthread
        obtain rfl := Option.some.inj hserves
        exact Nat.lt_irrefl _ hn
  · obtain ⟨n, hn, rfl, htable⟩ := hs.own fd' serves hmem
    have hne : fd' ≠ fd := by
      rintro rfl
      rw [hfree] at htable
      cases htable
    exact ⟨n, Nat.lt_succ_of_lt hn, rfl, (Function.update_of_ne hne ..).trans htable⟩
  · obtain ⟨hserved, hlength⟩ := hs.served hc
    refine ⟨hserved, ?_⟩
    simp only [Acceptor.pending, hwaits, if_true]
    omega

theorem InStep.copy (hs : s.InStep) {i : Nat} {threads : List ConnectionThread}
    (hpick : pick s.threads i = some (.start, threads)) :
    InStep { s with
      threads := threads ++ [.serving s.client_fd (s.table s.client_fd)]
      served := s.served ++ [s.table s.client_fd] } := by
  have hwaits : total waits s.threads = 1 + total waits threads := total_pick waits hpick
  have hpending : s.pending = 1 + total waits threads + if s.phase = .createThread then 1 else 0 := by
    rw [Acceptor.pending, hwaits]
  have hone : s.pending = 1 := by
    have := hs.pending
    omega
  obtain ⟨n, hn, htable, hnot⟩ := hs.current hone
  have hnone : total waits threads + (if s.phase = .createThread then 1 else 0) = 0 := by omega
  have hperm := (pick_perm hpick).filterMap connectionOf
  have hnodup : (threads.filterMap connectionOf).Nodup := hperm.nodup_iff.mp hs.nodup
  have hafter : ({ s with
      threads := threads ++ [.serving s.client_fd (s.table s.client_fd)]
      served := s.served ++ [s.table s.client_fd] } : Acceptor).pending = 0 := by
    simpa [Acceptor.pending, waits] using hnone
  refine ⟨by omega, fun h => by omega, fun fd serves hmem => ?_, ?_, fun hc => ?_⟩
  · rcases List.mem_append.mp hmem with hold | hnew
    · exact hs.own fd serves (pick_rest_subset hpick hold)
    · obtain ⟨rfl, rfl⟩ := ConnectionThread.serving.inj (List.mem_singleton.mp hnew)
      exact ⟨n, by simp [hn], htable, htable⟩
  · rw [List.filterMap_append, htable]
    refine List.nodup_append.mpr ⟨hnodup, List.nodup_singleton n, fun m hm m' hm' heq => ?_⟩
    obtain rfl : m' = n := List.mem_singleton.mp hm'
    obtain ⟨fd, hfd⟩ := mem_connectionOf.mp (heq ▸ hm)
    exact hnot (List.mem_map.mpr ⟨_, pick_rest_subset hpick hfd, rfl⟩)
  · obtain ⟨hserved, hlength⟩ := hs.served hc
    have hlast : n = s.served.length := by omega
    constructor
    · change s.served ++ [s.table s.client_fd] = _
      rw [htable, List.length_append, List.length_singleton, List.range_succ, List.map_append, ← hserved,
        hlast, List.map_singleton]
    · rw [hafter]
      simp [hn, hlast]

theorem InStep.close (hs : s.InStep) {i fd : Nat} {serves : Option Nat} {threads : List ConnectionThread}
    (hpick : pick s.threads i = some (.serving fd serves, threads)) :
    InStep { s with threads := threads, table := Function.update s.table fd none } := by
  have hwaits : total waits s.threads = total waits threads := by
    rw [total_pick waits hpick, waits, Nat.zero_add]
  obtain ⟨n, hn, rfl, htable⟩ := hs.own fd serves (pick_mem hpick)
  have hperm := (pick_perm hpick).filterMap connectionOf
  have hnodup : (n :: threads.filterMap connectionOf).Nodup := hperm.nodup_iff.mp hs.nodup
  refine ⟨by simpa [Acceptor.pending, hwaits] using hs.pending, fun hone => ?_,
    fun fd' serves' hmem => ?_, (List.nodup_cons.mp hnodup).2, fun hc => ?_⟩
  · obtain ⟨last, hlast, hcell, hnot⟩ := hs.current (by simpa [Acceptor.pending, hwaits] using hone)
    have hne : s.client_fd ≠ fd := by
      rintro rfl
      rw [htable] at hcell
      obtain rfl := Option.some.inj hcell
      exact hnot (List.mem_map.mpr ⟨_, pick_mem hpick, rfl⟩)
    refine ⟨last, hlast, (Function.update_of_ne hne ..).trans hcell, fun hmem => hnot ?_⟩
    obtain ⟨thread, hthread, hserves⟩ := List.mem_map.mp hmem
    exact List.mem_map.mpr ⟨thread, pick_rest_subset hpick hthread, hserves⟩
  · obtain ⟨m, hm, rfl, hopen⟩ := hs.own fd' serves' (pick_rest_subset hpick hmem)
    have hne : fd' ≠ fd := by
      rintro rfl
      rw [htable] at hopen
      obtain rfl := Option.some.inj hopen
      exact (List.nodup_cons.mp hnodup).1 (mem_connectionOf.mpr ⟨fd', hmem⟩)
    exact ⟨m, hm, rfl, (Function.update_of_ne hne ..).trans hopen⟩
  · simpa [Acceptor.pending, hwaits] using hs.served hc

theorem inStep_step (hs : s.InStep) (h : s.step a = some t) (ht : t.overtaken = false) : t.InStep := by
  cases step_cases h with
  | accept fd hphase hfree ht' =>
      subst ht'
      exact hs.accept hphase hfree (of_decide_eq_false (Bool.or_eq_false_iff.mp ht).2)
  | created hphase ht' =>
      subst ht'
      have hpending : ({ s with phase := .sleep, threads := s.threads ++ [.start] } : Acceptor).pending =
          s.pending := by
        simp [Acceptor.pending, waits, hphase]
      refine ⟨hpending ▸ hs.pending, fun hone => ?_, fun fd serves hmem => ?_, ?_, fun hc => ?_⟩
      · obtain ⟨n, hn, htable, hnot⟩ := hs.current (hpending ▸ hone)
        exact ⟨n, hn, htable, by simpa [connectionOf] using hnot⟩
      · rcases List.mem_append.mp hmem with hold | hnew
        · exact hs.own fd serves hold
        · cases List.mem_singleton.mp hnew
      · have hnone : [ConnectionThread.start].filterMap connectionOf = [] := rfl
        simpa only [List.filterMap_append, hnone, List.append_nil] using hs.nodup
      · rw [hpending]
        exact hs.served hc
  | failed hphase ht' =>
      subst ht'
      have hpending : s.pending = total waits s.threads + 1 := by simp [Acceptor.pending, hphase]
      have hnone : ({ s with phase := .sleep, uncreated := true } : Acceptor).pending = 0 := by
        have := hs.pending
        simp only [Acceptor.pending, reduceCtorEq, if_false]
        omega
      exact ⟨by omega, fun hone => by omega, hs.own, hs.nodup, fun hc => by cases hc⟩
  | wake hphase ht' =>
      subst ht'
      have hpending : ({ s with phase := .accept } : Acceptor).pending = s.pending := by
        simp [Acceptor.pending, hphase]
      exact ⟨hpending ▸ hs.pending, fun hone => hs.current (hpending ▸ hone), hs.own, hs.nodup,
        fun hc => hpending ▸ hs.served hc⟩
  | copy i threads hpick ht' =>
      subst ht'
      exact hs.copy hpick
  | close i fd serves threads hpick ht' =>
      subst ht'
      exact hs.close hpick

end InStep

section Lost

variable {s t : Acceptor} {a : AcceptorAction}

-- A connection that no thread has taken up, and none will.
def Lost (s : Acceptor) : Prop :=
  ∃ k < s.accepted, some k ∉ s.served ∧ (s.table s.client_fd ≠ some k ∨ s.pending = 0)

theorem lost_step (hs : s.Lost) (h : s.step a = some t) : t.Lost := by
  obtain ⟨k, hk, hnot, hcell⟩ := hs
  cases step_cases h with
  | accept fd hphase hfree ht =>
      subst ht
      refine ⟨k, Nat.lt_succ_of_lt hk, hnot, Or.inl (fun heq => ?_)⟩
      have hlast : some s.accepted = some k := by simpa using heq
      exact Nat.ne_of_gt hk (Option.some.inj hlast)
  | created hphase ht =>
      subst ht
      refine ⟨k, hk, hnot, hcell.imp_right (fun hpending => ?_)⟩
      simp [Acceptor.pending, hphase] at hpending
  | failed hphase ht =>
      subst ht
      refine ⟨k, hk, hnot, hcell.imp_right (fun hpending => ?_)⟩
      simp [Acceptor.pending, hphase] at hpending
  | wake hphase ht =>
      subst ht
      exact ⟨k, hk, hnot, hcell.imp_right (fun hpending => by simpa [Acceptor.pending, hphase] using hpending)⟩
  | copy i threads hpick ht =>
      subst ht
      have hbusy : s.pending ≠ 0 := by
        rw [Acceptor.pending, total_pick waits hpick, waits]
        omega
      have hother : s.table s.client_fd ≠ some k := hcell.resolve_right hbusy
      refine ⟨k, hk, fun hmem => ?_, Or.inl hother⟩
      rcases List.mem_append.mp hmem with hold | hnew
      · exact hnot hold
      · exact hother (List.mem_singleton.mp hnew).symm
  | close i fd serves threads hpick ht =>
      subst ht
      refine ⟨k, hk, hnot, ?_⟩
      rcases hcell with hother | hpending
      · refine Or.inl (fun heq => hother ?_)
        rcases eq_or_ne s.client_fd fd with rfl | hne
        · simp at heq
        · exact (Function.update_of_ne hne ..).symm.trans heq
      · refine Or.inr ?_
        rw [Acceptor.pending, total_pick waits hpick, waits, Nat.zero_add] at hpending
        exact hpending

-- An `accept` that comes too early, or a thread that is not created, loses a connection.
theorem lost_of_slip (hs : s.InStep) (hserved : s.uncreated = false) (h : s.step a = some t)
    (hslip : t.uncreated = true ∨ s.overtaken = false ∧ t.overtaken = true) : t.Lost := by
  obtain ⟨hinorder, hlength⟩ := hs.served hserved
  have hlast : ∀ {n : Nat}, s.served.length = n → some n ∉ s.served := by
    rintro n hn hmem
    rw [hinorder] at hmem
    obtain ⟨m, hm, heq⟩ := List.mem_map.mp hmem
    obtain rfl := Option.some.inj heq
    rw [hn, List.mem_range] at hm
    exact Nat.lt_irrefl _ hm
  cases step_cases h with
  | accept fd hphase hfree ht =>
      subst ht
      obtain ⟨hbefore, hafter⟩ : s.overtaken = false ∧ (s.overtaken || decide (.start ∈ s.threads)) = true := by
        rcases hslip with huncreated | hovertaken
        · exact Bool.noConfusion (hserved.symm.trans huncreated)
        · exact hovertaken
      have hstart : .start ∈ s.threads := by
        rw [hbefore, Bool.false_or] at hafter
        exact of_decide_eq_true hafter
      have hpending : s.pending = 1 := by
        have hwaits := le_total waits hstart
        have hle := hs.pending
        simp only [Acceptor.pending, hphase, reduceCtorEq, if_false, waits] at hle hwaits ⊢
        omega
      obtain ⟨n, hn, -, -⟩ := hs.current hpending
      refine ⟨n, by simp only [hn]; omega, hlast (by omega), Or.inl (fun heq => ?_)⟩
      have hnew : s.accepted = n := by simpa using heq
      omega
  | failed hphase ht =>
      subst ht
      have hpending : s.pending = total waits s.threads + 1 := by simp [Acceptor.pending, hphase]
      have hle := hs.pending
      obtain ⟨n, hn, -, -⟩ := hs.current (by omega)
      refine ⟨n, by simp [hn], hlast (by omega), Or.inr ?_⟩
      simp only [Acceptor.pending, reduceCtorEq, if_false]
      omega
  | _ =>
      subst_vars
      rcases hslip with huncreated | ⟨hbefore, hafter⟩
      · exact Bool.noConfusion (hserved.symm.trans huncreated)
      · exact Bool.noConfusion (hbefore.symm.trans hafter)

end Lost

section Runs

variable {s : Acceptor}

theorem accepting_reached {client_fd : Nat} (hrun : Reaches step (fun _ _ => True) (listening client_fd) s) :
    (s.overtaken = false → s.InStep) ∧ (s.overtaken = true ∨ s.uncreated = true → s.Lost) := by
  refine hrun.invariant (I := fun s => (s.overtaken = false → s.InStep) ∧
    (s.overtaken = true ∨ s.uncreated = true → s.Lost)) ⟨fun _ => ?_, fun h => ?_⟩ ?_
  · exact ⟨Nat.zero_le _, fun h => by simp [pending, listening] at h,
      fun _ _ hmem => absurd hmem List.not_mem_nil, List.nodup_nil, fun _ => ⟨rfl, rfl⟩⟩
  · rcases h with h | h <;> cases h
  · rintro s a t ⟨hin, hlost⟩ - h
    refine ⟨fun hovertaken => inStep_step (hin (overtaken_step h hovertaken)) h hovertaken, fun hslip => ?_⟩
    by_cases hbefore : s.overtaken = true ∨ s.uncreated = true
    · exact lost_step (hlost hbefore) h
    · obtain ⟨hovertaken, huncreated⟩ := not_or.mp hbefore
      rw [Bool.not_eq_true] at hovertaken huncreated
      exact lost_of_slip (hin hovertaken) huncreated h (hslip.symm.imp_right (⟨hovertaken, ·⟩))

-- Every connection that is accepted gets its thread, in the order they come, exactly when no
-- `accept` overtakes a thread that has yet to copy its descriptor and no thread fails to be
-- created; and then no descriptor is closed but by the thread it belongs to.
theorem accepted_served {client_fd : Nat} (hrun : Reaches step (fun _ _ => True) (listening client_fd) s) :
    (s.overtaken = false → ∀ fd serves, .serving fd serves ∈ s.threads →
      ∃ n < s.accepted, serves = some n ∧ s.table fd = some n) ∧
    (s.pending = 0 → (s.served = (List.range s.accepted).map some ↔
      s.overtaken = false ∧ s.uncreated = false)) := by
  obtain ⟨hin, hlost⟩ := accepting_reached hrun
  refine ⟨fun hovertaken => (hin hovertaken).own, fun hpending => ⟨fun hserved => ?_, fun hinstep => ?_⟩⟩
  · by_contra hslip
    obtain ⟨k, hk, hnot, -⟩ := hlost (by
      rw [not_and_or, Bool.not_eq_false, Bool.not_eq_false] at hslip
      exact hslip)
    exact hnot (hserved ▸ List.mem_map.mpr ⟨k, List.mem_range.mpr hk, rfl⟩)
  · obtain ⟨hserved, hlength⟩ := (hin hinstep.1).served hinstep.2
    rw [hpending, Nat.add_zero] at hlength
    rwa [hlength] at hserved

-- Two connections, the first of which is closed before the second one comes and gets the
-- same descriptor.
def twoConnections : List AcceptorAction :=
  [.accept 5, .createThread true, .run 0, .wake, .run 0, .accept 5, .createThread true, .wake, .run 0]

-- The second `accept` comes before the first thread runs, and both threads get its descriptor.
def overtakenConnection : List AcceptorAction :=
  [.accept 5, .createThread true, .wake, .accept 6, .createThread true, .run 0, .run 0]

theorem accepted_served_twoConnections :
    ∃ s, execute step (fun _ _ => True) (listening 0) twoConnections = some s ∧
      (s.overtaken = false → ∀ fd serves, .serving fd serves ∈ s.threads →
        ∃ n < s.accepted, serves = some n ∧ s.table fd = some n) ∧
      (s.pending = 0 → (s.served = (List.range s.accepted).map some ↔
        s.overtaken = false ∧ s.uncreated = false)) ∧
      s.pending = 0 ∧ s.served = [some 0, some 1] := by
  have hruns : (execute step (fun _ _ => True) (listening 0) twoConnections).map (fun s =>
      (s.pending, s.served)) = some (0, [some 0, some 1]) := by decide +kernel
  obtain ⟨s, hs, hend⟩ := Option.map_eq_some_iff.mp hruns
  obtain ⟨hpending, hserved⟩ := Prod.mk.inj hend
  obtain ⟨hown, hiff⟩ := accepted_served (reaches_of_execute _ hs)
  exact ⟨s, hs, hown, hiff, hpending, hserved⟩

example : (execute step (fun _ _ => True) (listening 0) overtakenConnection).map (fun s =>
    (s.pending, s.served)) = some (0, [some 1, some 1]) := by decide +kernel

end Runs

end Acceptor

end Gallery
