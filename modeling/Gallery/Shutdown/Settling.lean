import Gallery.Shutdown.Invariants

namespace Gallery

namespace Peers

section Settling

variable {s t : Peers} {a : PeersAction} (bound : DataR → Nat)

-- The steps a thread still takes, and those of the messages it sends.
def stepsLeft (n : Nat) : ShutdownTask → Nat
  | .check _ => 4 + 3 * n
  | .lockPeers => 3 + 3 * n
  | .broadcast rest => 2 + 3 * rest.length
  | .killServer => 1

def threadWork (a : DataR × ShutdownTask) : Nat := stepsLeft (bound a.1) a.2

def work (s : Peers) : Nat := 2 * s.messages.length + total (threadWork bound) s.threads

-- Threads run only at peers that do, and a lock that somebody waits for is held by a broadcast.
structure Held (s : Peers) : Prop where
  threads : ∀ p task, (p, task) ∈ s.threads → s.running p = true
  broadcast : ∀ p, s.running p = true → s.peer_lock p = true → ∃ rest, (p, .broadcast rest) ∈ s.threads
  peer_list : ∀ p, (s.peer_list p).tail.length ≤ bound p

variable {bound}

def NoneHandled : PeersAction → Prop
  | .handled _ _ | .missing _ _ => False
  | _ => True

theorem broadcast_kept {i : Nat} {p q : DataR} {task : ShutdownTask} {threads : List (DataR × ShutdownTask)}
    (hpick : pick s.threads i = some ((p, task), threads)) (hne : q ≠ p ∨ ∀ rest, task ≠ .broadcast rest)
    (h : ∃ rest, (q, .broadcast rest) ∈ s.threads) : ∃ rest, (q, .broadcast rest) ∈ threads := by
  obtain ⟨rest, hmem⟩ := h
  refine ⟨rest, mem_rest hpick hmem (fun heq => ?_)⟩
  obtain ⟨hq, htask⟩ := Prod.mk.inj heq
  rcases hne with hqp | hother
  · exact hqp hq
  · exact hother rest htask.symm

theorem exists_broadcast_append {q : DataR} {threads : List (DataR × ShutdownTask)}
    (h : ∃ rest, (q, ShutdownTask.broadcast rest) ∈ threads) (more : List (DataR × ShutdownTask)) :
    ∃ rest, (q, ShutdownTask.broadcast rest) ∈ threads ++ more :=
  h.imp (fun _ hmem => List.mem_append_left more hmem)

theorem held_step (hs : s.Held bound) (h : s.step a = some t) : t.Held bound where
  threads := fun q task hmem => running_of_thread hs.threads h hmem
  broadcast := by
    intro q hq hlock
    have hbefore := running_step h hq
    cases step_cases h with
    | handled p errno hp herrno ht =>
        subst ht
        exact exists_broadcast_append (hs.broadcast q hbefore hlock) _
    | miss i p errno threads hpick hstate ht =>
        subst ht
        exact exists_broadcast_append
          (broadcast_kept hpick (Or.inr (by simp)) (hs.broadcast q hbefore hlock)) _
    | pass i p errno threads hpick ht =>
        subst ht
        exact broadcast_kept hpick (Or.inr (by simp)) (hs.broadcast q hbefore hlock)
    | lock i p threads hpick hfree ht =>
        subst ht
        rcases eq_or_ne q p with rfl | hqp
        · exact ⟨_, List.mem_append_right _ (List.mem_singleton.mpr rfl)⟩
        · have hold : s.peer_lock q = true := by simpa [Function.update_of_ne hqp] using hlock
          exact exists_broadcast_append
            (broadcast_kept hpick (Or.inl hqp) (hs.broadcast q hbefore hold)) _
    | complete i p threads hpick ht =>
        subst ht
        have hqp : q ≠ p := by
          rintro rfl
          simp at hlock
        have hold : s.peer_lock q = true := by simpa [Function.update_of_ne hqp] using hlock
        exact exists_broadcast_append
          (broadcast_kept hpick (Or.inl hqp) (hs.broadcast q hbefore hold)) _
    | tell i p K rest threads hpick hK ht =>
        subst ht
        rcases eq_or_ne q p with rfl | hqp
        · exact ⟨rest, List.mem_append_right _ (List.mem_singleton.mpr rfl)⟩
        · exact exists_broadcast_append
            (broadcast_kept hpick (Or.inl hqp) (hs.broadcast q hbefore hlock)) _
    | drop i p K rest threads hpick hK ht =>
        subst ht
        rcases eq_or_ne q p with rfl | hqp
        · exact ⟨rest, List.mem_append_right _ (List.mem_singleton.mpr rfl)⟩
        · exact exists_broadcast_append
            (broadcast_kept hpick (Or.inl hqp) (hs.broadcast q hbefore hlock)) _
    | signal p hp ht =>
        subst ht
        obtain ⟨rest, hmem⟩ := hs.broadcast q hbefore hlock
        exact ⟨rest, List.mem_filter.mpr ⟨hmem, by simpa using ne_of_running_halt p s.threads hq⟩⟩
    | missing p K hp hfree hK ht =>
        subst ht
        exact hs.broadcast q hbefore hlock
    | kill i p threads hpick ht =>
        subst ht
        have hqp : q ≠ p := ne_of_running_halt p threads hq
        obtain ⟨rest, hmem⟩ := broadcast_kept hpick (Or.inl hqp) (hs.broadcast q hbefore hlock)
        exact ⟨rest, List.mem_filter.mpr ⟨hmem, by simpa using hqp⟩⟩
    | told i p messages hpick hp ht =>
        subst ht
        exact exists_broadcast_append (hs.broadcast q hbefore hlock) _
    | lost i p messages hpick hp ht =>
        subst ht
        exact hs.broadcast q hbefore hlock
  peer_list := by
    intro q
    have herase : ∀ p K, (Function.update s.peer_list p ((s.peer_list p).erase K) q).tail.length ≤
        bound q := by
      intro p K
      rcases eq_or_ne q p with rfl | hqp
      · rw [Function.update_self]
        exact List.erase_sublist.tail.length_le.trans (hs.peer_list q)
      · rw [Function.update_of_ne hqp]
        exact hs.peer_list q
    cases step_cases h with
    | drop i p K rest threads hpick hK ht =>
        subst ht
        exact herase p K
    | missing p K hp hfree hK ht =>
        subst ht
        exact herase p K
    | _ => subst_vars; exact hs.peer_list q

-- Only what another message brings makes more work.
theorem work_step (hs : s.Held bound) (ha : NoneHandled a) (h : s.step a = some t) :
    t.work bound < s.work bound := by
  cases step_cases h with
  | handled p errno hp herrno ht => exact ha.elim
  | signal p hp ht => exact ha.elim
  | missing p K hp hfree hK ht => exact ha.elim
  | miss i p errno threads hpick hstate ht =>
      subst ht
      simp [work, total_pick (threadWork bound) hpick, threadWork, stepsLeft]
      omega
  | pass i p errno threads hpick ht =>
      subst ht
      simp [work, total_pick (threadWork bound) hpick, threadWork, stepsLeft]
  | lock i p threads hpick hfree ht =>
      subst ht
      have hbound := hs.peer_list p
      simp only [work, total_pick (threadWork bound) hpick, total_append, total_cons, total_nil,
        threadWork, stepsLeft]
      omega
  | complete i p threads hpick ht =>
      subst ht
      simp [work, total_pick (threadWork bound) hpick, threadWork, stepsLeft]
      omega
  | tell i p K rest threads hpick hK ht =>
      subst ht
      simp [work, total_pick (threadWork bound) hpick, threadWork, stepsLeft]
      omega
  | drop i p K rest threads hpick hK ht =>
      subst ht
      simp [work, total_pick (threadWork bound) hpick, threadWork, stepsLeft]
      omega
  | kill i p threads hpick ht =>
      subst ht
      have hless := total_filter_le (threadWork bound) threads (fun a => a.1 != p)
      simp only [work, total_pick (threadWork bound) hpick, exit, halt, threadWork, stepsLeft] at hless ⊢
      omega
  | told i p messages hpick hp ht =>
      subst ht
      have hlength := (pick_perm hpick).length_eq
      simp [work, hlength, threadWork, stepsLeft]
      omega
  | lost i p messages hpick hp ht =>
      subst ht
      have hlength := (pick_perm hpick).length_eq
      simp [work, hlength]

theorem pick_of_mem {α : Type} {l : List α} {x : α} (h : x ∈ l) : ∃ i rest, pick l i = some (x, rest) := by
  obtain ⟨i, hi⟩ := List.mem_iff_getElem?.mp h
  exact ⟨i, l.eraseIdx i, by simp [pick, hi]⟩

-- A thread that waits for `peer_lock` waits for a broadcast, which can go on.
theorem exists_step (hs : s.Held bound) (hbusy : ¬ s.Quiet) :
    ∃ a t, NoneHandled a ∧ s.step a = some t := by
  cases hmessages : s.messages with
  | cons p rest =>
      have hpick : pick s.messages 0 = some (p, rest) := by simp [pick, hmessages]
      have hdeliver : ∃ t, s.step (.deliver 0) = some t := by
        by_cases hp : s.running p = true <;> simp [step, hpick, hp]
      obtain ⟨t, ht⟩ := hdeliver
      exact ⟨.deliver 0, t, trivial, ht⟩
  | nil =>
      have hstuck : ∀ p task, (p, task) ∈ s.threads → (task = .lockPeers → s.peer_lock p = false) →
          ∃ a t, NoneHandled a ∧ s.step a = some t := by
        intro p task hmem hfree
        obtain ⟨i, threads, hpick⟩ := pick_of_mem hmem
        have hrun : ∃ t, s.runTask p threads task = some t := by
          cases task with
          | check errno =>
              by_cases hstate : (checkGWState errno).1 = 1 <;> simp [runTask, hstate]
          | lockPeers => simp [runTask, hfree rfl]
          | broadcast rest =>
              cases rest with
              | nil => exact ⟨_, rfl⟩
              | cons K rest => by_cases hK : s.running K = true <;> simp [runTask, hK]
          | killServer => exact ⟨_, rfl⟩
        obtain ⟨t, ht⟩ := hrun
        exact ⟨.run i, t, trivial, by simpa [step, hpick] using ht⟩
      cases hthreads : s.threads with
      | nil => exact absurd ⟨hthreads, hmessages⟩ hbusy
      | cons x rest =>
          obtain ⟨p, task⟩ := x
          have hmem : (p, task) ∈ s.threads := by rw [hthreads]; exact List.mem_cons_self
          by_cases hlocked : s.peer_lock p = true
          · obtain ⟨others, hbroadcast⟩ := hs.broadcast p (hs.threads p task hmem) hlocked
            exact hstuck p _ hbroadcast (fun heq => by cases heq)
          · exact hstuck p task hmem (fun _ => Bool.eq_false_iff.mpr hlocked)

-- What has come in is handled to its end.
theorem exists_quiet (hs : s.Held bound) :
    ∃ t, Reaches step (fun _ a => NoneHandled a) s t ∧ t.Quiet := by
  refine exists_reaches_of_progress (I := Held bound) (work bound) (fun s hs => ?_) hs
  by_cases hquiet : s.Quiet
  · exact Or.inl hquiet
  · obtain ⟨a, t, ha, h⟩ := exists_step hs hquiet
    exact Or.inr ⟨a, t, ha, h, held_step hs h, work_step hs ha h⟩

end Settling

section Missed

variable {start s t : Peers} {a : PeersAction}

def Stops : ShutdownTask → Prop
  | .check _ => False
  | _ => True

-- Who has missed the gateway is about to stop, and nobody else is before somebody has.
structure Missed (start s : Peers) : Prop where
  checked : ∀ p ∈ s.checked, s.running p = true → ∃ task, (p, task) ∈ s.threads ∧ Stops task
  unchecked : s.checked = [] →
    (∀ p, start.running p = true → s.running p = true ∨ p ∈ s.signalled) ∧ s.messages = [] ∧
    ∀ x ∈ s.threads, ¬ Stops x.2

-- A thread that stops its peer goes on doing so, as long as the peer runs.
theorem stops_step {p : DataR} {task : ShutdownTask} (h : s.step a = some t) (hmem : (p, task) ∈ s.threads)
    (hstops : Stops task) (hp : t.running p = true) : ∃ next, (p, next) ∈ t.threads ∧ Stops next := by
  have hkept : ∀ {i : Nat} {q : DataR} {old next : ShutdownTask} {threads : List (DataR × ShutdownTask)},
      pick s.threads i = some ((q, old), threads) → Stops next →
      ∃ next', (p, next') ∈ threads ++ [(q, next)] ∧ Stops next' := by
    intro i q old next threads hpick hnext
    by_cases heq : (p, task) = (q, old)
    · obtain ⟨rfl, -⟩ := Prod.mk.inj heq
      exact ⟨next, List.mem_append_right _ (List.mem_singleton.mpr rfl), hnext⟩
    · exact ⟨task, List.mem_append_left _ (mem_rest hpick hmem heq), hstops⟩
  cases step_cases h with
  | handled q errno hq herrno ht =>
      subst ht
      exact ⟨task, List.mem_append_left _ hmem, hstops⟩
  | miss i q errno threads hpick hstate ht =>
      subst ht
      exact hkept hpick trivial
  | pass i q errno threads hpick ht =>
      subst ht
      refine ⟨task, mem_rest hpick hmem ?_, hstops⟩
      rintro heq
      obtain ⟨-, rfl⟩ := Prod.mk.inj heq
      exact hstops
  | lock i q threads hpick hfree ht =>
      subst ht
      exact hkept hpick trivial
  | complete i q threads hpick ht =>
      subst ht
      exact hkept hpick trivial
  | tell i q K rest threads hpick hK ht =>
      subst ht
      exact hkept hpick trivial
  | drop i q K rest threads hpick hK ht =>
      subst ht
      exact hkept hpick trivial
  | signal q hq ht =>
      subst ht
      exact ⟨task, List.mem_filter.mpr ⟨hmem, by simpa using ne_of_running_halt q s.threads hp⟩, hstops⟩
  | missing q K hq hfree hK ht =>
      subst ht
      exact ⟨task, hmem, hstops⟩
  | kill i q threads hpick ht =>
      subst ht
      have hpq : p ≠ q := ne_of_running_halt q threads hp
      have hrest := mem_rest hpick hmem (fun heq => hpq (Prod.mk.inj heq).1)
      exact ⟨task, List.mem_filter.mpr ⟨hrest, by simpa using hpq⟩, hstops⟩
  | told i q messages hpick hq ht =>
      subst ht
      exact ⟨task, List.mem_append_left _ hmem, hstops⟩
  | lost i q messages hpick hq ht =>
      subst ht
      exact ⟨task, hmem, hstops⟩

theorem missed_step (hs : Missed start s) (h : s.step a = some t) : Missed start t where
  checked := by
    intro p hp hrunning
    have hold : p ∈ s.checked → ∃ task, (p, task) ∈ t.threads ∧ Stops task := by
      intro hp
      obtain ⟨task, hmem, hstops⟩ := hs.checked p hp (running_step h hrunning)
      exact stops_step h hmem hstops hrunning
    cases step_cases h with
    | miss i q errno threads hpick hstate ht =>
        subst ht
        rcases List.mem_append.mp hp with hbefore | hnew
        · exact hold hbefore
        · obtain rfl := List.mem_singleton.mp hnew
          exact ⟨.lockPeers, List.mem_append_right _ (List.mem_singleton.mpr rfl), trivial⟩
    | _ => subst_vars; exact hold hp
  unchecked := by
    intro hchecked
    have hidle : s.checked = [] → ∀ {i : Nat} {p : DataR} {task : ShutdownTask}
        {threads : List (DataR × ShutdownTask)}, pick s.threads i = some ((p, task), threads) →
        ¬ Stops task :=
      fun hbefore _ _ _ _ hpick => (hs.unchecked hbefore).2.2 _ (pick_mem hpick)
    have hnone : s.checked = [] → ∀ {i : Nat} {p : DataR} {messages : List DataR},
        pick s.messages i ≠ some (p, messages) := by
      intro hbefore i p messages hpick
      rw [(hs.unchecked hbefore).2.1] at hpick
      exact pick_nil hpick
    cases step_cases h with
    | handled p errno hp herrno ht =>
        subst ht
        obtain ⟨hrunning, hmessages, hthreads⟩ := hs.unchecked hchecked
        refine ⟨hrunning, hmessages, fun x hx => ?_⟩
        rcases List.mem_append.mp hx with hbefore | hnew
        · exact hthreads x hbefore
        · obtain rfl := List.mem_singleton.mp hnew
          exact id
    | signal p hp ht =>
        subst ht
        obtain ⟨hrunning, hmessages, hthreads⟩ := hs.unchecked hchecked
        refine ⟨fun q hq => ?_, hmessages, fun x hx => hthreads x (List.mem_of_mem_filter hx)⟩
        rcases eq_or_ne q p with rfl | hqp
        · exact Or.inr (List.mem_append_right _ (List.mem_singleton.mpr rfl))
        · refine (hrunning q hq).imp (fun hrun => ?_) (fun hmem => List.mem_append_left _ hmem)
          simpa [signal, halt, Function.update_of_ne hqp] using hrun
    | missing p K hp hfree hK ht =>
        subst ht
        exact hs.unchecked hchecked
    | miss i p errno threads hpick hstate ht =>
        subst ht
        exact absurd hchecked (by simp)
    | pass i p errno threads hpick ht =>
        subst ht
        obtain ⟨hrunning, hmessages, hthreads⟩ := hs.unchecked hchecked
        exact ⟨hrunning, hmessages, fun x hx => hthreads x (pick_rest_subset hpick hx)⟩
    | lock i p threads hpick hfree ht => subst ht; exact (hidle hchecked hpick trivial).elim
    | complete i p threads hpick ht => subst ht; exact (hidle hchecked hpick trivial).elim
    | tell i p K rest threads hpick hK ht => subst ht; exact (hidle hchecked hpick trivial).elim
    | drop i p K rest threads hpick hK ht => subst ht; exact (hidle hchecked hpick trivial).elim
    | kill i p threads hpick ht => subst ht; exact (hidle hchecked hpick trivial).elim
    | told i p messages hpick hp ht => subst ht; exact (hnone hchecked hpick).elim
    | lost i p messages hpick hp ht => subst ht; exact (hnone hchecked hpick).elim

end Missed

section Fresh

variable {start s : Peers} {p q : DataR}

-- Peers that run and know each other; none of them has missed the gateway.
structure Fresh (s : Peers) : Prop where
  peer_list : ∀ p, s.running p = true → ∃ rest, s.peer_list p = p :: rest ∧ p ∉ rest ∧
    ∀ q, s.running q = true → q ≠ p → q ∈ rest
  free : ∀ p, s.peer_lock p = false
  quiet : s.Quiet
  checked : s.checked = []
  completed : s.completed = []

theorem Fresh.sound (h : start.Fresh) : start.Sound where
  peer_list := h.peer_list
  threads := by
    rw [h.quiet.1]
    exact fun _ _ hmem => absurd hmem List.not_mem_nil
  broadcast := by
    rw [h.quiet.1]
    exact fun _ _ hmem => absurd hmem List.not_mem_nil
  completed := by
    rw [h.completed]
    exact fun _ hmem => absurd hmem List.not_mem_nil

theorem Fresh.oneInitiator (h : start.Fresh) (hp : start.running p = true) : start.OneInitiator p where
  checks := by
    rw [h.quiet.1]
    exact fun _ _ hmem => absurd hmem List.not_mem_nil
  broadcasts := by
    rw [h.quiet.1]
    exact fun _ _ hmem => absurd hmem List.not_mem_nil
  messages := by
    rw [h.quiet.2]
    exact List.not_mem_nil
  killed := by
    rw [h.quiet.1]
    exact fun hmem => absurd hmem List.not_mem_nil
  stopped := fun hstopped => Bool.noConfusion (hp.symm.trans hstopped)
  waiting := fun hchecked => absurd h.checked hchecked

theorem Fresh.held (h : start.Fresh) : start.Held (fun p => (start.peer_list p).tail.length) where
  threads := h.sound.threads
  broadcast := fun p _ hlock => Bool.noConfusion ((h.free p).symm.trans hlock)
  peer_list := fun _ => Nat.le_refl _

theorem Fresh.missed (h : start.Fresh) : Missed start start where
  checked := by
    rw [h.checked]
    exact fun _ hmem => absurd hmem List.not_mem_nil
  unchecked := fun _ =>
    ⟨fun _ => Or.inl, h.quiet.2, by rw [h.quiet.1]; exact fun _ hmem => absurd hmem List.not_mem_nil⟩

-- However many peers miss the gateway, and whenever: what has come in is handled to its end,
-- and then all of them have stopped, nobody else than those that a signal killed has if none of
-- them missed it, and everybody has if one of them got through its broadcast.
theorem shutdown_settles (hstart : start.Fresh) (hrun : Reaches step (fun _ _ => True) start s) :
    ∃ t, Reaches step (fun _ a => NoneHandled a) s t ∧ t.Quiet ∧
      (∀ p ∈ t.checked, t.running p = false) ∧
      (t.checked = [] → ∀ p, start.running p = true → t.running p = true ∨ p ∈ t.signalled) ∧
      (t.completed ≠ [] → ∀ q, t.running q = false) := by
  have hheld : s.Held (fun p => (start.peer_list p).tail.length) :=
    hrun.invariant (I := Held (fun p => (start.peer_list p).tail.length)) hstart.held
      (fun s a t hs _ h => held_step hs h)
  obtain ⟨t, hrest, hquiet⟩ := exists_quiet hheld
  have hall : ∀ {u v : Peers} {ok : Peers → PeersAction → Prop}, Reaches step ok u v →
      u.Sound ∧ Missed start u → v.Sound ∧ Missed start v :=
    fun hreach hu => hreach.invariant (I := fun s => s.Sound ∧ Missed start s) hu
      (fun s a t hs _ h => ⟨sound_step hs.1 h, missed_step hs.2 h⟩)
  obtain ⟨hsound, hmissed⟩ := hall hrest (hall hrun ⟨hstart.sound, hstart.missed⟩)
  refine ⟨t, hrest, hquiet, fun p hp => Bool.eq_false_iff.mpr (fun hrunning => ?_),
    fun hchecked => (hmissed.unchecked hchecked).1, fun hcompleted q => ?_⟩
  · obtain ⟨task, hmem, -⟩ := hmissed.checked p hp hrunning
    rw [hquiet.1] at hmem
    cases hmem
  · obtain ⟨p, hp⟩ := List.exists_mem_of_ne_nil _ hcompleted
    exact told_quiet hquiet (hsound.completed p hp q)

theorem among_fresh {peers : List DataR} (hnodup : peers.Nodup) : (among peers).Fresh where
  peer_list := by
    intro p _
    refine ⟨peers.erase p, rfl, hnodup.not_mem_erase, fun q hq hqp => ?_⟩
    exact (List.mem_erase_of_ne hqp).mpr (of_decide_eq_true hq)
  free := fun _ => rfl
  quiet := ⟨rfl, rfl⟩
  checked := rfl
  completed := rfl

def gatewayPorts : List DataR := [localPeer 3001, localPeer 3002, localPeer 3003]

-- Two of three peers miss the gateway at the same time, and tell each other first.
def crossingShutdowns : List PeersAction :=
  [.handled (localPeer 3001) .eagain, .handled (localPeer 3002) .eagain] ++ List.replicate 6 (.run 0) ++
    [.deliver 0, .deliver 0, .run 2, .run 1]

theorem shutdown_settles_crossing :
    ∃ s, execute step (fun _ _ => True) (among gatewayPorts) (crossingShutdowns.take 7) = some s ∧
      ∃ t, Reaches step (fun _ a => NoneHandled a) s t ∧ t.Quiet ∧
        (∀ p ∈ t.checked, t.running p = false) ∧
        (t.checked = [] → ∀ p, (among gatewayPorts).running p = true →
          t.running p = true ∨ p ∈ t.signalled) ∧
        (t.completed ≠ [] → ∀ q, t.running q = false) := by
  have hruns : (execute step (fun _ _ => True) (among gatewayPorts)
      (crossingShutdowns.take 7)).isSome := by decide +kernel
  obtain ⟨s, hs⟩ := Option.isSome_iff_exists.mp hruns
  exact ⟨s, hs, shutdown_settles (among_fresh (by decide)) (reaches_of_execute _ hs)⟩

-- Both stop before they get to the third, which goes on.
example : (execute step (fun _ _ => True) (among gatewayPorts) crossingShutdowns).map (fun s =>
    (s.threads, s.messages, s.checked, s.completed, gatewayPorts.map s.running)) =
    some ([], [], [localPeer 3001, localPeer 3002], [], [false, false, true]) := by
  decide +kernel

-- A peer that alone misses the gateway takes all the others down with it.
theorem shutdown_alone (hstart : start.Fresh) (hp : start.running p = true)
    (hrun : Reaches step (fun _ a => Alone p a) start s) (hquiet : s.Quiet) (hmissed : s.checked ≠ []) :
    ∀ q, s.running q = false := by
  obtain ⟨hsound, hone⟩ : s.Sound ∧ s.OneInitiator p := by
    refine hrun.invariant (I := fun s => s.Sound ∧ s.OneInitiator p)
      ⟨hstart.sound, hstart.oneInitiator hp⟩ ?_
    rintro s a t ⟨hsound, hone⟩ ha h
    exact ⟨sound_step hsound h, oneInitiator_step hsound hone ha h⟩
  intro q
  rcases hone.waiting hmissed with hdone | ⟨task, hmem, -⟩
  · exact told_quiet hquiet (hsound.completed p hdone q)
  · rw [hquiet.1] at hmem
    cases hmem

instance (p : DataR) (a : PeersAction) : Decidable (Alone p a) :=
  match a with
  | .handled q errno =>
      inferInstanceAs (Decidable (((checkGWState errno).1 = 1 → q = p) ∧ (errno = .epipe → q ≠ p)))
  | .missing _ _ | .run _ | .deliver _ => .isTrue trivial

-- One of three peers misses the gateway, while another has an answer from it and the third
-- sends to a client that is gone.
def oneShutdown : List PeersAction :=
  [.handled (localPeer 3001) .eagain, .handled (localPeer 3002) .none,
    .handled (localPeer 3003) .epipe] ++ List.replicate 6 (.run 0) ++ [.deliver 0, .run 0, .run 0]

theorem shutdown_alone_oneShutdown :
    ∃ s, execute step (fun _ a => Alone (localPeer 3001) a) (among gatewayPorts) oneShutdown = some s ∧
      ∀ q, s.running q = false := by
  have hruns : (execute step (fun _ a => Alone (localPeer 3001) a) (among gatewayPorts) oneShutdown).map
      (fun s => (s.threads, s.messages, s.checked)) = some ([], [], [localPeer 3001]) := by decide +kernel
  obtain ⟨s, hs, hend⟩ := Option.map_eq_some_iff.mp hruns
  simp only [Prod.mk.injEq] at hend
  obtain ⟨hthreads, hmessages, hchecked⟩ := hend
  exact ⟨s, hs, shutdown_alone (among_fresh (by decide)) (p := localPeer 3001) (by decide)
    (reaches_of_execute _ hs) ⟨hthreads, hmessages⟩ (by simp [hchecked])⟩

end Fresh

end Peers

end Gallery
