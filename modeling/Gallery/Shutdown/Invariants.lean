import Gallery.Shutdown

namespace Gallery

namespace Peers

section Told

variable {s t : Peers} {a : PeersAction} {q : DataR}

-- The peer `q` has stopped or cannot help it: it is in `kill_server`, or a type -2 is on its
-- way to it.
def Told (s : Peers) (q : DataR) : Prop :=
  s.running q = false ∨ (q, .killServer) ∈ s.threads ∨ q ∈ s.messages

theorem mem_rest {i : Nat} {x y : DataR × ShutdownTask} {threads : List (DataR × ShutdownTask)}
    (hpick : pick s.threads i = some (y, threads)) (hx : x ∈ s.threads) (hne : x ≠ y) : x ∈ threads := by
  rcases List.mem_cons.mp ((pick_perm hpick).mem_iff.mp hx) with heq | hmem
  · exact absurd heq hne
  · exact hmem

theorem ne_of_running_halt (p : DataR) (threads : List (DataR × ShutdownTask))
    (hq : (s.halt p threads).running q = true) : q ≠ p := by
  rintro rfl
  simp [halt] at hq

theorem running_halt (p : DataR) (threads : List (DataR × ShutdownTask))
    (hq : (s.halt p threads).running q = true) : s.running q = true := by
  have hqp := ne_of_running_halt p threads hq
  simpa [halt, Function.update_of_ne hqp] using hq

theorem running_step (h : s.step a = some t) (hq : t.running q = true) : s.running q = true := by
  cases step_cases h with
  | kill i p threads hpick ht =>
      subst ht
      exact running_halt p threads hq
  | signal p hp ht =>
      subst ht
      exact running_halt p s.threads hq
  | _ => subst_vars; exact hq

-- A thread that goes on leaves the others where they are.
theorem told_of_threads {i : Nat} {p : DataR} {task : ShutdownTask}
    {threads : List (DataR × ShutdownTask)} (hpick : pick s.threads i = some ((p, task), threads))
    (htask : task ≠ .killServer) (hq : s.Told q) (hrunning : t.running = s.running)
    (hthreads : ∀ x ∈ threads, x ∈ t.threads) (hmessages : ∀ x ∈ s.messages, x ∈ t.messages) :
    t.Told q := by
  rcases hq with hstopped | hkill | hmessage
  · exact Or.inl (by rw [hrunning, hstopped])
  · have hne : (q, ShutdownTask.killServer) ≠ (p, task) := fun heq => htask (Prod.mk.inj heq).2.symm
    exact Or.inr (Or.inl (hthreads _ (mem_rest hpick hkill hne)))
  · exact Or.inr (Or.inr (hmessages q hmessage))

-- A process that ends takes its own threads along.
theorem told_halt {p : DataR} {threads : List (DataR × ShutdownTask)} (hq : s.Told q)
    (hthreads : q ≠ p → (q, .killServer) ∈ s.threads → (q, .killServer) ∈ threads) :
    (s.halt p threads).Told q := by
  rcases eq_or_ne q p with rfl | hqp
  · exact Or.inl (by simp [halt])
  · rcases hq with hstopped | hkill | hmessage
    · exact Or.inl (by simpa [halt, Function.update_of_ne hqp] using hstopped)
    · exact Or.inr (Or.inl (List.mem_filter.mpr ⟨hthreads hqp hkill, by simpa using hqp⟩))
    · exact Or.inr (Or.inr hmessage)

theorem told_step (hq : s.Told q) (h : s.step a = some t) : t.Told q := by
  cases step_cases h with
  | handled p errno hp herrno ht =>
      subst ht
      rcases hq with hstopped | hkill | hmessage
      · exact Or.inl hstopped
      · exact Or.inr (Or.inl (List.mem_append_left _ hkill))
      · exact Or.inr (Or.inr hmessage)
  | miss i p errno threads hpick hstate ht =>
      subst ht
      exact told_of_threads hpick (by simp) hq rfl
        (fun x hx => List.mem_append_left _ hx) (fun x hx => hx)
  | pass i p errno threads hpick ht =>
      subst ht
      exact told_of_threads hpick (by simp) hq rfl (fun x hx => hx) (fun x hx => hx)
  | lock i p threads hpick hfree ht =>
      subst ht
      exact told_of_threads hpick (by simp) hq rfl
        (fun x hx => List.mem_append_left _ hx) (fun x hx => hx)
  | complete i p threads hpick ht =>
      subst ht
      exact told_of_threads hpick (by simp) hq rfl
        (fun x hx => List.mem_append_left _ hx) (fun x hx => hx)
  | tell i p K rest threads hpick hK ht =>
      subst ht
      exact told_of_threads hpick (by simp) hq rfl
        (fun x hx => List.mem_append_left _ hx) (fun x hx => List.mem_append_left _ hx)
  | drop i p K rest threads hpick hK ht =>
      subst ht
      exact told_of_threads hpick (by simp) hq rfl
        (fun x hx => List.mem_append_left _ hx) (fun x hx => hx)
  | kill i p threads hpick ht =>
      subst ht
      exact told_halt hq
        (fun hqp hkill => mem_rest hpick hkill (fun heq => hqp (Prod.mk.inj heq).1))
  | signal p hp ht =>
      subst ht
      exact told_halt hq (fun _ hkill => hkill)
  | missing p K hp hfree hK ht =>
      subst ht
      exact hq
  | told i p messages hpick hp ht =>
      subst ht
      rcases hq with hstopped | hkill | hmessage
      · exact Or.inl hstopped
      · exact Or.inr (Or.inl (List.mem_append_left _ hkill))
      · rcases List.mem_cons.mp ((pick_perm hpick).mem_iff.mp hmessage) with rfl | hrest
        · exact Or.inr (Or.inl (List.mem_append_right _ (List.mem_singleton.mpr rfl)))
        · exact Or.inr (Or.inr hrest)
  | lost i p messages hpick hp ht =>
      subst ht
      rcases hq with hstopped | hkill | hmessage
      · exact Or.inl hstopped
      · exact Or.inr (Or.inl hkill)
      · rcases List.mem_cons.mp ((pick_perm hpick).mem_iff.mp hmessage) with rfl | hrest
        · exact Or.inl hp
        · exact Or.inr (Or.inr hrest)

theorem told_quiet (hs : s.Quiet) (hq : s.Told q) : s.running q = false := by
  rcases hq with hstopped | hkill | hmessage
  · exact hstopped
  · rw [hs.1] at hkill
    cases hkill
  · rw [hs.2] at hmessage
    cases hmessage

end Told

section Sound

variable {s t : Peers} {a : PeersAction}

-- The peers that run know each other, and a broadcast has told those it has passed.
structure Sound (s : Peers) : Prop where
  peer_list : ∀ p, s.running p = true → ∃ rest, s.peer_list p = p :: rest ∧ p ∉ rest ∧
    ∀ q, s.running q = true → q ≠ p → q ∈ rest
  threads : ∀ p task, (p, task) ∈ s.threads → s.running p = true
  broadcast : ∀ p rest, (p, .broadcast rest) ∈ s.threads →
    p ∉ rest ∧ ∀ q, q ≠ p → q ∉ rest → s.Told q
  completed : ∀ p ∈ s.completed, ∀ q, s.Told q

-- Where a thread comes from.
inductive ThreadOrigin (s t : Peers) (a : PeersAction) (p : DataR) : ShutdownTask → Prop
  | old (task : ShutdownTask) (hbefore : (p, task) ∈ s.threads) : ThreadOrigin s t a p task
  | handled (errno : Errno) (hp : s.running p = true) (ha : a = .handled p errno) :
      ThreadOrigin s t a p (.check errno)
  | missed (errno : Errno) (hbefore : (p, .check errno) ∈ s.threads)
      (hstate : (checkGWState errno).1 = 1) : ThreadOrigin s t a p .lockPeers
  | locked (hbefore : (p, .lockPeers) ∈ s.threads) :
      ThreadOrigin s t a p (.broadcast (s.peer_list p).tail)
  | passed (K : DataR) (rest : List DataR) (hbefore : (p, .broadcast (K :: rest)) ∈ s.threads)
      (hK : t.Told K) : ThreadOrigin s t a p (.broadcast rest)
  | completed (hbefore : (p, .broadcast []) ∈ s.threads) (hdone : p ∈ t.completed) :
      ThreadOrigin s t a p .killServer
  | told (hp : s.running p = true) (hbefore : p ∈ s.messages) : ThreadOrigin s t a p .killServer

theorem thread_origin (h : s.step a = some t) {q : DataR} {task : ShutdownTask}
    (hmem : (q, task) ∈ t.threads) : ThreadOrigin s t a q task := by
  cases step_cases h with
  | handled p errno hp herrno ht =>
      subst ht
      rcases List.mem_append.mp hmem with hold | hnew
      · exact .old task hold
      · obtain ⟨rfl, rfl⟩ := Prod.mk.inj (List.mem_singleton.mp hnew)
        exact .handled errno hp rfl
  | miss i p errno threads hpick hstate ht =>
      subst ht
      rcases List.mem_append.mp hmem with hold | hnew
      · exact .old task (pick_rest_subset hpick hold)
      · obtain ⟨rfl, rfl⟩ := Prod.mk.inj (List.mem_singleton.mp hnew)
        exact .missed errno (pick_mem hpick) hstate
  | pass i p errno threads hpick ht =>
      subst ht
      exact .old task (pick_rest_subset hpick hmem)
  | lock i p threads hpick hfree ht =>
      subst ht
      rcases List.mem_append.mp hmem with hold | hnew
      · exact .old task (pick_rest_subset hpick hold)
      · obtain ⟨rfl, rfl⟩ := Prod.mk.inj (List.mem_singleton.mp hnew)
        exact .locked (pick_mem hpick)
  | complete i p threads hpick ht =>
      subst ht
      rcases List.mem_append.mp hmem with hold | hnew
      · exact .old task (pick_rest_subset hpick hold)
      · obtain ⟨rfl, rfl⟩ := Prod.mk.inj (List.mem_singleton.mp hnew)
        exact .completed (pick_mem hpick) (List.mem_append_right _ (List.mem_singleton.mpr rfl))
  | tell i p K rest threads hpick hK ht =>
      subst ht
      rcases List.mem_append.mp hmem with hold | hnew
      · exact .old task (pick_rest_subset hpick hold)
      · obtain ⟨rfl, rfl⟩ := Prod.mk.inj (List.mem_singleton.mp hnew)
        exact .passed K rest (pick_mem hpick)
          (Or.inr (Or.inr (List.mem_append_right _ (List.mem_singleton.mpr rfl))))
  | drop i p K rest threads hpick hK ht =>
      subst ht
      rcases List.mem_append.mp hmem with hold | hnew
      · exact .old task (pick_rest_subset hpick hold)
      · obtain ⟨rfl, rfl⟩ := Prod.mk.inj (List.mem_singleton.mp hnew)
        exact .passed K rest (pick_mem hpick) (Or.inl hK)
  | kill i p threads hpick ht =>
      subst ht
      exact .old task (pick_rest_subset hpick (List.mem_of_mem_filter hmem))
  | signal p hp ht =>
      subst ht
      exact .old task (List.mem_of_mem_filter hmem)
  | missing p K hp hfree hK ht =>
      subst ht
      exact .old task hmem
  | told i p messages hpick hp ht =>
      subst ht
      rcases List.mem_append.mp hmem with hold | hnew
      · exact .old task hold
      · obtain ⟨rfl, rfl⟩ := Prod.mk.inj (List.mem_singleton.mp hnew)
        exact .told hp (pick_mem hpick)
  | lost i p messages hpick hp ht =>
      subst ht
      exact .old task hmem

-- The threads of a peer that stops are gone.
theorem running_of_thread (hs : ∀ p task, (p, task) ∈ s.threads → s.running p = true)
    (h : s.step a = some t) {q : DataR} {task : ShutdownTask} (hmem : (q, task) ∈ t.threads) :
    t.running q = true := by
  have hold : s.running q = true := by
    cases thread_origin h hmem with
    | old task hbefore => exact hs q task hbefore
    | handled errno hp ha => exact hp
    | missed errno hbefore hstate => exact hs q _ hbefore
    | locked hbefore => exact hs q _ hbefore
    | passed K rest hbefore hK => exact hs q _ hbefore
    | completed hbefore hdone => exact hs q _ hbefore
    | told hp hbefore => exact hp
  have hhalt : ∀ {p : DataR} {threads : List (DataR × ShutdownTask)},
      (q, task) ∈ (s.halt p threads).threads → (s.halt p threads).running q = true := by
    intro p threads hmem
    have hqp : q ≠ p := by simpa using (List.mem_filter.mp hmem).2
    simpa [halt, Function.update_of_ne hqp] using hold
  cases step_cases h with
  | kill i p threads hpick ht =>
      subst ht
      exact hhalt hmem
  | signal p hp ht =>
      subst ht
      exact hhalt hmem
  | _ => subst_vars; exact hold

theorem completed_step (h : s.step a = some t) {p : DataR} (hp : p ∈ t.completed) :
    p ∈ s.completed ∨ (p, .broadcast []) ∈ s.threads ∧ (p, .killServer) ∈ t.threads := by
  cases step_cases h with
  | complete i p' threads hpick ht =>
      subst ht
      rcases List.mem_append.mp hp with hold | hnew
      · exact Or.inl hold
      · obtain rfl := List.mem_singleton.mp hnew
        exact Or.inr ⟨pick_mem hpick, List.mem_append_right _ (List.mem_singleton.mpr rfl)⟩
  | _ => subst_vars; exact Or.inl hp

theorem sound_step (hs : s.Sound) (h : s.step a = some t) : t.Sound where
  peer_list := by
    intro p hp
    have hbefore := running_step h hp
    obtain ⟨rest, hlist, hnot, hrest⟩ := hs.peer_list p hbefore
    have hkept : ∀ q, t.running q = true → q ≠ p → q ∈ rest :=
      fun q hq hqp => hrest q (running_step h hq) hqp
    -- The peer that is taken out does not run any more.
    have herase : ∀ {p' K : DataR}, s.running K = false →
        t.peer_list = Function.update s.peer_list p' ((s.peer_list p').erase K) →
        ∃ rest, t.peer_list p = p :: rest ∧ p ∉ rest ∧ ∀ q, t.running q = true → q ≠ p → q ∈ rest := by
      intro p' K hK heq
      rcases eq_or_ne p p' with rfl | hne
      · have hpK : p ≠ K := by
          rintro rfl
          rw [hbefore] at hK
          cases hK
        refine ⟨rest.erase K, ?_, fun hmem => hnot (List.mem_of_mem_erase hmem), fun q hq hqp => ?_⟩
        · rw [heq, Function.update_self, hlist, List.erase_cons_tail (by simpa using hpK)]
        · have hqK : q ≠ K := by
            rintro rfl
            exact Bool.noConfusion (hK.symm.trans (running_step h hq))
          exact (List.mem_erase_of_ne hqK).mpr (hkept q hq hqp)
      · exact ⟨rest, by rw [heq, Function.update_of_ne hne, hlist], hnot, hkept⟩
    cases step_cases h with
    | drop i p' K rest' threads hpick hK ht =>
        subst ht
        exact herase hK rfl
    | missing p' K hp' hfree hK ht =>
        subst ht
        exact herase hK rfl
    | _ => subst_vars; exact ⟨rest, hlist, hnot, hkept⟩
  threads := fun q task hmem => running_of_thread hs.threads h hmem
  broadcast := by
    intro p rest hmem
    have htold : ∀ {q}, s.Told q → t.Told q := fun hq => told_step hq h
    generalize htask : ShutdownTask.broadcast rest = task at hmem
    cases thread_origin h hmem with
    | old task hbefore =>
        subst htask
        obtain ⟨hnot, hpassed⟩ := hs.broadcast p rest hbefore
        exact ⟨hnot, fun q hqp hq => htold (hpassed q hqp hq)⟩
    | handled errno hp ha => cases htask
    | missed errno hbefore hstate => cases htask
    | locked hbefore =>
        obtain rfl := ShutdownTask.broadcast.inj htask
        obtain ⟨others, hlist, hnot, hothers⟩ := hs.peer_list p (hs.threads p _ hbefore)
        rw [hlist, List.tail_cons]
        refine ⟨hnot, fun q hqp hq => htold (Or.inl ?_)⟩
        exact Bool.eq_false_iff.mpr (fun hrunning => hq (hothers q hrunning hqp))
    | passed K rest' hbefore hK =>
        obtain rfl := ShutdownTask.broadcast.inj htask
        obtain ⟨hnot, hpassed⟩ := hs.broadcast p _ hbefore
        refine ⟨fun hp => hnot (List.mem_cons_of_mem K hp), fun q hqp hq => ?_⟩
        rcases eq_or_ne q K with rfl | hqK
        · exact hK
        · refine htold (hpassed q hqp (fun hmem => ?_))
          rcases List.mem_cons.mp hmem with heq | hrest
          · exact hqK heq
          · exact hq hrest
    | completed hbefore hdone => cases htask
    | told hp hbefore => cases htask
  completed := by
    intro p hp q
    rcases completed_step h hp with hold | ⟨hbefore, hkill⟩
    · exact told_step (hs.completed p hold q) h
    · rcases eq_or_ne q p with rfl | hqp
      · exact Or.inr (Or.inl hkill)
      · exact told_step ((hs.broadcast p [] hbefore).2 q hqp List.not_mem_nil) h

end Sound

section Alone

variable {s t : Peers} {a : PeersAction} {p : DataR}

-- Only handlers of the peer `p` miss the gateway, and none of them sends on a broken
-- connection.
def Alone (p : DataR) : PeersAction → Prop
  | .handled q errno => ((checkGWState errno).1 = 1 → q = p) ∧ (errno = .epipe → q ≠ p)
  | _ => True

def ShutsDown : ShutdownTask → Prop
  | .lockPeers | .broadcast _ => True
  | _ => False

-- Nobody but `p` tells the others, and `p` does not stop before it has told them all.
structure OneInitiator (p : DataR) (s : Peers) : Prop where
  checks : ∀ q errno, (q, .check errno) ∈ s.threads → (checkGWState errno).1 = 1 → q = p
  broadcasts : ∀ q task, (q, task) ∈ s.threads → ShutsDown task → q = p
  messages : p ∉ s.messages
  killed : (p, .killServer) ∈ s.threads → p ∈ s.completed
  stopped : s.running p = false → p ∈ s.completed
  waiting : s.checked ≠ [] → p ∈ s.completed ∨ ∃ task, (p, task) ∈ s.threads ∧ ShutsDown task

theorem completed_subset (h : s.step a = some t) (hp : p ∈ s.completed) : p ∈ t.completed := by
  cases step_cases h with
  | complete i p' threads hpick ht =>
      subst ht
      exact List.mem_append_left _ hp
  | _ => subst_vars; exact hp

-- A thread that shuts its peer down goes on doing so, until the peer is done.
theorem shutsDown_step (hone : s.OneInitiator p) {task : ShutdownTask} (ha : Alone p a)
    (h : s.step a = some t) (hmem : (p, task) ∈ s.threads) (hdown : ShutsDown task) :
    p ∈ t.completed ∨ ∃ next, (p, next) ∈ t.threads ∧ ShutsDown next := by
  have hkept : ∀ {x : DataR × ShutdownTask} {i : Nat} {threads : List (DataR × ShutdownTask)},
      pick s.threads i = some (x, threads) → x ≠ (p, task) → (p, task) ∈ threads :=
    fun hpick hne => mem_rest hpick hmem (Ne.symm hne)
  have hnext : ∀ {next : ShutdownTask} {threads : List (DataR × ShutdownTask)}, ShutsDown next →
      ∃ next', (p, next') ∈ threads ++ [(p, next)] ∧ ShutsDown next' :=
    fun hnext => ⟨_, List.mem_append_right _ (List.mem_singleton.mpr rfl), hnext⟩
  cases step_cases h with
  | handled q errno hq herrno ht =>
      subst ht
      exact Or.inr ⟨task, List.mem_append_left _ hmem, hdown⟩
  | miss i q errno threads hpick hstate ht =>
      subst ht
      refine Or.inr ⟨task, List.mem_append_left _ (hkept hpick ?_), hdown⟩
      rintro heq
      obtain ⟨-, rfl⟩ := Prod.mk.inj heq
      exact hdown
  | pass i q errno threads hpick ht =>
      subst ht
      refine Or.inr ⟨task, hkept hpick ?_, hdown⟩
      rintro heq
      obtain ⟨-, rfl⟩ := Prod.mk.inj heq
      exact hdown
  | lock i q threads hpick hfree ht =>
      subst ht
      obtain rfl := hone.broadcasts q _ (pick_mem hpick) trivial
      exact Or.inr (hnext trivial)
  | complete i q threads hpick ht =>
      subst ht
      obtain rfl := hone.broadcasts q _ (pick_mem hpick) trivial
      exact Or.inl (List.mem_append_right _ (List.mem_singleton.mpr rfl))
  | tell i q K rest threads hpick hK ht =>
      subst ht
      obtain rfl := hone.broadcasts q _ (pick_mem hpick) trivial
      exact Or.inr (hnext trivial)
  | drop i q K rest threads hpick hK ht =>
      subst ht
      obtain rfl := hone.broadcasts q _ (pick_mem hpick) trivial
      exact Or.inr (hnext trivial)
  | kill i q threads hpick ht =>
      rcases eq_or_ne q p with rfl | hqp
      · exact Or.inl (completed_subset h (hone.killed (pick_mem hpick)))
      · subst ht
        have hrest := hkept hpick (fun heq => hqp (Prod.mk.inj heq).1)
        exact Or.inr ⟨task, List.mem_filter.mpr ⟨hrest, by simpa using Ne.symm hqp⟩, hdown⟩
  | signal q hq ht =>
      subst ht
      have hqp : q ≠ p := ha.2 rfl
      exact Or.inr ⟨task, List.mem_filter.mpr ⟨hmem, by simpa using Ne.symm hqp⟩, hdown⟩
  | missing q K hq hfree hK ht =>
      subst ht
      exact Or.inr ⟨task, hmem, hdown⟩
  | told i q messages hpick hq ht =>
      subst ht
      exact Or.inr ⟨task, List.mem_append_left _ hmem, hdown⟩
  | lost i q messages hpick hq ht =>
      subst ht
      exact Or.inr ⟨task, hmem, hdown⟩

theorem oneInitiator_step (hs : s.Sound) (hone : s.OneInitiator p) (ha : Alone p a)
    (h : s.step a = some t) : t.OneInitiator p where
  checks := by
    intro q errno hmem hstate
    generalize htask : ShutdownTask.check errno = task at hmem
    cases thread_origin h hmem with
    | old task hbefore => exact hone.checks q errno (htask ▸ hbefore) hstate
    | handled errno' hq ha' =>
        obtain rfl := ShutdownTask.check.inj htask
        subst ha'
        exact ha.1 hstate
    | missed errno' hbefore hstate' => cases htask
    | locked hbefore => cases htask
    | passed K rest hbefore hK => cases htask
    | completed hbefore hdone => cases htask
    | told hq hbefore => cases htask
  broadcasts := by
    intro q task hmem hdown
    cases thread_origin h hmem with
    | old task hbefore => exact hone.broadcasts q task hbefore hdown
    | handled errno hq ha' => exact hdown.elim
    | missed errno hbefore hstate => exact hone.checks q errno hbefore hstate
    | locked hbefore => exact hone.broadcasts q _ hbefore trivial
    | passed K rest hbefore hK => exact hone.broadcasts q _ hbefore trivial
    | completed hbefore hdone => exact hdown.elim
    | told hq hbefore => exact hdown.elim
  messages := by
    cases step_cases h with
    | tell i q K rest threads hpick hK ht =>
        subst ht
        obtain rfl := hone.broadcasts q _ (pick_mem hpick) trivial
        have hnot := (hs.broadcast q _ (pick_mem hpick)).1
        intro hmem
        rcases List.mem_append.mp hmem with hold | hnew
        · exact hone.messages hold
        · obtain rfl := List.mem_singleton.mp hnew
          exact hnot List.mem_cons_self
    | told i q messages hpick hq ht =>
        subst ht
        exact fun hmem => hone.messages (pick_rest_subset hpick hmem)
    | lost i q messages hpick hq ht =>
        subst ht
        exact fun hmem => hone.messages (pick_rest_subset hpick hmem)
    | _ => subst_vars; exact hone.messages
  killed := by
    intro hmem
    generalize htask : ShutdownTask.killServer = task at hmem
    cases thread_origin h hmem with
    | old task hbefore => exact completed_subset h (hone.killed (htask ▸ hbefore))
    | handled errno hq ha' => cases htask
    | missed errno hbefore hstate => cases htask
    | locked hbefore => cases htask
    | passed K rest hbefore hK => cases htask
    | completed hbefore hdone => exact hdone
    | told hq hbefore => exact absurd hbefore hone.messages
  stopped := by
    intro hstopped
    cases step_cases h with
    | kill i q threads hpick ht =>
        rcases eq_or_ne p q with rfl | hpq
        · exact completed_subset h (hone.killed (pick_mem hpick))
        · subst ht
          have hbefore : s.running p = false := by
            simpa [exit, halt, Function.update_of_ne hpq] using hstopped
          exact hone.stopped hbefore
    | signal q hq ht =>
        subst ht
        have hpq : p ≠ q := Ne.symm (ha.2 rfl)
        have hbefore : s.running p = false := by
          simpa [signal, halt, Function.update_of_ne hpq] using hstopped
        exact hone.stopped hbefore
    | _ => subst_vars; exact completed_subset h (hone.stopped hstopped)
  waiting := by
    intro hchecked
    by_cases hbefore : s.checked = []
    · cases step_cases h with
      | miss i q errno threads hpick hstate ht =>
          subst ht
          obtain rfl := hone.checks q errno (pick_mem hpick) hstate
          exact Or.inr ⟨.lockPeers, List.mem_append_right _ (List.mem_singleton.mpr rfl), trivial⟩
      | _ => subst_vars; exact absurd hbefore hchecked
    · rcases hone.waiting hbefore with hdone | ⟨task, hmem, hdown⟩
      · exact Or.inl (completed_subset h hdone)
      · exact shutsDown_step hone ha h hmem hdown

end Alone

end Peers

end Gallery
