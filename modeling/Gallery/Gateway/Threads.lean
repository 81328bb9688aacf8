import Gallery.Gateway.Requests
import Gallery.Transition

namespace Gallery

-- Where the thread `connection_client` is.
inductive ClientThread
  | receiving
  -- At the head of `while(!peer_found)`.
  | searching
  -- `peer_list` was not NULL; the lock is still to be taken.
  | tested
  -- Inside the lock: about to follow `peer_list->next`, to ask the new root, and to give
  -- the lock back after it was named.
  | locked
  | rotated
  | chosen (K : DataR)
  -- The reply is of type 0 with this peer, or of type 1.
  | answering (found : Option DataR)
  -- `broadcastPeers` waits for the lock the thread itself holds.
  | stuck
  deriving DecidableEq

-- Where the thread `connection_peer` is.
inductive PeerThread
  | receiving
  -- A new peer is in the list, which is still to be checked and sent.
  | appended
  deriving DecidableEq

-- The memory both threads share, where they are, and what they have sent.
structure GatewayThreads where
  ring : Process
  list_lock : Bool
  client : ClientThread
  peer : PeerThread
  lists : List (List DataR)
  replies : List (Option DataR)

inductive GatewayAction
  -- The steps of `connection_client`.
  | request
  | test
  | lock
  | rotate
  | probe (online : DataR → Bool)
  | unlock
  | reply
  -- The sections of `connection_peer` that change the list, each inside the lock.
  | append (K : DataR)
  | snapshot (online : DataR → Bool)
  | remove (K : DataR)

namespace GatewayThreads

def start : GatewayThreads := ⟨Process.start, false, .receiving, .receiving, [], []⟩

-- The entries of `peer_list` from the root on.
def registered (s : GatewayThreads) : List DataR := (ringElements s.ring).getD []

def step (s : GatewayThreads) : GatewayAction → Option GatewayThreads
  | .request =>
      if s.client = .receiving then some { s with client := .searching } else none
  | .test =>
      if s.client = .searching then
        some { s with client := if s.ring.peer_list = none then .answering none else .tested }
      else none
  | .lock =>
      if s.client = .tested ∧ s.list_lock = false then
        some { s with client := .locked, list_lock := true }
      else none
  | .rotate =>
      if s.client = .locked then do
        let r ← s.ring.peer_list
        let next ← s.ring.heap.next r
        some { s with client := .rotated, ring := ⟨s.ring.heap, some next⟩ }
      else none
  | .probe online =>
      if s.client = .rotated then do
        let r ← s.ring.peer_list
        let K ← s.ring.heap.key r
        some { s with client := if online K then .chosen K else .stuck }
      else none
  | .unlock =>
      match s.client with
      | .chosen K => some { s with client := .answering (some K), list_lock := false }
      | _ => none
  | .reply =>
      match s.client with
      | .answering found => some { s with client := .receiving, replies := s.replies ++ [found] }
      | _ => none
  | .append K =>
      if s.peer = .receiving ∧ s.list_lock = false then do
        let ring ← s.ring.append K
        some { s with ring := ring, peer := .appended }
      else none
  | .snapshot online =>
      if s.peer = .appended ∧ s.list_lock = false then do
        let (ring, d_send) ← snapshotRing online s.ring
        some { s with ring := ring, peer := .receiving, lists := s.lists ++ [d_send] }
      else none
  | .remove K =>
      if s.peer = .receiving ∧ s.list_lock = false then do
        let ring ← s.ring.remove K
        some { s with ring := ring }
      else none

-- All members answer whoever asks them.
def AllOnline (s : GatewayThreads) : GatewayAction → Prop
  | .probe online => s.registered.all online = true
  | .snapshot online => s.registered.all online = true
  | _ => True

-- No removal takes the last member out between the test of `peer_list` and the lock.
def LeavesOne (s : GatewayThreads) : GatewayAction → Prop
  | .remove K => s.client = .tested → s.registered ≠ [K]
  | _ => True

-- Where `peer_list->next` is followed there is a ring, and the peer that is named is in it.
structure Prepared (s : GatewayThreads) : Prop where
  nonempty : s.client = .locked → s.registered ≠ []
  follows : s.client = .locked → ∃ t, s.step .rotate = some t
  member : ∀ K, s.client = .chosen K → K ∈ s.registered

end GatewayThreads

-- The client thread holds the lock.
def ClientThread.inside : ClientThread → Bool
  | locked => true
  | rotated => true
  | chosen _ => true
  | stuck => true
  | _ => false

-- The client thread relies on there being a member.
def ClientThread.relies : ClientThread → Bool
  | tested => true
  | locked => true
  | rotated => true
  | _ => false

namespace GatewayThreads

structure Inv (s : GatewayThreads) (xs : List DataR) : Prop where
  ring : s.ring.Holds xs
  lock : s.list_lock = s.client.inside
  relies : s.client.relies = true → xs ≠ []
  chosen : ∀ K, s.client = .chosen K → xs.head? = some K
  appended : s.peer = .appended → xs ≠ []

theorem inv_start : Inv start [] :=
  ⟨holds_start, rfl, fun h => absurd h (by decide), fun K h => (by cases h), fun h => (by cases h)⟩

section Steps

variable {s t : GatewayThreads} {xs : List DataR}

theorem Inv.registered (hs : Inv s xs) : s.registered = xs := by
  rw [GatewayThreads.registered, ringElements_holds hs.ring, Option.getD_some]

-- With all members online the check takes nobody out.
theorem snapshotRing_allOnline {p : Process} {online : DataR → Bool} (hp : p.Holds xs)
    (hne : xs ≠ []) (hup : xs.all online = true) :
    ∃ p', snapshotRing online p = some (p', xs) ∧ p'.Holds xs := by
  obtain ⟨ys, K, rfl⟩ := List.eq_nil_or_concat xs |>.resolve_left hne
  rw [List.concat_eq_append] at hp hup ⊢
  have hys : ys.filter online = ys := List.filter_eq_self.mpr (fun k hk =>
    List.all_eq_true.mp hup k (List.mem_append_left _ hk))
  obtain ⟨p', hcall, hp'⟩ := snapshotRing_holds hp online
  rw [hys] at hcall hp'
  exact ⟨p', hcall, hp'⟩

-- What the invariant says of the phase the client thread is in.
theorem Inv.lock_at (hs : Inv s xs) {c : ClientThread} (hpc : s.client = c) :
    s.list_lock = c.inside := by
  rw [hs.lock, hpc]

theorem Inv.ne_nil (hs : Inv s xs) {c : ClientThread} (hpc : s.client = c) (hc : c.relies = true) :
    xs ≠ [] :=
  hs.relies (by rw [hpc, hc])

-- While the lock is free nobody is being named.
theorem Inv.not_chosen (hs : Inv s xs) (hfree : s.list_lock = false) (K : DataR) :
    s.client ≠ .chosen K := by
  intro hpc
  have hlock := hs.lock_at hpc
  rw [hfree] at hlock
  cases hlock

-- The client thread alone takes the lock and gives it back; the other one changes the
-- list while the lock is free.
theorem inv_step {a : GatewayAction} (hs : Inv s xs) (hup : s.AllOnline a) (hleft : s.LeavesOne a)
    (h : s.step a = some t) : ∃ ys, Inv t ys := by
  have hregistered := hs.registered
  cases a with
  | request =>
      obtain ⟨hpc, h⟩ := Option.ite_none_right_eq_some.mp h
      obtain rfl := Option.some.inj h
      have hlock := hs.lock_at hpc
      exact ⟨xs, hs.ring, hlock, by simp [ClientThread.relies], by simp, hs.appended⟩
  | test =>
      obtain ⟨hpc, h⟩ := Option.ite_none_right_eq_some.mp h
      obtain rfl := Option.some.inj h
      have hlock := hs.lock_at hpc
      have hroot := root_eq_none_iff hs.ring
      refine ⟨xs, hs.ring, ?_, ?_, ?_, hs.appended⟩
      all_goals
        by_cases hnone : s.ring.peer_list = none
        · simp [hnone, ClientThread.inside, ClientThread.relies, hlock]
        · simp [hnone, ClientThread.inside, ClientThread.relies, hlock, ← hroot]
  | lock =>
      obtain ⟨⟨hpc, -⟩, h⟩ := Option.ite_none_right_eq_some.mp h
      obtain rfl := Option.some.inj h
      exact ⟨xs, hs.ring, rfl, fun _ => hs.ne_nil hpc rfl, by simp, hs.appended⟩
  | rotate =>
      obtain ⟨hpc, h⟩ := Option.ite_none_right_eq_some.mp h
      have hne := hs.ne_nil hpc rfl
      have hlock := hs.lock_at hpc
      obtain ⟨x, ys, rfl⟩ := List.exists_cons_of_ne_nil hne
      obtain ⟨r, next, K, hroot, hnext, -, -, hturned⟩ := next_holds hs.ring
      simp only [hroot, hnext, Option.bind_eq_bind, Option.bind_some, Option.some.injEq] at h
      subst h
      exact ⟨ys ++ [x], hturned, hlock, by simp, by simp, fun _ => by simp⟩
  | probe online =>
      obtain ⟨hpc, h⟩ := Option.ite_none_right_eq_some.mp h
      have hne := hs.ne_nil hpc rfl
      have hlock := hs.lock_at hpc
      obtain ⟨r, hroot, h⟩ := Option.bind_eq_some_iff.mp h
      obtain ⟨K, hkey, h⟩ := Option.bind_eq_some_iff.mp h
      obtain rfl := Option.some.inj h
      obtain ⟨x, ys, rfl⟩ := List.exists_cons_of_ne_nil hne
      obtain ⟨r', hroot', hkey'⟩ := root_of_holds hs.ring
      obtain rfl := Option.some.inj (hroot.symm.trans hroot')
      obtain rfl := Option.some.inj (hkey.symm.trans hkey')
      have hK : online K = true := by
        rw [AllOnline, hregistered, List.all_eq_true] at hup
        exact hup K List.mem_cons_self
      refine ⟨K :: ys, hs.ring, ?_, ?_, ?_, hs.appended⟩
      · simp [hK, ClientThread.inside, hlock]
      · simp [hK, ClientThread.relies]
      · simp [hK]
  | unlock =>
      simp only [step] at h
      split at h
      case h_1 K hpc =>
        obtain rfl := Option.some.inj h
        exact ⟨xs, hs.ring, rfl, by simp [ClientThread.relies], by simp, hs.appended⟩
      case h_2 => cases h
  | reply =>
      simp only [step] at h
      split at h
      case h_1 found hpc =>
        obtain rfl := Option.some.inj h
        have hlock := hs.lock_at hpc
        exact ⟨xs, hs.ring, hlock, by simp [ClientThread.relies], by simp, hs.appended⟩
      case h_2 => cases h
  | append K =>
      obtain ⟨⟨-, hfree⟩, h⟩ := Option.ite_none_right_eq_some.mp h
      obtain ⟨ring, happend, h⟩ := Option.bind_eq_some_iff.mp h
      obtain rfl := Option.some.inj h
      obtain ⟨ring', happend', hring⟩ := append_holds hs.ring K
      obtain rfl := Option.some.inj (happend.symm.trans happend')
      exact ⟨xs ++ [K], hring, hs.lock, fun _ => by simp,
        fun K' hpc => absurd hpc (hs.not_chosen hfree K'), fun _ => by simp⟩
  | snapshot online =>
      obtain ⟨⟨hpc, -⟩, h⟩ := Option.ite_none_right_eq_some.mp h
      have hne := hs.appended hpc
      rw [AllOnline, hregistered] at hup
      obtain ⟨ring, hcall, hring⟩ := snapshotRing_allOnline hs.ring hne hup
      simp only [hcall, Option.bind_eq_bind, Option.bind_some, Option.some.injEq] at h
      subst h
      exact ⟨xs, hring, hs.lock, hs.relies, hs.chosen, fun _ => hne⟩
  | remove K =>
      obtain ⟨⟨hpc, hfree⟩, h⟩ := Option.ite_none_right_eq_some.mp h
      obtain ⟨ring, hremove, h⟩ := Option.bind_eq_some_iff.mp h
      obtain rfl := Option.some.inj h
      obtain ⟨ring', hremove', hring⟩ := remove_holds hs.ring K
      obtain rfl := Option.some.inj (hremove.symm.trans hremove')
      have hlock := hs.lock
      rw [hfree] at hlock
      refine ⟨xs.erase K, hring, hs.lock, ?_,
        fun K' hpc => absurd hpc (hs.not_chosen hfree K'), by simp [hpc]⟩
      intro hrelies
      have hne := hs.relies hrelies
      -- Outside the lock only the test relies on a member.
      have htested : s.client = .tested := by
        revert hlock hrelies
        cases s.client <;> simp [ClientThread.inside, ClientThread.relies]
      have hone := hleft htested
      rw [hregistered] at hone
      simp [hne, hone]

theorem prepared_of_inv (hs : Inv s xs) : s.Prepared := by
  have hregistered := hs.registered
  refine ⟨?_, ?_, ?_⟩
  · intro hpc
    rw [hregistered]
    exact hs.ne_nil hpc rfl
  · intro hpc
    obtain ⟨x, ys, rfl⟩ := List.exists_cons_of_ne_nil (hs.ne_nil hpc rfl)
    obtain ⟨r, next, K, hroot, hnext, -⟩ := next_holds hs.ring
    exact ⟨_, by simp [step, hpc, hroot, hnext]; rfl⟩
  · intro K hpc
    rw [hregistered]
    exact List.mem_of_head? (hs.chosen K hpc)

-- The last member taken out between the test and the lock: the thread comes to follow
-- the link of nobody.
theorem not_prepared_of_last {K : DataR} (hs : Inv s xs) (hpc : s.client = .tested)
    (hlast : s.registered = [K]) (h : s.step (.remove K) = some t) :
    ∃ u, t.step .lock = some u ∧ ¬ u.Prepared := by
  obtain ⟨⟨-, hfree⟩, h⟩ := Option.ite_none_right_eq_some.mp h
  obtain ⟨ring, hremove, h⟩ := Option.bind_eq_some_iff.mp h
  obtain rfl := Option.some.inj h
  obtain ⟨ring', hremove', hring⟩ := remove_holds hs.ring K
  obtain rfl := Option.some.inj (hremove.symm.trans hremove')
  rw [hs.registered] at hlast
  rw [hlast, List.erase_cons_head] at hring
  refine ⟨{ s with ring := ring, client := .locked, list_lock := true }, ?_, ?_⟩
  · simp [step, hpc, hfree]
  · intro hprepared
    refine hprepared.nonempty rfl ?_
    rw [registered, ringElements_holds hring, Option.getD_some]

end Steps

section Alone

-- The steps of the client thread.
def ofClient : GatewayAction → Prop
  | .append _ => False
  | .snapshot _ => False
  | .remove _ => False
  | _ => True

-- Left alone, the thread does what one request does in one go.
theorem client_alone {s : GatewayThreads} {g g' : GatewayState} {online : DataR → Bool} {fuel : Nat}
    {buff reply : MessageGw} (hpc : s.client = .searching) (hring : s.ring = g.ring)
    (hlock : s.list_lock = g.list_lock)
    (h : g.connectionClient online fuel buff = some (g', reply)) :
    ∃ t, Reaches step (fun _ a => ofClient a) s t ∧ t.ring = g'.ring ∧ t.list_lock = g'.list_lock ∧
      t.client = .answering (if reply.type = 0 then some ⟨reply.addr, reply.port⟩ else none) := by
  obtain ⟨rounds, rfl⟩ : ∃ rounds, fuel = rounds + 1 := by
    cases fuel with
    | zero => simp [GatewayState.connectionClient, GatewayState.clientLoop] at h
    | succ rounds => exact ⟨rounds, rfl⟩
  cases hroot : g.ring.peer_list with
  | none =>
      simp only [GatewayState.connectionClient, GatewayState.clientLoop, hroot, Option.bind_eq_bind,
        Option.bind_some, Option.some.injEq, Prod.mk.injEq] at h
      obtain ⟨rfl, rfl⟩ := h
      have htest : s.step .test = some { s with client := .answering none } := by
        simp [step, hpc, hring, hroot]
      exact ⟨_, Reaches.refl.step .test trivial htest, hring, hlock, rfl⟩
  | some r =>
      have hfree : g.list_lock = false := by
        by_contra hheld
        have hlocked := GatewayState.lock_of_held (g := g) (by simpa using hheld)
        simp [GatewayState.connectionClient, GatewayState.clientLoop, hroot, hlocked] at h
      simp only [GatewayState.connectionClient, GatewayState.clientLoop, hroot,
        GatewayState.lock_of_free hfree, Option.bind_eq_bind, Option.bind_some] at h
      obtain ⟨⟨g1, found⟩, hsearch, h⟩ := Option.bind_eq_some_iff.mp h
      obtain ⟨next, hnext, hsearch⟩ := Option.bind_eq_some_iff.mp hsearch
      obtain ⟨K, hkey, hsearch⟩ := Option.bind_eq_some_iff.mp hsearch
      by_cases hup : online K = true
      · simp only [hup, if_true, Option.some.injEq, Prod.mk.injEq] at hsearch
        obtain ⟨rfl, rfl⟩ := hsearch
        obtain ⟨rfl, rfl⟩ := Prod.mk.inj (Option.some.inj h)
        let s1 : GatewayThreads := { s with client := .tested }
        let s2 : GatewayThreads := { s with client := .locked, list_lock := true }
        let s3 : GatewayThreads := { s2 with client := .rotated, ring := ⟨g.ring.heap, some next⟩ }
        have h1 : s.step .test = some s1 := by simp [step, hpc, hring, hroot, s1]
        have h2 : s1.step .lock = some s2 := by simp [step, s1, s2, hlock, hfree]
        have h3 : s2.step .rotate = some s3 := by simp [step, s2, s3, hring, hroot, hnext]
        have h4 : s3.step (.probe online) = some { s3 with client := .chosen K } := by
          simp [step, s3, hkey, hup]
        have h5 : ({ s3 with client := .chosen K } : GatewayThreads).step .unlock =
            some { s3 with client := .answering (some K), list_lock := false } := rfl
        have hrun : Reaches step (fun _ a => ofClient a) s _ :=
          ((((Reaches.refl.step .test trivial h1).step .lock trivial h2).step .rotate trivial
            h3).step (.probe online) trivial h4).step .unlock trivial h5
        exact ⟨_, hrun, rfl, rfl, by simp⟩
      · -- The thread would wait for its own lock.
        simp [hup, GatewayState.broadcastPeers_of_held] at hsearch

end Alone

section Runs

variable {s t : GatewayThreads}

def Orderly (s : GatewayThreads) (a : GatewayAction) : Prop := s.AllOnline a ∧ s.LeavesOne a

theorem inv_of_reaches {xs : List DataR} (hs : Inv s xs) (h : Reaches step Orderly s t) :
    ∃ ys, Inv t ys :=
  Reaches.invariant (I := fun s => ∃ xs, Inv s xs) h ⟨xs, hs⟩
    (fun _ _ _ ⟨_, hs⟩ ha ht => inv_step hs ha.1 ha.2 ht)

-- In a run where every member answers, the ring is there whenever the client thread follows
-- it as long as no removal takes the last member out between the test and the lock; a
-- removal that does makes a run in which it is not.
theorem prepared_iff (h : Reaches step Orderly start s) :
    s.Prepared ∧ ∀ a t, s.AllOnline a → s.step a = some t →
      (s.LeavesOne a ↔ ∀ u, Reaches step Orderly t u → u.Prepared) := by
  obtain ⟨xs, hs⟩ := inv_of_reaches inv_start h
  refine ⟨prepared_of_inv hs, ?_⟩
  intro a t hup hstep
  constructor
  · intro hleft u hu
    obtain ⟨ys, ht⟩ := inv_step hs hup hleft hstep
    obtain ⟨zs, hu⟩ := inv_of_reaches ht hu
    exact prepared_of_inv hu
  · intro hall
    cases a with
    | remove K =>
        intro hpc hlast
        obtain ⟨u, hlock, hnot⟩ := not_prepared_of_last hs hpc hlast hstep
        exact hnot (hall u (Reaches.refl.step .lock ⟨trivial, trivial⟩ hlock))
    | _ => trivial

instance (s : GatewayThreads) (a : GatewayAction) : Decidable (s.AllOnline a) :=
  match a with
  | .probe online => inferInstanceAs (Decidable (s.registered.all online = true))
  | .snapshot online => inferInstanceAs (Decidable (s.registered.all online = true))
  | .request | .test | .lock | .rotate | .unlock | .reply | .append _ | .remove _ =>
      inferInstanceAs (Decidable True)

instance (s : GatewayThreads) (a : GatewayAction) : Decidable (s.LeavesOne a) :=
  match a with
  | .remove K => inferInstanceAs (Decidable (s.client = .tested → s.registered ≠ [K]))
  | .request | .test | .lock | .rotate | .unlock | .reply | .append _ | .probe _ | .snapshot _ =>
      inferInstanceAs (Decidable True)

instance (s : GatewayThreads) (a : GatewayAction) : Decidable (s.Orderly a) :=
  inferInstanceAs (Decidable (s.AllOnline a ∧ s.LeavesOne a))

-- A peer joins, and a client's request gets as far as the test.
def joinThenTest (K : DataR) : List GatewayAction :=
  [.append K, .snapshot (fun _ => true), .request, .test]

-- One of two peers leaves before the lock is taken.
theorem prepared_iff_oneLeaves :
    ∃ s, execute step Orderly start ([.append ⟨[49], 3002⟩, .snapshot (fun _ => true)] ++
        joinThenTest ⟨[49], 3001⟩ ++ [.remove ⟨[49], 3002⟩, .lock]) = some s ∧
      s.client = .locked ∧ s.Prepared := by
  obtain ⟨s, hplay, hpc⟩ : ∃ s, execute step Orderly start
      ([.append ⟨[49], 3002⟩, .snapshot (fun _ => true)] ++ joinThenTest ⟨[49], 3001⟩ ++
        [.remove ⟨[49], 3002⟩, .lock]) = some s ∧ s.client = .locked :=
    Option.map_eq_some_iff.mp (by decide +kernel)
  exact ⟨s, hplay, hpc, (prepared_iff (reaches_of_execute _ hplay)).1⟩

-- The only peer does.
theorem lastLeaves_not_prepared :
    ∃ s, Reaches step AllOnline start s ∧ s.client = .locked ∧ s.registered = [] ∧
      s.step .rotate = none ∧ ¬ s.Prepared := by
  obtain ⟨s, hplay, hstate⟩ : ∃ s, execute step AllOnline start
      (joinThenTest ⟨[49], 3001⟩ ++ [.remove ⟨[49], 3001⟩, .lock]) = some s ∧
      (s.client, s.registered, (s.step .rotate).isNone) = (.locked, [], true) :=
    Option.map_eq_some_iff.mp (by decide +kernel)
  obtain ⟨hpc, hrest⟩ := Prod.mk.inj hstate
  obtain ⟨hregistered, hnone⟩ := Prod.mk.inj hrest
  exact ⟨s, reaches_of_execute _ hplay, hpc, hregistered, Option.isNone_iff_eq_none.mp hnone,
    fun h => h.nonempty hpc hregistered⟩

end Runs

end GatewayThreads

end Gallery
