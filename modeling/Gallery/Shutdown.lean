import Gallery.Cluster.Moves
import Gallery.Membership
import Gallery.Transition
import Mathlib.Data.List.Nodup

namespace Gallery

section Model

-- Where a thread of `connection` stands once its message is handled: at the check of the
-- gateway, before or in the broadcast of the type -2, which holds `peer_lock`, or in
-- `kill_server`.
inductive ShutdownTask
  | check (errno : Errno)
  | lockPeers
  | broadcast (rest : List DataR)
  | killServer
  deriving DecidableEq

-- The peers, the type -2 messages between them, and what they tell the gateway: a type -2
-- about another peer, a type -1 about themselves. The last three only record who missed the
-- gateway, who told all the others, and who was killed by a signal.
structure Peers where
  peer_list : DataR → List DataR
  peer_lock : DataR → Bool
  running : DataR → Bool
  threads : List (DataR × ShutdownTask)
  messages : List DataR
  reports : List (DataR × DataR)
  exits : List DataR
  checked : List DataR
  completed : List DataR
  signalled : List DataR

-- The lists of peers change through broadcasts only: nobody registers and nobody is deleted
-- by the gateway.
inductive PeersAction
  -- A thread is done with a message.
  | handled (p : DataR) (errno : Errno)
  -- The broadcast of another message does not reach a peer.
  | missing (p K : DataR)
  | run (i : Nat)
  -- A peer accepts a connection that brings a type -2.
  | deliver (i : Nat)

namespace Peers

variable (s : Peers) (p : DataR) (threads : List (DataR × ShutdownTask))

-- All threads of a process end with it,
def halt : Peers :=
  { s with
    running := Function.update s.running p false
    threads := threads.filter (fun a => a.1 != p) }

-- by `exit(0)`,
def exit : Peers := { s.halt p threads with exits := s.exits ++ [p] }

-- or by SIGPIPE, which a peer neither handles nor ignores. For the others an interrupt is the same.
def signal : Peers := { s.halt p s.threads with signalled := s.signalled ++ [p] }

-- A thread goes on; `threads` are the others.
def runTask : ShutdownTask → Option Peers
  | .check errno =>
      let state := (checkGWState errno).1
      if state = 1 then
        some { s with threads := threads ++ [(p, .lockPeers)], checked := s.checked ++ [p] }
      else some { s with threads := threads }
  | .lockPeers =>
      if s.peer_lock p then none
      else
        some { s with
          peer_lock := Function.update s.peer_lock p true
          threads := threads ++ [(p, .broadcast (s.peer_list p).tail)] }
  | .broadcast [] =>
      some { s with
        peer_lock := Function.update s.peer_lock p false
        threads := threads ++ [(p, .killServer)]
        completed := s.completed ++ [p] }
  | .broadcast (K :: rest) =>
      if s.running K then
        some { s with
          threads := threads ++ [(p, .broadcast rest)]
          messages := s.messages ++ [K] }
      else
        some { s with
          peer_list := Function.update s.peer_list p ((s.peer_list p).erase K)
          threads := threads ++ [(p, .broadcast rest)]
          reports := s.reports ++ [(p, K)] }
  | .killServer => some (s.exit p threads)

def step (s : Peers) : PeersAction → Option Peers
  | .handled p errno =>
      if s.running p then
        -- The send that would leave EPIPE does not return.
        if errno = .epipe then some (s.signal p)
        else some { s with threads := s.threads ++ [(p, .check errno)] }
      else none
  | .missing p K =>
      if s.running p ∧ ¬s.peer_lock p ∧ ¬s.running K then
        some { s with
          peer_list := Function.update s.peer_list p ((s.peer_list p).erase K)
          reports := s.reports ++ [(p, K)] }
      else none
  | .run i => do
      let ((p, task), threads) ← pick s.threads i
      s.runTask p threads task
  | .deliver i => do
      let (p, messages) ← pick s.messages i
      if s.running p then
        some { s with messages := messages, threads := s.threads ++ [(p, .killServer)] }
      else some { s with messages := messages }

-- No thread is at the check or shuts down, and no type -2 is on its way.
def Quiet : Prop := s.threads = [] ∧ s.messages = []

-- Peers that run and know each other.
def among (peers : List DataR) : Peers where
  peer_list p := p :: peers.erase p
  peer_lock _ := false
  running p := decide (p ∈ peers)
  threads := []
  messages := []
  reports := []
  exits := []
  checked := []
  completed := []
  signalled := []

end Peers

end Model

namespace Peers

section Steps

variable {s t : Peers} {a : PeersAction}

-- Everything a step can do.
inductive StepCases (s t : Peers) : PeersAction → Prop
  | handled (p : DataR) (errno : Errno) (hp : s.running p = true) (herrno : errno ≠ .epipe)
      (ht : t = { s with threads := s.threads ++ [(p, .check errno)] }) :
      StepCases s t (.handled p errno)
  | signal (p : DataR) (hp : s.running p = true) (ht : t = s.signal p) :
      StepCases s t (.handled p .epipe)
  | missing (p K : DataR) (hp : s.running p = true) (hfree : s.peer_lock p = false)
      (hK : s.running K = false)
      (ht : t = { s with
        peer_list := Function.update s.peer_list p ((s.peer_list p).erase K)
        reports := s.reports ++ [(p, K)] }) : StepCases s t (.missing p K)
  | miss (i : Nat) (p : DataR) (errno : Errno) (threads : List (DataR × ShutdownTask))
      (hpick : pick s.threads i = some ((p, .check errno), threads)) (hstate : (checkGWState errno).1 = 1)
      (ht : t = { s with threads := threads ++ [(p, .lockPeers)], checked := s.checked ++ [p] }) :
      StepCases s t (.run i)
  | pass (i : Nat) (p : DataR) (errno : Errno) (threads : List (DataR × ShutdownTask))
      (hpick : pick s.threads i = some ((p, .check errno), threads))
      (ht : t = { s with threads := threads }) : StepCases s t (.run i)
  | lock (i : Nat) (p : DataR) (threads : List (DataR × ShutdownTask))
      (hpick : pick s.threads i = some ((p, .lockPeers), threads)) (hfree : s.peer_lock p = false)
      (ht : t = { s with
        peer_lock := Function.update s.peer_lock p true
        threads := threads ++ [(p, .broadcast (s.peer_list p).tail)] }) : StepCases s t (.run i)
  | complete (i : Nat) (p : DataR) (threads : List (DataR × ShutdownTask))
      (hpick : pick s.threads i = some ((p, .broadcast []), threads))
      (ht : t = { s with
        peer_lock := Function.update s.peer_lock p false
        threads := threads ++ [(p, .killServer)]
        completed := s.completed ++ [p] }) : StepCases s t (.run i)
  | tell (i : Nat) (p K : DataR) (rest : List DataR) (threads : List (DataR × ShutdownTask))
      (hpick : pick s.threads i = some ((p, .broadcast (K :: rest)), threads))
      (hK : s.running K = true)
      (ht : t = { s with
        threads := threads ++ [(p, .broadcast rest)]
        messages := s.messages ++ [K] }) : StepCases s t (.run i)
  | drop (i : Nat) (p K : DataR) (rest : List DataR) (threads : List (DataR × ShutdownTask))
      (hpick : pick s.threads i = some ((p, .broadcast (K :: rest)), threads))
      (hK : s.running K = false)
      (ht : t = { s with
        peer_list := Function.update s.peer_list p ((s.peer_list p).erase K)
        threads := threads ++ [(p, .broadcast rest)]
        reports := s.reports ++ [(p, K)] }) : StepCases s t (.run i)
  | kill (i : Nat) (p : DataR) (threads : List (DataR × ShutdownTask))
      (hpick : pick s.threads i = some ((p, .killServer), threads)) (ht : t = s.exit p threads) :
      StepCases s t (.run i)
  | told (i : Nat) (p : DataR) (messages : List DataR) (hpick : pick s.messages i = some (p, messages))
      (hp : s.running p = true)
      (ht : t = { s with messages := messages, threads := s.threads ++ [(p, .killServer)] }) :
      StepCases s t (.deliver i)
  | lost (i : Nat) (p : DataR) (messages : List DataR) (hpick : pick s.messages i = some (p, messages))
      (hp : s.running p = false) (ht : t = { s with messages := messages }) :
      StepCases s t (.deliver i)

theorem step_cases (h : s.step a = some t) : StepCases s t a := by
  cases a with
  | handled p errno =>
      simp only [step] at h
      split at h
      case isTrue hp =>
        split at h
        case isTrue herrno =>
          subst herrno
          exact .signal p hp (Option.some.inj h).symm
        case isFalse herrno => exact .handled p errno hp herrno (Option.some.inj h).symm
      case isFalse => cases h
  | missing p K =>
      simp only [step] at h
      split at h
      case isTrue hcond =>
        obtain ⟨hp, hfree, hK⟩ := hcond
        exact .missing p K hp (Bool.eq_false_iff.mpr hfree) (Bool.eq_false_iff.mpr hK)
          (Option.some.inj h).symm
      case isFalse => cases h
  | run i =>
      obtain ⟨⟨⟨p, task⟩, threads⟩, hpick, h⟩ := Option.bind_eq_some_iff.mp h
      cases task with
      | check errno =>
          simp only [runTask] at h
          split at h
          case isTrue hstate => exact .miss i p errno threads hpick hstate (Option.some.inj h).symm
          case isFalse => exact .pass i p errno threads hpick (Option.some.inj h).symm
      | lockPeers =>
          obtain ⟨hfree, h⟩ := Option.ite_none_left_eq_some.mp h
          exact .lock i p threads hpick (Bool.eq_false_iff.mpr hfree) (Option.some.inj h).symm
      | broadcast rest =>
          cases rest with
          | nil => exact .complete i p threads hpick (Option.some.inj h).symm
          | cons K rest =>
              simp only [runTask] at h
              split at h
              case isTrue hK => exact .tell i p K rest threads hpick hK (Option.some.inj h).symm
              case isFalse hK =>
                exact .drop i p K rest threads hpick (Bool.eq_false_iff.mpr hK) (Option.some.inj h).symm
      | killServer => exact .kill i p threads hpick (Option.some.inj h).symm
  | deliver i =>
      obtain ⟨⟨p, messages⟩, hpick, h⟩ := Option.bind_eq_some_iff.mp h
      dsimp only at h
      split at h
      case isTrue hp => exact .told i p messages hpick hp (Option.some.inj h).symm
      case isFalse hp => exact .lost i p messages hpick (Bool.eq_false_iff.mpr hp) (Option.some.inj h).symm

end Steps

end Peers

end Gallery
