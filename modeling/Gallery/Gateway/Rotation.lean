import Gallery.Gateway.Requests
import Gallery.Transition
import Mathlib.Data.List.Nodup

namespace Gallery

open Text

section Turns

variable {α : Type} {xs : List α} {P Q x : α}

@[simp] theorem turns_cons (x : α) (xs : List α) : turns (x :: xs) = xs ++ [x] := rfl

theorem turns_perm (xs : List α) : (turns xs).Perm xs := by
  cases xs with
  | nil => exact List.Perm.refl _
  | cons x xs => exact List.perm_append_singleton x xs

-- Nobody overtakes another one while the ring turns.
theorem sublist_turns_of_ne (h : [Q, P].Sublist (x :: xs)) (hx : x ≠ Q) :
    [Q, P].Sublist (turns (x :: xs)) := by
  cases h with
  | cons _ h => exact h.trans (List.sublist_append_left xs [x])
  | cons_cons _ h => exact absurd rfl hx

-- A newcomer is placed between the last one and the root.
theorem sublist_turns_append (h : [Q, P].Sublist (turns xs)) (x : α) :
    [Q, P].Sublist (turns (xs ++ [x])) := by
  cases xs with
  | nil => cases h
  | cons y xs =>
      rw [List.cons_append, turns_cons]
      exact h.trans (List.Sublist.append_right (List.sublist_append_left xs [x]) [y])

-- Taking out anybody but the root leaves the order of the others alone.
theorem sublist_turns_erase [DecidableEq α] (h : [Q, P].Sublist (turns xs)) (hQ : x ≠ Q)
    (hP : x ≠ P) (hx : xs.head? ≠ some x) : [Q, P].Sublist (turns (xs.erase x)) := by
  cases xs with
  | nil => cases h
  | cons y xs =>
      have hy : y ≠ x := fun he => hx (by simp [he])
      have herase : (y :: xs).erase x = y :: xs.erase x := List.erase_cons_tail (by simpa using hy)
      have hnotmem : x ∉ [Q, P] := by simp [hQ, hP]
      rw [herase, turns_cons]
      have hsub := h.erase x
      rw [List.erase_of_not_mem hnotmem, turns_cons] at hsub
      by_cases hmem : x ∈ xs
      · rwa [List.erase_append_left _ hmem] at hsub
      · rw [List.erase_of_not_mem (by simp [hmem, Ne.symm hy])] at hsub
        rwa [List.erase_of_not_mem hmem]

end Turns

-- What reaches the gateway, and who answers when asked then. `held` is what was in the place
-- of the peer a report names.
inductive GatewayEvent
  | client (online : DataR → Bool) (buff : MessageGw)
  | peer (online : DataR → Bool) (held : DataR) (sender : CString) (buff : MessageGw)

-- The gateway and the peers it has sent clients to, the first one first.
structure GatewayRun where
  gateway : GatewayState
  assigned : List DataR

namespace GatewayRun

def start : GatewayRun := ⟨GatewayState.start, []⟩

def registered (s : GatewayRun) : List DataR := s.gateway.registered

def step (fuel : Nat) (s : GatewayRun) : GatewayEvent → Option GatewayRun
  | .client online buff => do
      let (g, reply) ← s.gateway.connectionClient online fuel buff
      some ⟨g, if reply.type = 0 then s.assigned ++ [⟨reply.addr, reply.port⟩] else s.assigned⟩
  | .peer online held sender buff => do
      let (g, _) ← s.gateway.connectionPeer online fuel held sender buff
      some ⟨g, s.assigned⟩

-- Every registered peer answers, and a new one has an identity of its own.
def Orderly (s : GatewayRun) : GatewayEvent → Prop
  | .client online _ => s.registered.all online = true
  | .peer online _ sender buff =>
      buff.type = 0 → s.registered.all online = true ∧ setDataR sender buff.port ∉ s.registered

-- The peer an event takes out of the list.
def removes : GatewayEvent → Option DataR
  | .client _ _ => none
  | .peer _ held sender buff =>
      match buff.type.toInt with
      | -1 => some (setDataR sender buff.port)
      | -2 => namedPeer held buff.addr
      | _ => none

-- The peer the last client was sent to is not taken out of a longer list.
def Spares (s : GatewayRun) (e : GatewayEvent) : Prop :=
  ∀ K ∈ removes e, s.registered.head? = some K → s.registered.length ≤ 2

-- What the gateway's ring is like between two messages.
structure Steady (s : GatewayRun) (xs : List DataR) : Prop where
  ring : s.gateway.ring.Holds xs
  free : s.gateway.list_lock = false
  nodup : xs.Nodup

theorem steady_start : Steady start [] := ⟨holds_start, rfl, List.nodup_nil⟩

section Steps

variable {s t : GatewayRun} {xs : List DataR} (hs : Steady s xs)

include hs

theorem Steady.registered : s.registered = xs := GatewayState.registered_eq hs.ring

theorem step_client {fuel : Nat} {online : DataR → Bool} {buff : MessageGw}
    (hup : s.registered.all online = true) (h : s.step fuel (.client online buff) = some t) :
    Steady t (turns xs) ∧ t.assigned = s.assigned ++ (turns xs).head?.toList := by
  obtain ⟨rounds, rfl⟩ : ∃ rounds, fuel = rounds + 1 := by
    cases fuel with
    | zero => simp [step, GatewayState.connectionClient, GatewayState.clientLoop] at h
    | succ rounds => exact ⟨rounds, rfl⟩
  have hnodup := (turns_perm xs).nodup_iff.mpr hs.nodup
  cases xs with
  | nil =>
      simp only [step, GatewayState.connectionClient, GatewayState.clientLoop_nil online hs.ring,
        Option.bind_eq_bind, Option.bind_some, Option.some.injEq] at h
      subst h
      exact ⟨⟨hs.ring, hs.free, hnodup⟩, by simp [turns]⟩
  | cons x xs =>
      obtain ⟨ring, K, hring, hhead, hanswers, -⟩ :=
        GatewayState.clientLoop_cons online hs.ring hs.free (rounds + 1) rounds
      have hK : online K = true := by
        rw [hs.registered, List.all_eq_true] at hup
        exact hup K ((turns_perm (x :: xs)).mem_iff.mp (List.mem_of_head? hhead))
      simp only [step, GatewayState.connectionClient, hanswers hK, Option.bind_eq_bind,
        Option.bind_some, Option.some.injEq, if_true] at h
      subst h
      exact ⟨⟨hring, hs.free, hnodup⟩, by simp [hhead]⟩

-- A new peer goes behind the last one.
theorem step_join {fuel : Nat} {online : DataR → Bool} {held : DataR} {sender : CString} {buff : MessageGw}
    (htype : buff.type = 0) (hup : s.registered.all online = true)
    (hnew : setDataR sender buff.port ∉ s.registered)
    (h : s.step fuel (.peer online held sender buff) = some t) :
    Steady t (xs ++ [setDataR sender buff.port]) ∧ t.assigned = s.assigned := by
  obtain ⟨ring, hcall, hring⟩ :=
    GatewayState.connectionPeer_join online hs.ring hs.free fuel held sender htype
  simp only [step, hcall, Option.bind_eq_bind, Option.bind_some, Option.some.injEq] at h
  subst h
  rw [hs.registered] at hup hnew
  rw [List.filter_eq_self.mpr (List.all_eq_true.mp hup)] at hring
  refine ⟨⟨hring, hs.free, ?_⟩, rfl⟩
  rw [List.nodup_append]
  refine ⟨hs.nodup, List.nodup_singleton _, ?_⟩
  intro a ha b hb
  obtain rfl := List.mem_singleton.mp hb
  exact fun hab => hnew (hab ▸ ha)

theorem step_tellOthers {K : DataR} {fuel : Nat} {online : DataR → Bool} {message : CString}
    {exc : Option DataR} {ring : Process} {g' : GatewayState} {list : Option (List DataR)}
    (hring : ring.Holds (xs.erase K))
    (h : ({ s.gateway with ring := ring } : GatewayState).tellOthers online fuel message exc =
      some (g', list)) : Steady ⟨g', s.assigned⟩ (xs.erase K) := by
  obtain ⟨hsame, hlock, -⟩ := GatewayState.tellOthers_some online h
  exact ⟨by rw [hsame]; exact hring, hlock.trans hs.free, hs.nodup.erase K⟩

theorem step_remove {fuel : Nat} {online : DataR → Bool} {held : DataR} {sender : CString} {buff : MessageGw}
    (htype : buff.type ≠ 0) (h : s.step fuel (.peer online held sender buff) = some t) :
    ∃ K ∈ removes (.peer online held sender buff), Steady t (xs.erase K) ∧ t.assigned = s.assigned := by
  obtain ⟨⟨g', reply⟩, hcall, ht⟩ := Option.bind_eq_some_iff.mp h
  obtain rfl := Option.some.inj ht
  by_cases hleave : buff.type = -1
  · obtain ⟨ring, -, hring, hvalue⟩ :=
      GatewayState.connectionPeer_leave online hs.ring hs.free held sender hleave
    rw [hvalue] at hcall
    obtain ⟨-, hcall⟩ := Option.ite_none_right_eq_some.mp hcall
    refine ⟨setDataR sender buff.port, ?_, step_tellOthers hs hring hcall, rfl⟩
    simp [removes, hleave]
  · by_cases hreport : buff.type = -2
    · cases hnamed : namedPeer held buff.addr with
      | none =>
          rw [GatewayState.connectionPeer_overflow online fuel sender hreport hnamed] at hcall
          cases hcall
      | some K =>
          obtain ⟨ring, -, hring, hvalue⟩ :=
            GatewayState.connectionPeer_report online hs.ring hs.free sender hreport hnamed
          rw [hvalue] at hcall
          refine ⟨K, ?_, step_tellOthers hs hring hcall, rfl⟩
          simp [removes, hreport, hnamed]
    · unfold GatewayState.connectionPeer at hcall
      split at hcall
      case h_1 hzero => exact absurd (Int32.toInt_inj.mp hzero) htype
      case h_2 hminus => exact absurd (Int32.toInt_inj.mp hminus) hleave
      case h_3 hminus => exact absurd (Int32.toInt_inj.mp hminus) hreport
      case h_4 => cases hcall

-- All a message can do to the ring and to the list of assignments.
theorem step_cases {fuel : Nat} {e : GatewayEvent} (he : Orderly s e) (h : s.step fuel e = some t) :
    (Steady t (turns xs) ∧ t.assigned = s.assigned ++ (turns xs).head?.toList) ∨
    (∃ K, Steady t (xs ++ [K]) ∧ t.assigned = s.assigned) ∨
    (∃ K ∈ removes e, Steady t (xs.erase K) ∧ t.assigned = s.assigned) := by
  cases e with
  | client online buff => exact Or.inl (step_client hs he h)
  | peer online held sender buff =>
      by_cases htype : buff.type = 0
      · obtain ⟨hup, hnew⟩ := he htype
        exact Or.inr (Or.inl ⟨_, step_join hs htype hup hnew h⟩)
      · exact Or.inr (Or.inr (step_remove hs htype h))

end Steps

-- Every state of a run has a ring in order.
theorem steady_of_reaches {fuel : Nat} {s : GatewayRun} {ok : GatewayRun → GatewayEvent → Prop}
    (hok : ∀ s e, ok s e → Orderly s e) (h : Reaches (step fuel) ok start s) : ∃ xs, Steady s xs := by
  refine Reaches.invariant (I := fun s => ∃ xs, Steady s xs) h ⟨[], steady_start⟩ ?_
  rintro s e t ⟨xs, hs⟩ he ht
  rcases step_cases hs (hok s e he) ht with ⟨hs', -⟩ | ⟨K, hs', -⟩ | ⟨K, -, hs', -⟩
  · exact ⟨_, hs'⟩
  · exact ⟨_, hs'⟩
  · exact ⟨_, hs'⟩

-- From one client sent to `P` to the next one, `P` and `Q` being registered all along.
-- `s` is the state after the first of the two requests and `t` the one before the second.
structure Round (fuel : Nat) (ok : GatewayRun → GatewayEvent → Prop) (P Q : DataR)
    (s t : GatewayRun) : Prop where
  before : ∃ s0 e, Reaches (step fuel) ok start s0 ∧ ok s0 e ∧ s0.step fuel e = some s ∧
    s.assigned = s0.assigned ++ [P]
  between : Reaches (step fuel) (fun s e => ok s e ∧ P ∈ s.registered ∧ Q ∈ s.registered) s t
  registered_s : P ∈ s.registered ∧ Q ∈ s.registered
  registered_t : P ∈ t.registered ∧ Q ∈ t.registered
  after : ∃ e u, ok t e ∧ t.step fuel e = some u ∧ u.assigned = t.assigned ++ [P]

section Rounds

variable {s t : GatewayRun} {P Q : DataR}

-- Since a client was sent to `P`: `Q` has had one, or is due before `P`.
def Due (P Q : DataR) (s t : GatewayRun) : Prop :=
  ∃ during, t.assigned = s.assigned ++ during ∧
    (Q ∈ during ∨ [Q, P].Sublist (turns t.registered))

-- A client's request puts the peer it is sent to at the root.
theorem head_of_assigned {fuel : Nat} {e : GatewayEvent} {xs : List DataR} {u : GatewayRun}
    (hs : Steady s xs) (he : Orderly s e) (h : s.step fuel e = some u)
    (hP : u.assigned = s.assigned ++ [P]) : (turns xs).head? = some P ∧ Steady u (turns xs) := by
  rcases step_cases hs he h with ⟨hu, hgrown⟩ | ⟨_, -, hsame⟩ | ⟨_, -, -, hsame⟩
  · refine ⟨?_, hu⟩
    have hlast := List.append_cancel_left (hgrown.symm.trans hP)
    cases hhead : (turns xs).head? with
    | none => simp [hhead] at hlast
    | some K => simpa [hhead] using hlast
  all_goals
    rw [hsame] at hP
    simp at hP

theorem due_start {xs : List DataR} (hPQ : P ≠ Q) (hs : Steady s (P :: xs)) (hQ : Q ∈ s.registered) :
    Due P Q s s := by
  refine ⟨[], by simp, Or.inr ?_⟩
  rw [hs.registered] at hQ ⊢
  have hmem : Q ∈ xs := by
    rcases List.mem_cons.mp hQ with he | hmem
    · exact absurd he.symm hPQ
    · exact hmem
  exact List.Sublist.append (List.singleton_sublist.mpr hmem) (List.Sublist.refl [P])

theorem due_step {fuel : Nat} {e : GatewayEvent} {xs : List DataR} {u : GatewayRun} (hPQ : P ≠ Q)
    (ht : Steady t xs) (he : Orderly t e) (hspares : t.Spares e) (h : t.step fuel e = some u)
    (hmem : P ∈ t.registered ∧ Q ∈ t.registered) (hstay : P ∈ u.registered ∧ Q ∈ u.registered)
    (hdue : Due P Q s t) : Due P Q s u := by
  obtain ⟨during, hduring, hQ⟩ := hdue
  rw [ht.registered] at hmem hQ
  rcases step_cases ht he h with ⟨hu, hgrown⟩ | ⟨K, hu, hsame⟩ | ⟨K, hK, hu, hsame⟩
  · refine ⟨during ++ (turns xs).head?.toList, by rw [hgrown, hduring, List.append_assoc], ?_⟩
    rw [hu.registered]
    rcases hQ with hQ | hQ
    · exact Or.inl (List.mem_append_left _ hQ)
    · cases hturns : turns xs with
      | nil => rw [hturns] at hQ; cases hQ
      | cons x ys =>
          rw [hturns] at hQ
          by_cases hx : x = Q
          · exact Or.inl (by simp [hx])
          · exact Or.inr (sublist_turns_of_ne hQ hx)
  · refine ⟨during, by rw [hsame, hduring], hQ.imp_right ?_⟩
    rw [hu.registered]
    exact fun hQ => sublist_turns_append hQ K
  · refine ⟨during, by rw [hsame, hduring], hQ.imp_right ?_⟩
    rw [hu.registered] at hstay ⊢
    have hKP : K ≠ P := (ht.nodup.mem_erase_iff.mp hstay.1).1.symm
    have hKQ : K ≠ Q := (ht.nodup.mem_erase_iff.mp hstay.2).1.symm
    refine fun hQ => sublist_turns_erase hQ hKQ hKP ?_
    -- With `K` at the root the list would hold `K`, `P` and `Q`.
    intro hhead
    have hlen := hspares K hK (by rw [ht.registered]; exact hhead)
    rw [ht.registered] at hlen
    have hsub : [K, P, Q] ⊆ xs := by
      simp [List.mem_of_head? hhead, hmem.1, hmem.2]
    have hthree : [K, P, Q].Nodup := by simp [hKP, hKQ, hPQ]
    have := (hthree.subperm hsub).length_le
    simp only [List.length_cons, List.length_nil] at this
    omega

-- Between two clients sent to the same peer every other one that stays registered gets
-- a client, as long as no removal takes out the peer the last client was sent to.
theorem every_peer_in_turn {fuel : Nat} (hPQ : P ≠ Q)
    (h : Round fuel (fun s e => Orderly s e ∧ s.Spares e) P Q s t) :
    ∃ during, t.assigned = s.assigned ++ during ∧ Q ∈ during := by
  obtain ⟨s0, e0, hreach, ⟨he0, -⟩, hstep0, hP0⟩ := h.before
  obtain ⟨xs0, hs0⟩ := steady_of_reaches (fun s e he => he.1) hreach
  obtain ⟨hhead, hs⟩ := head_of_assigned hs0 he0 hstep0 hP0
  obtain ⟨xs, hxs⟩ := List.head?_eq_some_iff.mp hhead
  rw [hxs] at hs
  have hrun : (∃ ys, Steady t ys) ∧ (P ∈ t.registered ∧ Q ∈ t.registered → Due P Q s t) := by
    refine Reaches.invariant (I := fun t => (∃ ys, Steady t ys) ∧
      (P ∈ t.registered ∧ Q ∈ t.registered → Due P Q s t)) h.between
      ⟨⟨_, hs⟩, fun hmem => due_start hPQ hs hmem.2⟩ ?_
    rintro t e u ⟨⟨ys, ht⟩, hdue⟩ ⟨⟨he, hspares⟩, hmem⟩ hstep
    refine ⟨?_, fun hstay => due_step hPQ ht he hspares hstep hmem hstay (hdue hmem)⟩
    rcases step_cases ht he hstep with ⟨hu, -⟩ | ⟨K, hu, -⟩ | ⟨K, -, hu, -⟩
    · exact ⟨_, hu⟩
    · exact ⟨_, hu⟩
    · exact ⟨_, hu⟩
  obtain ⟨⟨ys, ht⟩, hdue⟩ := hrun
  obtain ⟨during, hduring, hQ⟩ := hdue h.registered_t
  refine ⟨during, hduring, hQ.resolve_right ?_⟩
  obtain ⟨e, u, ⟨he, -⟩, hstep, hP⟩ := h.after
  obtain ⟨hhead, -⟩ := head_of_assigned ht he hstep hP
  obtain ⟨zs, hzs⟩ := List.head?_eq_some_iff.mp hhead
  have hnodup := (turns_perm ys).nodup_iff.mpr ht.nodup
  rw [ht.registered, hzs]
  rw [hzs] at hnodup
  intro hsub
  have hmem : P ∈ zs := by
    cases hsub with
    | cons _ hsub => exact hsub.subset (by simp)
    | cons_cons _ hsub => exact absurd rfl hPQ
  exact (List.nodup_cons.mp hnodup).1 hmem

end Rounds

section Plays

instance (s : GatewayRun) (e : GatewayEvent) : Decidable (Orderly s e) :=
  match e with
  | .client online _ => inferInstanceAs (Decidable (s.registered.all online = true))
  | .peer online _ sender buff => inferInstanceAs (Decidable (buff.type = 0 →
      s.registered.all online = true ∧ setDataR sender buff.port ∉ s.registered))

instance (s : GatewayRun) (e : GatewayEvent) : Decidable (s.Spares e) :=
  match h : removes e with
  | none => isTrue (fun K hK => by rw [h] at hK; cases hK)
  | some K => decidable_of_iff (s.registered.head? = some K → s.registered.length ≤ 2) (by
      simp [Spares, h])

variable (fuel : Nat) (ok : GatewayRun → GatewayEvent → Prop) [∀ s e, Decidable (ok s e)] (P Q : DataR)

-- A round played out: what comes before it, its first request, what comes between, its
-- second request.
def playRound (before : List GatewayEvent) (first : GatewayEvent) (between : List GatewayEvent)
    (second : GatewayEvent) : Option (GatewayRun × GatewayRun) := do
  let s0 ← execute (step fuel) ok start before
  let s ← (if ok s0 first then s0.step fuel first else none)
  let t ← execute (step fuel) (fun s e => ok s e ∧ P ∈ s.registered ∧ Q ∈ s.registered) s between
  let u ← (if ok t second then t.step fuel second else none)
  if s.assigned = s0.assigned ++ [P] ∧ (P ∈ s.registered ∧ Q ∈ s.registered) ∧
      (P ∈ t.registered ∧ Q ∈ t.registered) ∧ u.assigned = t.assigned ++ [P] then some (s, t)
  else none

variable {fuel ok P Q}

theorem round_of_play {before between : List GatewayEvent} {first second : GatewayEvent}
    {s t : GatewayRun} (h : playRound fuel ok P Q before first between second = some (s, t)) :
    Round fuel ok P Q s t := by
  obtain ⟨s0, hbefore, h⟩ := Option.bind_eq_some_iff.mp h
  obtain ⟨s1, hfirst, h⟩ := Option.bind_eq_some_iff.mp h
  obtain ⟨t1, hbetween, h⟩ := Option.bind_eq_some_iff.mp h
  obtain ⟨u, hsecond, h⟩ := Option.bind_eq_some_iff.mp h
  obtain ⟨hok, hfirst⟩ := Option.ite_none_right_eq_some.mp hfirst
  obtain ⟨hok', hsecond⟩ := Option.ite_none_right_eq_some.mp hsecond
  obtain ⟨⟨hP, hs, ht, hP'⟩, h⟩ := Option.ite_none_right_eq_some.mp h
  obtain ⟨rfl, rfl⟩ := Prod.mk.inj (Option.some.inj h)
  exact ⟨⟨s0, first, reaches_of_execute before hbefore, hok, hfirst, hP⟩,
    reaches_of_execute between hbetween, hs, ht, ⟨second, u, hok', hsecond, hP'⟩⟩

-- Three peers register one after the other.
def joinEvents : List GatewayEvent :=
  [.peer (fun _ => true) ⟨[], 0⟩ [49] ⟨0, [], 3002⟩, .peer (fun _ => true) ⟨[], 0⟩ [49] ⟨0, [], 3001⟩,
    .peer (fun _ => true) ⟨[], 0⟩ [49] ⟨0, [], 3003⟩]

def clientEvent : GatewayEvent := .client (fun _ => true) ⟨0, [], 0⟩

-- A fourth one registers between the two requests, and leaves again.
def crowdedRound : List GatewayEvent :=
  [.peer (fun _ => true) ⟨[], 0⟩ [49] ⟨0, [], 3004⟩, clientEvent,
    .peer (fun _ => true) ⟨[], 0⟩ [49] ⟨-1, [], 3004⟩, clientEvent]

theorem every_peer_in_turn_fourthComesAndGoes :
    ∃ s t, playRound 9 (fun s e => Orderly s e ∧ s.Spares e) ⟨[49], 3001⟩ ⟨[49], 3002⟩ joinEvents
        clientEvent crowdedRound clientEvent = some (s, t) ∧
      ∃ during, t.assigned = s.assigned ++ during ∧ ⟨[49], 3002⟩ ∈ during := by
  obtain ⟨⟨s, t⟩, hplay⟩ : ∃ st, playRound 9 (fun s e => Orderly s e ∧ s.Spares e) ⟨[49], 3001⟩
      ⟨[49], 3002⟩ joinEvents clientEvent crowdedRound clientEvent = some st :=
    Option.isSome_iff_exists.mp (by decide +kernel)
  exact ⟨s, t, hplay, every_peer_in_turn (by decide) (round_of_play hplay)⟩

-- The third peer leaves right after it got a client: the second one is passed over.
theorem removal_skips_peer :
    ∃ s t, Round 9 Orderly ⟨[49], 3001⟩ ⟨[49], 3002⟩ s t ∧
      ∀ during, t.assigned = s.assigned ++ during → ⟨[49], 3002⟩ ∉ during := by
  obtain ⟨⟨s, t⟩, hplay, hlog⟩ : ∃ st, playRound 9 Orderly ⟨[49], 3001⟩ ⟨[49], 3002⟩ joinEvents
      clientEvent [clientEvent, .peer (fun _ => true) ⟨[], 0⟩ [49] ⟨-1, [], 3003⟩] clientEvent = some st ∧
      (st.1.assigned, st.2.assigned) = ([⟨[49], 3001⟩], [⟨[49], 3001⟩, ⟨[49], 3003⟩]) :=
    Option.map_eq_some_iff.mp (by decide +kernel)
  obtain ⟨hs, ht⟩ := Prod.mk.inj hlog
  refine ⟨s, t, round_of_play hplay, ?_⟩
  intro during hduring
  obtain rfl : during = [⟨[49], 3003⟩] := by
    have hcons := ht.symm.trans hduring
    rw [hs] at hcons
    exact (List.cons.inj hcons).2.symm
  decide

end Plays

end GatewayRun

end Gallery
