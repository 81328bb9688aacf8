import Gallery.Gateway.Messages
import Gallery.Gateway.Requests
import Gallery.Transition

namespace Gallery

open Bytes Text

-- `struct sockaddr_in`
structure SockAddr where
  sin_addr : InAddr
  sin_port : UInt16
  deriving DecidableEq

-- What the gateway sends back over the socket a datagram came in.
inductive GatewayAnswer
  | list (d_send : List DataR)
  | id (photo_id : UInt32)
  deriving DecidableEq

-- What the gateway keeps and what it has sent, apart from the message it last read.
structure Served where
  gateway : GatewayState
  photo_id : UInt32
  answers : List (SockAddr × GatewayAnswer)

-- The thread `connection_peer`, which reads every message into one `message_gw`.
structure PeerService where
  served : Served
  buff : GwBuffer

-- A datagram, who answers when asked then, and what the block for the stream and the `data_r`
-- of a report held.
structure Arrival where
  peer_addr : SockAddr
  datagram : List Byte
  online : DataR → Bool
  heap : Nat → Byte
  held : DataR

-- What reaches the gateway: a datagram from the peers, or a request of a client.
inductive GatewayInput
  | datagram (a : Arrival)
  | client (online : DataR → Bool) (buff : MessageGw)

section Model

variable (fuel : Nat) (a : Arrival)

def handlePeers (buff : MessageGw) (s : Served) : Option Served := do
  let sender := inetNtoa a.peer_addr.sin_addr
  let (gateway, d_send) ← s.gateway.connectionPeer a.online fuel a.held sender buff
  some { s with
    gateway := gateway
    answers := s.answers ++ (d_send.map (fun l => (a.peer_addr, .list l))).toList }

-- The branches of `connection_peer`. Only that of type -2 reads `addr`.
def handle (buff : GwBuffer) (s : Served) : Option Served :=
  match buff.type.toInt with
  | 0 => handlePeers fuel a buff.message s
  | -1 => handlePeers fuel a buff.message s
  | -2 => do
      let addr ← buff.string
      handlePeers fuel a { buff.message with addr := addr } s
  | 1 => some { s with
      photo_id := s.photo_id + 1
      answers := s.answers ++ [(a.peer_addr, .id (s.photo_id + 1))] }
  | _ => some s

-- One round of the loop: only a return value of -1 ends it.
def PeerService.step (s : PeerService) (a : Arrival) : Option PeerService :=
  let (ret, buff) := recvAndUnstreamGw a.heap s.buff (some a.datagram)
  if ret = -1 then none
  else do
    let served ← handle fuel a buff s.served
    some ⟨served, buff⟩

end Model

namespace PeerService

-- `buff` is what the first block of `malloc` holds.
def start (buff : GwBuffer) : PeerService := ⟨⟨GatewayState.start, 0, []⟩, buff⟩

-- The thread of the clients reads into a structure of its own.
def next (fuel : Nat) (s : PeerService) : GatewayInput → Option PeerService
  | .datagram a => s.step fuel a
  | .client online buff => do
      let (gateway, _) ← s.served.gateway.connectionClient online fuel buff
      some { s with served := { s.served with gateway := gateway } }

def run (fuel : Nat) (s : PeerService) (history : List GatewayInput) : Option PeerService :=
  history.foldlM (next fuel) s

end PeerService

-- Less than a message.
def Arrival.Malformed (a : Arrival) : Prop := a.datagram.length < MESSAGE_GW_SIZE

instance (a : Arrival) : Decidable a.Malformed :=
  inferInstanceAs (Decidable (a.datagram.length < MESSAGE_GW_SIZE))

-- The message a malformed datagram stands for: the one before when it is empty, else its
-- bytes and then what the block held.
def Arrival.taken (a : Arrival) (buff : GwBuffer) : GwBuffer :=
  if a.datagram = [] then buff
  else GwBuffer.unstream (overlay a.datagram (malloc a.heap MESSAGE_GW_SIZE))
    (size_le_overlay a.datagram a.heap)

-- The list and the counter are as before and nothing was sent.
structure Unchanged (s t : Served) : Prop where
  peer_list : t.gateway.registered = s.gateway.registered
  photo_id : t.photo_id = s.photo_id
  sent : t.gateway.sent = s.gateway.sent
  answers : t.answers = s.answers

-- The loop goes on as if the datagram had not come.
def Ignored (s : PeerService) (a : Arrival) : Prop :=
  ∃ fuel t, s.step fuel a = some t ∧ Unchanged s.served t.served

-- A message that takes out nobody who is listed, tells nobody and is not answered.
def Harmless (s : Served) (a : Arrival) (buff : GwBuffer) : Prop :=
  let registered := s.gateway.registered
  let sender := setDataR (inetNtoa a.peer_addr.sin_addr) buff.port
  match buff.type.toInt with
  | 0 => False
  | -1 => sender ∉ registered ∧ GatewayState.Silent a.online registered none
  | -2 => (∃ addr K, buff.string = some addr ∧ namedPeer a.held addr = some K ∧ K ∉ registered) ∧
      GatewayState.Silent a.online registered (some sender)
  | 1 => False
  | _ => True

-- What the ring is like between two datagrams.
structure Served.Steady (s : Served) (xs : List DataR) : Prop where
  ring : s.gateway.ring.Holds xs
  free : s.gateway.list_lock = false

section Receive

variable {a : Arrival}

theorem step_eq (fuel : Nat) (s : PeerService) (a : Arrival) :
    s.step fuel a = (handle fuel a (recvAndUnstreamGw a.heap s.buff (some a.datagram)).2 s.served).map
      (fun served => ⟨served, (recvAndUnstreamGw a.heap s.buff (some a.datagram)).2⟩) := by
  have hret : (recvAndUnstreamGw a.heap s.buff (some a.datagram)).1 ≠ -1 := by
    rw [recvAndUnstreamGw]
    split_ifs <;> simp
  simp only [PeerService.step, if_neg hret]
  cases handle fuel a (recvAndUnstreamGw a.heap s.buff (some a.datagram)).2 s.served <;> rfl

theorem recvAndUnstreamGw_malformed (ha : a.Malformed) (buff : GwBuffer) :
    (recvAndUnstreamGw a.heap buff (some a.datagram)).2 = a.taken buff := by
  have htake : a.datagram.take MESSAGE_GW_SIZE = a.datagram :=
    List.take_of_length_le (Nat.le_of_lt ha)
  rw [recvAndUnstreamGw, Arrival.taken]
  simp only [htake, List.length_eq_zero_iff]
  split_ifs <;> rfl

-- A message of the whole size has the same effect whatever came before it.
theorem step_whole {fuel : Nat} {s s' : PeerService} (ha : ¬ a.Malformed)
    (hserved : s.served = s'.served) (heap : Nat → Byte) :
    s.step fuel a = s'.step fuel { a with heap := heap } := by
  have hread := recvAndUnstreamGw_whole a.heap heap s.buff s'.buff (Nat.le_of_not_lt ha)
  rw [step_eq, step_eq, hread, hserved]
  rfl

end Receive

section Handle

variable {fuel : Nat} {a : Arrival} {buff : GwBuffer} {s : Served} {xs : List DataR}

theorem Served.Steady.registered (hs : s.Steady xs) : s.gateway.registered = xs :=
  GatewayState.registered_eq hs.ring

-- The text in which the gateway names the sender of a datagram.
theorem length_peerIdText_sender (ip : InAddr) (port : Int32) :
    (peerIdText (setDataR (inetNtoa ip) port)).length < MESSAGE_SIZE := by
  have haddr := length_inetNtoa_le ip
  have hport : (decimal port.toUInt32.toNat).length ≤ 10 :=
    length_decimal_le (by decide) (Nat.lt_trans port.toUInt32.toNat_lt (by decide))
  simp only [peerIdText, setDataR, MESSAGE_SIZE, List.length_append, List.length_cons]
  omega

-- What the handling of a message does: it leaves no trace just when `quiet`, and then
-- changes nothing at all; in any case the ring stays in order.
structure Handles (a : Arrival) (buff : GwBuffer) (s : Served) (quiet : Prop) : Prop where
  unchanged_iff : (∃ fuel t, handle fuel a buff s = some t ∧ Unchanged s t) ↔ quiet
  same : quiet → ∀ fuel t, handle fuel a buff s = some t → t = s
  steady : ∀ fuel t, handle fuel a buff s = some t → ∃ xs, t.Steady xs

-- A message that takes `K` out of the list and tells everybody but `exc`.
theorem handles_removal (hs : s.Steady xs) {K : DataR} {message : CString} {exc : Option DataR}
    {ring : Process} {m : MessageGw} (hremove : s.gateway.ring.remove K = some ring)
    (hring : ring.Holds (xs.erase K))
    (hcall : ∀ fuel, s.gateway.connectionPeer a.online fuel a.held (inetNtoa a.peer_addr.sin_addr) m =
        ({ s.gateway with ring := ring } : GatewayState).tellOthers a.online fuel message exc)
    (hhandle : ∀ fuel, handle fuel a buff s = handlePeers fuel a m s) :
    Handles a buff s (K ∉ xs ∧ GatewayState.Silent a.online xs exc) := by
  let g : GatewayState := { s.gateway with ring := ring }
  have hvalue : ∀ fuel, handle fuel a buff s = (g.toldBy a.online fuel exc).map (fun told =>
      { s with
        gateway := { g with sent := s.gateway.sent ++ told.map (PeerMessage.mk · message 12) } }) := by
    intro fuel
    rw [hhandle, handlePeers, hcall, GatewayState.tellOthers]
    cases g.toldBy a.online fuel exc <;> simp [g]
  have herase : K ∉ xs ↔ xs.erase K = xs := List.erase_eq_self_iff.symm
  refine ⟨⟨?_, ?_⟩, ?_, ?_⟩
  · rintro ⟨fuel, t, ht, hsame⟩
    rw [hvalue] at ht
    obtain ⟨told, htold, rfl⟩ := Option.map_eq_some_iff.mp ht
    have hlist := hsame.peer_list
    rw [hs.registered, GatewayState.registered_eq hring] at hlist
    have hnil : told = [] := by
      simpa [g] using hsame.sent
    refine ⟨herase.mpr hlist, ?_⟩
    rw [← hlist]
    exact (GatewayState.toldBy_nil_iff a.online (g := g) hring htold).mp hnil
  · rintro ⟨hK, hsilent⟩
    rw [herase] at hK
    rw [hK] at hring
    obtain ⟨fuel, htold⟩ := GatewayState.toldBy_of_silent a.online (g := g) hring hsilent
    have hdone := hvalue fuel
    rw [htold, Option.map_some] at hdone
    refine ⟨fuel, _, hdone, ?_, rfl, by simp, rfl⟩
    rw [hs.registered, GatewayState.registered_eq hring]
  · rintro ⟨hK, hsilent⟩ fuel t ht
    rw [hvalue] at ht
    obtain ⟨told, htold, rfl⟩ := Option.map_eq_some_iff.mp ht
    obtain rfl := Option.some.inj (hremove.symm.trans (remove_absent hs.ring hK))
    obtain rfl := (GatewayState.toldBy_nil_iff a.online (g := g) hs.ring htold).mpr hsilent
    simp [g]
  · intro fuel t ht
    rw [hvalue] at ht
    obtain ⟨told, -, rfl⟩ := Option.map_eq_some_iff.mp ht
    exact ⟨_, hring, hs.free⟩

-- One that is answered, or stops the gateway.
theorem handles_answer (h : ∀ fuel t, handle fuel a buff s = some t →
      t.answers ≠ s.answers ∧ ∃ xs, t.Steady xs) : Handles a buff s False := by
  refine ⟨⟨?_, False.elim⟩, False.elim, fun fuel t ht => (h fuel t ht).2⟩
  rintro ⟨fuel, t, ht, hsame⟩
  exact (h fuel t ht).1 hsame.answers

-- A report stops the gateway where its text does not end in the message, or its address does
-- not fit.
theorem handles_report (hs : s.Steady xs) (hminus : buff.type.toInt = -2) :
    Handles a buff s ((∃ addr K, buff.string = some addr ∧ namedPeer a.held addr = some K ∧ K ∉ xs) ∧
      GatewayState.Silent a.online xs (some (setDataR (inetNtoa a.peer_addr.sin_addr) buff.port))) := by
  have hhandle : ∀ fuel, handle fuel a buff s = buff.string.bind (fun addr =>
      handlePeers fuel a { buff.message with addr := addr } s) :=
    fun fuel => by simp [handle, hminus]
  cases hstring : buff.string with
  | none =>
      have hcall : ∀ fuel, handle fuel a buff s = none := fun fuel => by rw [hhandle, hstring]; rfl
      have hnever : Handles a buff s False := handles_answer (by simp [hcall])
      simpa using hnever
  | some addr =>
      simp only [hstring, Option.bind_some] at hhandle
      have htype : ({ buff.message with addr := addr } : MessageGw).type = -2 :=
        Int32.toInt_inj.mp hminus
      cases hnamed : namedPeer a.held addr with
      | none =>
          have hcall : ∀ fuel, handle fuel a buff s = none := by
            intro fuel
            rw [hhandle, handlePeers, GatewayState.connectionPeer_overflow a.online fuel _ htype hnamed]
            rfl
          have hnever : Handles a buff s False := handles_answer (by simp [hcall])
          simpa [hnamed] using hnever
      | some K =>
          obtain ⟨ring, hremove, hring, hcall⟩ := GatewayState.connectionPeer_report a.online hs.ring
            hs.free (inetNtoa a.peer_addr.sin_addr) htype hnamed
          have hremoval := handles_removal hs hremove hring hcall hhandle
          simpa [hnamed, GwBuffer.message] using hremoval

theorem handles_harmless (hs : s.Steady xs) : Handles a buff s (Harmless s a buff) := by
  unfold Harmless
  rw [hs.registered]
  simp only
  split
  case h_1 hzero =>
    have htype : buff.message.type = 0 := Int32.toInt_inj.mp hzero
    refine handles_answer ?_
    intro fuel t ht
    obtain ⟨ring, hcall, hring⟩ := GatewayState.connectionPeer_join a.online hs.ring hs.free fuel
      a.held (inetNtoa a.peer_addr.sin_addr) htype
    rw [handle, hzero, handlePeers, hcall] at ht
    obtain rfl := Option.some.inj ht
    exact ⟨by simp, _, hring, hs.free⟩
  case h_2 hminus =>
    have htype : buff.message.type = -1 := Int32.toInt_inj.mp hminus
    obtain ⟨ring, hremove, hring, hcall⟩ := GatewayState.connectionPeer_leave a.online hs.ring hs.free
      a.held (inetNtoa a.peer_addr.sin_addr) htype
    have hfits := length_peerIdText_sender a.peer_addr.sin_addr buff.message.port
    exact handles_removal hs hremove hring (fun fuel => (hcall fuel).trans (if_pos hfits))
      (fun fuel => by simp [handle, hminus])
  case h_3 hminus =>
    exact handles_report hs hminus
  case h_4 hone =>
    have hcall : ∀ fuel, handle fuel a buff s = some { s with
        photo_id := s.photo_id + 1
        answers := s.answers ++ [(a.peer_addr, .id (s.photo_id + 1))] } :=
      fun fuel => by simp [handle, hone]
    refine handles_answer ?_
    intro fuel t ht
    obtain rfl := Option.some.inj ((hcall fuel).symm.trans ht)
    exact ⟨by simp, xs, hs.ring, hs.free⟩
  case h_5 h0 h1 h2 h3 =>
    have hcall : ∀ fuel, handle fuel a buff s = some s := by
      intro fuel
      unfold handle
      split <;> first | rfl | contradiction
    refine ⟨⟨fun _ => trivial, fun _ => ⟨0, s, hcall 0, rfl, rfl, rfl, rfl⟩⟩, ?_, ?_⟩
    · intro _ fuel t ht
      exact (Option.some.inj ((hcall fuel).symm.trans ht)).symm
    · intro fuel t ht
      obtain rfl := Option.some.inj ((hcall fuel).symm.trans ht)
      exact ⟨xs, hs⟩

end Handle

section Histories

open PeerService

variable {fuel : Nat} {a : Arrival} {s t : PeerService} {xs : List DataR}

theorem steady_start (buff : GwBuffer) : (start buff).served.Steady [] := ⟨holds_start, rfl⟩

theorem steady_step (hs : s.served.Steady xs) (h : s.step fuel a = some t) :
    ∃ ys, t.served.Steady ys := by
  rw [step_eq] at h
  obtain ⟨served, hserved, rfl⟩ := Option.map_eq_some_iff.mp h
  exact (handles_harmless hs).steady fuel served hserved

theorem ignored_iff (hs : s.served.Steady xs) (ha : a.Malformed) :
    Ignored s a ↔ Harmless s.served a (a.taken s.buff) := by
  have hread := recvAndUnstreamGw_malformed ha s.buff
  rw [← (handles_harmless hs).unchanged_iff]
  constructor
  · rintro ⟨fuel, t, ht, hsame⟩
    rw [step_eq, hread] at ht
    obtain ⟨served, hserved, rfl⟩ := Option.map_eq_some_iff.mp ht
    exact ⟨fuel, served, hserved, hsame⟩
  · rintro ⟨fuel, served, hserved, hsame⟩
    refine ⟨fuel, ⟨served, a.taken s.buff⟩, ?_, hsame⟩
    rw [step_eq, hread, hserved, Option.map_some]

theorem step_harmless (hs : s.served.Steady xs) (ha : a.Malformed)
    (hquiet : Harmless s.served a (a.taken s.buff)) (h : s.step fuel a = some t) :
    t.served = s.served := by
  rw [step_eq, recvAndUnstreamGw_malformed ha] at h
  obtain ⟨served, hserved, rfl⟩ := Option.map_eq_some_iff.mp h
  exact (handles_harmless hs).same hquiet fuel served hserved

theorem steady_next (hs : s.served.Steady xs) {e : GatewayInput} (h : s.next fuel e = some t) :
    ∃ ys, t.served.Steady ys := by
  cases e with
  | datagram a => exact steady_step hs h
  | client online buff =>
      obtain ⟨⟨gateway, reply⟩, hcall, h⟩ := Option.bind_eq_some_iff.mp h
      obtain rfl := Option.some.inj h
      obtain ⟨hring, hfree⟩ := GatewayState.connectionClient_holds online hs.ring hs.free hcall
      exact ⟨turns xs, hring, hfree⟩

def GatewayInput.malformed : GatewayInput → Bool
  | .datagram a => decide a.Malformed
  | .client _ _ => false

-- Every malformed datagram of the history comes when it does no harm.
def Calm (fuel : Nat) : PeerService → List GatewayInput → Prop
  | _, [] => True
  | s, e :: rest =>
      (∀ a, e = .datagram a → a.Malformed → Harmless s.served a (a.taken s.buff)) ∧
        ∀ t, s.next fuel e = some t → Calm fuel t rest

-- What reads no malformed datagram does the same whatever `buff` holds.
theorem next_same {s' : PeerService} {e : GatewayInput} (he : e.malformed = false)
    (hsame : s'.served = s.served) (h : s.next fuel e = some t) :
    ∃ t', s'.next fuel e = some t' ∧ t'.served = t.served := by
  cases e with
  | datagram a =>
      have ha : ¬ a.Malformed := by simpa [GatewayInput.malformed] using he
      exact ⟨t, (step_whole ha hsame a.heap).trans h, rfl⟩
  | client online buff =>
      obtain ⟨⟨gateway, reply⟩, hcall, h⟩ := Option.bind_eq_some_iff.mp h
      obtain rfl := Option.some.inj h
      refine ⟨{ s' with served := { s'.served with gateway := gateway } }, ?_, ?_⟩
      · simp [next, hsame, hcall]
      · simp [hsame]

-- Then the gateway does what it would have done without them, whatever its `buff` holds.
theorem run_calm {s' : PeerService} {history : List GatewayInput} (hs : s.served.Steady xs)
    (hcalm : Calm fuel s history) (hsame : s'.served = s.served)
    (h : s.run fuel history = some t) :
    ∃ t', s'.run fuel (history.filter (fun e => !e.malformed)) = some t' ∧
      t'.served = t.served := by
  induction history generalizing s s' xs with
  | nil =>
      obtain rfl := Option.some.inj h
      exact ⟨s', rfl, hsame⟩
  | cons e rest ih =>
      obtain ⟨hharm, hrest⟩ := hcalm
      rw [run, List.foldlM_cons] at h
      obtain ⟨u, hnext, hrun⟩ := Option.bind_eq_some_iff.mp h
      obtain ⟨ys, hu⟩ := steady_next hs hnext
      cases he : e.malformed with
      | true =>
          rw [List.filter_cons_of_neg (by simp [he])]
          refine ih hu (hrest u hnext) ?_ hrun
          cases e with
          | datagram a =>
              have ha : a.Malformed := by simpa [GatewayInput.malformed] using he
              rw [hsame, step_harmless hs ha (hharm a rfl ha) hnext]
          | client online buff => cases he
      | false =>
          rw [List.filter_cons_of_pos (by simp [he])]
          obtain ⟨u', hnext', hsame'⟩ := next_same he hsame hnext
          obtain ⟨t', ht', hserved⟩ := ih hu (hrest u hnext) hsame' hrun
          refine ⟨t', ?_, hserved⟩
          rw [run, List.foldlM_cons, hnext']
          exact ht'

-- A malformed datagram is passed over just when the message it stands for does no harm; a
-- whole one has an effect that owes nothing to `buff`.
theorem malformed_ignored_iff {buff : GwBuffer}
    (h : Reaches (next fuel) (fun _ _ => True) (start buff) s) :
    (∀ a : Arrival, a.Malformed → (Ignored s a ↔ Harmless s.served a (a.taken s.buff))) ∧
    (∀ (a : Arrival) (s' : PeerService) (heap : Nat → Byte) (fuel : Nat), ¬ a.Malformed →
      s.served = s'.served → s.step fuel a = s'.step fuel { a with heap := heap }) ∧
    ∀ (history : List GatewayInput) (t : PeerService), Calm fuel s history →
      s.run fuel history = some t →
      ∃ t', s.run fuel (history.filter (fun e => !e.malformed)) = some t' ∧
        t'.served = t.served := by
  obtain ⟨xs, hs⟩ : ∃ xs, s.served.Steady xs :=
    Reaches.invariant (I := fun s => ∃ xs, s.served.Steady xs) h ⟨[], steady_start buff⟩
      (fun _ _ _ ⟨_, hs⟩ _ ht => steady_next hs ht)
  refine ⟨fun a ha => ignored_iff hs ha, ?_, ?_⟩
  · intro a s' heap fuel ha hserved
    exact step_whole ha hserved heap
  · intro history t hcalm hrun
    exact run_calm hs hcalm rfl hrun

-- A request for an id, and the message of a peer that leaves.
def idRequest : GwBuffer := ⟨1, List.replicate 30 0, [0, 0], 3001, rfl, rfl⟩

def leaveMessage : GwBuffer := ⟨-1, List.replicate 30 0, [0, 0], 3001, rfl, rfl⟩

def arrivalFrom (host : UInt8) (datagram : List Byte) : Arrival :=
  ⟨⟨⟨127, 0, 0, host⟩, 3001⟩, datagram, fun _ => true, fun _ => 0, ⟨[], 0⟩⟩

-- A peer that registers, and a report of five bytes that names nobody who is listed: its text
-- has neither a comma nor a number, and no peer answers.
def joinMessage : GwBuffer := ⟨0, List.replicate 30 0, [0, 0], 3001, rfl, rfl⟩

def reportFrom (host : UInt8) : Arrival :=
  { arrivalFrom host [254, 255, 255, 255, 65] with online := fun _ => false, held := ⟨[66], 3001⟩ }

theorem malformed_ignored_iff_shortReport :
    ∃ s, Reaches (next 9) (fun _ _ => True) (start leaveMessage) s ∧
      s.served.gateway.registered = [⟨inetNtoa ⟨127, 0, 0, 1⟩, 3001⟩] ∧
      (reportFrom 2).Malformed ∧ Ignored s (reportFrom 2) := by
  have hfree : GatewayState.start.list_lock = false := rfl
  have hjoin : joinMessage.message.type = 0 := rfl
  obtain ⟨ring, hcall, hring⟩ := GatewayState.connectionPeer_join (fun _ => true) holds_start hfree
    9 ⟨[], 0⟩ (inetNtoa ⟨127, 0, 0, 1⟩) hjoin
  let served : Served := ⟨{ GatewayState.start with ring := ring }, 0,
    [(⟨⟨127, 0, 0, 1⟩, 3001⟩, .list [⟨inetNtoa ⟨127, 0, 0, 1⟩, 3001⟩])]⟩
  have hnext : (start leaveMessage).next 9 (.datagram (arrivalFrom 1 joinMessage.stream)) =
      some ⟨served, joinMessage⟩ := by
    have hzero : joinMessage.type.toInt = 0 := rfl
    simp only [next, step_eq, arrivalFrom, recvAndUnstreamGw_stream, handle, hzero, handlePeers]
    change Option.map _ ((GatewayState.start.connectionPeer _ 9 _ _ _).bind _) = _
    rw [hcall]
    rfl
  have hreach : Reaches (next 9) (fun _ _ => True) (start leaveMessage) ⟨served, joinMessage⟩ :=
    Reaches.refl.step _ trivial hnext
  have hregistered : served.gateway.registered = [⟨inetNtoa ⟨127, 0, 0, 1⟩, 3001⟩] :=
    GatewayState.registered_eq hring
  have htype : ((reportFrom 2).taken joinMessage).type.toInt = -2 := by decide +kernel
  have hport : ((reportFrom 2).taken joinMessage).port = 0 := by decide +kernel
  refine ⟨⟨served, joinMessage⟩, hreach, hregistered, by decide, ?_⟩
  refine ((malformed_ignored_iff hreach).1 (reportFrom 2) (by decide)).mpr ?_
  simp only [Harmless, htype, hport, hregistered]
  refine ⟨⟨[65], ⟨[65], 3001⟩, by decide +kernel, by decide +kernel, by decide +kernel⟩, ?_⟩
  exact Or.inr ⟨by decide +kernel, fun _ _ => rfl⟩

-- An empty datagram from a second peer, which is sent an id it did not ask for.
theorem emptyDatagram_repeats_request :
    ∃ s, Reaches (next 0) (fun _ _ => True) (start leaveMessage) s ∧
      (arrivalFrom 2 []).Malformed ∧ ¬ Ignored s (arrivalFrom 2 []) ∧
      ∃ t, s.step 0 (arrivalFrom 2 []) = some t ∧ t.served.photo_id = 2 ∧
        t.served.answers = [(⟨⟨127, 0, 0, 1⟩, 3001⟩, .id 1), (⟨⟨127, 0, 0, 2⟩, 3001⟩, .id 2)] := by
  let served : Served := ⟨GatewayState.start, 1, [(⟨⟨127, 0, 0, 1⟩, 3001⟩, .id 1)]⟩
  have hone : (start leaveMessage).next 0 (.datagram (arrivalFrom 1 idRequest.stream)) =
      some ⟨served, idRequest⟩ := by
    rw [next, step_eq, arrivalFrom, recvAndUnstreamGw_stream]
    rfl
  have hs : served.Steady [] := ⟨holds_start, rfl⟩
  refine ⟨⟨served, idRequest⟩, Reaches.refl.step _ trivial hone, by decide, ?_, _, rfl, rfl, rfl⟩
  intro h
  exact (ignored_iff (s := ⟨served, idRequest⟩) hs (by decide)).mp h

end Histories

end Gallery
