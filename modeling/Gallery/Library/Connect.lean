import Gallery.Gateway.Messages
import Gallery.Gateway.Requests

namespace Gallery

open Bytes Text

section Model

-- The conversion of an `int` to `in_port_t`.
def toPort (port : Int32) : UInt16 := port.toUInt32.toUInt16

-- What becomes of `gallery_connect`: a connection to the peer that listens at an address, one
-- of the values that stand for none, or the end of the process.
inductive Connecting
  | connected (K : DataR)
  | returned (value : Int)
  | exited
  deriving DecidableEq

-- `reply` is the datagram that comes in time, if one does; `buff` is what the block of
-- `malloc` holds.
def galleryConnect (heap : Nat → Byte) (buff : GwBuffer) (listens : DataR → Bool)
    (reply : Option (List Byte)) : Connecting :=
  let (read, buff) := recvAndUnstreamGw heap buff reply
  if read = -1 then .returned (-1)
  else if buff.type = 1 then .returned 0
  else
    let K := setDataR buff.text (Int32.ofNat (toPort buff.port).toNat)
    if listens K then .connected K else .exited

-- The memory that the two ends happen to have: the block and the structure of the gateway, the
-- structures that both of them send from, the block and the structure of the client.
structure Leftovers where
  gatewayHeap : Nat → Byte
  gatewayBuff : GwBuffer
  gatewaySent : GwBuffer
  clientSent : GwBuffer
  clientHeap : Nat → Byte
  clientBuff : GwBuffer

-- One turn of `connection_client` with the datagram of a client.
def serveClient (online : DataR → Bool) (fuel : Nat) (m : Leftovers) (request : List Byte)
    (g : GatewayState) : Option (GatewayState × List Byte) := do
  let buff := (recvAndUnstreamGw m.gatewayHeap m.gatewayBuff (some request)).2
  let (g, reply) ← g.connectionClient online fuel buff.message
  let datagram ← streamAndSendGw m.gatewaySent reply.addr (toPort reply.port) reply.type
  some (g, datagram)

-- A client asks the gateway and gets its answer, or none before the time is up.
def Asks (online listens : DataR → Bool) (m : Leftovers) (g : GatewayState) (result : Connecting) : Prop :=
  ∃ request, streamAndSendGw m.clientSent [] 0 0 = some request ∧
    ((∃ fuel g' datagram, serveClient online fuel m request g = some (g', datagram) ∧
      result = galleryConnect m.clientHeap m.clientBuff listens (some datagram)) ∨
    (∀ fuel, serveClient online fuel m request g = none) ∧
      result = galleryConnect m.clientHeap m.clientBuff listens none)

end Model

section Exchange

variable (online listens : DataR → Bool) (m : Leftovers) {g : GatewayState} {xs : List DataR}

theorem emptyAddr_fits : ([] : CString).length < MESSAGE_SIZE := by decide

theorem toPort_of_identity {K : DataR} (hK : Identity K) : Int32.ofNat (toPort K.port).toNat = K.port := by
  have hnonneg := hK.port_nonneg
  have hlt := hK.port_lt
  have hsame : (toPort K.port).toNat = K.port.toInt.toNat := by
    rw [toPort, UInt32.toNat_toUInt16, hK.toNat_port]
    exact Nat.mod_eq_of_lt (by omega)
  rw [hsame]
  exact (ofNat_eq_iff (by omega)).mpr (by omega)

-- The answer of the gateway as the client reads it.
theorem galleryConnect_reply {b : GwBuffer} :
    galleryConnect m.clientHeap m.clientBuff listens (some b.stream) =
      if b.type = 1 then .returned 0
      else if listens (setDataR b.text (Int32.ofNat (toPort b.port).toNat)) then
        .connected (setDataR b.text (Int32.ofNat (toPort b.port).toNat))
      else .exited := by
  rw [galleryConnect, recvAndUnstreamGw_stream]
  rfl

variable (hring : g.ring.Holds xs) (hfree : g.list_lock = false)

include hring in
theorem serveClient_nobody (hxs : xs = []) {b : GwBuffer} (fuel : Nat) (htext : b.text = []) :
    ∃ sent, m.gatewaySent.fill [] (toPort b.port) 1 = some sent ∧
      serveClient online (fuel + 1) m b.stream g = some (g, sent.stream) := by
  subst hxs
  obtain ⟨sent, hsent⟩ := GwBuffer.exists_fill emptyAddr_fits m.gatewaySent (toPort b.port) 1
  refine ⟨sent, hsent, ?_⟩
  simp [serveClient, recvAndUnstreamGw_stream, GatewayState.connectionClient,
    GatewayState.clientLoop_nil online hring, GwBuffer.message, htext, streamAndSendGw, hsent]

include hring hfree in
theorem serveClient_first {K : DataR} (hhead : (turns xs).head? = some K) (hfits : K.addr.length < MESSAGE_SIZE)
    (b : GwBuffer) (fuel : Nat) :
    (online K = true → ∃ g' sent, m.gatewaySent.fill K.addr (toPort K.port) 0 = some sent ∧
      serveClient online (fuel + 1) m b.stream g = some (g', sent.stream)) ∧
    (online K = false → serveClient online (fuel + 1) m b.stream g = none) := by
  cases xs with
  | nil => cases hhead
  | cons x xs =>
      obtain ⟨ring, K', -, hfirst, hup, hdown⟩ :=
        GatewayState.clientLoop_cons online hring hfree (fuel + 1) fuel
      obtain rfl := Option.some.inj (hfirst.symm.trans hhead)
      obtain ⟨sent, hsent⟩ := GwBuffer.exists_fill hfits m.gatewaySent (toPort K'.port) 0
      constructor
      · intro hanswers
        refine ⟨{ g with ring := ring }, sent, hsent, ?_⟩
        simp [serveClient, recvAndUnstreamGw_stream, GatewayState.connectionClient, hup hanswers,
          streamAndSendGw, hsent]
      · intro hsilent
        simp [serveClient, GatewayState.connectionClient, hdown hsilent]

theorem serveClient_zero (request : List Byte) : serveClient online 0 m request g = none := by
  simp [serveClient, GatewayState.connectionClient, GatewayState.clientLoop]

-- Where a client should get to: to the first peer after the root of the ring. Nobody is there
-- to get to when no peer is listed, and nobody answers when that peer has crashed.
def destination (online listens : DataR → Bool) (xs : List DataR) : Connecting :=
  match (turns xs).head? with
  | none => .returned 0
  | some K =>
      if online K then if listens K then .connected K else .exited
      else .returned (-1)

variable {online listens m} {b : GwBuffer} {result : Connecting}

-- The message of a client has no text, and asks for nothing but a peer.
theorem asks_iff (hb : m.clientSent.fill [] 0 0 = some b) :
    Asks online listens m g result ↔
      (∃ fuel g' datagram, serveClient online (fuel + 1) m b.stream g = some (g', datagram) ∧
        result = galleryConnect m.clientHeap m.clientBuff listens (some datagram)) ∨
      (∀ fuel, serveClient online (fuel + 1) m b.stream g = none) ∧ result = .returned (-1) := by
  have hrequest : streamAndSendGw m.clientSent [] 0 0 = some b.stream := by
    rw [streamAndSendGw, hb, Option.map_some]
  constructor
  · rintro ⟨request, hreq, h⟩
    obtain rfl := Option.some.inj (hrequest.symm.trans hreq)
    rcases h with ⟨fuel, g', datagram, hserve, hresult⟩ | ⟨hnone, hresult⟩
    · cases fuel with
      | zero =>
          rw [serveClient_zero] at hserve
          cases hserve
      | succ fuel => exact Or.inl ⟨fuel, g', datagram, hserve, hresult⟩
    · exact Or.inr ⟨fun fuel => hnone (fuel + 1), hresult⟩
  · rintro (⟨fuel, g', datagram, hserve, hresult⟩ | ⟨hnone, hresult⟩)
    · exact ⟨b.stream, hrequest, Or.inl ⟨fuel + 1, g', datagram, hserve, hresult⟩⟩
    · refine ⟨b.stream, hrequest, Or.inr ⟨fun fuel => ?_, hresult⟩⟩
      cases fuel with
      | zero => exact serveClient_zero online m b.stream
      | succ fuel => exact hnone fuel

-- However many rounds the gateway may make, it needs only one.
theorem asks_answered (hb : m.clientSent.fill [] 0 0 = some b) {sent : GwBuffer}
    (hserve : ∀ fuel, ∃ g', serveClient online (fuel + 1) m b.stream g = some (g', sent.stream)) :
    Asks online listens m g result ↔
      result = galleryConnect m.clientHeap m.clientBuff listens (some sent.stream) := by
  rw [asks_iff hb]
  constructor
  · rintro (⟨fuel, g', datagram, hsome, hresult⟩ | ⟨hnone, -⟩)
    · obtain ⟨g'', hsome'⟩ := hserve fuel
      obtain ⟨-, rfl⟩ := Prod.mk.inj (Option.some.inj (hsome.symm.trans hsome'))
      exact hresult
    · obtain ⟨g', hsome⟩ := hserve 0
      rw [hnone 0] at hsome
      cases hsome
  · intro hresult
    obtain ⟨g', hsome⟩ := hserve 0
    exact Or.inl ⟨0, g', sent.stream, hsome, hresult⟩

include hring in
theorem asks_nobody (hxs : xs = []) : Asks online listens m g result ↔ result = .returned 0 := by
  obtain ⟨b, hb⟩ := GwBuffer.exists_fill emptyAddr_fits m.clientSent 0 0
  obtain ⟨htext, -, -⟩ := GwBuffer.text_of_fill List.not_mem_nil hb
  obtain ⟨sent, hsent⟩ := GwBuffer.exists_fill emptyAddr_fits m.gatewaySent (toPort b.port) 1
  have htype : sent.type = 1 := (GwBuffer.text_of_fill List.not_mem_nil hsent).2.1
  have hserve : ∀ fuel, ∃ g', serveClient online (fuel + 1) m b.stream g = some (g', sent.stream) := by
    intro fuel
    obtain ⟨sent', hsent', hserve⟩ := serveClient_nobody online m hring hxs fuel htext
    obtain rfl := Option.some.inj (hsent.symm.trans hsent')
    exact ⟨g, hserve⟩
  rw [asks_answered hb hserve, galleryConnect_reply, if_pos htype]

include hring hfree in
theorem asks_first {K : DataR} (hhead : (turns xs).head? = some K) (hK : Identity K) :
    Asks online listens m g result ↔ result =
      if online K then if listens K then .connected K else .exited
      else .returned (-1) := by
  obtain ⟨b, hb⟩ := GwBuffer.exists_fill emptyAddr_fits m.clientSent 0 0
  have hfits : K.addr.length < MESSAGE_SIZE := Nat.lt_of_le_of_lt hK.length (by decide)
  by_cases hup : online K = true
  · obtain ⟨sent, hsent⟩ := GwBuffer.exists_fill hfits m.gatewaySent (toPort K.port) 0
    obtain ⟨htext, htype, hport⟩ := GwBuffer.text_of_fill hK.noNul hsent
    have hsame : setDataR sent.text (Int32.ofNat (toPort sent.port).toNat) = K := by
      rw [hport, toPort_of_identity hK, htext, toPort_of_identity hK]
      rfl
    have hserve : ∀ fuel, ∃ g', serveClient online (fuel + 1) m b.stream g = some (g', sent.stream) := by
      intro fuel
      obtain ⟨g', sent', hsent', hserve⟩ :=
        (serveClient_first online m hring hfree hhead hfits b fuel).1 hup
      obtain rfl := Option.some.inj (hsent.symm.trans hsent')
      exact ⟨g', hserve⟩
    have hne : ¬ sent.type = 1 := by
      rw [htype]
      decide
    rw [asks_answered hb hserve, galleryConnect_reply, if_neg hne, hsame]
    simp [hup]
  · have hdown : online K = false := Bool.eq_false_iff.mpr hup
    have hnone : ∀ fuel, serveClient online (fuel + 1) m b.stream g = none :=
      fun fuel => (serveClient_first online m hring hfree hhead hfits b fuel).2 hdown
    rw [asks_iff hb]
    simp [hnone, hdown]

-- Whatever memory the two ends happen to have, a client gets to the peer that the gateway
-- names, finds out that there is none, or times out, and nothing else.
theorem galleryConnect_destination (online listens : DataR → Bool) (m : Leftovers) {g : GatewayState}
    {xs : List DataR} (hring : g.ring.Holds xs) (hfree : g.list_lock = false)
    (hids : ∀ K ∈ xs, Identity K) (result : Connecting) :
    Asks online listens m g result ↔ result = destination online listens xs := by
  rw [destination]
  cases xs with
  | nil => exact asks_nobody hring rfl
  | cons x xs =>
      obtain ⟨K, hhead⟩ : ∃ K, (turns (x :: xs)).head? = some K := by
        cases xs with
        | nil => exact ⟨x, rfl⟩
        | cons y xs => exact ⟨y, rfl⟩
      have hmem : K ∈ x :: xs := by
        have hturns : K ∈ xs ++ [x] := List.mem_of_mem_head? hhead
        simpa [or_comm] using hturns
      rw [hhead]
      exact asks_first hring hfree hhead (hids K hmem)

def twoLocalPeers : List DataR := [identityOf ⟨127, 0, 0, 1⟩ 3001, identityOf ⟨127, 0, 0, 1⟩ 3002]

theorem galleryConnect_destination_twoLocalPeers :
    ∃ ring, recvRingUdp Process.start twoLocalPeers = some ring ∧ ∀ m result,
      Asks (fun _ => true) (fun _ => true) m ⟨ring, false, []⟩ result ↔
        result = .connected (identityOf ⟨127, 0, 0, 1⟩ 3002) := by
  obtain ⟨ring, hcall, hring⟩ := recvRingUdp_start twoLocalPeers
  have hids : ∀ K ∈ twoLocalPeers, Identity K := by
    intro K hK
    rcases List.mem_pair.mp hK with rfl | rfl
    · exact identity_identityOf _ _
    · exact identity_identityOf _ _
  exact ⟨ring, hcall, fun m result =>
    galleryConnect_destination (g := ⟨ring, false, []⟩) _ _ m hring rfl hids result⟩

end Exchange

end Gallery
