import Gallery.Gateway.Messages
import Gallery.Gateway.Requests
import Gallery.Library.Replies

namespace Gallery

open Bytes

section Model

-- A `data_r` as it lies in memory.
structure DataRBuffer where
  addr : List Byte
  port : Int32
  addr_length : addr.length = ADDR_SIZE
  deriving DecidableEq

namespace DataRBuffer

def stream (b : DataRBuffer) : List Byte := b.addr ++ intBytes b.port

def unstream (stream : List Byte) (h : DATA_R_SIZE ≤ stream.length) : DataRBuffer where
  addr := stream.take ADDR_SIZE
  port := intOfBytes ((stream.drop ADDR_SIZE).take 4)
  addr_length := by
    rw [List.length_take]
    exact Nat.min_eq_left (Nat.le_trans (by decide) h)

-- What the program reads in the structure.
def data (b : DataRBuffer) : DataR := setDataR (cString b.addr) b.port

-- `memcpy(d_recv, stream, size * sizeof(data_r))`
def unstreams : (size : Nat) → (stream : List Byte) → size * DATA_R_SIZE ≤ stream.length →
    List DataRBuffer
  | 0, _, _ => []
  | size + 1, stream, h =>
      have hsize : size * DATA_R_SIZE + DATA_R_SIZE ≤ stream.length := Nat.succ_mul .. ▸ h
      unstream stream (Nat.le_trans (Nat.le_add_left ..) hsize) ::
        unstreams size (stream.drop DATA_R_SIZE) (by rw [List.length_drop]; omega)

end DataRBuffer

-- `send_ring_udp`: its value and the datagrams that are sent. What `sendto` says of the first
-- one is not looked at.
def sendRingDatagrams (d_send : List DataRBuffer) : Int × List (List Byte) :=
  let size := intBytes (Int32.ofNat d_send.length)
  if d_send.length = 0 then (0, [size])
  else
    let stream := d_send.flatMap DataRBuffer.stream
    if stream.length ≤ UDP_LIMIT then (0, [size, stream]) else (-1, [size])

-- What is read into a block of `malloc` for `size` elements.
theorem size_le_read (read : List Byte) (heap : Nat → Byte) (n : Nat) :
    n ≤ (overlay read (malloc heap n)).length := by
  simp only [overlay, List.length_append, List.length_drop, length_malloc]
  omega

-- `recv_ring_udp`: its value and the elements that are appended. The datagrams come one after
-- the other, and a `recv` that finds none times out; a datagram is cut at the size asked for.
-- `none` is an array of a negative size.
def recvRingDatagrams (heap : Nat → Byte) : List (List Byte) → Option (Int × List DataRBuffer)
  | [] => some (-1, [])
  | datagram :: queue =>
      let size := intOfBytes (overlay (datagram.take 4) (intBytes 0))
      if size = 0 then some (0, [])
      else if size < 0 then none
      else
        match queue with
        | [] => some (-1, [])
        | datagram :: _ =>
            let n := size.toNatClampNeg * DATA_R_SIZE
            let read := datagram.take n
            if read.length = 0 then some (-1, [])
            else some (0, DataRBuffer.unstreams size.toNatClampNeg (overlay read (malloc heap n))
              (size_le_read read heap n))

end Model

section RoundTrip

namespace DataRBuffer

@[simp] theorem length_stream (b : DataRBuffer) : b.stream.length = DATA_R_SIZE := by
  simp [stream, b.addr_length, ADDR_SIZE, DATA_R_SIZE]

theorem unstream_append (b : DataRBuffer) (rest : List Byte) (h : DATA_R_SIZE ≤ (b.stream ++ rest).length) :
    unstream (b.stream ++ rest) h = b := by
  obtain ⟨addr, port, hlength⟩ := b
  simp only [unstream, stream, mk.injEq, List.append_assoc]
  constructor
  · exact List.take_left' hlength
  · rw [List.drop_left' hlength, List.take_left' (length_intBytes port), intOfBytes_intBytes]

theorem length_flatMap_stream (bs : List DataRBuffer) :
    (bs.flatMap stream).length = bs.length * DATA_R_SIZE := by
  induction bs with
  | nil => rfl
  | cons b bs ih =>
      rw [List.flatMap_cons, List.length_append, length_stream, ih, List.length_cons, Nat.succ_mul,
        Nat.add_comm]

theorem unstreams_flatMap (bs : List DataRBuffer) (h : bs.length * DATA_R_SIZE ≤ (bs.flatMap stream).length) :
    unstreams bs.length (bs.flatMap stream) h = bs := by
  induction bs with
  | nil => rfl
  | cons b bs ih =>
      simp only [List.length_cons, List.flatMap_cons, unstreams, unstream_append]
      have hdrop : (b.stream ++ bs.flatMap stream).drop DATA_R_SIZE = bs.flatMap stream :=
        List.drop_left' b.length_stream
      simp only [hdrop, ih]

end DataRBuffer

section Wire

variable {entries : List DataRBuffer}

-- The list goes out exactly when it fits one datagram.
theorem sendRingDatagrams_ret :
    (sendRingDatagrams entries).1 = 0 ↔ entries.length * DATA_R_SIZE ≤ UDP_LIMIT := by
  rw [sendRingDatagrams]
  by_cases hempty : entries.length = 0
  · simp [hempty, UDP_LIMIT]
  · simp only [if_neg hempty, DataRBuffer.length_flatMap_stream]
    by_cases hfits : entries.length * DATA_R_SIZE ≤ UDP_LIMIT
    · simp [hfits]
    · simp [hfits]

-- What was sent comes out again, element by element, the bytes behind the strings included.
theorem recvRingDatagrams_send (heap : Nat → Byte) (more : List (List Byte))
    (hsent : (sendRingDatagrams entries).1 = 0) :
    recvRingDatagrams heap ((sendRingDatagrams entries).2 ++ more) = some (0, entries) := by
  have hfits := sendRingDatagrams_ret.mp hsent
  have hlt : entries.length < 2 ^ 31 := by
    simp only [DATA_R_SIZE, UDP_LIMIT] at hfits
    omega
  have hsize : intOfBytes (overlay ((intBytes (Int32.ofNat entries.length)).take 4) (intBytes 0)) =
      Int32.ofNat entries.length := by
    rw [List.take_of_length_le (by simp), overlay_of_length_le _ _ (by simp), intOfBytes_intBytes]
  rw [sendRingDatagrams]
  by_cases hempty : entries.length = 0
  · obtain rfl := List.length_eq_zero_iff.mp hempty
    rfl
  · have hstream := DataRBuffer.length_flatMap_stream entries
    have hne : Int32.ofNat entries.length ≠ 0 := ofNat_ne_zero hlt hempty
    have hnonneg : ¬ Int32.ofNat entries.length < 0 := by
      rw [Int32.lt_iff_toInt_lt, Int32.toInt_ofNat_of_lt hlt]
      simp
    have hcount : (Int32.ofNat entries.length).toNatClampNeg = entries.length := toNatClampNeg_ofNat _ hlt
    have hread : (entries.flatMap DataRBuffer.stream).take (entries.length * DATA_R_SIZE) =
        entries.flatMap DataRBuffer.stream := List.take_of_length_le (Nat.le_of_eq hstream)
    have hpos : entries.length * DATA_R_SIZE ≠ 0 :=
      Nat.ne_of_gt (Nat.mul_pos (Nat.pos_of_ne_zero hempty) (by decide))
    have hover : overlay (entries.flatMap DataRBuffer.stream)
        (malloc heap (entries.length * DATA_R_SIZE)) = entries.flatMap DataRBuffer.stream :=
      overlay_of_length_le _ _ (by simp [hstream])
    simp only [if_neg hempty, hstream, if_pos hfits, List.cons_append, List.nil_append, recvRingDatagrams,
      hsize, if_neg hne, if_neg hnonneg, hcount, hread, if_neg hpos, hover]
    rw [DataRBuffer.unstreams_flatMap]

end Wire

end RoundTrip

section Registration

namespace GatewayState

variable (online : DataR → Bool) {g : GatewayState} {xs : List DataR}

-- A peer that registers gets the list of the gateway over the wire, whatever the memory of
-- both of them held, exactly as long as the list fits one datagram.
theorem register_over_wire (hring : g.ring.Holds xs) (hfree : g.list_lock = false) (fuel : Nat)
    (held : DataR) (sender : CString) (buff : MessageGw) (htype : buff.type = 0) :
    ∃ g', g.connectionPeer online fuel held sender buff =
        some (g', some (xs.filter online ++ [setDataR sender buff.port])) ∧
      ∀ entries : List DataRBuffer,
        entries.map DataRBuffer.data = xs.filter online ++ [setDataR sender buff.port] →
        ((sendRingDatagrams entries).1 = 0 ↔
          ((xs.filter online).length + 1) * DATA_R_SIZE ≤ UDP_LIMIT) ∧
        ((sendRingDatagrams entries).1 = 0 → ∀ heap more, ∃ found p p',
          recvRingDatagrams heap ((sendRingDatagrams entries).2 ++ more) = some (0, found) ∧
          recvRingUdp Process.start (found.map DataRBuffer.data) = some p ∧ reroot p = some p' ∧
          p'.Holds (setDataR sender buff.port :: xs.filter online)) := by
  obtain ⟨ring, hcall, -⟩ := connectionPeer_join online hring hfree fuel held sender htype
  refine ⟨{ g with ring := ring }, hcall, fun entries hentries => ⟨?_, fun hsent heap more => ?_⟩⟩
  · have hlength : entries.length = (xs.filter online).length + 1 := by
      rw [← List.length_map (f := DataRBuffer.data), hentries, List.length_append, List.length_singleton]
    rw [sendRingDatagrams_ret, hlength]
  · obtain ⟨p, hrecv, hp⟩ := recvRingUdp_start (xs.filter online ++ [setDataR sender buff.port])
    obtain ⟨p', hreroot, hp'⟩ := reroot_holds hp
    exact ⟨entries, p, p', recvRingDatagrams_send heap more hsent, by rw [hentries, hrecv], hreroot, hp'⟩

def localEntry (port : Int32) : DataRBuffer :=
  ⟨[49, 50, 55, 46, 48, 46, 48, 46, 49] ++ 0 :: List.replicate 10 170, port, by decide⟩

theorem register_over_wire_secondPeer :
    ∃ ring g', recvRingUdp Process.start [(localEntry 3001).data] = some ring ∧
      (⟨ring, false, []⟩ : GatewayState).connectionPeer (fun _ => true) 3 ⟨[], 0⟩
        [49, 50, 55, 46, 48, 46, 48, 46, 49] ⟨0, [], 3002⟩ =
          some (g', some [(localEntry 3001).data, (localEntry 3002).data]) ∧
      ∀ heap more, ∃ found p p', recvRingDatagrams heap
          ((sendRingDatagrams [localEntry 3001, localEntry 3002]).2 ++ more) = some (0, found) ∧
        recvRingUdp Process.start (found.map DataRBuffer.data) = some p ∧ reroot p = some p' ∧
        p'.Holds [(localEntry 3002).data, (localEntry 3001).data] := by
  obtain ⟨ring, hcall, hring⟩ := recvRingUdp_start [(localEntry 3001).data]
  obtain ⟨g', hregister, hwire⟩ := register_over_wire (g := ⟨ring, false, []⟩) (fun _ => true)
    hring rfl 3 ⟨[], 0⟩ [49, 50, 55, 46, 48, 46, 48, 46, 49] ⟨0, [], 3002⟩ rfl
  obtain ⟨-, hsent⟩ := hwire [localEntry 3001, localEntry 3002] (by decide)
  exact ⟨ring, g', hcall, hregister, hsent (by decide +kernel)⟩

end GatewayState

end Registration

end Gallery
