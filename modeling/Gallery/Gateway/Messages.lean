import Gallery.Gateway
import Gallery.Library
import Gallery.Membership.Agreement

namespace Gallery

open Bytes Text

section Addresses

-- `struct in_addr`, in network order.
structure InAddr where
  b1 : UInt8
  b2 : UInt8
  b3 : UInt8
  b4 : UInt8
  deriving DecidableEq, Repr

def inetNtoa (ip : InAddr) : CString :=
  decimal ip.b1.toNat ++ 46 :: (decimal ip.b2.toNat ++ 46 ::
    (decimal ip.b3.toNat ++ 46 :: decimal ip.b4.toNat))

-- The identity of a peer that listens at this port.
def identityOf (ip : InAddr) (port : UInt16) : DataR :=
  setDataR (inetNtoa ip) (Int32.ofNat port.toNat)

theorem notMem_decimal {b : Byte} (hb : isDigit b = false) (n : Nat) : b ∉ decimal n :=
  fun h => absurd (isDigit_of_mem_decimal n b h) (by simp [hb])

theorem notMem_inetNtoa {b : Byte} (hb : isDigit b = false) (hdot : b ≠ 46) (ip : InAddr) :
    b ∉ inetNtoa ip := by
  simp [inetNtoa, notMem_decimal hb, hdot]

theorem length_inetNtoa_le (ip : InAddr) : (inetNtoa ip).length ≤ 15 := by
  have h (b : UInt8) : (decimal b.toNat).length ≤ 3 :=
    length_decimal_le (by decide) (Nat.lt_trans b.toNat_lt (by decide))
  have h1 := h ip.b1
  have h2 := h ip.b2
  have h3 := h ip.b3
  have h4 := h ip.b4
  simp only [inetNtoa, List.length_append, List.length_cons]
  omega

theorem toInt_port (port : UInt16) : (Int32.ofNat port.toNat).toInt = port.toNat :=
  Int32.toInt_ofNat_of_lt (Nat.lt_trans port.toNat_lt (by decide))

theorem identity_identityOf (ip : InAddr) (port : UInt16) : Identity (identityOf ip port) where
  nonempty := by simp [identityOf, setDataR, inetNtoa]
  noComma := notMem_inetNtoa (by decide) (by decide) ip
  noNul := notMem_inetNtoa (by decide) (by decide) ip
  length := length_inetNtoa_le ip
  port_nonneg := by
    rw [identityOf, setDataR, toInt_port]
    omega
  port_lt := by
    have := port.toNat_lt
    rw [identityOf, setDataR, toInt_port]
    omega

end Addresses

section Datagrams

-- `sizeof(message_gw)`: two bytes of padding stand between `addr` and `port`.
def MESSAGE_GW_SIZE : Nat := 40

-- A `message_gw` as it lies in memory.
structure GwBuffer where
  type : Int32
  addr : List Byte
  pad : List Byte
  port : Int32
  addr_length : addr.length = MESSAGE_SIZE
  pad_length : pad.length = 2
  deriving DecidableEq

namespace GwBuffer

def stream (b : GwBuffer) : List Byte := intBytes b.type ++ b.addr ++ b.pad ++ intBytes b.port

theorem length_field {stream : List Byte} (h : MESSAGE_GW_SIZE ≤ stream.length) {n width : Nat}
    (hfits : n + width ≤ MESSAGE_GW_SIZE) : ((stream.drop n).take width).length = width := by
  simp only [List.length_take, List.length_drop]
  omega

def unstream (stream : List Byte) (h : MESSAGE_GW_SIZE ≤ stream.length) : GwBuffer where
  type := intOfBytes (stream.take 4)
  addr := (stream.drop 4).take MESSAGE_SIZE
  pad := (stream.drop 34).take 2
  port := intOfBytes ((stream.drop 36).take 4)
  addr_length := length_field h (by decide)
  pad_length := length_field h (by decide)

@[simp] theorem length_stream (b : GwBuffer) : b.stream.length = MESSAGE_GW_SIZE := by
  simp [stream, b.addr_length, b.pad_length, MESSAGE_SIZE, MESSAGE_GW_SIZE]

theorem unstream_stream (b : GwBuffer) (h : MESSAGE_GW_SIZE ≤ b.stream.length) :
    unstream b.stream h = b := by
  have htype := length_intBytes b.type
  have hport := length_intBytes b.port
  have haddr : b.addr.length = 30 := b.addr_length
  have hpad := b.pad_length
  obtain ⟨type, addr, pad, port, _, _⟩ := b
  simp only at htype hport haddr hpad
  simp only [unstream, stream, mk.injEq, MESSAGE_SIZE]
  refine ⟨?_, ?_, ?_, ?_⟩
  · rw [List.append_assoc, List.append_assoc, List.take_left' htype, intOfBytes_intBytes]
  · rw [List.append_assoc, List.append_assoc, List.drop_left' htype, List.take_left' haddr]
  · rw [List.append_assoc, List.drop_left' (by simp [htype, haddr]), List.take_left' hpad]
  · rw [List.drop_left' (by simp [htype, haddr, hpad]), List.take_of_length_le (by simp),
      intOfBytes_intBytes]

-- `strcpy(buff.addr, addr)`, where `buff` holds `old`; `none` is a write past `addr`.
def fill (old : GwBuffer) (addr : CString) (port : UInt16) (type : Int32) : Option GwBuffer :=
  if h : addr.length < MESSAGE_SIZE then
    some ⟨type, addr ++ 0 :: old.addr.drop (addr.length + 1), old.pad, Int32.ofNat port.toNat, by
      simp only [List.length_append, List.length_cons, List.length_drop, old.addr_length]
      omega, old.pad_length⟩
  else none

theorem exists_fill {addr : CString} (hfits : addr.length < MESSAGE_SIZE) (old : GwBuffer)
    (port : UInt16) (type : Int32) : ∃ b, old.fill addr port type = some b := by
  rw [fill, dif_pos hfits]
  exact ⟨_, rfl⟩

-- The string in `addr`.
def text (b : GwBuffer) : CString := cString b.addr

-- The string from `addr` on, as it is read where `addr` need not end it; one that does not
-- end in the structure is read past its block.
def string (b : GwBuffer) : Option CString :=
  let bytes := b.addr ++ b.pad ++ intBytes b.port
  if 0 ∈ bytes then some (cString bytes) else none

-- What the program reads in the structure.
def message (b : GwBuffer) : MessageGw := ⟨b.type, b.text, b.port⟩

theorem text_of_fill {old b : GwBuffer} {addr : CString} {port : UInt16} {type : Int32}
    (hs : 0 ∉ addr) (h : fill old addr port type = some b) :
    b.text = addr ∧ b.type = type ∧ b.port = Int32.ofNat port.toNat := by
  unfold fill at h
  split at h
  · obtain rfl := Option.some.inj h
    exact ⟨cString_append_nul _ _ hs, rfl, rfl⟩
  · cases h

end GwBuffer

-- The datagram that is sent; `old` is what the sender's local structure held.
def streamAndSendGw (old : GwBuffer) (addr : CString) (port : UInt16) (type : Int32) :
    Option (List Byte) := (old.fill addr port type).map GwBuffer.stream

-- What is read into a block of `malloc` of the size of the structure.
theorem size_le_overlay (read : List Byte) (heap : Nat → Byte) :
    MESSAGE_GW_SIZE ≤ (overlay read (malloc heap MESSAGE_GW_SIZE)).length := by
  simp only [overlay, List.length_append, List.length_drop, length_malloc]
  omega

-- The value returned and what `buff` holds then. `none` is an error of `recvfrom`. A
-- datagram is cut at the size of the structure; where it is shorter the rest of `stream`
-- keeps what the block of `malloc` held.
def recvAndUnstreamGw (heap : Nat → Byte) (buff : GwBuffer) : Option (List Byte) → Int × GwBuffer
  | none => (-1, buff)
  | some datagram =>
      let read := datagram.take MESSAGE_GW_SIZE
      if read.length = 0 then (0, buff)
      else (1, GwBuffer.unstream (overlay read (malloc heap MESSAGE_GW_SIZE))
        (size_le_overlay read heap))

-- A datagram of the whole size leaves nothing of what was there before.
theorem recvAndUnstreamGw_whole (heap heap' : Nat → Byte) (buff buff' : GwBuffer)
    {datagram : List Byte} (h : MESSAGE_GW_SIZE ≤ datagram.length) :
    recvAndUnstreamGw heap buff (some datagram) = recvAndUnstreamGw heap' buff' (some datagram) := by
  have hread : (datagram.take MESSAGE_GW_SIZE).length = MESSAGE_GW_SIZE := by simp [h]
  have hne : (datagram.take MESSAGE_GW_SIZE).length ≠ 0 := by
    rw [hread]
    decide
  have hover : ∀ heap : Nat → Byte, overlay (datagram.take MESSAGE_GW_SIZE)
      (malloc heap MESSAGE_GW_SIZE) = datagram.take MESSAGE_GW_SIZE := fun heap =>
    overlay_of_length_le _ _ (by simp [hread])
  simp only [recvAndUnstreamGw, if_neg hne, hover]

-- What was sent comes out again.
theorem recvAndUnstreamGw_stream (heap : Nat → Byte) (buff b : GwBuffer) :
    recvAndUnstreamGw heap buff (some b.stream) = (1, b) := by
  have htake : b.stream.take MESSAGE_GW_SIZE = b.stream := by
    rw [← b.length_stream, List.take_length]
  have hover : overlay b.stream (malloc heap MESSAGE_GW_SIZE) = b.stream :=
    overlay_of_length_le _ _ (by simp)
  have hne : b.stream.length ≠ 0 := by simp [MESSAGE_GW_SIZE]
  simp only [recvAndUnstreamGw, htake, if_neg hne, hover, GwBuffer.unstream_stream]

end Datagrams

end Gallery
