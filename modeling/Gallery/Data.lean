import Gallery.Bytes

namespace Gallery

open Bytes

def MAX_SIZE : Nat := 100
def SIZE : Nat := 100
def MAX_KEYWORDS : Nat := 20

-- The characters of a C string before its terminating NUL.
abbrev CString := List Byte

def cString (buffer : List Byte) : CString :=
  buffer.takeWhile (· != 0)

-- `n_keywords` is the length of the table's used part.
structure Data where
  name : CString
  id : UInt32
  keyword : List CString
  deriving DecidableEq, Repr

def Data.n_keywords (K : Data) : Nat := K.keyword.length

def setData (name : CString) (id : UInt32) : Data :=
  { name := name, id := id, keyword := [] }

def equalData (K1 K2 : Data) : Bool := K1.id == K2.id

structure DataR where
  addr : CString
  port : Int32
  deriving DecidableEq, Repr

def setDataR (addr : CString) (port : Int32) : DataR :=
  { addr := addr, port := port }

def equalDataR (K1 K2 : DataR) : Bool :=
  K1.addr == K2.addr && K1.port == K2.port

theorem equalDataR_iff (K1 K2 : DataR) : equalDataR K1 K2 = true ↔ K1 = K2 := by
  cases K1
  cases K2
  simp [equalDataR]

-- An `int` and a `uint32_t` as their four bytes on the wire.
def intBytes (i : Int32) : List Byte := leBytes 4 i.toUInt32.toNat

def intOfBytes (bs : List Byte) : Int32 := Int32.ofNat (leNat bs)

def uint32Bytes (n : UInt32) : List Byte := leBytes 4 n.toNat

def uint32OfBytes (bs : List Byte) : UInt32 := UInt32.ofNat (leNat bs)

@[simp] theorem length_intBytes (i : Int32) : (intBytes i).length = 4 := length_leBytes 4 _

@[simp] theorem length_uint32Bytes (n : UInt32) : (uint32Bytes n).length = 4 := length_leBytes 4 _

theorem length_flatMap_uint32Bytes (ids : List UInt32) :
    (ids.flatMap uint32Bytes).length = 4 * ids.length := by
  induction ids with
  | nil => rfl
  | cons id ids ih => simp [List.flatMap_cons, ih, Nat.mul_add, Nat.add_comm]

@[simp] theorem uint32OfBytes_uint32Bytes (n : UInt32) : uint32OfBytes (uint32Bytes n) = n := by
  have h : n.toNat < 256 ^ 4 := n.toNat_lt
  rw [uint32OfBytes, uint32Bytes, leNat_leBytes, Nat.mod_eq_of_lt h, UInt32.ofNat_toNat]

@[simp] theorem intOfBytes_intBytes (i : Int32) : intOfBytes (intBytes i) = i := by
  have h := uint32OfBytes_uint32Bytes i.toUInt32
  exact congrArg UInt32.toInt32 h

theorem intBytes_intOfBytes (bs : List Byte) (h : bs.length = 4) :
    intBytes (intOfBytes bs) = bs := by
  have hlt := leNat_lt bs
  have hn : (UInt32.ofNat (leNat bs)).toNat = leNat bs := by
    rw [UInt32.toNat_ofNat', Nat.mod_eq_of_lt (by rw [h] at hlt; exact hlt)]
  change leBytes 4 (UInt32.ofNat (leNat bs)).toNat = bs
  rw [hn, ← h, leBytes_leNat]

theorem leNat_intBytes_ofNat (n : Nat) (h : n < 2 ^ 32) : leNat (intBytes (Int32.ofNat n)) = n := by
  have hn : (UInt32.ofNat n).toNat = n := by rw [UInt32.toNat_ofNat', Nat.mod_eq_of_lt h]
  change leNat (leBytes 4 (UInt32.ofNat n).toNat) = n
  rw [hn, leNat_leBytes]
  exact Nat.mod_eq_of_lt h

theorem ofNat_eq_iff {n : Nat} {i : Int32} (h : n < 2 ^ 31) : Int32.ofNat n = i ↔ (n : Int) = i.toInt := by
  rw [← Int32.toInt_inj, Int32.toInt_ofNat_of_lt h]

-- A message as it lies in memory: the whole buffer, the bytes after the
-- terminator included.
structure MessagePhoto where
  buffer : List Byte
  type : Int32
  buffer_length : buffer.length = MAX_SIZE
  deriving DecidableEq

-- `sizeof(message_photo)`
def MESSAGE_PHOTO_SIZE : Nat := 104

def MessagePhoto.stream (m : MessagePhoto) : List Byte := m.buffer ++ intBytes m.type

-- The structure read back from at least `MESSAGE_PHOTO_SIZE` bytes.
def MessagePhoto.unstream (stream : List Byte) : Option MessagePhoto :=
  if h : (stream.take MAX_SIZE).length = MAX_SIZE then
    some ⟨stream.take MAX_SIZE, intOfBytes ((stream.drop MAX_SIZE).take 4), h⟩
  else none

@[simp] theorem MessagePhoto.length_stream (m : MessagePhoto) :
    m.stream.length = MESSAGE_PHOTO_SIZE := by
  simp [MessagePhoto.stream, m.buffer_length, MAX_SIZE, MESSAGE_PHOTO_SIZE]

theorem MessagePhoto.unstream_stream (m : MessagePhoto) (more : List Byte) :
    MessagePhoto.unstream (m.stream ++ more) = some m := by
  have hb : (m.stream ++ more).take MAX_SIZE = m.buffer := by
    rw [MessagePhoto.stream, List.append_assoc, ← m.buffer_length, List.take_left]
  have ht : ((m.stream ++ more).drop MAX_SIZE).take 4 = intBytes m.type := by
    rw [MessagePhoto.stream, List.append_assoc, ← m.buffer_length, List.drop_left,
      ← length_intBytes m.type, List.take_left]
  simp only [MessagePhoto.unstream, hb, ht, m.buffer_length, dite_true, intOfBytes_intBytes]

-- `strcpy(buff.buffer, buffer); buff.type = type;` where `buff` holds `old`:
-- what follows the terminator stays. `none` is a write past the buffer.
def MessagePhoto.fill (old : MessagePhoto) (buffer : CString) (type : Int32) :
    Option MessagePhoto :=
  if h : buffer.length < MAX_SIZE then
    some ⟨buffer ++ 0 :: old.buffer.drop (buffer.length + 1), type, by
      simp only [List.length_append, List.length_cons, List.length_drop, old.buffer_length]
      omega⟩
  else none

theorem MessagePhoto.exists_fill {buffer : CString} (hfits : buffer.length < MAX_SIZE)
    (old : MessagePhoto) (type : Int32) : ∃ m, MessagePhoto.fill old buffer type = some m := by
  rw [MessagePhoto.fill, dif_pos hfits]
  exact ⟨_, rfl⟩

-- The string the receiver finds in the buffer.
def MessagePhoto.text (m : MessagePhoto) : CString := cString m.buffer

theorem cString_append_nul (s : CString) (rest : List Byte) (hs : 0 ∉ s) :
    cString (s ++ 0 :: rest) = s := by
  have h : ∀ b ∈ s, (b != 0) = true := by
    intro b hb
    have hne : b ≠ 0 := fun h => hs (h ▸ hb)
    simpa using hne
  simp [cString, List.takeWhile_append_of_pos h]

theorem MessagePhoto.text_of_fill {old m : MessagePhoto} {buffer : CString} {type : Int32}
    (hs : 0 ∉ buffer) (h : MessagePhoto.fill old buffer type = some m) :
    m.text = buffer ∧ m.type = type := by
  unfold MessagePhoto.fill at h
  split at h
  · obtain rfl := Option.some.inj h
    exact ⟨cString_append_nul _ _ hs, rfl⟩
  · cases h

end Gallery
