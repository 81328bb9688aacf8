import Gallery.Bytes
import Mathlib.Data.List.Basic

namespace Gallery.Text

def isDigit (b : Byte) : Bool := 48 ≤ b && b ≤ 57

-- `isspace` in the C locale.
def isSpace (b : Byte) : Bool := b == 32 || (9 ≤ b && b ≤ 13)

section Decimal

-- The conversions `%u` and `%lu` of `printf`.
def decimal (n : Nat) : List Byte := (Nat.toDigits 10 n).map Char.toUInt8

-- The conversion `%d` of `printf`.
def decimalInt (i : Int) : List Byte :=
  if i < 0 then 45 :: decimal i.natAbs else decimal i.natAbs

def digitsValue (ds : List Byte) : Nat := ds.foldl (fun v b => 10 * v + (b.toNat - 48)) 0

theorem toNat_toUInt8_of_isDigit (c : Char) (h : c.isDigit = true) :
    c.toUInt8.toNat = c.toNat ∧ 48 ≤ c.toNat ∧ c.toNat ≤ 57 := by
  simp only [Char.isDigit, Bool.and_eq_true, decide_eq_true_eq, UInt32.le_iff_toNat_le] at h
  obtain ⟨hlo, hhi⟩ := h
  have hlo' : 48 ≤ c.toNat := hlo
  have hhi' : c.toNat ≤ 57 := hhi
  refine ⟨?_, hlo', hhi'⟩
  change c.val.toUInt8.toNat = c.toNat
  rw [UInt32.toNat_toUInt8]
  exact Nat.mod_eq_of_lt (Nat.lt_of_le_of_lt hhi' (by decide))

theorem isDigit_of_mem_decimal (n : Nat) (b : Byte) (hb : b ∈ decimal n) : isDigit b = true := by
  obtain ⟨c, hc, rfl⟩ := List.mem_map.mp hb
  obtain ⟨he, hlo, hhi⟩ :=
    toNat_toUInt8_of_isDigit c (Nat.isDigit_of_mem_toDigits (by decide) (by decide) hc)
  simp only [isDigit, Bool.and_eq_true, decide_eq_true_eq, UInt8.le_iff_toNat_le, he]
  exact ⟨hlo, hhi⟩

theorem nul_notMem_decimal (n : Nat) : 0 ∉ decimal n :=
  fun h => absurd (isDigit_of_mem_decimal n 0 h) (by decide)

theorem decimal_ne_nil (n : Nat) : decimal n ≠ [] := by
  simp [decimal]

theorem digitsValue_decimal (n : Nat) : digitsValue (decimal n) = n := by
  have hfold : ∀ (cs : List Char) (v : Nat), (∀ c ∈ cs, c.isDigit = true) →
      (cs.map Char.toUInt8).foldl (fun v b => 10 * v + (b.toNat - 48)) v =
        Nat.ofDigitChars 10 cs v := by
    intro cs
    induction cs with
    | nil => simp
    | cons c cs ih =>
        intro v hcs
        obtain ⟨he, -, -⟩ := toNat_toUInt8_of_isDigit c (hcs c (by simp))
        simp only [List.map_cons, List.foldl_cons, Nat.ofDigitChars_cons, he]
        exact ih _ (fun c hc => hcs c (by simp [hc]))
  rw [digitsValue, decimal, hfold _ _ (fun c hc => Nat.isDigit_of_mem_toDigits (by decide)
    (by decide) hc), Nat.ofDigitChars_ten_toDigits]

theorem decimal_injective {m n : Nat} (h : decimal m = decimal n) : m = n := by
  rw [← digitsValue_decimal m, ← digitsValue_decimal n, h]

theorem length_decimal_le {n k : Nat} (hk : 0 < k) (h : n < 10 ^ k) : (decimal n).length ≤ k := by
  rw [decimal, List.length_map]
  exact (Nat.length_toDigits_le_iff (by decide) hk).mpr h

end Decimal

section Scan

-- What one conversion of `sscanf` reads from the text: the value and the text
-- left, or `none` when it does not match.
abbrev Scan (α : Type) := Option (α × List Byte)

-- `%[^c]`
def scanUntil (stop : Byte) (s : List Byte) : Scan (List Byte) :=
  let field := s.takeWhile (· != stop)
  if field = [] then none else some (field, s.dropWhile (· != stop))

-- `%s`
def scanWord (s : List Byte) : Scan (List Byte) :=
  let s := s.dropWhile isSpace
  let field := s.takeWhile (fun b => !isSpace b)
  if field = [] then none else some (field, s.dropWhile (fun b => !isSpace b))

-- An ordinary character of the format.
def scanLiteral (c : Byte) : List Byte → Scan Unit
  | [] => none
  | b :: s => if b = c then some ((), s) else none

def scanSign : List Byte → Bool × List Byte
  | [] => (false, [])
  | b :: s => if b = 45 then (true, s) else if b = 43 then (false, s) else (false, b :: s)

-- The optional sign, the digits and the text after them.
def scanNumber (s : List Byte) : Scan (Bool × Nat) :=
  let (negative, s) := scanSign (s.dropWhile isSpace)
  let digits := s.takeWhile isDigit
  if digits = [] then none
  else some ((negative, digitsValue digits), s.dropWhile isDigit)

-- `strtoul`: too large a number gives `ULONG_MAX`, a sign negates in 64 bits.
def strtoul (negative : Bool) (value : Nat) : Nat :=
  if 2 ^ 64 ≤ value then 2 ^ 64 - 1
  else if negative then (2 ^ 64 - value) % 2 ^ 64
  else value

-- `strtol`: a number out of range gives the nearest `long`.
def strtol (negative : Bool) (value : Nat) : Int :=
  if negative then max (-value) (-2 ^ 63) else min value (2 ^ 63 - 1)

-- `%lu`
def scanULong (s : List Byte) : Scan Nat :=
  (scanNumber s).map fun ((negative, value), s) => (strtoul negative value, s)

-- `%u`
def scanUInt (s : List Byte) : Scan UInt32 :=
  (scanNumber s).map fun ((negative, value), s) => (UInt32.ofNat (strtoul negative value), s)

-- `%d`
def scanInt (s : List Byte) : Scan Int32 :=
  (scanNumber s).map fun ((negative, value), s) => (Int32.ofInt (strtol negative value), s)

-- The text after a number: it must not go on with a digit.
def Stops (p : Byte → Bool) (s : List Byte) : Prop := ∀ b ∈ s.head?, p b = false

theorem stops_nil (p : Byte → Bool) : Stops p [] := by simp [Stops]

theorem stops_cons (p : Byte → Bool) (b : Byte) (s : List Byte) (h : p b = false) :
    Stops p (b :: s) := by
  simpa [Stops] using h

theorem takeWhile_append_stops {p : Byte → Bool} {s rest : List Byte} (hs : ∀ b ∈ s, p b = true)
    (hr : Stops p rest) :
    (s ++ rest).takeWhile p = s ∧ (s ++ rest).dropWhile p = rest := by
  rw [List.takeWhile_append_of_pos hs, List.dropWhile_append_of_pos hs]
  cases rest with
  | nil => simp
  | cons b rest =>
      have hb : p b = false := hr b (by simp)
      simp [hb]

theorem scanUntil_append (stop : Byte) (field rest : List Byte) (hne : field ≠ [])
    (hf : stop ∉ field) : scanUntil stop (field ++ stop :: rest) = some (field, stop :: rest) := by
  have hp : ∀ b ∈ field, (b != stop) = true := by
    intro b hb
    have : b ≠ stop := fun h => hf (h ▸ hb)
    simpa using this
  obtain ⟨ht, hd⟩ := takeWhile_append_stops hp (stops_cons (· != stop) stop rest (by simp))
  simp [scanUntil, ht, hd, hne]

theorem scanWord_append (word rest : List Byte) (hne : word ≠ [])
    (hw : ∀ b ∈ word, isSpace b = false) (hr : Stops (fun b => !isSpace b) rest) :
    scanWord (word ++ rest) = some (word, rest) := by
  have hskip : (word ++ rest).dropWhile isSpace = word ++ rest := by
    cases word with
    | nil => exact absurd rfl hne
    | cons b word => simp [hw b (by simp)]
  have hp : ∀ b ∈ word, (!isSpace b) = true := fun b hb => by simp [hw b hb]
  obtain ⟨ht, hd⟩ := takeWhile_append_stops hp hr
  simp [scanWord, hskip, ht, hd, hne]

@[simp] theorem scanLiteral_cons (c : Byte) (s : List Byte) : scanLiteral c (c :: s) = some ((), s) := by
  simp [scanLiteral]

theorem isSpace_eq_false_of_isDigit (b : Byte) (h : isDigit b = true) : isSpace b = false := by
  simp only [isDigit, isSpace, Bool.and_eq_true, decide_eq_true_eq, Bool.or_eq_false_iff,
    UInt8.le_iff_toNat_le, Bool.and_eq_false_iff, decide_eq_false_iff_not, beq_eq_false_iff_ne,
    ne_eq, ← UInt8.toNat_inj] at h ⊢
  simp only [UInt8.reduceToNat] at h ⊢
  omega

theorem scanSign_of_isDigit (b : Byte) (s : List Byte) (h : isDigit b = true) :
    scanSign (b :: s) = (false, b :: s) := by
  have hminus : b ≠ 45 := by rintro rfl; exact absurd h (by decide)
  have hplus : b ≠ 43 := by rintro rfl; exact absurd h (by decide)
  rw [scanSign, if_neg hminus, if_neg hplus]

theorem scanNumber_decimal (n : Nat) (rest : List Byte) (hr : Stops isDigit rest) :
    scanNumber (decimal n ++ rest) = some ((false, n), rest) := by
  obtain ⟨ht, hd⟩ := takeWhile_append_stops (isDigit_of_mem_decimal n) hr
  have hsign : scanSign ((decimal n ++ rest).dropWhile isSpace) = (false, decimal n ++ rest) := by
    cases h : decimal n with
    | nil => exact absurd h (decimal_ne_nil n)
    | cons b ds =>
        have hb := isDigit_of_mem_decimal n b (by simp [h])
        rw [List.cons_append, List.dropWhile_cons, isSpace_eq_false_of_isDigit b hb]
        exact scanSign_of_isDigit b _ hb
  simp only [scanNumber, hsign, ht, hd, decimal_ne_nil, if_false, digitsValue_decimal]

theorem strtoul_of_lt (n : Nat) (hn : n < 2 ^ 64) : strtoul false n = n := by
  rw [strtoul, if_neg (by omega), if_neg (by decide)]

theorem strtol_of_lt (n : Nat) (hn : n < 2 ^ 63) : strtol false n = n := by
  rw [strtol, if_neg (by decide)]
  omega

theorem scanULong_decimal (n : Nat) (rest : List Byte) (hn : n < 2 ^ 64) (hr : Stops isDigit rest) :
    scanULong (decimal n ++ rest) = some (n, rest) := by
  simp only [scanULong, scanNumber_decimal n rest hr, Option.map_some, strtoul_of_lt n hn]

theorem scanUInt_decimal (n : UInt32) (rest : List Byte) (hr : Stops isDigit rest) :
    scanUInt (decimal n.toNat ++ rest) = some (n, rest) := by
  have hn : n.toNat < 2 ^ 64 := Nat.lt_trans n.toNat_lt (by decide)
  simp only [scanUInt, scanNumber_decimal n.toNat rest hr, Option.map_some, strtoul_of_lt _ hn,
    UInt32.ofNat_toNat]

theorem scanInt_decimal (n : Nat) (rest : List Byte) (hn : n < 2 ^ 31) (hr : Stops isDigit rest) :
    scanInt (decimal n ++ rest) = some (Int32.ofNat n, rest) := by
  simp only [scanInt, scanNumber_decimal n rest hr, Option.map_some,
    strtol_of_lt n (Nat.lt_trans hn (by decide))]
  rfl

end Scan

end Gallery.Text
