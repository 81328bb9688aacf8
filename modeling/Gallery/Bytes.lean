import Mathlib.Data.Nat.Basic
import Mathlib.Tactic.Ring

namespace Gallery

abbrev Byte := UInt8

namespace Bytes

-- The lowest `width` base-256 digits of a number, least significant first.
def leBytes : Nat → Nat → List Byte
  | 0, _ => []
  | width + 1, n => UInt8.ofNat n :: leBytes width (n / 256)

def leNat : List Byte → Nat
  | [] => 0
  | b :: bs => b.toNat + 256 * leNat bs

@[simp] theorem length_leBytes (width n : Nat) : (leBytes width n).length = width := by
  induction width generalizing n with
  | zero => rfl
  | succ width ih => simp [leBytes, ih]

theorem leNat_leBytes (width n : Nat) : leNat (leBytes width n) = n % 256 ^ width := by
  induction width generalizing n with
  | zero => simp [leBytes, leNat, Nat.mod_one]
  | succ width ih =>
      have hb : (UInt8.ofNat n).toNat = n % 256 := by simp
      rw [leBytes, leNat, ih, hb, Nat.pow_succ, Nat.mul_comm (256 ^ width), Nat.mod_mul]

theorem leNat_lt (bs : List Byte) : leNat bs < 256 ^ bs.length := by
  induction bs with
  | nil => simp [leNat]
  | cons b bs ih =>
      have hb : b.toNat < 256 := b.toNat_lt
      have hp : 256 ^ (bs.length + 1) = 256 * 256 ^ bs.length := by ring
      simp only [leNat, List.length_cons, hp]
      omega

theorem leBytes_leNat (bs : List Byte) : leBytes bs.length (leNat bs) = bs := by
  induction bs with
  | nil => rfl
  | cons b bs ih =>
      have hb : b.toNat < 256 := b.toNat_lt
      have hlow : UInt8.ofNat (b.toNat + 256 * leNat bs) = b := by
        apply UInt8.toNat_inj.mp
        simp only [UInt8.toNat_ofNat']
        omega
      have hhigh : (b.toNat + 256 * leNat bs) / 256 = leNat bs := by omega
      simp only [List.length_cons, leNat, leBytes, hlow, hhigh, ih]

theorem leNat_append (bs cs : List Byte) :
    leNat (bs ++ cs) = leNat bs + 256 ^ bs.length * leNat cs := by
  induction bs with
  | nil => simp [leNat]
  | cons b bs ih =>
      simp only [List.cons_append, leNat, ih, List.length_cons, Nat.pow_succ]
      ring

theorem leNat_replicate_zero (n : Nat) : leNat (List.replicate n 0) = 0 := by
  induction n with
  | zero => rfl
  | succ n ih => simp [List.replicate_succ, leNat, ih]

-- A stored value whose first bytes were overwritten by `fresh` and whose
-- other bytes keep what was there before.
def overlay (fresh old : List Byte) : List Byte :=
  fresh ++ old.drop fresh.length

theorem overlay_of_length_le (fresh old : List Byte) (h : old.length ≤ fresh.length) :
    overlay fresh old = fresh := by
  simp [overlay, List.drop_eq_nil_of_le h]

@[simp] theorem overlay_nil (old : List Byte) : overlay [] old = old := by
  simp [overlay]

end Bytes

-- A counter of type `int`, which wraps.
section Counters

theorem ofNat_succ (n : Nat) : Int32.ofNat n + 1 = Int32.ofNat (n + 1) := by
  rw [Int32.ofNat_add]
  rfl

theorem toInt_ofNat_eq_iff (n : Nat) : (Int32.ofNat n).toInt = n ↔ n < 2 ^ 31 := by
  constructor
  · intro h
    have hlt := (Int32.ofNat n).toInt_lt
    omega
  · exact fun h => Int32.toInt_ofNat_of_lt h

theorem toNatClampNeg_ofNat (n : Nat) (h : n < 2 ^ 31) : (Int32.ofNat n).toNatClampNeg = n := by
  rw [Int32.toNatClampNeg, Int32.toInt_ofNat_of_lt h, Int.toNat_natCast]

theorem ofNat_inj {n m : Nat} (hn : n < 2 ^ 31) (hm : m < 2 ^ 31) :
    Int32.ofNat n = Int32.ofNat m ↔ n = m := by
  rw [← Int32.toInt_inj, Int32.toInt_ofNat_of_lt hn, Int32.toInt_ofNat_of_lt hm]
  omega

end Counters

end Gallery
