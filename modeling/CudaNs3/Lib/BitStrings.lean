import Mathlib.Data.BitVec
import Mathlib.Algebra.Order.Group.Nat
import Mathlib.Tactic.Ring

/-!
# Strings of bits, the highest first

The lowest bits of a number as a string, the number a string stands for, and shifting the bits
of a string into a word of fixed width.
-/

namespace BitStrings

set_option autoImplicit false

/-- The `n` lowest bits of `v`, the highest of them first. -/
def digits : Nat → Nat → List Bool
  | 0, _ => []
  | n + 1, v => v.testBit n :: digits n v

/-- The number that `n` becomes when the bits are appended to it. -/
def extend (n : Nat) (bits : List Bool) : Nat := bits.foldl (fun n b => 2 * n + b.toNat) n

def value (bits : List Bool) : Nat := extend 0 bits

variable {n m v w : Nat} {b : Bool} {bits : List Bool} {r : BitVec w}

@[simp] theorem length_digits : (digits n v).length = n := by
  induction n with
  | zero => rfl
  | succ n ih => exact congrArg (· + 1) ih

theorem digits_mod (h : n ≤ m) : digits n (v % 2 ^ m) = digits n v := by
  induction n with
  | zero => rfl
  | succ n ih =>
    unfold digits
    rw [ih (by omega), Nat.testBit_mod_two_pow, decide_eq_true (show n < m by omega), Bool.true_and]

theorem extend_eq (n : Nat) (bits : List Bool) : extend n bits = n * 2 ^ bits.length + value bits := by
  induction bits generalizing n with
  | nil => exact (Nat.mul_one n).symm
  | cons b bits ih =>
    have hvalue : value (b :: bits) = extend (2 * 0 + b.toNat) bits := rfl
    change extend (2 * n + b.toNat) bits = _
    rw [hvalue, ih, ih, List.length_cons, Nat.pow_succ]
    ring

@[simp] theorem value_nil : value [] = 0 := rfl

@[simp] theorem value_cons : value (b :: bits) = b.toNat * 2 ^ bits.length + value bits := by
  rw [← extend_eq]
  exact congrArg (extend · bits) (Nat.zero_add _)

theorem value_lt (bits : List Bool) : value bits < 2 ^ bits.length := by
  induction bits with
  | nil => exact Nat.one_pos
  | cons b bits ih =>
    have hle : b.toNat * 2 ^ bits.length ≤ 1 * 2 ^ bits.length :=
      Nat.mul_le_mul_right _ (Bool.toNat_le b)
    rw [value_cons, List.length_cons, Nat.pow_succ]
    omega

theorem value_digits (n v : Nat) : value (digits n v) = v % 2 ^ n := by
  induction n with
  | zero => exact (Nat.mod_one v).symm
  | succ n ih =>
    unfold digits
    rw [value_cons, length_digits, ih, Nat.mod_pow_succ, Nat.toNat_testBit, Nat.add_comm,
      Nat.mul_comm]

theorem digits_value (bits : List Bool) : digits bits.length (value bits) = bits := by
  induction bits with
  | nil => rfl
  | cons b bits ih =>
    have hlt := value_lt bits
    have hlow : value (b :: bits) % 2 ^ bits.length = value bits := by
      rw [value_cons, Nat.mul_add_mod_of_lt hlt]
    have hhigh : (value (b :: bits)).testBit bits.length = b := by
      rw [value_cons, Nat.mul_comm, Nat.testBit_two_pow_mul_add _ hlt, if_neg (Nat.lt_irrefl _),
        Nat.sub_self]
      cases b <;> rfl
    rw [List.length_cons, digits, hhigh, ← digits_mod (Nat.le_refl _), hlow, ih]

/-- Whether the bit of the mask is set. -/
theorem decide_and_ne_zero {x mask : BitVec w} (hn : n < w) (hmask : mask.toNat = 2 ^ n) :
    decide (x &&& mask ≠ 0) = x.toNat.testBit n := by
  obtain rfl : mask = BitVec.twoPow w n := by
    rw [← BitVec.toNat_inj, hmask, BitVec.toNat_twoPow_of_lt hn]
  have hne : BitVec.twoPow w n ≠ 0 := by
    rw [ne_eq, ← BitVec.toNat_inj, hmask]
    exact (Nat.two_pow_pos n).ne'
  rw [BitVec.and_twoPow, BitVec.testBit_toNat]
  cases x.getLsbD n with
  | true => exact decide_eq_true hne
  | false => exact decide_eq_false (not_not_intro rfl)

/-- Shifting a bit in, as it is written with words. -/
theorem or_ofBool_eq_shiftConcat (r : BitVec w) (b : Bool) :
    (r <<< 1) ||| (BitVec.ofBool b).setWidth w = r.shiftConcat b := by
  apply BitVec.eq_of_getLsbD_eq
  intro i hi
  rw [BitVec.getLsbD_or, BitVec.getLsbD_shiftLeft, BitVec.getLsbD_setWidth,
    BitVec.getLsbD_shiftConcat, decide_eq_true hi, BitVec.getLsbD_ofBool]
  cases i with
  | zero => simp
  | succ i => simp

/-- The word after the bits of a string. -/
theorem toNat_foldl_shiftConcat (r : BitVec w) (bits : List Bool) :
    (bits.foldl BitVec.shiftConcat r).toNat = extend r.toNat bits % 2 ^ w := by
  induction bits generalizing r with
  | nil => exact (Nat.mod_eq_of_lt r.isLt).symm
  | cons b bits ih =>
    have hmod (n : Nat) : extend (n % 2 ^ w) bits % 2 ^ w = extend n bits % 2 ^ w := by
      rw [extend_eq, extend_eq]
      exact (Nat.ModEq.mul_right _ (Nat.mod_modEq n _)).add_right _
    rw [List.foldl_cons, ih, BitVec.toNat_shiftConcat, Nat.shiftLeft_eq, hmod, Nat.pow_one,
      Nat.mul_comm]
    rfl

end BitStrings
