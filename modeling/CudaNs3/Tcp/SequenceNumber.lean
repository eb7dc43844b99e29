import Mathlib.Data.BitVec
import Mathlib.Tactic.Ring

/-!
# Sequence numbers

`SequenceNumber<N, S>` compares values on a circle: of two values less than half the circle
apart, the one that comes later is the greater. Positions of a stream are written as an
origin plus a natural number, and the comparisons then become those of natural numbers.
-/

namespace CudaNs3.Tcp

set_option autoImplicit false

abbrev SequenceNumber (w : Nat) := BitVec w

namespace SequenceNumber
variable {w : Nat}

def halfMaxValue (w : Nat) : BitVec w := BitVec.allOnes w / 2

def gt (a b : SequenceNumber w) : Bool :=
  (b < a && a - b ≤ halfMaxValue w) || (a < b && halfMaxValue w < b - a)

def ge (a b : SequenceNumber w) : Bool := gt a b || a = b

def le (a b : SequenceNumber w) : Bool := !gt a b

def lt (a b : SequenceNumber w) : Bool := !gt a b && a ≠ b

/-- The signed difference, as the two branches of `operator-` compute it. -/
def sub (a b : SequenceNumber w) : Int :=
  if b < a then
    let diff := a - b
    if diff < halfMaxValue w then diff.toInt
    else -(BitVec.allOnes w - a + 1 + b).toInt
  else
    let diff := b - a
    if diff < halfMaxValue w then -diff.toInt
    else (BitVec.allOnes w - b + 1 + a).toInt

/-- A difference that is passed on as an unsigned number. -/
def distance (a b : SequenceNumber w) : BitVec w := BitVec.ofInt w (sub a b)

theorem distance_eq (a b : SequenceNumber w) : distance a b = a - b := by
  have hwrap (x y : BitVec w) : BitVec.allOnes w - x + 1 + y = y - x := by
    have hones : BitVec.allOnes w + 1 = 0 := by
      rw [← BitVec.neg_one_eq_allOnes]
      exact neg_add_cancel _
    rw [sub_add_eq_add_sub, hones, zero_sub, neg_add_eq_sub]
  have hneg (x : BitVec w) : BitVec.ofInt w (-x.toInt) = -x := by
    rw [BitVec.ofInt_neg, BitVec.ofInt_toInt]
  unfold distance sub
  simp only [hwrap]
  split
  · split
    · exact BitVec.ofInt_toInt
    · rw [hneg, neg_sub]
  · split
    · rw [hneg, neg_sub]
    · exact BitVec.ofInt_toInt

theorem toNat_halfMaxValue (hw : 1 < w) : (halfMaxValue w).toNat = 2 ^ (w - 1) - 1 := by
  have hdouble : 2 ^ w = 2 * 2 ^ (w - 1) := by
    rw [← pow_succ', Nat.sub_add_cancel (by omega)]
  have htwo : 2 % 2 ^ w = 2 := Nat.mod_eq_of_lt (by
    calc 2 = 2 ^ 1 := rfl
      _ < 2 ^ w := Nat.pow_lt_pow_right (by decide) hw)
  rw [halfMaxValue, BitVec.toNat_udiv, BitVec.toNat_allOnes]
  simp only [BitVec.ofNat_eq_ofNat, BitVec.toNat_ofNat, htwo]
  omega

/-- The greater of two values is ahead by less than half the circle; of two opposite values it
is the one with the smaller number. -/
theorem gt_iff (hw : 1 < w) (a b : SequenceNumber w) :
    gt a b ↔ 0 < (a - b).toNat ∧ (a - b).toNat < 2 ^ (w - 1) ∨
      (a - b).toNat = 2 ^ (w - 1) ∧ a < b := by
  have hdouble : 2 ^ w = 2 * 2 ^ (w - 1) := by
    rw [← pow_succ', Nat.sub_add_cancel (by omega)]
  have hone : 1 < 2 ^ (w - 1) := Nat.one_lt_two_pow (by omega)
  simp only [gt, Bool.or_eq_true, Bool.and_eq_true, decide_eq_true_eq, BitVec.lt_def,
    BitVec.le_def, toNat_halfMaxValue hw]
  have ha := a.isLt
  have hb := b.isLt
  rcases Nat.lt_trichotomy b.toNat a.toNat with hlt | heq | hlt
  · rw [BitVec.toNat_sub_of_le (BitVec.le_def.mpr hlt.le)]
    omega
  · rw [BitVec.eq_of_toNat_eq heq, BitVec.sub_self]
    simp
  · rw [BitVec.toNat_sub_of_le (BitVec.le_def.mpr hlt.le),
      BitVec.toNat_sub_of_lt (BitVec.lt_def.mpr hlt)]
    omega

/-- The number `x` places after `origin`. -/
def at32 (origin : SequenceNumber 32) (x : Nat) : SequenceNumber 32 := origin + BitVec.ofNat 32 x

section Place
variable {origin : SequenceNumber 32} {x y : Nat}

theorem at32_add (origin : SequenceNumber 32) (x y : Nat) :
    at32 origin x + BitVec.ofNat 32 y = at32 origin (x + y) := by
  simp only [at32, BitVec.ofNat_add, BitVec.add_assoc]

@[simp] theorem at32_zero (origin : SequenceNumber 32) : at32 origin 0 = origin := by
  simp [at32]

theorem at32_sub (h : y ≤ x) : at32 origin x - at32 origin y = BitVec.ofNat 32 (x - y) := by
  obtain ⟨k, rfl⟩ := Nat.exists_eq_add_of_le h
  simp only [at32, Nat.add_sub_cancel_left, BitVec.ofNat_add]
  ring

variable (hx : x < y + 2 ^ 31) (hy : y < x + 2 ^ 31)
include hx hy

theorem at32_inj : at32 origin x = at32 origin y ↔ x = y := by
  refine ⟨fun h => ?_, fun h => h ▸ rfl⟩
  have hnat := congrArg BitVec.toNat h
  simp only [at32, BitVec.toNat_add, BitVec.toNat_ofNat] at hnat
  omega

theorem gt_at32 : gt (at32 origin x) (at32 origin y) ↔ y < x := by
  have horigin := origin.isLt
  have hhalf : (halfMaxValue 32).toNat = 2147483647 := rfl
  simp only [gt, at32, Bool.or_eq_true, Bool.and_eq_true, decide_eq_true_eq, BitVec.lt_def,
    BitVec.le_def, BitVec.toNat_add, BitVec.toNat_sub, BitVec.toNat_ofNat, hhalf]
  omega

theorem ge_at32 : ge (at32 origin x) (at32 origin y) ↔ y ≤ x := by
  simp only [ge, Bool.or_eq_true, decide_eq_true_eq, gt_at32 hx hy, at32_inj hx hy]
  omega

theorem le_at32 : le (at32 origin x) (at32 origin y) ↔ x ≤ y := by
  simp only [le, Bool.not_eq_true', Bool.eq_false_iff, ne_eq, gt_at32 hx hy]
  omega

theorem lt_at32 : lt (at32 origin x) (at32 origin y) ↔ x < y := by
  simp only [lt, Bool.and_eq_true, Bool.not_eq_true', Bool.eq_false_iff, ne_eq, gt_at32 hx hy,
    decide_eq_true_eq, at32_inj hx hy]
  omega

end Place

end SequenceNumber

end CudaNs3.Tcp
