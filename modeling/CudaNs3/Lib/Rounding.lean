import Mathlib.Algebra.Order.Field.Power
import Mathlib.Data.Int.Log
import Mathlib.Data.Rat.Floor
import Mathlib.Tactic.FieldSimp
import Mathlib.Tactic.Linarith
import Mathlib.Tactic.Positivity

/-!
# Rounding to binary floating point

A rational number is rounded to a significand of `p` bits, to the nearest and to the even one of two
that are equally near. The exponent is not bounded: the numbers are those of a format in its normal
range. A quotient of two integers that are not too large is rounded to no other side of an integer.
-/

namespace Rounding

set_option autoImplicit false

variable {p : Nat} {x : ℚ}

/-- The nearest integer, and the even one of two. -/
def nearestEven (x : ℚ) : ℤ :=
  if x - ⌊x⌋ < 1 / 2 then ⌊x⌋
  else if 1 / 2 < x - ⌊x⌋ then ⌊x⌋ + 1
  else if ⌊x⌋ % 2 = 0 then ⌊x⌋ else ⌊x⌋ + 1

/-- The distance of two neighbours where `x` is. -/
def ulp (p : Nat) (x : ℚ) : ℚ := 2 ^ (Int.log 2 x + 1 - p)

def round (p : Nat) (x : ℚ) : ℚ := nearestEven (x / ulp p x) * ulp p x

theorem nearestEven_intCast (n : ℤ) : nearestEven n = n := by
  simp [nearestEven]

theorem abs_nearestEven_sub_le (x : ℚ) : |nearestEven x - x| ≤ 1 / 2 := by
  have hlo := Int.floor_le x
  have hhi := Int.lt_floor_add_one x
  unfold nearestEven
  rw [abs_le]
  split
  · constructor <;> linarith
  split
  · push_cast
    constructor <;> linarith
  split
  · constructor <;> linarith
  · push_cast
    constructor <;> linarith

theorem ulp_pos (p : Nat) (x : ℚ) : 0 < ulp p x := by
  unfold ulp
  positivity

/-- Half a unit in the last place is small beside the number. -/
theorem ulp_le (hx : 0 < x) : ulp p x ≤ x * 2 / 2 ^ p := by
  have hlog : (2 : ℚ) ^ Int.log 2 x ≤ x := by exact_mod_cast Int.zpow_log_le_self (b := 2) (by decide) hx
  have hsplit : ulp p x = 2 ^ Int.log 2 x * 2 / 2 ^ p := by
    unfold ulp
    rw [zpow_sub₀ (by norm_num), zpow_add₀ (by norm_num), zpow_one, zpow_natCast]
  rw [hsplit]
  gcongr

theorem abs_round_sub_le (hx : 0 < x) : |round p x - x| ≤ x / 2 ^ p := by
  have hpos := ulp_pos p x
  have hle := ulp_le (p := p) hx
  have hscale : round p x - x = (nearestEven (x / ulp p x) - x / ulp p x) * ulp p x := by
    unfold round
    field_simp
  rw [hscale, abs_mul, abs_of_pos hpos]
  have hhalf := abs_nearestEven_sub_le (x / ulp p x)
  calc |nearestEven (x / ulp p x) - x / ulp p x| * ulp p x ≤ 1 / 2 * ulp p x := by gcongr
    _ ≤ 1 / 2 * (x * 2 / 2 ^ p) := by gcongr
    _ = x / 2 ^ p := by ring

/-- An integer with a significand of at most `p` bits is not changed. -/
theorem round_natCast {n : Nat} (hn : n < 2 ^ p) : round p n = n := by
  rcases Nat.eq_zero_or_pos n with rfl | hpos
  · simp [round, nearestEven]
  have hone : (1 : ℚ) ≤ (n : ℚ) := by exact_mod_cast hpos
  have hlog : Int.log 2 (n : ℚ) = Nat.log 2 n := by simp
  have hlt : Nat.log 2 n < p := Nat.log_lt_of_lt_pow hpos.ne' hn
  have hexact : (n : ℚ) / ulp p n = ((n * 2 ^ (p - 1 - Nat.log 2 n) : Nat) : ℤ) := by
    have hexp : (Nat.log 2 n : ℤ) + 1 - p = -((p - 1 - Nat.log 2 n : Nat) : ℤ) := by omega
    unfold ulp
    rw [hlog, hexp, zpow_neg, zpow_natCast, div_inv_eq_mul]
    push_cast
    ring
  rw [round, hexact, nearestEven_intCast, ← hexact]
  exact div_mul_cancel₀ _ (ulp_pos p n).ne'

/-- The integer above a quotient is not changed by rounding the quotient: an integer that is not the
quotient is away from it by more than the error. -/
theorem ceil_round_div {a b : Nat} (hb : 0 < b) (ha : a < 2 ^ p) :
    ⌈round p (a / b)⌉ = ⌈(a / b : ℚ)⌉ := by
  have hbq : (0 : ℚ) < b := by exact_mod_cast hb
  rcases Nat.eq_zero_or_pos a with rfl | hpos
  · have hzero := round_natCast (p := p) (n := 0) (Nat.two_pow_pos p)
    rw [Nat.cast_zero] at hzero
    rw [Nat.cast_zero, zero_div, hzero]
  have hx : (0 : ℚ) < a / b := by positivity
  obtain ⟨n, hn⟩ : ∃ n, n = ⌈(a / b : ℚ)⌉ := ⟨_, rfl⟩
  obtain ⟨hlo, hhi⟩ := Int.ceil_eq_iff.mp hn.symm
  obtain ⟨herr, herr'⟩ := abs_le.mp (abs_round_sub_le (p := p) hx)
  have hsmall : (a / b : ℚ) / 2 ^ p < 1 / b := by
    have hap : (a : ℚ) < 2 ^ p := by exact_mod_cast ha
    rw [div_div, mul_comm, ← div_div]
    gcongr
    rwa [div_lt_one (by positivity)]
  have habove : 1 / b ≤ (a / b : ℚ) - (n - 1) := by
    rw [lt_div_iff₀ hbq] at hlo
    have hint : (n - 1) * b + 1 ≤ (a : ℤ) := by exact_mod_cast hlo
    have hint' : ((n : ℚ) - 1) * b + 1 ≤ a := by exact_mod_cast hint
    rw [le_sub_iff_add_le, div_add' _ _ _ hbq.ne', div_le_div_iff_of_pos_right hbq]
    linarith
  rw [← hn]
  refine Int.ceil_eq_iff.mpr ⟨by linarith, ?_⟩
  rcases hhi.eq_or_lt with heq | hlt
  · have hnat : ((n.toNat : Nat) : ℚ) = a / b := by
      have hnn : 0 ≤ n := by
        rw [hn]
        exact Int.ceil_nonneg hx.le
      rw [heq]
      exact_mod_cast congrArg (Int.cast (R := ℚ)) (Int.toNat_of_nonneg hnn)
    have hle : n.toNat ≤ a := by
      have hmul : (n.toNat : ℚ) * b = a := by
        rw [hnat]
        exact div_mul_cancel₀ _ hbq.ne'
      have hmul' : n.toNat * b = a := by exact_mod_cast hmul
      rw [← hmul']
      exact Nat.le_mul_of_pos_right _ hb
    rw [← hnat, round_natCast (lt_of_le_of_lt hle ha), hnat]
    exact hhi
  · have hbelow : 1 / b ≤ (n : ℚ) - a / b := by
      rw [div_lt_iff₀ hbq] at hlt
      have hint : (a : ℤ) + 1 ≤ n * b := by exact_mod_cast hlt
      have hint' : (a : ℚ) + 1 ≤ n * b := by exact_mod_cast hint
      rw [le_sub_iff_add_le, ← add_div, div_le_iff₀ hbq]
      linarith
    linarith

end Rounding
