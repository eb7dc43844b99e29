import Mathlib.Algebra.Order.Group.Abs
import Mathlib.Algebra.Order.Ring.Int
import Mathlib.Data.Int.ModEq
import CudaNs3.Tcp.SequenceNumber

/-!
# Differences of sequence numbers

The signed difference is the residue of the unsigned one in the range of `SIGNED_TYPE`. Two of
the four branches of `operator-` reach it by negating a cast. Values narrower than `int` are
negated in `int`, which has room; at 32 bits the cast may be the least `int`, which has no
negation.
-/

namespace CudaNs3.Tcp.SequenceNumber

set_option autoImplicit false

variable {w : Nat}

/-- `-(static_cast<SIGNED_TYPE> (x))` as a `SIGNED_TYPE`: the negation is taken in `int` or, if
that is wider, in `SIGNED_TYPE`; `none` is its overflow. -/
def negated (x : BitVec w) : Option Int :=
  if -x.toInt < 2 ^ (max 32 w - 1) then some ((-x.toInt).bmod (2 ^ w)) else none

/-- `operator-` of two sequence numbers. -/
def minus (a b : SequenceNumber w) : Option Int :=
  if b < a then
    let diff := a - b
    if diff < halfMaxValue w then some diff.toInt
    else negated (BitVec.allOnes w - a + 1 + b)
  else
    let diff := b - a
    if diff < halfMaxValue w then negated diff
    else some (BitVec.allOnes w - b + 1 + a).toInt

/-- `operator+` of a sequence number and a `SIGNED_TYPE`. -/
def plus (a : SequenceNumber w) (delta : Int) : SequenceNumber w := a + BitVec.ofInt w delta

theorem negated_eq (x : BitVec w) :
    negated x = if -x.toInt < 2 ^ (max 32 w - 1) then some (-x).toInt else none := by
  rw [negated, BitVec.toInt_neg]

theorem negated_of_ne (x : BitVec w) (hx : x.toNat ≠ 2 ^ (w - 1)) (hw : 1 < w) :
    negated x = some (-x).toInt := by
  have hdouble : 2 ^ w = 2 * 2 ^ (w - 1) := by
    rw [← pow_succ', Nat.sub_add_cancel (by omega)]
  have hpow : 2 ^ (w - 1) ≤ 2 ^ (max 32 w - 1) := Nat.pow_le_pow_right (by decide) (by omega)
  have hfits : -x.toInt < 2 ^ (max 32 w - 1) := by
    have hcast : ((2 ^ (max 32 w - 1) : Nat) : Int) = 2 ^ (max 32 w - 1) := by push_cast; rfl
    rw [BitVec.toInt_eq_toNat_cond, ← hcast]
    have hlt := x.isLt
    split_ifs <;> omega
  rw [negated_eq, if_pos hfits]

theorem negated_of_eq (x : BitVec w) (hx : x.toNat = 2 ^ (w - 1)) (hw : 1 < w) :
    negated x = if 32 ≤ w then none else some (-x).toInt := by
  have hdouble : 2 ^ w = 2 * 2 ^ (w - 1) := by
    rw [← pow_succ', Nat.sub_add_cancel (by omega)]
  have hmin : -x.toInt = 2 ^ (w - 1) := by
    rw [BitVec.toInt_eq_toNat_cond, hx, if_neg (by omega), hdouble]
    push_cast
    ring
  rw [negated_eq, hmin]
  by_cases h32 : 32 ≤ w
  · rw [max_eq_right h32, if_neg (lt_irrefl _), if_pos h32]
  · rw [max_eq_left (by omega), if_neg h32, if_pos]
    exact pow_lt_pow_right₀ (by decide) (by omega)

/-- What `operator-` computes: the signed residue, except where it negates the least value. -/
theorem minus_eq (hw : 1 < w) (a b : SequenceNumber w) :
    minus a b = if 32 ≤ w ∧ b < a ∧ (a - b).toNat = 2 ^ (w - 1) then none
      else some (a - b).toInt := by
  have hwrap (x y : BitVec w) : BitVec.allOnes w - x + 1 + y = y - x := by
    have hones : BitVec.allOnes w + 1 = 0 := by
      rw [← BitVec.neg_one_eq_allOnes]
      exact neg_add_cancel _
    rw [sub_add_eq_add_sub, hones, zero_sub, neg_add_eq_sub]
  have hhalf := toNat_halfMaxValue hw
  have hone : 1 < 2 ^ (w - 1) := Nat.one_lt_two_pow (by omega)
  have hdouble : 2 ^ w = 2 * 2 ^ (w - 1) := by
    rw [← pow_succ', Nat.sub_add_cancel (by omega)]
  have hflip : (b - a).toNat = 2 ^ (w - 1) ↔ (a - b).toNat = 2 ^ (w - 1) := by
    rw [← neg_sub a b, BitVec.toNat_neg]
    have hlt := (a - b).isLt
    rcases Nat.eq_zero_or_pos (a - b).toNat with hzero | hpos
    · rw [hzero, Nat.sub_zero, Nat.mod_self]
    · rw [Nat.mod_eq_of_lt (by omega)]
      omega
  simp only [minus, hwrap, BitVec.lt_def, hhalf]
  by_cases hlt : b.toNat < a.toNat
  · rw [if_pos hlt]
    by_cases hnear : (a - b).toNat < 2 ^ (w - 1) - 1
    · rw [if_pos hnear, if_neg (by omega)]
    · rw [if_neg hnear]
      by_cases hopp : (a - b).toNat = 2 ^ (w - 1)
      · rw [negated_of_eq _ (hflip.mpr hopp) hw, neg_sub]
        by_cases h32 : 32 ≤ w
        · rw [if_pos h32, if_pos ⟨h32, hlt, hopp⟩]
        · rw [if_neg h32, if_neg fun h => h32 h.1]
      · rw [negated_of_ne _ (fun h => hopp (hflip.mp h)) hw, neg_sub,
          if_neg fun h => hopp h.2.2]
  · rw [if_neg hlt, if_neg fun h : 32 ≤ w ∧ _ ∧ _ => hlt h.2.1]
    by_cases hnear : (b - a).toNat < 2 ^ (w - 1) - 1
    · rw [if_pos hnear, negated_of_ne _ (by omega) hw, neg_sub]
    · rw [if_neg hnear]

/-- Where `operator-` is defined it agrees with the difference the stream code relies on, read
in the range of `SIGNED_TYPE`. -/
theorem sub_bmod (a b : SequenceNumber w) : (sub a b).bmod (2 ^ w) = (a - b).toInt := by
  rw [← BitVec.toInt_ofInt, ← distance_eq a b, distance]

/-- Which of two distinct values is the greater does not depend on the order they are given
in. -/
theorem lt_eq_gt (hw : 1 < w) (a b : SequenceNumber w) : lt a b = gt b a := by
  have hdouble : 2 ^ w = 2 * 2 ^ (w - 1) := by
    rw [← pow_succ', Nat.sub_add_cancel (by omega)]
  have hone : 1 < 2 ^ (w - 1) := Nat.one_lt_two_pow (by omega)
  rw [Bool.eq_iff_iff]
  simp only [lt, Bool.and_eq_true, Bool.not_eq_true', Bool.eq_false_iff, ne_eq,
    decide_eq_true_eq, gt_iff hw, BitVec.lt_def, ← BitVec.toNat_inj]
  have ha := a.isLt
  have hb := b.isLt
  rcases Nat.lt_trichotomy a.toNat b.toNat with h | h | h
  · rw [BitVec.toNat_sub_of_le (BitVec.le_def.mpr h.le),
      BitVec.toNat_sub_of_lt (BitVec.lt_def.mpr h)]
    omega
  · have heq := BitVec.eq_of_toNat_eq h
    subst heq
    simp
  · rw [BitVec.toNat_sub_of_le (BitVec.le_def.mpr h.le),
      BitVec.toNat_sub_of_lt (BitVec.lt_def.mpr h)]
    omega

theorem not_gt_self (a : SequenceNumber w) : gt a a = false := by
  simp [gt]

/-- How a pair of values must compare, how the first must differ from the second, and what
moving the first by less than half the circle must do to it. -/
structure Coherent (a b : SequenceNumber w) : Prop where
  exhaustive : lt a b ∨ a = b ∨ gt a b
  lt_or_eq : ¬ (lt a b ∧ a = b)
  lt_or_gt : ¬ (lt a b ∧ gt a b)
  eq_or_gt : ¬ (a = b ∧ gt a b)
  difference : ∃ z, minus a b = some z ∧ z ≡ a.toNat - b.toNat [ZMOD 2 ^ w] ∧
    -2 ^ (w - 1) ≤ z ∧ z ≤ 2 ^ (w - 1) - 1
  moved : ∀ d : Int, |d| ≤ 2 ^ (w - 1) - 1 →
    minus (plus a d) a = some d ∧ (gt (plus a d) a ↔ 0 < d)

theorem minus_none_iff (hw : 1 < w) (a b : SequenceNumber w) :
    minus a b = none ↔ 32 ≤ w ∧ b < a ∧ (a - b).toNat = 2 ^ (w - 1) := by
  rw [minus_eq hw]
  split_ifs with h
  · exact iff_of_true rfl h
  · exact iff_of_false (by simp) h

theorem toInt_sub_modEq (a b : SequenceNumber w) :
    (a - b).toInt ≡ a.toNat - b.toNat [ZMOD 2 ^ w] := by
  have hcast (x : BitVec w) : x.toInt ≡ x.toNat [ZMOD 2 ^ w] := by
    rw [BitVec.toInt_eq_toNat_bmod]
    exact_mod_cast Int.bmod_emod
  have hsub : (a - b).toInt ≡ a.toInt - b.toInt [ZMOD 2 ^ w] := by
    rw [BitVec.toInt_sub]
    exact_mod_cast Int.bmod_emod
  exact hsub.trans ((hcast a).sub (hcast b))

/-- A move of less than half the circle is read off the sum again, and forward moves are those
that make the value greater. -/
theorem moved (hw : 1 < w) (a : SequenceNumber w) (d : Int) (hd : |d| ≤ 2 ^ (w - 1) - 1) :
    minus (plus a d) a = some d ∧ (gt (plus a d) a ↔ 0 < d) := by
  have hdouble : 2 ^ w = 2 * 2 ^ (w - 1) := by
    rw [← pow_succ', Nat.sub_add_cancel (by omega)]
  have hone : 1 < 2 ^ (w - 1) := Nat.one_lt_two_pow (by omega)
  have hcast : ((2 ^ (w - 1) : Nat) : Int) = 2 ^ (w - 1) := by push_cast; rfl
  have hback : plus a d - a = BitVec.ofInt w d := add_sub_cancel_left a _
  obtain ⟨hlo, hhi⟩ := abs_le.mp hd
  have hint : (BitVec.ofInt w d).toInt = d := by
    rw [BitVec.toInt_ofInt, Int.bmod_eq_of_le (by omega) (by omega)]
  have hnat := BitVec.toInt_eq_toNat_cond (BitVec.ofInt w d)
  rw [hint] at hnat
  have hlt := (BitVec.ofInt w d).isLt
  rw [minus_eq hw, gt_iff hw, hback, hint]
  generalize (BitVec.ofInt w d).toNat = n at hnat hlt ⊢
  have hne : n ≠ 2 ^ (w - 1) := by
    split_ifs at hnat <;> omega
  refine ⟨if_neg fun h => hne h.2.2, ?_⟩
  split_ifs at hnat <;> omega

/-- Comparison and addition are coherent throughout. The difference is, except for two opposite
32-bit values of which the larger number is given first. -/
theorem coherent_exact (hw : w = 8 ∨ w = 16 ∨ w = 32) (a b : SequenceNumber w) :
    Coherent a b ↔ ¬ (w = 32 ∧ b < a ∧ (a - b).toNat = 2 ^ 31) := by
  have hone : 1 < w := by omega
  have hnone : minus a b = none ↔ w = 32 ∧ b < a ∧ (a - b).toNat = 2 ^ 31 := by
    rw [minus_none_iff hone]
    rcases hw with rfl | rfl | rfl <;> simp
  rw [← hnone]
  constructor
  · intro h hz
    obtain ⟨z, hsome, -⟩ := h.difference
    rw [hz] at hsome
    exact Option.some_ne_none z hsome.symm
  · intro h
    have hself := not_gt_self a
    constructor
    · by_cases hab : a = b
      · exact Or.inr (Or.inl hab)
      · cases hgt : gt a b with
        | true => exact Or.inr (Or.inr rfl)
        | false => exact Or.inl (by simp [lt, hgt, hab])
    · simp [lt]
    · rintro ⟨hlt, hgt⟩
      simp [lt, hgt] at hlt
    · rintro ⟨rfl, hgt⟩
      exact absurd hgt (by simp [hself])
    · refine ⟨(a - b).toInt, ?_, toInt_sub_modEq a b, ?_, ?_⟩
      · rw [minus_none_iff hone] at h
        rw [minus_eq hone, if_neg h]
      · exact BitVec.le_toInt _
      · have := BitVec.toInt_lt (x := a - b)
        omega
    · exact fun d hd => moved hone a d hd

theorem coherent_exact_8 :
    Coherent (200 : SequenceNumber 8) 72 ↔
      ¬ (8 = 32 ∧ (72 : SequenceNumber 8) < 200 ∧ (200 - 72 : SequenceNumber 8).toNat = 2 ^ 31) :=
  coherent_exact (Or.inl rfl) 200 72

/-- `SequenceNumber32 (0x80000000) - SequenceNumber32 (0)` negates the least `int32_t`. -/
theorem not_coherent : ¬ ∀ a b : SequenceNumber 32, Coherent a b := by
  intro h
  obtain ⟨z, hz, -⟩ := (h 0x80000000 0).difference
  have hnone : minus (0x80000000 : SequenceNumber 32) 0 = none := by decide +kernel
  rw [hnone] at hz
  exact Option.some_ne_none z hz.symm

end CudaNs3.Tcp.SequenceNumber
