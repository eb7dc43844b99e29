import Mathlib.Data.BitVec
import Mathlib.Logic.Function.Iterate
import CudaNs3.Lib.Lollipop

/-!
# Lollipop counters

The upper half of the values of an unsigned type is the stem of a lollipop and the lower half
its circle. `++` walks it, and the comparison operators are those of places on it, as long as
the difference of the values is computed without loss. A sequence window of `2 ^ n` is accepted
whenever `n` is less than the number of digits.
-/

namespace CudaNs3.Network

open Lib.Lollipop

set_option autoImplicit false

/-- What stops the program: a failed `NS_ABORT` test, or an operation without a meaning. -/
inductive Failure where
  | abort
  | undefined
  deriving DecidableEq, Repr

structure LollipopCounter (w : Nat) where
  m_value : BitVec w
  m_sequenceWindow : BitVec w
  deriving DecidableEq, Repr

namespace LollipopCounter

section Source

def maxValue (w : Nat) : BitVec w := BitVec.allOnes w

def circularRegion (w : Nat) : BitVec w := maxValue w >>> 1

/-- `1 << n` as a `T`. The shift is one of `int`: its last bit is the sign, and there is none
beyond. -/
def shiftedOne (w n : Nat) : Except Failure (BitVec w) :=
  if n < 32 then .ok (BitVec.ofInt w ((2 ^ n : Int).bmod (2 ^ 32))) else .error .undefined

def initialValue {w : Nat} (sequenceWindow : BitVec w) : BitVec w :=
  maxValue w - sequenceWindow + 1

/-- The counter that the default constructor builds. -/
def default (w : Nat) : Except Failure (LollipopCounter w) := do
  let sequenceWindow ← shiftedOne w (w / 2)
  pure ⟨initialValue sequenceWindow, sequenceWindow⟩

/-- The counter after `SetSequenceWindowSize`, whatever it was before. -/
def setSequenceWindowSize (w numberOfBits : Nat) : Except Failure (LollipopCounter w) :=
  if w ≤ numberOfBits then .error .abort
  else do
    let sequenceWindow ← shiftedOne w numberOfBits
    pure ⟨initialValue sequenceWindow, sequenceWindow⟩

variable {w : Nat}

def stdMax (a b : BitVec w) : BitVec w := if a < b then b else a

def stdMin (a b : BitVec w) : BitVec w := if b < a then b else a

def absoluteMagnitudeOfDifference (c val : LollipopCounter w) : BitVec w :=
  let absDiffDirect := stdMax c.m_value val.m_value - stdMin c.m_value val.m_value
  let absDiffWrapped :=
    (stdMin c.m_value val.m_value + circularRegion w + 1) - stdMax c.m_value val.m_value
  stdMin absDiffDirect absDiffWrapped

def sameRegion (lhs rhs : LollipopCounter w) : Bool :=
  (lhs.m_value ≤ circularRegion w && rhs.m_value ≤ circularRegion w) ||
    (circularRegion w < lhs.m_value && circularRegion w < rhs.m_value)

/-- `none` is the abort on different sequence windows, here and in the operators. -/
def isComparable (c val : LollipopCounter w) : Option Bool :=
  if c.m_sequenceWindow ≠ val.m_sequenceWindow then none
  else if sameRegion c val then
    some !(c.m_sequenceWindow < absoluteMagnitudeOfDifference c val)
  else some true

/-- `operator==` -/
def equal (lhs rhs : LollipopCounter w) : Option Bool :=
  if lhs.m_sequenceWindow ≠ rhs.m_sequenceWindow then none
  else some (lhs.m_value = rhs.m_value)

/-- `operator>` -/
def greater (lhs rhs : LollipopCounter w) : Option Bool :=
  if lhs.m_sequenceWindow ≠ rhs.m_sequenceWindow then none
  else if lhs.m_value = rhs.m_value then some false
  else if sameRegion lhs rhs then
    if lhs.m_sequenceWindow < absoluteMagnitudeOfDifference lhs rhs then some false
    else
      let serialRegion := (circularRegion w >>> 1) + 1
      some ((lhs.m_value < rhs.m_value && serialRegion < rhs.m_value - lhs.m_value) ||
        (rhs.m_value < lhs.m_value && lhs.m_value - rhs.m_value < serialRegion))
  else
    let lhsIsHigher : Bool :=
      circularRegion w < lhs.m_value && rhs.m_value ≤ circularRegion w
    let difference :=
      if lhsIsHigher then lhs.m_value - rhs.m_value else rhs.m_value - lhs.m_value
    let distance := (maxValue w - difference) + 1
    if lhs.m_sequenceWindow < distance then some lhsIsHigher else some !lhsIsHigher

/-- `operator<` -/
def less (lhs rhs : LollipopCounter w) : Option Bool := do
  let comparable ← isComparable lhs rhs
  if !comparable then some false
  else
    let after ← greater lhs rhs
    if after then some false
    else
      let same ← equal lhs rhs
      some !same

/-- Prefix `operator++` -/
def increment (val : LollipopCounter w) : LollipopCounter w :=
  let value := val.m_value + 1
  if value = circularRegion w + 1 then { val with m_value := 0 } else { val with m_value := value }

end Source

variable {w : Nat}

/-- The default window is the one that half the digits would set. -/
theorem default_eq (hw : 0 < w) : default w = setSequenceWindowSize w (w / 2) := by
  rw [default, setSequenceWindowSize, if_neg (by omega)]

theorem toNat_circularRegion (hw : 0 < w) : (circularRegion w).toNat = 2 ^ (w - 1) - 1 := by
  have hdouble : 2 ^ w = 2 * 2 ^ (w - 1) := by
    rw [← pow_succ', Nat.sub_add_cancel (by omega)]
  rw [circularRegion, maxValue, BitVec.toNat_ushiftRight, BitVec.toNat_allOnes,
    Nat.shiftRight_eq_div_pow]
  omega

theorem toNat_circularRegion_succ (hw : 0 < w) : (circularRegion w + 1).toNat = 2 ^ (w - 1) := by
  have hdouble : 2 ^ w = 2 * 2 ^ (w - 1) := by
    rw [← pow_succ', Nat.sub_add_cancel (by omega)]
  have hpos : 0 < 2 ^ (w - 1) := Nat.two_pow_pos _
  have hone : (1 : BitVec w).toNat = 1 := BitVec.toNat_one hw
  rw [BitVec.toNat_add, hone, toNat_circularRegion hw, Nat.mod_eq_of_lt (by omega)]
  omega

theorem toNat_serialRegion (hw : 0 < w) :
    ((circularRegion w >>> 1) + 1).toNat = (2 ^ (w - 1) - 1) / 2 + 1 := by
  have hdouble : 2 ^ w = 2 * 2 ^ (w - 1) := by
    rw [← pow_succ', Nat.sub_add_cancel (by omega)]
  have hpos : 0 < 2 ^ (w - 1) := Nat.two_pow_pos _
  have hone : (1 : BitVec w).toNat = 1 := BitVec.toNat_one hw
  rw [BitVec.toNat_add, hone, BitVec.toNat_ushiftRight, toNat_circularRegion hw,
    Nat.shiftRight_eq_div_pow]
  exact Nat.mod_eq_of_lt (by omega)

theorem toNat_stdMax (a b : BitVec w) : (stdMax a b).toNat = max a.toNat b.toNat := by
  unfold stdMax
  split_ifs with h
  · exact (max_eq_right (BitVec.lt_def.mp h).le).symm
  · exact (max_eq_left (not_lt.mp (BitVec.lt_def.not.mp h))).symm

theorem toNat_stdMin (a b : BitVec w) : (stdMin a b).toNat = min a.toNat b.toNat := by
  unfold stdMin
  split_ifs with h
  · exact (min_eq_right (BitVec.lt_def.mp h).le).symm
  · exact (min_eq_left (not_lt.mp (BitVec.lt_def.not.mp h))).symm

/-- Two values less than a circle apart: the smaller way round, with no sum out of range. -/
theorem toNat_absoluteMagnitude (hw : 0 < w) (c val : LollipopCounter w)
    (hnear : max c.m_value.toNat val.m_value.toNat - min c.m_value.toNat val.m_value.toNat <
      2 ^ (w - 1)) :
    (absoluteMagnitudeOfDifference c val).toNat =
      spread (2 ^ (w - 1)) c.m_value.toNat val.m_value.toNat := by
  set hi := stdMax c.m_value val.m_value with hhi
  set lo := stdMin c.m_value val.m_value with hlo
  have hmax : hi.toNat = max c.m_value.toNat val.m_value.toNat := toNat_stdMax _ _
  have hmin : lo.toNat = min c.m_value.toNat val.m_value.toNat := toNat_stdMin _ _
  have hdirect : (hi - lo).toNat = hi.toNat - lo.toNat :=
    BitVec.toNat_sub_of_le (BitVec.le_def.mpr (by omega))
  have hwrapped : (lo + circularRegion w + 1 - hi).toNat = 2 ^ (w - 1) - (hi.toNat - lo.toNat) := by
    have hswap : lo + circularRegion w + 1 - hi = circularRegion w + 1 - (hi - lo) := by
      rw [BitVec.add_assoc, sub_sub_eq_add_sub, BitVec.add_comm lo]
    rw [hswap, BitVec.toNat_sub_of_le, toNat_circularRegion_succ hw, hdirect]
    rw [BitVec.le_def, toNat_circularRegion_succ hw, hdirect]
    omega
  rw [absoluteMagnitudeOfDifference, toNat_stdMin, ← hhi, ← hlo, hdirect, hwrapped, spread, hmax,
    hmin]
  omega

theorem sameRegion_iff (hw : 0 < w) (lhs rhs : LollipopCounter w) :
    sameRegion lhs rhs ↔ (lhs.m_value.toNat < 2 ^ (w - 1) ↔ rhs.m_value.toNat < 2 ^ (w - 1)) := by
  have hpos : 0 < 2 ^ (w - 1) := Nat.two_pow_pos _
  simp only [sameRegion, Bool.or_eq_true, Bool.and_eq_true, decide_eq_true_eq, BitVec.le_def,
    BitVec.lt_def, toNat_circularRegion hw]
  omega

/-- Counters of one region compare as two places of the lollipop. -/
theorem greater_same (hw : 0 < w) (lhs rhs : LollipopCounter w)
    (hsame : sameRegion lhs rhs = true) (hne : lhs.m_value ≠ rhs.m_value)
    (hwindow : lhs.m_sequenceWindow = rhs.m_sequenceWindow) :
    greater lhs rhs = some true ↔
      Ahead (2 ^ (w - 1)) lhs.m_sequenceWindow.toNat lhs.m_value.toNat rhs.m_value.toNat := by
  have hdouble : 2 ^ w = 2 * 2 ^ (w - 1) := by
    rw [← pow_succ', Nat.sub_add_cancel (by omega)]
  have hregion := (sameRegion_iff hw lhs rhs).mp hsame
  have hl := lhs.m_value.isLt
  have hr := rhs.m_value.isLt
  have hne' : lhs.m_value.toNat ≠ rhs.m_value.toNat := fun h => hne (BitVec.eq_of_toNat_eq h)
  have hfar_iff : lhs.m_sequenceWindow < absoluteMagnitudeOfDifference lhs rhs ↔
      lhs.m_sequenceWindow.toNat <
        spread (2 ^ (w - 1)) lhs.m_value.toNat rhs.m_value.toNat := by
    rw [BitVec.lt_def, toNat_absoluteMagnitude hw lhs rhs (by omega)]
  have hsub (a b : BitVec w) (h : b < a) : (a - b).toNat = a.toNat - b.toNat :=
    BitVec.toNat_sub_of_le (BitVec.le_of_lt h)
  rw [greater, if_neg (not_not.mpr hwindow), if_neg hne, if_pos hsame, Ahead, if_pos hregion]
  by_cases hfar : lhs.m_sequenceWindow < absoluteMagnitudeOfDifference lhs rhs
  · rw [if_pos hfar]
    rw [hfar_iff] at hfar
    exact iff_of_false (by simp) fun h => absurd h.2.1 (by omega)
  · rw [if_neg hfar]
    rw [hfar_iff] at hfar
    simp only [Option.some.injEq, Bool.or_eq_true, Bool.and_eq_true, decide_eq_true_eq]
    constructor
    · intro h
      refine ⟨hne', by omega, h.imp ?_ ?_⟩
      · rintro ⟨hlt, hserial⟩
        rw [BitVec.lt_def, toNat_serialRegion hw, hsub _ _ hlt] at hserial
        exact ⟨hlt, hserial⟩
      · rintro ⟨hlt, hserial⟩
        rw [BitVec.lt_def, toNat_serialRegion hw, hsub _ _ hlt] at hserial
        exact ⟨hlt, hserial⟩
    · rintro ⟨-, -, h⟩
      refine h.imp ?_ ?_
      · rintro ⟨hlt, hserial⟩
        have hlt' := BitVec.lt_def.mpr hlt
        rw [BitVec.lt_def, BitVec.lt_def, toNat_serialRegion hw, hsub _ _ hlt']
        exact ⟨hlt, hserial⟩
      · rintro ⟨hlt, hserial⟩
        have hlt' := BitVec.lt_def.mpr hlt
        rw [BitVec.lt_def, BitVec.lt_def, toNat_serialRegion hw, hsub _ _ hlt']
        exact ⟨hlt, hserial⟩

/-- The distance that the comparison across the regions computes. -/
theorem toNat_distance (a b : BitVec w) (h : b < a) :
    (maxValue w - (a - b) + 1).toNat = 2 ^ w - (a.toNat - b.toNat) := by
  have hflip : maxValue w - (a - b) + 1 = -(a - b) := by
    have hones : maxValue w = -1 := BitVec.neg_one_eq_allOnes.symm
    rw [hones, sub_add_eq_add_sub, neg_add_cancel, zero_sub]
  have hlt := BitVec.lt_def.mp h
  have ha := a.isLt
  rw [hflip, BitVec.toNat_neg, BitVec.toNat_sub_of_le (BitVec.le_of_lt h)]
  exact Nat.mod_eq_of_lt (by omega)

theorem greater_across (hw : 0 < w) (lhs rhs : LollipopCounter w)
    (hcross : sameRegion lhs rhs = false)
    (hwindow : lhs.m_sequenceWindow = rhs.m_sequenceWindow) :
    greater lhs rhs = some true ↔
      Ahead (2 ^ (w - 1)) lhs.m_sequenceWindow.toNat lhs.m_value.toNat rhs.m_value.toNat := by
  have hdouble : 2 ^ w = 2 * 2 ^ (w - 1) := by
    rw [← pow_succ', Nat.sub_add_cancel (by omega)]
  have hpos : 0 < 2 ^ (w - 1) := Nat.two_pow_pos _
  have hregion : ¬ (lhs.m_value.toNat < 2 ^ (w - 1) ↔ rhs.m_value.toNat < 2 ^ (w - 1)) := by
    rw [← sameRegion_iff hw, hcross]
    exact Bool.false_ne_true
  have hne : lhs.m_value.toNat ≠ rhs.m_value.toNat := fun h => hregion (by rw [h])
  rw [greater, if_neg (not_not.mpr hwindow), if_neg fun h => hne (by rw [h]), hcross,
    if_neg Bool.false_ne_true, Ahead, if_neg hregion]
  by_cases hhigh : rhs.m_value.toNat < 2 ^ (w - 1)
  · have hlt : rhs.m_value < lhs.m_value := BitVec.lt_def.mpr (by omega)
    have hhigher : (decide (circularRegion w < lhs.m_value) &&
        decide (rhs.m_value ≤ circularRegion w)) = true := by
      simp only [Bool.and_eq_true, decide_eq_true_eq, BitVec.lt_def, BitVec.le_def,
        toNat_circularRegion hw]
      omega
    have hfar_iff := BitVec.lt_def (x := lhs.m_sequenceWindow)
      (y := maxValue w - (lhs.m_value - rhs.m_value) + 1)
    rw [toNat_distance _ _ hlt, hdouble] at hfar_iff
    simp only [hhigher, if_true, if_pos hhigh]
    split_ifs with h
    · exact iff_of_true rfl ⟨hne, hfar_iff.mp h⟩
    · exact iff_of_false (by simp) fun h' => h (hfar_iff.mpr h'.2)
  · have hlt : lhs.m_value < rhs.m_value := BitVec.lt_def.mpr (by omega)
    have hlower : (decide (circularRegion w < lhs.m_value) &&
        decide (rhs.m_value ≤ circularRegion w)) = false := by
      rw [Bool.and_eq_false_iff]
      simp only [decide_eq_false_iff_not, BitVec.lt_def, BitVec.le_def, toNat_circularRegion hw]
      omega
    have hfar_iff := BitVec.lt_def (x := lhs.m_sequenceWindow)
      (y := maxValue w - (rhs.m_value - lhs.m_value) + 1)
    rw [toNat_distance _ _ hlt, hdouble] at hfar_iff
    simp only [hlower, Bool.false_eq_true, if_false, if_neg hhigh]
    split_ifs with h
    · exact iff_of_false (by simp) fun h' => absurd h'.2 (not_le.mpr (hfar_iff.mp h))
    · exact iff_of_true rfl ⟨hne, not_lt.mp fun h' => h (hfar_iff.mpr h')⟩

theorem greater_iff (hw : 0 < w) (lhs rhs : LollipopCounter w)
    (hwindow : lhs.m_sequenceWindow = rhs.m_sequenceWindow) :
    greater lhs rhs = some true ↔
      Ahead (2 ^ (w - 1)) lhs.m_sequenceWindow.toNat lhs.m_value.toNat rhs.m_value.toNat := by
  by_cases hne : lhs.m_value = rhs.m_value
  · rw [greater, if_neg (not_not.mpr hwindow), if_pos hne, hne]
    exact iff_of_false (by simp) (not_ahead_self _)
  · cases hregion : sameRegion lhs rhs with
    | true => exact greater_same hw lhs rhs hregion hne hwindow
    | false => exact greater_across hw lhs rhs hregion hwindow

@[simp] theorem increment_window (c : LollipopCounter w) :
    (increment c).m_sequenceWindow = c.m_sequenceWindow := by
  simp only [increment]
  split <;> rfl

@[simp] theorem run_window (c : LollipopCounter w) (k : Nat) :
    (increment^[k] c).m_sequenceWindow = c.m_sequenceWindow := by
  induction k with
  | zero => rfl
  | succ k ih => rw [Function.iterate_succ_apply', increment_window, ih]

theorem toNat_increment (hw : 0 < w) (c : LollipopCounter w) :
    (increment c).m_value.toNat = next (2 ^ (w - 1)) c.m_value.toNat := by
  have hdouble : 2 ^ w = 2 * 2 ^ (w - 1) := by
    rw [← pow_succ', Nat.sub_add_cancel (by omega)]
  have hpos : 0 < 2 ^ (w - 1) := Nat.two_pow_pos _
  have hlt := c.m_value.isLt
  have hsum : (c.m_value + 1).toNat = if c.m_value.toNat = 2 * 2 ^ (w - 1) - 1 then 0
      else c.m_value.toNat + 1 := by
    have hone : (1 : BitVec w).toNat = 1 := BitVec.toNat_one hw
    rw [BitVec.toNat_add, hone, ← hdouble]
    split_ifs with h
    · rw [h, Nat.sub_add_cancel (by omega), Nat.mod_self]
    · exact Nat.mod_eq_of_lt (by omega)
  have hend : c.m_value + 1 = circularRegion w + 1 ↔ c.m_value.toNat = 2 ^ (w - 1) - 1 := by
    rw [add_left_inj, ← BitVec.toNat_inj, toNat_circularRegion hw]
  rw [increment, next]
  by_cases h : c.m_value.toNat = 2 ^ (w - 1) - 1
  · rw [if_pos (hend.mpr h), if_pos (Or.inl h)]
    exact BitVec.toNat_zero
  · rw [if_neg fun h' => h (hend.mp h'), hsum]
    by_cases hmax : c.m_value.toNat = 2 * 2 ^ (w - 1) - 1
    · rw [if_pos hmax, if_pos (Or.inr hmax)]
    · rw [if_neg hmax, if_neg (not_or.mpr ⟨h, hmax⟩)]

/-- A counter on the lollipop walks it. -/
theorem run_place (hw : 0 < w) (c : LollipopCounter w) {W k : Nat} (hW : W ≤ 2 ^ (w - 1))
    (hc : c.m_value.toNat = place (2 ^ (w - 1)) W k) (j : Nat) :
    (increment^[j] c).m_value.toNat = place (2 ^ (w - 1)) W (k + j) := by
  induction j with
  | zero => exact hc
  | succ j ih =>
    rw [Function.iterate_succ_apply', toNat_increment hw, ih,
      next_place (Nat.two_pow_pos _) hW]
    rfl

theorem shiftedOne_of_lt {n : Nat} (h31 : n < 31) :
    shiftedOne w n = .ok (BitVec.ofNat w (2 ^ n)) := by
  have hpow : (2 : Nat) ^ n ≤ 2 ^ 30 := Nat.pow_le_pow_right (by decide) (by omega)
  have hcast : ((2 : Int) ^ n) = ((2 ^ n : Nat) : Int) := by push_cast; rfl
  rw [shiftedOne, if_pos (by omega), hcast]
  generalize (2 : Nat) ^ n = p at hpow
  rw [Int.bmod_eq_of_le (by omega) (by omega), BitVec.ofInt_natCast]

/-- The window that a shift into the sign bit gives is all but `2 ^ 31` of the values. -/
theorem shiftedOne_sign (hw : 32 ≤ w) :
    ∃ window : BitVec w, shiftedOne w 31 = .ok window ∧ window.toNat = 2 ^ w - 2 ^ 31 := by
  have hpow : (2 : Nat) ^ 32 ≤ 2 ^ w := Nat.pow_le_pow_right (by decide) hw
  refine ⟨BitVec.ofInt w (-2 ^ 31), rfl, ?_⟩
  have hneg : BitVec.ofInt w (-2 ^ 31) = -BitVec.ofNat w (2 ^ 31) := by
    rw [BitVec.ofInt_neg]
    rfl
  rw [hneg, BitVec.toNat_neg, BitVec.toNat_ofNat, Nat.mod_eq_of_lt (a := 2 ^ 31) (by omega)]
  exact Nat.mod_eq_of_lt (by omega)

theorem toNat_initialValue (window : BitVec w) (h : 0 < window.toNat) :
    (initialValue window).toNat = 2 ^ w - window.toNat := by
  have hneg : initialValue window = -window := by
    have hones : maxValue w = -1 := BitVec.neg_one_eq_allOnes.symm
    rw [initialValue, hones, sub_add_eq_add_sub, neg_add_cancel, zero_sub]
  have hlt := window.isLt
  rw [hneg, BitVec.toNat_neg]
  exact Nat.mod_eq_of_lt (by omega)

/-- What the comparison is to do for windows of `2 ^ n`. -/
structure Orders (w n : Nat) : Prop where
  successors : ∃ c, setSequenceWindowSize w n = .ok c ∧
    ∀ k j, 1 ≤ j → j ≤ c.m_sequenceWindow.toNat →
      greater (increment^[k + j] c) (increment^[k] c) = some true
  less_equal (a b : LollipopCounter w) : ¬ (less a b = some true ∧ equal a b = some true)
  less_greater (a b : LollipopCounter w) : ¬ (less a b = some true ∧ greater a b = some true)
  equal_greater (a b : LollipopCounter w) : ¬ (equal a b = some true ∧ greater a b = some true)
  magnitude (a b : LollipopCounter w) (ha : a.m_value ≤ circularRegion w)
      (hb : b.m_value ≤ circularRegion w) :
    (stdMin a.m_value b.m_value).toNat + (circularRegion w).toNat + 1 < 2 ^ w ∧
      (absoluteMagnitudeOfDifference a b).toNat =
        min ((a.m_value.toNat + 2 ^ (w - 1) - b.m_value.toNat) % 2 ^ (w - 1))
          ((b.m_value.toNat + 2 ^ (w - 1) - a.m_value.toNat) % 2 ^ (w - 1))

theorem equal_iff (a b : LollipopCounter w) :
    equal a b = some true ↔ a.m_sequenceWindow = b.m_sequenceWindow ∧ a.m_value = b.m_value := by
  unfold equal
  split_ifs with h
  · exact iff_of_false (by simp) fun h' => h h'.1
  · simp [not_not.mp h]

theorem less_cases {a b : LollipopCounter w} (h : less a b = some true) :
    greater a b = some false ∧ equal a b = some false := by
  unfold less at h
  cases hcomparable : isComparable a b with
  | none => simp [hcomparable] at h
  | some comparable =>
    cases hgreater : greater a b with
    | none => cases comparable <;> simp [hcomparable, hgreater] at h
    | some after =>
      cases hequal : equal a b with
      | none => cases comparable <;> cases after <;> simp [hcomparable, hgreater, hequal] at h
      | some same =>
        cases comparable <;> cases after <;> cases same <;>
          simp [hcomparable, hgreater, hequal] at h ⊢

theorem greater_of_equal {a b : LollipopCounter w} (h : equal a b = some true) :
    greater a b = some false := by
  obtain ⟨hwindow, hvalue⟩ := (equal_iff a b).mp h
  rw [greater, if_neg (not_not.mpr hwindow), if_pos hvalue]

theorem magnitude_eq (hw : 0 < w) (a b : LollipopCounter w) (ha : a.m_value ≤ circularRegion w)
    (hb : b.m_value ≤ circularRegion w) :
    (stdMin a.m_value b.m_value).toNat + (circularRegion w).toNat + 1 < 2 ^ w ∧
      (absoluteMagnitudeOfDifference a b).toNat =
        min ((a.m_value.toNat + 2 ^ (w - 1) - b.m_value.toNat) % 2 ^ (w - 1))
          ((b.m_value.toNat + 2 ^ (w - 1) - a.m_value.toNat) % 2 ^ (w - 1)) := by
  have hdouble : 2 ^ w = 2 * 2 ^ (w - 1) := by
    rw [← pow_succ', Nat.sub_add_cancel (by omega)]
  have hpos : 0 < 2 ^ (w - 1) := Nat.two_pow_pos _
  rw [BitVec.le_def, toNat_circularRegion hw] at ha hb
  constructor
  · rw [toNat_stdMin, toNat_circularRegion hw]
    omega
  · rw [toNat_absoluteMagnitude hw a b (by omega), spread_eq (by omega) (by omega)]

/-- A window of at most a quarter of the circle, set without reaching the sign of `int`. -/
theorem successors_of_le {n : Nat} (h3 : n + 3 ≤ w) (h31 : n < 31) :
    ∃ c, setSequenceWindowSize w n = .ok c ∧
      ∀ k j, 1 ≤ j → j ≤ c.m_sequenceWindow.toNat →
        greater (increment^[k + j] c) (increment^[k] c) = some true := by
  have hw : 0 < w := by omega
  set window := BitVec.ofNat w (2 ^ n) with hdef
  have hset : setSequenceWindowSize w n = .ok ⟨initialValue window, window⟩ := by
    rw [setSequenceWindowSize, if_neg (by omega), shiftedOne_of_lt h31]
    rfl
  have hwindow : window.toNat = 2 ^ n := by
    rw [hdef, BitVec.toNat_ofNat]
    exact Nat.mod_eq_of_lt (Nat.pow_lt_pow_right (by decide) (by omega))
  have hpos : 0 < 2 ^ n := Nat.two_pow_pos n
  have hquarter : 4 * 2 ^ n ≤ 2 ^ (w - 1) := by
    rw [show 4 * 2 ^ n = 2 ^ (n + 2) by rw [pow_add, mul_comm]; rfl]
    exact Nat.pow_le_pow_right (by decide) (by omega)
  have hdouble : 2 ^ w = 2 * 2 ^ (w - 1) := by
    rw [← pow_succ', Nat.sub_add_cancel (by omega)]
  refine ⟨_, hset, fun k j hj hjW => ?_⟩
  have hstart : (initialValue window).toNat = place (2 ^ (w - 1)) (2 ^ n) 0 := by
    rw [toNat_initialValue _ (by omega), hwindow, place_stem hpos, hdouble]
    rfl
  have hrun (i : Nat) := run_place hw ⟨initialValue window, window⟩ (show 2 ^ n ≤ _ by omega)
    hstart i
  rw [greater_iff hw _ _ (by simp), hrun, hrun, run_window, hwindow, Nat.zero_add, Nat.zero_add]
  exact ahead_place (by omega) k j hj (hwindow ▸ hjW)

/-- A window of at least half the circle tells the two ends of a half turn in neither order. -/
theorem not_successors_of_half {c : LollipopCounter w} (hw : 0 < w)
    (hstart : c.m_value.toNat = 2 ^ w - c.m_sequenceWindow.toNat)
    (hle : c.m_sequenceWindow.toNat ≤ 2 ^ (w - 1))
    (hhalf : 2 ^ (w - 1) ≤ 2 * c.m_sequenceWindow.toNat) :
    ∃ k j, 1 ≤ j ∧ j ≤ c.m_sequenceWindow.toNat ∧
      greater (increment^[k + j] c) (increment^[k] c) ≠ some true := by
  have hdouble : 2 ^ w = 2 * 2 ^ (w - 1) := by
    rw [← pow_succ', Nat.sub_add_cancel (by omega)]
  have hpos : 0 < 2 ^ (w - 1) := Nat.two_pow_pos _
  set W := c.m_sequenceWindow.toNat
  have hplace : c.m_value.toNat = place (2 ^ (w - 1)) W 0 := by
    rw [hstart, place_stem (by omega), hdouble]
    rfl
  refine ⟨W, (2 ^ (w - 1) + 1) / 2, by omega, by omega, fun h => ?_⟩
  rw [greater_iff hw _ _ (by simp), run_place hw c hle hplace, run_place hw c hle hplace,
    run_window, Nat.zero_add, Nat.zero_add] at h
  exact not_ahead_half hpos h

/-- A window wider than the circle lets a counter that starts on it come round to itself. -/
theorem not_successors_of_wide {c : LollipopCounter w} (hw : 0 < w)
    (hstart : c.m_value.toNat < 2 ^ (w - 1)) (hwide : 2 ^ (w - 1) ≤ c.m_sequenceWindow.toNat) :
    ∃ k j, 1 ≤ j ∧ j ≤ c.m_sequenceWindow.toNat ∧
      greater (increment^[k + j] c) (increment^[k] c) ≠ some true := by
  have hpos : 0 < 2 ^ (w - 1) := Nat.two_pow_pos _
  have hplace : c.m_value.toNat = place (2 ^ (w - 1)) 0 c.m_value.toNat := by
    rw [place_circle (Nat.zero_le _), Nat.sub_zero, Nat.mod_eq_of_lt hstart]
  refine ⟨0, 2 ^ (w - 1), hpos, hwide, fun h => ?_⟩
  have hround : (increment^[0 + 2 ^ (w - 1)] c).m_value.toNat = c.m_value.toNat := by
    rw [run_place hw c (Nat.zero_le _) hplace, Nat.zero_add, place_circle (Nat.zero_le _),
      Nat.sub_zero, Nat.add_mod_right, Nat.mod_eq_of_lt hstart]
  rw [greater_iff hw _ _ (by simp), hround] at h
  exact not_ahead_self _ h

/-- The counters of a type order their successors exactly for the windows that stay below half
the circle and that `1 << n` can be shifted to. -/
theorem orders_iff (n : Nat) (hn : n < w) : Orders w n ↔ n + 3 ≤ w ∧ n ≤ 30 := by
  have hw : 0 < w := by omega
  have hdouble : 2 ^ w = 2 * 2 ^ (w - 1) := by
    rw [← pow_succ', Nat.sub_add_cancel hw]
  constructor
  · intro h
    obtain ⟨c, hset, hsucc⟩ := h.successors
    by_contra hbound
    rw [setSequenceWindowSize, if_neg (by omega)] at hset
    have hfail : ∃ k j, 1 ≤ j ∧ j ≤ c.m_sequenceWindow.toNat ∧
        greater (increment^[k + j] c) (increment^[k] c) ≠ some true := by
      rcases Nat.lt_trichotomy n 31 with h31 | rfl | h31
      · -- the window is at least half the circle
        rw [shiftedOne_of_lt h31] at hset
        obtain rfl := Except.ok.inj hset
        set window := BitVec.ofNat w (2 ^ n) with hdef
        have hwindow : window.toNat = 2 ^ n := by
          rw [hdef, BitVec.toNat_ofNat]
          exact Nat.mod_eq_of_lt (Nat.pow_lt_pow_right (by decide) hn)
        have hpos : 0 < 2 ^ n := Nat.two_pow_pos n
        have hle : 2 ^ n ≤ 2 ^ (w - 1) := Nat.pow_le_pow_right (by decide) (by omega)
        have hhalf : 2 ^ (w - 1) ≤ 2 * 2 ^ n := by
          rw [← pow_succ']
          exact Nat.pow_le_pow_right (by decide) (by omega)
        exact not_successors_of_half hw (toNat_initialValue window (by omega))
          (by simp only; omega) (by simp only; omega)
      · -- the shift reaches the sign of `int`
        obtain ⟨window, hshift, hwindow⟩ := shiftedOne_sign (w := w) (by omega)
        rw [hshift] at hset
        obtain rfl := Except.ok.inj hset
        have hpow : 2 ^ 31 ≤ 2 ^ (w - 1) := Nat.pow_le_pow_right (by decide) (by omega)
        have hinit := toNat_initialValue window (by omega)
        rcases Nat.eq_or_lt_of_le (show 32 ≤ w by omega) with rfl | hlt
        · exact not_successors_of_half hw hinit (by simp [hwindow]) (by simp [hwindow])
        · have hpow' : 2 ^ 32 ≤ 2 ^ (w - 1) := Nat.pow_le_pow_right (by decide) (by omega)
          exact not_successors_of_wide hw (by simp only; omega) (by simp only; omega)
      · rw [shiftedOne, if_neg (by omega)] at hset
        cases hset
    obtain ⟨k, j, hj, hjW, hne⟩ := hfail
    exact hne (hsucc k j hj hjW)
  · rintro ⟨h3, h30⟩
    constructor
    · exact successors_of_le h3 (by omega)
    · rintro a b ⟨hless, hequal⟩
      rw [(less_cases hless).2] at hequal
      cases hequal
    · rintro a b ⟨hless, hgreater⟩
      rw [(less_cases hless).1] at hgreater
      cases hgreater
    · rintro a b ⟨hequal, hgreater⟩
      rw [greater_of_equal hequal] at hgreater
      cases hgreater
    · exact magnitude_eq hw

theorem orders_iff_default : Orders 8 4 ↔ 4 + 3 ≤ 8 ∧ 4 ≤ 30 := orders_iff 4 (by decide)

/-- With a window of `64`, accepted for `uint8_t`, the counter that started at `192` and stands
at `64` is not greater than the `0` it held `64` increments earlier. -/
theorem not_orders_half : ¬ ∀ w n, n < w → Orders w n := by
  intro h
  obtain ⟨c, hset, hsucc⟩ := (h 8 6 (by decide)).successors
  have hc : c = ⟨192, 64⟩ := Except.ok.inj (hset.symm.trans rfl)
  subst hc
  have hgreater := hsucc 64 64 (by decide) (by decide)
  have hno : greater (increment^[64 + 64] ⟨192, 64⟩)
      (increment^[64] (⟨192, 64⟩ : LollipopCounter 8)) = some false := by decide +kernel
  rw [hno] at hgreater
  cases hgreater

end LollipopCounter

end CudaNs3.Network
