import Mathlib.Data.BitVec
import Mathlib.Algebra.Order.Group.Nat
import Mathlib.Data.List.GetD

/-!
# Rows of words as rows of bits

The bits of a list of words, the first word's least significant bit first: what shifting a value
in at the end of the row does to them, and what shifting one out of a place of the row reads.
-/

namespace BitRows

set_option autoImplicit false

variable {w : Nat}

/-- The bit at place `i`; there are only zeros beyond the last word. -/
def bitAt (ws : List (BitVec w)) (i : Nat) : Bool := (ws[i / w]?.getD 0).getLsbD (i % w)

/-- The bits of `ws` are those of `bits`, and no other bit is set. -/
def Shows (ws : List (BitVec w)) (bits : List Bool) : Prop := ∀ i, bitAt ws i = bits.getD i false

/-- The `n` least significant bits. -/
def low (n : Nat) (x : BitVec w) : List Bool := (List.range n).map x.getLsbD

variable {ws init : List (BitVec w)} {x last hi lo : BitVec w} {bits bits' : List Bool}
  {c i j n q r : Nat}

@[simp] theorem length_low : (low n x).length = n := by simp [low]

theorem getD_low : (low n x).getD j false = (decide (j < n) && x.getLsbD j) := by
  by_cases h : j < n
  · simp [low, List.getD_eq_getElem?_getD, h]
  · simp [low, List.getD_eq_getElem?_getD, h]

/-- Where a value has no more than `n` bits, they are all of it. -/
theorem getLsbD_of_lt (hx : x.toNat < 2 ^ n) (h : n ≤ j) : x.getLsbD j = false := by
  rw [← BitVec.testBit_toNat]
  exact Nat.testBit_lt_two_pow (Nat.lt_of_lt_of_le hx (Nat.pow_le_pow_right (by omega) h))

theorem getD_append_low (hx : x.toNat < 2 ^ n) : (bits ++ low n x).getD i false =
    (bits.getD i false || (decide (bits.length ≤ i) && x.getLsbD (i - bits.length))) := by
  by_cases h : i < bits.length
  · have hle : ¬ bits.length ≤ i := by omega
    rw [List.getD_append _ _ _ _ h]
    simp [hle]
  · rw [List.getD_append_right _ _ _ _ (by omega), getD_low,
      List.getD_eq_default _ _ (by omega : bits.length ≤ i)]
    by_cases hn : i - bits.length < n
    · simp [hn, Nat.not_lt.mp h]
    · simp [hn, getLsbD_of_lt hx (Nat.not_lt.mp hn)]

theorem bitAt_at (hj : j < w) : bitAt ws (w * q + j) = (ws[q]?.getD 0).getLsbD j := by
  have hpos : 0 < w := by omega
  rw [bitAt, Nat.mul_add_div hpos, Nat.mul_add_mod, Nat.div_eq_of_lt hj, Nat.mod_eq_of_lt hj,
    Nat.add_zero]

/-- Every place is one of some word. -/
theorem place_cases (hw : 0 < w) (i : Nat) : ∃ q j, j < w ∧ i = w * q + j :=
  ⟨i / w, i % w, Nat.mod_lt i hw, (Nat.div_add_mod i w).symm⟩

/-- The places of a word come before those of a later one. -/
theorem place_lt (hj : j < w) {q' : Nat} (h : q < q') : w * q + j < w * q' :=
  calc w * q + j < w * (q + 1) := by rw [Nat.mul_add_one]; omega
    _ ≤ w * q' := Nat.mul_le_mul_left w h

theorem shows_nil : Shows ([] : List (BitVec w)) [] := fun i => by simp [bitAt]

/-- A new word begins with zeros. -/
theorem Shows.grow (h : Shows ws bits) : Shows (ws ++ [0]) bits := by
  intro i
  rw [← h i, bitAt, bitAt]
  congr 1
  rcases Nat.lt_trichotomy (i / w) ws.length with hlt | heq | hgt
  · rw [List.getElem?_append_left hlt]
  · simp [heq]
  · rw [List.getElem?_eq_none (by simp; omega), List.getElem?_eq_none (by omega)]

/-- The value fits into the last word. -/
theorem Shows.push_within (h : Shows (init ++ [last]) bits) (hw : 0 < w)
    (hlen : bits.length = w * init.length + c) (hn : c + n ≤ w) (hx : x.toNat < 2 ^ n) :
    Shows (init ++ [x <<< c ||| last]) (bits ++ low n x) := by
  intro i
  rw [getD_append_low hx, ← h i, hlen]
  obtain ⟨q, j, hj, rfl⟩ := place_cases hw i
  rw [bitAt_at hj, bitAt_at hj]
  rcases Nat.lt_trichotomy q init.length with hlt | rfl | hgt
  · have hbefore := place_lt hj hlt
    have hnot : ¬ w * init.length + c ≤ w * q + j := by omega
    rw [List.getElem?_append_left hlt, List.getElem?_append_left hlt]
    simp [hnot]
  · simp only [List.getElem?_concat_length, Option.getD_some, BitVec.getLsbD_or,
      BitVec.getLsbD_shiftLeft, Nat.add_le_add_iff_left, Nat.add_sub_add_left, hj, decide_true,
      Bool.true_and]
    by_cases hc : c ≤ j
    · simp [hc, Nat.not_lt.mpr hc, Bool.or_comm]
    · simp [hc, Nat.not_le.mp hc]
  · have hafter := place_lt (show w - 1 < w by omega) hgt
    have hhigh : x.getLsbD (w * q + j - (w * init.length + c)) = false :=
      getLsbD_of_lt hx (by omega)
    rw [List.getElem?_eq_none (by simp; omega), List.getElem?_eq_none (by simp; omega), hhigh]
    simp

/-- What does not fit into the last word goes into a new one. -/
theorem Shows.push_across (h : Shows (init ++ [last]) bits)
    (hlen : bits.length = w * init.length + c) (hc : 0 < c) (hcw : c < w)
    (hx : x.toNat < 2 ^ n) : Shows (init ++ [x <<< c ||| last] ++ [x >>> (w - c)])
      (bits ++ low n x) := by
  intro i
  rw [getD_append_low hx, ← h i, hlen]
  obtain ⟨q, j, hj, rfl⟩ := place_cases (by omega : 0 < w) i
  rw [bitAt_at hj, bitAt_at hj]
  rcases Nat.lt_trichotomy q init.length with hlt | rfl | hgt
  · have hbefore := place_lt hj hlt
    have hnot : ¬ w * init.length + c ≤ w * q + j := by omega
    rw [List.append_assoc, List.getElem?_append_left hlt, List.getElem?_append_left hlt]
    simp [hnot]
  · rw [List.getElem?_append_left (by simp)]
    simp only [List.getElem?_concat_length, Option.getD_some, BitVec.getLsbD_or,
      BitVec.getLsbD_shiftLeft, Nat.add_le_add_iff_left, Nat.add_sub_add_left, hj, decide_true,
      Bool.true_and]
    by_cases hcj : c ≤ j
    · simp [hcj, Nat.not_lt.mpr hcj, Bool.or_comm]
    · simp [hcj, Nat.not_le.mp hcj]
  · have hold : (init ++ [last])[q]? = none := List.getElem?_eq_none (by simp; omega)
    rw [hold]
    rcases Nat.eq_or_lt_of_le (Nat.succ_le_of_lt hgt) with rfl | hgt
    · have hplace : w * init.length.succ + j - (w * init.length + c) = w - c + j := by
        rw [Nat.mul_succ]
        omega
      have hle : w * init.length + c ≤ w * init.length.succ + j := by
        rw [Nat.mul_succ]
        omega
      have hlen' : (init ++ [x <<< c ||| last]).length = init.length.succ := by simp
      rw [← hlen', List.getElem?_concat_length, hlen', hplace]
      simp [hle]
    · have hbeyond : w ≤ w * q + j - (w * init.length + c) := by
        have hstep : w * (init.length + 2) ≤ w * q := Nat.mul_le_mul_left w hgt
        rw [Nat.mul_add] at hstep
        omega
      rw [List.getElem?_eq_none (by simp; omega), BitVec.getLsbD_of_ge _ _ hbeyond]
      simp

/-- The `n` bits below place `r` of one word. -/
theorem getLsbD_within (hq : ws[q]? = some x) (hn : n ≤ r) (hr : r ≤ w) :
    ((x <<< (w - r)) >>> (w - n)).getLsbD j =
      (decide (j < n) && bitAt ws (w * q + r - n + j)) := by
  rw [BitVec.getLsbD_ushiftRight, BitVec.getLsbD_shiftLeft]
  by_cases hj : j < n
  · have hplace : w * q + r - n + j = w * q + (r - n + j) := by omega
    have hback : w - n + j - (w - r) = r - n + j := by omega
    have hin : w - n + j < w := by omega
    have hup : ¬ w - n + j < w - r := by omega
    rw [hplace, bitAt_at (by omega), hq, hback]
    simp [hj, hin, hup]
  · have hin : ¬ w - n + j < w := by omega
    simp [hj, hin]

/-- The `n` bits below place `r` of a word where some are in the word before. -/
theorem getLsbD_across (hhi : ws[q + 1]? = some hi) (hlo : ws[q]? = some lo) (hr : 0 < r)
    (hrn : r < n) (hn : n ≤ w) :
    ((hi <<< (w - r)) >>> (w - r - (n - r)) ||| lo >>> (w - (n - r))).getLsbD j =
      (decide (j < n) && bitAt ws (w * (q + 1) + r - n + j)) := by
  rw [BitVec.getLsbD_or, BitVec.getLsbD_ushiftRight, BitVec.getLsbD_shiftLeft,
    BitVec.getLsbD_ushiftRight, Nat.mul_add_one]
  have hshift : w - r - (n - r) = w - n := by omega
  rw [hshift]
  rcases Nat.lt_or_ge j (n - r) with hlow | hhigh
  · -- a bit of the lower word
    have hplace : w * q + w + r - n + j = w * q + (w - (n - r) + j) := by omega
    have hup : w - n + j < w - r := by omega
    rw [hplace, bitAt_at (by omega), hlo]
    simp [hup, show j < n by omega]
  · have hnone : lo.getLsbD (w - (n - r) + j) = false := BitVec.getLsbD_of_ge _ _ (by omega)
    rw [hnone]
    by_cases hj : j < n
    · have hplace : w * q + w + r - n + j = w * (q + 1) + (j - (n - r)) := by
        rw [Nat.mul_add_one]
        omega
      have hback : w - n + j - (w - r) = j - (n - r) := by omega
      have hin : w - n + j < w := by omega
      have hup : ¬ w - n + j < w - r := by omega
      rw [hplace, bitAt_at (by omega), hhi, hback]
      simp [hj, hin, hup]
    · have hin : ¬ w - n + j < w := by omega
      simp [hj, hin]

/-- The last bits of a row are those of the value that was put there last. -/
theorem eq_of_last {y : BitVec w} (h : Shows ws (bits ++ low n x ++ bits'))
    (hx : x.toNat < 2 ^ n)
    (hy : ∀ j, y.getLsbD j = (decide (j < n) && bitAt ws (bits.length + j))) : y = x := by
  apply BitVec.eq_of_getLsbD_eq
  intro j _
  rw [hy j, h]
  by_cases hj : j < n
  · rw [List.getD_append _ _ _ _ (by simp; omega),
      List.getD_append_right _ _ _ _ (by omega), Nat.add_sub_cancel_left, getD_low]
    simp [hj]
  · simp [hj, getLsbD_of_lt hx (Nat.not_lt.mp hj)]

end BitRows
