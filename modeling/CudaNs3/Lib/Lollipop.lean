import Mathlib.Data.Nat.ModEq

/-!
# Lollipop sequences

A stem of places leads once into a circle that is then walked for ever. The circle has the
places below `M`, the stem the last `W` places below `2 * M`. Of two places the later one can
be told from the earlier while it is at most `W` steps ahead, if the circle is long enough.
-/

namespace CudaNs3.Lib.Lollipop

set_option autoImplicit false

/-- The place after `v`: both the stem and the circle end where the circle begins. -/
def next (M v : Nat) : Nat := if v = M - 1 ∨ v = 2 * M - 1 then 0 else v + 1

/-- Where `k` steps from the start of the stem lead. -/
def place (M W k : Nat) : Nat := if k < W then 2 * M - W + k else (k - W) % M

/-- The smaller of the two ways between `x` and `y` round the circle. -/
def spread (M x y : Nat) : Nat := min (max x y - min x y) (min x y + M - max x y)

/-- `x` counts as later than `y`. -/
def Ahead (M W x y : Nat) : Prop :=
  x ≠ y ∧
    if x < M ↔ y < M then
      spread M x y ≤ W ∧
        (x < y ∧ (M - 1) / 2 + 1 < y - x ∨ y < x ∧ x - y < (M - 1) / 2 + 1)
    else if y < M then W < 2 * M - (x - y) else 2 * M - (y - x) ≤ W

variable {M W : Nat}

theorem succ_mod (x : Nat) (hM : 0 < M) :
    (x + 1) % M = if x % M = M - 1 then 0 else x % M + 1 := by
  have hlt := Nat.mod_lt x hM
  rw [← Nat.mod_add_mod]
  split_ifs with h
  · rw [h, Nat.sub_add_cancel hM, Nat.mod_self]
  · exact Nat.mod_eq_of_lt (by omega)

theorem place_stem {k : Nat} (h : k < W) : place M W k = 2 * M - W + k := if_pos h

theorem place_circle {k : Nat} (h : W ≤ k) : place M W k = (k - W) % M := if_neg (by omega)

theorem next_place (hpos : 0 < M) (hM : W ≤ M) (k : Nat) :
    next M (place M W k) = place M W (k + 1) := by
  by_cases hstem : k + 1 < W
  · rw [place_stem hstem, place_stem (by omega), next, if_neg (by omega)]
    omega
  rw [place_circle (k := k + 1) (by omega)]
  by_cases hlast : k < W
  · rw [place_stem hlast, next, if_pos (Or.inr (by omega)), show k + 1 - W = 0 by omega,
      Nat.zero_mod]
  · have hlt := Nat.mod_lt (k - W) (show 0 < M by omega)
    rw [place_circle (by omega), show k + 1 - W = k - W + 1 by omega, succ_mod _ (by omega), next]
    by_cases hend : (k - W) % M = M - 1
    · rw [if_pos (Or.inl hend), if_pos hend]
    · rw [if_neg (by omega), if_neg hend]

/-- Round the circle by `j` places, wrapping at most once. -/
theorem add_mod_cases (x j : Nat) (hj : j ≤ M) (hM : 0 < M) :
    (x + j) % M = x % M + j ∧ x % M + j < M ∨
      (x + j) % M = x % M + j - M ∧ M ≤ x % M + j := by
  have hlt := Nat.mod_lt x hM
  rw [← Nat.mod_add_mod]
  by_cases h : x % M + j < M
  · exact Or.inl ⟨Nat.mod_eq_of_lt h, h⟩
  · refine Or.inr ⟨?_, by omega⟩
    rw [Nat.mod_eq_sub_mod (by omega)]
    exact Nat.mod_eq_of_lt (by omega)

/-- A place reached between one and `W` steps later counts as later, on the stem, from the
stem into the circle, and round the circle. -/
theorem ahead_place (hW : 2 * W + 1 < M) (k j : Nat) (hj : 0 < j) (hjW : j ≤ W) :
    Ahead M W (place M W (k + j)) (place M W k) := by
  by_cases hstem : k + j < W
  · rw [place_stem hstem, place_stem (by omega)]
    refine ⟨by omega, ?_⟩
    rw [if_pos (by omega)]
    exact ⟨by unfold spread; omega, Or.inr (by omega)⟩
  rw [place_circle (k := k + j) (by omega)]
  by_cases hcross : k < W
  · rw [place_stem hcross, Nat.mod_eq_of_lt (by omega)]
    refine ⟨by omega, ?_⟩
    rw [if_neg (by omega), if_neg (by omega)]
    omega
  · rw [place_circle (by omega), show k + j - W = k - W + j by omega]
    have hlt := Nat.mod_lt (k - W) (show 0 < M by omega)
    have hcases := add_mod_cases (k - W) j (show j ≤ M by omega) (by omega)
    generalize (k - W + j) % M = x at hcases ⊢
    generalize (k - W) % M = y at hlt hcases ⊢
    refine ⟨by omega, ?_⟩
    rw [if_pos (by omega)]
    exact ⟨by unfold spread; omega, by omega⟩

/-- Half the circle on, the later of two places is no longer told. -/
theorem not_ahead_half (hM : 0 < M) :
    ¬ Ahead M W (place M W (W + (M + 1) / 2)) (place M W W) := by
  have hstart : place M W W = 0 := by
    rw [place_circle le_rfl, Nat.sub_self, Nat.zero_mod]
  have hhalf : place M W (W + (M + 1) / 2) = (M + 1) / 2 % M := by
    rw [place_circle (by omega), Nat.add_sub_cancel_left]
  rw [hstart, hhalf]
  rintro ⟨hne, hreg⟩
  have hlt := Nat.mod_lt ((M + 1) / 2) hM
  have hle := Nat.mod_le ((M + 1) / 2) M
  rw [if_pos (by omega)] at hreg
  by_cases hone : M = 1
  · omega
  · rw [Nat.mod_eq_of_lt (by omega)] at hreg
    omega

theorem not_ahead_self (x : Nat) : ¬ Ahead M W x x := fun h => h.1 rfl

/-- The smaller way round is the smaller of the two residues of the difference. -/
theorem spread_eq {x y : Nat} (hx : x < M) (hy : y < M) :
    spread M x y = min ((x + M - y) % M) ((y + M - x) % M) := by
  have hturn {a b : Nat} (hab : a < b) (hb : b < M) :
      (b + M - a) % M = b - a ∧ (a + M - b) % M = a + M - b := by
    refine ⟨?_, Nat.mod_eq_of_lt (by omega)⟩
    rw [show b + M - a = b - a + M by omega, Nat.add_mod_right]
    exact Nat.mod_eq_of_lt (by omega)
  unfold spread
  rcases Nat.lt_trichotomy x y with h | rfl | h
  · obtain ⟨h1, h2⟩ := hturn h hy
    rw [h1, h2]
    omega
  · rw [Nat.add_sub_cancel_left, Nat.mod_self]
    omega
  · obtain ⟨h1, h2⟩ := hturn h hx
    rw [h1, h2]
    omega

end CudaNs3.Lib.Lollipop
