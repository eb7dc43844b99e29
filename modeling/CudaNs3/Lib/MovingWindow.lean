import Mathlib.Order.Interval.Finset.Nat
import Mathlib.Data.Finset.Card
import Mathlib.Data.Nat.ModEq

/-!
# A moving window kept in one cell for each residue

`W` cells stand for the last `W` numbers up to a place that only moves up: the cell of a number is
that of its residue, so the next number takes over the cell of the one `W` before it. A cell is
read for the last time just before that, which is when the numbers without a mark are counted.
-/

namespace MovingWindow

set_option autoImplicit false

variable {W j m n s : Nat} {cells : Nat → Bool} {P Q : Nat → Prop}

def put (W : Nat) (cells : Nat → Bool) (n : Nat) (v : Bool) : Nat → Bool :=
  Function.update cells (n % W) v

/-- With the window at `j`, the cell of each of the next `W` numbers still tells whether `P` marks
the number `W` before it; the cells of the first turn stand for no number, and are set. -/
def Tells (W j : Nat) (cells : Nat → Bool) (P : Nat → Prop) : Prop :=
  ∀ m, j < m → m ≤ j + W → (cells (m % W) = true ↔ m ≤ W ∨ P (m - W))

/-- How many of the numbers that have left the window are not marked. -/
def missed (W j : Nat) (P : Nat → Prop) [DecidablePred P] : Nat :=
  ((Finset.Icc 1 (j - W)).filter fun n => ¬ P n).card

@[simp] theorem put_same (h : m % W = n % W) (v : Bool) : put W cells n v (m % W) = v := by
  rw [put, h, Function.update_self]

theorem put_other (h : m % W ≠ n % W) (v : Bool) : put W cells n v (m % W) = cells (m % W) := by
  rw [put, Function.update_of_ne h]

/-- Within one turn no two numbers share a cell. -/
theorem eq_of_mod_eq (hlt : n < m) (hle : m ≤ n + W) (h : m % W = n % W) : m = n + W := by
  have hd : W ∣ m - n := (Nat.modEq_iff_dvd' (Nat.le_of_lt hlt)).mp h.symm
  have hge : W ≤ m - n := Nat.le_of_dvd (by omega) hd
  omega

theorem sub_mod_self (h : W ≤ m) : (m - W) % W = m % W := by
  conv_rhs => rw [← Nat.sub_add_cancel h, Nat.add_mod_right]

theorem Tells.congr (h : Tells W j cells P) (hPQ : ∀ n, n ≤ j → j < n + W → (P n ↔ Q n)) :
    Tells W j cells Q := by
  intro m hlt hle
  rw [h m hlt hle]
  by_cases hW : m ≤ W
  · simp [hW]
  · rw [hPQ (m - W) (by omega) (by omega)]

/-- The next number comes in unmarked. -/
theorem Tells.pass (h : Tells W j cells P) (hnot : ¬ P (j + 1)) :
    Tells W (j + 1) (put W cells (j + 1) false) P := by
  intro m hlt hle
  by_cases hm : m % W = (j + 1) % W
  · have hlast : m = j + 1 + W := eq_of_mod_eq hlt hle hm
    have hsub : m - W = j + 1 := by omega
    have hW : ¬ m ≤ W := by omega
    rw [put_same hm, hsub]
    simp [hW, hnot]
  · have hne : m ≠ j + 1 + W := by
      intro heq
      exact hm (by rw [heq, Nat.add_mod_right])
    rw [put_other hm]
    exact h m (by omega) (by omega)

/-- To mark one number is to mark the number of the window that has its cell. -/
theorem Tells.mark (h : Tells W j cells P) (s : Nat) :
    Tells W j (put W cells s true) fun n => P n ∨ n % W = s % W := by
  intro m hlt hle
  by_cases hm : m % W = s % W
  · rw [put_same hm]
    by_cases hW : m ≤ W
    · simp [hW]
    · simp [sub_mod_self (by omega : W ≤ m), hm]
  · rw [put_other hm, h m hlt hle]
    by_cases hW : m ≤ W
    · simp [hW]
    · simp [hW, sub_mod_self (by omega : W ≤ m), hm]

section Missed
variable [DecidablePred P] [DecidablePred Q]

theorem missed_of_le (h : j ≤ W) : missed W j P = 0 := by
  simp [missed, Nat.sub_eq_zero_of_le h]

theorem missed_le : missed W j P ≤ j := by
  calc missed W j P ≤ (Finset.Icc 1 (j - W)).card := Finset.card_filter_le _ _
    _ = j - W := by simp
    _ ≤ j := Nat.sub_le j W

/-- The cell taken over tells whether the number that leaves the window is missed. -/
theorem Tells.missed_pass (h : Tells W j cells P) (hW : 0 < W) : missed W (j + 1) P =
    missed W j P + if cells ((j + 1) % W) = true then 0 else 1 := by
  have hcell := h (j + 1) (by omega) (by omega)
  by_cases hle : j + 1 ≤ W
  · rw [missed_of_le hle, missed_of_le (by omega), if_pos (hcell.mpr (.inl hle))]
  · have hnext : j + 1 - W = j - W + 1 := by omega
    have hnew : j - W + 1 ∉ (Finset.Icc 1 (j - W)).filter fun n => ¬ P n := by simp
    have hsplit : Finset.Icc 1 (j - W + 1) = insert (j - W + 1) (Finset.Icc 1 (j - W)) := by
      ext n
      rw [Finset.mem_insert, Finset.mem_Icc, Finset.mem_Icc]
      omega
    rw [missed, hnext, hsplit, Finset.filter_insert]
    rw [hnext] at hcell
    by_cases hP : P (j - W + 1)
    · rw [if_neg (not_not_intro hP), if_pos (hcell.mpr (.inr hP))]
      rfl
    · have hclear : ¬ cells ((j + 1) % W) = true := fun hset => by
        rcases hcell.mp hset with hfirst | hmarked
        · exact hle hfirst
        · exact hP hmarked
      rw [if_pos hP, if_neg hclear, Finset.card_insert_of_notMem hnew]
      rfl

theorem missed_congr (h : ∀ n, 1 ≤ n → n + W ≤ j → (P n ↔ Q n)) : missed W j P = missed W j Q := by
  refine congrArg Finset.card (Finset.filter_congr fun n hn => ?_)
  obtain ⟨hpos, hle⟩ := Finset.mem_Icc.mp hn
  rw [h n hpos (by omega)]

/-- With more marks there are fewer missed, unless the marks differ only outside. -/
theorem missed_eq_iff (h : ∀ n, 1 ≤ n → n + W ≤ j → Q n → P n) :
    missed W j P = missed W j Q ↔ ∀ n, 1 ≤ n → n + W ≤ j → P n → Q n := by
  constructor
  · intro heq n hpos hle hP
    have hsub : (Finset.Icc 1 (j - W)).filter (fun n => ¬ P n) ⊆
        (Finset.Icc 1 (j - W)).filter fun n => ¬ Q n := by
      intro m hm
      obtain ⟨hmem, hnot⟩ := Finset.mem_filter.mp hm
      obtain ⟨hmpos, hmle⟩ := Finset.mem_Icc.mp hmem
      exact Finset.mem_filter.mpr ⟨hmem, fun hQ => hnot (h m hmpos (by omega) hQ)⟩
    have hsame := Finset.eq_of_subset_of_card_le hsub (Nat.le_of_eq heq.symm)
    by_contra hQ
    have hn : n ∈ (Finset.Icc 1 (j - W)).filter fun n => ¬ Q n :=
      Finset.mem_filter.mpr ⟨Finset.mem_Icc.mpr ⟨hpos, by omega⟩, hQ⟩
    rw [← hsame] at hn
    exact (Finset.mem_filter.mp hn).2 hP
  · intro hall
    exact missed_congr fun n hpos hle => ⟨hall n hpos hle, h n hpos hle⟩

end Missed

end MovingWindow
