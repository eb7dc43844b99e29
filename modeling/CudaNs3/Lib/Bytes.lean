import Mathlib.Data.List.Basic

/-!
# Blocks of bytes in a row of memory

A row is a function from addresses to cells. What a write leaves to a later read is
all that is needed about it.
-/

namespace Bytes

set_option autoImplicit false

universe u
variable {β : Type u}

def read (m : Nat → β) (a n : Nat) : List β := (List.range n).map fun i => m (a + i)

def write (m : Nat → β) (a : Nat) (bs : List β) : Nat → β :=
  fun i => if a ≤ i then bs[i - a]?.getD (m i) else m i

@[simp] theorem length_read (m : Nat → β) (a n : Nat) : (read m a n).length = n := by
  simp [read]

@[simp] theorem read_zero (m : Nat → β) (a : Nat) : read m a 0 = [] := rfl

theorem write_apply_of_le (m : Nat → β) {a i : Nat} {bs : List β} (h : a + bs.length ≤ i) :
    write m a bs i = m i := by
  have hnone : bs[i - a]? = none := List.getElem?_eq_none (by omega)
  simp [write, hnone]

theorem write_apply_of_lt (m : Nat → β) {a i : Nat} {bs : List β} (h : i < a) :
    write m a bs i = m i := by
  simp [write, Nat.not_le.mpr h]

theorem write_apply_add (m : Nat → β) (a : Nat) {bs : List β} {i : Nat} (h : i < bs.length) :
    write m a bs (a + i) = bs[i] := by
  simp [write, h]

@[simp] theorem write_nil (m : Nat → β) (a : Nat) : write m a [] = m := by
  funext i
  simp [write]

theorem write_append (m : Nat → β) (a : Nat) (bs cs : List β) :
    write m a (bs ++ cs) = write (write m a bs) (a + bs.length) cs := by
  funext i
  by_cases ha : a ≤ i
  · by_cases hi : i - a < bs.length
    · rw [write_apply_of_lt _ (show i < a + bs.length by omega)]
      simp [write, ha, List.getElem?_append_left hi]
    · have hle : bs.length ≤ i - a := Nat.le_of_not_lt hi
      have hsub : i - a - bs.length = i - (a + bs.length) := Nat.sub_sub _ _ _
      simp [write, ha, List.getElem?_append_right hle, hsub, List.getElem?_eq_none hle,
        show a + bs.length ≤ i by omega]
  · have hlt : i < a := Nat.lt_of_not_le ha
    rw [write_apply_of_lt _ hlt, write_apply_of_lt _ (by omega), write_apply_of_lt _ hlt]

theorem getElem?_read (m : Nat → β) (a : Nat) {n i : Nat} (h : i < n) :
    (read m a n)[i]? = some (m (a + i)) := by
  simp [read, h]

theorem read_eq_of_forall {m m' : Nat → β} {a a' n : Nat}
    (h : ∀ i, i < n → m (a + i) = m' (a' + i)) : read m a n = read m' a' n := by
  apply List.map_congr_left
  intro i hi
  exact h i (List.mem_range.mp hi)

theorem read_congr {m m' : Nat → β} {a n : Nat} (h : ∀ i, a ≤ i → i < a + n → m i = m' i) :
    read m a n = read m' a n := by
  apply List.map_congr_left
  intro i hi
  exact h _ (Nat.le_add_right a i) (Nat.add_lt_add_left (List.mem_range.mp hi) a)

theorem read_add (m : Nat → β) (a n k : Nat) :
    read m a (n + k) = read m a n ++ read m (a + n) k := by
  simp [read, List.range_add, Function.comp_def, Nat.add_assoc]

theorem drop_read (m : Nat → β) (a n k : Nat) : (read m a n).drop k = read m (a + k) (n - k) := by
  rcases Nat.le_total k n with hk | hk
  · obtain ⟨j, rfl⟩ := Nat.exists_eq_add_of_le hk
    rw [read_add, List.drop_left' (length_read m a k), Nat.add_sub_cancel_left]
  · rw [List.drop_eq_nil_of_le (by rwa [length_read]), Nat.sub_eq_zero_of_le hk]
    rfl

theorem take_read (m : Nat → β) (a n k : Nat) : (read m a n).take k = read m a (min k n) := by
  rcases Nat.le_total k n with hk | hk
  · obtain ⟨j, rfl⟩ := Nat.exists_eq_add_of_le hk
    rw [read_add, List.take_left' (length_read m a k), Nat.min_eq_left hk]
  · rw [List.take_of_length_le (by rwa [length_read]), Nat.min_eq_right hk]

theorem read_write (m : Nat → β) (a : Nat) (bs : List β) :
    read (write m a bs) a bs.length = bs := by
  apply List.ext_getElem?
  intro i
  by_cases hi : i < bs.length
  · simp [read, write, hi]
  · simp [read, hi]

/-- A write below the block that is read. -/
theorem read_write_of_le (m : Nat → β) {a b : Nat} {bs : List β} (h : a + bs.length ≤ b)
    (n : Nat) : read (write m a bs) b n = read m b n := by
  apply read_congr
  intro i hi _
  exact write_apply_of_le m (Nat.le_trans h hi)

end Bytes
