import Mathlib.Algebra.Order.Group.Nat
import Mathlib.Data.List.Basic
import Mathlib.Data.Nat.ModEq
import Mathlib.Data.UInt

/-!
# Words in a row of bytes

Words of any width with the most significant byte first, what a reader finds of them at a given
place, and sums of 16-bit words in one's complement arithmetic.
-/

namespace Words

set_option autoImplicit false

def toBytes : Nat → Nat → List UInt8
  | 0, _ => []
  | n + 1, x => toBytes n (x / 256) ++ [UInt8.ofNat x]

def ofBytes (bs : List UInt8) : Nat := bs.foldl (fun acc b => acc * 256 + b.toNat) 0

/-- `n` bytes from `pos` on; `none` when there are fewer. -/
def readBytes (b : List UInt8) (pos n : Nat) : Option (List UInt8) :=
  if n ≤ (b.drop pos).length then some ((b.drop pos).take n) else none

def readWord (b : List UInt8) (pos n : Nat) : Option Nat := (readBytes b pos n).map ofBytes

variable {b bs rest : List UInt8} {pos n x : Nat}

@[simp] theorem length_toBytes : (toBytes n x).length = n := by
  induction n generalizing x with
  | zero => rfl
  | succ n ih => simp [toBytes, ih]

theorem ofBytes_append_singleton (c : UInt8) : ofBytes (bs ++ [c]) = ofBytes bs * 256 + c.toNat := by
  simp [ofBytes]

theorem ofBytes_toBytes (hx : x < 256 ^ n) : ofBytes (toBytes n x) = x := by
  induction n generalizing x with
  | zero =>
    have : x = 0 := by omega
    rw [this]
    rfl
  | succ n ih =>
    have hdiv : x / 256 < 256 ^ n := Nat.div_lt_of_lt_mul (by rwa [← Nat.pow_succ'])
    have hbyte : (UInt8.ofNat x).toNat = x % 256 := UInt8.toNat_ofNat'
    rw [toBytes, ofBytes_append_singleton, ih hdiv, hbyte]
    omega

theorem toBytes_ofBytes (bs : List UInt8) : toBytes bs.length (ofBytes bs) = bs := by
  induction bs using List.reverseRecOn with
  | nil => rfl
  | append_singleton bs c ih =>
    have hlt := c.toNat_lt
    rw [List.length_append, List.length_singleton, toBytes, ofBytes_append_singleton]
    have hdiv : (ofBytes bs * 256 + c.toNat) / 256 = ofBytes bs := by omega
    rw [hdiv, ih]
    congr 2
    apply UInt8.toNat_inj.mp
    rw [UInt8.toNat_ofNat']
    omega

theorem ofBytes_lt (bs : List UInt8) : ofBytes bs < 256 ^ bs.length := by
  induction bs using List.reverseRecOn with
  | nil => decide
  | append_singleton bs c ih =>
    have hlt := c.toNat_lt
    rw [List.length_append, List.length_singleton, Nat.pow_succ, ofBytes_append_singleton]
    omega

theorem readBytes_of_drop (bs : List UInt8) (h : b.drop pos = bs ++ rest) :
    readBytes b pos bs.length = some bs := by
  have hle : bs.length ≤ (b.drop pos).length := by
    rw [h, List.length_append]
    exact Nat.le_add_right _ _
  rw [readBytes, if_pos hle, h, List.take_left]

theorem readWord_of_drop (hx : x < 256 ^ n) (h : b.drop pos = toBytes n x ++ rest) :
    readWord b pos n = some x := by
  have hread := readBytes_of_drop _ h
  rw [length_toBytes] at hread
  rw [readWord, hread, Option.map_some, ofBytes_toBytes hx]

/-- A reader finds nothing beyond the end. -/
theorem le_of_readBytes (h : readBytes b pos n = some bs) (hn : 0 < n) : pos + n ≤ b.length := by
  unfold readBytes at h
  split at h
  · rename_i hle
    rw [List.length_drop] at hle
    omega
  · cases h

theorem drop_append_of_drop (h : b.drop pos = bs ++ rest) : b.drop (pos + bs.length) = rest := by
  rw [← List.drop_drop, h, List.drop_left]

/-- The sum of the 16-bit words, the least significant byte first; a last byte counts alone. -/
def sum16 : List UInt8 → Nat
  | [] => 0
  | [x] => x.toNat
  | x :: y :: rest => x.toNat + 256 * y.toNat + sum16 rest

/-- Carries are added to the lower 16 bits until there are none. -/
def fold (s : Nat) : Nat := if s < 65536 then s else fold (s % 65536 + s / 65536)
termination_by s
decreasing_by omega

theorem sum16_append (h : bs.length % 2 = 0) : sum16 (bs ++ rest) = sum16 bs + sum16 rest := by
  induction bs using sum16.induct with
  | case1 => simp [sum16]
  | case2 x => simp at h
  | case3 x y tail ih =>
    have htail : tail.length % 2 = 0 := by
      simp only [List.length_cons] at h
      omega
    rw [List.cons_append, List.cons_append, sum16, sum16, ih htail]
    omega

/-- The sum of a segment of at most 65535 bytes fits into 32 bits. -/
theorem sum16_le : sum16 bs ≤ 65535 * ((bs.length + 1) / 2) := by
  induction bs using sum16.induct with
  | case1 => simp [sum16]
  | case2 x =>
    have := x.toNat_lt
    simp only [sum16, List.length_singleton]
    omega
  | case3 x y tail ih =>
    have := x.toNat_lt
    have := y.toNat_lt
    simp only [sum16, List.length_cons]
    omega

theorem fold_lt (s : Nat) : fold s < 65536 := by
  induction s using fold.induct with
  | case1 s hlt =>
    rw [fold, if_pos hlt]
    exact hlt
  | case2 s hge ih =>
    rw [fold, if_neg hge]
    exact ih

theorem fold_modEq (s : Nat) : fold s ≡ s [MOD 65535] := by
  induction s using fold.induct with
  | case1 s hlt => rw [fold, if_pos hlt]
  | case2 s hge ih =>
    rw [fold, if_neg hge]
    apply ih.trans
    unfold Nat.ModEq
    omega

theorem fold_eq_zero_iff {s : Nat} : fold s = 0 ↔ s = 0 := by
  induction s using fold.induct with
  | case1 s hlt => rw [fold, if_pos hlt]
  | case2 s hge ih =>
    rw [fold, if_neg hge, ih]
    omega

/-- All ones stand for zero, but for the sum of nothing. -/
theorem fold_eq_ones_iff {s : Nat} : fold s = 65535 ↔ 0 < s ∧ s % 65535 = 0 := by
  have hlt := fold_lt s
  have hmod : fold s % 65535 = s % 65535 := fold_modEq s
  have hzero := @fold_eq_zero_iff s
  omega

/-- With the complement of its sum a row of words adds up to all ones. -/
theorem fold_add_complement (s : Nat) : fold (s + (65535 - fold s)) = 65535 := by
  have hlt := fold_lt s
  have hmod : fold s % 65535 = s % 65535 := fold_modEq s
  have hzero := @fold_eq_zero_iff s
  apply fold_eq_ones_iff.mpr
  omega

end Words
