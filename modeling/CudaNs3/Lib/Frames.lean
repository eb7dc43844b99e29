import Mathlib.Data.List.Basic

/-!
# Frames in a stream

A list of frames is sent as the concatenation of their encodings and received piece by piece.
After a number of items have arrived, a list of frames is complete and the rest is pending.
-/

namespace Frames

set_option autoImplicit false

universe u v
variable {M : Type u} {α : Type v} (enc : M → List α)

def stream (ms : List M) : List α := ms.flatMap enc

def total (ms : List M) : Nat := (stream enc ms).length

/-- The frames that end within the first `n` items of their stream. -/
def completed : Nat → List M → List M
  | _, [] => []
  | n, m :: ms => if (enc m).length ≤ n then m :: completed (n - (enc m).length) ms else []

/-- The items after the last frame completed. -/
def pending (n : Nat) (ms : List M) : Nat := n - total enc (completed enc n ms)

variable {enc} {n : Nat} {m : M} {xs ms : List M}

@[simp] theorem stream_nil : stream enc [] = [] := rfl

@[simp] theorem stream_cons : stream enc (m :: ms) = enc m ++ stream enc ms := rfl

@[simp] theorem stream_append : stream enc (xs ++ ms) = stream enc xs ++ stream enc ms :=
  List.flatMap_append

@[simp] theorem total_nil : total enc [] = 0 := rfl

@[simp] theorem total_cons : total enc (m :: ms) = (enc m).length + total enc ms := by
  simp [total]

@[simp] theorem total_append : total enc (xs ++ ms) = total enc xs + total enc ms := by
  simp [total]

theorem completed_cons_of_le (h : (enc m).length ≤ n) :
    completed enc n (m :: ms) = m :: completed enc (n - (enc m).length) ms := if_pos h

theorem completed_cons_of_lt (h : n < (enc m).length) : completed enc n (m :: ms) = [] :=
  if_neg (Nat.not_le.mpr h)

/-- Frames that have arrived whole are complete whatever follows. -/
theorem completed_append :
    completed enc (total enc xs + n) (xs ++ ms) = xs ++ completed enc n ms := by
  induction xs with
  | nil => simp
  | cons x xs ih =>
    rw [total_cons, List.cons_append, completed_cons_of_le (by omega), List.cons_append]
    have hn : (enc x).length + total enc xs + n - (enc x).length = total enc xs + n := by omega
    rw [hn, ih]

theorem completed_prefix : completed enc n ms <+: ms := by
  induction ms generalizing n with
  | nil => exact List.prefix_refl _
  | cons m ms ih =>
    by_cases h : (enc m).length ≤ n
    · rw [completed_cons_of_le h]
      exact (List.prefix_cons_inj _).mpr ih
    · rw [completed_cons_of_lt (Nat.not_le.mp h)]
      exact List.nil_prefix

/-- What is left of the stream after its first frame. -/
theorem prefix_drop {b : List α} (h : b <+: stream enc (m :: ms)) (hlen : (enc m).length ≤ b.length) :
    b = enc m ++ b.drop (enc m).length ∧ b.drop (enc m).length <+: stream enc ms := by
  rw [stream_cons] at h
  obtain ⟨c, rfl⟩ : enc m <+: b :=
    List.prefix_of_prefix_length_le (List.prefix_append _ _) h hlen
  rw [List.drop_left]
  exact ⟨rfl, (List.prefix_append_right_inj _).mp h⟩

end Frames
