import Mathlib.Data.List.Basic

/-!
# Common heads and tails

Where two lists first differ, and properties that all elements of a list have alike.
-/

namespace Affixes

set_option autoImplicit false

universe u v w
variable {α : Type u} {β : Type v} {γ : Type w}

/-- How many of the first `n` places come before the first difference. -/
def agreeing [DecidableEq α] (n : Nat) (xs ys : List α) : Nat :=
  ((xs.zip ys).take n).findIdx fun p => p.1 != p.2

/-- `f` takes one value on all of the list. -/
def Alike (f : β → γ) (l : List β) : Prop := ∀ x ∈ l, ∀ y ∈ l, f x = f y

theorem le_agreeing_iff [DecidableEq α] {n k : Nat} {xs ys : List α}
    (hlen : xs.length = ys.length) (hk : k ≤ xs.length) :
    k ≤ agreeing n xs ys ↔ k ≤ n ∧ xs.take k = ys.take k := by
  induction k generalizing n xs ys with
  | zero => simp
  | succ k ih =>
    cases xs with
    | nil => simp at hk
    | cons x xs =>
      cases ys with
      | nil => simp at hlen
      | cons y ys =>
        cases n with
        | zero => simp [agreeing]
        | succ n =>
          have hrec := @ih n xs ys (by simpa using hlen) (by simpa using hk)
          unfold agreeing at hrec ⊢
          rw [List.zip_cons_cons, List.take_succ_cons, List.findIdx_cons]
          by_cases hxy : x = y
          · subst hxy
            simp only [bne_self_eq_false, cond_false, Nat.add_le_add_iff_right, hrec,
              List.take_succ_cons, List.cons.injEq, true_and]
          · have hbne : (x != y) = true := by simpa using hxy
            simp [hbne, hxy]

theorem agreeing_le [DecidableEq α] {n : Nat} {xs ys : List α} :
    agreeing n xs ys ≤ n ∧ agreeing n xs ys ≤ xs.length := by
  have h : agreeing n xs ys ≤ ((xs.zip ys).take n).length := List.findIdx_le_length
  rw [List.length_take, List.length_zip] at h
  omega

section Alike

variable {f : β → γ} {l : List β} {x y : β}

theorem Alike.mono {δ : Type w} {g : β → δ} (h : Alike f l)
    (hfg : ∀ x ∈ l, ∀ y ∈ l, f x = f y → g x = g y) : Alike g l :=
  fun x hx y hy => hfg x hx y hy (h x hx y hy)

theorem alike_singleton : Alike f [x] := by
  intro y hy z hz
  rw [List.mem_singleton.mp hy, List.mem_singleton.mp hz]

theorem alike_concat (hx : x ∈ l) : Alike f (l ++ [y]) ↔ Alike f l ∧ f x = f y := by
  constructor
  · intro h
    refine ⟨fun a ha b hb => h a (List.mem_append_left _ ha) b (List.mem_append_left _ hb), ?_⟩
    exact h x (List.mem_append_left _ hx) y (List.mem_append_right _ List.mem_cons_self)
  · intro h
    have hy : ∀ a ∈ l ++ [y], f a = f y := by
      intro a ha
      rcases List.mem_append.mp ha with ha | ha
      · exact (h.1 a ha x hx).trans h.2
      · rw [List.mem_singleton.mp ha]
    exact fun a ha b hb => (hy a ha).trans (hy b hb).symm

theorem alike_map {δ : Type u} {g : δ → β} {l : List δ} :
    Alike f (l.map g) ↔ Alike (fun x => f (g x)) l := by
  simp [Alike]

end Alike

end Affixes
