import Mathlib.Data.Int.Order.Basic
import Mathlib.Data.List.Basic

/-!
# Labelled spans

Half-open spans `[start, end_)` of integers that carry a label, and the labels that stand over
a point: moving the spans, and cutting each of them off.
-/

namespace Spans

set_option autoImplicit false

universe u v

structure Span (α : Type u) where
  label : α
  start : Int
  end_ : Int

variable {α : Type u} {β : Type v}

namespace Span

def Over (s : Span α) (p : Int) : Prop := s.start ≤ p ∧ p < s.end_

instance (s : Span α) (p : Int) : Decidable (s.Over p) :=
  inferInstanceAs (Decidable (s.start ≤ p ∧ p < s.end_))

def shift (n : Int) (s : Span α) : Span α := ⟨s.label, s.start + n, s.end_ + n⟩

/-- What is kept of `s` stands over `p` when `s` does and `P` holds. -/
def Restricts (P : Prop) (p : Int) (s : Span α) : Option (Span α) → Prop
  | none => ¬ (P ∧ s.Over p)
  | some s' => s'.label = s.label ∧ (s'.Over p ↔ P ∧ s.Over p)

end Span

/-- The labels over `p`, in the order of the spans. -/
def covering (l : List (Span α)) (p : Int) : List α :=
  (l.filter fun s => s.Over p).map Span.label

variable {l : List (Span α)} {s : Span α} {p : Int}

@[simp] theorem covering_nil (p : Int) : covering ([] : List (Span α)) p = [] := rfl

theorem covering_cons_of_over (h : s.Over p) : covering (s :: l) p = s.label :: covering l p := by
  simp [covering, h]

theorem covering_cons_of_not_over (h : ¬ s.Over p) : covering (s :: l) p = covering l p := by
  simp [covering, h]

@[simp] theorem covering_append (l l' : List (Span α)) (p : Int) :
    covering (l ++ l') p = covering l p ++ covering l' p := by
  simp [covering]

theorem covering_eq_nil (h : ∀ s ∈ l, ¬ s.Over p) : covering l p = [] := by
  have hfilter : l.filter (fun s => s.Over p) = [] := by
    apply List.filter_eq_nil_iff.mpr
    intro s hs
    simpa using h s hs
  rw [covering, hfilter]
  rfl

theorem covering_eq_nil_of_end_le (h : ∀ s ∈ l, s.end_ ≤ p) : covering l p = [] := by
  apply covering_eq_nil
  intro s hs hover
  exact absurd (h s hs) (Int.not_le.mpr hover.2)

theorem covering_eq_nil_of_lt_start (h : ∀ s ∈ l, p < s.start) : covering l p = [] := by
  apply covering_eq_nil
  intro s hs hover
  exact absurd (h s hs) (Int.not_lt.mpr hover.1)

theorem covering_shift (l : List (Span α)) (n p : Int) :
    covering (l.map (Span.shift n)) p = covering l (p - n) := by
  induction l with
  | nil => rfl
  | cons s l ih =>
    have hover : (s.shift n).Over p ↔ s.Over (p - n) := by
      simp only [Span.Over, Span.shift]
      omega
    rw [List.map_cons]
    by_cases hs : s.Over (p - n)
    · rw [covering_cons_of_over (hover.mpr hs), covering_cons_of_over hs, ih]
      rfl
    · rw [covering_cons_of_not_over (fun h => hs (hover.mp h)), covering_cons_of_not_over hs, ih]

/-- Cutting off where `P` does not hold; `g` gives the spans that `f` cuts. -/
theorem covering_filterMap {P : Prop} [Decidable P] {g : β → Span α} {f : β → Option (Span α)}
    {xs : List β} (h : ∀ x ∈ xs, (g x).Restricts P p (f x)) :
    covering (xs.filterMap f) p = if P then covering (xs.map g) p else [] := by
  induction xs with
  | nil => simp
  | cons x xs ih =>
    have hx := h x List.mem_cons_self
    have hrest := ih fun y hy => h y (List.mem_cons_of_mem x hy)
    rw [List.map_cons]
    rcases hf : f x with _ | s'
    · rw [hf] at hx
      rw [List.filterMap_cons_none hf, hrest]
      split_ifs with hP
      · rw [covering_cons_of_not_over (fun hover => hx ⟨hP, hover⟩)]
      · rfl
    · rw [hf] at hx
      obtain ⟨hlabel, hover⟩ := hx
      rw [List.filterMap_cons_some hf]
      by_cases hs : P ∧ (g x).Over p
      · rw [covering_cons_of_over (hover.mpr hs), hrest, if_pos hs.1, if_pos hs.1,
          covering_cons_of_over hs.2, hlabel]
      · rw [covering_cons_of_not_over (fun h => hs (hover.mp h)), hrest]
        split_ifs with hP
        · rw [covering_cons_of_not_over (fun h => hs ⟨hP, h⟩)]
        · rfl

end Spans
