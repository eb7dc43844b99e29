import Mathlib.Data.List.Induction
import Mathlib.Order.Lattice

/-!
# The best element so far

A loop goes through a list and keeps the element of the highest rank, the latest of those where
there are several. A loop that may stop early has seen the list up to the element it stopped at.
-/

namespace CudaNs3.RunningBest

set_option autoImplicit false

universe u v
variable {α : Type u} {β : Type v} [LinearOrder β]

/-- The element kept after one more is seen. -/
def keep (rank : α → β) : Option α → α → Option α
  | none, a => some a
  | some b, a => if rank b ≤ rank a then some a else some b

/-- What has been kept is an element of the highest rank. -/
structure Best (rank : α → β) (l : List α) (best : Option α) : Prop where
  none_iff : best = none ↔ l = []
  mem : ∀ b, best = some b → b ∈ l
  le : ∀ b, best = some b → ∀ a ∈ l, rank a ≤ rank b

variable {rank : α → β} {l : List α} {best : Option α}

theorem Best.nil : Best rank [] none where
  none_iff := by simp
  mem b h := by simp at h
  le b h := by simp at h

theorem Best.snoc (h : Best rank l best) (a : α) : Best rank (l ++ [a]) (keep rank best a) := by
  cases hbest : best with
  | none =>
    have hl : l = [] := h.none_iff.mp hbest
    subst hl
    refine ⟨by simp [keep], ?_, ?_⟩
    · intro b hb
      have hab : a = b := by simpa [keep] using hb
      simp [hab]
    · intro b hb x hx
      have hab : a = b := by simpa [keep] using hb
      have hxa : x = a := by simpa using hx
      rw [hxa, hab]
  | some c =>
    have hc : c ∈ l := h.mem c hbest
    have hle := h.le c hbest
    by_cases hca : rank c ≤ rank a
    · refine ⟨by simp [keep, hca], ?_, ?_⟩
      · intro b hb
        have hab : a = b := by simpa [keep, hca] using hb
        simp [hab]
      · intro b hb x hx
        have hab : a = b := by simpa [keep, hca] using hb
        subst hab
        rcases List.mem_append.mp hx with hx | hx
        · exact (hle x hx).trans hca
        · rw [List.mem_singleton.mp hx]
    · refine ⟨by simp [keep, hca], ?_, ?_⟩
      · intro b hb
        have hcb : c = b := by simpa [keep, hca] using hb
        subst hcb
        exact List.mem_append_left _ hc
      · intro b hb x hx
        have hcb : c = b := by simpa [keep, hca] using hb
        subst hcb
        rcases List.mem_append.mp hx with hx | hx
        · exact hle x hx
        · rw [List.mem_singleton.mp hx]
          exact (not_le.mp hca).le

/-- A loop over the whole list ends with the best of it. -/
theorem best_foldl (rank : α → β) (l : List α) : Best rank l (l.foldl (keep rank) none) := by
  induction l using List.reverseRecOn with
  | nil => exact .nil
  | append_singleton l a ih =>
    rw [List.foldl_append]
    exact ih.snoc a

/-! ### Loops that stop -/

/-- The list up to the first element with the property, and with it. -/
def upTo (p : α → Bool) : List α → List α
  | [] => []
  | a :: l => a :: if p a then [] else upTo p l

theorem upTo_eq_self {p : α → Bool} (h : ∀ a ∈ l, p a = false) : upTo p l = l := by
  induction l with
  | nil => rfl
  | cons a l ih =>
    have ha : p a = false := h a List.mem_cons_self
    have hl : upTo p l = l := ih fun b hb => h b (List.mem_cons_of_mem a hb)
    simp [upTo, ha, hl]

theorem upTo_of_find {p : α → Bool} {a : α} (h : l.find? p = some a) :
    ∃ before, upTo p l = before ++ [a] ∧ ∀ b ∈ before, p b = false := by
  induction l with
  | nil => simp at h
  | cons c l ih =>
    by_cases hc : p c = true
    · have hca : c = a := by simpa [hc] using h
      subst hca
      refine ⟨[], ?_, by simp⟩
      simp [upTo, hc]
    · have hc' : p c = false := by simpa using hc
      have hl : l.find? p = some a := by simpa [hc'] using h
      obtain ⟨before, hbefore, hnot⟩ := ih hl
      refine ⟨c :: before, ?_, ?_⟩
      · simp [upTo, hc', hbefore]
      · intro b hb
        rcases List.mem_cons.mp hb with rfl | hb
        · exact hc'
        · exact hnot b hb

/-- An element that outranks all before it is what a loop that stops there has kept. -/
theorem foldl_keep_last {a : α} (h : ∀ b ∈ l, rank b ≤ rank a) :
    (l ++ [a]).foldl (keep rank) none = some a := by
  have hbest := best_foldl rank l
  rw [List.foldl_append]
  cases hkept : l.foldl (keep rank) none with
  | none => rfl
  | some b =>
    have hb : rank b ≤ rank a := h b (hbest.mem b hkept)
    simp [keep, hb]

end CudaNs3.RunningBest
