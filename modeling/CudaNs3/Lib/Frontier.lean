import Mathlib.Logic.Relation
import Mathlib.Order.Bounds.Basic

/-!
# Conservative dispatch against promised arrivals

A dispatcher removes pending times in an order of its own. Work it has handed out
may still return new times, and each piece of that work comes with a promise, a
lower bound on what it can return. The dispatcher is conservative when it only
removes a least pending time that no promise undercuts. Then the removed times
never go back, whatever the promised work returns and whenever it does.

Nothing here knows what the times or the promises stand for.
-/

namespace Frontier

set_option autoImplicit false

universe u
variable {T : Type u} [LinearOrder T]

/-- What is pending, what may still arrive, and the times removed so far. -/
structure Machine (T : Type u) where
  pending : Set T
  promises : Set T
  log : List T

/-- A time is admissible when a promise covers it or it is not in the past. -/
def Admissible (m : Machine T) (x : T) : Prop :=
  (∃ p ∈ m.promises, p ≤ x) ∨ ∀ l ∈ m.log, l ≤ x

inductive Step : Machine T → Machine T → Prop where
  | remove {m : Machine T} {t : T} {rest : Set T} :
      IsLeast m.pending t → t ∈ lowerBounds m.promises → rest ⊆ m.pending →
      Step m ⟨rest, m.promises, m.log ++ [t]⟩
  | evolve {m : Machine T} {X P : Set T} :
      (∀ x ∈ X, x ∈ m.pending ∨ Admissible m x) → (∀ p ∈ P, Admissible m p) →
      Step m ⟨X, P, m.log⟩

/-- The removed times are in order and bound all that is pending or promised. -/
structure Ordered (m : Machine T) : Prop where
  sorted : m.log.Pairwise (· ≤ ·)
  pending : ∀ l ∈ m.log, ∀ x ∈ m.pending, l ≤ x
  promises : ∀ l ∈ m.log, ∀ p ∈ m.promises, l ≤ p

theorem Ordered.admissible {m : Machine T} (h : Ordered m) {x : T} (hx : Admissible m x) :
    ∀ l ∈ m.log, l ≤ x := by
  intro l hl
  rcases hx with ⟨p, hp, hpx⟩ | hx
  · exact (h.promises l hl p hp).trans hpx
  · exact hx l hl

theorem Ordered.step {m n : Machine T} (h : Ordered m) (hs : Step m n) : Ordered n := by
  cases hs with
  | @remove t rest hleast hlow hrest =>
    have hold : ∀ l ∈ m.log, l ≤ t := fun l hl => h.pending l hl t hleast.1
    refine ⟨?_, ?_, ?_⟩
    · refine List.pairwise_append.mpr ⟨h.sorted, List.pairwise_singleton _ _, ?_⟩
      intro l hl x hx
      obtain rfl := List.mem_singleton.mp hx
      exact hold l hl
    · intro l hl x hx
      have hx' := hrest hx
      rcases List.mem_append.mp hl with hl | hl
      · exact h.pending l hl x hx'
      · obtain rfl := List.mem_singleton.mp hl
        exact hleast.2 hx'
    · intro l hl p hp
      rcases List.mem_append.mp hl with hl | hl
      · exact h.promises l hl p hp
      · obtain rfl := List.mem_singleton.mp hl
        exact hlow hp
  | @evolve X P hX hP =>
    refine ⟨h.sorted, ?_, fun l hl p hp => h.admissible (hP p hp) l hl⟩
    intro l hl x hx
    rcases hX x hx with hx | hx
    · exact h.pending l hl x hx
    · exact h.admissible hx l hl

theorem ordered_of_nil (X P : Set T) : Ordered (⟨X, P, []⟩ : Machine T) :=
  ⟨List.Pairwise.nil, fun l hl => by simp at hl, fun l hl => by simp at hl⟩

end Frontier
