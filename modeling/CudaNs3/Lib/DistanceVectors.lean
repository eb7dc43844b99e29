import Mathlib.Logic.Relation
import Mathlib.Order.Bounds.Basic
import Mathlib.Order.Lattice.Nat

/-!
# Distances to networks

Paths from a router to a network over hops that have a cost, where a router's own networks are
at distance one. Next hops that come closer to the network never lead back to where they began.
-/

namespace DistanceVector

set_option autoImplicit false

universe u v
variable {R : Type u} {N : Type v}

inductive Path (own : R → N → Prop) (hop : R → R → Nat → Prop) : R → N → Nat → Prop where
  | own {r : R} {n : N} : own r n → Path own hop r n 1
  | hop {r r' : R} {n : N} {c d : Nat} :
      hop r r' d → Path own hop r' n c → Path own hop r n (c + d)

/-- `c` is the cost of a shortest path. -/
def Shortest (own : R → N → Prop) (hop : R → R → Nat → Prop) (r : R) (n : N) (c : Nat) : Prop :=
  IsLeast { c | Path own hop r n c } c

variable {own : R → N → Prop} {hop : R → R → Nat → Prop} {r r' : R} {n : N} {c d : Nat}

theorem Path.exists_shortest (h : Path own hop r n c) : ∃ d, Shortest own hop r n d ∧ d ≤ c := by
  have hne : { c | Path own hop r n c }.Nonempty := ⟨c, h⟩
  refine ⟨sInf { c | Path own hop r n c }, ⟨Nat.sInf_mem hne, ?_⟩, Nat.sInf_le h⟩
  intro d hd
  exact Nat.sInf_le hd

theorem Shortest.eq (h : Shortest own hop r n c) (h' : Shortest own hop r n d) : c = d :=
  h.unique h'

/-- A relation whose every step shortens the distance to one network has no loop. -/
theorem no_loop {next : R → R → Prop}
    (closer : ∀ r r', next r r' → ∃ c c', Shortest own hop r n c ∧ Shortest own hop r' n c' ∧
      c' < c) (r : R) : ¬ Relation.TransGen next r r := by
  have hall : ∀ {a b : R}, Relation.TransGen next a b → ∃ c c', Shortest own hop a n c ∧
      Shortest own hop b n c' ∧ c' < c := by
    intro a b hab
    induction hab with
    | single h => exact closer _ _ h
    | tail _ h ih =>
      obtain ⟨c, c₁, hc, hc₁, hlt⟩ := ih
      obtain ⟨c₂, c', hc₂, hc', hlt'⟩ := closer _ _ h
      rw [hc₁.eq hc₂] at hlt
      exact ⟨c, c', hc, hc', hlt'.trans hlt⟩
  intro h
  obtain ⟨c, c', hc, hc', hlt⟩ := hall h
  rw [hc.eq hc'] at hlt
  exact Nat.lt_irrefl _ hlt

end DistanceVector
