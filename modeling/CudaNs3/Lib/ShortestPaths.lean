import Mathlib.Order.Bounds.Basic
import Mathlib.Order.Lattice.Nat

/-!
# Shortest paths from a root by settling labels

A vertex is settled at its distance, or queued at the cost of some path to it. As long as the
edges that leave settled vertices are relaxed, a least label in the queue is a distance, and when
the queue is empty everything that can be reached is settled.
-/

namespace ShortestPaths

set_option autoImplicit false

universe u
variable {V : Type u}

/-- A path from the root to a vertex, with its cost. -/
inductive Path (edge : V → V → Nat → Prop) (root : V) : V → Nat → Prop where
  | root : Path edge root root 0
  | snoc {v w : V} {d c : Nat} : Path edge root v d → edge v w c → Path edge root w (d + c)

/-- `d` is the cost of a cheapest path. -/
def Shortest (edge : V → V → Nat → Prop) (root v : V) (d : Nat) : Prop :=
  IsLeast { c | Path edge root v c } d

/-- The labels when the edges in `relaxed` were looked at. -/
structure Labels (edge : V → V → Nat → Prop) (root : V) (relaxed : V → V → Nat → Prop)
    (settled queued : V → Nat → Prop) : Prop where
  origin : settled root 0
  shortest : ∀ {v d}, settled v d → Shortest edge root v d
  path : ∀ {v d}, queued v d → Path edge root v d
  fresh : ∀ {v d e}, queued v d → ¬ settled v e
  covered : ∀ {v w e c}, settled v e → relaxed v w c →
    (∃ d, settled w d) ∨ ∃ d, queued w d ∧ d ≤ e + c
  ordered : ∀ {v w e d}, settled v e → queued w d → e ≤ d

variable {edge relaxed : V → V → Nat → Prop} {root u v w : V} {c d e : Nat}
variable {settled queued queued' : V → Nat → Prop}

theorem Shortest.le (h : Shortest edge root v d) (hp : Path edge root v c) : d ≤ c := h.2 hp

theorem Shortest.eq (h : Shortest edge root v d) (h' : Shortest edge root v e) : d = e :=
  h.unique h'

theorem Path.exists_shortest (h : Path edge root v c) : ∃ d, Shortest edge root v d ∧ d ≤ c := by
  have hne : { c | Path edge root v c }.Nonempty := ⟨c, h⟩
  refine ⟨sInf { c | Path edge root v c }, ⟨Nat.sInf_mem hne, ?_⟩, Nat.sInf_le h⟩
  intro d hd
  exact Nat.sInf_le hd

theorem shortest_root : Shortest edge root root 0 :=
  ⟨Path.root, fun _ _ => Nat.zero_le _⟩

namespace Labels

theorem start : Labels edge root (fun _ _ _ => False) (fun v d => v = root ∧ d = 0)
    (fun _ _ => False) where
  origin := ⟨rfl, rfl⟩
  shortest := by
    rintro v d ⟨rfl, rfl⟩
    exact shortest_root
  path := False.elim
  fresh := False.elim
  covered := fun _ h => h.elim
  ordered := fun _ h => h.elim

variable (h : Labels edge root relaxed settled queued)
include h

theorem mono {relaxed' : V → V → Nat → Prop} (hsub : ∀ {x y b}, relaxed' x y b → relaxed x y b) :
    Labels edge root relaxed' settled queued :=
  { h with covered := fun hv hr => h.covered hv (hsub hr) }

/-- An edge to a settled vertex changes nothing. -/
theorem relax_settled (hw : settled w d) :
    Labels edge root (fun x y b => relaxed x y b ∨ (x = v ∧ y = w ∧ b = c)) settled queued := by
  refine { h with covered := ?_ }
  rintro x y e b hx (hr | ⟨rfl, rfl, rfl⟩)
  · exact h.covered hx hr
  · exact .inl ⟨d, hw⟩

/-- The vertex at the end of the edge gets the lower one of its old label and the new one. -/
theorem relax_queued (hv : settled v e) (hlast : ∀ {x b}, settled x b → b ≤ e)
    (hedge : edge v w c) (hw : ∀ {b}, ¬ settled w b) (hle : d ≤ e + c)
    (hd : d = e + c ∨ queued w d)
    (hq : ∀ x b, queued' x b ↔ (x ≠ w ∧ queued x b) ∨ (x = w ∧ b = d))
    (hleast : ∀ {b}, queued w b → d ≤ b) :
    Labels edge root (fun x y b => relaxed x y b ∨ (x = v ∧ y = w ∧ b = c)) settled queued' where
  origin := h.origin
  shortest := h.shortest
  path := by
    intro x b hx
    rcases (hq x b).mp hx with ⟨-, hx⟩ | ⟨rfl, rfl⟩
    · exact h.path hx
    · rcases hd with rfl | hd
      · exact .snoc (h.shortest hv).1 hedge
      · exact h.path hd
  fresh := by
    intro x b a hx
    rcases (hq x b).mp hx with ⟨-, hx⟩ | ⟨rfl, -⟩
    · exact h.fresh hx
    · exact hw
  covered := by
    have hqueued : queued' w d := (hq w d).mpr (.inr ⟨rfl, rfl⟩)
    rintro x y a b hx (hr | ⟨rfl, rfl, rfl⟩)
    · rcases h.covered hx hr with hy | ⟨b', hy, hb'⟩
      · exact .inl hy
      · by_cases heq : y = w
        · subst heq
          exact .inr ⟨d, hqueued, (hleast hy).trans hb'⟩
        · exact .inr ⟨b', (hq y b').mpr (.inl ⟨heq, hy⟩), hb'⟩
    · have : a = e := (h.shortest hx).eq (h.shortest hv)
      exact .inr ⟨d, hqueued, this ▸ hle⟩
  ordered := by
    intro x y a b hx hy
    rcases (hq y b).mp hy with ⟨-, hy⟩ | ⟨rfl, rfl⟩
    · exact h.ordered hx hy
    · rcases hd with rfl | hd
      · exact (hlast hx).trans (Nat.le_add_right _ _)
      · exact h.ordered hx hd

variable (hfull : ∀ {x y a b}, settled x a → edge x y b → relaxed x y b)
include hfull

/-- A path ends at a settled vertex, or costs at least as much as some label in the queue. -/
theorem settled_or_queued_le (hp : Path edge root v c) :
    (∃ d, settled v d ∧ d ≤ c) ∨ ∃ w d, queued w d ∧ d ≤ c := by
  induction hp with
  | root => exact .inl ⟨0, h.origin, Nat.le_refl 0⟩
  | @snoc v w d c hp hedge ih =>
    rcases ih with ⟨e, hv, hle⟩ | ⟨x, e, hx, hle⟩
    · rcases h.covered hv (hfull hv hedge) with ⟨b, hw⟩ | ⟨b, hw, hb⟩
      · exact .inl ⟨b, hw, (h.shortest hw).le (.snoc hp hedge)⟩
      · exact .inr ⟨w, b, hw, hb.trans (Nat.add_le_add_right hle c)⟩
    · exact .inr ⟨x, e, hx, hle.trans (Nat.le_add_right _ _)⟩

/-- The least label is a distance. -/
theorem shortest_of_least (hu : queued u d) (hleast : ∀ {w b}, queued w b → d ≤ b) :
    Shortest edge root u d := by
  refine ⟨h.path hu, ?_⟩
  intro c hp
  rcases h.settled_or_queued_le hfull hp with ⟨b, hb, -⟩ | ⟨w, b, hw, hle⟩
  · exact absurd hb (h.fresh hu)
  · exact (hleast hw).trans hle

/-- A vertex with the least label leaves the queue and is settled. -/
theorem settle (hu : queued u d) (hleast : ∀ {w b}, queued w b → d ≤ b)
    (hnone : ∀ {w b}, ¬ relaxed u w b) :
    Labels edge root relaxed (fun x b => settled x b ∨ (x = u ∧ b = d))
      (fun x b => x ≠ u ∧ queued x b) where
  origin := .inl h.origin
  shortest := by
    rintro x b (hx | ⟨rfl, rfl⟩)
    · exact h.shortest hx
    · exact h.shortest_of_least hfull hu hleast
  path hx := h.path hx.2
  fresh := by
    rintro x b a ⟨hne, hx⟩ (ha | ⟨rfl, -⟩)
    · exact h.fresh hx ha
    · exact hne rfl
  covered := by
    rintro x y a b (hx | ⟨rfl, rfl⟩) hr
    · rcases h.covered hx hr with ⟨b', hy⟩ | ⟨b', hy, hb'⟩
      · exact .inl ⟨b', .inl hy⟩
      · by_cases heq : y = u
        · exact .inl ⟨d, .inr ⟨heq, rfl⟩⟩
        · exact .inr ⟨b', ⟨heq, hy⟩, hb'⟩
    · exact absurd hr hnone
  ordered := by
    rintro x y a b (hx | ⟨rfl, rfl⟩) ⟨-, hy⟩
    · exact h.ordered hx hy
    · exact hleast hy

/-- With nothing left to do, the settled vertices are those that can be reached. -/
theorem settled_iff (hempty : ∀ {w b}, ¬ queued w b) :
    settled v d ↔ Shortest edge root v d := by
  refine ⟨h.shortest, ?_⟩
  intro hd
  rcases h.settled_or_queued_le hfull hd.1 with ⟨b, hb, -⟩ | ⟨w, b, hw, -⟩
  · exact hd.eq (h.shortest hb) ▸ hb
  · exact absurd hw hempty

end Labels

end ShortestPaths
