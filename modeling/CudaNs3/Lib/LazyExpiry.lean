import CudaNs3.Lib.Bindings
import Mathlib.Order.Defs.LinearOrder

/-!
# A table that forgets what is over

A table gives the end of the last sighting of each key, and drops entries that are over at some
time or other. As long as no sighting ends before an earlier one, it answers from then on as one
that remembers every sighting.
-/

namespace LazyExpiry

set_option autoImplicit false

universe u v
variable {κ : Type u} {τ : Type v} [DecidableEq κ] [LinearOrder τ]

/-- Whether the last sighting of the key is not over at `now`. -/
def held (m : List (κ × τ)) (k : κ) (now : τ) : Bool :=
  match Bindings.get Prod.fst m k with
  | some e => decide (now < e.2)
  | none => false

def sight (m : List (κ × τ)) (k : κ) (stop : τ) : List (κ × τ) :=
  Bindings.put Prod.fst m (k, stop)

/-- Drop the entries that were over before `now`. -/
def purge (m : List (κ × τ)) (now : τ) : List (κ × τ) := m.filter fun e => decide (now ≤ e.2)

/-- From `now` on the table answers for everything in `seen`. -/
structure Recalls (m : List (κ × τ)) (now : τ) (seen : List (κ × τ)) : Prop where
  distinct : Bindings.Distinct Prod.fst m
  held_iff : ∀ k t, now ≤ t → (held m k t = true ↔ ∃ e ∈ seen, e.1 = k ∧ t < e.2)

variable {m seen : List (κ × τ)} {k : κ} {e : κ × τ} {now now' stop : τ}

theorem Recalls.nil (now : τ) : Recalls ([] : List (κ × τ)) now [] where
  distinct := List.nodup_nil
  held_iff k t _ := by simp [held]

theorem Recalls.later (h : Recalls m now seen) (hle : now ≤ now') : Recalls m now' seen where
  distinct := h.distinct
  held_iff k t ht := h.held_iff k t (hle.trans ht)

theorem held_iff_mem (h : Bindings.Distinct Prod.fst m) :
    held m k now = true ↔ ∃ e ∈ m, e.1 = k ∧ now < e.2 := by
  unfold held
  constructor
  · intro hheld
    cases hget : Bindings.get Prod.fst m k with
    | none => simp [hget] at hheld
    | some e =>
      rw [hget] at hheld
      exact ⟨e, Bindings.mem_of_get hget, Bindings.key_of_get hget, of_decide_eq_true hheld⟩
  · rintro ⟨e, hmem, hk, hlt⟩
    rw [h.get_iff.mpr ⟨hmem, hk⟩]
    exact decide_eq_true hlt

/-- A sighting that ends no earlier than those before it. -/
theorem Recalls.sight (h : Recalls m now seen) (hlast : ∀ e ∈ seen, e.2 ≤ stop) :
    Recalls (sight m k stop) now (seen ++ [(k, stop)]) where
  distinct := h.distinct.put (k, stop)
  held_iff k' t ht := by
    by_cases hk : k = k'
    · subst hk
      have hget : Bindings.get Prod.fst (LazyExpiry.sight m k stop) k = some (k, stop) := by
        rw [LazyExpiry.sight, Bindings.get_put, if_pos rfl]
      rw [held, hget]
      constructor
      · intro hlt
        exact ⟨(k, stop), List.mem_append_right _ List.mem_cons_self, rfl, of_decide_eq_true hlt⟩
      · rintro ⟨e, he, -, hlt⟩
        apply decide_eq_true
        rcases List.mem_append.mp he with hold | hnew
        · exact hlt.trans_le (hlast e hold)
        · rwa [List.mem_singleton.mp hnew] at hlt
    · have hget : Bindings.get Prod.fst (LazyExpiry.sight m k stop) k' =
          Bindings.get Prod.fst m k' := by
        rw [LazyExpiry.sight, Bindings.get_put, if_neg hk]
      rw [held, hget]
      refine (h.held_iff k' t ht).trans ?_
      constructor
      · rintro ⟨e, he, hrest⟩
        exact ⟨e, List.mem_append_left _ he, hrest⟩
      · rintro ⟨e, he, hke, hlt⟩
        rcases List.mem_append.mp he with hold | hnew
        · exact ⟨e, hold, hke, hlt⟩
        · rw [List.mem_singleton.mp hnew] at hke
          exact absurd hke hk

/-- What is dropped would not be held any more. -/
theorem Recalls.purge (h : Recalls m now seen) : Recalls (purge m now) now seen where
  distinct := h.distinct.sublist (List.filter_sublist.map _)
  held_iff k t ht := by
    have hdistinct : Bindings.Distinct Prod.fst (LazyExpiry.purge m now) :=
      h.distinct.sublist (List.filter_sublist.map _)
    rw [← h.held_iff k t ht, held_iff_mem hdistinct, held_iff_mem h.distinct]
    constructor
    · rintro ⟨e, he, hrest⟩
      exact ⟨e, (List.mem_filter.mp he).1, hrest⟩
    · rintro ⟨e, he, hk, hlt⟩
      exact ⟨e, List.mem_filter.mpr ⟨he, decide_eq_true (ht.trans hlt.le)⟩, hk, hlt⟩

end LazyExpiry
