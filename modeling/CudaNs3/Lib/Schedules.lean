import Mathlib.Logic.Function.Basic
import Mathlib.Order.Basic

/-!
# Fair schedules

Threads take steps in an order that is arbitrary but for fairness: every thread has its turn
again and again. A measure that falls with each step that is not idle brings all of them to
rest; and an adversary who looks at the state may be turned into a schedule.
-/

namespace Schedules

set_option autoImplicit false

universe u v
variable {σ : Type u} {τ : Type v} (step : σ → τ → σ)

def run (s : σ) (order : Nat → τ) : Nat → σ
  | 0 => s
  | k + 1 => step (run s order k) (order k)

/-- Every thread has a turn after any time. -/
def Fair (order : Nat → τ) : Prop := ∀ t k, ∃ j, k ≤ j ∧ order j = t

variable {step} {s : σ} {order : Nat → τ}

theorem run_add (j k : Nat) :
    run step s order (j + k) = run step (run step s order j) (fun i => order (j + i)) k := by
  induction k with
  | zero => rfl
  | succ k ih =>
    rw [← Nat.add_assoc, run, ih]
    rfl

theorem Fair.shift (h : Fair order) (j : Nat) : Fair fun i => order (j + i) := by
  intro t k
  obtain ⟨i, hi, ht⟩ := h t (j + k)
  refine ⟨i - j, by omega, ?_⟩
  change order (j + (i - j)) = t
  rw [Nat.add_sub_cancel' (by omega), ht]

/-- A property every step keeps holds at all times. -/
theorem run_invariant {P : σ → Prop} (keep : ∀ s t, P s → P (step s t)) (hs : P s)
    (order : Nat → τ) (k : Nat) :
    P (run step s order k) := by
  induction k with
  | zero => exact hs
  | succ k ih => exact keep _ _ ih

theorem eventually_idle {P : σ → Prop} (active : σ → τ → Prop) (measure : σ → Nat)
    (idle : ∀ s t, ¬ active s t → step s t = s)
    (falls : ∀ s t, P s → active s t → P (step s t) ∧ measure (step s t) < measure s)
    (hfair : Fair order) (hs : P s) : ∃ k, ∀ t, ¬ active (run step s order k) t := by
  induction hm : measure s using Nat.strongRecOn generalizing s order with
  | ind m ih =>
    by_cases hdone : ∀ t, ¬ active s t
    · exact ⟨0, hdone⟩
    obtain ⟨t, ht⟩ := not_forall_not.mp hdone
    -- until the thread has its turn, nothing happens or the measure falls
    have hwait (k : Nat) : run step s order k = s ∨
        P (run step s order k) ∧ measure (run step s order k) < measure s := by
      induction k with
      | zero => exact Or.inl rfl
      | succ k ihk =>
        rw [run]
        by_cases hact : active (run step s order k) (order k)
        · right
          rcases ihk with heq | ⟨hP, hlt⟩
          · rw [heq] at hact ⊢
            exact falls s _ hs hact
          · obtain ⟨hP', hlt'⟩ := falls _ _ hP hact
            exact ⟨hP', Nat.lt_trans hlt' hlt⟩
        · rw [idle _ _ hact]
          exact ihk
    obtain ⟨j, -, hj⟩ := hfair t 0
    have hlater : ∃ i, P (run step s order i) ∧ measure (run step s order i) < measure s := by
      rcases hwait j with heq | hlt
      · refine ⟨j + 1, ?_⟩
        rw [run, heq, hj]
        exact falls s t hs ht
      · exact ⟨j, hlt⟩
    obtain ⟨i, hP, hlt⟩ := hlater
    obtain ⟨k, hk⟩ := ih _ (hm ▸ hlt) (hfair.shift i) hP rfl
    refine ⟨i + k, ?_⟩
    rw [run_add]
    exact hk

/-- The order that arises when each turn is given by the time and the state reached. -/
theorem exists_order (step : σ → τ → σ) (pick : Nat → σ → τ) (s : σ) :
    ∃ order : Nat → τ, ∀ k, order k = pick k (run step s order k) := by
  let states : Nat → σ := fun k => k.rec s fun k s => step s (pick k s)
  refine ⟨fun k => pick k (states k), ?_⟩
  intro k
  have hrun : run step s (fun k => pick k (states k)) k = states k := by
    induction k with
    | zero => rfl
    | succ k ih => rw [run, ih]
  rw [hrun]

/-- A fair order may be given some first turn. -/
theorem exists_order_cons (step : σ → τ → σ) (s : σ) (h : Fair order) (t : τ) :
    ∃ order' : Nat → τ, Fair order' ∧
      ∀ k, run step s order' (k + 1) = run step (step s t) order k := by
  refine ⟨fun k => k.casesOn t order, ?_, ?_⟩
  · intro u k
    obtain ⟨j, hj, hu⟩ := h u k
    exact ⟨j + 1, by omega, hu⟩
  · intro k
    induction k with
    | zero => rfl
    | succ k ih =>
      rw [run, ih]
      rfl

/-- Turns in a circle are fair. -/
theorem fair_mod {n : Nat} (hn : 0 < n) : Fair fun k => (⟨k % n, Nat.mod_lt k hn⟩ : Fin n) := by
  intro t k
  refine ⟨t + n * k, ?_, ?_⟩
  · have hle : k ≤ n * k := Nat.le_mul_of_pos_left k hn
    omega
  · apply Fin.ext
    change (t + n * k) % n = t
    rw [Nat.add_mul_mod_self_left, Nat.mod_eq_of_lt t.isLt]

end Schedules
