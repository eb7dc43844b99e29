import CudaNs3.Lib.Transition

/-!
# While loops

A loop is a test and a body. It halts if some state it visits fails the test, which is so if
every turn that is followed by another makes a measure smaller; a turn that changes nothing is
repeated for ever.
-/

namespace CudaNs3.WhileLoops

set_option autoImplicit false

universe u
variable {σ : Type u} {test : σ → Bool} {body : σ → σ} {size : σ → Nat} {s t v : σ}

/-- One turn of the loop. -/
def Turn (test : σ → Bool) (body : σ → σ) (s t : σ) : Prop := test s = true ∧ t = body s

/-- The states at the head of the loop. -/
def Visits (test : σ → Bool) (body : σ → σ) : σ → σ → Prop :=
  Relation.ReflTransGen (Turn test body)

/-- The loop that starts in `s` ends in `t`. -/
def Ends (test : σ → Bool) (body : σ → σ) (s t : σ) : Prop :=
  Visits test body s t ∧ test t = false

def Halts (test : σ → Bool) (body : σ → σ) (s : σ) : Prop := ∃ t, Ends test body s t

/-- Every turn after which the loop goes on makes the measure smaller. -/
def Progress (test : σ → Bool) (body : σ → σ) (size : σ → Nat) (s : σ) : Prop :=
  ∀ t, Visits test body s t → test t = true → test (body t) = true → size (body t) < size t

theorem visits_turn (h : test s = true) (hv : Visits test body (body s) t) :
    Visits test body s t :=
  Relation.ReflTransGen.head ⟨h, rfl⟩ hv

theorem visits_cases (h : Visits test body s t) :
    t = s ∨ test s = true ∧ Visits test body (body s) t := by
  rcases Relation.ReflTransGen.cases_head h with rfl | ⟨v, ⟨htest, rfl⟩, hv⟩
  · exact Or.inl rfl
  · exact Or.inr ⟨htest, hv⟩

theorem ends_exit (h : test s = false) : Ends test body s t ↔ t = s := by
  constructor
  · rintro ⟨hv, -⟩
    rcases visits_cases hv with heq | ⟨htest, -⟩
    · exact heq
    · exact absurd (h.symm.trans htest) Bool.false_ne_true
  · rintro rfl
    exact ⟨Relation.ReflTransGen.refl, h⟩

theorem ends_turn (h : test s = true) : Ends test body s t ↔ Ends test body (body s) t := by
  constructor
  · rintro ⟨hv, ht⟩
    rcases visits_cases hv with rfl | ⟨-, hv⟩
    · exact absurd (ht.symm.trans h) Bool.false_ne_true
    · exact ⟨hv, ht⟩
  · rintro ⟨hv, ht⟩
    exact ⟨visits_turn h hv, ht⟩

theorem halts_exit (h : test s = false) : Halts test body s := ⟨s, (ends_exit h).mpr rfl⟩

theorem halts_turn (h : test s = true) : Halts test body s ↔ Halts test body (body s) :=
  exists_congr fun _ => ends_turn h

/-- A turn that changes nothing is repeated for ever. -/
theorem not_halts_of_fixed (h : test s = true) (hfixed : body s = s) :
    ¬ Halts test body s := by
  rintro ⟨t, hv, ht⟩
  have hstay : t = s :=
    Transition.run_invariant (P := fun v => v = s)
      (fun v w hvs hturn => by rw [hturn.2, hvs, hfixed]) rfl hv
  rw [hstay, h] at ht
  exact Bool.false_ne_true ht.symm

theorem progress_exit (h : test s = false) : Progress test body size s := by
  intro t hv ht
  rcases visits_cases hv with rfl | ⟨htest, -⟩
  · exact absurd (h.symm.trans ht) Bool.false_ne_true
  · exact absurd (h.symm.trans htest) Bool.false_ne_true

theorem progress_turn (h : test s = true) : Progress test body size s ↔
    (test (body s) = true → size (body s) < size s) ∧ Progress test body size (body s) := by
  constructor
  · intro hp
    exact ⟨hp s Relation.ReflTransGen.refl h, fun t hv => hp t (visits_turn h hv)⟩
  · rintro ⟨hfirst, hrest⟩ t hv ht
    rcases visits_cases hv with rfl | ⟨-, hv⟩
    · exact hfirst
    · exact hrest t hv ht

theorem halts_of_progress (hp : Progress test body size s) : Halts test body s := by
  induction hn : size s using Nat.strongRecOn generalizing s with
  | ind n ih =>
    cases h : test s with
    | false => exact halts_exit h
    | true =>
      obtain ⟨hless, hrest⟩ := (progress_turn h).mp hp
      rw [halts_turn h]
      cases hnext : test (body s) with
      | false => exact halts_exit hnext
      | true => exact ih _ (hn ▸ hless hnext) hrest rfl

/-- The loop halts, and makes progress as long as it runs. -/
def Steady (test : σ → Bool) (body : σ → σ) (size : σ → Nat) (s : σ) : Prop :=
  Halts test body s ∧ Progress test body size s

theorem steady_exit (h : test s = false) : Steady test body size s :=
  ⟨halts_exit h, progress_exit h⟩

theorem steady_turn (h : test s = true)
    (hless : test (body s) = true → size (body s) < size s) :
    Steady test body size s ↔ Steady test body size (body s) := by
  rw [Steady, Steady, halts_turn h, progress_turn h]
  exact ⟨fun ⟨hh, _, hp⟩ => ⟨hh, hp⟩, fun ⟨hh, hp⟩ => ⟨hh, hless, hp⟩⟩

theorem not_steady_of_fixed (h : test s = true) (hfixed : body s = s) :
    ¬ Steady test body size s :=
  fun hs => not_halts_of_fixed h hfixed hs.1

end CudaNs3.WhileLoops
