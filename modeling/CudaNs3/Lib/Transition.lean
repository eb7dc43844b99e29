import Mathlib.Logic.Relation

/-!
# Runs of a transition system

The induction rules the run theorems of this development use: for a step relation, and for a
partial step function driven by a list of operations.
-/

namespace Transition

set_option autoImplicit false

universe u v
variable {σ : Type u} {ι : Type v}

/-- A property every step keeps holds at the end of a run that starts in it. -/
theorem run_invariant {step : σ → σ → Prop} {P : σ → Prop}
    (keep : ∀ s t, P s → step s t → P t) {s t : σ} (hs : P s)
    (hr : Relation.ReflTransGen step s t) : P t := by
  induction hr with
  | refl => exact hs
  | tail _ h ih => exact keep _ _ ih h

/-- Perform the operations in order; `none` as soon as one cannot be performed. -/
def exec (f : σ → ι → Option σ) : σ → List ι → Option σ
  | s, [] => some s
  | s, i :: is => (f s i).bind fun t => exec f t is

variable {f : σ → ι → Option σ}

@[simp] theorem exec_nil (s : σ) : exec f s [] = some s := rfl

theorem exec_cons_eq_some {s u : σ} {i : ι} {is : List ι} :
    exec f s (i :: is) = some u ↔ ∃ t, f s i = some t ∧ exec f t is = some u := by
  simp only [exec, Option.bind_eq_some_iff]

theorem exec_append {s u : σ} {is js : List ι} :
    exec f s (is ++ js) = some u ↔ ∃ t, exec f s is = some t ∧ exec f t js = some u := by
  induction is generalizing s with
  | nil => simp
  | cons i is ih =>
    simp only [List.cons_append, exec_cons_eq_some, ih]
    constructor
    · rintro ⟨t, ht, v, hv, hu⟩
      exact ⟨v, ⟨t, ht, hv⟩, hu⟩
    · rintro ⟨v, ⟨t, ht, hv⟩, hu⟩
      exact ⟨t, ht, v, hv, hu⟩

theorem exec_invariant {P : σ → Prop} (keep : ∀ s i t, P s → f s i = some t → P t)
    {s t : σ} {is : List ι} (hs : P s) (h : exec f s is = some t) : P t := by
  induction is generalizing s with
  | nil =>
    obtain rfl := Option.some.inj h
    exact hs
  | cons i is ih =>
    obtain ⟨u, hu, hrest⟩ := exec_cons_eq_some.mp h
    exact ih (keep s i u hs hu) hrest

/-- What the run computes as seen through `view`, where every step is one of `g` in that view. -/
theorem exec_refines {τ : Type*} {P : σ → Prop} {view : σ → τ} {g : τ → ι → τ}
    (keep : ∀ s i t, P s → f s i = some t → P t ∧ view t = g (view s) i) {s t : σ} {is : List ι}
    (hs : P s) (h : exec f s is = some t) : P t ∧ view t = is.foldl g (view s) := by
  induction is generalizing s with
  | nil =>
    obtain rfl := Option.some.inj h
    exact ⟨hs, rfl⟩
  | cons i is ih =>
    obtain ⟨u, hu, hrest⟩ := exec_cons_eq_some.mp h
    obtain ⟨hPu, hview⟩ := keep s i u hs hu
    rw [List.foldl_cons, ← hview]
    exact ih hPu hrest

/-- Every operation of the run meets `P` in the state in which it is performed. -/
def Along (f : σ → ι → Option σ) (P : σ → ι → Prop) : σ → List ι → Prop
  | _, [] => True
  | s, i :: is => P s i ∧ ∀ t, f s i = some t → Along f P t is

instance Along.decidable {P : σ → ι → Prop} [∀ s i, Decidable (P s i)] :
    (s : σ) → (is : List ι) → Decidable (Along f P s is)
  | _, [] => .isTrue trivial
  | s, i :: is =>
    have := fun t => Along.decidable (P := P) t is
    inferInstanceAs (Decidable (P s i ∧ ∀ t ∈ f s i, Along f P t is))

/-- A property every allowed step keeps holds at the end of a run of such steps. -/
theorem along_invariant {P : σ → Prop} {Q : σ → ι → Prop}
    (keep : ∀ s i t, P s → Q s i → f s i = some t → P t) {s t : σ} {is : List ι} (hs : P s)
    (h : Along f Q s is) (hexec : exec f s is = some t) : P t := by
  induction is generalizing s with
  | nil =>
    obtain rfl := Option.some.inj hexec
    exact hs
  | cons i is ih =>
    obtain ⟨hi, hrest⟩ := h
    obtain ⟨u, hu, hexec⟩ := exec_cons_eq_some.mp hexec
    exact ih (keep s i u hs hi hu) (hrest u hu) hexec

/-- A run whose operations are all allowed is performed to its end, and computes `g`. -/
theorem exec_along {τ : Type*} (P : σ → Prop) {Q : σ → ι → Prop} (view : σ → τ)
    (g : τ → ι → τ)
    (keep : ∀ s i, P s → Q s i → ∃ t, f s i = some t ∧ P t ∧ view t = g (view s) i) {s : σ}
    {is : List ι} (hs : P s) (h : Along f Q s is) :
    ∃ t, exec f s is = some t ∧ P t ∧ view t = is.foldl g (view s) := by
  induction is generalizing s with
  | nil => exact ⟨s, rfl, hs, rfl⟩
  | cons i is ih =>
    obtain ⟨hi, hrest⟩ := h
    obtain ⟨u, hu, hPu, hview⟩ := keep s i hs hi
    obtain ⟨t, ht, hPt, hfold⟩ := ih hPu (hrest u hu)
    refine ⟨t, exec_cons_eq_some.mpr ⟨u, hu, ht⟩, hPt, ?_⟩
    rw [List.foldl_cons, ← hview]
    exact hfold

/-- The same where the two sides are related, and what is allowed is said of the other side. -/
theorem exec_simulates {τ : Type*} {R : σ → τ → Prop} {Q : τ → ι → Prop} {g : τ → ι → τ}
    (keep : ∀ s t i, R s t → Q t i → ∃ s', f s i = some s' ∧ R s' (g t i)) {s : σ} {t : τ}
    {is : List ι} (hs : R s t) (h : Along (fun t i => some (g t i)) Q t is) :
    ∃ s', exec f s is = some s' ∧ R s' (is.foldl g t) := by
  induction is generalizing s t with
  | nil => exact ⟨s, rfl, hs⟩
  | cons i is ih =>
    obtain ⟨hi, hrest⟩ := h
    obtain ⟨u, hu, hR⟩ := keep s t i hs hi
    obtain ⟨s', hs', hR'⟩ := ih hR (hrest _ rfl)
    exact ⟨s', exec_cons_eq_some.mpr ⟨u, hu, hs'⟩, hR'⟩

/-- The same where what is allowed is said of the first side. -/
theorem exec_related {τ : Type*} {R : σ → τ → Prop} {Q : σ → ι → Prop} {g : τ → ι → τ}
    (keep : ∀ s t i, R s t → Q s i → ∃ s', f s i = some s' ∧ R s' (g t i)) {s : σ} {t : τ}
    {is : List ι} (hs : R s t) (h : Along f Q s is) :
    ∃ s', exec f s is = some s' ∧ R s' (is.foldl g t) := by
  induction is generalizing s t with
  | nil => exact ⟨s, rfl, hs⟩
  | cons i is ih =>
    obtain ⟨hi, hrest⟩ := h
    obtain ⟨u, hu, hR⟩ := keep s t i hs hi
    obtain ⟨s', hs', hR'⟩ := ih hR (hrest u hu)
    exact ⟨s', exec_cons_eq_some.mpr ⟨u, hu, hs'⟩, hR'⟩

/-! ### Total steps -/

/-- `P` holds in every state of the run. -/
def Throughout (g : σ → ι → σ) (P : σ → Prop) : σ → List ι → Prop
  | s, [] => P s
  | s, i :: is => P s ∧ Throughout g P (g s i) is

/-- Every operation of the run meets `Q` in the state in which it is performed. -/
def Each (g : σ → ι → σ) (Q : σ → ι → Prop) : σ → List ι → Prop
  | _, [] => True
  | s, i :: is => Q s i ∧ Each g Q (g s i) is

instance Throughout.decidable {g : σ → ι → σ} {P : σ → Prop} [DecidablePred P] :
    (s : σ) → (is : List ι) → Decidable (Throughout g P s is)
  | s, [] => inferInstanceAs (Decidable (P s))
  | s, i :: is =>
    have := Throughout.decidable (g := g) (P := P) (g s i) is
    inferInstanceAs (Decidable (P s ∧ Throughout g P (g s i) is))

instance Each.decidable {g : σ → ι → σ} {Q : σ → ι → Prop} [∀ s i, Decidable (Q s i)] :
    (s : σ) → (is : List ι) → Decidable (Each g Q s is)
  | _, [] => .isTrue trivial
  | s, i :: is =>
    have := Each.decidable (g := g) (Q := Q) (g s i) is
    inferInstanceAs (Decidable (Q s i ∧ Each g Q (g s i) is))

theorem throughout_foldl {g : σ → ι → σ} {P : σ → Prop} {s : σ} {is : List ι}
    (h : Throughout g P s is) : P (is.foldl g s) := by
  induction is generalizing s with
  | nil => exact h
  | cons i is ih => exact ih h.2

/-- A condition that says exactly when one step keeps `P` says exactly when a run does. -/
theorem throughout_iff_each {g : σ → ι → σ} {I P : σ → Prop} {Q : σ → ι → Prop}
    (keep : ∀ s i, I s → I (g s i)) (exact : ∀ s i, I s → P s → (P (g s i) ↔ Q s i)) {s : σ}
    (hI : I s) (hP : P s) (is : List ι) : Throughout g P s is ↔ Each g Q s is := by
  induction is generalizing s with
  | nil => exact ⟨fun _ => trivial, fun _ => hP⟩
  | cons i is ih =>
    constructor
    · rintro ⟨_, hrest⟩
      have hnext : P (g s i) := by
        cases is with
        | nil => exact hrest
        | cons j js => exact hrest.1
      exact ⟨(exact s i hI hP).mp hnext, (ih (keep s i hI) hnext).mp hrest⟩
    · rintro ⟨hi, hrest⟩
      have hnext : P (g s i) := (exact s i hI hP).mpr hi
      exact ⟨hP, (ih (keep s i hI) hnext).mpr hrest⟩

/-! ### Steps with an answer -/

/-- The answers to the operations in order; `none` as soon as one cannot be performed. -/
def answers {ω : Type*} (f : σ → ι → Option (ω × σ)) : σ → List ι → Option (List ω)
  | _, [] => some []
  | s, i :: is => (f s i).bind fun r => (answers f r.2 is).map (r.1 :: ·)

/-- A system whose steps answer as those of a total one do answers a whole run so. -/
theorem answers_refines {ω τ : Type*} {f : σ → ι → Option (ω × σ)} {g : τ → ι → ω × τ}
    {R : σ → τ → Prop} (keep : ∀ s t i r, R s t → f s i = some r →
      r.1 = (g t i).1 ∧ R r.2 (g t i).2) {s : σ} {t : τ} {is : List ι} {os : List ω} (hR : R s t)
    (h : answers f s is = some os) : answers (fun t i => some (g t i)) t is = some os := by
  induction is generalizing s t os with
  | nil => exact h
  | cons i is ih =>
    obtain ⟨r, hr, h⟩ := Option.bind_eq_some_iff.mp h
    obtain ⟨rest, hrest, rfl⟩ := Option.map_eq_some_iff.mp h
    obtain ⟨hanswer, hR⟩ := keep s t i r hR hr
    change (answers (fun t i => some (g t i)) (g t i).2 is).map ((g t i).1 :: ·) = _
    rw [ih hR hrest, hanswer]
    rfl

theorem isSome_answers {ω : Type*} {f : σ → ι → Option (ω × σ)} {P : σ → Prop}
    (keep : ∀ s i, P s → ∃ r, f s i = some r ∧ P r.2) {s : σ} (hs : P s) (is : List ι) :
    (answers f s is).isSome = true := by
  induction is generalizing s with
  | nil => rfl
  | cons i is ih =>
    obtain ⟨r, hr, hP⟩ := keep s i hs
    have hrest := ih hP
    change ((f s i).bind fun r => (answers f r.2 is).map (r.1 :: ·)).isSome = true
    rw [hr, Option.bind_some, Option.isSome_map]
    exact hrest

end Transition
