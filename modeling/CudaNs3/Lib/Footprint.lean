import Mathlib.Algebra.Group.Basic
import Mathlib.Data.Set.Basic

/-!
# Steps with a footprint

The state is seen through places and a counter. A step is confined to the places it reads
and writes if it changes all states that agree where it reads in one way, place by place.
Confined steps none of which writes what another reads or writes can be taken in any order.
-/

namespace Footprint

set_option autoImplicit false

universe u v w x y z

/-- A state is the values of its places together with a counter. -/
structure View (σ : Type u) (ι : Type v) (V : ι → Type w) (κ : Type x) where
  get : σ → (i : ι) → V i
  count : σ → κ
  ext : ∀ s t, get s = get t → count s = count t → s = t

variable {σ : Type u} {ι : Type v} {V : ι → Type w} {κ : Type x} {α : Type y} {ω ω' : Type z}

namespace View
variable (v : View σ ι V κ)

def Agree (R : Set ι) (s t : σ) : Prop := ∀ i ∈ R, v.get s i = v.get t i

namespace Agree
variable {v} {R R' : Set ι} {r s t : σ}

theorem refl (R : Set ι) (s : σ) : v.Agree R s s := fun _ _ => rfl

theorem trans (h : v.Agree R s t) (h' : v.Agree R t r) : v.Agree R s r :=
  fun i hi => (h i hi).trans (h' i hi)

theorem mono (h : v.Agree R s t) (hsub : R' ⊆ R) : v.Agree R' s t :=
  fun i hi => h i (hsub hi)

end Agree

variable [AddCommMonoid κ]

/-- Each place of `W` gets a value that depends on its old one only, and the others keep
theirs; the counter is added to. -/
structure Patch (W : Set ι) (g : σ → σ) : Prop where
  pointwise : ∀ i s t, v.get s i = v.get t i → v.get (g s) i = v.get (g t) i
  frame : ∀ i, i ∉ W → ∀ s, v.get (g s) i = v.get s i
  adds : ∃ n, ∀ s, v.count (g s) = v.count s + n

/-- All states that agree with `s` on `R` have the same outcome: no step, or one patch of `W`
and one output. -/
def Confined (f : σ → Option (σ × ω)) (s : σ) (R W : Set ι) : Prop :=
  (∀ t, v.Agree R s t → f t = none) ∨
    ∃ g o, v.Patch W g ∧ ∀ t, v.Agree R s t → f t = some (g t, o)

variable {v} {R R' W W' : Set ι} {s t : σ} {g g' : σ → σ}

namespace Patch

theorem id : v.Patch ∅ (fun s => s) where
  pointwise _ _ _ h := h
  frame _ _ _ := rfl
  adds := ⟨0, fun _ => (add_zero _).symm⟩

theorem comp (h' : v.Patch W' g') (h : v.Patch W g) : v.Patch (W ∪ W') fun s => g' (g s) where
  pointwise i s t hi := h'.pointwise i _ _ (h.pointwise i s t hi)
  frame i hi s := by
    have hW : i ∉ W := fun hmem => hi (Or.inl hmem)
    have hW' : i ∉ W' := fun hmem => hi (Or.inr hmem)
    rw [h'.frame i hW', h.frame i hW]
  adds := by
    obtain ⟨n, hn⟩ := h.adds
    obtain ⟨n', hn'⟩ := h'.adds
    exact ⟨n + n', fun s => by rw [hn', hn, add_assoc]⟩

theorem mono (h : v.Patch W g) (hsub : W ⊆ W') : v.Patch W' g where
  pointwise := h.pointwise
  frame i hi := h.frame i fun hmem => hi (hsub hmem)
  adds := h.adds

theorem agree (h : v.Patch W g) (hst : v.Agree R s t) : v.Agree R (g s) (g t) :=
  fun i hi => h.pointwise i s t (hst i hi)

theorem agree_self (h : v.Patch W g) (hdisj : ∀ i ∈ W, i ∉ R) (s : σ) : v.Agree R s (g s) :=
  fun i hi => (h.frame i (fun hW => hdisj i hW hi) s).symm

theorem commute (h : v.Patch W g) (h' : v.Patch W' g') (hdisj : ∀ i ∈ W, i ∉ W') (s : σ) :
    g' (g s) = g (g' s) := by
  apply v.ext
  · funext i
    by_cases hi : i ∈ W
    · have hi' : i ∉ W' := hdisj i hi
      rw [h'.frame i hi']
      exact h.pointwise i s (g' s) (h'.frame i hi' s).symm
    · rw [h.frame i hi]
      exact h'.pointwise i (g s) s (h.frame i hi s)
  · obtain ⟨n, hn⟩ := h.adds
    obtain ⟨n', hn'⟩ := h'.adds
    rw [hn', hn, hn, hn', add_right_comm]

end Patch

namespace Confined
variable {f : σ → Option (σ × ω)}

theorem of_patch {o : ω} (h : v.Patch W g) (hf : ∀ t, v.Agree R s t → f t = some (g t, o)) :
    v.Confined f s R W := Or.inr ⟨g, o, h, hf⟩

theorem mono (h : v.Confined f s R W) (hR : R ⊆ R') (hW : W ⊆ W') : v.Confined f s R' W' := by
  rcases h with hnone | ⟨g, o, hg, hf⟩
  · exact Or.inl fun t ht => hnone t (ht.mono hR)
  · exact Or.inr ⟨g, o, hg.mono hW, fun t ht => hf t (ht.mono hR)⟩

theorem transport (h : v.Confined f s R W) (hst : v.Agree R s t) : v.Confined f t R W := by
  rcases h with hnone | ⟨g, o, hg, hf⟩
  · exact Or.inl fun r hr => hnone r (hst.trans hr)
  · exact Or.inr ⟨g, o, hg, fun r hr => hf r (hst.trans hr)⟩

theorem congr {f' : σ → Option (σ × ω)} (h : v.Confined f s R W)
    (hf : ∀ t, v.Agree R s t → f' t = f t) : v.Confined f' s R W := by
  rcases h with hnone | ⟨g, o, hg, hsome⟩
  · exact Or.inl fun t ht => (hf t ht).trans (hnone t ht)
  · exact Or.inr ⟨g, o, hg, fun t ht => (hf t ht).trans (hsome t ht)⟩

theorem map (h : v.Confined f s R W) (k : ω → ω') :
    v.Confined (fun t => (f t).map fun r => (r.1, k r.2)) s R W := by
  rcases h with hnone | ⟨g, o, hg, hf⟩
  · exact Or.inl fun t ht => by simp only [hnone t ht, Option.map_none]
  · exact Or.inr ⟨g, k o, hg, fun t ht => by simp only [hf t ht, Option.map_some]⟩

/-- A second step from where the first one leads, which may use its output. -/
theorem bind {k : ω → σ → Option (σ × ω')} (h : v.Confined f s R W)
    (hk : ∀ s' o, f s = some (s', o) → v.Confined (k o) s' R' W') :
    v.Confined (fun t => (f t).bind fun r => k r.2 r.1) s (R ∪ R') (W ∪ W') := by
  rcases h with hnone | ⟨g, o, hg, hf⟩
  · refine Or.inl fun t ht => ?_
    simp only [hnone t (ht.mono Set.subset_union_left), Option.bind_none]
  · have hfirst (t : σ) (ht : v.Agree (R ∪ R') s t) :
        ((f t).bind fun r => k r.2 r.1) = k o (g t) := by
      simp only [hf t (ht.mono Set.subset_union_left), Option.bind_some]
    have hagree (t : σ) (ht : v.Agree (R ∪ R') s t) : v.Agree R' (g s) (g t) :=
      hg.agree (ht.mono Set.subset_union_right)
    rcases hk _ _ (hf s (.refl R s)) with hnone' | ⟨g', o', hg', hf'⟩
    · exact Or.inl fun t ht => (hfirst t ht).trans (hnone' _ (hagree t ht))
    · exact Or.inr ⟨fun t => g' (g t), o', hg'.comp hg, fun t ht =>
        (hfirst t ht).trans (hf' _ (hagree t ht))⟩

theorem after {f' : σ → Option (σ × ω')} {o : ω} (h' : v.Confined f' s R' W')
    (h : v.Confined f s R W) (hdisj : ∀ i ∈ W, i ∉ R') (ht : f s = some (t, o)) :
    v.Confined f' t R' W' := by
  rcases h with hnone | ⟨g, o', hg, hf⟩
  · rw [hnone s (.refl R s)] at ht
    contradiction
  · rw [hf s (.refl R s)] at ht
    obtain ⟨rfl, _⟩ := Prod.mk.inj (Option.some.inj ht)
    exact h'.transport (hg.agree_self hdisj s)

end Confined

end View

section Run
variable [AddCommMonoid κ] [AddCommMonoid ω] (f : α → σ → Option (σ × ω))

/-- One step after the other, with all they put out. -/
def run : σ → List α → Option (σ × ω)
  | s, [] => some (s, 0)
  | s, a :: l => (f a s).bind fun r => (run r.1 l).map fun q => (q.1, r.2 + q.2)

def Apart (R W R' W' : Set ι) : Prop :=
  (∀ i ∈ W, i ∉ R' ∧ i ∉ W') ∧ ∀ i ∈ W', i ∉ R ∧ i ∉ W

variable {f} {v : View σ ι V κ} {R W : α → Set ι}

theorem run_swap {a b : α} {s : σ} (ha : v.Confined (f a) s (R a) (W a))
    (hb : v.Confined (f b) s (R b) (W b)) (hapart : Apart (R a) (W a) (R b) (W b)) (l : List α) :
    run f s (a :: b :: l) = run f s (b :: a :: l) := by
  obtain ⟨hW, hW'⟩ := hapart
  have hread : ∀ i ∈ W a, i ∉ R b := fun i hi => (hW i hi).1
  have hread' : ∀ i ∈ W b, i ∉ R a := fun i hi => (hW' i hi).1
  rcases ha with hnone | ⟨g, o, hg, hf⟩ <;> rcases hb with hnone' | ⟨g', o', hg', hf'⟩
  · simp only [run, hnone s (.refl _ s), hnone' s (.refl _ s), Option.bind_none]
  · -- the step that cannot be taken cannot be taken after the other one either
    have hstuck := hnone _ (hg'.agree_self hread' s)
    simp only [run, hnone s (.refl _ s), hf' s (.refl _ s), hstuck, Option.bind_none,
      Option.bind_some, Option.map_none]
  · have hstuck := hnone' _ (hg.agree_self hread s)
    simp only [run, hnone' s (.refl _ s), hf s (.refl _ s), hstuck, Option.bind_none,
      Option.bind_some, Option.map_none]
  · have hafter := hf' _ (hg.agree_self hread s)
    have hafter' := hf _ (hg'.agree_self hread' s)
    simp only [run, hf s (.refl _ s), hf' s (.refl _ s), hafter, hafter', Option.bind_some,
      hg.commute hg' (fun i hi => (hW i hi).2) s]
    cases run f (g (g' s)) l with
    | none => rfl
    | some r => simp only [Option.map_some, add_left_comm]

theorem run_perm {l l' : List α} (h : l.Perm l') {s : σ}
    (hconf : ∀ a ∈ l, v.Confined (f a) s (R a) (W a))
    (hapart : l.Pairwise fun a b => Apart (R a) (W a) (R b) (W b)) :
    run f s l = run f s l' := by
  induction h generalizing s with
  | nil => rfl
  | cons a _ ih =>
    obtain ⟨ha, hapart⟩ := List.pairwise_cons.mp hapart
    cases hstep : f a s with
    | none => simp only [run, hstep, Option.bind_none]
    | some r =>
      have hrest := ih (s := r.1) (fun b hb =>
        (hconf b (List.mem_cons_of_mem _ hb)).after (hconf a List.mem_cons_self)
          (fun i hi => ((ha b hb).1 i hi).1) hstep) hapart
      simp only [run, hstep, Option.bind_some, hrest]
  | swap a b l =>
    have hba := (List.pairwise_cons.mp hapart).1 a List.mem_cons_self
    exact run_swap (hconf b List.mem_cons_self)
      (hconf a (List.mem_cons_of_mem _ List.mem_cons_self)) hba l
  | trans h _ ih ih' =>
    refine (ih hconf hapart).trans (ih' (fun a ha => hconf a (h.mem_iff.mpr ha)) ?_)
    exact h.pairwise hapart fun hab => ⟨hab.2, hab.1⟩

end Run

end Footprint
