import Mathlib.Logic.Function.Basic

/-!
# Tokens with one owner

Holders refer to tokens, some of which are live. A token is taken from its only holder,
or claimed when it is not live; while it is in hand nobody refers to it; then it is put
somewhere or given up. `holds i a` counts the references of the holder `i` to `a`.
-/

namespace Custody

set_option autoImplicit false

universe u v
variable {ι : Type u} {α : Type v}

def Sole (f : ι → Nat) : Prop := ∃ i, f i = 1 ∧ ∀ j, j ≠ i → f j = 0

/-- One reference to the token if it is live, none if it is not. -/
structure Kept (live : α → Bool) (holds : ι → α → Nat) (a : α) : Prop where
  sole : live a = true → Sole fun i => holds i a
  free : live a = false → ∀ i, holds i a = 0

def Owned (live : α → Bool) (holds : ι → α → Nat) : Prop := ∀ a, Kept live holds a

/-- Nobody refers to `a`, and all other tokens are kept. -/
structure InHand (a : α) (live : α → Bool) (holds : ι → α → Nat) : Prop where
  nobody : ∀ i, holds i a = 0
  others : ∀ b, b ≠ a → Kept live holds b

variable {live live' : α → Bool} {holds holds' : ι → α → Nat} {a : α}

theorem Kept.live_iff (h : Kept live holds a) : live a = true ↔ Sole fun i => holds i a := by
  refine ⟨h.sole, fun hsole => ?_⟩
  by_contra hlive
  obtain ⟨i, hi, _⟩ := hsole
  have hzero := h.free (by simpa using hlive) i
  exact Nat.one_ne_zero (hi.symm.trans hzero)

theorem Kept.congr (h : Kept live holds a) (hlive : live' a = live a)
    (hholds : ∀ i, holds' i a = holds i a) : Kept live' holds' a := by
  refine ⟨fun hl => ?_, fun hl i => ?_⟩
  · obtain ⟨i, hi, hj⟩ := h.sole (hlive ▸ hl)
    exact ⟨i, (hholds i).trans hi, fun j hne => (hholds j).trans (hj j hne)⟩
  · exact (hholds i).trans (h.free (hlive ▸ hl) i)

theorem Owned.congr (h : Owned live holds) (hlive : ∀ b, live' b = live b)
    (hholds : ∀ i b, holds' i b = holds i b) : Owned live' holds' :=
  fun b => (h b).congr (hlive b) fun i => hholds i b

theorem Owned.claim (h : Owned live holds) (ha : live a = false)
    (hlive : ∀ b, b ≠ a → live' b = live b) (hholds : ∀ i b, holds' i b = holds i b) :
    InHand a live' holds' where
  nobody i := (hholds i a).trans ((h a).free ha i)
  others b hb := (h b).congr (hlive b hb) fun i => hholds i b

theorem Owned.live_of_held (h : Owned live holds) {i : ι} (hi : 0 < holds i a) : live a = true := by
  by_contra hlive
  have hzero := (h a).free (by simpa using hlive) i
  omega

theorem Owned.take [DecidableEq ι] [DecidableEq α] (h : Owned live holds) {i : ι}
    (hlive : ∀ b, b ≠ a → live' b = live b)
    (hholds : ∀ j b, holds' j b + (if j = i ∧ b = a then 1 else 0) = holds j b) :
    InHand a live' holds' := by
  refine ⟨fun j => ?_, fun b hb => (h b).congr (hlive b hb) fun j => ?_⟩
  · have hi := hholds i a
    have hj := hholds j a
    simp only [and_self, if_true] at hi
    obtain ⟨k, hk, hrest⟩ := (h a).sole (h.live_of_held (i := i) (by omega))
    replace hk : holds k a = 1 := hk
    -- the only holder is `i`, with one reference
    have hki : k = i := by
      by_contra hne
      have hzero : holds i a = 0 := hrest i fun heq => hne heq.symm
      omega
    subst hki
    by_cases hjk : j = k
    · subst hjk
      omega
    · have hzero : holds j a = 0 := hrest j hjk
      omega
  · have hj := hholds j b
    simpa [hb] using hj

theorem InHand.congr (h : InHand a live holds) (hlive : ∀ b, b ≠ a → live' b = live b)
    (hholds : ∀ i b, holds' i b = holds i b) : InHand a live' holds' where
  nobody i := (hholds i a).trans (h.nobody i)
  others b hb := (h.others b hb).congr (hlive b hb) fun i => hholds i b

theorem InHand.settle (h : InHand a live holds) (ha : Kept live' holds' a)
    (hlive : ∀ b, b ≠ a → live' b = live b) (hholds : ∀ i b, b ≠ a → holds' i b = holds i b) :
    Owned live' holds' := by
  intro b
  by_cases hb : b = a
  · exact hb ▸ ha
  · exact (h.others b hb).congr (hlive b hb) fun i => hholds i b hb

/-- The token is given to `i`. -/
theorem InHand.place [DecidableEq ι] [DecidableEq α] (h : InHand a live holds) {i : ι}
    (ha : live' a = true) (hlive : ∀ b, b ≠ a → live' b = live b)
    (hholds : ∀ j b, holds' j b = holds j b + if j = i ∧ b = a then 1 else 0) :
    Owned live' holds' := by
  refine h.settle ⟨fun _ => ⟨i, ?_, fun j hj => ?_⟩, fun hfree => ?_⟩ hlive fun j b hb => ?_
  · simp [hholds, h.nobody]
  · simp [hholds, h.nobody, hj]
  · rw [ha] at hfree
    contradiction
  · simp [hholds, hb]

end Custody
