import Mathlib.Algebra.BigOperators.Group.Finset.Piecewise
import Mathlib.Algebra.Order.Group.Multiset

/-!
# Arrays of optional slots

A slot array holds a value or nothing at each index. Its contents are counted as a
multiset (`bag`), so that filling a free slot adds exactly one value and clearing a
full one takes exactly one away. An array may be cut into areas of one width; an
area that is always filled at its first free slot keeps its full slots in front.
-/

namespace SlotBuffer

set_option autoImplicit false

universe u
variable {α : Type u} {q r : Nat → Option α}

/-- The values in the first `n` slots, with multiplicity. -/
@[irreducible] def bag (q : Nat → Option α) (n : Nat) : Multiset α :=
  ∑ i ∈ Finset.range n, (q i).elim 0 ({·})

@[simp] theorem bag_zero (q : Nat → Option α) : bag q 0 = 0 := by
  simp [bag]

theorem bag_add (q : Nat → Option α) (n m : Nat) :
    bag q (n + m) = bag q n + bag (fun k => q (n + k)) m := by
  unfold bag
  exact Finset.sum_range_add _ n m

theorem bag_congr {n : Nat} (h : ∀ i < n, q i = r i) : bag q n = bag r n := by
  unfold bag
  refine Finset.sum_congr rfl fun i hi => ?_
  rw [h i (Finset.mem_range.mp hi)]

theorem bag_update {n i : Nat} (hi : i < n) (v : Option α) :
    bag (Function.update q i v) n =
      v.elim 0 ({·}) + ∑ k ∈ Finset.range n \ {i}, (q k).elim 0 ({·}) := by
  have hmem : i ∈ Finset.range n := Finset.mem_range.mpr hi
  unfold bag
  rw [← Finset.sum_update_of_mem hmem]
  refine Finset.sum_congr rfl fun k _ => ?_
  by_cases hk : k = i
  · subst hk
    simp
  · simp [Function.update_of_ne hk]

theorem bag_exchange {n i : Nat} (hi : i < n) (v : Option α) :
    (q i).elim 0 ({·}) + bag (Function.update q i v) n = v.elim 0 ({·}) + bag q n := by
  have hself : bag q n = bag (Function.update q i (q i)) n := by
    rw [Function.update_eq_self]
  rw [hself, bag_update hi, bag_update hi]
  exact add_left_comm _ _ _

theorem bag_write {n i : Nat} (hi : i < n) (hq : q i = none) (a : α) :
    bag (Function.update q i (some a)) n = a ::ₘ bag q n := by
  simpa [hq] using bag_exchange (q := q) hi (some a)

theorem bag_clear {n i : Nat} {a : α} (hi : i < n) (hq : q i = some a) :
    bag q n = a ::ₘ bag (Function.update q i none) n := by
  simpa [hq] using (bag_exchange (q := q) hi none).symm

theorem mem_bag {n : Nat} {a : α} : a ∈ bag q n ↔ ∃ i < n, q i = some a := by
  simp only [bag, Multiset.mem_sum, Finset.mem_range]
  refine exists_congr fun i => and_congr_right fun _ => ?_
  cases q i with
  | none => simp
  | some b => simp [eq_comm]

theorem bag_eq_zero {n : Nat} : bag q n = 0 ↔ ∀ i < n, q i = none := by
  constructor
  · intro h i hi
    cases hq : q i with
    | none => rfl
    | some a =>
      have ha : a ∈ bag q n := mem_bag.mpr ⟨i, hi, hq⟩
      simp [h] at ha
  · intro h
    refine Multiset.eq_zero_of_forall_notMem fun a ha => ?_
    obtain ⟨i, hi, hq⟩ := mem_bag.mp ha
    simp [h i hi] at hq

/-- The first free slot among the `w` slots from `i` on. -/
def firstFree (q : Nat → Option α) : Nat → Nat → Option Nat
  | 0, _ => none
  | w + 1, i => if (q i).isSome then firstFree q w (i + 1) else some i

theorem firstFree_some {w i j : Nat} (h : firstFree q w i = some j) :
    i ≤ j ∧ j < i + w ∧ q j = none ∧ ∀ k, i ≤ k → k < j → (q k).isSome := by
  induction w generalizing i with
  | zero => simp [firstFree] at h
  | succ w ih =>
    rw [firstFree] at h
    split at h
    · rename_i hfull
      obtain ⟨hle, hlt, hfree, hbefore⟩ := ih h
      refine ⟨by omega, by omega, hfree, fun k hk hkj => ?_⟩
      by_cases hki : k = i
      · exact hki ▸ hfull
      · exact hbefore k (by omega) hkj
    · rename_i hfree
      obtain rfl := Option.some.inj h
      exact ⟨le_refl _, by omega, by simpa using hfree, fun k hk hki => by omega⟩

/-- How many of the `w` slots from `i` on are free. -/
def freeSlots (q : Nat → Option α) : Nat → Nat → Nat
  | 0, _ => 0
  | w + 1, i => (if (q i).isSome then 0 else 1) + freeSlots q w (i + 1)

theorem freeSlots_congr {w i : Nat} (h : ∀ k, i ≤ k → k < i + w → q k = r k) :
    freeSlots q w i = freeSlots r w i := by
  induction w generalizing i with
  | zero => rfl
  | succ w ih =>
    rw [freeSlots, freeSlots, h i (le_refl i) (by omega)]
    rw [ih fun k hk hkw => h k (by omega) (by omega)]

theorem firstFree_eq_none_iff {w i : Nat} : firstFree q w i = none ↔ freeSlots q w i = 0 := by
  induction w generalizing i with
  | zero => exact ⟨fun _ => rfl, fun _ => rfl⟩
  | succ w ih =>
    rw [firstFree, freeSlots]
    split
    · rw [ih, Nat.zero_add]
    · constructor
      · intro h
        cases h
      · intro h
        omega

theorem freeSlots_write {w i j : Nat} (h : firstFree q w i = some j) (a : α) :
    freeSlots (Function.update q j (some a)) w i + 1 = freeSlots q w i := by
  induction w generalizing i with
  | zero => cases h
  | succ w ih =>
    rw [firstFree] at h
    split at h
    · rename_i hfull
      have hij : i ≠ j := by
        have := (firstFree_some h).1
        omega
      rw [freeSlots, freeSlots, Function.update_of_ne hij, if_pos hfull, Nat.zero_add, Nat.zero_add,
        ih h]
    · rename_i hfree
      obtain rfl := Option.some.inj h
      have hrest : freeSlots (Function.update q i (some a)) w (i + 1) =
          freeSlots q w (i + 1) := by
        apply freeSlots_congr
        intro k hk _
        exact Function.update_of_ne (by omega) _ _
      rw [freeSlots, freeSlots, Function.update_self, if_neg hfree, hrest]
      simp [Nat.add_comm]

/-- Empty the `w` slots from `i` on, listing what they held. -/
def sweep : Nat → Nat → (Nat → Option α) → (Nat → Option α) × List α
  | 0, _, q => (q, [])
  | w + 1, i, q =>
    match q i with
    | none => sweep w (i + 1) q
    | some a =>
      let rest := sweep w (i + 1) (Function.update q i none)
      (rest.1, a :: rest.2)

theorem sweep_slots (w i : Nat) (q : Nat → Option α) (k : Nat) :
    (sweep w i q).1 k = if i ≤ k ∧ k < i + w then none else q k := by
  induction w generalizing i q with
  | zero =>
    rw [sweep, if_neg (by omega)]
  | succ w ih =>
    rw [sweep]
    split
    · rename_i hq
      rw [ih]
      by_cases hk : k = i
      · subst hk
        simp [hq]
      · grind
    · rw [ih]
      by_cases hk : k = i
      · subst hk
        simp
      · rw [Function.update_of_ne hk]
        grind

theorem sweep_list (w i : Nat) (q : Nat → Option α) :
    ((sweep w i q).2 : Multiset α) = bag (fun k => q (i + k)) w := by
  induction w generalizing i q with
  | zero => simp [sweep]
  | succ w ih =>
    have hshift : bag (fun k => q (i + k)) (w + 1) =
        (q i).elim 0 ({·}) + bag (fun k => q (i + 1 + k)) w := by
      rw [Nat.add_comm w 1, bag_add]
      simp [bag, Nat.add_assoc]
    rw [hshift, sweep]
    split
    · rename_i hq
      rw [ih, hq]
      simp
    · rename_i a hq
      have hrest : bag (fun k => Function.update q i none (i + 1 + k)) w =
          bag (fun k => q (i + 1 + k)) w := by
        refine bag_congr fun k _ => ?_
        rw [Function.update_of_ne (by omega)]
      rw [← Multiset.cons_coe, ih, hq, hrest]
      simp

/-- Within each area of `w` slots the full ones come first. -/
def FrontFilled (q : Nat → Option α) (w : Nat) : Prop :=
  ∀ a j k, j ≤ k → k < w → (q (a * w + k)).isSome → (q (a * w + j)).isSome

theorem frontFilled_none {w : Nat} (h : ∀ i, q i = none) : FrontFilled q w := by
  intro a j k _ _ hk
  simp [h] at hk

theorem area_eq {w a b j k : Nat} (hj : j < w) (hk : k < w) (h : a * w + j = b * w + k) :
    a = b ∧ j = k := by
  have hw : 0 < w := by omega
  have ha : (a * w + j) / w = a := by
    rw [Nat.mul_comm, Nat.mul_add_div hw, Nat.div_eq_of_lt hj, Nat.add_zero]
  have hb : (b * w + k) / w = b := by
    rw [Nat.mul_comm, Nat.mul_add_div hw, Nat.div_eq_of_lt hk, Nat.add_zero]
  have hab : a = b := by rw [← ha, h, hb]
  subst hab
  exact ⟨rfl, by omega⟩

theorem FrontFilled.write {w a j : Nat} (h : FrontFilled q w) (v : α)
    (hfree : firstFree q w (a * w) = some j) :
    FrontFilled (Function.update q j (some v)) w := by
  obtain ⟨hle, hlt, _, hbefore⟩ := firstFree_some hfree
  intro b i k hik hk hfull
  by_cases hi : b * w + i = j
  · simp [hi]
  rw [Function.update_of_ne hi]
  by_cases hkj : b * w + k = j
  · obtain ⟨rfl, _⟩ := area_eq (a := b) (b := a) (j := k) (k := j - a * w) hk (by omega) (by omega)
    exact hbefore _ (by omega) (by omega)
  · rw [Function.update_of_ne hkj] at hfull
    exact h b i k hik hk hfull

theorem FrontFilled.empty_area {w a : Nat} (h : FrontFilled q w) (hfree : q (a * w) = none)
    {k : Nat} (hk : k < w) : q (a * w + k) = none := by
  by_contra hne
  have := h a 0 k (Nat.zero_le k) hk (Option.isSome_iff_ne_none.mpr hne)
  rw [Nat.add_zero, hfree] at this
  simp at this

end SlotBuffer
