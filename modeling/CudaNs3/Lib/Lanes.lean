import Mathlib.Data.List.Nodup
import Mathlib.Logic.Function.Basic

/-!
# Slots handed out by the group

Slots come in groups of `width`. Each kind fills a group of its own, lane by lane, and takes the
next group never handed out when its own is full.
-/

namespace Lanes

set_option autoImplicit false

universe u
variable {κ : Type u}

structure Cursor (κ : Type u) where
  group : κ → Nat
  lane : κ → Nat
  next : Nat

/-- The slot that the next item of the kind gets. -/
def Cursor.slot (width : Nat) (c : Cursor κ) (k : κ) : Nat := c.group k * width + c.lane k

def Cursor.advance [DecidableEq κ] (width : Nat) (c : Cursor κ) (k : κ) : Cursor κ where
  group := if c.lane k + 1 = width then Function.update c.group k c.next else c.group
  lane := Function.update c.lane k (if c.lane k + 1 = width then 0 else c.lane k + 1)
  next := if c.lane k + 1 = width then c.next + 1 else c.next

/-- Each kind fills a group that has been handed out to no other. -/
structure Apart (width : Nat) (c : Cursor κ) : Prop where
  lane_lt : ∀ k, c.lane k < width
  group_lt : ∀ k, c.group k < c.next
  own : ∀ k l, c.group k = c.group l → k = l

/-- The slot lies in a group not handed out, or in the rest of a kind's group. -/
def Unclaimed (width : Nat) (c : Cursor κ) (i : Nat) : Prop :=
  c.next ≤ i / width ∨ ∃ k, i / width = c.group k ∧ c.lane k ≤ i % width

variable {width : Nat} {c : Cursor κ}

theorem lt_of_claimed {i : Nat} (hi : ¬Unclaimed width c i) : i / width < c.next := by
  apply Nat.lt_of_not_le
  intro hle
  exact hi (Or.inl hle)

namespace Apart

theorem slot (hc : Apart width c) (k : κ) :
    c.slot width k / width = c.group k ∧ c.slot width k % width = c.lane k := by
  have hlane := hc.lane_lt k
  have hpos : 0 < width := Nat.zero_lt_of_lt hlane
  have hcomm : c.slot width k = c.lane k + c.group k * width := Nat.add_comm _ _
  constructor
  · rw [hcomm, Nat.add_mul_div_right _ _ hpos, Nat.div_eq_of_lt hlane, Nat.zero_add]
  · rw [hcomm, Nat.add_mul_mod_self_right, Nat.mod_eq_of_lt hlane]

theorem slot_unclaimed (hc : Apart width c) (k : κ) : Unclaimed width c (c.slot width k) := by
  obtain ⟨hdiv, hmod⟩ := hc.slot k
  exact Or.inr ⟨k, hdiv, hmod ▸ Nat.le_refl _⟩

theorem reset {group : κ → Nat} {next : Nat} (hwidth : 0 < width) (hlt : ∀ k, group k < next)
    (hinj : ∀ k l, group k = group l → k = l) : Apart width ⟨group, fun _ => 0, next⟩ :=
  ⟨fun _ => hwidth, hlt, hinj⟩

variable [DecidableEq κ]

theorem advance (hc : Apart width c) (k : κ) : Apart width (c.advance width k) := by
  have hlane := hc.lane_lt
  have hgroup := hc.group_lt
  by_cases hfull : c.lane k + 1 = width
  · refine ⟨fun l => ?_, fun l => ?_, fun l m h => ?_⟩
    · by_cases hl : l = k
      · have := hlane k
        simp only [Cursor.advance, hfull, hl, if_true, Function.update_self]
        omega
      · simpa [Cursor.advance, hfull, hl] using hlane l
    · by_cases hl : l = k
      · simp [Cursor.advance, hfull, hl]
      · simpa [Cursor.advance, hfull, hl] using Nat.lt_succ_of_lt (hgroup l)
    · have hl' := hgroup l
      have hm' := hgroup m
      by_cases hl : l = k
      · by_cases hm : m = k
        · exact hl.trans hm.symm
        · simp only [Cursor.advance, hfull, hl, if_true, Function.update_self,
            Function.update_of_ne hm] at h
          omega
      · by_cases hm : m = k
        · simp only [Cursor.advance, hfull, hm, if_true, Function.update_self,
            Function.update_of_ne hl] at h
          omega
        · simp only [Cursor.advance, hfull, if_true, Function.update_of_ne hl,
            Function.update_of_ne hm] at h
          exact hc.own l m h
  · refine ⟨fun l => ?_, fun l => ?_, fun l m h => ?_⟩
    · by_cases hl : l = k
      · have := hlane k
        simp only [Cursor.advance, hfull, hl, if_false, Function.update_self]
        omega
      · simpa [Cursor.advance, hfull, hl] using hlane l
    · simpa [Cursor.advance, hfull] using hgroup l
    · exact hc.own l m (by simpa [Cursor.advance, hfull] using h)

theorem unclaimed_advance (hc : Apart width c) {k : κ} {i : Nat}
    (hi : Unclaimed width (c.advance width k) i) :
    Unclaimed width c i ∧ i ≠ c.slot width k := by
  obtain ⟨hdiv, hmod⟩ := hc.slot k
  have hgroup := hc.group_lt k
  by_cases hfull : c.lane k + 1 = width
  · rcases hi with hi | ⟨l, hl, hle⟩
    · simp only [Cursor.advance, hfull, if_true] at hi
      refine ⟨Or.inl (by omega), ?_⟩
      rintro rfl
      omega
    · by_cases hlk : l = k
      · simp only [Cursor.advance, hfull, if_true, hlk, Function.update_self] at hl
        refine ⟨Or.inl (by omega), ?_⟩
        rintro rfl
        omega
      · simp only [Cursor.advance, hfull, if_true, Function.update_of_ne hlk] at hl hle
        refine ⟨Or.inr ⟨l, hl, hle⟩, ?_⟩
        rintro rfl
        exact hlk (hc.own l k (hl.symm.trans hdiv))
  · rcases hi with hi | ⟨l, hl, hle⟩
    · simp only [Cursor.advance, hfull, if_false] at hi
      refine ⟨Or.inl hi, ?_⟩
      rintro rfl
      omega
    · simp only [Cursor.advance, hfull, if_false] at hl hle
      by_cases hlk : l = k
      · subst hlk
        rw [Function.update_self] at hle
        refine ⟨Or.inr ⟨l, hl, by omega⟩, ?_⟩
        rintro rfl
        omega
      · rw [Function.update_of_ne hlk] at hle
        refine ⟨Or.inr ⟨l, hl, hle⟩, ?_⟩
        rintro rfl
        exact hlk (hc.own l k (hl.symm.trans hdiv))

end Apart

theorem group_of_advance [DecidableEq κ] {k l : κ} {g : Nat} (hg : g < c.next)
    (h : g = (c.advance width k).group l) : g = c.group l := by
  by_cases hfull : c.lane k + 1 = width
  · by_cases hl : l = k
    · simp only [Cursor.advance, hfull, if_true, hl, Function.update_self] at h
      omega
    · simpa [Cursor.advance, hfull, hl] using h
  · simpa [Cursor.advance, hfull] using h

/-- The slots that have been filled, each with the kind of its item: no two are the same, and a
group holds items of one kind. -/
structure Filled (width : Nat) (c : Cursor κ) (ws : List (Nat × κ)) : Prop where
  distinct : (ws.map Prod.fst).Nodup
  claimed : ∀ w ∈ ws, ¬Unclaimed width c w.1
  owner : ∀ w ∈ ws, ∀ k, w.1 / width = c.group k → w.2 = k
  uniform : ∀ v ∈ ws, ∀ w ∈ ws, v.1 / width = w.1 / width → v.2 = w.2

theorem filled_nil : Filled width c [] where
  distinct := List.nodup_nil
  claimed := by simp
  owner := by simp
  uniform := by simp

theorem Filled.put [DecidableEq κ] (hc : Apart width c) {ws : List (Nat × κ)}
    (h : Filled width c ws) (k : κ) :
    Filled width (c.advance width k) (ws ++ [(c.slot width k, k)]) := by
  obtain ⟨hdiv, _⟩ := hc.slot k
  have hnew (w : Nat × κ) (hw : w ∈ ws) (heq : w.1 / width = c.group k) : w.2 = k :=
    h.owner w hw k heq
  constructor
  · rw [List.map_append, List.nodup_append]
    refine ⟨h.distinct, List.nodup_singleton _, ?_⟩
    rintro i hi j hj rfl
    obtain ⟨w, hw, rfl⟩ := List.mem_map.mp hi
    obtain heq : w.1 = c.slot width k := List.mem_singleton.mp hj
    apply h.claimed w hw
    rw [heq]
    exact hc.slot_unclaimed k
  · intro w hw hun
    obtain ⟨hold, hne⟩ := hc.unclaimed_advance hun
    rcases List.mem_append.mp hw with hw | hw
    · exact h.claimed w hw hold
    · obtain rfl := List.mem_singleton.mp hw
      exact hne rfl
  · intro w hw l hl
    rcases List.mem_append.mp hw with hw | hw
    · exact h.owner w hw l (group_of_advance (lt_of_claimed (h.claimed w hw)) hl)
    · obtain rfl := List.mem_singleton.mp hw
      have hlt : c.slot width k / width < c.next := hdiv ▸ hc.group_lt k
      have hl := group_of_advance hlt hl
      exact hc.own k l (hdiv.symm.trans hl)
  · intro v hv w hw heq
    rcases List.mem_append.mp hv with hv | hv
    · rcases List.mem_append.mp hw with hw | hw
      · exact h.uniform v hv w hw heq
      · obtain rfl := List.mem_singleton.mp hw
        exact hnew v hv (heq.trans hdiv)
    · obtain rfl := List.mem_singleton.mp hv
      rcases List.mem_append.mp hw with hw | hw
      · exact (hnew w hw (heq.symm.trans hdiv)).symm
      · obtain rfl := List.mem_singleton.mp hw
        rfl

end Lanes
