import Mathlib.Data.List.ReduceOption
import Mathlib.Data.List.Perm.Basic

/-!
# Tables of handles

A program holds objects under handles, which are the places of a list; a destroyed object
leaves an empty place. An operation on one handle acts on one of the live objects and leaves
the others, and `view` reads an abstract value off every live object.
-/

namespace Handles

set_option autoImplicit false

universe u v
variable {α : Type u} {β : Type v}

def get (t : List (Option α)) (i : Nat) : Option α := t[i]?.join

def live (t : List (Option α)) : List α := t.reduceOption

/-- The live objects under other handles than `i`. -/
def others (t : List (Option α)) (i : Nat) : List α := live (t.set i none)

def view (f : α → β) (t : List (Option α)) : List (Option β) := t.map (Option.map f)

variable {t : List (Option α)} {i j : Nat} {a b : α}

theorem get_eq_some : get t i = some a ↔ t[i]? = some (some a) := by
  simp [get, Option.join_eq_some_iff]

theorem lt_length_of_get (h : get t i = some a) : i < t.length := by
  rw [get_eq_some] at h
  exact (List.getElem?_eq_some_iff.mp h).1

theorem get_set_self {o : Option α} (hi : i < t.length) : get (t.set i o) i = o := by
  simp [get, hi]

theorem get_set_ne {o : Option α} (hij : i ≠ j) : get (t.set i o) j = get t j := by
  simp [get, List.getElem?_set_ne hij]

theorem get_push_of_some (h : get t i = some a) (o : Option α) : get (t ++ [o]) i = some a := by
  rw [get_eq_some] at h ⊢
  rw [List.getElem?_append_left (List.getElem?_eq_some_iff.mp h).1, h]

theorem mem_live : a ∈ live t ↔ ∃ i, get t i = some a := by
  simp only [live, List.reduceOption_mem_iff, get_eq_some]
  exact List.mem_iff_getElem?

theorem mem_live_of_get (h : get t i = some a) : a ∈ live t := mem_live.mpr ⟨i, h⟩

theorem mem_others (h : get t j = some a) (hij : i ≠ j) : a ∈ others t i :=
  mem_live.mpr ⟨j, by rwa [get_set_ne hij]⟩

@[simp] theorem live_push (t : List (Option α)) (a : α) : live (t ++ [some a]) = live t ++ [a] := by
  simp [live, List.reduceOption_append, List.reduceOption_cons_of_some]

theorem live_set_perm (hi : i < t.length) : (live (t.set i (some a))).Perm (a :: others t i) := by
  induction t generalizing i with
  | nil => simp at hi
  | cons o t ih =>
    cases i with
    | zero => simp [live, others, List.reduceOption_cons_of_some, List.reduceOption_cons_of_none]
    | succ i =>
      have hrest := ih (i := i) (by simpa using hi)
      cases o with
      | none => simpa [live, others, List.reduceOption_cons_of_none] using hrest
      | some c =>
        simp only [live, others, List.set_cons_succ, List.reduceOption_cons_of_some] at hrest ⊢
        exact (hrest.cons c).trans (List.Perm.swap a c _)

theorem live_perm (h : get t i = some a) : (live t).Perm (a :: others t i) := by
  have hi := lt_length_of_get h
  rw [get_eq_some] at h
  have hset : t.set i (some a) = t := by
    apply List.ext_getElem?
    intro j
    rw [List.getElem?_set]
    split_ifs with hij
    · rw [← hij, h]
    · rfl
  have hperm := live_set_perm (a := a) hi
  rwa [hset] at hperm

section View

variable {f f' : α → β}

@[simp] theorem length_view : (view f t).length = t.length := by simp [view]

@[simp] theorem get_view (f : α → β) (t : List (Option α)) (i : Nat) :
    get (view f t) i = (get t i).map f := by
  simp only [get, view, List.getElem?_map]
  cases t[i]? with
  | none => rfl
  | some o => cases o <;> rfl

theorem getElem?_view_congr (h : ∀ a, t[j]? = some (some a) → f' a = f a) :
    (view f' t)[j]? = (view f t)[j]? := by
  simp only [view, List.getElem?_map]
  rcases hj : t[j]? with _ | o
  · rfl
  · cases o with
    | none => rfl
    | some a => simp [h a hj]

theorem view_congr (h : ∀ b ∈ live t, f' b = f b) : view f' t = view f t := by
  apply List.ext_getElem?
  intro j
  apply getElem?_view_congr
  intro a ha
  exact h a (mem_live_of_get (get_eq_some.mpr ha))

theorem view_set (o : Option α) (h : ∀ b ∈ others t i, f' b = f b) :
    view f' (t.set i o) = (view f t).set i (o.map f') := by
  apply List.ext_getElem?
  intro j
  by_cases hij : i = j
  · subst hij
    by_cases hi : i < t.length
    · simp [view, hi]
    · simp [view, hi]
  · rw [List.getElem?_set_ne hij]
    have hother : (view f' t)[j]? = (view f t)[j]? := by
      apply getElem?_view_congr
      intro a ha
      exact h a (mem_others (get_eq_some.mpr ha) hij)
    rw [← hother]
    simp [view, List.getElem?_set_ne hij]

theorem view_push (a : α) (h : ∀ b ∈ live t, f' b = f b) :
    view f' (t ++ [some a]) = view f t ++ [some (f' a)] := by
  rw [← view_congr h]
  simp [view]

end View

/-! ### Related tables -/

/-- The same handles have objects, and these are related. -/
structure Related (R : α → β → Prop) (t : List (Option α)) (s : List (Option β)) : Prop where
  length_eq : t.length = s.length
  get : ∀ i, Option.Rel R (get t i) (get s i)

theorem get_set (t : List (Option α)) (i j : Nat) (o : Option α) :
    get (t.set i o) j = if i = j ∧ i < t.length then o else get t j := by
  by_cases hij : i = j
  · subst hij
    by_cases hi : i < t.length
    · rw [if_pos ⟨rfl, hi⟩, get_set_self hi]
    · rw [if_neg (fun h => hi h.2), List.set_eq_of_length_le (Nat.le_of_not_lt hi)]
  · rw [if_neg (fun h => hij h.1), get_set_ne hij]

theorem get_push (t : List (Option α)) (o : Option α) (i : Nat) :
    get (t ++ [o]) i = if i = t.length then o else get t i := by
  unfold get
  split_ifs with hi
  · simp [hi]
  · rcases Nat.lt_or_ge i t.length with hlt | hge
    · rw [List.getElem?_append_left hlt]
    · rw [List.getElem?_eq_none hge, List.getElem?_eq_none (by simp; omega)]

section Related

variable {R R' : α → β → Prop} {s : List (Option β)} {x : β}

theorem Related.of_get (h : Related R t s) (ha : Handles.get t i = some a) :
    ∃ x, Handles.get s i = some x ∧ R a x := by
  have hrel := h.get i
  rw [ha] at hrel
  rcases hx : Handles.get s i with _ | x
  · rw [hx] at hrel
    cases hrel
  · rw [hx] at hrel
    cases hrel with
    | some hR => exact ⟨x, rfl, hR⟩

theorem Related.none_iff (h : Related R t s) :
    Handles.get t i = none ↔ Handles.get s i = none := by
  have hrel := h.get i
  rcases ha : Handles.get t i with _ | a <;> rcases hx : Handles.get s i with _ | x <;>
    rw [ha, hx] at hrel
  · simp
  · cases hrel
  · cases hrel
  · simp

theorem Related.set (h : Related R t s) (hR : ∀ b ∈ others t i, ∀ y, R b y → R' b y)
    {o : Option α} {o' : Option β} (ho : Option.Rel R' o o') :
    Related R' (t.set i o) (s.set i o') := by
  refine ⟨by rw [List.length_set, List.length_set, h.length_eq], fun j => ?_⟩
  rw [get_set, get_set, ← h.length_eq]
  split_ifs with hij
  · exact ho
  · have hrel := h.get j
    rcases ha : Handles.get t j with _ | a <;> rcases hx : Handles.get s j with _ | x <;>
      rw [ha, hx] at hrel
    · exact .none
    · cases hrel
    · cases hrel
    · cases hrel with
      | some hax =>
        apply Option.Rel.some
        apply hR a _ x hax
        apply mem_others ha
        intro hne
        subst hne
        exact hij ⟨rfl, lt_length_of_get ha⟩

theorem Related.push (h : Related R t s) (hR : ∀ b ∈ live t, ∀ y, R b y → R' b y)
    (hax : R' a x) : Related R' (t ++ [some a]) (s ++ [some x]) := by
  refine ⟨by simp [h.length_eq], fun j => ?_⟩
  rw [get_push, get_push, ← h.length_eq]
  split_ifs with hj
  · exact .some hax
  · have hrel := h.get j
    rcases hb : Handles.get t j with _ | b <;> rcases hy : Handles.get s j with _ | y <;>
      rw [hb, hy] at hrel
    · exact .none
    · cases hrel
    · cases hrel
    · cases hrel with
      | some hby => exact .some (hR b (mem_live_of_get hb) y hby)

end Related

end Handles
