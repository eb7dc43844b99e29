import Mathlib.Data.List.Sort

/-!
# Agendas

Pending events in the order in which they are called: by time, and those of one time as they
were scheduled. An event no earlier than the others of its kind is the last of them.
-/

namespace Agenda

set_option autoImplicit false

universe u v
variable {ε : Type u} {τ : Type v} [LinearOrder τ] (time : ε → τ)

/-- Put an event before the first one that is later. -/
def schedule (e : ε) (l : List ε) : List ε := l.orderedInsert (fun a b => time a < time b) e

def InOrder (l : List ε) : Prop := l.Pairwise fun a b => time a ≤ time b

variable {time} {e : ε} {l : List ε}

theorem schedule_perm (e : ε) (l : List ε) : (schedule time e l).Perm (e :: l) :=
  List.perm_orderedInsert _ e l

theorem mem_schedule {x : ε} : x ∈ schedule time e l ↔ x = e ∨ x ∈ l :=
  (schedule_perm e l).mem_iff.trans List.mem_cons

theorem schedule_cons (e a : ε) (l : List ε) : schedule time e (a :: l) =
    if time e < time a then e :: a :: l else a :: schedule time e l := rfl

theorem InOrder.schedule (h : InOrder time l) (e : ε) : InOrder time (schedule time e l) := by
  induction l with
  | nil => exact List.pairwise_singleton _ e
  | cons a l ih =>
    obtain ⟨hhead, htail⟩ := List.pairwise_cons.mp h
    rw [schedule_cons]
    split
    · rename_i hlt
      apply List.pairwise_cons.mpr
      refine ⟨?_, h⟩
      intro b hb
      rcases List.mem_cons.mp hb with rfl | hb
      · exact hlt.le
      · exact hlt.le.trans (hhead b hb)
    · rename_i hle
      apply List.pairwise_cons.mpr
      refine ⟨?_, ih htail⟩
      intro b hb
      rcases mem_schedule.mp hb with rfl | hb
      · exact not_lt.mp hle
      · exact hhead b hb

variable {p : ε → Bool}

theorem filter_schedule_of_not (he : p e = false) (l : List ε) :
    (schedule time e l).filter p = l.filter p := by
  induction l with
  | nil => exact List.filter_cons_of_neg (by simp [he])
  | cons a l ih =>
    rw [schedule_cons]
    split
    · exact List.filter_cons_of_neg (by simp [he])
    · rw [List.filter_cons, List.filter_cons, ih]

/-- Events of one kind are called in the order in which they were scheduled. -/
theorem filter_schedule_last (h : InOrder time l) (he : p e = true)
    (hlast : ∀ x ∈ l, p x = true → time x ≤ time e) :
    (schedule time e l).filter p = l.filter p ++ [e] := by
  induction l with
  | nil => exact List.filter_cons_of_pos he
  | cons a l ih =>
    obtain ⟨hhead, htail⟩ := List.pairwise_cons.mp h
    rw [schedule_cons]
    split
    · rename_i hlt
      -- the events from here on are later, so none of them is of this kind
      have hnone : (a :: l).filter p = [] := by
        rw [List.filter_eq_nil_iff]
        intro x hx hpx
        have hle : time a ≤ time x := by
          rcases List.mem_cons.mp hx with rfl | hx
          · exact le_refl _
          · exact hhead x hx
        exact absurd (hlast x hx hpx) (not_le.mpr (hlt.trans_le hle))
      rw [List.filter_cons_of_pos he, hnone]
      rfl
    · have hrest := ih htail fun x hx => hlast x (List.mem_cons_of_mem a hx)
      rw [List.filter_cons, List.filter_cons, hrest]
      split
      · rfl
      · rfl

end Agenda
