import CudaNs3.Lib.Readers

/-!
# Readers that leave a trace

A reader with the events it passes through, which are kept when it fails later on. A loop may
run out of the passes it is given; that is an outcome of its own, apart from failing.
-/

namespace Readers

set_option autoImplicit false

inductive Outcome (α : Type) where
  | done (a : α) (it : Iterator)
  | aborted
  | unfinished

def Traced (E α : Type) := Iterator → List E × Outcome α

variable {E α β : Type}

namespace Traced

def andThen (es : List E) : List E × Outcome α → List E × Outcome α
  | (es', o) => (es ++ es', o)

protected def bind (read : Traced E α) (f : α → Traced E β) : Traced E β := fun it =>
  match read it with
  | (es, .done a it) => andThen es (f a it)
  | (es, .aborted) => (es, .aborted)
  | (es, .unfinished) => (es, .unfinished)

instance : Monad (Traced E) where
  pure a := fun it => ([], .done a it)
  bind := Traced.bind

/-- A reader that leaves nothing. -/
def of (read : Reader α) : Traced E α := fun it =>
  match read it with
  | some (a, it) => ([], .done a it)
  | none => ([], .aborted)

/-- What happens at the place that has been reached. -/
def emit (events : Iterator → List E) : Traced E Unit := fun it => (events it, .done () it)

/-- One pass of a loop, with the passes that follow. -/
def pass (body : Traced E (Option α)) (again : Traced E (List α × Bool)) :
    Traced E (List α × Bool) := do
  match ← body with
  | none => return ([], false)
  | some a =>
    let (as, whole) ← again
    return (a :: as, whole)

/-- A loop, and whether it was left at its condition; its body may leave it too. -/
def loop (go : Iterator → Bool) (body : Traced E (Option α)) : Nat → Traced E (List α × Bool)
  | 0 => fun it => if go it then ([], .unfinished) else ([], .done ([], true) it)
  | fuel + 1 => fun it =>
    if go it then pass body (loop go body fuel) it else ([], .done ([], true) it)

/-- Reads until `size` bytes from `start` on have been taken. -/
def within (read : Traced E α) (start size fuel : Nat) : Traced E (List α) := do
  let (as, _) ← loop (fun it => it.pos - start < size) (some <$> read) fuel
  return as

end Traced

/-- At least `k` bytes have been taken when something was read. -/
def Takes (k : Nat) (read : Reader α) : Prop :=
  ∀ it a it', read it = some (a, it') → it'.rest.length + k ≤ it.rest.length

namespace Takes
variable {read : Reader α} {f : α → Reader β} {j k n : Nat}

theorem pure (a : α) : Takes 0 (return a) := by
  intro it b it' h
  obtain ⟨-, rfl⟩ := Prod.mk.inj (Option.some.inj h)
  exact Nat.le_refl _

theorem bind (h : Takes j read) (hf : ∀ a, Takes k (f a)) : Takes (j + k) (read >>= f) := by
  intro it b it' hb
  obtain ⟨⟨a, mid⟩, hread, hthen⟩ := Option.bind_eq_some_iff.mp hb
  have hj := h it a mid hread
  have hk := hf a mid b it' hthen
  omega

theorem mono (h : Takes k read) (hjk : j ≤ k) : Takes j read := by
  intro it a it' hread
  have hk := h it a it' hread
  omega

theorem any (h : Takes k read) : Takes 0 read := h.mono (Nat.zero_le k)

/-- What follows is what takes the bytes, as far as they are counted. -/
theorem skip (h : Takes j read) (hf : ∀ a, Takes k (f a)) : Takes k (read >>= f) :=
  (h.bind hf).mono (Nat.le_add_left k j)

theorem byte : Takes 1 byte := by
  rintro ⟨pos, bs⟩ a it' h
  cases bs with
  | nil => cases h
  | cons b bs =>
    obtain ⟨-, rfl⟩ := Prod.mk.inj (Option.some.inj h)
    exact Nat.le_refl _

theorem bytes (n : Nat) : Takes n (bytes n) := by
  intro it a it' h
  unfold Readers.bytes at h
  split at h
  · rename_i hn
    obtain ⟨-, rfl⟩ := Prod.mk.inj (Option.some.inj h)
    change (it.rest.drop n).length + n ≤ _
    rw [List.length_drop]
    omega
  · cases h

theorem word (n : Nat) : Takes n (word n) := (bytes n).bind fun _ => pure _

theorem position : Takes 0 position := by
  intro it a it' h
  obtain ⟨-, rfl⟩ := Prod.mk.inj (Option.some.inj h)
  exact Nat.le_refl _

theorem ofOption (o : Option α) : Takes 0 (ofOption o) := by
  intro it a it' h
  obtain ⟨b, -, hb⟩ := Option.map_eq_some_iff.mp h
  obtain ⟨-, rfl⟩ := Prod.mk.inj hb
  exact Nat.le_refl _

theorem lookahead (read : Reader α) : Takes 0 (lookahead read) := by
  intro it a it' h
  obtain ⟨b, -, hb⟩ := Option.map_eq_some_iff.mp h
  obtain ⟨-, rfl⟩ := Prod.mk.inj hb
  exact Nat.le_refl _

theorem optional {there : Bool} (h : Takes k read) : Takes 0 (optional there read) := by
  unfold Readers.optional
  split
  · exact h.skip fun _ => pure _
  · exact pure none

theorem times (h : Takes k read) (n : Nat) : Takes 0 (times read n) := by
  induction n with
  | zero => exact pure []
  | succ n ih => exact h.skip fun _ => ih.skip fun _ => pure _

end Takes

/-- The reader has come to an end, and has then taken at least `k` bytes or failed. -/
def Outcome.Taken (k : Nat) (it : Iterator) : Outcome α → Prop
  | .done _ it' => it'.rest.length + k ≤ it.rest.length
  | .aborted => True
  | .unfinished => False

theorem Outcome.Taken.mono {o : Outcome α} {it : Iterator} {j k : Nat} (h : o.Taken k it)
    (hjk : j ≤ k) : o.Taken j it := by
  cases o with
  | done a it' => exact (Nat.add_le_add_left hjk _).trans h
  | aborted => trivial
  | unfinished => exact h

theorem Outcome.Taken.ne_unfinished {o : Outcome α} {it : Iterator} {k : Nat} (h : o.Taken k it) :
    o ≠ .unfinished := by
  rintro rfl
  exact h

theorem Traced.taken_bind {read : Traced E α} {f : α → Traced E β} {it : Iterator} {j k : Nat}
    (h : (read it).2.Taken j it)
    (hf : ∀ a mid, (read it).2 = .done a mid → (f a mid).2.Taken k mid) :
    ((read >>= f) it).2.Taken (j + k) it := by
  change (Traced.bind read f it).2.Taken (j + k) it
  unfold Traced.bind
  rcases hr : read it with ⟨es, ⟨a, mid⟩ | _ | _⟩
  · rw [hr] at h hf
    change mid.rest.length + j ≤ it.rest.length at h
    have hthen := hf a mid rfl
    simp only [Traced.andThen]
    cases ho : (f a mid).2 with
    | done b it' =>
      rw [ho] at hthen
      change it'.rest.length + k ≤ mid.rest.length at hthen
      change it'.rest.length + (j + k) ≤ it.rest.length
      omega
    | aborted => trivial
    | unfinished =>
      rw [ho] at hthen
      exact hthen
  · trivial
  · rw [hr] at h
    exact h

theorem Traced.forall_mem_bind {P : E → Prop} {read : Traced E α} {f : α → Traced E β}
    {it : Iterator} : (∀ e ∈ ((read >>= f) it).1, P e) ↔
      (∀ e ∈ (read it).1, P e) ∧
        ∀ a mid, (read it).2 = .done a mid → ∀ e ∈ (f a mid).1, P e := by
  change (∀ e ∈ (Traced.bind read f it).1, P e) ↔ _
  unfold Traced.bind
  rcases read it with ⟨es, ⟨a, mid⟩ | _ | _⟩
  · simp only [Traced.andThen, List.forall_mem_append]
    apply and_congr_right
    intro _
    constructor
    · rintro hf a' mid' hdone
      obtain ⟨rfl, rfl⟩ := Outcome.done.inj hdone
      exact hf
    · intro hf
      exact hf a mid rfl
  · simp
  · simp

theorem Traced.bind_eq_done {read : Traced E α} {f : α → Traced E β} {it it' : Iterator} {b : β} :
    ((read >>= f) it).2 = .done b it' ↔
      ∃ a mid, (read it).2 = .done a mid ∧ (f a mid).2 = .done b it' := by
  change (Traced.bind read f it).2 = .done b it' ↔ _
  unfold Traced.bind
  rcases read it with ⟨es, ⟨a, mid⟩ | _ | _⟩
  · constructor
    · intro h
      exact ⟨a, mid, rfl, h⟩
    · rintro ⟨a', mid', hdone, h⟩
      obtain ⟨rfl, rfl⟩ := Outcome.done.inj hdone
      exact h
  · simp
  · simp

theorem Traced.of_eq_done {read : Reader α} {it it' : Iterator} {a : α} :
    ((Traced.of read : Traced E α) it).2 = .done a it' ↔ read it = some (a, it') := by
  unfold Traced.of
  rcases read it with _ | ⟨b, mid⟩
  · simp
  · simp

/-- With no more than `n` bytes left the reader comes to an end. -/
def Proceeds (n k : Nat) (read : Traced E α) : Prop :=
  ∀ it, it.rest.length ≤ n → (read it).2.Taken k it

namespace Proceeds
variable {read : Traced E α} {f : α → Traced E β} {j k m n : Nat}

theorem pure (a : α) : Proceeds n 0 (return a : Traced E α) := fun _ _ => Nat.le_refl _

theorem of {read : Reader α} (h : Takes k read) : Proceeds n k (Traced.of read : Traced E α) := by
  intro it _
  unfold Traced.of
  cases hread : read it with
  | none => trivial
  | some r => exact h it r.1 r.2 hread

theorem emit (events : Iterator → List E) : Proceeds n 0 (Traced.emit events) :=
  fun _ _ => Nat.le_refl _

theorem mono (h : Proceeds n k read) (hmn : m ≤ n) (hjk : j ≤ k) : Proceeds m j read :=
  fun it hit => (h it (hit.trans hmn)).mono hjk

theorem bind (h : Proceeds n j read) (hf : ∀ a, Proceeds n k (f a)) :
    Proceeds n (j + k) (read >>= f) := by
  intro it hit
  have hread := h it hit
  apply Traced.taken_bind hread
  intro a mid hdone
  rw [hdone] at hread
  exact hf a mid ((Nat.le_of_add_right_le hread).trans hit)

theorem any (h : Proceeds n k read) : Proceeds n 0 read := h.mono (Nat.le_refl n) (Nat.zero_le k)

/-- What follows is what takes the bytes, as far as they are counted. -/
theorem skip (h : Proceeds n j read) (hf : ∀ a, Proceeds n k (f a)) :
    Proceeds n k (read >>= f) :=
  (h.bind hf).mono (Nat.le_refl n) (Nat.le_add_left k j)

/-- A loop whose body takes a byte before each further pass ends before the passes do. -/
theorem loop {go : Iterator → Bool} {body : Traced E (Option α)} {fuel : Nat}
    (h : Proceeds n 0 body)
    (htakes : ∀ it a mid, it.rest.length ≤ n → (body it).2 = .done (some a) mid →
      mid.rest.length < it.rest.length)
    (hfuel : n < fuel) : Proceeds n 0 (Traced.loop go body fuel) := by
  induction fuel generalizing n with
  | zero => omega
  | succ fuel ih =>
    intro it hit
    unfold Traced.loop
    by_cases hgo : go it = true
    · rw [if_pos hgo]
      refine Traced.taken_bind (j := 0) (k := 0) (h it hit) ?_
      intro o mid hdone
      cases o with
      | none => exact Nat.le_refl _
      | some a =>
        have hlt := htakes it a mid hit hdone
        have hagain : Proceeds (n - 1) 0 (Traced.loop go body fuel) := by
          refine ih (h.mono (Nat.sub_le n 1) (Nat.le_refl 0)) ?_ (by omega)
          intro it' a' mid' hit'
          exact htakes it' a' mid' (by omega)
        exact (hagain.skip fun _ => pure _) mid (by omega)
    · rw [if_neg hgo]
      exact Nat.le_refl _

theorem within {start size fuel : Nat} (h : Proceeds n 1 read) (hfuel : n < fuel) :
    Proceeds n 0 (Traced.within read start size fuel) := by
  have hsome : Proceeds n 1 (some <$> read) := h.bind fun _ => pure _
  refine (loop hsome.any ?_ hfuel).skip fun _ => pure _
  intro it a mid hit hdone
  have htaken := hsome it hit
  rw [hdone] at htaken
  exact htaken

end Proceeds

/-- In every trace of the reader the events are all of one kind just when they are all of the
other. -/
def Matches (P Q : E → Prop) (read : Traced E α) : Prop :=
  ∀ it, (∀ e ∈ (read it).1, P e) ↔ ∀ e ∈ (read it).1, Q e

namespace Matches
variable {P Q : E → Prop} {read : Traced E α} {f : α → Traced E β}

theorem pure (a : α) : Matches P Q (return a : Traced E α) := fun _ => by
  change (∀ e ∈ [], P e) ↔ ∀ e ∈ [], Q e
  simp

theorem of (read : Reader α) : Matches P Q (Traced.of read) := by
  intro it
  unfold Traced.of
  cases read it with
  | none => simp
  | some r => simp

theorem emit {events : Iterator → List E} (h : ∀ it, ∀ e ∈ events it, (P e ↔ Q e)) :
    Matches P Q (Traced.emit events) := fun it =>
  forall₂_congr fun e he => h it e he

theorem bind (h : Matches P Q read) (hf : ∀ a, Matches P Q (f a)) :
    Matches P Q (read >>= f) := by
  intro it
  rw [Traced.forall_mem_bind, Traced.forall_mem_bind]
  exact and_congr (h it) (forall₃_congr fun a mid _ => hf a mid)

theorem loop {go : Iterator → Bool} {body : Traced E (Option α)} (h : Matches P Q body)
    (fuel : Nat) : Matches P Q (Traced.loop go body fuel) := by
  induction fuel with
  | zero =>
    intro it
    unfold Traced.loop
    split
    · simp
    · simp
  | succ fuel ih =>
    intro it
    unfold Traced.loop
    split
    · refine h.bind ?_ it
      intro o
      cases o with
      | none => exact pure _
      | some a => exact ih.bind fun _ => pure _
    · simp

theorem within {start size fuel : Nat} (h : Matches P Q read) :
    Matches P Q (Traced.within read start size fuel) := by
  have hsome : Matches P Q (some <$> read) := h.bind fun _ => pure _
  exact (hsome.loop fuel).bind fun _ => pure _

end Matches

end Readers
