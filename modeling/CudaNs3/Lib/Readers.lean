import CudaNs3.Lib.Words

/-!
# Readers of a buffer

An iterator over a buffer, readers that move it forward or fail, and rules for what a reader
makes of given bytes whatever follows them.
-/

namespace Readers

set_option autoImplicit false

universe u v

structure Iterator where
  pos : Nat
  rest : List UInt8

abbrev Reader := StateT Iterator Option

variable {α : Type} {β : Type} {X : Type u}

def byte : Reader UInt8
  | ⟨_, []⟩ => none
  | ⟨pos, b :: rest⟩ => some (b, ⟨pos + 1, rest⟩)

def bytes (n : Nat) : Reader (List UInt8) := fun it =>
  if n ≤ it.rest.length then some (it.rest.take n, ⟨it.pos + n, it.rest.drop n⟩) else none

def word (n : Nat) : Reader Nat := do
  let bs ← bytes n
  return Words.ofBytes bs

def position : Reader Nat := fun it => some (it.pos, it)

def ofOption (o : Option α) : Reader α := fun it => o.map (·, it)

/-- The iterator stays where it is. -/
def lookahead (read : Reader α) : Reader α := fun it => (read it).map fun r => (r.1, it)

def optional (there : Bool) (read : Reader α) : Reader (Option α) :=
  if there then do
    let a ← read
    return some a
  else return none

def times (read : Reader α) : Nat → Reader (List α)
  | 0 => return []
  | n + 1 => do
    let a ← read
    let as ← times read n
    return a :: as

/-- Reads until `size` bytes from `start` on have been taken, at most `fuel` times. -/
def within (read : Reader α) (start size : Nat) : Nat → Reader (List α)
  | 0 => do
    let pos ← position
    if pos - start < size then ofOption none else return []
  | fuel + 1 => do
    let pos ← position
    if pos - start < size then
      let a ← read
      let as ← within read start size fuel
      return a :: as
    else return []

/-- From `pos` on the reader takes `bs` and returns `o`, or fails when it is `none`. -/
def Reads (pos : Nat) (read : Reader α) (bs : List UInt8) (o : Option α) : Prop :=
  ∀ rest, read ⟨pos, bs ++ rest⟩ = o.map fun a => (a, ⟨pos + bs.length, rest⟩)

namespace Reads

variable {pos n : Nat} {bs cs : List UInt8} {o : Option α} {a : α} {read : Reader α}

theorem pure (a : α) : Reads pos (return a) [] (some a) := fun _ => rfl

theorem bind {f : α → Reader β} {g : α → Option β} (h : Reads pos read bs o)
    (hf : ∀ a ∈ o, Reads (pos + bs.length) (f a) cs (g a)) :
    Reads pos (read >>= f) (bs ++ cs) (o.bind g) := by
  intro rest
  change (read ⟨pos, bs ++ cs ++ rest⟩).bind (fun r => f r.1 r.2) = _
  rw [List.append_assoc, h (cs ++ rest)]
  cases o with
  | none => rfl
  | some a =>
    rw [Option.map_some, Option.bind_some, Option.bind_some, List.length_append, ← Nat.add_assoc]
    exact hf a rfl rest

/-- A reader that succeeds, followed by another one. -/
theorem seq {f : α → Reader β} {p : Option β} (h : Reads pos read bs (some a))
    (hf : Reads (pos + bs.length) (f a) cs p) : Reads pos (read >>= f) (bs ++ cs) p :=
  h.bind (g := fun _ => p) fun b hb => by
    obtain rfl := Option.some.inj hb
    exact hf

/-- A reader that takes nothing, followed by another one. -/
theorem skip {f : α → Reader β} {p : Option β} (h : Reads pos read [] (some a))
    (hf : Reads pos (f a) cs p) : Reads pos (read >>= f) cs p := h.seq hf

theorem run_bind {f : α → Reader β} (h : Reads pos read bs (some a)) (rest : List UInt8) :
    (read >>= f) ⟨pos, bs ++ rest⟩ = f a ⟨pos + bs.length, rest⟩ := by
  change (read ⟨pos, bs ++ rest⟩).bind (fun r => f r.1 r.2) = _
  rw [h rest, Option.map_some, Option.bind_some]

theorem map {f : α → β} (h : Reads pos read bs o) :
    Reads pos (read >>= fun a => return f a) bs (o.map f) := by
  have hbind := h.bind (fun a _ => @pure β (pos + bs.length) (f a))
  rw [List.append_nil] at hbind
  rw [Option.map_eq_bind]
  exact hbind

theorem position {f : Nat → Reader α} (h : Reads pos (f pos) bs o) :
    Reads pos (Readers.position >>= f) bs o := h

theorem ofOption : Reads pos (Readers.ofOption o) [] o := fun _ => rfl

theorem lookahead {f : α → Reader β} {p : Option β} (h : Reads pos read bs (some a))
    (hf : Reads pos (f a) (bs ++ cs) p) :
    Reads pos (Readers.lookahead read >>= f) (bs ++ cs) p := by
  intro rest
  change ((read ⟨pos, bs ++ cs ++ rest⟩).map fun r => (r.1, _)).bind (fun r => f r.1 r.2) = _
  rw [List.append_assoc, h (cs ++ rest), ← List.append_assoc]
  exact hf rest

theorem byte (b : UInt8) : Reads pos Readers.byte [b] (some b) := fun _ => rfl

theorem bytes (hn : bs.length = n) : Reads pos (Readers.bytes n) bs (some bs) := by
  intro rest
  subst hn
  unfold Readers.bytes
  simp

theorem word {x : Nat} (hx : x < 256 ^ n) :
    Reads pos (Readers.word n) (Words.toBytes n x) (some x) := by
  have hbytes : Reads pos (Readers.bytes n) (Words.toBytes n x) (some (Words.toBytes n x)) :=
    bytes Words.length_toBytes
  have h := hbytes.map (f := Words.ofBytes)
  rw [Option.map_some, Words.ofBytes_toBytes hx] at h
  exact h

theorem optional {x : Option α} {enc : α → List UInt8} {there : Bool} (hthere : there = x.isSome)
    (h : ∀ a ∈ x, Reads pos read (enc a) (some a)) :
    Reads pos (Readers.optional there read) (x.elim [] enc) (some x) := by
  subst hthere
  cases x with
  | none => exact pure none
  | some a => exact (h a rfl).map

theorem mapM_cons (x : X) (xs : List X) (image : X → Option α) :
    (x :: xs).mapM image = (image x).bind fun a => (xs.mapM image).map (a :: ·) := by
  rw [List.mapM_cons]
  simp only [Option.map_eq_bind]
  rfl

variable {xs : List X} {enc : X → List UInt8} {image : X → Option α}

theorem times (h : ∀ x ∈ xs, ∀ pos, Reads pos read (enc x) (image x)) (hn : xs.length = n) :
    Reads pos (Readers.times read n) (xs.flatMap enc) (xs.mapM image) := by
  subst hn
  induction xs generalizing pos with
  | nil => exact pure []
  | cons x xs ih =>
    rw [mapM_cons, List.flatMap_cons]
    exact (h x List.mem_cons_self pos).bind fun a _ =>
      (ih fun y hy => h y (List.mem_cons_of_mem x hy)).map

/-- Items of at least one byte each are read as long as there are bytes left of the size. -/
theorem within {start fuel size : Nat}
    (h : ∀ x ∈ xs, ∀ pos, Reads pos read (enc x) (image x)) (hne : ∀ x ∈ xs, enc x ≠ [])
    (hstart : start ≤ pos) (hsize : start + size = pos + (xs.flatMap enc).length)
    (hfuel : (xs.flatMap enc).length ≤ fuel) :
    Reads pos (Readers.within read start size fuel) (xs.flatMap enc) (xs.mapM image) := by
  induction xs generalizing pos fuel with
  | nil =>
    have hdone : ¬ pos - start < size := by
      rw [List.flatMap_nil, List.length_nil] at hsize
      omega
    cases fuel with
    | zero =>
      unfold Readers.within
      apply position
      rw [if_neg hdone]
      exact pure []
    | succ fuel =>
      unfold Readers.within
      apply position
      rw [if_neg hdone]
      exact pure []
  | cons x xs ih =>
    have hlen : 0 < (enc x).length := List.length_pos_iff.mpr (hne x List.mem_cons_self)
    rw [List.flatMap_cons, List.length_append] at hsize hfuel
    cases fuel with
    | zero => omega
    | succ fuel =>
      unfold Readers.within
      apply position
      rw [if_pos (by omega), mapM_cons, List.flatMap_cons]
      refine (h x List.mem_cons_self pos).bind fun a _ => ?_
      exact (ih (fun y hy => h y (List.mem_cons_of_mem x hy))
        (fun y hy => hne y (List.mem_cons_of_mem x hy)) (by omega) (by omega) (by omega)).map

end Reads

end Readers
