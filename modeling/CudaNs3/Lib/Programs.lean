/-!
# Programs over a state

What a program does to the state it runs in, said of each way it can end. A frame has a relation
for programs that end and one for programs that stop with an error, and it is kept by a program
that is put together from programs that keep it.
-/

namespace Programs

set_option autoImplicit false

universe u
variable {ε σ α β : Type u}

structure Frame (σ : Type u) where
  ends : σ → σ → Prop
  stops : σ → σ → Prop

structure Frame.Composes (F : Frame σ) : Prop where
  refl : ∀ s, F.ends s s
  trans : ∀ s t u, F.ends s t → F.ends t u → F.ends s u
  fails : ∀ s, F.stops s s
  halts : ∀ s t u, F.ends s t → F.stops t u → F.stops s u

/-- The program keeps the frame when it is started in `s`. -/
def KeptAt (F : Frame σ) (m : EStateM ε σ α) (s : σ) : Prop :=
  match m s with
  | .ok _ t => F.ends s t
  | .error _ t => F.stops s t

def Kept (F : Frame σ) (m : EStateM ε σ α) : Prop := ∀ s, KeptAt F m s

def when (c : Prop) [Decidable c] (m : EStateM ε σ PUnit) : EStateM ε σ PUnit :=
  if c then m else pure ⟨⟩

variable {F : Frame σ} {m : EStateM ε σ α} {f : α → EStateM ε σ β} {s t : σ}

theorem keptAt_ok {a : α} (h : m s = .ok a t) : KeptAt F m s ↔ F.ends s t := by
  simp [KeptAt, h]

theorem keptAt_error {e : ε} (h : m s = .error e t) : KeptAt F m s ↔ F.stops s t := by
  simp [KeptAt, h]

theorem bind_ok {a : α} (h : m s = .ok a t) : (m >>= f) s = f a t := by
  simp [bind, EStateM.bind, h]

theorem bind_error {e : ε} (h : m s = .error e t) : (m >>= f) s = .error e t := by
  simp [bind, EStateM.bind, h]

/-- A program that keeps one frame, and after it one that keeps another. -/
theorem KeptAt.seq {G H : Frame σ} (hm : KeptAt F m s)
    (hf : ∀ a t, m s = .ok a t → KeptAt G (f a) t)
    (hends : ∀ t u, F.ends s t → G.ends t u → H.ends s u) (hfails : ∀ t, F.stops s t → H.stops s t)
    (hhalts : ∀ t u, F.ends s t → G.stops t u → H.stops s u) : KeptAt H (m >>= f) s := by
  cases hms : m s with
  | ok a t =>
    have hst := (keptAt_ok hms).mp hm
    have hrest := hf a t hms
    unfold KeptAt at hrest ⊢
    rw [bind_ok hms]
    split
    · rename_i heq
      rw [heq] at hrest
      exact hends _ _ hst hrest
    · rename_i heq
      rw [heq] at hrest
      exact hhalts _ _ hst hrest
  | error e t => exact (keptAt_error (bind_error hms)).mpr (hfails t ((keptAt_error hms).mp hm))

/-- The frame, told of the programs that go on from `s`. -/
def Frame.after (F : Frame σ) (s : σ) : Frame σ where
  ends _ := F.ends s
  stops _ := F.stops s

theorem KeptAt.of_after {m' : EStateM ε σ α} (hrun : m s = m' t) (h : KeptAt (F.after s) m' t) :
    KeptAt F m s := by
  unfold KeptAt at h ⊢
  rw [hrun]
  exact h

section Composes
variable (hF : F.Composes)
include hF

theorem KeptAt.bind (hm : KeptAt F m s) (hf : ∀ a t, m s = .ok a t → KeptAt F (f a) t) :
    KeptAt F (m >>= f) s :=
  hm.seq hf (fun t u => hF.trans s t u) (fun _ h => h) (fun t u => hF.halts s t u)

theorem Kept.bind (hm : Kept F m) (hf : ∀ a, Kept F (f a)) : Kept F (m >>= f) :=
  fun s => (hm s).bind hF fun a t _ => hf a t

theorem KeptAt.after (hst : F.ends s t) (hm : KeptAt F m t) : KeptAt (F.after s) m t := by
  unfold KeptAt at hm ⊢
  split
  · rename_i heq
    rw [heq] at hm
    exact hF.trans _ _ _ hst hm
  · rename_i heq
    rw [heq] at hm
    exact hF.halts _ _ _ hst hm

theorem kept_pure (a : α) : Kept F (pure a : EStateM ε σ α) := fun s => hF.refl s

theorem kept_throw (e : ε) : Kept F (throw e : EStateM ε σ α) := fun s => hF.fails s

theorem Kept.when {c : Prop} [Decidable c] {m : EStateM ε σ PUnit} (hm : c → Kept F m) :
    Kept F (when c m) := by
  unfold Programs.when
  split
  · rename_i hc
    exact hm hc
  · exact kept_pure hF _

end Composes

theorem KeptAt.map {g : α → β} (h : KeptAt F m s) : KeptAt F (m >>= fun a => Pure.pure (g a)) s := by
  cases hms : m s with
  | ok a t =>
    rw [KeptAt, bind_ok hms]
    exact (keptAt_ok hms).mp h
  | error e t => exact (keptAt_error (bind_error hms)).mpr ((keptAt_error hms).mp h)

/-- What the program returns if it ends. -/
def Yields (P : α → Prop) (m : EStateM ε σ α) : Prop := ∀ s a t, m s = .ok a t → P a

theorem Yields.pure {P : α → Prop} {a : α} (h : P a) : Yields P (pure a : EStateM ε σ α) := by
  intro s b t hrun
  cases hrun
  exact h

theorem Yields.bind {P : β → Prop} (h : ∀ a, Yields P (f a)) : Yields P (m >>= f) := by
  intro s b u hrun
  cases hms : m s with
  | ok a t => exact h a t b u ((bind_ok hms).symm.trans hrun)
  | error e t => exact absurd ((bind_error hms).symm.trans hrun) (by simp)

theorem KeptAt.ite {c : Prop} {_ : Decidable c} {m m' : EStateM ε σ α} (hm : c → KeptAt F m s)
    (hm' : ¬ c → KeptAt F m' s) : KeptAt F (if c then m else m') s := by
  split
  · rename_i hc
    exact hm hc
  · rename_i hc
    exact hm' hc

theorem Kept.ite {c : Prop} {_ : Decidable c} {m m' : EStateM ε σ α} (hm : c → Kept F m)
    (hm' : ¬ c → Kept F m') : Kept F (if c then m else m') := by
  split
  · rename_i hc
    exact hm hc
  · rename_i hc
    exact hm' hc

end Programs
