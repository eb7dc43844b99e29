import CudaNs3.Network.BufferString

/-!
# Isolation of Buffers that share a block

What an operation on one Buffer does to the others: nothing, unless `AddAtEnd(const Buffer&)`
joins two zero areas and then writes behind the end of the block.
-/

namespace CudaNs3.Network

open Buffer Handles
set_option autoImplicit false

/-- The handle whose Buffer the operation may change. -/
def BufferOp.target : BufferOp → Option Nat
  | .addAtStart i _ | .addAtEnd i _ | .addAtEndBuffer i _ | .removeAtStart i _
  | .removeAtEnd i _ | .assign i _ | .destroy i => some i
  | .construct _ | .createFragment _ _ _ | .createFullCopy _ | .copy _ => none

namespace World

variable {w w' : World} {op : BufferOp} {i j : Nat}

/-- After a write outside the block the language promises nothing, so anything may follow; a
failed assertion ends the program. -/
def Follows (w : World) (op : BufferOp) (w' : World) : Prop :=
  match w.step op with
  | .ok v => w' = v
  | .error .outOfBlock => True
  | .error .assertion => False

/-- No byte is written behind the end of the block. -/
def Contained (w : World) : BufferOp → Prop
  | .addAtEndBuffer i j => ∀ b, get w.buffers i = some b → ∀ o, get w.buffers j = some o →
    joins w.memory b o → ¬ overruns w.memory b o
  | _ => True

instance (w : World) : (op : BufferOp) → Decidable (w.Contained op)
  | .addAtEndBuffer i j =>
    inferInstanceAs (Decidable (∀ b ∈ get w.buffers i, ∀ o ∈ get w.buffers j,
      joins w.memory b o → ¬ overruns w.memory b o))
  | .construct _ | .addAtStart _ _ | .addAtEnd _ _ | .removeAtStart _ _ | .removeAtEnd _ _
  | .createFragment _ _ _ | .createFullCopy _ | .copy _ | .assign _ _ | .destroy _ =>
    .isTrue trivial

/-- Every block counts the Buffers that point to it, and they are within its dirty area. -/
structure Isolated (w : World) : Prop where
  count : ∀ i b, get w.buffers i = some b →
    (w.memory.blocks b.data).count = (live w.buffers).countP (·.data = b.data)
  dirty : ∀ i b, get w.buffers i = some b →
    (w.memory.blocks b.data).dirtyStart ≤ b.start ∧ b.end_ ≤ (w.memory.blocks b.data).dirtyEnd

/-- The other Buffers report what they reported. -/
def Undisturbed (w : World) (op : BufferOp) (w' : World) : Prop :=
  ∀ j, op.target ≠ some j → ∀ b, get w.buffers j = some b →
    w'.report j = w.report j ∧
      ∃ b', get w'.buffers j = some b' ∧ ∀ n, copyData w'.memory b' n = copyData w.memory b n

theorem Sound.isolated (hw : w.Sound) : w.Isolated where
  count := fun _ _ hb => Shares.count hw _ (mem_live_of_get hb)
  dirty := fun _ _ hb => ⟨(hw.placed hb).dirtyStart_le, Shares.le_dirtyEnd hw (mem_live_of_get hb)⟩

theorem get_onString {s : List (Option (List UInt8))} {l : List UInt8}
    {f : List UInt8 → List (Option (List UInt8))} (hl : get s j = some l)
    (hf : ∀ l', get (f l') j = some l) : get (onString s i f) j = some l := by
  unfold onString
  cases get s i with
  | none => exact hl
  | some l' => exact hf l'

/-- A string that is not the target stays. -/
theorem get_stringStep {s : List (Option (List UInt8))} {l : List UInt8}
    (hj : op.target ≠ some j) (hl : get s j = some l) : get (stringStep s op) j = some l := by
  have hpush : ∀ o, get (s ++ [o]) j = some l := get_push_of_some hl
  have hset : ∀ {i}, some i ≠ some j → ∀ o, get (s.set i o) j = some l := by
    intro i hij o
    rw [get_set_ne (fun h => hij (congrArg some h)), hl]
  cases op with
  | construct zeroSize => exact hpush _
  | addAtStart i ws => exact get_onString hl fun _ => hset hj _
  | addAtEnd i ws => exact get_onString hl fun _ => hset hj _
  | addAtEndBuffer i k => exact get_onString hl fun _ => get_onString hl fun _ => hset hj _
  | removeAtStart i n => exact get_onString hl fun _ => hset hj _
  | removeAtEnd i n => exact get_onString hl fun _ => hset hj _
  | createFragment i start length => exact get_onString hl fun _ => hpush _
  | createFullCopy i => exact get_onString hl fun _ => hpush _
  | copy i => exact get_onString hl fun _ => hpush _
  | assign i k => exact get_onString hl fun _ => get_onString hl fun _ => hset hj _
  | destroy i => exact get_onString hl fun _ => hset hj _

/-- One step, as far as the Buffers other than the target go. -/
theorem follows_spec (hw : w.Sound) (hpre : w.Precondition op) (hcontained : w.Contained op)
    (hstep : w.Follows op w') :
    w'.Sound ∧ ∀ j, op.target ≠ some j → ∀ l, get w.strings j = some l →
      get w'.strings j = some l := by
  by_cases hproper : w.Proper op
  · obtain ⟨v, heq, hv, hstrings⟩ := step_spec hw hpre hproper
    simp only [Follows, heq] at hstep
    subst hstep
    refine ⟨hv, fun j hj l hl => ?_⟩
    rw [hstrings]
    exact get_stringStep hj hl
  · cases op with
    | addAtEndBuffer i j =>
      simp only [Proper, not_forall] at hproper
      obtain ⟨b, hb, o, ho, hbad⟩ := hproper
      have hmem : o ∈ others w.buffers i := mem_others ho hpre
      have hon : w.step (.addAtEndBuffer i j) =
          Buffer.addAtEndBuffer w.memory b o >>= fun r => .ok (w.put i r) := by
        simp only [step, on, hb, ho]
        rfl
      by_cases hj : joins w.memory b o
      · have hrun := addAtEndBuffer_joins (hw.cons hb) hmem hj
        rw [if_neg (hcontained b hb o ho hj)] at hrun
        obtain ⟨h', x, heq, hshares, hkeeps, -⟩ := hrun
        have hput := put_spec hb ⟨hshares, hkeeps, rfl⟩
        rw [Follows, hon, heq] at hstep
        change w' = _ at hstep
        subst hstep
        refine ⟨hput.1, fun k hk l hl => ?_⟩
        rw [hput.2, get_set_ne (fun h => hk (congrArg some h)), hl]
      · -- the block is the same on both sides, and the assertion fails
        have hrun := addAtEndBuffer_general (hw.cons hb) hmem hj
        rw [if_neg hj, not_not] at hbad
        rw [if_pos hbad] at hrun
        rw [Follows, hon, hrun] at hstep
        exact hstep.elim
    | _ => exact absurd trivial hproper

theorem Sound.report {j : Nat} (hw : w.Sound) : w.report j = get w.strings j :=
  hw.agrees.report j

theorem Sound.copyData {b : Buffer} (hw : w.Sound) (hb : get w.buffers j = some b) (n : Nat) :
    ∀ l, get w.strings j = some l → copyData w.memory b n = l.take n := by
  intro l hl
  rw [strings, get_view, hb, Option.map_some, Option.some.injEq] at hl
  rw [(hw.placed hb).copyData_eq, hl]

theorem undisturbed (hw : w.Sound) (hpre : w.Precondition op) (hcontained : w.Contained op)
    (hstep : w.Follows op w') : w.Undisturbed op w' := by
  obtain ⟨hw', hkeep⟩ := follows_spec hw hpre hcontained hstep
  intro j hj b hb
  have hl : get w.strings j = some (contents w.memory b) := by
    rw [strings, get_view, hb, Option.map_some]
  have hl' := hkeep j hj _ hl
  refine ⟨by rw [hw'.report, hw.report, hl, hl'], ?_⟩
  obtain ⟨b', hb'⟩ : ∃ b', get w'.buffers j = some b' := by
    rw [strings, get_view, Option.map_eq_some_iff] at hl'
    obtain ⟨b', hb', -⟩ := hl'
    exact ⟨b', hb'⟩
  exact ⟨b', hb', fun n => by rw [hw'.copyData hb' n _ hl', hw.copyData hb n _ hl]⟩

end World

/-- Every state that operations can lead to from the start of the program. -/
def Reaches (P : World → BufferOp → Prop) (w w' : World) : Prop :=
  Relation.ReflTransGen (fun v v' => ∃ op, P v op ∧ v.Follows op v') w w'

theorem reaches_of_exec {P : World → BufferOp → Prop} {w w' : World} {ops : List BufferOp}
    (hops : Transition.Along World.perform P w ops)
    (hrun : Transition.exec World.perform w ops = some w') : Reaches P w w' := by
  induction ops generalizing w with
  | nil =>
    obtain rfl := Option.some.inj hrun
    exact Relation.ReflTransGen.refl
  | cons op ops ih =>
    obtain ⟨v, hv, hrest⟩ := Transition.exec_cons_eq_some.mp hrun
    have hstep : w.Follows op v := by
      unfold World.perform at hv
      unfold World.Follows
      rcases hs : w.step op with e | u
      · rw [hs] at hv
        exact absurd hv nofun
      · rw [hs] at hv
        exact (Option.some.inj hv).symm
    exact Relation.ReflTransGen.head ⟨op, hops.1, hstep⟩ (ih (hops.2 v hv) hrest)

end CudaNs3.Network
