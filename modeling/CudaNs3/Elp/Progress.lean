import CudaNs3.Lib.Transition
import CudaNs3.Elp.RunSK

/-!
# The not-safe branch

An iteration that finds the next event not safe recomputes `safe_ts` from the bounds of the two
buffers and, if that changes nothing, swaps the buffers, which resets the bound of the one the
host turns to. Only the host writes these bounds. Two swaps reset both, and then `safe_ts` is
above every event; before each swap `safe_ts` changes at most once.
-/

namespace CudaNs3.Elp

open Transition
set_option autoImplicit false

/-- The step ends an iteration whose next event `is_safe` has found not to be safe. -/
def NotSafe (s t : State) : Prop :=
  (∃ old e lookahead, AtNext s old e lookahead ∧ s.safeTs ≤ e.ts) ∧ t.pc = .top

/-- A part of a run in which no event is removed from `m_events`, with the number of its
iterations that take the not-safe branch. -/
inductive Waits (env : Env) (s : State) : Nat → State → Prop where
  | refl : Waits env s 0 s
  | notSafe {n : Nat} {t u : State} :
      Waits env s n t → Step env t u → u.trace.removed = t.trace.removed → NotSafe t u →
      Waits env s (n + 1) u
  | beside {n : Nat} {t u : State} :
      Waits env s n t → Step env t u → u.trace.removed = t.trace.removed → ¬NotSafe t u →
      Waits env s n u

theorem State.minSafeTs_eq (s : State) (b : Buf) :
    s.minSafeTs = min (s.dSafeTs b) (s.dSafeTs b.other) := by
  unfold State.minSafeTs Buf.other
  cases b
  · simp only
    split <;> omega
  · simp only
    split <;> omega

/-- How many swaps are left until the bounds of both buffers are reset. -/
def swapsLeft (s : State) : Nat :=
  if s.dSafeTs s.hCurHostBuf = uint64Max then
    if s.dSafeTs s.hCurHostBuf.other = uint64Max then 0 else 1
  else 2

/-- How many more iterations can find the next event not safe. -/
def rank (s : State) : Nat :=
  2 * swapsLeft s + if s.safeTs = s.minSafeTs then 0 else 1

theorem rank_le (s : State) : rank s ≤ 5 := by
  have hswaps : swapsLeft s ≤ 2 := by
    unfold swapsLeft
    split
    · split <;> omega
    · omega
  unfold rank
  split <;> omega

theorem safeTs_of_rank {s : State} (h : rank s = 0) : s.safeTs = uint64Max := by
  have hmin := s.minSafeTs_eq s.hCurHostBuf
  have hsafe : s.safeTs = s.minSafeTs := by
    by_contra hne
    rw [rank, if_neg hne] at h
    omega
  rw [rank, if_pos hsafe, swapsLeft] at h
  by_cases hcur : s.dSafeTs s.hCurHostBuf = uint64Max
  · by_cases hother : s.dSafeTs s.hCurHostBuf.other = uint64Max
    · rw [hsafe, hmin, hcur, hother, min_self]
    · rw [if_pos hcur, if_neg hother] at h
      omega
  · rw [if_neg hcur] at h
    omega

theorem rank_raise {s : State} (hne : s.safeTs ≠ s.minSafeTs) :
    rank (State.again { s with safeTs := s.minSafeTs }) < rank s := by
  have hswaps : swapsLeft (State.again { s with safeTs := s.minSafeTs }) = swapsLeft s := rfl
  have hsafe : (State.again { s with safeTs := s.minSafeTs }).safeTs =
      (State.again { s with safeTs := s.minSafeTs }).minSafeTs := rfl
  rw [rank, rank, hswaps, if_pos hsafe, if_neg hne]
  exact Nat.lt_succ_self _

theorem rank_swap {s : State} (hsafe : s.safeTs = s.minSafeTs) (hlow : s.safeTs < uint64Max) :
    rank (State.again s).changeHostQueue < rank s := by
  have hmin := s.minSafeTs_eq s.hCurHostBuf
  have hswaps : swapsLeft (State.again s).changeHostQueue + 1 ≤ swapsLeft s := by
    have hcur : (State.again s).changeHostQueue.dSafeTs
        (State.again s).changeHostQueue.hCurHostBuf = uint64Max := by
      simp [State.changeHostQueue]
    have hother : (State.again s).changeHostQueue.dSafeTs
        (State.again s).changeHostQueue.hCurHostBuf.other = s.dSafeTs s.hCurHostBuf := by
      simp [State.changeHostQueue, State.again]
    rw [swapsLeft, hcur, hother, if_pos rfl, swapsLeft]
    by_cases hfull : s.dSafeTs s.hCurHostBuf = uint64Max
    · have hopen : s.dSafeTs s.hCurHostBuf.other ≠ uint64Max := by omega
      rw [if_pos hfull, if_pos hfull, if_neg hopen]
    · rw [if_neg hfull, if_neg hfull]
  rw [rank, rank, if_pos hsafe]
  split <;> omega

/-- The fields the measure reads are those the host alone writes. -/
theorem rank_frame {s t : State} (hsafe : t.safeTs = s.safeTs) (hbounds : t.dSafeTs = s.dSafeTs)
    (hcur : t.hCurHostBuf = s.hCurHostBuf) : rank t = rank s := by
  unfold rank swapsLeft State.minSafeTs
  rw [hsafe, hbounds, hcur]

theorem NotSafe.pc_ne {s t : State} (h : NotSafe s t) : t.pc ≠ s.pc := by
  obtain ⟨⟨old, e, lookahead, hat, _⟩, htop⟩ := h
  rw [htop, hat.pc]
  exact fun h => nomatch h

theorem removed_ne (l : List Event) (e : Event) : l ++ [e] ≠ l := by
  simp

/-- The value `old` that an iteration compares with is that of `safe_ts` until it is changed. -/
def OldKept (s : State) : Prop := ∀ old, s.pc = .drained old → old = s.safeTs

theorem OldKept.step {env : Env} {s t : State} (hs : OldKept s) (h : Step env s t) :
    OldKept t := by
  cases h with
  | scheduleDevEvent _ _ _ =>
    obtain ⟨m, u, heq, _, _⟩ := State.elpScheduleAll_cases
      { s with dev := s.dev.elpScheduleDevEvent.1 } s.dev.elpScheduleDevEvent.2
    rw [State.elpScheduleDevEvent, heq]
    intro old hold
    exact (HostPc.drained.inj hold).symm
  | raise _ _ _ => exact fun _ hold => nomatch hold
  | swap _ _ _ _ => exact fun _ hold => nomatch hold
  | dispatch _ _ _ _ _ _ => exact fun _ hold => nomatch hold
  | dispatchSwap _ _ _ _ _ _ _ => exact fun _ hold => nomatch hold
  | @invoke _ e _ lookahead r _ _ _ _ _ =>
    obtain ⟨m, u, heq, _, _⟩ := State.elpScheduleAll_cases
      { (s.removeNext e lookahead).again with
        mEvents := r.kept ++ r.scheduled, mCurrentTs := e.ts, mStop := r.stop } r.elpScheduled
    rw [State.invoked, heq]
    exact fun _ hold => nomatch hold
  | handle _ _ _ => exact hs
  | insert _ _ => exact hs
  | finish _ _ => exact hs

/-- What a step that removes no event does: the two outcomes of the not-safe branch, or a step
that leaves the bounds alone and may add events. -/
theorem step_keeping {env : Env} {s t : State} (hs : OldKept s) (h : Step env s t)
    (hremoved : t.trace.removed = s.trace.removed) :
    s.mEvents ⊆ t.mEvents ∧
      ((NotSafe s t ∧ (∃ e, IsNext s.mEvents e ∧ s.safeTs ≤ e.ts) ∧
        ((s.safeTs ≠ s.minSafeTs ∧ t = State.again { s with safeTs := s.minSafeTs }) ∨
          (s.safeTs = s.minSafeTs ∧ t = (State.again s).changeHostQueue))) ∨
      (¬NotSafe s t ∧ rank t = rank s)) := by
  cases h with
  | scheduleDevEvent htop _ _ =>
    obtain ⟨m, u, heq, hsub, _⟩ := State.elpScheduleAll_cases
      { s with dev := s.dev.elpScheduleDevEvent.1 } s.dev.elpScheduleDevEvent.2
    rw [State.elpScheduleDevEvent, heq]
    refine ⟨hsub, Or.inr ⟨fun hnot => ?_, rank_frame rfl rfl rfl⟩⟩
    cases hnot.2
  | @raise old e lookahead hat hle hne =>
    have hold := hs old hat.pc
    refine ⟨List.Subset.refl _, Or.inl ⟨⟨⟨old, e, lookahead, hat, hle⟩, rfl⟩,
      ⟨e, hat.next, hle⟩, Or.inl ⟨hold ▸ hne, rfl⟩⟩⟩
  | @swap old e lookahead hat hle heq _ =>
    have hold := hs old hat.pc
    have hsame : ({ s with safeTs := s.minSafeTs } : State) = s := by rw [← heq, hold]
    rw [hsame]
    refine ⟨List.Subset.refl _, Or.inl ⟨⟨⟨old, e, lookahead, hat, hle⟩, rfl⟩,
      ⟨e, hat.next, hle⟩, Or.inr ⟨hold ▸ heq, rfl⟩⟩⟩
  | dispatch _ _ _ _ _ _ =>
    exact absurd hremoved (removed_ne _ _)
  | dispatchSwap _ _ _ _ _ _ _ =>
    exact absurd hremoved (removed_ne _ _)
  | @invoke _ e _ lookahead r _ _ _ _ _ =>
    obtain ⟨m, u, heq, _, _⟩ := State.elpScheduleAll_cases
      { (s.removeNext e lookahead).again with
        mEvents := r.kept ++ r.scheduled, mCurrentTs := e.ts, mStop := r.stop } r.elpScheduled
    rw [State.invoked, heq] at hremoved
    exact absurd hremoved (removed_ne _ _)
  | handle _ _ _ =>
    exact ⟨List.Subset.refl _, Or.inr ⟨fun hnot => hnot.pc_ne rfl, rank_frame rfl rfl rfl⟩⟩
  | insert _ _ =>
    exact ⟨List.Subset.refl _, Or.inr ⟨fun hnot => hnot.pc_ne rfl, rank_frame rfl rfl rfl⟩⟩
  | finish _ _ =>
    exact ⟨List.Subset.refl _, Or.inr ⟨fun hnot => hnot.pc_ne rfl, rank_frame rfl rfl rfl⟩⟩

theorem OldKept.run {env : Env} {m : List Event} {s : State} (h : Run env (State.start m) s) :
    OldKept s :=
  run_invariant (fun _ _ hu hstep => hu.step hstep) (fun _ hold => by cases hold) h

/-- With an event pending before `UINT64_MAX`, every iteration that finds the next event not
safe lowers the measure. -/
theorem rank_notSafe {env : Env} {s t : State} (hs : OldKept s) (h : Step env s t)
    (hremoved : t.trace.removed = s.trace.removed) (hnot : NotSafe s t) {e : Event}
    (he : e ∈ s.mEvents) (hts : e.ts < uint64Max) : rank t < rank s := by
  obtain ⟨_, ⟨_, ⟨f, hnext, hle⟩, hcase⟩ | ⟨habsurd, _⟩⟩ := step_keeping hs h hremoved
  · have hlow : s.safeTs < uint64Max := (hle.trans (hnext.ts_le he)).trans_lt hts
    rcases hcase with ⟨hne, rfl⟩ | ⟨heq, rfl⟩
    · exact rank_raise hne
    · exact rank_swap heq hlow
  · exact absurd hnot habsurd

theorem Waits.rank_le {env : Env} {s t : State} {n : Nat} (h : Waits env s n t)
    (hs : OldKept s) {e : Event} (he : e ∈ s.mEvents) (hts : e.ts < uint64Max) :
    OldKept t ∧ e ∈ t.mEvents ∧ n + rank t ≤ rank s := by
  induction h with
  | refl => exact ⟨hs, he, Nat.le_of_eq (Nat.zero_add _)⟩
  | notSafe _ hstep hremoved hnot ih =>
    obtain ⟨hold, hmem, hrank⟩ := ih
    have hless := rank_notSafe hold hstep hremoved hnot hmem hts
    exact ⟨hold.step hstep, (step_keeping hold hstep hremoved).1 hmem, by omega⟩
  | beside _ hstep hremoved hnot ih =>
    obtain ⟨hold, hmem, hrank⟩ := ih
    obtain ⟨hsub, ⟨habsurd, _⟩ | ⟨_, hsame⟩⟩ := step_keeping hold hstep hremoved
    · exact absurd habsurd hnot
    · exact ⟨hold.step hstep, hsub hmem, hsame ▸ hrank⟩

/-- Where the next event is not safe, the iteration ends once the launched kernel has. -/
theorem notSafe_enabled (env : Env) {s : State} {old : Nat} {e : Event} {lookahead : Nat}
    (hat : AtNext s old e lookahead) (hle : s.safeTs ≤ e.ts) (hdone : s.KernelDone) :
    ∃ t, Step env s t ∧ NotSafe s t ∧ t.trace.removed = s.trace.removed := by
  by_cases heq : old = s.minSafeTs
  · exact ⟨_, .swap hat hle heq hdone, ⟨⟨old, e, lookahead, hat, hle⟩, rfl⟩, rfl⟩
  · exact ⟨_, .raise hat hle heq, ⟨⟨old, e, lookahead, hat, hle⟩, rfl⟩, rfl⟩

/-- At most five iterations in a row find the next event not safe; after five of them it is safe,
and before that each ends with its kernel. -/
theorem not_safe_bounded {env : Env} {m : List Event} {s : State}
    (hreach : Run env (State.start m) s) {e : Event} (he : IsNext s.mEvents e)
    (hts : e.ts < uint64Max) {n : Nat} {t : State} (h : Waits env s n t) :
    n ≤ 5 ∧ (n = 5 → ∀ f, IsNext t.mEvents f → f.ts < t.safeTs) ∧
      ∀ old f lookahead, AtNext t old f lookahead → t.safeTs ≤ f.ts → t.KernelDone →
        ∃ u, Step env t u ∧ NotSafe t u ∧ Waits env s (n + 1) u := by
  obtain ⟨_, hmem, hrank⟩ := h.rank_le (OldKept.run hreach) he.1 hts
  have hfive := rank_le s
  refine ⟨by omega, fun hn f hf => ?_, fun old f lookahead hat hle hdone => ?_⟩
  · rw [safeTs_of_rank (by omega)]
    exact (hf.ts_le hmem).trans_lt hts
  · obtain ⟨u, hstep, hnot, hremoved⟩ := notSafe_enabled env hat hle hdone
    exact ⟨u, hstep, hnot, h.notSafe hstep hremoved hnot⟩

/-- A callback behind the lookahead of a send that was dispatched makes the loop swap. -/
theorem not_safe_bounded_send : ∃ t,
    Waits (.ofHandler relay) (State.firstDispatched [⟨.callback 0, 20, 0, 4⟩]) 1 t ∧ 1 ≤ 5 ∧
    ∀ old f lookahead, AtNext t old f lookahead → t.safeTs ≤ f.ts → t.KernelDone →
      ∃ u, Step (.ofHandler relay) t u ∧ NotSafe t u ∧
        Waits (.ofHandler relay) (State.firstDispatched [⟨.callback 0, 20, 0, 4⟩]) 2 u := by
  let env : Env := .ofHandler relay
  let cb : Event := ⟨.callback 0, 20, 0, 4⟩
  let s := State.firstDispatched [cb]
  have hreach : Run env (State.start [firstSend, cb]) s :=
    run_firstDispatched env (by simp [cb])
  have hnext : IsNext [cb] cb := isNext_singleton cb
  have hdrain : Waits env s 0 { s.elpScheduleDevEvent with pc := .drained s.safeTs } := by
    refine .beside .refl (.scheduleDevEvent rfl (List.cons_ne_nil _ _) rfl) rfl fun hnot => ?_
    cases hnot.2
  have hle : 10 ≤ 20 := by decide
  have hat : AtNext { s.elpScheduleDevEvent with pc := .drained s.safeTs } 10 cb uint64Max :=
    ⟨rfl, hnext, rfl⟩
  have hwait := hdrain.notSafe (.swap hat hle rfl (fun b hb => by cases hb)) rfl
    ⟨⟨_, _, _, hat, hle⟩, rfl⟩
  obtain ⟨hbound, _, hgoes⟩ := not_safe_bounded hreach hnext (by decide) hwait
  exact ⟨_, hwait, hbound, hgoes⟩

end CudaNs3.Elp
