import CudaNs3.Lib.Transition
import CudaNs3.Elp.RunSK

/-!
# The clock of the event loop

`ELP_ProcessOneEvent` raises `m_currentTs` and `ProcessOneEvent` assigns it, after an assertion
that the event is not before it. What keeps the assertion is that a pending event with a host
uid is never before the clock. Two things break it: `d_uid` is a 32-bit counter that runs on
into the host uids, so that a late device event is taken for a host event, and a sum of clock
and delay may not fit in 64 bits.
-/

namespace CudaNs3.Elp

open Transition
set_option autoImplicit false

/-- A call of the scheduling interface with a delay that is not negative. -/
inductive HostCall where
  | schedule (delay event : Nat)
  | scheduleWithContext (context delay event : Nat) (mainThread : Bool)

/-- `(uint64_t) (delay + TimeStep (now)).GetTimeStep ()`, where the sum of the two signed
values is defined. -/
def absoluteTs (now delay : Nat) : Option Nat :=
  if now < 2 ^ 63 ∧ 2 ^ 63 ≤ now + delay then none else some ((now + delay) % 2 ^ 64)

namespace HostCall

def delay : HostCall → Nat
  | schedule delay _ => delay
  | scheduleWithContext _ delay _ _ => delay

/-- What the call puts into `m_events`: at once, or in the next `ProcessEventsWithContext` when
another thread made it. -/
def inserts (now currentContext uid : Nat) : HostCall → Option Event
  | schedule delay event =>
    (absoluteTs now delay).map fun ts => ⟨.callback event, ts, currentContext, uid⟩
  | scheduleWithContext context delay event true =>
    (absoluteTs now delay).map fun ts => ⟨.callback event, ts, context, uid⟩
  | scheduleWithContext context delay event false =>
    some ⟨.callback event, (now + delay) % 2 ^ 64, context, uid⟩

theorem ts_of_inserts {now currentContext uid : Nat} {c : HostCall} {f : Event}
    (h : c.inserts now currentContext uid = some f) : f.ts = (now + c.delay) % 2 ^ 64 := by
  have habs {delay ts : Nat} (h : absoluteTs now delay = some ts) :
      ts = (now + delay) % 2 ^ 64 := by
    unfold absoluteTs at h
    split at h
    · cases h
    · exact (Option.some.inj h).symm
  cases c with
  | schedule delay event =>
    obtain ⟨ts, hts, rfl⟩ := Option.map_eq_some_iff.mp h
    exact habs hts
  | scheduleWithContext context delay event mainThread =>
    cases mainThread with
    | true =>
      obtain ⟨ts, hts, rfl⟩ := Option.map_eq_some_iff.mp h
      exact habs hts
    | false =>
      obtain rfl := Option.some.inj h
      rfl

end HostCall

/-- Callbacks and the threads beside them schedule host events by such calls only. -/
def Env.SchedulesByCalls (env : Env) : Prop :=
  ∀ e m r, env.invoke e m r → ∀ f ∈ r.scheduled, ∃ c : HostCall, ∃ uid < deviceEvIdOffset,
    c.delay < 2 ^ 63 ∧ c.inserts e.ts e.context uid = some f

/-- The assertion of `ProcessOneEvent`, in the state in which the loop calls it. -/
def AssertHolds (s : State) : Prop :=
  ∀ old e lookahead, AtNext s old e lookahead → e.ts < s.safeTs → e.uid < deviceEvIdOffset →
    s.mCurrentTs ≤ e.ts

/-- None of the device events gets a host uid while it is before `now`. -/
def UidsInTime (now : Nat) : Nat → List EventArgs → Prop
  | _, [] => True
  | uid, a :: as =>
    (deviceEvIdOffset ≤ uid ∨ now ≤ a.ts) ∧ UidsInTime now ((uid + 1) % 2 ^ 32) as

/-- None of the sums by which the host events were scheduled wraps. -/
def SumsInRange (e : Event) (fs : List Event) : Prop :=
  ∀ f ∈ fs, ∀ (c : HostCall) (uid : Nat), c.delay < 2 ^ 63 →
    c.inserts e.ts e.context uid = some f → e.ts + c.delay < 2 ^ 64

/-- Neither defect is met where the step drains a next-event buffer or invokes a callback. -/
structure InTime (env : Env) (s t : State) : Prop where
  drained : s.pc = .top → t = { s.elpScheduleDevEvent with pc := .drained s.safeTs } →
    UidsInTime s.mCurrentTs s.dUid s.dev.elpScheduleDevEvent.2
  invoked : ∀ e lookahead r, env.invoke e (s.mEvents.erase e) r →
    t = (s.removeNext e lookahead).again.invoked e r →
    SumsInRange e r.scheduled ∧ UidsInTime e.ts s.dUid r.elpScheduled

/-- No event that the loop takes for a host event is before the clock. -/
def NotBehind (s : State) : Prop :=
  ∀ e ∈ s.mEvents, e.uid < deviceEvIdOffset → s.mCurrentTs ≤ e.ts

namespace NotBehind
variable {s t : State}

theorem start (m : List Event) : NotBehind (State.start m) := fun _ _ _ => Nat.zero_le _

theorem asserts (hs : NotBehind s) : AssertHolds s :=
  fun _ e _ hat _ huid => hs e hat.next.1 huid

theorem frame (hs : NotBehind s) (hm : t.mEvents ⊆ s.mEvents)
    (hts : t.mCurrentTs = s.mCurrentTs) : NotBehind t := by
  intro e he huid
  rw [hts]
  exact hs e (hm he) huid

theorem elpScheduleAll (hs : NotBehind s) {as : List EventArgs}
    (h : UidsInTime s.mCurrentTs s.dUid as) : NotBehind (s.elpScheduleAll as) := by
  induction as generalizing s with
  | nil => exact hs
  | cons a as ih =>
    obtain ⟨ha, hrest⟩ := h
    have hnext : NotBehind (s.elpSchedule a) := by
      intro e he huid
      rcases List.mem_append.mp he with hold | hnew
      · exact hs e hold huid
      · obtain rfl := List.mem_singleton.mp hnew
        exact ha.resolve_left (not_le.mpr huid)
    exact ih hnext hrest

/-- The clock moves to an event that nothing pending is before. -/
theorem removeNext (hs : NotBehind s) {e : Event} (hnext : IsNext s.mEvents e)
    (lookahead : Nat) : NotBehind (s.removeNext e lookahead).again := by
  intro f hf huid
  have hold : f ∈ s.mEvents := List.mem_of_mem_erase hf
  exact max_le (hs f hold huid) (hnext.ts_le hold)

theorem invoked {e : Event} {r : HostEffect} (hnext : IsNext s.mEvents e)
    (hkept : r.kept ⊆ s.mEvents.erase e)
    (hscheduled : ∀ f ∈ r.scheduled, e.ts ≤ f.ts) (huids : UidsInTime e.ts s.dUid r.elpScheduled)
    (lookahead : Nat) : NotBehind ((s.removeNext e lookahead).again.invoked e r) := by
  apply elpScheduleAll
  · intro f hf _
    rcases List.mem_append.mp hf with hf | hf
    · exact hnext.ts_le (List.mem_of_mem_erase (hkept hf))
    · exact hscheduled f hf
  · exact huids

theorem step {env : Env} (hcalls : env.SchedulesByCalls) (hs : NotBehind s)
    (hstep : Step env s t) (htime : InTime env s t) : NotBehind t := by
  cases hstep with
  | scheduleDevEvent htop _ _ =>
    have huids := htime.drained htop rfl
    have hdrained : NotBehind s.elpScheduleDevEvent := by
      apply elpScheduleAll
      · exact hs.frame (List.Subset.refl _) rfl
      · exact huids
    exact hdrained.frame (List.Subset.refl _) rfl
  | raise _ _ _ => exact hs.frame (List.Subset.refl _) rfl
  | swap _ _ _ _ => exact hs.frame (List.Subset.refl _) rfl
  | @dispatch _ e _ lookahead hat _ _ _ _ _ =>
    exact (hs.removeNext hat.next lookahead).frame (List.Subset.refl _) rfl
  | @dispatchSwap _ e _ lookahead hat _ _ _ _ _ _ =>
    exact (hs.removeNext hat.next lookahead).frame (List.Subset.refl _) rfl
  | @invoke _ e _ lookahead r hat _ _ _ hinvoke =>
    obtain ⟨hsums, huids⟩ := htime.invoked e lookahead r hinvoke rfl
    apply invoked hat.next (env.invoke_kept e _ r hinvoke) _ huids
    intro f hf
    obtain ⟨c, uid, _, hdelay, hinserts⟩ := hcalls e _ r hinvoke f hf
    have hsum := hsums f hf c uid hdelay hinserts
    rw [HostCall.ts_of_inserts hinserts, Nat.mod_eq_of_lt hsum]
    exact Nat.le_add_right _ _
  | handle _ _ _ => exact hs.frame (List.Subset.refl _) rfl
  | insert _ _ => exact hs.frame (List.Subset.refl _) rfl
  | finish _ _ => exact hs.frame (List.Subset.refl _) rfl

end NotBehind

theorem State.elpScheduleAll_mCurrentTs (s : State) (as : List EventArgs) :
    (s.elpScheduleAll as).mCurrentTs = s.mCurrentTs := by
  obtain ⟨m, u, heq, _, _⟩ := s.elpScheduleAll_cases as
  rw [heq]

/-- Where the assertion holds, the step does not turn the clock back. -/
theorem AssertHolds.clock_le {env : Env} {s t : State} (hs : AssertHolds s)
    (hstep : Step env s t) : s.mCurrentTs ≤ t.mCurrentTs := by
  cases hstep with
  | scheduleDevEvent _ _ _ =>
    have hclock : s.elpScheduleDevEvent.mCurrentTs = s.mCurrentTs :=
      State.elpScheduleAll_mCurrentTs _ _
    exact le_of_eq hclock.symm
  | raise _ _ _ => exact le_refl _
  | swap _ _ _ _ => exact le_refl _
  | dispatch _ _ _ _ _ _ => exact le_max_left _ _
  | dispatchSwap _ _ _ _ _ _ _ => exact le_max_left _ _
  | @invoke old e _ lookahead r hat hsafe huid _ _ =>
    have hclock : ((s.removeNext e lookahead).again.invoked e r).mCurrentTs = e.ts :=
      State.elpScheduleAll_mCurrentTs _ _
    rw [hclock]
    exact hs old e lookahead hat hsafe huid
  | handle _ _ _ => exact le_refl _
  | insert _ _ => exact le_refl _
  | finish _ _ => exact le_refl _

def StepInTime (env : Env) (s t : State) : Prop := Step env s t ∧ InTime env s t

abbrev RunInTime (env : Env) : State → State → Prop := Relation.ReflTransGen (StepInTime env)

/-- Whatever the handlers insert, the clock of a run that meets neither defect never goes back,
and the assertion holds in every state of it. -/
theorem clock_never_back {env : Env} (hcalls : env.SchedulesByCalls) {m : List Event} {s : State}
    (h : RunInTime env (State.start m) s) :
    AssertHolds s ∧ ∀ t, Step env s t → s.mCurrentTs ≤ t.mCurrentTs := by
  have hs : NotBehind s :=
    run_invariant (fun _ _ hu hstep => hu.step hcalls hstep.1 hstep.2) (NotBehind.start m) h
  exact ⟨hs.asserts, fun t hstep => hs.asserts.clock_le hstep⟩

/-! A callback at 10 that calls `Schedule` with delay 3 and inserts a device event at 5. -/

def lateArgs : EventArgs := ⟨0, 5, 0, .receive, uint64Max, none⟩

def lateEnv : Env where
  handler _ out := out = []
  invoke e m r :=
    r = ⟨m, ((HostCall.schedule 3 1).inserts e.ts e.context 5).toList, [lateArgs], false⟩
  invoke_kept := by
    rintro _ m _ rfl
    exact fun _ he => he
  mp := 1
  mp_pos := Nat.one_pos

theorem clock_never_back_late : ∃ s,
    RunInTime lateEnv (State.start [⟨.callback 0, 10, 0, 4⟩]) s ∧ s.mCurrentTs = 10 ∧
    (∃ e ∈ s.mEvents, e.ts = 5) ∧
    AssertHolds s ∧ ∀ t, Step lateEnv s t → s.mCurrentTs ≤ t.mCurrentTs := by
  have hcalls : lateEnv.SchedulesByCalls := by
    rintro e m r rfl f hf
    exact ⟨.schedule 3 1, 5, by decide, by decide, Option.mem_toList.mp hf⟩
  let s₀ := State.start [⟨.callback 0, 10, 0, 4⟩]
  let s₁ := { s₀.elpScheduleDevEvent with pc := .drained uint64Max }
  let e : Event := ⟨.callback 0, 10, 0, 4⟩
  let r : HostEffect := ⟨[], [⟨.callback 1, 13, 0, 5⟩], [lateArgs], false⟩
  let s₂ := (s₁.removeNext e uint64Max).again.invoked e r
  have hdrain : StepInTime lateEnv s₀ s₁ := by
    refine ⟨.scheduleDevEvent rfl (List.cons_ne_nil _ _) rfl, ⟨fun _ _ => trivial, ?_⟩⟩
    rintro f lookahead r rfl heq
    have hpc := congrArg State.pc heq
    cases hpc
  have hnext : IsNext s₁.mEvents e := isNext_singleton e
  have hinvoke : StepInTime lateEnv s₁ s₂ := by
    refine ⟨.invoke ⟨rfl, hnext, rfl⟩ (by decide) (by decide) rfl rfl, ⟨fun htop => ?_, ?_⟩⟩
    · cases htop
    · rintro f lookahead r rfl heq
      obtain hts : 10 = f.ts := congrArg State.mCurrentTs heq
      refine ⟨fun g hg c uid hdelay hinserts => ?_, Or.inl (le_refl _), trivial⟩
      rw [← hts]
      omega
  have hrun : RunInTime lateEnv s₀ s₂ := (Relation.ReflTransGen.single hdrain).tail hinvoke
  exact ⟨s₂, hrun, rfl, by decide, clock_never_back hcalls hrun⟩

/-! While a callback runs, another thread calls `ScheduleWithContext` with a delay of
`2 ^ 63 - 1`. From `2 ^ 64 - 2` the sum wraps to `2 ^ 63 - 3`. -/

def distantCall : HostCall := .scheduleWithContext 0 (2 ^ 63 - 1) 0 false

def distantEvent (ts : Nat) : Event := ⟨.callback 0, ts, 0, 4⟩

def distantEnv : Env where
  handler _ out := out = []
  invoke e m r := r = ⟨m, [distantEvent ((e.ts + (2 ^ 63 - 1)) % 2 ^ 64)], [], false⟩
  invoke_kept := by
    rintro _ m _ rfl
    exact fun _ he => he
  mp := 1
  mp_pos := Nat.one_pos

theorem distantEnv_schedulesByCalls : distantEnv.SchedulesByCalls := by
  rintro e m r rfl f hf
  obtain rfl := List.mem_singleton.mp hf
  exact ⟨distantCall, 4, by decide, by decide, rfl⟩

/-- Before the loop test, with only this callback pending. -/
structure AwaitsDistant (s : State) (ts : Nat) : Prop where
  pc : s.pc = .top
  events : s.mEvents = [distantEvent ts]
  running : s.mStop = false
  dev : s.dev = .empty
  safe : s.safeTs = uint64Max

theorem AwaitsDistant.drained {s : State} {ts : Nat} (hs : AwaitsDistant s ts) :
    ∃ t, Run distantEnv s t ∧ AtNext t uint64Max (distantEvent ts) uint64Max ∧
      t.mEvents = [distantEvent ts] ∧ t.dev = .empty ∧ t.safeTs = uint64Max ∧
      t.mCurrentTs = s.mCurrentTs := by
  have hnone : s.elpScheduleDevEvent = s := by
    have hdev : s.dev.elpScheduleDevEvent = (s.dev, []) := by
      rw [hs.dev]
      rfl
    simp [State.elpScheduleDevEvent, hdev, State.elpScheduleAll]
  have hstep : Step distantEnv s { s with pc := .drained uint64Max } := by
    have h := @Step.scheduleDevEvent distantEnv s hs.pc (by simp [hs.events]) hs.running
    rwa [hnone, hs.safe] at h
  refine ⟨_, .single hstep, ⟨rfl, ?_, rfl⟩, hs.events, hs.dev, hs.safe, rfl⟩
  exact hs.events.symm ▸ isNext_singleton _

theorem AwaitsDistant.invoke {s : State} {ts : Nat} (hs : AwaitsDistant s ts)
    (hts : ts < uint64Max) : ∃ t, Run distantEnv s t ∧
      AwaitsDistant t ((ts + (2 ^ 63 - 1)) % 2 ^ 64) ∧ t.mCurrentTs = ts := by
  obtain ⟨u, hrun, hat, hevents, hdev, hsafe, _⟩ := hs.drained
  have huid : 4 < deviceEvIdOffset := by decide
  have hstep := hrun.tail (Step.invoke hat (hsafe ▸ hts) huid rfl rfl)
  refine ⟨_, hstep, ⟨rfl, ?_, rfl, hdev, ?_⟩, rfl⟩
  · simp [State.invoked, State.elpScheduleAll, hevents, distantEvent]
  · simpa [State.invoked, State.elpScheduleAll, State.again, State.removeNext, lowerTs] using hsafe

/-- The sum of clock and delay wraps, and the assertion fails on the event. -/
theorem clock_goes_back :
    ¬ ∀ (env : Env) (m : List Event) (s : State), env.SchedulesByCalls →
      Run env (State.start m) s →
      AssertHolds s ∧ ∀ t, Step env s t → s.mCurrentTs ≤ t.mCurrentTs := by
  intro h
  have hstart : AwaitsDistant (State.start [distantEvent (2 ^ 63 - 1)]) (2 ^ 63 - 1) :=
    ⟨rfl, rfl, rfl, rfl, rfl⟩
  obtain ⟨s, hrun₁, hs, _⟩ := hstart.invoke (by decide)
  obtain ⟨t, hrun₂, ht, hclock⟩ := hs.invoke (by decide)
  obtain ⟨u, hrun₃, hat, _, _, hsafe, hclock'⟩ := ht.drained
  have hassert := (h distantEnv _ u distantEnv_schedulesByCalls
    ((hrun₁.trans hrun₂).trans hrun₃)).1
  have hle := hassert _ _ _ hat (by rw [hsafe]; decide) (by decide)
  rw [hclock', hclock] at hle
  exact absurd hle (by decide)

end CudaNs3.Elp
