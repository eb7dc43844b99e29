import CudaNs3.Elp.SafeBuffers

/-!
# What has been executed by when

`safe_ts` never passes `d_safe_ts1` or `d_safe_ts2`, and each of these stays below
`ts + lookahead` of every event put into its buffer until the buffer is reused. This
says which dispatched events are executed when a callback is invoked, and when the
loop can end without leaving anything behind.
-/

namespace CudaNs3.Elp

open Transition
set_option autoImplicit false

/-- `ProcessOneEvent` is about to invoke the callback of `e`. -/
structure Invokes (s : State) (e : Event) : Prop where
  next : ∃ old lookahead, AtNext s old e lookahead
  safe : e.ts < s.safeTs
  host : e.uid < deviceEvIdOffset

section SendAndCallback
variable {env : Env} {s : State}

theorem run_drain_empty {s₀ : State} (h : Run env s₀ s) (hpc : s.pc = .top)
    (hne : s.mEvents ≠ []) (hstop : s.mStop = false) (hd : s.dev.Sound)
    (hz : ∀ h, s.dev.contents h = 0) :
    ∃ d : NextEvents, d.Sound ∧ (∀ h, d.contents h = 0) ∧
      Run env s₀ { s with dev := d, pc := .drained s.safeTs } := by
  have hlist : s.dev.elpScheduleDevEvent.2 = [] := by
    rw [← Multiset.coe_eq_zero, NextEvents.elpScheduleDevEvent_list hd]
    simp [NextEvents.readyContents, hz]
  refine ⟨s.dev.elpScheduleDevEvent.1, hd.elpScheduleDevEvent, fun h => ?_, h.tail ?_⟩
  · rw [NextEvents.elpScheduleDevEvent_contents hd, hz]
    simp
  · have hstep : Step env s _ := .scheduleDevEvent hpc hne hstop
    rwa [State.elpScheduleDevEvent, hlist] at hstep

theorem firstDispatched_dev (rest : List Event) : (State.firstDispatched rest).dev.Sound ∧
    ∀ h, (State.firstDispatched rest).dev.contents h = 0 := by
  refine ⟨NextEvents.empty_sound.elpScheduleDevEvent, fun h => ?_⟩
  apply (NextEvents.elpScheduleDevEvent_contents NextEvents.empty_sound h).trans
  simp [NextEvents.empty_contents]

theorem putEntry_thrice {x y : Option SafeEntry} (i : Nat) :
    putEntry (putEntry (putEntry (fun _ _ => none) .q1 0 x) .q1 0 y) .q1 0 none .q1 i = none := by
  simp only [putEntry_apply]
  split <;> rfl

theorem run_send_callback : ∃ s,
    Run (.ofHandler fun _ => []) (State.start [firstSend, ⟨.callback 0, 20, 0, 4⟩]) s ∧
    Invokes s ⟨.callback 0, 20, 0, 4⟩ ∧ s.mEvents = [⟨.callback 0, 20, 0, 4⟩] ∧ s.KernelDone ∧
    s.trace = ⟨[firstSend], [[⟨0, 0, 0, deviceEvIdOffset, .send, 10, none⟩], []], [],
      {⟨0, 0, 0, deviceEvIdOffset, .send, 10, none⟩}⟩ := by
  let env : Env := .ofHandler fun _ => []
  let cb : Event := ⟨.callback 0, 20, 0, 4⟩
  have hcb : [cb] ≠ [] := List.cons_ne_nil _ _
  have hnext : IsNext [cb] cb := ⟨List.mem_cons_self, by simp⟩
  have hzero (k : Nat) (hk : k < 0) : False := Nat.not_lt_zero k hk
  have hlength : (0 : Nat) < deviceQueueLength := by decide
  have hlate : 10 ≤ 20 := by decide
  have hsafe : 20 < uint64Max := by decide
  have huid : 4 < deviceEvIdOffset := by decide
  have hmoved : 10 ≠ uint64Max := by decide
  have hrun : Run env (State.start [firstSend, cb]) (State.firstDispatched [cb]) :=
    run_firstDispatched env (by simp [cb])
  obtain ⟨hd, hz⟩ := firstDispatched_dev [cb]
  obtain ⟨d₁, hd₁, hz₁, hrun⟩ := run_drain_empty hrun rfl hcb rfl hd hz
  -- the bounds have not moved since the send lowered them to 10: launch the kernel
  have hrun := hrun.tail (.swap (e := cb) ⟨rfl, hnext, rfl⟩ hlate rfl
    (fun b hb => by cases hb))
  have hrun := hrun.tail (.handle (b := .q1) (i := 0)
    ⟨rfl, hlength, fun k hk => (hzero k hk).elim⟩ rfl rfl)
  have hrun := hrun.tail (.finish (b := .q1) (i := 0)
    ⟨rfl, hlength, fun k hk => (hzero k hk).elim⟩ rfl)
  obtain ⟨d₂, hd₂, hz₂, hrun⟩ := run_drain_empty hrun rfl hcb rfl hd₁.changeDevQueue
    (fun h => (NextEvents.changeDevQueue_contents d₁ h).trans (hz₁ h))
  -- they still have not moved: retire the first buffer
  have hrun := hrun.tail (.swap (e := cb) ⟨rfl, hnext, rfl⟩ hlate rfl
    (fun b hb i _ => by
      cases hb
      exact putEntry_thrice i))
  obtain ⟨d₃, hd₃, hz₃, hrun⟩ := run_drain_empty hrun rfl hcb rfl hd₂.changeDevQueue
    (fun h => (NextEvents.changeDevQueue_contents d₂ h).trans (hz₂ h))
  have hrun := hrun.tail (.raise (e := cb) ⟨rfl, hnext, rfl⟩ hlate hmoved)
  obtain ⟨d₄, hd₄, hz₄, hrun⟩ := run_drain_empty hrun rfl hcb rfl hd₃ hz₃
  refine ⟨_, hrun, ⟨⟨_, _, rfl, hnext, rfl⟩, hsafe, huid⟩, rfl, ?_, rfl⟩
  intro b hb i _
  cases hb
  rfl

end SendAndCallback

section Invoke
variable {env : Env} {s : State} {e : Event}

/-- When a callback is invoked at `t`, every dispatched event that could have an effect on
the pending events by `t` has been executed as often as it was dispatched. -/
theorem invoked_after_horizon {m : List Event} (h : Run env (State.start m) s)
    (hinv : Invokes s e) {ev : DeviceEvent} (hfinite : ev.lookahead ≠ uint64Max)
    (hle : ev.ts + ev.lookahead ≤ e.ts) :
    s.trace.dispatched.count ev = s.trace.executed.count ev := by
  have hplaced := (Placed.start m).run h
  have hbounded := (Bounded.start m).run (Placed.start m) h
  have hgone : ev ∉ s.entries := by
    intro hev
    obtain ⟨b, i, _, todo, hen⟩ := State.mem_entries.mp hev
    have hlow : s.safeTs ≤ ev.ts + ev.lookahead := hbounded.safe b i _ hen hfinite
    have hsafe := hinv.safe
    omega
  rw [← Multiset.coe_count, hplaced.accounted, Multiset.count_add,
    Multiset.count_eq_zero_of_notMem hgone, Nat.add_zero]

/-- A callback at 5 is invoked while a send at 0 waits in the buffer. -/
theorem callback_before_send :
    ∃ s e, Run (.ofHandler relay) (State.start [firstSend, ⟨.callback 0, 5, 0, 4⟩]) s ∧
      Invokes s e ∧ ∃ ev ∈ s.trace.dispatched, ev.ts < e.ts ∧ ev ∉ s.trace.executed := by
  have hdrain : Step (.ofHandler relay) (State.firstDispatched [⟨.callback 0, 5, 0, 4⟩]) _ :=
    .scheduleDevEvent rfl (List.cons_ne_nil _ _) rfl
  have hnext : IsNext [⟨.callback 0, 5, 0, 4⟩] ⟨.callback 0, 5, 0, 4⟩ :=
    ⟨List.mem_cons_self, by simp⟩
  have hsafe : 5 < 10 := by decide
  have huid : 4 < deviceEvIdOffset := by decide
  have hlate : 0 < 5 := by decide
  refine ⟨_, ⟨.callback 0, 5, 0, 4⟩, (run_firstDispatched _ (by simp)).tail hdrain,
    ⟨⟨10, uint64Max, rfl, hnext, rfl⟩, hsafe, huid⟩, _, List.mem_singleton.mpr rfl, hlate,
    Multiset.notMem_zero _⟩

theorem invoked_after_horizon_send : ∃ s,
    Run (.ofHandler fun _ => []) (State.start [firstSend, ⟨.callback 0, 20, 0, 4⟩]) s ∧
    s.trace.dispatched.count ⟨0, 0, 0, deviceEvIdOffset, .send, 10, none⟩ =
      s.trace.executed.count ⟨0, 0, 0, deviceEvIdOffset, .send, 10, none⟩ := by
  obtain ⟨s, hrun, hinv, _⟩ := run_send_callback
  exact ⟨s, hrun, invoked_after_horizon hrun hinv (by decide) (by decide)⟩

end Invoke

end CudaNs3.Elp
