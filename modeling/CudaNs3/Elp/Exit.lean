import CudaNs3.Elp.Horizon

/-!
# What is left when the loop ends

The loop ends when `m_events` is empty; the entries of the safe-event buffers and the
events of the next-event buffers are not looked at. A send that is dispatched last is
never executed. The loop leaves nothing behind when the last event removed is a
callback that lies behind the horizon of every window.
-/

namespace CudaNs3.Elp

open Transition
set_option autoImplicit false

structure Empty (s : State) : Prop where
  host : ∀ b i, s.hSafeEventQueue b i = none
  device : ∀ h, s.dev.contents h = 0

/-- Each window that is not empty has an event whose lookahead ends by `t`. -/
def Retired (tr : Trace) (t : Nat) : Prop :=
  ∀ w ∈ tr.windows ++ [tr.window], w ≠ [] →
    ∃ ev ∈ w, ev.lookahead ≠ uint64Max ∧ ev.ts + ev.lookahead ≤ t

def Trace.lastWindow (tr : Trace) : List DeviceEvent := tr.windows.getLast?.getD []

theorem Retired.window {tr : Trace} {t : Nat} (h : Retired tr t) (hne : tr.window ≠ []) :
    ∃ ev ∈ tr.window, ev.lookahead ≠ uint64Max ∧ ev.ts + ev.lookahead ≤ t :=
  h _ (by simp) hne

theorem Retired.lastWindow {tr : Trace} {t : Nat} (h : Retired tr t) (hne : tr.lastWindow ≠ []) :
    ∃ ev ∈ tr.lastWindow, ev.lookahead ≠ uint64Max ∧ ev.ts + ev.lookahead ≤ t := by
  refine h _ (List.mem_append_left _ ?_) hne
  unfold Trace.lastWindow at hne ⊢
  cases hlast : tr.windows.getLast? with
  | none => simp [hlast] at hne
  | some w => exact List.mem_of_getLast? hlast

/-- How the bounds and the buffers go with the current and the last window. -/
structure Windowed (s : State) : Prop where
  sound : s.dev.Sound
  low : ∀ b, s.safeTs ≤ s.dSafeTs b
  top : ∀ b, s.dSafeTs b ≤ uint64Max
  current : ∀ ev ∈ s.trace.window, ev.lookahead ≠ uint64Max →
    s.dSafeTs s.hCurHostBuf ≤ ev.ts + ev.lookahead
  launched : ∀ ev ∈ s.trace.lastWindow, ev.lookahead ≠ uint64Max →
    s.dSafeTs s.hCurHostBuf.other ≤ ev.ts + ev.lookahead
  filling : s.trace.window = [] → ∀ i, s.hSafeEventQueue s.hCurHostBuf i = none
  running : s.trace.lastWindow = [] → ∀ i, s.hSafeEventQueue s.hCurHostBuf.other i = none
  produced : s.trace.lastWindow = [] → ∀ h, ∀ ev ∈ s.dev.contents h,
    s.pc = .top ∧ s.dev.dBufrdy h = true

namespace Windowed
variable {s : State}

theorem start (m : List Event) : Windowed (State.start m) where
  sound := NextEvents.empty_sound
  low := fun _ => le_refl _
  top := fun _ => le_refl _
  current := by simp [State.start]
  launched := by simp [State.start, Trace.lastWindow]
  filling := fun _ _ => rfl
  running := fun _ _ => rfl
  produced := by simp [State.start, NextEvents.empty_contents]

theorem empty (hs : Windowed s) {old t : Nat} (hpc : s.pc = .drained old) (ht : t < s.safeTs)
    (hret : Retired s.trace t) : Empty s := by
  have hwindow : s.trace.window = [] := by
    by_contra hne
    obtain ⟨ev, hev, hfinite, hle⟩ := hret.window hne
    have hbound := (hs.low _).trans (hs.current ev hev hfinite)
    omega
  have hlast : s.trace.lastWindow = [] := by
    by_contra hne
    obtain ⟨ev, hev, hfinite, hle⟩ := hret.lastWindow hne
    have hbound := (hs.low _).trans (hs.launched ev hev hfinite)
    omega
  refine ⟨fun b i => ?_, fun h => ?_⟩
  · rcases s.hCurHostBuf.eq_or_other b with rfl | rfl
    · exact hs.filling hwindow i
    · exact hs.running hlast i
  · refine Multiset.eq_zero_of_forall_notMem fun ev hev => ?_
    have htop := (hs.produced hlast h ev hev).1
    simp [hpc] at htop

theorem scheduleDevEvent (hs : Windowed s) :
    Windowed { s.elpScheduleDevEvent with pc := .drained s.safeTs } := by
  obtain ⟨m, u, heq, _, _⟩ := State.elpScheduleAll_cases
    { s with dev := s.dev.elpScheduleDevEvent.1 } s.dev.elpScheduleDevEvent.2
  rw [State.elpScheduleDevEvent, heq]
  refine ⟨hs.sound.elpScheduleDevEvent, hs.low, hs.top, hs.current, hs.launched, hs.filling,
    hs.running, fun hlast h ev hev => ?_⟩
  rw [NextEvents.elpScheduleDevEvent_contents hs.sound] at hev
  split at hev
  · simp at hev
  · rename_i hrdy
    exact absurd (hs.produced hlast h ev hev).2 hrdy

theorem raise (hs : Windowed s) {old : Nat} (hpc : s.pc = .drained old) :
    Windowed (State.again { s with safeTs := s.minSafeTs }) := by
  refine ⟨hs.sound, s.minSafeTs_le, hs.top, hs.current, hs.launched, hs.filling, hs.running,
    fun hlast h ev hev => ?_⟩
  have htop := (hs.produced hlast h ev hev).1
  simp [hpc] at htop

theorem changeHostQueue (hs : Windowed s) (hplaced : Placed s) (hdone : s.KernelDone)
    (hpc : s.pc = .top) : Windowed s.changeHostQueue := by
  have hlast : s.changeHostQueue.trace.lastWindow = s.trace.window := by
    simp [State.changeHostQueue, Trace.lastWindow]
  have hsafe (b : Buf) : s.changeHostQueue.dSafeTs b =
      if b = s.hCurHostBuf.other then uint64Max else s.dSafeTs b := by
    by_cases hb : b = s.hCurHostBuf.other
    · subst hb
      simp [State.changeHostQueue]
    · simp [State.changeHostQueue, hb]
  have hcur : s.changeHostQueue.hCurHostBuf.other = s.hCurHostBuf := by
    simp [State.changeHostQueue]
  refine ⟨hs.sound.changeDevQueue, fun b => ?_, fun b => ?_, ?_, ?_, ?_, ?_, ?_⟩
  · rw [hsafe]
    split
    · exact (hs.low b).trans (hs.top b)
    · exact hs.low b
  · rw [hsafe]
    split
    · exact le_refl _
    · exact hs.top b
  · intro ev hev
    simp [State.changeHostQueue] at hev
  · intro ev hev hfinite
    rw [hlast] at hev
    rw [hcur, hsafe, if_neg (Buf.ne_other _)]
    exact hs.current ev hev hfinite
  · exact fun _ i => hplaced.other_empty hdone i
  · intro hw i
    rw [hlast] at hw
    rw [hcur]
    exact hs.filling hw i
  · intro _ h ev hev
    have hev' : ev ∈ s.dev.contents h := NextEvents.changeDevQueue_contents s.dev h ▸ hev
    rw [← hs.sound.all_ready h] at hev'
    exact ⟨hpc, (NextEvents.mem_readyContents.mp hev').1⟩

theorem removeNext (hs : Windowed s) {old : Nat} (hpc : s.pc = .drained old) (e : Event)
    (lookahead : Nat) : Windowed (s.removeNext e lookahead).again := by
  refine ⟨hs.sound, fun b => (lowerTs_le _ _ _).trans (hs.low b), hs.top, hs.current, hs.launched,
    hs.filling, hs.running, fun hlast h ev hev => ?_⟩
  have htop := (hs.produced hlast h ev hev).1
  simp [hpc] at htop

theorem lowerTs_mono {bound bound' ts lookahead : Nat} (h : bound ≤ bound') :
    lowerTs bound ts lookahead ≤ lowerTs bound' ts lookahead := by
  unfold lowerTs
  split
  · split
    · exact le_refl _
    · omega
  · split
    · rename_i h₁ h₂
      exact not_lt.mp fun hlt => h₁ ⟨h₂.1, hlt⟩
    · exact h

theorem hInsertSort (hs : Windowed s) (ev : DeviceEvent) :
    Windowed (s.hInsertSort ev) := by
  have hcur : (s.hInsertSort ev).dSafeTs s.hCurHostBuf =
      lowerTs (s.dSafeTs s.hCurHostBuf) ev.ts ev.lookahead := by
    simp [State.hInsertSort]
  have hother : (s.hInsertSort ev).dSafeTs s.hCurHostBuf.other = s.dSafeTs s.hCurHostBuf.other := by
    simp [State.hInsertSort]
  refine ⟨hs.sound, fun b => ?_, fun b => ?_, ?_, ?_, ?_, ?_, hs.produced⟩
  · rcases s.hCurHostBuf.eq_or_other b with rfl | rfl
    · rw [hcur]
      exact lowerTs_mono (hs.low _)
    · rw [hother]
      exact (lowerTs_le _ _ _).trans (hs.low _)
  · rcases s.hCurHostBuf.eq_or_other b with rfl | rfl
    · rw [hcur]
      exact (lowerTs_le _ _ _).trans (hs.top _)
    · rw [hother]
      exact hs.top _
  · intro ev' hev' hfinite
    apply (le_of_eq hcur).trans
    rcases List.mem_append.mp hev' with hold | hnew
    · exact (lowerTs_le _ _ _).trans (hs.current ev' hold hfinite)
    · obtain rfl := List.mem_singleton.mp hnew
      exact lowerTs_le_sum hfinite
  · intro ev' hev' hfinite
    exact (le_of_eq hother).trans (hs.launched ev' hev' hfinite)
  · intro hw
    simp [State.hInsertSort] at hw
  · intro hw i
    apply (State.hInsertSort_queue s ev s.hCurHostBuf.other i).trans
    rw [if_neg (fun h => Buf.other_ne _ h.1)]
    exact hs.running hw i

theorem threadStep (hs : Windowed s) (hplaced : Placed s) {env : Env} {b : Buf} {i : Nat}
    (hi : s.Reached env b i) {old : SafeEntry} (hen : s.hSafeEventQueue b i = some old)
    (en : Option SafeEntry) {dev : NextEvents} (done : Multiset DeviceEvent) (hsound : dev.Sound) :
    Windowed (s.threadStep b i en dev done) := by
  have hb : b = s.hCurHostBuf.other := hplaced.launched b hi.1
  have hlast : s.trace.lastWindow ≠ [] := by
    intro hw
    rw [hb, hs.running hw] at hen
    simp at hen
  refine ⟨hsound, hs.low, hs.top, hs.current, hs.launched, fun hw k => ?_,
    fun hw => absurd hw hlast, fun hw => absurd hw hlast⟩
  apply (State.threadStep_queue s b i en dev done s.hCurHostBuf k).trans
  rw [if_neg (fun h => Buf.ne_other _ (h.1.trans hb))]
  exact hs.filling hw k

theorem invoked (hs : Windowed s) (e : Event) (r : HostEffect) : Windowed (s.invoked e r) := by
  obtain ⟨m, u, heq, _, _⟩ := State.elpScheduleAll_cases
    { s with mEvents := r.kept ++ r.scheduled, mCurrentTs := e.ts, mStop := r.stop }
    r.elpScheduled
  rw [State.invoked, heq]
  exact ⟨hs.sound, hs.low, hs.top, hs.current, hs.launched, hs.filling, hs.running, hs.produced⟩

theorem step {env : Env} {t : State} (hs : Windowed s) (hplaced : Placed s) (h : Step env s t) :
    Windowed t := by
  cases h with
  | scheduleDevEvent _ _ _ => exact hs.scheduleDevEvent
  | raise hat _ _ => exact hs.raise hat.pc
  | swap hat _ _ hdone =>
    exact (hs.raise hat.pc).changeHostQueue (hplaced.frame rfl) hdone rfl
  | @dispatch _ e ev lookahead hat _ _ _ _ _ =>
    exact (hs.removeNext hat.pc e lookahead).hInsertSort _
  | @dispatchSwap _ e ev lookahead hat _ _ _ _ hdone _ =>
    exact ((hs.removeNext hat.pc e lookahead).changeHostQueue
      (hplaced.frame rfl) hdone rfl).hInsertSort _
  | @invoke _ e _ lookahead r hat _ _ _ _ => exact (hs.removeNext hat.pc e lookahead).invoked e r
  | handle hi hen _ => exact hs.threadStep hplaced hi hen _ _ hs.sound
  | insert hi hen =>
    exact hs.threadStep hplaced hi hen _ _
      (hs.sound.dInsertRound ((Nat.mod_le _ _).trans_lt hi.2.1) _)
  | finish hi hen => exact hs.threadStep hplaced hi hen _ _ hs.sound

end Windowed

/-- What the buffers hold once nothing is pending, by the last event removed. -/
structure Outcome (s : State) : Prop where
  unused : s.trace.removed = [] → Empty s
  device : ∀ e, s.trace.removed.getLast? = some e → deviceEvIdOffset ≤ e.uid → s.mEvents = [] →
    ∃ i en, s.hSafeEventQueue s.hCurHostBuf i = some en
  callback : ∀ e, s.trace.removed.getLast? = some e → e.uid < deviceEvIdOffset →
    Retired s.trace e.ts → s.mEvents = [] → Empty s

namespace Outcome
variable {s : State}

theorem start (m : List Event) : Outcome (State.start m) := by
  constructor
  · exact fun _ => ⟨fun _ _ => rfl, fun h => NextEvents.empty_contents h⟩
  · intro e he
    simp [State.start] at he
  · intro e he
    simp [State.start] at he

theorem of_pending {t : State} (hs : Outcome s) (hpending : t.mEvents ≠ [])
    (hremoved : t.trace.removed = s.trace.removed)
    (hqueue : t.hSafeEventQueue = s.hSafeEventQueue)
    (hdev : (∀ h, s.dev.contents h = 0) → ∀ h, t.dev.contents h = 0) : Outcome t := by
  refine ⟨fun hnone => ?_, fun e _ _ h => absurd h hpending, fun e _ _ _ h => absurd h hpending⟩
  obtain ⟨hhost, hdevice⟩ := hs.unused (hremoved ▸ hnone)
  exact ⟨by rwa [hqueue], hdev hdevice⟩

theorem dispatched {e : Event} (hlast : s.trace.removed.getLast? = some e)
    (huid : deviceEvIdOffset ≤ e.uid)
    (hentry : ∃ i en, s.hSafeEventQueue s.hCurHostBuf i = some en) : Outcome s := by
  refine ⟨fun hnone => ?_, fun _ _ _ _ => hentry, fun f hf hlt => ?_⟩
  · simp [hnone] at hlast
  · obtain rfl := Option.some.inj (hlast.symm.trans hf)
    omega

theorem hInsertSort_entry (s : State) (ev : DeviceEvent) :
    ∃ i en, (s.hInsertSort ev).hSafeEventQueue (s.hInsertSort ev).hCurHostBuf i = some en := by
  refine ⟨s.hInsertIndex ev.type, ⟨ev, none⟩, ?_⟩
  exact (State.hInsertSort_queue s ev s.hCurHostBuf _).trans (if_pos ⟨rfl, rfl⟩)

theorem threadStep (hs : Outcome s) (hplaced : Placed s) {env : Env} {b : Buf} {i : Nat}
    (hi : s.Reached env b i) {old : SafeEntry} (hen : s.hSafeEventQueue b i = some old)
    (en : Option SafeEntry) (dev : NextEvents) (done : Multiset DeviceEvent) :
    Outcome (s.threadStep b i en dev done) := by
  have hfull : ¬Empty s := by
    intro h
    rw [h.host] at hen
    simp at hen
  have hb : s.hCurHostBuf ≠ b := by
    rw [hplaced.launched b hi.1]
    exact Buf.ne_other _
  refine ⟨fun h => absurd (hs.unused h) hfull, fun e he huid hnil => ?_,
    fun e he huid hret hnil => absurd (hs.callback e he huid hret hnil) hfull⟩
  obtain ⟨k, en', hk⟩ := hs.device e he huid hnil
  refine ⟨k, en', (State.threadStep_queue s b i en dev done s.hCurHostBuf k).trans ?_⟩
  rwa [if_neg (fun h => hb h.1)]

theorem step {env : Env} {t : State} (hs : Outcome s) (hplaced : Placed s)
    (hwindowed : Windowed s) (h : Step env s t) : Outcome t := by
  cases h with
  | scheduleDevEvent _ hne _ =>
    obtain ⟨m, u, heq, hsub, _⟩ := State.elpScheduleAll_cases
      { s with dev := s.dev.elpScheduleDevEvent.1 } s.dev.elpScheduleDevEvent.2
    rw [State.elpScheduleDevEvent, heq]
    obtain ⟨e, he⟩ := List.exists_mem_of_ne_nil _ hne
    refine hs.of_pending (List.ne_nil_of_mem (hsub he)) rfl rfl fun hz h => ?_
    apply (NextEvents.elpScheduleDevEvent_contents hwindowed.sound h).trans
    simp [hz]
  | raise hat _ _ => exact hs.of_pending (List.ne_nil_of_mem hat.next.1) rfl rfl fun hz => hz
  | swap hat _ _ _ =>
    refine hs.of_pending (List.ne_nil_of_mem hat.next.1) rfl rfl fun hz h => ?_
    exact (NextEvents.changeDevQueue_contents s.dev h).trans (hz h)
  | @dispatch _ e ev lookahead _ _ huid _ _ _ =>
    refine dispatched (e := e) ?_ huid (hInsertSort_entry _ _)
    simp [State.hInsertSort, State.again, State.removeNext]
  | @dispatchSwap _ e ev lookahead _ _ huid _ _ _ _ =>
    refine dispatched (e := e) ?_ huid (hInsertSort_entry _ _)
    simp [State.hInsertSort, State.changeHostQueue, State.again, State.removeNext]
  | @invoke _ e _ lookahead r hat hsafe huid _ _ =>
    obtain ⟨m, u, heq, _, _⟩ := State.elpScheduleAll_cases
      { (s.removeNext e lookahead).again with
        mEvents := r.kept ++ r.scheduled, mCurrentTs := e.ts, mStop := r.stop } r.elpScheduled
    rw [State.invoked, heq]
    have hlast : (s.trace.removed ++ [e]).getLast? = some e := by simp
    refine ⟨fun hnone => by simp [State.again, State.removeNext] at hnone, ?_, ?_⟩
    · intro f hf hge
      obtain rfl := Option.some.inj (hlast.symm.trans hf)
      omega
    · intro f hf _ hret _
      obtain rfl := Option.some.inj (hlast.symm.trans hf)
      obtain ⟨hhost, hdevice⟩ := hwindowed.empty hat.pc hsafe hret
      exact ⟨hhost, hdevice⟩
  | handle hi hen _ => exact hs.threadStep hplaced hi hen _ _ _
  | insert hi hen => exact hs.threadStep hplaced hi hen _ _ _
  | finish hi hen => exact hs.threadStep hplaced hi hen _ _ _

end Outcome

theorem Run.outcome {env : Env} {m : List Event} {s : State} (h : Run env (State.start m) s) :
    Windowed s ∧ Outcome s := by
  induction h with
  | refl => exact ⟨Windowed.start m, Outcome.start m⟩
  | tail hr hstep ih =>
    obtain ⟨hwindowed, houtcome⟩ := ih
    have hplaced := (Placed.start m).run hr
    exact ⟨hwindowed.step hplaced hstep, houtcome.step hplaced hwindowed hstep⟩

/-- The last event removed is a callback behind the horizon of every window. -/
def Settled (tr : Trace) : Prop :=
  ∀ e, tr.removed.getLast? = some e → e.uid < deviceEvIdOffset ∧ Retired tr e.ts

/-- A run that ends settled leaves nothing behind; one that ends with the dispatch of a device
event always does. -/
theorem exit_leaves_nothing {env : Env} {m : List Event} {s : State}
    (h : Run env (State.start m) s) (hexit : Exited s) :
    (Settled s.trace → Empty s) ∧
    (∀ e, s.trace.removed.getLast? = some e → deviceEvIdOffset ≤ e.uid → ¬Empty s) := by
  obtain ⟨_, houtcome⟩ := h.outcome
  refine ⟨fun hsettled => ?_, fun e he huid hempty => ?_⟩
  · cases hlast : s.trace.removed.getLast? with
    | none => exact houtcome.unused (List.getLast?_eq_none_iff.mp hlast)
    | some e =>
      obtain ⟨huid, hret⟩ := hsettled e hlast
      exact houtcome.callback e hlast huid hret hexit.2.1
  · obtain ⟨i, en, hen⟩ := houtcome.device e he huid hexit.2.1
    rw [hempty.host] at hen
    simp at hen

/-- A send that is the only event is dispatched, and the loop ends before it is executed. -/
theorem send_left_behind : ∃ s, Run (.ofHandler relay) (State.start [firstSend]) s ∧
    Exited s ∧ ¬Empty s := by
  refine ⟨State.firstDispatched [], run_firstDispatched _ (by simp),
    ⟨rfl, rfl, rfl, fun b hb => by cases hb⟩, fun h => ?_⟩
  have hnone : some _ = none := h.host .q1 0
  simp at hnone

/-- The callback at 20 lies behind the lookahead of the send at 0. -/
theorem exit_leaves_nothing_send : ∃ s,
    Run (.ofHandler fun _ => []) (State.start [firstSend, ⟨.callback 0, 20, 0, 4⟩]) s ∧
    Exited s ∧ Empty s := by
  obtain ⟨s, hrun, ⟨⟨old, lookahead, hat⟩, hsafe, hhost⟩, hevents, hdone, htrace⟩ :=
    run_send_callback
  have hrun := hrun.tail (.invoke hat hsafe hhost rfl rfl)
  have hexit : Exited ((s.removeNext ⟨.callback 0, 20, 0, 4⟩ lookahead).again.invoked
      ⟨.callback 0, 20, 0, 4⟩ ⟨s.mEvents.erase ⟨.callback 0, 20, 0, 4⟩, [], [], false⟩) := by
    refine ⟨rfl, ?_, rfl, hdone⟩
    simp [State.invoked, State.elpScheduleAll, hevents]
  refine ⟨_, hrun, hexit, (exit_leaves_nothing hrun hexit).1 ?_⟩
  intro e he
  replace he : (s.trace.removed ++ [(⟨.callback 0, 20, 0, 4⟩ : Event)]).getLast? = some e := he
  obtain rfl : (⟨.callback 0, 20, 0, 4⟩ : Event) = e := by simpa using he
  refine ⟨hhost, ?_⟩
  intro w hw hne
  replace hw : w ∈ s.trace.windows ++ [s.trace.window] := hw
  rw [htrace] at hw
  have hw' : w = [⟨0, 0, 0, deviceEvIdOffset, .send, 10, none⟩] ∨ w = [] := by simpa using hw
  rcases hw' with rfl | rfl
  · exact ⟨_, List.mem_singleton.mpr rfl, by decide, by decide⟩
  · exact absurd rfl hne

end CudaNs3.Elp
