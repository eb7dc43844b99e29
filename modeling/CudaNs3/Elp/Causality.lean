import CudaNs3.Lib.Frontier
import CudaNs3.Elp.SafeBuffers

/-!
# Conservative synchronisation

The event loop as a conservative dispatcher: an entry of a safe-event buffer promises
`ts + lookahead`, an event in a next-event buffer promises its own timestamp, and
`safe_ts` is below every promise whenever the loop looks at it.
-/

namespace CudaNs3.Elp

open Transition
set_option autoImplicit false

/-- Handlers honour the lookahead, and callbacks do not schedule in the past. -/
structure Env.Causal (env : Env) : Prop where
  handler : ∀ ev out, env.handler ev out → ∀ a ∈ out,
    ev.lookahead ≠ uint64Max ∧ ev.ts + ev.lookahead ≤ a.ts
  scheduled : ∀ e m r, env.invoke e m r → ∀ f ∈ r.scheduled, e.ts ≤ f.ts
  elpScheduled : ∀ e m r, env.invoke e m r → ∀ a ∈ r.elpScheduled, e.ts ≤ a.ts

namespace State

def promises (s : State) : Set Nat :=
  {p | (∃ b i en, s.hSafeEventQueue b i = some en ∧ en.ev.lookahead ≠ uint64Max ∧
      p = en.ev.ts + en.ev.lookahead) ∨ ∃ h, ∃ ev ∈ s.dev.contents h, p = ev.ts}

def dispatcher (s : State) : Frontier.Machine Nat where
  pending := {t | ∃ e ∈ s.mEvents, t = e.ts}
  promises := s.promises
  log := s.trace.removed.map Event.ts

end State

/-- What the loop keeps for a causal environment. An event of a next-event buffer that is
below the bound of the launched buffer comes from an earlier kernel: its buffer is ready
and the host drains it before it looks at `safe_ts` again. -/
structure Conservative (s : State) : Prop where
  sound : s.dev.Sound
  bounded : Bounded s
  todo : ∀ b i ev out, s.hSafeEventQueue b i = some ⟨ev, some out⟩ → ∀ a ∈ out,
    ev.lookahead ≠ uint64Max ∧ ev.ts + ev.lookahead ≤ a.ts
  safe : ∀ h, ∀ ev ∈ s.dev.contents h, s.safeTs ≤ ev.ts
  fresh : ∀ h, ∀ ev ∈ s.dev.contents h,
    s.dSafeTs s.hCurHostBuf.other ≤ ev.ts ∨ (s.pc = .top ∧ s.dev.dBufrdy h = true)
  ordered : Frontier.Ordered s.dispatcher

namespace Conservative
variable {s : State}

theorem start (m : List Event) : Conservative (State.start m) where
  sound := NextEvents.empty_sound
  bounded := Bounded.start m
  todo := by simp [State.start]
  safe := by simp [State.start, NextEvents.empty_contents]
  fresh := by simp [State.start, NextEvents.empty_contents]
  ordered := Frontier.ordered_of_nil _ _

theorem safe_promises (hs : Conservative s) : ∀ p ∈ s.promises, s.safeTs ≤ p := by
  rintro p (⟨b, i, en, hen, hne, rfl⟩ | ⟨h, ev, hev, rfl⟩)
  · exact hs.bounded.safe b i en hen hne
  · exact hs.safe h ev hev

theorem ordered_of_admissible {t : State} (hs : Conservative s)
    (hpending : ∀ e ∈ t.mEvents, e ∈ s.mEvents ∨ Frontier.Admissible s.dispatcher e.ts)
    (hpromises : ∀ p ∈ t.promises, Frontier.Admissible s.dispatcher p)
    (hremoved : t.trace.removed = s.trace.removed) : Frontier.Ordered t.dispatcher := by
  have hstep : Frontier.Step s.dispatcher
      ⟨t.dispatcher.pending, t.dispatcher.promises, s.dispatcher.log⟩ := by
    apply Frontier.Step.evolve
    · rintro x ⟨e, he, rfl⟩
      rcases hpending e he with hold | hnew
      · exact Or.inl ⟨e, hold, rfl⟩
      · exact Or.inr hnew
    · exact hpromises
  have hordered := hs.ordered.step hstep
  have hlog : s.dispatcher.log = t.dispatcher.log := by simp [State.dispatcher, hremoved]
  rwa [hlog] at hordered

theorem admissible_of_promise {p x : Nat} (hp : p ∈ s.promises) (hx : p ≤ x) :
    Frontier.Admissible s.dispatcher x :=
  Or.inl ⟨p, hp, hx⟩

theorem admissible_of_late {x : Nat} (hx : ∀ f ∈ s.trace.removed, f.ts ≤ x) :
    Frontier.Admissible s.dispatcher x := by
  refine Or.inr fun l hl => ?_
  obtain ⟨f, hf, rfl⟩ := List.mem_map.mp hl
  exact hx f hf

theorem scheduleDevEvent (hs : Conservative s) :
    Conservative { s.elpScheduleDevEvent with pc := .drained s.safeTs } := by
  obtain ⟨m, u, heq, _, hm⟩ := State.elpScheduleAll_cases
    { s with dev := s.dev.elpScheduleDevEvent.1 } s.dev.elpScheduleDevEvent.2
  have hcontents (h : Buf) (ev : DeviceEvent)
      (hev : ev ∈ s.dev.elpScheduleDevEvent.1.contents h) :
      s.dev.dBufrdy h = false ∧ ev ∈ s.dev.contents h := by
    rw [NextEvents.elpScheduleDevEvent_contents hs.sound] at hev
    split at hev
    · simp at hev
    · rename_i hrdy
      exact ⟨by simpa using hrdy, hev⟩
  rw [State.elpScheduleDevEvent, heq]
  refine ⟨hs.sound.elpScheduleDevEvent, hs.bounded.of_le (le_refl _) rfl rfl, hs.todo, ?_, ?_, ?_⟩
  · exact fun h ev hev => hs.safe h ev (hcontents h ev hev).2
  · intro h ev hev
    obtain ⟨hrdy, hold⟩ := hcontents h ev hev
    rcases hs.fresh h ev hold with hle | ⟨_, hrdy'⟩
    · exact Or.inl hle
    · rw [hrdy] at hrdy'
      simp at hrdy'
  · refine hs.ordered_of_admissible ?_ ?_ rfl
    · intro e he
      rcases hm e he with hold | ⟨a, ha, hts⟩
      · exact Or.inl hold
      · obtain ⟨h, _, ev, hev, rfl⟩ := (NextEvents.mem_elpScheduleDevEvent hs.sound).mp ha
        exact Or.inr (admissible_of_promise (Or.inr ⟨h, ev, hev, rfl⟩) (le_of_eq hts.symm))
    · rintro p (hp | ⟨h, ev, hev, rfl⟩)
      · exact admissible_of_promise (Or.inl hp) (le_refl _)
      · exact admissible_of_promise (Or.inr ⟨h, ev, (hcontents h ev hev).2, rfl⟩) (le_refl _)

theorem raise (hs : Conservative s) {old : Nat} (hpc : s.pc = .drained old) :
    Conservative (State.again { s with safeTs := s.minSafeTs }) := by
  have hfresh (h : Buf) (ev : DeviceEvent) (hev : ev ∈ s.dev.contents h) :
      s.dSafeTs s.hCurHostBuf.other ≤ ev.ts := by
    rcases hs.fresh h ev hev with hle | ⟨htop, _⟩
    · exact hle
    · simp [hpc] at htop
  refine ⟨hs.sound, hs.bounded.raise, hs.todo, ?_, ?_, hs.ordered⟩
  · exact fun h ev hev => (s.minSafeTs_le _).trans (hfresh h ev hev)
  · exact fun h ev hev => Or.inl (hfresh h ev hev)

theorem changeHostQueue (hs : Conservative s) (hplaced : Placed s) (hdone : s.KernelDone)
    (hpc : s.pc = .top) : Conservative s.changeHostQueue := by
  have hcontents (h : Buf) : s.changeHostQueue.dev.contents h = s.dev.contents h :=
    NextEvents.changeDevQueue_contents s.dev h
  refine ⟨hs.sound.changeDevQueue, hs.bounded.changeHostQueue hplaced hdone, hs.todo, ?_, ?_, ?_⟩
  · intro h ev hev
    exact hs.safe h ev (hcontents h ▸ hev)
  · intro h ev hev
    refine Or.inr ⟨hpc, ?_⟩
    -- all that the buffers hold is ready now
    have hall := hs.sound.all_ready h
    rw [← hcontents h] at hall
    exact (NextEvents.mem_readyContents.mp (hall.symm ▸ hev)).1
  · refine hs.ordered_of_admissible (fun e he => Or.inl he) ?_ rfl
    rintro p (hp | ⟨h, ev, hev, rfl⟩)
    · exact admissible_of_promise (Or.inl hp) (le_refl _)
    · exact admissible_of_promise (Or.inr ⟨h, ev, hcontents h ▸ hev, rfl⟩) (le_refl _)

theorem removeNext (hs : Conservative s) {old : Nat} (hpc : s.pc = .drained old) {e : Event}
    (hnext : IsNext s.mEvents e) (hsafe : e.ts < s.safeTs) (lookahead : Nat) :
    Conservative (s.removeNext e lookahead).again := by
  have hlow : (s.removeNext e lookahead).again.safeTs ≤ s.safeTs := lowerTs_le _ _ _
  refine ⟨hs.sound, hs.bounded.of_le hlow rfl rfl, hs.todo, ?_, ?_, ?_⟩
  · exact fun h ev hev => hlow.trans (hs.safe h ev hev)
  · intro h ev hev
    rcases hs.fresh h ev hev with hle | ⟨htop, _⟩
    · exact Or.inl hle
    · simp [hpc] at htop
  · have hstep : Frontier.Step s.dispatcher
        ⟨(s.removeNext e lookahead).dispatcher.pending, s.promises,
          s.dispatcher.log ++ [e.ts]⟩ := by
      apply Frontier.Step.remove
      · refine ⟨⟨e, hnext.1, rfl⟩, ?_⟩
        rintro t ⟨f, hf, rfl⟩
        exact hnext.ts_le hf
      · exact fun p hp => (Nat.le_of_lt hsafe).trans (hs.safe_promises p hp)
      · rintro t ⟨f, hf, rfl⟩
        exact ⟨f, List.mem_of_mem_erase hf, rfl⟩
    have hordered := hs.ordered.step hstep
    have hlog : s.dispatcher.log ++ [e.ts] = (s.removeNext e lookahead).dispatcher.log := by
      simp [State.dispatcher, State.removeNext]
    rwa [hlog] at hordered

theorem removed_le (hs : Conservative s) {e : Event} (he : e ∈ s.mEvents) :
    ∀ f ∈ s.trace.removed ++ [e], f.ts ≤ e.ts := by
  intro f hf
  rcases List.mem_append.mp hf with hf | hf
  · exact hs.ordered.pending _ (List.mem_map_of_mem hf) _ ⟨e, he, rfl⟩
  · rw [List.mem_singleton.mp hf]

theorem hInsertSort (hs : Conservative s) {ev : DeviceEvent}
    (hlate : ∀ f ∈ s.trace.removed, f.ts ≤ ev.ts) : Conservative (s.hInsertSort ev) := by
  refine ⟨hs.sound, hs.bounded.hInsertSort ev, ?_, ?_, ?_, ?_⟩
  · intro b i ev' out hen
    rw [State.hInsertSort_queue] at hen
    split at hen
    · simp at hen
    · exact hs.todo b i ev' out hen
  · exact fun h ev' hev => (lowerTs_le _ _ _).trans (hs.safe h ev' hev)
  · intro h ev' hev
    rcases hs.fresh h ev' hev with hle | hrdy
    · have hother : (s.hInsertSort ev).dSafeTs (s.hInsertSort ev).hCurHostBuf.other =
          s.dSafeTs s.hCurHostBuf.other := by simp [State.hInsertSort, State.advanceWarp]
      left
      rwa [hother]
    · exact Or.inr hrdy
  · refine hs.ordered_of_admissible (fun e he => Or.inl he) ?_ rfl
    rintro p (⟨b, i, en, hen, hne, rfl⟩ | hp)
    · rw [State.hInsertSort_queue] at hen
      split at hen
      · obtain rfl := Option.some.inj hen
        exact admissible_of_late fun f hf => (hlate f hf).trans (Nat.le_add_right _ _)
      · exact admissible_of_promise (Or.inl ⟨b, i, en, hen, hne, rfl⟩) (le_refl _)
    · exact admissible_of_promise (Or.inr hp) (le_refl _)

theorem threadStep (hs : Conservative s) {env : Env} (hplaced : Placed s) {b : Buf} {i : Nat}
    (hi : s.Reached env b i) {ev : DeviceEvent} {todo : Option (List EventArgs)}
    (hen : s.hSafeEventQueue b i = some ⟨ev, todo⟩) {en : Option SafeEntry} {dev : NextEvents}
    (done : Multiset DeviceEvent) (hev : ∀ en', en = some en' → en'.ev = ev)
    (htodo : ∀ ev' out, en = some ⟨ev', some out⟩ → ∀ a ∈ out,
      ev'.lookahead ≠ uint64Max ∧ ev'.ts + ev'.lookahead ≤ a.ts)
    (hsound : dev.Sound)
    (hnew : ∀ h, ∀ ev' ∈ dev.contents h, ev' ∈ s.dev.contents h ∨
      (ev.lookahead ≠ uint64Max ∧ ev.ts + ev.lookahead ≤ ev'.ts))
    (hrdy : ∀ h, s.dev.dBufrdy h = true → dev.dBufrdy h = true) :
    Conservative (s.threadStep b i en dev done) := by
  have hb : b = s.hCurHostBuf.other := hplaced.launched b hi.1
  refine ⟨hsound, hs.bounded.threadStep hen hev dev done, ?_, ?_, ?_, ?_⟩
  · intro c k ev' out hck
    rw [State.threadStep_queue] at hck
    split at hck
    · exact htodo ev' out hck
    · exact hs.todo c k ev' out hck
  · intro h ev' hev'
    rcases hnew h ev' hev' with hold | ⟨hne, hle⟩
    · exact hs.safe h ev' hold
    · exact (hs.bounded.safe b i _ hen hne).trans hle
  · intro h ev' hev'
    rcases hnew h ev' hev' with hold | ⟨hne, hle⟩
    · rcases hs.fresh h ev' hold with hle | ⟨htop, hready⟩
      · exact Or.inl hle
      · exact Or.inr ⟨htop, hrdy h hready⟩
    · exact Or.inl ((hb ▸ hs.bounded.buffer b i _ hen hne).trans hle)
  · refine hs.ordered_of_admissible (fun e he => Or.inl he) ?_ rfl
    rintro p (⟨c, k, en', hck, hne, rfl⟩ | ⟨h, ev', hev', rfl⟩)
    · rw [State.threadStep_queue] at hck
      split at hck
      · obtain rfl := hev en' hck
        exact admissible_of_promise (Or.inl ⟨b, i, _, hen, hne, rfl⟩) (le_refl _)
      · exact admissible_of_promise (Or.inl ⟨c, k, en', hck, hne, rfl⟩) (le_refl _)
    · rcases hnew h ev' hev' with hold | ⟨hne, hle⟩
      · exact admissible_of_promise (Or.inr ⟨h, ev', hold, rfl⟩) (le_refl _)
      · exact admissible_of_promise (Or.inl ⟨b, i, _, hen, hne, rfl⟩) hle

theorem invoked (hs : Conservative s) {env : Env} (henv : env.Causal) {e : Event} {r : HostEffect}
    (hr : env.invoke e s.mEvents r) (hlate : ∀ f ∈ s.trace.removed, f.ts ≤ e.ts) :
    Conservative (s.invoked e r) := by
  obtain ⟨m, u, heq, _, hm⟩ := State.elpScheduleAll_cases
    { s with mEvents := r.kept ++ r.scheduled, mCurrentTs := e.ts, mStop := r.stop }
    r.elpScheduled
  rw [State.invoked, heq]
  refine ⟨hs.sound, hs.bounded.of_le (le_refl _) rfl rfl, hs.todo, hs.safe, hs.fresh, ?_⟩
  refine hs.ordered_of_admissible ?_ (fun p hp => admissible_of_promise hp (le_refl _)) rfl
  intro f hf
  rcases hm f hf with hold | ⟨a, ha, hts⟩
  · rcases List.mem_append.mp hold with hkept | hnew
    · exact Or.inl (env.invoke_kept e _ r hr hkept)
    · exact Or.inr (admissible_of_late fun g hg =>
        (hlate g hg).trans (henv.scheduled e _ r hr f hnew))
  · refine Or.inr (admissible_of_late fun g hg => ?_)
    exact (hlate g hg).trans (hts ▸ henv.elpScheduled e _ r hr a ha)

theorem step {env : Env} (henv : env.Causal) {t : State} (hs : Conservative s) (hplaced : Placed s)
    (h : Step env s t) : Conservative t := by
  cases h with
  | scheduleDevEvent _ _ _ => exact hs.scheduleDevEvent
  | raise hat _ _ => exact hs.raise hat.pc
  | swap hat _ _ hdone =>
    exact (hs.raise hat.pc).changeHostQueue (hplaced.frame rfl) hdone rfl
  | @dispatch _ e ev lookahead hat hsafe _ _ _ _ =>
    exact (hs.removeNext hat.pc hat.next hsafe lookahead).hInsertSort (hs.removed_le hat.next.1)
  | @dispatchSwap _ e ev lookahead hat hsafe _ _ _ hdone _ =>
    have hs' := (hs.removeNext hat.pc hat.next hsafe lookahead).changeHostQueue
      (hplaced.frame rfl) hdone rfl
    exact hs'.hInsertSort (hs.removed_le hat.next.1)
  | @invoke _ e _ lookahead r hat hsafe _ _ hr =>
    exact (hs.removeNext hat.pc hat.next hsafe lookahead).invoked henv hr
      (hs.removed_le hat.next.1)
  | @handle b i ev out hi hen hout =>
    refine hs.threadStep hplaced hi hen _ (fun _ h => by cases h; rfl) ?_ hs.sound
      (fun h ev' hev' => Or.inl hev') (fun h hrdy => hrdy)
    rintro ev' out' hsome
    cases hsome
    exact henv.handler ev out hout
  | @insert b i ev a rest hi hen =>
    have htid : i % (env.mp * tpb) < deviceQueueLength := (Nat.mod_le _ _).trans_lt hi.2.1
    have htodo := hs.todo b i ev _ hen
    refine hs.threadStep hplaced hi hen _ (fun _ h => by cases h; rfl) ?_
      (hs.sound.dInsertRound htid a) ?_ (fun h hrdy => NextEvents.dInsertRound_ready hrdy)
    · rintro ev' out' hsome a' ha'
      cases hsome
      split at ha'
      · exact htodo a' (List.mem_cons_of_mem _ ha')
      · exact htodo a' ha'
    · intro h ev' hev'
      rcases NextEvents.mem_dInsertRound htid hev' with hold | ⟨_, rfl⟩
      · exact Or.inl hold
      · exact Or.inr (htodo a List.mem_cons_self)
  | finish hi hen =>
    exact hs.threadStep hplaced hi hen _ (fun _ h => by cases h) (fun _ _ h => by cases h) hs.sound
      (fun h ev' hev' => Or.inl hev') (fun h hrdy => hrdy)

theorem run {env : Env} (henv : env.Causal) {t : State} (hs : Conservative s) (hplaced : Placed s)
    (h : Run env s t) : Conservative t := by
  induction h with
  | refl => exact hs
  | tail hr hstep ih => exact ih.step henv (hplaced.run hr) hstep

end Conservative

/-- In a causal environment no event arrives in the past of an event already removed,
whatever the initial events and whenever the kernels complete. -/
theorem removed_in_order {env : Env} (henv : env.Causal) (m : List Event) {s : State}
    (h : Run env (State.start m) s) : (s.trace.removed.map Event.ts).Pairwise (· ≤ ·) :=
  ((Conservative.start m).run henv (Placed.start m) h).ordered.sorted

theorem relay_causal : (Env.ofHandler relay).Causal where
  handler := by
    rintro ev out rfl a ha
    unfold relay at ha
    split at ha
    · simp at ha
    · rename_i hne
      obtain rfl := List.mem_singleton.mp ha
      exact ⟨hne, le_refl _⟩
  scheduled := by
    rintro e m r rfl f hf
    simp at hf
  elpScheduled := by
    rintro e m r rfl f hf
    simp at hf

theorem removed_in_order_relay :
    ∃ s, Run (.ofHandler relay) (State.start [firstSend, ⟨.callback 0, 5, 0, 4⟩]) s ∧
      s.trace.removed.map Event.ts = [0, 5] ∧
      (s.trace.removed.map Event.ts).Pairwise (· ≤ ·) := by
  have hnext : IsNext [⟨.callback 0, 5, 0, 4⟩] ⟨.callback 0, 5, 0, 4⟩ :=
    ⟨List.mem_cons_self, by simp⟩
  have hrun : Run (.ofHandler relay) _ (State.firstDispatched [⟨.callback 0, 5, 0, 4⟩]) :=
    run_firstDispatched _ (by simp)
  have hrun := hrun.tail (.scheduleDevEvent rfl (List.cons_ne_nil _ _) rfl)
  have hsafe : 5 < 10 := by decide
  have huid : 4 < deviceEvIdOffset := by decide
  have hrun := hrun.tail (.invoke ⟨rfl, hnext, rfl⟩ hsafe huid rfl rfl)
  exact ⟨_, hrun, rfl, removed_in_order relay_causal _ hrun⟩

end CudaNs3.Elp
