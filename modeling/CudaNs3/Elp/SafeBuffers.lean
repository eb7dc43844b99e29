import CudaNs3.Lib.Transition
import CudaNs3.Lib.Lanes
import CudaNs3.Elp.RunSK

/-!
# The host's safe-event buffers

What every run keeps: the slot the host fills next is free and the buffer it turns to is
empty, every dispatched event is either executed or still in a buffer, and the bounds
`safe_ts`, `d_safe_ts1` and `d_safe_ts2` stay below `ts + lookahead` of every entry.
-/

namespace CudaNs3.Elp

open Transition SlotBuffer
set_option autoImplicit false

namespace State

def evs (q : Nat → Option SafeEntry) (i : Nat) : Option DeviceEvent := (q i).map SafeEntry.ev

theorem evs_update (q : Nat → Option SafeEntry) (i : Nat) (en : Option SafeEntry) :
    evs (Function.update q i en) = Function.update (evs q) i (en.map SafeEntry.ev) := by
  funext k
  by_cases hk : k = i
  · subst hk
    simp [evs]
  · simp [evs, hk]

def allEvs (q : Buf → Nat → Option SafeEntry) : Multiset DeviceEvent :=
  bag (evs (q .q1)) deviceQueueLength + bag (evs (q .q2)) deviceQueueLength

def entries (s : State) : Multiset DeviceEvent := allEvs s.hSafeEventQueue

theorem mem_entries {s : State} {ev : DeviceEvent} : ev ∈ s.entries ↔
    ∃ b, ∃ i < deviceQueueLength, ∃ todo, s.hSafeEventQueue b i = some ⟨ev, todo⟩ := by
  have hslot (b : Buf) (i : Nat) : evs (s.hSafeEventQueue b) i = some ev ↔
      ∃ todo, s.hSafeEventQueue b i = some ⟨ev, todo⟩ := by
    unfold evs
    constructor
    · intro h
      obtain ⟨⟨ev', todo⟩, hen, rfl⟩ := Option.map_eq_some_iff.mp h
      exact ⟨todo, hen⟩
    · rintro ⟨todo, hen⟩
      rw [hen]
      rfl
  simp only [entries, allEvs, Multiset.mem_add, mem_bag, hslot]
  constructor
  · rintro (h | h)
    · exact ⟨.q1, h⟩
    · exact ⟨.q2, h⟩
  · rintro ⟨b, h⟩
    cases b
    · exact Or.inl h
    · exact Or.inr h

theorem allEvs_put {q : Buf → Nat → Option SafeEntry} {b : Buf} {i : Nat}
    (hi : i < deviceQueueLength) (en : Option SafeEntry) :
    (evs (q b) i).elim 0 ({·}) + allEvs (putEntry q b i en) =
      (en.map SafeEntry.ev).elim 0 ({·}) + allEvs q := by
  have hexch := bag_exchange (q := evs (q b)) hi (en.map SafeEntry.ev)
  rw [← evs_update] at hexch
  cases b with
  | q1 =>
    simp only [allEvs, putEntry, Function.update_self, ne_eq, reduceCtorEq, not_false_eq_true,
      Function.update_of_ne]
    rw [← add_assoc, hexch, add_assoc]
  | q2 =>
    simp only [allEvs, putEntry, Function.update_self, ne_eq, reduceCtorEq, not_false_eq_true,
      Function.update_of_ne]
    rw [add_left_comm, hexch, add_left_comm]

end State

/-- Each event kind fills a warp of its own. -/
structure Warps (s : State) : Prop where
  thread : ∀ t, s.warpThreadIndex t < warpSize
  avail : ∀ t, s.warpIndex t < s.nextAvailWarp
  own : ∀ t u, s.warpIndex t = s.warpIndex u → t = u

/-- The slot lies in a warp not handed out, or in the rest of a kind's warp. -/
def Unclaimed (s : State) (i : Nat) : Prop :=
  s.nextAvailWarp ≤ i / warpSize ∨
    ∃ t, i / warpSize = s.warpIndex t ∧ s.warpThreadIndex t ≤ i % warpSize

/-- The index arrays as the cursor of a fill by the group. -/
def State.lanes (s : State) : Lanes.Cursor EventType :=
  ⟨s.warpIndex, s.warpThreadIndex, s.nextAvailWarp⟩

namespace Warps
variable {s : State}

theorem reset {t : State} (hindex : t.warpIndex = EventType.code)
    (hthread : t.warpThreadIndex = fun _ => 0) (hnext : t.nextAvailWarp = eventKinds) :
    Warps t where
  thread := fun _ => by simp [hthread, warpSize]
  avail := fun u => by
    rw [hindex, hnext]
    exact u.code_lt
  own := fun u v h => EventType.code_inj (by rwa [hindex] at h)

theorem apart (hs : Warps s) : Lanes.Apart warpSize s.lanes := ⟨hs.thread, hs.avail, hs.own⟩

theorem insertIndex_unclaimed (hs : Warps s) (t : EventType) :
    Unclaimed s (s.hInsertIndex t) :=
  hs.apart.slot_unclaimed t

theorem advance (hs : Warps s) (t : EventType) : Warps (s.advanceWarp t) := by
  obtain ⟨hthread, havail, hown⟩ := hs.apart.advance t
  exact ⟨hthread, havail, hown⟩

theorem unclaimed_advance (hs : Warps s) {t : EventType} {i : Nat}
    (hi : Unclaimed (s.advanceWarp t) i) : Unclaimed s i ∧ i ≠ s.hInsertIndex t :=
  hs.apart.unclaimed_advance hi

end Warps

structure Placed (s : State) : Prop where
  launched : ∀ b, s.kernel = some b → b = s.hCurHostBuf.other
  idle : ∀ i en, s.hSafeEventQueue s.hCurHostBuf.other i = some en →
    s.kernel = some s.hCurHostBuf.other
  range : ∀ b i en, s.hSafeEventQueue b i = some en → i < deviceQueueLength
  warps : Warps s
  free : ∀ i, Unclaimed s i → s.hSafeEventQueue s.hCurHostBuf i = none
  accounted : (s.trace.dispatched : Multiset DeviceEvent) = s.trace.executed + s.entries

namespace Placed
variable {s : State}

theorem start (m : List Event) : Placed (State.start m) where
  launched := by simp [State.start]
  idle := by simp [State.start]
  range := by simp [State.start]
  warps := Warps.reset rfl rfl rfl
  free := fun _ _ => rfl
  accounted := by
    have hnone : bag (State.evs fun _ => none) deviceQueueLength = 0 :=
      bag_eq_zero.mpr fun _ _ => rfl
    simp [State.start, State.entries, State.allEvs, Trace.dispatched, hnone]

theorem other_empty (hs : Placed s) (hdone : s.KernelDone) (i : Nat) :
    s.hSafeEventQueue s.hCurHostBuf.other i = none := by
  cases hen : s.hSafeEventQueue s.hCurHostBuf.other i with
  | none => rfl
  | some en =>
    have hi := hs.range _ _ _ hen
    rw [hdone _ (hs.idle i en hen) i hi] at hen
    simp at hen

theorem slot_free (hs : Placed s) (t : EventType) :
    s.hSafeEventQueue s.hCurHostBuf (s.hInsertIndex t) = none :=
  hs.free _ (hs.warps.insertIndex_unclaimed t)

theorem changeHostQueue (hs : Placed s) (hdone : s.KernelDone) : Placed s.changeHostQueue where
  launched := fun b hb => by
    obtain rfl := Option.some.inj hb
    simp [State.changeHostQueue]
  idle := fun i en _ => by simp [State.changeHostQueue]
  range := hs.range
  warps := Warps.reset rfl rfl rfl
  free := fun i _ => hs.other_empty hdone i
  accounted := by
    have hdisp : s.changeHostQueue.trace.dispatched = s.trace.dispatched := by
      simp [State.changeHostQueue, Trace.dispatched]
    rw [hdisp]
    exact hs.accounted

/-- The fields that `Placed` says nothing about may differ. -/
theorem frame {t : State} (hs : Placed s)
    (h : t = { s with
      mEvents := t.mEvents, mCurrentTs := t.mCurrentTs, mStop := t.mStop, dUid := t.dUid
      safeTs := t.safeTs, dSafeTs := t.dSafeTs, hBufrdy := t.hBufrdy, dev := t.dev, pc := t.pc
      trace := { s.trace with removed := t.trace.removed } }) : Placed t := by
  rw [h]
  constructor
  · exact hs.launched
  · exact hs.idle
  · exact hs.range
  · exact ⟨hs.warps.thread, hs.warps.avail, hs.warps.own⟩
  · exact hs.free
  · exact hs.accounted

theorem hInsertSort (hs : Placed s) (ev : DeviceEvent)
    (hi : s.hInsertIndex ev.type < deviceQueueLength) : Placed (s.hInsertSort ev) := by
  have hslot := hs.slot_free ev.type
  have hent : (s.hInsertSort ev).entries = ev ::ₘ s.entries := by
    have hexch :=
      State.allEvs_put (q := s.hSafeEventQueue) (b := s.hCurHostBuf) hi (some ⟨ev, none⟩)
    simp only [State.evs, hslot, Option.map_none, Option.elim_none, Option.map_some,
      Option.elim_some, zero_add, Multiset.singleton_add] at hexch
    exact hexch
  constructor
  · exact hs.launched
  · intro i en hen
    rw [State.hInsertSort_queue, if_neg (fun h => Buf.other_ne _ h.1)] at hen
    exact hs.idle i en hen
  · intro b i en hen
    rw [State.hInsertSort_queue] at hen
    split at hen
    · rename_i h
      exact h.2 ▸ hi
    · exact hs.range b i en hen
  · obtain ⟨h₁, h₂, h₃⟩ := hs.warps.advance ev.type
    exact ⟨h₁, h₂, h₃⟩
  · intro i h
    obtain ⟨hold, hne⟩ := hs.warps.unclaimed_advance (t := ev.type) (i := i) h
    rw [State.hInsertSort_queue, if_neg (fun h => hne h.2)]
    exact hs.free i hold
  · have hdisp : (s.hInsertSort ev).trace.dispatched = s.trace.dispatched ++ [ev] := by
      simp [State.hInsertSort, Trace.dispatched]
    rw [hdisp, hent, ← Multiset.coe_add, hs.accounted, Multiset.coe_singleton, add_assoc,
      add_comm s.entries, Multiset.singleton_add]
    rfl

theorem threadStep (hs : Placed s) {env : Env} {b : Buf} {i : Nat} (hi : s.Reached env b i)
    {ev : DeviceEvent} {todo : Option (List EventArgs)}
    (hen : s.hSafeEventQueue b i = some ⟨ev, todo⟩) {en : Option SafeEntry} {dev : NextEvents}
    {done : Multiset DeviceEvent}
    (hdone : (en.map SafeEntry.ev).elim 0 ({·}) + done = {ev}) :
    Placed (s.threadStep b i en dev done) := by
  have hb := hs.launched b hi.1
  have hcur : s.hCurHostBuf ≠ b := by
    rw [hb]
    exact Buf.ne_other _
  constructor
  · exact hs.launched
  · intro k en' _
    exact hb ▸ hi.1
  · intro c k en' hen'
    rw [State.threadStep_queue] at hen'
    split at hen'
    · rename_i h
      exact h.2 ▸ hi.2.1
    · exact hs.range c k en' hen'
  · obtain ⟨h₁, h₂, h₃⟩ := hs.warps
    exact ⟨h₁, h₂, h₃⟩
  · intro k hk
    have hold : (s.threadStep b i en dev done).hSafeEventQueue s.hCurHostBuf k =
        s.hSafeEventQueue s.hCurHostBuf k := by
      rw [State.threadStep_queue, if_neg (fun h => hcur h.1)]
    exact hold.trans (hs.free k hk)
  · have hexch := State.allEvs_put (q := s.hSafeEventQueue) (b := b) hi.2.1 en
    simp only [State.evs, hen, Option.map_some, Option.elim_some] at hexch
    have hmoved : done + (s.threadStep b i en dev done).entries = s.entries := by
      apply add_left_cancel (a := (en.map SafeEntry.ev).elim 0 ({·}))
      rw [← add_assoc, hdone]
      exact hexch
    calc ((s.threadStep b i en dev done).trace.dispatched : Multiset DeviceEvent)
        = s.trace.executed + s.entries := hs.accounted
      _ = done + s.trace.executed + (s.threadStep b i en dev done).entries := by
          rw [← hmoved, add_left_comm, add_assoc]

theorem step {env : Env} {t : State} (hs : Placed s) (h : Step env s t) : Placed t := by
  cases h with
  | scheduleDevEvent _ _ _ =>
    obtain ⟨m, u, heq, _, _⟩ := State.elpScheduleAll_cases
      { s with dev := s.dev.elpScheduleDevEvent.1 } s.dev.elpScheduleDevEvent.2
    rw [State.elpScheduleDevEvent, heq]
    exact hs.frame rfl
  | raise _ _ _ => exact hs.frame rfl
  | swap _ _ _ hdone =>
    have hs' : Placed (State.again { s with safeTs := s.minSafeTs }) := hs.frame rfl
    exact hs'.changeHostQueue hdone
  | @dispatch _ e ev lookahead _ _ _ _ hi _ =>
    have hs' : Placed (s.removeNext e lookahead).again := hs.frame rfl
    exact hs'.hInsertSort _ hi
  | @dispatchSwap _ e ev lookahead _ _ _ _ _ hdone _ =>
    have hs' : Placed (s.removeNext e lookahead).again := hs.frame rfl
    apply (hs'.changeHostQueue hdone).hInsertSort
    have := ev.type.code_lt
    simp only [State.hInsertIndex, State.changeHostQueue, State.safeEvent, eventKinds, warpSize,
      deviceQueueLength] at *
    omega
  | @invoke _ e _ lookahead r _ _ _ _ _ =>
    obtain ⟨m, u, heq, _, _⟩ := State.elpScheduleAll_cases
      { (s.removeNext e lookahead).again with
        mEvents := r.kept ++ r.scheduled, mCurrentTs := e.ts, mStop := r.stop } r.elpScheduled
    rw [State.invoked, heq]
    exact hs.frame rfl
  | handle hi hen _ => exact hs.threadStep hi hen (by simp)
  | insert hi hen => exact hs.threadStep hi hen (by simp)
  | finish hi hen => exact hs.threadStep hi hen (by simp)

theorem run {env : Env} {t : State} (hs : Placed s) (h : Run env s t) : Placed t :=
  run_invariant (fun _ _ hu hstep => hu.step hstep) hs h

end Placed

theorem lowerTs_le (bound ts lookahead : Nat) : lowerTs bound ts lookahead ≤ bound := by
  unfold lowerTs
  split
  · rename_i h
    exact Nat.le_of_lt h.2
  · exact le_refl _

/-- A sum that wraps lowers the bound further than it has to. -/
theorem lowerTs_le_sum {bound ts lookahead : Nat} (hne : lookahead ≠ uint64Max) :
    lowerTs bound ts lookahead ≤ ts + lookahead := by
  have hmod : (ts + lookahead) % 2 ^ 64 ≤ ts + lookahead := Nat.mod_le _ _
  unfold lowerTs
  split
  · exact hmod
  · rename_i h
    exact (not_lt.mp fun hlt => h ⟨hne, hlt⟩).trans hmod

theorem State.minSafeTs_le (s : State) (b : Buf) : s.minSafeTs ≤ s.dSafeTs b := by
  unfold State.minSafeTs
  cases b
  · split <;> omega
  · split <;> omega

/-- `safe_ts` and the bound of a buffer are below what its entries may produce. -/
structure Bounded (s : State) : Prop where
  safe : ∀ b i en, s.hSafeEventQueue b i = some en → en.ev.lookahead ≠ uint64Max →
    s.safeTs ≤ en.ev.ts + en.ev.lookahead
  buffer : ∀ b i en, s.hSafeEventQueue b i = some en → en.ev.lookahead ≠ uint64Max →
    s.dSafeTs b ≤ en.ev.ts + en.ev.lookahead

namespace Bounded
variable {s : State}

theorem start (m : List Event) : Bounded (State.start m) := by
  constructor <;> simp [State.start]

theorem of_le {t : State} (hs : Bounded s) (hsafe : t.safeTs ≤ s.safeTs)
    (hqueue : t.hSafeEventQueue = s.hSafeEventQueue) (hbuffer : t.dSafeTs = s.dSafeTs) :
    Bounded t := by
  constructor
  · rw [hqueue]
    exact fun b i en hen hne => hsafe.trans (hs.safe b i en hen hne)
  · rw [hqueue, hbuffer]
    exact hs.buffer

theorem raise (hs : Bounded s) : Bounded (State.again { s with safeTs := s.minSafeTs }) :=
  ⟨fun b i en hen hne => (s.minSafeTs_le b).trans (hs.buffer b i en hen hne), hs.buffer⟩

theorem changeHostQueue (hs : Bounded s) (hplaced : Placed s) (hdone : s.KernelDone) :
    Bounded s.changeHostQueue := by
  refine ⟨hs.safe, fun b i en hen hne => ?_⟩
  by_cases hb : b = s.hCurHostBuf.other
  · subst hb
    have hnone : s.changeHostQueue.hSafeEventQueue s.hCurHostBuf.other i = none :=
      hplaced.other_empty hdone i
    rw [hnone] at hen
    contradiction
  · simpa [State.changeHostQueue, hb] using hs.buffer b i en hen hne

theorem hInsertSort (hs : Bounded s) (ev : DeviceEvent) :
    Bounded (s.hInsertSort ev) := by
  constructor
  · intro b i en hen hne
    rw [State.hInsertSort_queue] at hen
    split at hen
    · obtain rfl := Option.some.inj hen
      exact lowerTs_le_sum hne
    · exact (lowerTs_le _ _ _).trans (hs.safe b i en hen hne)
  · intro b i en hen hne
    rw [State.hInsertSort_queue] at hen
    split at hen
    · rename_i h
      obtain rfl := Option.some.inj hen
      simp only [State.hInsertSort, h.1, Function.update_self]
      exact lowerTs_le_sum hne
    · have hold := hs.buffer b i en hen hne
      by_cases hb : b = s.hCurHostBuf
      · subst hb
        simp only [State.hInsertSort, Function.update_self]
        exact (lowerTs_le _ _ _).trans hold
      · simpa [State.hInsertSort, hb] using hold

theorem threadStep (hs : Bounded s) {b : Buf} {i : Nat} {ev : DeviceEvent}
    {todo : Option (List EventArgs)} (hen : s.hSafeEventQueue b i = some ⟨ev, todo⟩)
    {en : Option SafeEntry} (hev : ∀ en', en = some en' → en'.ev = ev) (dev : NextEvents)
    (done : Multiset DeviceEvent) : Bounded (s.threadStep b i en dev done) := by
  have hset (c : Buf) (k : Nat) (en' : SafeEntry)
      (h : (s.threadStep b i en dev done).hSafeEventQueue c k = some en') :
      ∃ old, s.hSafeEventQueue c k = some old ∧ old.ev = en'.ev := by
    rw [State.threadStep_queue] at h
    split at h
    · rename_i hck
      obtain ⟨rfl, rfl⟩ := hck
      exact ⟨_, hen, (hev en' h).symm⟩
    · exact ⟨en', h, rfl⟩
  constructor
  · intro c k en' h hne
    obtain ⟨old, hold, heq⟩ := hset c k en' h
    rw [← heq] at hne ⊢
    exact hs.safe c k old hold hne
  · intro c k en' h hne
    obtain ⟨old, hold, heq⟩ := hset c k en' h
    rw [← heq] at hne ⊢
    exact hs.buffer c k old hold hne

theorem step {env : Env} {t : State} (hs : Bounded s) (hplaced : Placed s) (h : Step env s t) :
    Bounded t := by
  cases h with
  | scheduleDevEvent _ _ _ =>
    obtain ⟨m, u, heq, _, _⟩ := State.elpScheduleAll_cases
      { s with dev := s.dev.elpScheduleDevEvent.1 } s.dev.elpScheduleDevEvent.2
    rw [State.elpScheduleDevEvent, heq]
    exact hs.of_le (le_refl _) rfl rfl
  | raise _ _ _ => exact hs.raise
  | swap _ _ _ hdone => exact hs.raise.changeHostQueue (hplaced.frame rfl) hdone
  | @dispatch _ e ev lookahead _ _ _ _ hi _ =>
    have hs' : Bounded (s.removeNext e lookahead).again := hs.of_le (lowerTs_le _ _ _) rfl rfl
    exact hs'.hInsertSort _
  | @dispatchSwap _ e ev lookahead _ _ _ _ _ hdone _ =>
    have hs' : Bounded (s.removeNext e lookahead).again := hs.of_le (lowerTs_le _ _ _) rfl rfl
    exact (hs'.changeHostQueue (hplaced.frame rfl) hdone).hInsertSort _
  | @invoke _ e _ lookahead r _ _ _ _ _ =>
    obtain ⟨m, u, heq, _, _⟩ := State.elpScheduleAll_cases
      { (s.removeNext e lookahead).again with
        mEvents := r.kept ++ r.scheduled, mCurrentTs := e.ts, mStop := r.stop } r.elpScheduled
    rw [State.invoked, heq]
    exact hs.of_le (lowerTs_le _ _ _) rfl rfl
  | handle hi hen _ => exact hs.threadStep hen (fun _ h => by cases h; rfl) _ _
  | insert hi hen => exact hs.threadStep hen (fun _ h => by cases h; rfl) _ _
  | finish hi hen => exact hs.threadStep hen (fun _ h => by cases h) _ _

theorem run {env : Env} {t : State} (hs : Bounded s) (hplaced : Placed s) (h : Run env s t) :
    Bounded t := by
  induction h with
  | refl => exact hs
  | tail hr hstep ih => exact ih.step (hplaced.run hr) hstep

end Bounded

end CudaNs3.Elp
