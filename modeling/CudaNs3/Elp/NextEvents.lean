import CudaNs3.Lib.SlotBuffer
import CudaNs3.Elp.Event

/-!
# The device next-event buffers

Kernel threads put new events into the current next-event buffer (`d_insert`), each
into its own `MAX_NEW_EVENTS` slots. `ChangeDevQueue` marks the current buffer ready
and turns to the other one; the host drains ready buffers (`ELP_ScheduleDevEvent`).
-/

namespace CudaNs3.Elp

open SlotBuffer
set_option autoImplicit false

/-- A slot holds an event when its `valid` flag is set. `d_curDevBufRdy` is left out: it
is always assigned together with `d_curDevBuf` and names that buffer's flag. -/
structure NextEvents where
  dNextEventQueue : Buf → Nat → Option DeviceEvent
  dBufrdy : Buf → Bool
  dCurDevBuf : Buf

namespace NextEvents

def empty : NextEvents := ⟨fun _ _ => none, fun _ => false, .q1⟩

def changeDevQueue (b : NextEvents) : NextEvents :=
  { b with
    dBufrdy := Function.update b.dBufrdy b.dCurDevBuf true
    dCurDevBuf := b.dCurDevBuf.other }

def store (b : NextEvents) (i : Nat) (ev : DeviceEvent) : NextEvents :=
  { b with
    dNextEventQueue := Function.update b.dNextEventQueue b.dCurDevBuf
      (Function.update (b.dNextEventQueue b.dCurDevBuf) i (some ev)) }

/-- One pass of the `while(1)` of `d_insert`: store into the thread's first free slot, or
swap the buffers because all its slots are taken and go round again. -/
def dInsertRound (b : NextEvents) (tid : Nat) (a : EventArgs) : NextEvents × Option Nat :=
  match firstFree (b.dNextEventQueue b.dCurDevBuf) maxNewEvents (tid * maxNewEvents) with
  | some i => (b.store i a.toDevice, some i)
  | none => (b.changeDevQueue, none)

/-- `d_insert` with at most `fuel` passes; `none` while it is still spinning. -/
def dInsert : Nat → NextEvents → Nat → EventArgs → NextEvents × Option Nat
  | 0, b, _, _ => (b, none)
  | fuel + 1, b, tid, a =>
    match b.dInsertRound tid a with
    | (b', some i) => (b', some i)
    | (b', none) => dInsert fuel b' tid a

/-- The body of the drain loop for thread `i`: the later slots are only looked at when the
first one is valid. -/
def drainThread (q : Nat → Option DeviceEvent) (i : Nat) :
    (Nat → Option DeviceEvent) × List DeviceEvent :=
  match q (i * maxNewEvents) with
  | none => (q, [])
  | some ev =>
    let rest := sweep maxNewEvents (i * maxNewEvents) (Function.update q (i * maxNewEvents) none)
    (rest.1, ev :: rest.2)

def drainQueue : Nat → (Nat → Option DeviceEvent) → (Nat → Option DeviceEvent) × List DeviceEvent
  | 0, q => (q, [])
  | n + 1, q =>
    let before := drainQueue n q
    let last := drainThread before.1 n
    (last.1, before.2 ++ last.2)

def drainBuf (b : NextEvents) (h : Buf) : NextEvents × List EventArgs :=
  if b.dBufrdy h then
    let r := drainQueue deviceQueueLength (b.dNextEventQueue h)
    ({ b with
        dNextEventQueue := Function.update b.dNextEventQueue h r.1
        dBufrdy := Function.update b.dBufrdy h false }, r.2.map DeviceEvent.args)
  else (b, [])

/-- The list holds the arguments of the `ELP_Schedule` calls made, in order. -/
def elpScheduleDevEvent (b : NextEvents) : NextEvents × List EventArgs :=
  if b.dBufrdy .q1 = false ∧ b.dBufrdy .q2 = false then (b, [])
  else
    let h := if b.dBufrdy .q1 then Buf.q1 else Buf.q2
    let first := b.drainBuf h
    let second := first.1.drainBuf h.other
    (second.1, first.2 ++ second.2)

def contents (b : NextEvents) (h : Buf) : Multiset DeviceEvent :=
  bag (b.dNextEventQueue h) (deviceQueueLength * maxNewEvents)

/-- What the host will see at its next drain. -/
def readyContents (b : NextEvents) (h : Buf) : Multiset DeviceEvent :=
  if b.dBufrdy h then b.contents h else 0

/-- Each thread's slots are filled from the front, and a buffer that is neither in use
nor ready holds nothing. -/
structure Sound (b : NextEvents) : Prop where
  front : ∀ h, FrontFilled (b.dNextEventQueue h) maxNewEvents
  idle : ∀ h, h ≠ b.dCurDevBuf → b.dBufrdy h = false → b.contents h = 0

theorem mem_readyContents {b : NextEvents} {h : Buf} {ev : DeviceEvent} :
    ev ∈ b.readyContents h ↔ b.dBufrdy h = true ∧ ev ∈ b.contents h := by
  unfold readyContents
  split
  · rename_i hrdy
    exact ⟨fun hev => ⟨hrdy, hev⟩, fun hev => hev.2⟩
  · rename_i hrdy
    exact ⟨fun hev => absurd hev (Multiset.notMem_zero ev), fun hev => absurd hev.1 hrdy⟩

theorem contents_eq_zero {b : NextEvents} {h : Buf} : b.contents h = 0 ↔
    ∀ i < deviceQueueLength * maxNewEvents, b.dNextEventQueue h i = none := by
  rw [contents, bag_eq_zero]

theorem empty_contents (h : Buf) : empty.contents h = 0 :=
  contents_eq_zero.mpr fun _ _ => rfl

theorem empty_sound : empty.Sound :=
  ⟨fun _ => frontFilled_none fun _ => rfl, fun h _ _ => empty_contents h⟩

section Insert
variable {b b' : NextEvents} {tid i fuel : Nat} {a : EventArgs}

@[simp] theorem changeDevQueue_queue (b : NextEvents) :
    b.changeDevQueue.dNextEventQueue = b.dNextEventQueue := rfl

@[simp] theorem changeDevQueue_contents (b : NextEvents) (h : Buf) :
    b.changeDevQueue.contents h = b.contents h := by
  simp only [contents, changeDevQueue_queue]

theorem changeDevQueue_ready (b : NextEvents) (h : Buf) :
    b.changeDevQueue.dBufrdy h = (b.dBufrdy h || decide (h = b.dCurDevBuf)) := by
  by_cases hh : h = b.dCurDevBuf <;> simp [changeDevQueue, hh]

theorem Sound.changeDevQueue (hb : b.Sound) : b.changeDevQueue.Sound := by
  refine ⟨hb.front, fun h hne hrdy => ?_⟩
  have hcur : h = b.dCurDevBuf := by
    simpa [NextEvents.changeDevQueue] using Buf.eq_other_of_ne hne
  simp [changeDevQueue_ready, hcur] at hrdy

theorem Sound.all_ready (hb : b.Sound) (h : Buf) :
    b.changeDevQueue.readyContents h = b.contents h := by
  rw [readyContents, changeDevQueue_ready]
  by_cases hcur : h = b.dCurDevBuf
  · simp [hcur]
  · by_cases hrdy : b.dBufrdy h = true
    · simp [hrdy]
    · have hrdy' : b.dBufrdy h = false := by simpa using hrdy
      simp [hrdy', hcur, hb.idle h hcur hrdy']

theorem store_queue_of_ne {ev : DeviceEvent} {h : Buf} {k : Nat}
    (hne : ¬(h = b.dCurDevBuf ∧ k = i)) :
    (b.store i ev).dNextEventQueue h k = b.dNextEventQueue h k := by
  by_cases hh : h = b.dCurDevBuf
  · have hk : k ≠ i := fun hk => hne ⟨hh, hk⟩
    subst hh
    simp [store, hk]
  · simp [store, hh]

theorem store_contents {ev : DeviceEvent} (hi : i < deviceQueueLength * maxNewEvents)
    (hfree : b.dNextEventQueue b.dCurDevBuf i = none) (h : Buf) :
    (b.store i ev).contents h =
      if h = b.dCurDevBuf then ev ::ₘ b.contents h else b.contents h := by
  by_cases hh : h = b.dCurDevBuf
  · subst hh
    simp only [contents, store, Function.update_self, if_true]
    exact bag_write hi hfree ev
  · simp [contents, store, hh]

theorem store_readyContents {ev : DeviceEvent} (hi : i < deviceQueueLength * maxNewEvents)
    (hfree : b.dNextEventQueue b.dCurDevBuf i = none) (h : Buf) :
    b.readyContents h ≤ (b.store i ev).readyContents h := by
  have hrdy : (b.store i ev).dBufrdy h = b.dBufrdy h := rfl
  rw [readyContents, readyContents, hrdy]
  split
  · rw [store_contents hi hfree]
    split
    · exact Multiset.le_cons_self _ _
    · exact le_refl _
  · exact le_refl _

theorem dInsertRound_cases (b : NextEvents) (tid : Nat) (a : EventArgs) :
    (∃ i, firstFree (b.dNextEventQueue b.dCurDevBuf) maxNewEvents (tid * maxNewEvents) = some i ∧
      b.dInsertRound tid a = (b.store i a.toDevice, some i)) ∨
    (firstFree (b.dNextEventQueue b.dCurDevBuf) maxNewEvents (tid * maxNewEvents) = none ∧
      b.dInsertRound tid a = (b.changeDevQueue, none)) := by
  unfold dInsertRound
  cases firstFree (b.dNextEventQueue b.dCurDevBuf) maxNewEvents (tid * maxNewEvents) with
  | none => exact Or.inr ⟨rfl, rfl⟩
  | some i => exact Or.inl ⟨i, rfl, rfl⟩

theorem slot_lt (htid : tid < deviceQueueLength) (hi : i < tid * maxNewEvents + maxNewEvents) :
    i < deviceQueueLength * maxNewEvents := by
  unfold deviceQueueLength maxNewEvents at *
  omega

theorem Sound.store (hb : b.Sound) (ev : DeviceEvent) (htid : tid < deviceQueueLength)
    (hfree : firstFree (b.dNextEventQueue b.dCurDevBuf) maxNewEvents (tid * maxNewEvents) =
      some i) :
    (b.store i ev).Sound := by
  obtain ⟨_, hlt, hnone, _⟩ := firstFree_some hfree
  refine ⟨fun h => ?_, fun h hne hrdy => ?_⟩
  · by_cases hh : h = b.dCurDevBuf
    · subst hh
      simpa [NextEvents.store] using (hb.front _).write ev hfree
    · simpa [NextEvents.store, hh] using hb.front h
  · have hne' : h ≠ b.dCurDevBuf := hne
    rw [store_contents (slot_lt htid hlt) hnone, if_neg hne']
    exact hb.idle h hne' hrdy

theorem Sound.dInsertRound (hb : b.Sound) (htid : tid < deviceQueueLength) (a : EventArgs) :
    (b.dInsertRound tid a).1.Sound := by
  rcases b.dInsertRound_cases tid a with ⟨i, hfree, hround⟩ | ⟨_, hround⟩
  · rw [hround]
    exact hb.store _ htid hfree
  · rw [hround]
    exact hb.changeDevQueue

theorem mem_dInsertRound (htid : tid < deviceQueueLength) {h : Buf} {ev : DeviceEvent}
    (hev : ev ∈ (b.dInsertRound tid a).1.contents h) :
    ev ∈ b.contents h ∨ ((b.dInsertRound tid a).2.isSome ∧ ev = a.toDevice) := by
  rcases b.dInsertRound_cases tid a with ⟨i, hfree, hround⟩ | ⟨_, hround⟩
  · rw [hround] at hev ⊢
    obtain ⟨_, hlt, hnone, _⟩ := firstFree_some hfree
    rw [store_contents (slot_lt htid hlt) hnone] at hev
    split at hev
    · rcases Multiset.mem_cons.mp hev with hnew | hold
      · exact Or.inr ⟨rfl, hnew⟩
      · exact Or.inl hold
    · exact Or.inl hev
  · rw [hround, changeDevQueue_contents] at hev
    exact Or.inl hev

theorem dInsertRound_ready {h : Buf} (hrdy : b.dBufrdy h = true) :
    (b.dInsertRound tid a).1.dBufrdy h = true := by
  rcases b.dInsertRound_cases tid a with ⟨i, hfree, hround⟩ | ⟨_, hround⟩
  · rw [hround]
    exact hrdy
  · simp [hround, changeDevQueue_ready, hrdy]

/-- All that a returning call of `d_insert` can have done: with a swap for each pass that
found the thread's slots full, one store into a free slot of its own. -/
theorem dInsert_cases (h : dInsert fuel b tid a = (b', some i)) :
    ∃ c : NextEvents, Relation.ReflTransGen (fun x y => y = x.changeDevQueue) b c ∧
      firstFree (c.dNextEventQueue c.dCurDevBuf) maxNewEvents (tid * maxNewEvents) = some i ∧
      b' = c.store i a.toDevice := by
  induction fuel generalizing b with
  | zero => simp [dInsert] at h
  | succ fuel ih =>
    rw [dInsert] at h
    rcases b.dInsertRound_cases tid a with ⟨j, hj, hround⟩ | ⟨_, hround⟩
    · rw [hround] at h
      simp only [Prod.mk.injEq, Option.some.injEq] at h
      obtain ⟨rfl, rfl⟩ := h
      exact ⟨b, .refl, hj, rfl⟩
    · rw [hround] at h
      obtain ⟨c, hc, hfree, hb'⟩ := ih h
      exact ⟨c, .head rfl hc, hfree, hb'⟩

theorem dInsert_swapped (h : (b.dInsertRound tid a).2 = none) (fuel : Nat) :
    dInsert (fuel + 1) b tid a = dInsert fuel b.changeDevQueue tid a := by
  rw [dInsert]
  rcases b.dInsertRound_cases tid a with ⟨j, _, hround⟩ | ⟨_, hround⟩
  · rw [hround] at h
    simp at h
  · rw [hround]

/-- A call that finds the thread's slots full in both buffers never returns. -/
theorem dInsert_stuck
    (hfull : ∀ h, firstFree (b.dNextEventQueue h) maxNewEvents (tid * maxNewEvents) = none)
    (fuel : Nat) : (dInsert fuel b tid a).2 = none := by
  induction fuel generalizing b with
  | zero => rfl
  | succ fuel ih =>
    have hround : (b.dInsertRound tid a).2 = none := by
      unfold dInsertRound
      rw [hfull]
    rw [dInsert_swapped hround]
    exact ih hfull

theorem dInsert_two (h : dInsert fuel b tid a = (b', some i)) :
    dInsert 2 b tid a = (b', some i) := by
  match fuel with
  | 0 => simp [dInsert] at h
  | 1 =>
    rcases b.dInsertRound_cases tid a with ⟨j, _, hround⟩ | ⟨_, hround⟩
    · simpa [dInsert, hround] using h
    · simp [dInsert, hround] at h
  | 2 => exact h
  | fuel + 3 =>
    rcases b.dInsertRound_cases tid a with ⟨j, _, hround⟩ | ⟨hfull, hround⟩
    · simpa [dInsert, hround] using h
    rcases b.changeDevQueue.dInsertRound_cases tid a with ⟨j, _, hround'⟩ | ⟨hfull', _⟩
    · simpa [dInsert, hround, hround'] using h
    -- the third pass is back at the first buffer
    have hboth : ∀ k, firstFree (b.dNextEventQueue k) maxNewEvents (tid * maxNewEvents) = none := by
      intro k
      rcases b.dCurDevBuf.eq_or_other k with rfl | rfl
      · exact hfull
      · exact hfull'
    have hnone := dInsert_stuck (a := a) hboth (fuel + 3)
    rw [h] at hnone
    simp at hnone

theorem swaps_queue {b c : NextEvents}
    (h : Relation.ReflTransGen (fun x y => y = x.changeDevQueue) b c) :
    c.dNextEventQueue = b.dNextEventQueue := by
  induction h with
  | refl => rfl
  | tail _ h ih => rw [h, changeDevQueue_queue, ih]

theorem Sound.swaps {b c : NextEvents} (hb : b.Sound)
    (h : Relation.ReflTransGen (fun x y => y = x.changeDevQueue) b c) : c.Sound := by
  induction h with
  | refl => exact hb
  | tail _ h ih => exact h ▸ ih.changeDevQueue

theorem swaps_contents {b c : NextEvents}
    (h : Relation.ReflTransGen (fun x y => y = x.changeDevQueue) b c) (k : Buf) :
    c.contents k = b.contents k := by
  simp only [contents, swaps_queue h]

theorem swaps_ready {b c : NextEvents}
    (h : Relation.ReflTransGen (fun x y => y = x.changeDevQueue) b c) {k : Buf}
    (hk : b.dBufrdy k = true) : c.dBufrdy k = true := by
  induction h with
  | refl => exact hk
  | tail _ h ih => simp [h, changeDevQueue_ready, ih]

theorem swaps_readyContents {b c : NextEvents}
    (h : Relation.ReflTransGen (fun x y => y = x.changeDevQueue) b c) (k : Buf) :
    b.readyContents k ≤ c.readyContents k := by
  by_cases hk : b.dBufrdy k = true
  · rw [readyContents, readyContents, if_pos hk, if_pos (swaps_ready h hk), swaps_contents h]
  · rw [readyContents, if_neg hk]
    exact Multiset.zero_le _

end Insert

section Drain

theorem drainThread_slots {q : Nat → Option DeviceEvent} {i : Nat}
    (hempty : q (i * maxNewEvents) = none → ∀ k < maxNewEvents, q (i * maxNewEvents + k) = none)
    (k : Nat) :
    (drainThread q i).1 k =
      if i * maxNewEvents ≤ k ∧ k < i * maxNewEvents + maxNewEvents then none else q k := by
  unfold drainThread
  split
  · rename_i hq
    split
    · rename_i hk
      have := hempty hq (k - i * maxNewEvents) (by omega)
      rwa [Nat.add_sub_cancel' hk.1] at this
    · rfl
  · rw [sweep_slots]
    split
    · rfl
    · rename_i hk
      rw [Function.update_of_ne]
      rintro rfl
      exact hk ⟨le_refl _, by unfold maxNewEvents; omega⟩

theorem drainThread_list {q : Nat → Option DeviceEvent} {i : Nat}
    (hempty : q (i * maxNewEvents) = none → ∀ k < maxNewEvents, q (i * maxNewEvents + k) = none) :
    ((drainThread q i).2 : Multiset DeviceEvent) =
      bag (fun k => q (i * maxNewEvents + k)) maxNewEvents := by
  unfold drainThread
  split
  · rename_i hq
    exact (bag_eq_zero.mpr (hempty hq)).symm
  · rename_i ev hq
    rw [← Multiset.cons_coe, sweep_list]
    have hclear := bag_clear (q := fun k => q (i * maxNewEvents + k)) (n := maxNewEvents)
      (i := 0) (a := ev) (by decide) hq
    rw [hclear]
    refine congrArg (ev ::ₘ ·) (bag_congr fun k _ => ?_)
    by_cases hk : k = 0
    · simp [hk]
    · rw [Function.update_of_ne hk, Function.update_of_ne (by omega)]

theorem drainQueue_spec {q : Nat → Option DeviceEvent} (hq : FrontFilled q maxNewEvents) (n : Nat) :
    (∀ k, (drainQueue n q).1 k = if k < n * maxNewEvents then none else q k) ∧
    ((drainQueue n q).2 : Multiset DeviceEvent) = bag q (n * maxNewEvents) := by
  induction n with
  | zero => simp [drainQueue]
  | succ n ih =>
    obtain ⟨hslots, hlist⟩ := ih
    -- the threads before `n` leave its slots alone
    have hsame : ∀ k, (drainQueue n q).1 (n * maxNewEvents + k) = q (n * maxNewEvents + k) := by
      intro k
      rw [hslots, if_neg (by omega)]
    have hempty : (drainQueue n q).1 (n * maxNewEvents) = none →
        ∀ k < maxNewEvents, (drainQueue n q).1 (n * maxNewEvents + k) = none := by
      intro h k hk
      have h0 := hsame 0
      rw [Nat.add_zero] at h0
      rw [hsame]
      exact hq.empty_area (h0 ▸ h) hk
    rw [drainQueue]
    constructor
    · intro k
      rw [drainThread_slots hempty, hslots]
      unfold maxNewEvents
      grind
    · rw [← Multiset.coe_add, hlist, drainThread_list hempty, Nat.add_mul, Nat.one_mul, bag_add]
      simp only [hsame]

variable {b : NextEvents}

theorem drainBuf_list (hb : b.Sound) (h : Buf) :
    ((b.drainBuf h).2 : Multiset EventArgs) = (b.readyContents h).map DeviceEvent.args := by
  unfold drainBuf readyContents
  split
  · rw [← Multiset.map_coe, (drainQueue_spec (hb.front h) _).2, contents]
  · rfl

theorem drainBuf_contents (hb : b.Sound) (h k : Buf) :
    (b.drainBuf h).1.contents k = if k = h ∧ b.dBufrdy h = true then 0 else b.contents k := by
  unfold drainBuf
  by_cases hrdy : b.dBufrdy h = true
  · by_cases hk : k = h
    · subst hk
      simp only [hrdy, if_true, contents, Function.update_self, and_self]
      refine bag_eq_zero.mpr fun i hi => ?_
      rw [(drainQueue_spec (hb.front k) _).1, if_pos hi]
    · simp [hrdy, hk, contents]
  · simp [hrdy]

theorem drainBuf_ready (h k : Buf) :
    (b.drainBuf h).1.dBufrdy k = if k = h then false else b.dBufrdy k := by
  unfold drainBuf
  by_cases hk : k = h
  · subst hk
    by_cases hrdy : b.dBufrdy k = true <;> simp [hrdy]
  · by_cases hrdy : b.dBufrdy h = true <;> simp [hrdy, hk]

@[simp] theorem drainBuf_cur (h : Buf) : (b.drainBuf h).1.dCurDevBuf = b.dCurDevBuf := by
  unfold drainBuf
  split <;> rfl

theorem Sound.drainBuf (hb : b.Sound) (h : Buf) : (b.drainBuf h).1.Sound := by
  constructor
  · intro k
    unfold NextEvents.drainBuf
    split
    · by_cases hk : k = h
      · subst hk
        simp only [Function.update_self]
        intro a i j hij hj hfull
        rw [(drainQueue_spec (hb.front k) _).1] at hfull ⊢
        split at hfull
        · simp at hfull
        · rename_i hout
          rw [if_neg (by unfold maxNewEvents at *; omega)]
          exact hb.front k a i j hij hj hfull
      · simpa [Function.update_of_ne hk] using hb.front k
    · exact hb.front k
  · intro k hne hrdy
    rw [drainBuf_contents hb]
    split
    · rfl
    · rename_i hk
      rw [drainBuf_cur] at hne
      rw [drainBuf_ready] at hrdy
      by_cases hkh : k = h
      · apply hb.idle k hne
        subst hkh
        simpa using hk
      · rw [if_neg hkh] at hrdy
        exact hb.idle k hne hrdy

theorem elpScheduleDevEvent_eq (b : NextEvents) :
    ∃ h : Buf, b.elpScheduleDevEvent =
      (((b.drainBuf h).1.drainBuf h.other).1,
        (b.drainBuf h).2 ++ ((b.drainBuf h).1.drainBuf h.other).2) := by
  unfold elpScheduleDevEvent
  split
  · rename_i hrdy
    refine ⟨.q1, ?_⟩
    simp [drainBuf, hrdy, Buf.other]
  · exact ⟨_, rfl⟩

theorem Sound.elpScheduleDevEvent (hb : b.Sound) : b.elpScheduleDevEvent.1.Sound := by
  obtain ⟨h, heq⟩ := b.elpScheduleDevEvent_eq
  rw [heq]
  exact (hb.drainBuf h).drainBuf h.other

theorem elpScheduleDevEvent_contents (hb : b.Sound) (h : Buf) :
    b.elpScheduleDevEvent.1.contents h = if b.dBufrdy h then 0 else b.contents h := by
  obtain ⟨k, heq⟩ := b.elpScheduleDevEvent_eq
  rw [heq, drainBuf_contents (hb.drainBuf k), drainBuf_contents hb, drainBuf_ready]
  rcases k.eq_or_other h with rfl | rfl <;> simp

theorem elpScheduleDevEvent_list (hb : b.Sound) :
    (b.elpScheduleDevEvent.2 : Multiset EventArgs) =
      (b.readyContents .q1 + b.readyContents .q2).map DeviceEvent.args := by
  obtain ⟨k, heq⟩ := b.elpScheduleDevEvent_eq
  have hother : (b.drainBuf k).1.readyContents k.other = b.readyContents k.other := by
    simp [readyContents, drainBuf_ready, drainBuf_contents hb]
  rw [heq, ← Multiset.coe_add, drainBuf_list hb, drainBuf_list (hb.drainBuf k), hother,
    ← Multiset.map_add]
  cases k <;> simp [Buf.other, add_comm]

theorem mem_elpScheduleDevEvent (hb : b.Sound) {a : EventArgs} :
    a ∈ b.elpScheduleDevEvent.2 ↔
      ∃ h, b.dBufrdy h = true ∧ ∃ ev ∈ b.contents h, ev.args = a := by
  rw [← Multiset.mem_coe, elpScheduleDevEvent_list hb]
  simp only [Multiset.mem_map, Multiset.mem_add, mem_readyContents]
  constructor
  · rintro ⟨ev, ⟨hrdy, hev⟩ | ⟨hrdy, hev⟩, rfl⟩
    · exact ⟨.q1, hrdy, ev, hev, rfl⟩
    · exact ⟨.q2, hrdy, ev, hev, rfl⟩
  · rintro ⟨h, hrdy, ev, hev, rfl⟩
    refine ⟨ev, ?_, rfl⟩
    cases h
    · exact Or.inl ⟨hrdy, hev⟩
    · exact Or.inr ⟨hrdy, hev⟩

end Drain

end NextEvents

end CudaNs3.Elp
