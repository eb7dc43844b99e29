import CudaNs3.Lib.Transition
import CudaNs3.Lib.Lanes
import CudaNs3.Elp.RunSK

/-!
# Warp-sorted slots

How `ELP_ProcessOneEvent` places events in the safe-event buffers, for every type that indexes
the warp arrays. The kernel handles the types 0, 1 and 2; an entry of type 3 it leaves valid.
-/

namespace CudaNs3.Elp

open Transition
set_option autoImplicit false

/-- An index of `warp_index` and `warp_thread_index`. -/
abbrev Kind := Fin eventKinds

structure KindEvent where
  impl : Nat
  ts : Nat
  context : Nat
  uid : Nat
  type : Kind
  lookahead : Nat
  payload : Option Nat
  deriving DecidableEq

/-- What `cuda_ProcessOneEvent` leaves of a valid entry. -/
def cudaProcessOneEvent (ev : KindEvent) : Option KindEvent :=
  if ev.type.val ≤ 2 then none else some ev

/-- A record of one `h_insert_sort`, with what the slot held before it. -/
structure Write where
  slot : Nat
  event : KindEvent
  before : Option KindEvent
  deriving DecidableEq

/-- `windows` records the writes between two swaps, and `window` those since the last one. -/
structure Allocation where
  hSafeEventQueue : Buf → Nat → Option KindEvent
  hCurHostBuf : Buf
  hBufrdy : Buf → Bool
  safeTs : Nat
  dSafeTs : Buf → Nat
  warpIndex : Kind → Nat
  warpThreadIndex : Kind → Nat
  nextAvailWarp : Nat
  kernel : Option Buf
  windows : List (List Write)
  window : List Write

/-- `process` is a step of the launched kernel. -/
inductive SlotOp where
  | dispatch (ev : KindEvent)
  | changeHostQueue
  | process (i : Nat)

def SlotOp.event? : SlotOp → Option KindEvent
  | dispatch ev => some ev
  | _ => none

namespace Allocation

def start : Allocation where
  hSafeEventQueue := fun _ _ => none
  hCurHostBuf := .q1
  hBufrdy := fun _ => false
  safeTs := uint64Max
  dSafeTs := fun _ => uint64Max
  warpIndex := fun k => k.val
  warpThreadIndex := fun _ => 0
  nextAvailWarp := eventKinds
  kernel := none
  windows := []
  window := []

/-- The buffers once `cudaEventSynchronize` has returned. -/
def synchronized (s : Allocation) (b : Buf) (i : Nat) : Option KindEvent :=
  if s.kernel = some b then (s.hSafeEventQueue b i).bind cudaProcessOneEvent
  else s.hSafeEventQueue b i

def changeHostQueue (s : Allocation) : Allocation :=
  { s with
    hSafeEventQueue := s.synchronized
    hBufrdy := Function.update (Function.update s.hBufrdy s.hCurHostBuf.other false)
      s.hCurHostBuf true
    dSafeTs := Function.update s.dSafeTs s.hCurHostBuf.other uint64Max
    kernel := some s.hCurHostBuf
    hCurHostBuf := s.hCurHostBuf.other
    warpIndex := fun k => k.val
    warpThreadIndex := fun _ => 0
    nextAvailWarp := eventKinds
    windows := s.windows ++ [s.window]
    window := [] }

def process (s : Allocation) (i : Nat) : Allocation :=
  { s with
    hSafeEventQueue := fun b k =>
      if s.kernel = some b ∧ k = i then (s.hSafeEventQueue b k).bind cudaProcessOneEvent
      else s.hSafeEventQueue b k }

/-- `h_insertIndex` and `warp_thread_index[type]++`. -/
def hInsertIndex (s : Allocation) (t : Kind) : Nat :=
  s.warpIndex t * warpSize + s.warpThreadIndex t

def countThread (s : Allocation) (t : Kind) : Allocation :=
  { s with warpThreadIndex := Function.update s.warpThreadIndex t (s.warpThreadIndex t + 1) }

/-- `none` where the loop on `h_curHostBufRdy` does not end. -/
def hInsertSort (s : Allocation) (index : Nat) (ev : KindEvent) : Option Allocation :=
  if s.hBufrdy s.hCurHostBuf then none
  else
    let full := s.warpThreadIndex ev.type = warpSize
    some { s with
      hSafeEventQueue := Function.update s.hSafeEventQueue s.hCurHostBuf
        (Function.update (s.hSafeEventQueue s.hCurHostBuf) index (some ev))
      warpThreadIndex :=
        if full then Function.update s.warpThreadIndex ev.type 0 else s.warpThreadIndex
      warpIndex :=
        if full then Function.update s.warpIndex ev.type s.nextAvailWarp else s.warpIndex
      nextAvailWarp := if full then s.nextAvailWarp + 1 else s.nextAvailWarp
      safeTs := lowerTs s.safeTs ev.ts ev.lookahead
      dSafeTs := Function.update s.dSafeTs s.hCurHostBuf
        (lowerTs (s.dSafeTs s.hCurHostBuf) ev.ts ev.lookahead)
      window := s.window ++ [⟨index, ev, s.hSafeEventQueue s.hCurHostBuf index⟩] }

/-- `ELP_ProcessOneEvent` from the assignment of `h_insertIndex` on. -/
def elpProcessOneEvent (s : Allocation) (ev : KindEvent) : Option Allocation :=
  if deviceQueueLength ≤ s.hInsertIndex ev.type then
    let s := (s.countThread ev.type).changeHostQueue
    (s.countThread ev.type).hInsertSort (s.hInsertIndex ev.type) ev
  else (s.countThread ev.type).hInsertSort (s.hInsertIndex ev.type) ev

def perform (s : Allocation) : SlotOp → Option Allocation
  | .dispatch ev => s.elpProcessOneEvent ev
  | .changeHostQueue => some s.changeHostQueue
  | .process i => some (s.process i)

def lanes (s : Allocation) : Lanes.Cursor Kind :=
  ⟨s.warpIndex, s.warpThreadIndex, s.nextAvailWarp⟩

def writes (s : Allocation) : List Write := s.windows.flatten ++ s.window

end Allocation

/-- The only type without a handler. -/
def unhandled : Kind := ⟨3, by decide⟩

theorem cudaProcessOneEvent_eq_some {ev ev' : KindEvent} (h : cudaProcessOneEvent ev = some ev') :
    ev' = ev ∧ ev'.type = unhandled := by
  unfold cudaProcessOneEvent at h
  split at h
  · cases h
  · rename_i htype
    obtain rfl := Option.some.inj h
    refine ⟨rfl, Fin.ext ?_⟩
    have hlt : ev.type.val < 4 := ev.type.isLt
    have hval : unhandled.val = 3 := rfl
    omega

/-- The slots of the writes are in range and pairwise different, and a warp gets events of one
type. -/
structure WarpSorted (ws : List Write) : Prop where
  range : ∀ w ∈ ws, w.slot < deviceQueueLength
  distinct : (ws.map Write.slot).Nodup
  homogeneous : ∀ v ∈ ws, ∀ w ∈ ws, v.slot / warpSize = w.slot / warpSize →
    v.event.type = w.event.type

/-- What the slot of a write held is an event without a handler, dispatched earlier. -/
def LeftOver (seen : List KindEvent) (w : Write) : Prop :=
  ∀ ev, w.before = some ev → ev.type = unhandled ∧ ev ∈ seen

def Write.place (w : Write) : Nat × Kind := (w.slot, w.event.type)

/-- What every call keeps. The events dispatched so far are `seen`. -/
structure Allotted (seen : List KindEvent) (s : Allocation) : Prop where
  apart : Lanes.Apart warpSize s.lanes
  ready : s.hBufrdy s.hCurHostBuf = false
  launched : ∀ b, s.kernel = some b → b = s.hCurHostBuf.other
  idle : s.kernel ≠ some s.hCurHostBuf.other →
    ∀ i ev, s.hSafeEventQueue s.hCurHostBuf.other i = some ev → ev.type = unhandled
  free : ∀ i, Lanes.Unclaimed warpSize s.lanes i →
    ∀ ev, s.hSafeEventQueue s.hCurHostBuf i = some ev → ev.type = unhandled
  entries : ∀ b i ev, s.hSafeEventQueue b i = some ev → ev ∈ seen
  filled : Lanes.Filled warpSize s.lanes (s.window.map Write.place)
  range : ∀ w ∈ s.window, w.slot < deviceQueueLength
  sorted : ∀ ws ∈ s.windows, WarpSorted ws
  leftOver : ∀ w ∈ s.writes, LeftOver seen w
  written : s.writes.map Write.event = seen

namespace Allotted
variable {seen : List KindEvent} {s : Allocation}

theorem reset_apart : Lanes.Apart warpSize ⟨fun k : Kind => k.val, fun _ => 0, eventKinds⟩ :=
  .reset (by decide) (fun k => k.isLt) (fun _ _ h => Fin.ext h)

theorem start : Allotted [] Allocation.start where
  apart := reset_apart
  ready := rfl
  launched := fun _ h => by cases h
  idle := fun _ _ _ h => by cases h
  free := fun _ _ _ h => by cases h
  entries := fun _ _ _ h => by cases h
  filled := Lanes.filled_nil
  range := fun _ h => by cases h
  sorted := fun _ h => by cases h
  leftOver := fun _ h => by cases h
  written := rfl

theorem warpSorted (hs : Allotted seen s) : WarpSorted s.window where
  range := hs.range
  distinct := by
    have hdistinct := hs.filled.distinct
    rwa [List.map_map] at hdistinct
  homogeneous := fun v hv w hw heq =>
    hs.filled.uniform _ (List.mem_map_of_mem hv) _ (List.mem_map_of_mem hw) heq

theorem mem_synchronized {b : Buf} {i : Nat} {ev : KindEvent}
    (h : s.synchronized b i = some ev) :
    s.hSafeEventQueue b i = some ev ∧ (s.kernel = some b → ev.type = unhandled) := by
  unfold Allocation.synchronized at h
  split at h
  · obtain ⟨ev', hev', hleft⟩ := Option.bind_eq_some_iff.mp h
    obtain ⟨rfl, htype⟩ := cudaProcessOneEvent_eq_some hleft
    exact ⟨hev', fun _ => htype⟩
  · rename_i hne
    exact ⟨h, fun heq => absurd heq hne⟩

/-- A synchronised kernel leaves no event with a handler in the buffer the host turns to. -/
theorem other_left (hs : Allotted seen s) {i : Nat} {ev : KindEvent}
    (h : s.synchronized s.hCurHostBuf.other i = some ev) : ev.type = unhandled := by
  obtain ⟨hold, hdone⟩ := mem_synchronized h
  by_cases hkernel : s.kernel = some s.hCurHostBuf.other
  · exact hdone hkernel
  · exact hs.idle hkernel i ev hold

theorem changeHostQueue (hs : Allotted seen s) : Allotted seen s.changeHostQueue where
  apart := reset_apart
  ready := by simp [Allocation.changeHostQueue]
  launched := fun b hb => by
    obtain rfl := Option.some.inj hb
    simp [Allocation.changeHostQueue]
  idle := fun hne => absurd (by simp [Allocation.changeHostQueue]) hne
  free := fun _ _ _ h => hs.other_left h
  entries := fun b i ev h => hs.entries b i ev (mem_synchronized h).1
  filled := Lanes.filled_nil
  range := fun _ h => by cases h
  sorted := fun ws h => by
    rcases List.mem_append.mp h with h | h
    · exact hs.sorted ws h
    · obtain rfl := List.mem_singleton.mp h
      exact hs.warpSorted
  leftOver := by
    have hwrites : s.changeHostQueue.writes = s.writes := by
      simp [Allocation.writes, Allocation.changeHostQueue]
    rw [hwrites]
    exact hs.leftOver
  written := by
    have hwrites : s.changeHostQueue.writes = s.writes := by
      simp [Allocation.writes, Allocation.changeHostQueue]
    rw [hwrites]
    exact hs.written

theorem process (hs : Allotted seen s) (i : Nat) : Allotted seen (s.process i) := by
  have hmem {b : Buf} {k : Nat} {ev : KindEvent}
      (h : (s.process i).hSafeEventQueue b k = some ev) : s.hSafeEventQueue b k = some ev := by
    simp only [Allocation.process] at h
    split at h
    · obtain ⟨ev', hev', hleft⟩ := Option.bind_eq_some_iff.mp h
      obtain ⟨rfl, _⟩ := cudaProcessOneEvent_eq_some hleft
      exact hev'
    · exact h
  exact {
    apart := ⟨hs.apart.lane_lt, hs.apart.group_lt, hs.apart.own⟩
    ready := hs.ready
    launched := hs.launched
    idle := fun hne k ev h => hs.idle hne k ev (hmem h)
    free := fun k hk ev h => hs.free k hk ev (hmem h)
    entries := fun b k ev h => hs.entries b k ev (hmem h)
    filled := hs.filled
    range := hs.range
    sorted := hs.sorted
    leftOver := hs.leftOver
    written := hs.written }

/-- `h_insert_sort` after `warp_thread_index[type]++` moves the arrays on by one lane. -/
theorem lanes_hInsertSort {t : Allocation} {ev : KindEvent} {index : Nat}
    (h : (s.countThread ev.type).hInsertSort index ev = some t) :
    t.lanes = s.lanes.advance warpSize ev.type := by
  unfold Allocation.hInsertSort at h
  split at h
  · cases h
  · obtain rfl := Option.some.inj h
    by_cases hfull : s.warpThreadIndex ev.type + 1 = warpSize
    · simp [Allocation.lanes, Allocation.countThread, Lanes.Cursor.advance, hfull]
    · simp [Allocation.lanes, Allocation.countThread, Lanes.Cursor.advance, hfull]

theorem place (hs : Allotted seen s) (ev : KindEvent)
    (hi : s.hInsertIndex ev.type < deviceQueueLength) :
    ∃ t, (s.countThread ev.type).hInsertSort (s.hInsertIndex ev.type) ev = some t ∧
      Allotted (seen ++ [ev]) t := by
  have hslot : s.hInsertIndex ev.type = s.lanes.slot warpSize ev.type := rfl
  have hready : ¬(s.countThread ev.type).hBufrdy (s.countThread ev.type).hCurHostBuf = true := by
    simp [Allocation.countThread, hs.ready]
  have hwritten {b : Buf} {k : Nat} {ev' : KindEvent}
      (h : Function.update s.hSafeEventQueue s.hCurHostBuf
        (Function.update (s.hSafeEventQueue s.hCurHostBuf) (s.hInsertIndex ev.type) (some ev))
        b k = some ev') :
      (b = s.hCurHostBuf ∧ k = s.hInsertIndex ev.type ∧ ev' = ev) ∨
        ((b = s.hCurHostBuf → k ≠ s.hInsertIndex ev.type) ∧
          s.hSafeEventQueue b k = some ev') := by
    by_cases hb : b = s.hCurHostBuf
    · subst hb
      rw [Function.update_self] at h
      by_cases hk : k = s.hInsertIndex ev.type
      · subst hk
        rw [Function.update_self] at h
        exact Or.inl ⟨rfl, rfl, (Option.some.inj h).symm⟩
      · rw [Function.update_of_ne hk] at h
        exact Or.inr ⟨fun _ => hk, h⟩
    · rw [Function.update_of_ne hb] at h
      exact Or.inr ⟨fun heq => absurd heq hb, h⟩
  have hsort : ∃ t, (s.countThread ev.type).hInsertSort (s.hInsertIndex ev.type) ev = some t := by
    rw [Allocation.hInsertSort, if_neg hready]
    exact ⟨_, rfl⟩
  obtain ⟨t, ht⟩ := hsort
  have hlanes := lanes_hInsertSort ht
  refine ⟨t, ht, ?_⟩
  rw [Allocation.hInsertSort, if_neg hready] at ht
  obtain rfl := Option.some.inj ht
  constructor
  · rw [hlanes]
    exact hs.apart.advance ev.type
  · exact hs.ready
  · exact hs.launched
  · intro hne k ev' h
    rcases hwritten h with ⟨hb, _⟩ | ⟨_, hold⟩
    · exact absurd hb (Buf.other_ne _)
    · exact hs.idle hne k ev' hold
  · intro k hk ev' h
    rw [hlanes] at hk
    obtain ⟨hun, hne⟩ := hs.apart.unclaimed_advance hk
    rcases hwritten h with ⟨_, heq, _⟩ | ⟨_, hold⟩
    · exact absurd heq hne
    · exact hs.free k hun ev' hold
  · intro b k ev' h
    rcases hwritten h with ⟨_, _, rfl⟩ | ⟨_, hold⟩
    · exact List.mem_append_right _ (List.mem_singleton_self _)
    · exact List.mem_append_left _ (hs.entries b k ev' hold)
  · rw [hlanes]
    have hput := hs.filled.put hs.apart ev.type
    rw [List.map_append]
    exact hput
  · intro w hw
    rcases List.mem_append.mp hw with hw | hw
    · exact hs.range w hw
    · obtain rfl := List.mem_singleton.mp hw
      exact hi
  · exact hs.sorted
  · intro w hw ev' hbefore
    rcases List.mem_append.mp hw with hw | hw
    · obtain ⟨htype, hmem⟩ := hs.leftOver w (List.mem_append_left _ hw) ev' hbefore
      exact ⟨htype, List.mem_append_left _ hmem⟩
    · rcases List.mem_append.mp hw with hw | hw
      · obtain ⟨htype, hmem⟩ := hs.leftOver w (List.mem_append_right _ hw) ev' hbefore
        exact ⟨htype, List.mem_append_left _ hmem⟩
      · obtain rfl := List.mem_singleton.mp hw
        refine ⟨hs.free _ (hs.apart.slot_unclaimed ev.type) ev' hbefore, ?_⟩
        exact List.mem_append_left _ (hs.entries _ _ ev' hbefore)
  · have hold := hs.written
    simp only [Allocation.writes, Allocation.countThread, List.map_append] at hold ⊢
    rw [← hold]
    simp

theorem hInsertIndex_changeHostQueue (s : Allocation) (t : Kind) :
    s.changeHostQueue.hInsertIndex t < deviceQueueLength := by
  have hlt : t.val < 4 := t.isLt
  have hindex : s.changeHostQueue.hInsertIndex t = t.val * 32 + 0 := rfl
  have hlength : deviceQueueLength = 4096 := rfl
  omega

theorem perform (hs : Allotted seen s) (op : SlotOp) :
    ∃ t, s.perform op = some t ∧ Allotted (seen ++ op.event?.toList) t := by
  cases op with
  | dispatch ev =>
    by_cases hi : deviceQueueLength ≤ s.hInsertIndex ev.type
    · -- the swap undoes the `++` made before it
      have hswap : (s.countThread ev.type).changeHostQueue = s.changeHostQueue := rfl
      obtain ⟨t, ht, hplaced⟩ :=
        hs.changeHostQueue.place ev (hInsertIndex_changeHostQueue s ev.type)
      refine ⟨t, ?_, hplaced⟩
      rw [Allocation.perform, Allocation.elpProcessOneEvent, if_pos hi, hswap]
      exact ht
    · obtain ⟨t, ht, hplaced⟩ := hs.place ev (Nat.lt_of_not_le hi)
      refine ⟨t, ?_, hplaced⟩
      rw [Allocation.perform, Allocation.elpProcessOneEvent, if_neg hi]
      exact ht
  | changeHostQueue =>
    have hnone : seen ++ SlotOp.changeHostQueue.event?.toList = seen := List.append_nil _
    exact ⟨_, rfl, hnone.symm ▸ hs.changeHostQueue⟩
  | process i =>
    have hnone : seen ++ (SlotOp.process i).event?.toList = seen := List.append_nil _
    exact ⟨_, rfl, hnone.symm ▸ hs.process i⟩

theorem run (hs : Allotted seen s) (ops : List SlotOp) :
    ∃ t, exec Allocation.perform s ops = some t ∧
      Allotted (seen ++ ops.filterMap SlotOp.event?) t := by
  induction ops generalizing seen s with
  | nil => exact ⟨s, rfl, by simpa using hs⟩
  | cons op ops ih =>
    obtain ⟨u, hu, hplaced⟩ := hs.perform op
    obtain ⟨t, ht, hrest⟩ := ih hplaced
    refine ⟨t, exec_cons_eq_some.mpr ⟨u, hu, ht⟩, ?_⟩
    have hevents : op.event?.toList ++ ops.filterMap SlotOp.event? =
        (op :: ops).filterMap SlotOp.event? := by
      cases op <;> rfl
    rw [← hevents, ← List.append_assoc]
    exact hrest

end Allotted

/-- Whatever is dispatched and however often the buffers are swapped, every event gets a slot in
range that no other event between the same swaps has, in a warp of its type, and the most such a
slot can still hold is an event of type 3 dispatched before. -/
theorem slots_allotted (ops : List SlotOp) :
    ∃ t, exec Allocation.perform .start ops = some t ∧
      t.writes.map Write.event = ops.filterMap SlotOp.event? ∧
      (∀ ws ∈ t.windows ++ [t.window], WarpSorted ws) ∧
      ∀ w ∈ t.writes, ∀ ev, w.before = some ev →
        ev.type = unhandled ∧ ev ∈ ops.filterMap SlotOp.event? := by
  obtain ⟨t, ht, hplaced⟩ := Allotted.start.run ops
  rw [List.nil_append] at hplaced
  refine ⟨t, ht, hplaced.written, fun ws hws => ?_, hplaced.leftOver⟩
  rcases List.mem_append.mp hws with hws | hws
  · exact hplaced.sorted ws hws
  · obtain rfl := List.mem_singleton.mp hws
    exact hplaced.warpSorted

/-! An event of type 3 is still there when its buffer comes round again. -/

def unhandledEvent : KindEvent := ⟨0, 0, 0, deviceEvIdOffset, unhandled, uint64Max, none⟩

theorem slot_still_valid :
    ¬ ∀ ops : List SlotOp, ∃ t, exec Allocation.perform .start ops = some t ∧
      (∀ ws ∈ t.windows ++ [t.window], WarpSorted ws) ∧
      ∀ w ∈ t.writes, w.before = none := by
  intro h
  obtain ⟨t, ht, _, hfree⟩ := h
    [.dispatch unhandledEvent, .changeHostQueue, .changeHostQueue, .dispatch unhandledEvent]
  have hwrites : t.writes =
      [⟨96, unhandledEvent, none⟩, ⟨96, unhandledEvent, some unhandledEvent⟩] := by
    obtain rfl := Option.some.inj ht
    rfl
  have hsecond := hfree ⟨96, unhandledEvent, some unhandledEvent⟩ (by simp [hwrites])
  cases hsecond

end CudaNs3.Elp
