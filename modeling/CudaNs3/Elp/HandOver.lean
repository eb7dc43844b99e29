import CudaNs3.Lib.Transition
import CudaNs3.Elp.NextEvents

/-!
# Hand-over from kernel threads to the scheduler

Runs of `d_insert` calls, host swaps and host drains over the two next-event buffers,
with a record of what was inserted and what was passed on to `ELP_Schedule`.
-/

namespace CudaNs3.Elp

open Transition SlotBuffer
set_option autoImplicit false

inductive HandOp where
  | insert (tid : Nat) (a : EventArgs)
  | swap
  | drain
  deriving DecidableEq

structure HandOver where
  buffers : NextEvents
  inserted : Multiset EventArgs
  scheduled : Multiset EventArgs

namespace HandOver

def start : HandOver := ⟨.empty, 0, 0⟩

/-- One call, taken as one atomic step. A call of `d_insert` that finds the slots of its
thread full in both buffers never returns, and neither does the run. -/
def perform (s : HandOver) : HandOp → Option HandOver
  | .insert tid a =>
    if tid < deviceQueueLength then
      match NextEvents.dInsert 2 s.buffers tid a with
      | (_, none) => none
      | (b, some _) => some { s with buffers := b, inserted := a ::ₘ s.inserted }
    else none
  | .swap => some { s with buffers := s.buffers.changeDevQueue }
  | .drain =>
    let r := s.buffers.elpScheduleDevEvent
    some { s with buffers := r.1, scheduled := s.scheduled + r.2 }

/-- The operation swaps the buffers: `ChangeDevQueue`, or a `d_insert` whose first pass
finds no free slot. -/
def Swaps (s : HandOver) : HandOp → Prop
  | .insert tid a => (s.buffers.dInsertRound tid a).2 = none
  | .swap => True
  | .drain => False

/-- What is inserted and not yet passed on. -/
def held (s : HandOver) : Multiset EventArgs :=
  (s.buffers.contents .q1 + s.buffers.contents .q2).map DeviceEvent.args

/-- The part of it that the next drain passes on. -/
def ready (s : HandOver) : Multiset EventArgs :=
  (s.buffers.readyContents .q1 + s.buffers.readyContents .q2).map DeviceEvent.args

structure Accounted (s : HandOver) : Prop where
  sound : s.buffers.Sound
  once : s.inserted = s.scheduled + s.held

section Insert
variable {s t : HandOver} {tid : Nat} {a : EventArgs}

theorem insert_cases (h : s.perform (.insert tid a) = some t) :
    ∃ c i, Relation.ReflTransGen (fun x y => y = x.changeDevQueue) s.buffers c ∧
      firstFree (c.dNextEventQueue c.dCurDevBuf) maxNewEvents (tid * maxNewEvents) = some i ∧
      tid < deviceQueueLength ∧ t = ⟨c.store i a.toDevice, a ::ₘ s.inserted, s.scheduled⟩ := by
  simp only [perform] at h
  split at h
  · rename_i htid
    split at h
    · simp at h
    · rename_i b i hins
      obtain ⟨c, hc, hfree, rfl⟩ := NextEvents.dInsert_cases hins
      exact ⟨c, i, hc, hfree, htid, (Option.some.inj h).symm⟩
  · simp at h

theorem insert_held {c : NextEvents} {i : Nat} (ev : DeviceEvent)
    (hi : i < deviceQueueLength * maxNewEvents)
    (hfree : c.dNextEventQueue c.dCurDevBuf i = none) :
    (c.store i ev).contents .q1 + (c.store i ev).contents .q2 =
      ev ::ₘ (c.contents .q1 + c.contents .q2) := by
  rw [NextEvents.store_contents hi hfree, NextEvents.store_contents hi hfree]
  cases c.dCurDevBuf <;> simp

theorem Accounted.insert (hs : s.Accounted) (h : s.perform (.insert tid a) = some t) :
    t.Accounted := by
  obtain ⟨c, i, hc, hfree, htid, rfl⟩ := insert_cases h
  obtain ⟨_, hlt, hnone, _⟩ := firstFree_some hfree
  refine ⟨(hs.sound.swaps hc).store _ htid hfree, ?_⟩
  have hheld : held ⟨c.store i a.toDevice, a ::ₘ s.inserted, s.scheduled⟩ = a ::ₘ s.held := by
    rw [held, insert_held _ (NextEvents.slot_lt htid hlt) hnone, NextEvents.swaps_contents hc,
      NextEvents.swaps_contents hc, Multiset.map_cons, EventArgs.args_toDevice, held]
  rw [hheld, Multiset.add_cons]
  exact congrArg (a ::ₘ ·) hs.once

theorem insert_ready (h : s.perform (.insert tid a) = some t) : s.ready ≤ t.ready := by
  obtain ⟨c, i, hc, hfree, htid, rfl⟩ := insert_cases h
  obtain ⟨_, hlt, hnone, _⟩ := firstFree_some hfree
  have hkeep (k : Buf) : s.buffers.readyContents k ≤ (c.store i a.toDevice).readyContents k :=
    (NextEvents.swaps_readyContents hc k).trans
      (NextEvents.store_readyContents (NextEvents.slot_lt htid hlt) hnone k)
  exact Multiset.map_le_map (add_le_add (hkeep .q1) (hkeep .q2))

theorem insert_frame (h : s.perform (.insert tid a) = some t) (k : Buf) (j : Nat)
    (hj : t.buffers.dNextEventQueue k j ≠ s.buffers.dNextEventQueue k j) :
    tid * maxNewEvents ≤ j ∧ j < tid * maxNewEvents + maxNewEvents := by
  obtain ⟨c, i, hc, hfree, _, rfl⟩ := insert_cases h
  obtain ⟨hle, hlt, _, _⟩ := firstFree_some hfree
  by_contra hout
  apply hj
  have hne : ¬(k = c.dCurDevBuf ∧ j = i) := by
    rintro ⟨_, rfl⟩
    exact hout ⟨hle, hlt⟩
  have hswaps := congrFun (congrFun (NextEvents.swaps_queue hc) k) j
  exact (NextEvents.store_queue_of_ne hne).trans hswaps

theorem insert_swapped (hsw : s.Swaps (.insert tid a)) (h : s.perform (.insert tid a) = some t) :
    perform { s with buffers := s.buffers.changeDevQueue } (.insert tid a) = some t := by
  simp only [perform] at h ⊢
  rw [NextEvents.dInsert_swapped hsw] at h
  split at h
  · rename_i htid
    rw [if_pos htid]
    split at h
    · simp at h
    · rename_i b i hins
      rw [NextEvents.dInsert_two hins]
      exact h
  · simp at h

end Insert

section Runs
variable {s t : HandOver} {op : HandOp}

theorem drain_scheduled (hs : s.Accounted) (h : s.perform .drain = some t) :
    t.scheduled = s.scheduled + s.ready := by
  obtain rfl := Option.some.inj h
  simp only [NextEvents.elpScheduleDevEvent_list hs.sound, ready]

theorem drain_held (hs : s.Accounted) (h : s.perform .drain = some t) :
    s.held = s.ready + t.held := by
  obtain rfl := Option.some.inj h
  have hlost (k : Buf) : s.buffers.contents k =
      s.buffers.readyContents k + s.buffers.elpScheduleDevEvent.1.contents k := by
    rw [NextEvents.elpScheduleDevEvent_contents hs.sound, NextEvents.readyContents]
    split <;> simp
  simp only [held, ready]
  rw [hlost .q1, hlost .q2, ← Multiset.map_add, add_add_add_comm]

theorem Accounted.perform (hs : s.Accounted) (h : s.perform op = some t) : t.Accounted := by
  cases op with
  | insert tid a => exact hs.insert h
  | swap =>
    obtain rfl := Option.some.inj h
    refine ⟨hs.sound.changeDevQueue, ?_⟩
    simpa [held] using hs.once
  | drain =>
    have honce : t.inserted = t.scheduled + t.held := by
      have hins : t.inserted = s.inserted := by
        obtain rfl := Option.some.inj h
        rfl
      rw [hins, hs.once, drain_held hs h, drain_scheduled hs h, add_assoc]
    obtain rfl := Option.some.inj h
    exact ⟨hs.sound.elpScheduleDevEvent, honce⟩

theorem swap_ready (hs : s.Accounted) (h : s.perform .swap = some t) : t.ready = s.held := by
  obtain rfl := Option.some.inj h
  simp only [ready, held, hs.sound.all_ready]

theorem ready_le_held (s : HandOver) : s.ready ≤ s.held := by
  have hle (k : Buf) : s.buffers.readyContents k ≤ s.buffers.contents k := by
    rw [NextEvents.readyContents]
    split
    · exact le_refl _
    · exact Multiset.zero_le _
  exact Multiset.map_le_map (add_le_add (hle .q1) (hle .q2))

theorem perform_due (hs : s.Accounted) (h : s.perform op = some t) :
    s.scheduled + s.ready ≤ t.scheduled + t.ready := by
  cases op with
  | insert tid a =>
    have hsch : t.scheduled = s.scheduled := by
      obtain ⟨_, _, _, _, _, rfl⟩ := insert_cases h
      rfl
    rw [hsch]
    exact add_le_add_right (insert_ready h) _
  | swap =>
    rw [swap_ready hs h]
    obtain rfl := Option.some.inj h
    exact add_le_add_right s.ready_le_held _
  | drain =>
    rw [drain_scheduled hs h]
    exact Multiset.le_add_right _ _

theorem swap_due (hs : s.Accounted) (hsw : s.Swaps op) (h : s.perform op = some t) :
    s.inserted ≤ t.scheduled + t.ready := by
  rw [hs.once]
  have hswap : s.perform .swap = some { s with buffers := s.buffers.changeDevQueue } := rfl
  cases op with
  | insert tid a =>
    rw [← swap_ready hs hswap]
    exact perform_due (hs.perform hswap) (insert_swapped hsw h)
  | swap =>
    obtain rfl := Option.some.inj h
    rw [← swap_ready hs hswap]
  | drain => exact hsw.elim

theorem start_accounted : start.Accounted := by
  refine ⟨NextEvents.empty_sound, ?_⟩
  simp [start, held, NextEvents.empty_contents]

theorem Accounted.exec {ops : List HandOp} (hs : s.Accounted)
    (h : exec HandOver.perform s ops = some t) : t.Accounted :=
  exec_invariant (fun _ _ _ hu hv => hu.perform hv) hs h

theorem exec_due {ops : List HandOp} (hs : s.Accounted)
    (h : Transition.exec HandOver.perform s ops = some t) :
    s.scheduled + s.ready ≤ t.scheduled + t.ready := by
  have := exec_invariant (P := fun u => u.Accounted ∧ s.scheduled + s.ready ≤ u.scheduled + u.ready)
    (fun u op v hu hv => ⟨hu.1.perform hv, hu.2.trans (perform_due hu.1 hv)⟩)
    ⟨hs, le_refl _⟩ h
  exact this.2

theorem perform_scheduled (h : s.perform op = some t) : s.scheduled ≤ t.scheduled := by
  cases op with
  | insert tid a =>
    obtain ⟨_, _, _, _, _, rfl⟩ := insert_cases h
    exact le_refl _
  | swap =>
    obtain rfl := Option.some.inj h
    exact le_refl _
  | drain =>
    obtain rfl := Option.some.inj h
    exact Multiset.le_add_right _ _

theorem exec_scheduled {ops : List HandOp} (h : Transition.exec HandOver.perform s ops = some t) :
    s.scheduled ≤ t.scheduled :=
  exec_invariant (P := fun u => s.scheduled ≤ u.scheduled)
    (fun _ _ _ hu hv => hu.trans (perform_scheduled hv)) (le_refl _) h

end Runs

end HandOver
end CudaNs3.Elp
