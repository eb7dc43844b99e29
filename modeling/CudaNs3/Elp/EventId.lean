import CudaNs3.Lib.Transition
import CudaNs3.Elp.Event
import Mathlib.Data.List.Basic

/-!
# Event identifiers

The scheduling interface of the simulator with its two uid counters. Host uids start
again at `EventId::UID::VALID` after `DEVICE_EV_ID_OFFSET` of them, whatever is still
pending; device uids run through 32 bits. The pending events are kept in the order in
which they were scheduled.
-/

namespace CudaNs3.Elp

open Transition
set_option autoImplicit false

/-- The constants of `EventId::UID`, which is declared outside the repository. -/
structure EventUids where
  invalid : Nat
  destroy : Nat
  valid : Nat
  invalid_lt : invalid < valid
  destroy_lt : destroy < valid
  valid_lt : valid < deviceEvIdOffset

structure EventId where
  eventImpl : Nat
  ts : Nat
  context : Nat
  uid : Nat
  deriving DecidableEq, Repr

structure EventWithContext where
  context : Nat
  timestamp : Nat
  event : Nat
  deriving DecidableEq, Repr

structure Simulator where
  mEvents : List Event
  mEventsWithContext : List EventWithContext
  mDestroyEvents : List EventId
  cancelled : List Nat
  mUid : Nat
  dUid : Nat
  mCurrentTs : Nat
  mCurrentUid : Nat
  mCurrentContext : Nat

inductive SimOp where
  | schedule (delay event : Nat)
  | scheduleWithContext (context delay event : Nat) (mainThread : Bool)
  | scheduleDestroy (event : Nat)
  | processEventsWithContext
  | elpSchedule (a : EventArgs)
  | dispatch (e : Event)
  | cancel (id : EventId)
  | remove (id : EventId)

instance (m : List Event) (e : Event) : Decidable (IsNext m e) :=
  inferInstanceAs (Decidable (_ ∧ _))

namespace Simulator

variable (ids : EventUids)

def start : Simulator :=
  ⟨[], [], [], [], ids.valid, deviceEvIdOffset, 0, ids.invalid, 0xffffffff⟩

/-- `m_uid++`, and back to `VALID` when it reaches the device uids. -/
def nextUid (s : Simulator) : Nat :=
  if s.mUid + 1 ≥ deviceEvIdOffset then ids.valid else s.mUid + 1

/-- The lines `Schedule`, `ScheduleWithContext` and `ProcessEventsWithContext` share. -/
def insertHost (s : Simulator) (ts context event : Nat) : Simulator :=
  { s with
    mEvents := s.mEvents ++ [⟨.callback event, ts, context, s.mUid⟩]
    mUid := s.nextUid ids }

def isExpired (s : Simulator) (id : EventId) : Bool :=
  if id.uid = ids.destroy then
    decide (id.eventImpl ∈ s.cancelled) || !decide (id ∈ s.mDestroyEvents)
  else
    decide (id.ts < s.mCurrentTs) || decide (id.ts = s.mCurrentTs ∧ id.uid ≤ s.mCurrentUid) ||
      decide (id.eventImpl ∈ s.cancelled)

def insertQueued (s : Simulator) (q : EventWithContext) : Simulator :=
  s.insertHost ids (s.mCurrentTs + q.timestamp) q.context q.event

/-- One call. A dispatch takes a next event and stands for `ProcessOneEvent` up to `Invoke`, or
for `ELP_ProcessOneEvent`; what a callback does are further calls. -/
def perform (s : Simulator) : SimOp → Option Simulator
  | .schedule delay event =>
    some (s.insertHost ids (s.mCurrentTs + delay) s.mCurrentContext event)
  | .scheduleWithContext context delay event mainThread =>
    if mainThread then some (s.insertHost ids (s.mCurrentTs + delay) context event)
    else some { s with mEventsWithContext := s.mEventsWithContext ++ [⟨context, delay, event⟩] }
  | .scheduleDestroy event =>
    some { s with
      mDestroyEvents := s.mDestroyEvents ++ [⟨event, s.mCurrentTs, 0xffffffff, 2⟩]
      mUid := s.nextUid ids }
  | .processEventsWithContext =>
    some (s.mEventsWithContext.foldl (insertQueued ids) { s with mEventsWithContext := [] })
  | .elpSchedule a =>
    some { s with
      mEvents := s.mEvents ++
        [⟨.hostEvent ⟨a.obj, a.type, a.lookahead, a.payload⟩, a.ts, a.context, s.dUid⟩]
      dUid := (s.dUid + 1) % UInt32.size }
  | .dispatch e =>
    if IsNext s.mEvents e then
      if e.uid ≥ deviceEvIdOffset then
        some { s with
          mEvents := s.mEvents.erase e
          mCurrentTs := max s.mCurrentTs e.ts
          mCurrentContext := e.context }
      else
        some { s with
          mEvents := s.mEvents.erase e
          mCurrentTs := e.ts
          mCurrentContext := e.context
          mCurrentUid := e.uid }
    else none
  | .cancel id =>
    some (if s.isExpired ids id then s else { s with cancelled := id.eventImpl :: s.cancelled })
  | .remove id =>
    some
      (if id.uid = ids.destroy then { s with mDestroyEvents := s.mDestroyEvents.erase id }
      else if s.isExpired ids id then s
      else
        { s with
          mEvents := s.mEvents.erase ⟨.callback id.eventImpl, id.ts, id.context, id.uid⟩
          cancelled := id.eventImpl :: s.cancelled })

/-- The uid that a host event scheduled for `ts` would get is above those of the host events
pending for `ts`, and above that of the current event if `ts` is now. -/
def FreshHost (s : Simulator) (ts : Nat) : Prop :=
  (∀ e ∈ s.mEvents, e.impl.isHostEvent = false → e.ts = ts → e.uid < s.mUid) ∧
    (ts = s.mCurrentTs → s.mCurrentUid < s.mUid)

def FreshQueued (s : Simulator) : List EventWithContext → Prop
  | [] => True
  | q :: qs => s.FreshHost (s.mCurrentTs + q.timestamp) ∧ (s.insertQueued ids q).FreshQueued qs

/-- `d_uid` is a device uid, and no event pending for `ts` has it. -/
def FreshDevice (s : Simulator) (ts : Nat) : Prop :=
  deviceEvIdOffset ≤ s.dUid ∧ ∀ e ∈ s.mEvents, e.ts = ts → e.uid ≠ s.dUid

/-- The uids the call hands out are fresh. -/
def Fresh (s : Simulator) : SimOp → Prop
  | .schedule delay _ => s.FreshHost (s.mCurrentTs + delay)
  | .scheduleWithContext _ delay _ mainThread =>
    mainThread = true → s.FreshHost (s.mCurrentTs + delay)
  | .processEventsWithContext =>
    FreshQueued ids { s with mEventsWithContext := [] } s.mEventsWithContext
  | .elpSchedule a => s.FreshDevice a.ts
  | _ => True

/-- Unique, ordered and typed identifiers, and no pending event taken for expired. -/
structure Identified (s : Simulator) : Prop where
  unique : s.mEvents.Pairwise fun e f => ¬(e.ts = f.ts ∧ e.uid = f.uid)
  order : ∀ before e after, s.mEvents = before ++ e :: after → IsNext s.mEvents e →
    e.impl.isHostEvent = false → ∀ f ∈ before, f.impl.isHostEvent = false → f.ts ≠ e.ts
  typed : ∀ e ∈ s.mEvents, deviceEvIdOffset ≤ e.uid ↔ e.impl.isHostEvent = true
  unexpired : ∀ e ∈ s.mEvents, ∀ event, e.impl = .callback event → event ∉ s.cancelled →
    s.isExpired ids ⟨event, e.ts, e.context, e.uid⟩ = false

def Ordered (e f : Event) : Prop :=
  e.ts = f.ts → e.uid ≠ f.uid ∧
    (e.impl.isHostEvent = false → f.impl.isHostEvent = false → e.uid < f.uid)

structure Counted (s : Simulator) : Prop where
  ordered : s.mEvents.Pairwise Ordered
  device : ∀ e ∈ s.mEvents, e.impl.isHostEvent = true → deviceEvIdOffset ≤ e.uid
  host : ∀ e ∈ s.mEvents, e.impl.isHostEvent = false →
    ids.valid ≤ e.uid ∧ e.uid < deviceEvIdOffset
  current : ∀ e ∈ s.mEvents, e.impl.isHostEvent = false →
    s.mCurrentTs < e.ts ∨ (e.ts = s.mCurrentTs ∧ s.mCurrentUid < e.uid)
  counter : ids.valid ≤ s.mUid ∧ s.mUid < deviceEvIdOffset

variable {ids} {s t : Simulator}

theorem Counted.identified (hs : s.Counted ids) : s.Identified ids := by
  refine ⟨?_, ?_, ?_, ?_⟩
  · refine hs.ordered.imp fun {e f} h => ?_
    intro ⟨hts, huid⟩
    exact (h hts).1 huid
  · intro before e after hsplit hnext he f hf hfhost hts
    have hpair := hs.ordered
    rw [hsplit, List.pairwise_append] at hpair
    have hlt := ((hpair.2.2 f hf e List.mem_cons_self) hts).2 hfhost he
    have hmem : f ∈ s.mEvents := by
      rw [hsplit]
      exact List.mem_append_left _ hf
    rcases hnext.2 f hmem with hearlier | ⟨_, hle⟩
    · omega
    · omega
  · intro e he
    cases hdev : e.impl.isHostEvent with
    | true => exact ⟨fun _ => rfl, fun _ => hs.device e he hdev⟩
    | false =>
      have hlt := (hs.host e he hdev).2
      exact ⟨fun hle => absurd hle (Nat.not_le.mpr hlt), fun h => by simp at h⟩
  · intro e he event himpl hlive
    have hhost : e.impl.isHostEvent = false := by
      rw [himpl]
      rfl
    have hne : e.uid ≠ ids.destroy := by
      have h₁ := (hs.host e he hhost).1
      have h₂ := ids.destroy_lt
      omega
    have hcurrent := hs.current e he hhost
    simp only [isExpired, if_neg hne, hlive, decide_false, Bool.or_false, Bool.or_eq_false_iff,
      decide_eq_false_iff_not]
    omega

theorem Counted.start : (Simulator.start ids).Counted ids where
  ordered := List.Pairwise.nil
  device := by simp [Simulator.start]
  host := by simp [Simulator.start]
  current := by simp [Simulator.start]
  counter := ⟨Nat.le_refl _, ids.valid_lt⟩

theorem nextUid_range (hs : s.Counted ids) :
    ids.valid ≤ s.nextUid ids ∧ s.nextUid ids < deviceEvIdOffset := by
  have h₁ := hs.counter
  have h₂ := ids.valid_lt
  unfold nextUid
  split
  · omega
  · omega

theorem Counted.of_sublist (hs : s.Counted ids) (hsub : t.mEvents.Sublist s.mEvents)
    (hts : t.mCurrentTs = s.mCurrentTs) (hcur : t.mCurrentUid = s.mCurrentUid)
    (hcounter : ids.valid ≤ t.mUid ∧ t.mUid < deviceEvIdOffset) : t.Counted ids where
  ordered := hs.ordered.sublist hsub
  device := fun e he => hs.device e (hsub.subset he)
  host := fun e he => hs.host e (hsub.subset he)
  current := fun e he hhost => by
    rw [hts, hcur]
    exact hs.current e (hsub.subset he) hhost
  counter := hcounter

theorem Counted.insertHost (hs : s.Counted ids) {ts : Nat} (hfresh : s.FreshHost ts)
    (hts : s.mCurrentTs ≤ ts) (context event : Nat) :
    (s.insertHost ids ts context event).Counted ids := by
  obtain ⟨habove, hnow⟩ := hfresh
  refine ⟨?_, ?_, ?_, ?_, nextUid_range hs⟩
  · refine List.pairwise_append.mpr ⟨hs.ordered, List.pairwise_singleton _ _, ?_⟩
    intro e he f hf hsame
    obtain rfl := List.mem_singleton.mp hf
    cases hdev : e.impl.isHostEvent with
    | true =>
      have h₁ := hs.device e he hdev
      have h₂ := hs.counter.2
      exact ⟨fun heq => by simp only at heq; omega, fun h => by simp at h⟩
    | false =>
      have hlt := habove e he hdev hsame
      exact ⟨Nat.ne_of_lt hlt, fun _ _ => hlt⟩
  · intro e he hdev
    rcases List.mem_append.mp he with he | he
    · exact hs.device e he hdev
    · obtain rfl := List.mem_singleton.mp he
      simp [EventImpl.isHostEvent] at hdev
  · intro e he hhost
    rcases List.mem_append.mp he with he | he
    · exact hs.host e he hhost
    · obtain rfl := List.mem_singleton.mp he
      exact hs.counter
  · intro e he hhost
    rcases List.mem_append.mp he with he | he
    · exact hs.current e he hhost
    · obtain rfl := List.mem_singleton.mp he
      rcases Nat.lt_or_eq_of_le hts with hlt | heq
      · exact Or.inl hlt
      · exact Or.inr ⟨heq.symm, hnow heq.symm⟩

theorem Counted.insertAll {qs : List EventWithContext} (hs : s.Counted ids)
    (hfresh : s.FreshQueued ids qs) : (qs.foldl (insertQueued ids) s).Counted ids := by
  induction qs generalizing s with
  | nil => exact hs
  | cons q qs ih =>
    obtain ⟨hfirst, hrest⟩ := hfresh
    exact ih (hs.insertHost hfirst (Nat.le_add_right _ _) _ _) hrest

theorem Counted.elpSchedule (hs : s.Counted ids) {a : EventArgs} (hfresh : s.FreshDevice a.ts)
    (h : s.perform ids (.elpSchedule a) = some t) : t.Counted ids := by
  obtain ⟨hdevice, hother⟩ := hfresh
  obtain rfl := Option.some.inj h
  refine ⟨?_, ?_, ?_, ?_, hs.counter⟩
  · refine List.pairwise_append.mpr ⟨hs.ordered, List.pairwise_singleton _ _, ?_⟩
    intro e he f hf hsame
    obtain rfl := List.mem_singleton.mp hf
    exact ⟨hother e he hsame, fun _ h => by simp [EventImpl.isHostEvent] at h⟩
  · intro e he hdev
    rcases List.mem_append.mp he with he | he
    · exact hs.device e he hdev
    · obtain rfl := List.mem_singleton.mp he
      exact hdevice
  · intro e he hhost
    rcases List.mem_append.mp he with he | he
    · exact hs.host e he hhost
    · obtain rfl := List.mem_singleton.mp he
      simp [EventImpl.isHostEvent] at hhost
  · intro e he hhost
    rcases List.mem_append.mp he with he | he
    · exact hs.current e he hhost
    · obtain rfl := List.mem_singleton.mp he
      simp [EventImpl.isHostEvent] at hhost

theorem Counted.uid_ne (hs : s.Counted ids) {e f : Event} (he : e ∈ s.mEvents)
    (hf : f ∈ s.mEvents.erase e) : e.ts = f.ts → e.uid ≠ f.uid := by
  intro hts huid
  have hperm : s.mEvents.Perm (e :: s.mEvents.erase e) := List.perm_cons_erase he
  have hpair : s.mEvents.Pairwise fun e f => ¬(e.ts = f.ts ∧ e.uid = f.uid) :=
    hs.identified.unique
  rw [hperm.pairwise_iff fun {a b} h hba => h ⟨hba.1.symm, hba.2.symm⟩] at hpair
  exact (List.pairwise_cons.mp hpair).1 f hf ⟨hts, huid⟩

theorem Counted.dispatch (hs : s.Counted ids) {e : Event}
    (h : s.perform ids (.dispatch e) = some t) : t.Counted ids := by
  simp only [perform] at h
  split at h
  · rename_i hnext
    have hsub : (s.mEvents.erase e).Sublist s.mEvents := List.erase_sublist
    split at h
    · rename_i hdev
      obtain rfl := Option.some.inj h
      refine ⟨hs.ordered.sublist hsub, fun f hf => hs.device f (hsub.subset hf),
        fun f hf => hs.host f (hsub.subset hf), fun f hf hhost => ?_, hs.counter⟩
      -- a pending host event comes after the device event that goes first
      have hcurrent := hs.current f (hsub.subset hf) hhost
      have hlow := (hs.host f (hsub.subset hf) hhost).2
      have hlater := hnext.2 f (hsub.subset hf)
      simp only
      omega
    · rename_i hhostUid
      obtain rfl := Option.some.inj h
      refine ⟨hs.ordered.sublist hsub, fun f hf => hs.device f (hsub.subset hf),
        fun f hf => hs.host f (hsub.subset hf), fun f hf hhost => ?_, hs.counter⟩
      have hne := hs.uid_ne hnext.1 hf
      have hlater := hnext.2 f (hsub.subset hf)
      simp only
      omega
  · simp at h

theorem Counted.perform (hs : s.Counted ids) {op : SimOp} (hfresh : s.Fresh ids op)
    (h : s.perform ids op = some t) : t.Counted ids := by
  cases op with
  | schedule delay event =>
    obtain rfl := Option.some.inj h
    exact hs.insertHost hfresh (Nat.le_add_right _ _) _ _
  | scheduleWithContext context delay event mainThread =>
    cases mainThread with
    | true =>
      obtain rfl := Option.some.inj h
      exact hs.insertHost (hfresh rfl) (Nat.le_add_right _ _) _ _
    | false =>
      obtain rfl := Option.some.inj h
      exact hs.of_sublist (List.Sublist.refl _) rfl rfl hs.counter
  | scheduleDestroy event =>
    obtain rfl := Option.some.inj h
    exact hs.of_sublist (List.Sublist.refl _) rfl rfl (nextUid_range hs)
  | processEventsWithContext =>
    obtain rfl := Option.some.inj h
    refine Counted.insertAll ?_ hfresh
    exact hs.of_sublist (List.Sublist.refl _) rfl rfl hs.counter
  | elpSchedule a => exact hs.elpSchedule hfresh h
  | dispatch e => exact hs.dispatch h
  | cancel id =>
    obtain rfl := Option.some.inj h
    split
    · exact hs
    · exact hs.of_sublist (List.Sublist.refl _) rfl rfl hs.counter
  | remove id =>
    obtain rfl := Option.some.inj h
    split
    · exact hs.of_sublist (List.Sublist.refl _) rfl rfl hs.counter
    · split
      · exact hs
      · exact hs.of_sublist List.erase_sublist rfl rfl hs.counter

def FreshStep (ids : EventUids) (s t : Simulator) : Prop :=
  ∃ op, s.Fresh ids op ∧ s.perform ids op = some t

def eventUids : EventUids := ⟨0, 2, 4, by decide, by decide, by decide⟩

theorem exec_scheduleDestroy {n : Nat} (hn : s.mUid + n < deviceEvIdOffset) (event : Nat) :
    ∃ d, exec (perform ids) s (List.replicate n (.scheduleDestroy event)) =
      some { s with mUid := s.mUid + n, mDestroyEvents := d } := by
  induction n generalizing s with
  | zero => exact ⟨s.mDestroyEvents, rfl⟩
  | succ n ih =>
    have huid : s.nextUid ids = s.mUid + 1 := by
      unfold nextUid
      rw [if_neg (by omega)]
    obtain ⟨d, hd⟩ := ih (s := { s with
      mDestroyEvents := s.mDestroyEvents ++ [⟨event, s.mCurrentTs, 0xffffffff, 2⟩]
      mUid := s.nextUid ids }) (by simp only [huid]; omega)
    refine ⟨d, exec_cons_eq_some.mpr ⟨_, rfl, ?_⟩⟩
    rw [hd]
    simp only [huid, Nat.add_assoc, Nat.add_comm 1 n]

/-- `ScheduleDestroy` uses up uids, so enough of them bring the counter back to `VALID`. -/
theorem exec_scheduleDestroy_wraps {n : Nat} (hn : s.mUid + n + 1 = deviceEvIdOffset)
    (event : Nat) : ∃ d,
    exec (perform ids) s (List.replicate n (.scheduleDestroy event) ++ [.scheduleDestroy event]) =
      some { s with mUid := ids.valid, mDestroyEvents := d } := by
  obtain ⟨d, hd⟩ := exec_scheduleDestroy (s := s) (n := n) (by omega) event
  refine ⟨d ++ [⟨event, s.mCurrentTs, 0xffffffff, 2⟩],
    exec_append.mpr ⟨_, hd, exec_cons_eq_some.mpr ⟨_, rfl, ?_⟩⟩⟩
  simp only [exec_nil, nextUid, hn, ge_iff_le, Nat.le_refl, if_true]

end Simulator
end CudaNs3.Elp
