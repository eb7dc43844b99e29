import Mathlib.Algebra.BigOperators.Group.List.Basic
import Mathlib.Data.List.Perm.Basic
import CudaNs3.Lib.Transition
import CudaNs3.Network.DynamicQueueLimits

/-!
# Device queues and their flow control

A packet queue whose traces drive a `NetDeviceQueue`. Two flags stop the sender above: one is
set when another packet of the device's size might not fit, the other when the byte limit is
exceeded. A run of calls keeps the first equal to the prediction and the second false while
the queue is empty.
-/

namespace CudaNs3.Network

set_option autoImplicit false

inductive QueueSizeUnit where
  | packets
  | bytes
deriving DecidableEq

structure QueueSize where
  unit : QueueSizeUnit
  value : BitVec 32
deriving DecidableEq

/-- The size increased by one item of the given length. -/
def QueueSize.add (s : QueueSize) (bytes : BitVec 32) : QueueSize :=
  match s.unit with
  | .packets => ⟨.packets, s.value + 1⟩
  | .bytes => ⟨.bytes, s.value + bytes⟩

structure Queue (Item : Type) where
  maxSize : QueueSize
  packets : List Item := []
  nBytes : BitVec 32 := 0
  totalReceivedBytes : BitVec 32 := 0
  nPackets : BitVec 32 := 0
  totalReceivedPackets : BitVec 32 := 0
  totalDroppedBytes : BitVec 32 := 0
  totalDroppedBytesBeforeEnqueue : BitVec 32 := 0
  totalDroppedBytesAfterDequeue : BitVec 32 := 0
  totalDroppedPackets : BitVec 32 := 0
  totalDroppedPacketsBeforeEnqueue : BitVec 32 := 0
  totalDroppedPacketsAfterDequeue : BitVec 32 := 0

namespace Queue
variable {Item : Type}

def isEmpty (q : Queue Item) : Bool := q.nPackets = 0

def getCurrentSize (q : Queue Item) : QueueSize :=
  match q.maxSize.unit with
  | .packets => ⟨.packets, q.nPackets⟩
  | .bytes => ⟨.bytes, q.nBytes⟩

/-- Sizes are compared by value, as the current size has the unit of the maximum. -/
def full (q : Queue Item) (bytes : BitVec 32) : Bool :=
  q.maxSize.value < (q.getCurrentSize.add bytes).value

def wouldOverflow (q : Queue Item) (nPackets nBytes : BitVec 32) : Bool :=
  match q.maxSize.unit with
  | .packets => q.maxSize.value < q.nPackets + nPackets
  | .bytes => q.maxSize.value < q.nBytes + nBytes

def insert (q : Queue Item) (pos : Nat) (item : Item) (bytes : BitVec 32) : Queue Item :=
  { q with
    packets := q.packets.insertIdx pos item
    nBytes := q.nBytes + bytes
    totalReceivedBytes := q.totalReceivedBytes + bytes
    nPackets := q.nPackets + 1
    totalReceivedPackets := q.totalReceivedPackets + 1 }

def erase (q : Queue Item) (pos : Nat) (bytes : BitVec 32) : Queue Item :=
  { q with
    packets := q.packets.eraseIdx pos
    nBytes := q.nBytes - bytes
    nPackets := q.nPackets - 1 }

def countDropBeforeEnqueue (q : Queue Item) (bytes : BitVec 32) : Queue Item :=
  { q with
    totalDroppedPackets := q.totalDroppedPackets + 1
    totalDroppedPacketsBeforeEnqueue := q.totalDroppedPacketsBeforeEnqueue + 1
    totalDroppedBytes := q.totalDroppedBytes + bytes
    totalDroppedBytesBeforeEnqueue := q.totalDroppedBytesBeforeEnqueue + bytes }

def countDropAfterDequeue (q : Queue Item) (bytes : BitVec 32) : Queue Item :=
  { q with
    totalDroppedPackets := q.totalDroppedPackets + 1
    totalDroppedPacketsAfterDequeue := q.totalDroppedPacketsAfterDequeue + 1
    totalDroppedBytes := q.totalDroppedBytes + bytes
    totalDroppedBytesAfterDequeue := q.totalDroppedBytesAfterDequeue + bytes }

end Queue

/-- The transmission queue interface; `wakes` counts the wake callbacks scheduled. -/
structure NetDeviceQueue where
  stoppedByDevice : Bool := false
  stoppedByQueueLimits : Bool := false
  queueLimits : Option DynamicQueueLimits := none
  wakeCallback : Bool := false
  wakes : Nat := 0

namespace NetDeviceQueue

def isStopped (t : NetDeviceQueue) : Bool := t.stoppedByDevice || t.stoppedByQueueLimits

def stop (t : NetDeviceQueue) : NetDeviceQueue := { t with stoppedByDevice := true }

def schedule (t : NetDeviceQueue) (wasStopped : Bool) : NetDeviceQueue :=
  if wasStopped && t.wakeCallback then { t with wakes := t.wakes + 1 } else t

def wake (t : NetDeviceQueue) : NetDeviceQueue :=
  schedule { t with stoppedByDevice := false } t.stoppedByDevice

def notifyQueuedBytes (t : NetDeviceQueue) (bytes : BitVec 32) : Option NetDeviceQueue :=
  match t.queueLimits with
  | none => some t
  | some limits => (limits.queued bytes).map fun limits =>
    let t := { t with queueLimits := some limits }
    if 0 ≤ limits.available then t else { t with stoppedByQueueLimits := true }

def notifyTransmittedBytes (t : NetDeviceQueue) (now : Int) (bytes : BitVec 32) :
    Option NetDeviceQueue :=
  match t.queueLimits with
  | none => some t
  | some limits =>
    if bytes = 0 then some t
    else (limits.completed bytes now).map fun limits =>
      let t := { t with queueLimits := some limits }
      if limits.available < 0 then t
      else schedule { t with stoppedByQueueLimits := false } t.stoppedByQueueLimits

end NetDeviceQueue

/-- A position a subclass chooses for a removal, within the items there are. -/
structure Place (Item : Type) where
  index : List Item → Nat
  index_lt : ∀ items, items ≠ [] → index items < items.length

/-- A position a subclass chooses for an insertion. -/
structure Gap (Item : Type) where
  index : List Item → Nat
  index_le : ∀ items, index items ≤ items.length

structure DeviceQueue (Item : Type) where
  queue : Queue Item
  txQueue : NetDeviceQueue

inductive Call (Item : Type) where
  | enqueue (gap : Gap Item) (item : Item)
  | dequeue (place : Place Item)
  | remove (place : Place Item)
  | flush (places : Nat → Place Item)

namespace DeviceQueue
variable {Item : Type} (size : Item → BitVec 32) (mtu : BitVec 16)

def wouldOverflow (s : DeviceQueue Item) : Bool := s.queue.wouldOverflow 1 (mtu.setWidth 32)

def packetEnqueued (s : DeviceQueue Item) (item : Item) : Option (DeviceQueue Item) :=
  (s.txQueue.notifyQueuedBytes (size item)).map fun t =>
    { s with txQueue := if s.wouldOverflow mtu then t.stop else t }

def packetDequeued (s : DeviceQueue Item) (now : Int) (item : Item) :
    Option (DeviceQueue Item) :=
  (s.txQueue.notifyTransmittedBytes now (size item)).map fun t =>
    { s with txQueue := if s.wouldOverflow mtu then t else t.wake }

def packetDiscarded (s : DeviceQueue Item) : DeviceQueue Item :=
  { s with txQueue := s.txQueue.stop }

/-- Whether the item was accepted, and the state; `none` when an assertion fails. -/
def doEnqueue (s : DeviceQueue Item) (gap : Gap Item) (item : Item) :
    Option (Bool × DeviceQueue Item) :=
  if s.queue.full (size item) then
    some (false, packetDiscarded { s with queue := s.queue.countDropBeforeEnqueue (size item) })
  else
    let queue := s.queue.insert (gap.index s.queue.packets) item (size item)
    (packetEnqueued size mtu { s with queue := queue } item).map fun s => (true, s)

def doDequeue (s : DeviceQueue Item) (now : Int) (place : Place Item) :
    Option (Option Item × DeviceQueue Item) :=
  if s.queue.isEmpty then some (none, s)
  else do
    let pos := place.index s.queue.packets
    let item ← s.queue.packets[pos]?
    if size item ≤ s.queue.nBytes then
      let s ← packetDequeued size mtu { s with queue := s.queue.erase pos (size item) } now item
      some (some item, s)
    else none

/-- Packets are first dequeued and then dropped. -/
def doRemove (s : DeviceQueue Item) (now : Int) (place : Place Item) :
    Option (Option Item × DeviceQueue Item) := do
  match ← doDequeue size mtu s now place with
  | (none, s) => some (none, s)
  | (some item, s) =>
    some (some item, { s with queue := s.queue.countDropAfterDequeue (size item) })

/-- The loop of `Flush`; `none` when it has not emptied the queue in the given passes. -/
def flushFrom (now : Int) (places : Nat → Place Item) :
    Nat → DeviceQueue Item → Option (DeviceQueue Item)
  | 0, s => if s.queue.isEmpty then some s else none
  | n + 1, s =>
    if s.queue.isEmpty then some s
    else (doRemove size mtu s now (places n)).bind fun r => flushFrom now places n r.2

def flush (s : DeviceQueue Item) (now : Int) (places : Nat → Place Item) :
    Option (DeviceQueue Item) :=
  flushFrom size mtu now places s.queue.packets.length s

/-- A call at a time. -/
def step (s : DeviceQueue Item) : Int × Call Item → Option (DeviceQueue Item)
  | (_, .enqueue gap item) => (doEnqueue size mtu s gap item).map Prod.snd
  | (now, .dequeue place) => (doDequeue size mtu s now place).map Prod.snd
  | (now, .remove place) => (doRemove size mtu s now place).map Prod.snd
  | (now, .flush places) => flush size mtu s now places

end DeviceQueue
/-- What the queue occupies of its maximum size. -/
def Queue.occupied {Item : Type} (size : Item → BitVec 32) (q : Queue Item) : Nat :=
  match q.maxSize.unit with
  | .packets => q.packets.length
  | .bytes => (q.packets.map fun i => (size i).toNat).sum

/-- What an item of the given length takes of the maximum size. -/
def QueueSize.takenBy (s : QueueSize) (bytes : Nat) : Nat :=
  match s.unit with
  | .packets => 1
  | .bytes => bytes

/-- The counters are those of the items held, and too small to wrap. -/
structure Queue.Counted {Item : Type} (size : Item → BitVec 32) (mtu : BitVec 16)
    (q : Queue Item) : Prop where
  nPackets : q.nPackets.toNat = q.packets.length
  nBytes : q.nBytes.toNat = (q.packets.map fun i => (size i).toNat).sum
  nBytes_le : q.nBytes.toNat ≤ q.totalReceivedBytes.toNat
  received : q.totalReceivedBytes.toNat < 2 ^ 31
  sizes : ∀ i ∈ q.packets, 0 < (size i).toNat ∧ (size i).toNat ≤ mtu.toNat

theorem Queue.occupied_eq_zero {Item : Type} {size : Item → BitVec 32} {q : Queue Item}
    (hempty : q.packets = []) : q.occupied size = 0 := by
  unfold Queue.occupied
  cases q.maxSize.unit with
  | packets => rw [hempty]; rfl
  | bytes => rw [hempty]; rfl

namespace Queue.Counted
variable {Item : Type} {size : Item → BitVec 32} {mtu : BitVec 16} {q : Queue Item}
variable (hq : q.Counted size mtu)
include hq

theorem length_le : q.packets.length ≤ q.nBytes.toNat := by
  rw [hq.nBytes]
  have hone : ∀ x ∈ q.packets.map fun i => (size i).toNat, 1 ≤ x := by
    intro x hx
    obtain ⟨i, hi, rfl⟩ := List.mem_map.mp hx
    exact (hq.sizes i hi).1
  calc q.packets.length = (q.packets.map fun i => (size i).toNat).length := by simp
    _ ≤ _ := List.length_le_sum_of_one_le _ hone

theorem isEmpty_iff : q.isEmpty = true ↔ q.packets = [] := by
  unfold isEmpty
  rw [decide_eq_true_iff, ← BitVec.toNat_inj, hq.nPackets]
  simp

theorem full_iff {bytes : BitVec 32} (hbytes : bytes.toNat ≤ mtu.toNat) :
    q.full bytes = true ↔
      q.maxSize.value.toNat < q.occupied size + q.maxSize.takenBy bytes.toNat := by
  have hlen := hq.length_le
  have hlt := hq.nBytes_le
  have hrec := hq.received
  have hmtu := mtu.isLt
  unfold full getCurrentSize occupied QueueSize.takenBy QueueSize.add
  cases hunit : q.maxSize.unit with
  | packets =>
    simp only [decide_eq_true_iff, BitVec.lt_def, BitVec.toNat_add, hq.nPackets]
    rw [Nat.mod_eq_of_lt (by simp; omega)]
    simp
  | bytes =>
    simp only [decide_eq_true_iff, BitVec.lt_def, BitVec.toNat_add, ← hq.nBytes]
    rw [Nat.mod_eq_of_lt (by omega)]

theorem wouldOverflow_iff : q.wouldOverflow 1 (mtu.setWidth 32) = true ↔
    q.maxSize.value.toNat < q.occupied size + q.maxSize.takenBy mtu.toNat := by
  have hmtu : (mtu.setWidth 32).toNat = mtu.toNat := by
    rw [BitVec.toNat_setWidth]
    have hlt := mtu.isLt
    omega
  have hfull := hq.full_iff hmtu.le
  rw [hmtu] at hfull
  rw [← hfull]
  unfold full wouldOverflow getCurrentSize QueueSize.add
  cases q.maxSize.unit with
  | packets => rfl
  | bytes => rfl


theorem insert (gap : Gap Item) {item : Item} (hsize : 0 < (size item).toNat)
    (hmtu : (size item).toNat ≤ mtu.toNat)
    (hrec : (q.totalReceivedBytes + size item).toNat < 2 ^ 31) :
    (q.insert (gap.index q.packets) item (size item)).Counted size mtu ∧
      q.occupied size ≤ (q.insert (gap.index q.packets) item (size item)).occupied size := by
  have hlen := hq.length_le
  have hlt := hq.nBytes_le
  have hold := hq.received
  have hlt16 := mtu.isLt
  have hperm := List.perm_insertIdx item q.packets (gap.index_le q.packets)
  have hsum := (hperm.map fun i => (size i).toNat).sum_eq
  rw [List.map_cons, List.sum_cons, ← hq.nBytes] at hsum
  have hnb : (q.nBytes + size item).toNat = q.nBytes.toNat + (size item).toNat := by
    rw [BitVec.toNat_add, Nat.mod_eq_of_lt (by omega)]
  have htotal : (q.totalReceivedBytes + size item).toNat =
      q.totalReceivedBytes.toNat + (size item).toNat := by
    rw [BitVec.toNat_add, Nat.mod_eq_of_lt (by omega)]
  have hnp : (q.nPackets + 1).toNat = q.packets.length + 1 := by
    rw [BitVec.toNat_add, hq.nPackets, Nat.mod_eq_of_lt (by simp; omega)]
    rfl
  constructor
  · constructor
    · exact hnp.trans hperm.length_eq.symm
    · exact hnb.trans ((Nat.add_comm _ _).trans hsum.symm)
    · change (q.nBytes + size item).toNat ≤ (q.totalReceivedBytes + size item).toNat
      omega
    · exact hrec
    · intro i hi
      rcases List.mem_cons.mp (hperm.mem_iff.mp hi) with rfl | hi
      · exact ⟨hsize, hmtu⟩
      · exact hq.sizes i hi
  · unfold occupied
    cases hunit : q.maxSize.unit with
    | packets =>
      simp only [Queue.insert, hunit, hperm.length_eq, List.length_cons]
      omega
    | bytes =>
      simp only [Queue.insert, hunit, hsum, ← hq.nBytes]
      omega

theorem erase {pos : Nat} {item : Item} (hitem : q.packets[pos]? = some item) :
    size item ≤ q.nBytes ∧ (q.erase pos (size item)).Counted size mtu ∧
      (q.erase pos (size item)).occupied size ≤ q.occupied size := by
  obtain ⟨hpos, hget⟩ := List.getElem?_eq_some_iff.mp hitem
  have hlen := hq.length_le
  have hperm := List.getElem_cons_eraseIdx_perm hpos
  rw [hget] at hperm
  have hlength := hperm.length_eq
  rw [List.length_cons] at hlength
  have hsum := (hperm.map fun i => (size i).toNat).sum_eq
  rw [List.map_cons, List.sum_cons, ← hq.nBytes] at hsum
  have hle : size item ≤ q.nBytes := by
    rw [BitVec.le_def]
    omega
  have hnb : (q.nBytes - size item).toNat = q.nBytes.toNat - (size item).toNat :=
    BitVec.toNat_sub_of_le hle
  have hnp : (q.nPackets - 1).toNat = q.packets.length - 1 := by
    have hone : (1 : BitVec 32) ≤ q.nPackets := by
      rw [BitVec.le_def, hq.nPackets]
      simp
      omega
    rw [BitVec.toNat_sub_of_le hone, hq.nPackets]
    rfl
  refine ⟨hle, ?_, ?_⟩
  · constructor
    · change (q.nPackets - 1).toNat = (q.packets.eraseIdx pos).length
      omega
    · change (q.nBytes - size item).toNat =
        ((q.packets.eraseIdx pos).map fun i => (size i).toNat).sum
      omega
    · change (q.nBytes - size item).toNat ≤ q.totalReceivedBytes.toNat
      have hle' := hq.nBytes_le
      omega
    · exact hq.received
    · intro i hi
      exact hq.sizes i (List.mem_of_mem_eraseIdx hi)
  · unfold occupied
    cases hunit : q.maxSize.unit with
    | packets =>
      simp only [Queue.erase, hunit]
      omega
    | bytes =>
      simp only [Queue.erase, hunit, ← hq.nBytes]
      omega

end Queue.Counted

/-- The limits count the bytes held as queued and not completed; without limits nothing stops. -/
structure NetDeviceQueue.Tracks (t : NetDeviceQueue) (bytes : BitVec 32) : Prop where
  inFlight : ∀ limits, t.queueLimits = some limits →
    limits.numQueued - limits.numCompleted = bytes
  unlimited : t.queueLimits = none → t.stoppedByQueueLimits = false

/-- What a removal does to the flags: it only clears them, and a sender that was stopped and is
not any more has been woken. -/
structure NetDeviceQueue.Eased (t t' : NetDeviceQueue) : Prop where
  wakeCallback : t'.wakeCallback = t.wakeCallback
  byDevice : t'.stoppedByDevice = true → t.stoppedByDevice = true
  byLimits : t'.stoppedByQueueLimits = true → t.stoppedByQueueLimits = true
  wakes_le : t.wakes ≤ t'.wakes
  woken : t.wakeCallback = true → t.isStopped = true → t'.isStopped = false → t.wakes < t'.wakes

namespace NetDeviceQueue
variable {t t' t'' : NetDeviceQueue} {bytes held : BitVec 32}

theorem Eased.refl : t.Eased t := by
  refine ⟨rfl, id, id, le_refl _, ?_⟩
  intro _ hstopped hnot
  rw [hstopped] at hnot
  cases hnot

theorem Eased.trans (h : t.Eased t') (h' : t'.Eased t'') : t.Eased t'' := by
  refine ⟨h'.wakeCallback.trans h.wakeCallback, fun hd => h.byDevice (h'.byDevice hd),
    fun hl => h.byLimits (h'.byLimits hl), h.wakes_le.trans h'.wakes_le, ?_⟩
  intro hcb hstopped hnot
  cases hmid : t'.isStopped with
  | true =>
    have hwoken := h'.woken (h.wakeCallback.trans hcb) hmid hnot
    exact lt_of_le_of_lt h.wakes_le hwoken
  | false => exact lt_of_lt_of_le (h.woken hcb hstopped hmid) h'.wakes_le

@[simp] theorem schedule_stoppedByDevice {was : Bool} :
    (t.schedule was).stoppedByDevice = t.stoppedByDevice := by
  unfold schedule
  split <;> rfl

@[simp] theorem schedule_stoppedByQueueLimits {was : Bool} :
    (t.schedule was).stoppedByQueueLimits = t.stoppedByQueueLimits := by
  unfold schedule
  split <;> rfl

@[simp] theorem schedule_queueLimits {was : Bool} :
    (t.schedule was).queueLimits = t.queueLimits := by
  unfold schedule
  split <;> rfl

@[simp] theorem schedule_wakeCallback {was : Bool} :
    (t.schedule was).wakeCallback = t.wakeCallback := by
  unfold schedule
  split <;> rfl

theorem wakes_le_schedule (was : Bool) : t.wakes ≤ (t.schedule was).wakes := by
  unfold schedule
  split
  · exact Nat.le_succ _
  · exact le_refl _

theorem wakes_lt_schedule (h : t.wakeCallback = true) : t.wakes < (t.schedule true).wakes := by
  unfold schedule
  rw [h]
  exact Nat.lt_succ_self _

theorem wake_eased : t.Eased t.wake := by
  refine ⟨schedule_wakeCallback, ?_, ?_,
    wakes_le_schedule (t := { t with stoppedByDevice := false }) _, ?_⟩
  · intro hd
    rw [wake, schedule_stoppedByDevice] at hd
    cases hd
  · intro hl
    rwa [wake, schedule_stoppedByQueueLimits] at hl
  · intro hcb hstopped hnot
    have hwas : t.stoppedByDevice = true := by
      rw [isStopped, wake, schedule_stoppedByDevice, schedule_stoppedByQueueLimits] at hnot
      rw [isStopped, (Bool.or_eq_false_iff.mp hnot).2, Bool.or_false] at hstopped
      exact hstopped
    rw [wake, hwas]
    exact wakes_lt_schedule (t := { t with stoppedByDevice := false }) hcb

theorem Tracks.wake (h : t.Tracks held) : t.wake.Tracks held := by
  constructor
  · intro limits hl
    rw [NetDeviceQueue.wake, schedule_queueLimits] at hl
    exact h.inFlight limits hl
  · intro hn
    rw [NetDeviceQueue.wake, schedule_queueLimits] at hn
    exact schedule_stoppedByQueueLimits.trans (h.unlimited hn)

theorem notifyQueuedBytes_spec (h : t.Tracks held) (hbytes : bytes ≤ dqlMaxObject) :
    ∃ t', t.notifyQueuedBytes bytes = some t' ∧ t'.Tracks (held + bytes) ∧
      t'.wakeCallback = t.wakeCallback ∧ t'.stoppedByDevice = t.stoppedByDevice ∧
      (t.stoppedByQueueLimits = true → t'.stoppedByQueueLimits = true) := by
  unfold notifyQueuedBytes
  cases hq : t.queueLimits with
  | none =>
    refine ⟨t, rfl, ⟨?_, h.unlimited⟩, rfl, rfl, id⟩
    intro limits hl
    rw [hq] at hl
    cases hl
  | some limits =>
    obtain ⟨q', hq', hqueued, hcompleted⟩ := limits.queued_spec hbytes
    have htracks : q'.numQueued - q'.numCompleted = held + bytes := by
      rw [hqueued, hcompleted, ← h.inFlight limits hq]
      exact add_sub_right_comm _ _ _
    dsimp only
    rw [hq', Option.map_some]
    by_cases havail : 0 ≤ q'.available
    · rw [if_pos havail]
      refine ⟨_, rfl, ⟨?_, fun hn => nomatch hn⟩, rfl, rfl, id⟩
      intro l hl
      obtain rfl := Option.some.inj hl
      exact htracks
    · rw [if_neg havail]
      refine ⟨_, rfl, ⟨?_, fun hn => nomatch hn⟩, rfl, rfl, fun _ => rfl⟩
      intro l hl
      obtain rfl := Option.some.inj hl
      exact htracks

theorem notifyTransmittedBytes_spec (now : Int) (h : t.Tracks held) (hle : bytes ≤ held) (hne : bytes ≠ 0) :
    ∃ t', t.notifyTransmittedBytes now bytes = some t' ∧ t'.Tracks (held - bytes) ∧
      t.Eased t' ∧ t'.stoppedByDevice = t.stoppedByDevice ∧
      (held = bytes → t'.stoppedByQueueLimits = false) := by
  unfold notifyTransmittedBytes
  cases hq : t.queueLimits with
  | none =>
    refine ⟨t, rfl, ⟨?_, h.unlimited⟩, Eased.refl, rfl, fun _ => h.unlimited hq⟩
    intro limits hl
    rw [hq] at hl
    cases hl
  | some limits =>
    have hcount := h.inFlight limits hq
    obtain ⟨q', hq', hqueued, hcompleted, havail⟩ :=
      limits.completed_spec now (hcount.symm ▸ hle)
    have htracks : q'.numQueued - q'.numCompleted = held - bytes := by
      rw [hqueued, hcompleted, ← hcount]
      exact sub_add_eq_sub_sub _ _ _
    dsimp only
    rw [if_neg hne, hq', Option.map_some]
    by_cases hneg : q'.available < 0
    · rw [if_pos hneg]
      refine ⟨_, rfl, ⟨?_, fun hn => nomatch hn⟩, ⟨rfl, id, id, le_refl _, ?_⟩, rfl, ?_⟩
      · intro l hl
        obtain rfl := Option.some.inj hl
        exact htracks
      · intro _ hstopped hnot
        exact absurd (hstopped.symm.trans hnot) (by decide)
      · intro hall
        rw [hall, sub_self] at htracks
        have := havail (sub_eq_zero.mp htracks)
        omega
    · rw [if_neg hneg]
      have hwakes := wakes_le_schedule
        (t := { t with stoppedByQueueLimits := false, queueLimits := some q' })
        t.stoppedByQueueLimits
      refine ⟨_, rfl, ⟨?_, ?_⟩, ⟨schedule_wakeCallback, ?_, ?_, hwakes, ?_⟩,
        schedule_stoppedByDevice, fun _ => schedule_stoppedByQueueLimits⟩
      · intro l hl
        rw [schedule_queueLimits] at hl
        obtain rfl := Option.some.inj hl
        exact htracks
      · intro hn
        rw [schedule_queueLimits] at hn
        cases hn
      · intro hd
        rwa [schedule_stoppedByDevice] at hd
      · intro hl
        rw [schedule_stoppedByQueueLimits] at hl
        cases hl
      · intro hcb hstopped hnot
        have hwas : t.stoppedByQueueLimits = true := by
          rw [isStopped, schedule_stoppedByDevice] at hnot
          rw [isStopped, (Bool.or_eq_false_iff.mp hnot).1, Bool.false_or] at hstopped
          exact hstopped
        rw [hwas]
        exact wakes_lt_schedule (t := { t with
          stoppedByQueueLimits := false, queueLimits := some q' }) hcb

end NetDeviceQueue

/-- The item a call offers to the queue. -/
def Call.enqueued {Item : Type} : Call Item → Option Item
  | .enqueue _ item => some item
  | _ => none

namespace DeviceQueue
variable {Item : Type} {size : Item → BitVec 32} {mtu : BitVec 16}
variable {s s' s'' : DeviceQueue Item} {item : Item}

/-- The sender is stopped by the device exactly when another packet might not fit, and by the
limits at most while the queue holds something. -/
structure Inv (size : Item → BitVec 32) (mtu : BitVec 16) (s : DeviceQueue Item) : Prop where
  counted : s.queue.Counted size mtu
  roomy : s.queue.maxSize.takenBy mtu.toNat ≤ s.queue.maxSize.value.toNat
  tracks : s.txQueue.Tracks s.queue.nBytes
  byDevice : s.txQueue.stoppedByDevice = s.wouldOverflow mtu
  byLimits : s.queue.packets = [] → s.txQueue.stoppedByQueueLimits = false

theorem Inv.not_stopped_of_empty (h : Inv size mtu s) (hempty : s.queue.packets = []) :
    s.txQueue.isStopped = false := by
  have hfits : s.wouldOverflow mtu = false := by
    apply eq_false_of_ne_true
    intro hover
    have hlt := h.counted.wouldOverflow_iff.mp hover
    rw [Queue.occupied_eq_zero hempty] at hlt
    have hroomy := h.roomy
    omega
  rw [NetDeviceQueue.isStopped, h.byDevice, hfits, h.byLimits hempty]
  rfl

/-- What stays and what may change when items are removed. -/
structure Removes (s s' : DeviceQueue Item) : Prop where
  eased : s.txQueue.Eased s'.txQueue
  received : s'.queue.totalReceivedBytes = s.queue.totalReceivedBytes
  refused : s'.queue.totalDroppedPacketsBeforeEnqueue = s.queue.totalDroppedPacketsBeforeEnqueue

theorem Removes.refl : Removes s s := ⟨NetDeviceQueue.Eased.refl, rfl, rfl⟩

theorem Removes.trans (h : Removes s s') (h' : Removes s' s'') : Removes s s'' :=
  ⟨h.eased.trans h'.eased, h'.received.trans h.received, h'.refused.trans h.refused⟩

theorem doDequeue_spec (now : Int) (h : Inv size mtu s) (place : Place Item) :
    ∃ r, doDequeue size mtu s now place = some r ∧ Inv size mtu r.2 ∧ Removes s r.2 ∧
      r.2.queue.packets.length = s.queue.packets.length - 1 := by
  unfold doDequeue
  by_cases hempty : s.queue.isEmpty = true
  · rw [if_pos hempty]
    refine ⟨_, rfl, h, Removes.refl, ?_⟩
    rw [h.counted.isEmpty_iff.mp hempty]
    rfl
  · have hne : s.queue.packets ≠ [] := fun hnil => hempty (h.counted.isEmpty_iff.mpr hnil)
    have hpos := place.index_lt _ hne
    have hitem := List.getElem?_eq_getElem hpos
    generalize s.queue.packets[place.index s.queue.packets] = item at hitem
    obtain ⟨hle, hcounted, hocc⟩ := h.counted.erase hitem
    have hsize := h.counted.sizes item (List.mem_of_getElem? hitem)
    have hzero : size item ≠ 0 := by
      intro hz
      rw [hz] at hsize
      exact absurd hsize.1 (by decide)
    obtain ⟨t, ht, htracks, heased, hdevice, hlimits⟩ :=
      NetDeviceQueue.notifyTransmittedBytes_spec now h.tracks hle hzero
    rw [if_neg hempty]
    simp only [hitem, Option.bind_eq_bind, Option.bind_some, if_pos hle, packetDequeued, ht,
      Option.map_some]
    set q := s.queue.erase (place.index s.queue.packets) (size item) with hq
    have hlast : q.packets = [] → t.stoppedByQueueLimits = false := by
      intro hnil
      apply hlimits
      have hnb := hcounted.nBytes
      rw [hnil] at hnb
      have hsub : (s.queue.nBytes - size item).toNat = 0 := hnb
      rw [BitVec.toNat_sub_of_le hle] at hsub
      rw [BitVec.le_def] at hle
      apply BitVec.eq_of_toNat_eq
      omega
    have hlen : q.packets.length = s.queue.packets.length - 1 :=
      List.length_eraseIdx_of_lt hpos
    refine ⟨_, rfl, ?_, ⟨?_, rfl, rfl⟩, hlen⟩
    · split
      · rename_i hover
        refine ⟨hcounted, h.roomy, htracks, ?_, hlast⟩
        have hbefore : s.wouldOverflow mtu = true := by
          have hlt := hcounted.wouldOverflow_iff.mp hover
          exact h.counted.wouldOverflow_iff.mpr (lt_of_lt_of_le hlt (Nat.add_le_add_right hocc _))
        rw [hdevice, h.byDevice, hbefore]
        exact hover.symm
      · rename_i hfits
        rw [Bool.not_eq_true] at hfits
        refine ⟨hcounted, h.roomy, htracks.wake, ?_, ?_⟩
        · exact NetDeviceQueue.schedule_stoppedByDevice.trans hfits.symm
        · intro hnil
          exact NetDeviceQueue.schedule_stoppedByQueueLimits.trans (hlast hnil)
    · split
      · exact heased
      · exact heased.trans NetDeviceQueue.wake_eased

theorem doRemove_spec (now : Int) (h : Inv size mtu s) (place : Place Item) :
    ∃ r, doRemove size mtu s now place = some r ∧ Inv size mtu r.2 ∧ Removes s r.2 ∧
      r.2.queue.packets.length = s.queue.packets.length - 1 := by
  obtain ⟨⟨taken, s'⟩, hr, hinv, hremoves, hlen⟩ := doDequeue_spec now h place
  unfold doRemove
  rw [hr]
  cases taken with
  | none => exact ⟨_, rfl, hinv, hremoves, hlen⟩
  | some item =>
    refine ⟨_, rfl, ?_, ⟨hremoves.eased, hremoves.received, hremoves.refused⟩, hlen⟩
    exact ⟨⟨hinv.counted.nPackets, hinv.counted.nBytes, hinv.counted.nBytes_le,
      hinv.counted.received, hinv.counted.sizes⟩, hinv.roomy, hinv.tracks, hinv.byDevice,
      hinv.byLimits⟩

theorem flushFrom_spec (now : Int) (places : Nat → Place Item) {n : Nat} (h : Inv size mtu s)
    (hn : s.queue.packets.length ≤ n) :
    ∃ s', flushFrom size mtu now places n s = some s' ∧ Inv size mtu s' ∧ Removes s s' := by
  induction n generalizing s with
  | zero =>
    have hempty := h.counted.isEmpty_iff.mpr (List.length_eq_zero_iff.mp (Nat.le_zero.mp hn))
    exact ⟨s, if_pos hempty, h, Removes.refl⟩
  | succ n ih =>
    unfold flushFrom
    by_cases hempty : s.queue.isEmpty = true
    · exact ⟨s, if_pos hempty, h, Removes.refl⟩
    · rw [if_neg hempty]
      obtain ⟨r, hr, hinv, hremoves, hlen⟩ := doRemove_spec now h (places n)
      obtain ⟨s', hs', hinv', hremoves'⟩ := ih hinv (by omega)
      rw [hr, Option.bind_some]
      exact ⟨s', hs', hinv', hremoves.trans hremoves'⟩

/-- The item has a length the device may carry, and the bytes ever queued stay in range. -/
def Carried (size : Item → BitVec 32) (mtu : BitVec 16) (item : Item) : Prop :=
  0 < (size item).toNat ∧ (size item).toNat ≤ mtu.toNat

theorem doEnqueue_spec (h : Inv size mtu s) (gap : Gap Item) (hitem : Carried size mtu item)
    (hrec : ∀ r, doEnqueue size mtu s gap item = some r →
      r.2.queue.totalReceivedBytes.toNat < 2 ^ 31) :
    ∃ r, doEnqueue size mtu s gap item = some r ∧ Inv size mtu r.2 ∧
      r.2.txQueue.wakeCallback = s.txQueue.wakeCallback ∧
      (s.txQueue.isStopped = true → r.2.txQueue.isStopped = true) ∧
      (s.txQueue.isStopped = false → r.1 = true ∧
        r.2.queue.totalDroppedPacketsBeforeEnqueue = s.queue.totalDroppedPacketsBeforeEnqueue) := by
  obtain ⟨hpos, hmtu⟩ := hitem
  have hmono : s.queue.maxSize.takenBy (size item).toNat ≤ s.queue.maxSize.takenBy mtu.toNat := by
    unfold QueueSize.takenBy
    cases s.queue.maxSize.unit with
    | packets => exact le_refl _
    | bytes => exact hmtu
  unfold doEnqueue at hrec ⊢
  by_cases hfull : s.queue.full (size item) = true
  · have hlt := (h.counted.full_iff hmtu).mp hfull
    have hover : s.wouldOverflow mtu = true :=
      h.counted.wouldOverflow_iff.mpr (lt_of_lt_of_le hlt (Nat.add_le_add_left hmono _))
    have hstopped := h.byDevice.trans hover
    rw [if_pos hfull]
    refine ⟨_, rfl, ?_, rfl, fun _ => rfl, ?_⟩
    · exact ⟨⟨h.counted.nPackets, h.counted.nBytes, h.counted.nBytes_le, h.counted.received,
        h.counted.sizes⟩, h.roomy, ⟨h.tracks.inFlight, h.tracks.unlimited⟩, hover.symm, h.byLimits⟩
    · intro hnot
      rw [NetDeviceQueue.isStopped, hstopped] at hnot
      cases hnot
  · have hobject : size item ≤ dqlMaxObject := by
      have hlt16 := mtu.isLt
      have hmax : dqlMaxObject.toNat = 268435455 := by decide
      rw [BitVec.le_def]
      omega
    obtain ⟨t, ht, htracks, hcb, hdevice, hlimits⟩ :=
      NetDeviceQueue.notifyQueuedBytes_spec h.tracks hobject
    rw [if_neg hfull] at hrec ⊢
    simp only [packetEnqueued, ht, Option.map_some] at hrec ⊢
    obtain ⟨hcounted, hocc⟩ := h.counted.insert gap hpos hmtu (hrec _ rfl)
    have hheld : ∀ {P : Prop},
        (s.queue.insert (gap.index s.queue.packets) item (size item)).packets = [] → P := by
      intro P hnil
      have hlen := congrArg List.length hnil
      rw [show (s.queue.insert (gap.index s.queue.packets) item (size item)).packets =
        s.queue.packets.insertIdx (gap.index s.queue.packets) item from rfl,
        List.length_insertIdx_of_le_length (gap.index_le _)] at hlen
      cases hlen
    set q := s.queue.insert (gap.index s.queue.packets) item (size item)
    refine ⟨_, rfl, ?_, ?_, ?_, fun _ => ⟨rfl, rfl⟩⟩
    · split
      · rename_i hover
        exact ⟨hcounted, h.roomy, ⟨htracks.inFlight, htracks.unlimited⟩, hover.symm, hheld⟩
      · rename_i hfits
        rw [Bool.not_eq_true] at hfits
        have hbefore : s.wouldOverflow mtu = false := by
          apply eq_false_of_ne_true
          intro hover
          have hlt := h.counted.wouldOverflow_iff.mp hover
          have hover' := hcounted.wouldOverflow_iff.mpr
            (lt_of_lt_of_le hlt (Nat.add_le_add_right hocc _))
          exact absurd (hfits.symm.trans hover') (by decide)
        refine ⟨hcounted, h.roomy, htracks, ?_, hheld⟩
        exact ((hdevice.trans h.byDevice).trans hbefore).trans hfits.symm
    · split
      · exact hcb
      · exact hcb
    · intro hstopped
      unfold NetDeviceQueue.isStopped at hstopped ⊢
      split
      · rfl
      · rcases (Bool.or_eq_true _ _).mp hstopped with hd | hl
        · rw [hdevice, hd, Bool.true_or]
        · rw [hlimits hl, Bool.or_true]

/-- What the caller keeps to: lengths the device may carry, and fewer than 2^31 bytes queued
in all. -/
def Allowed (size : Item → BitVec 32) (mtu : BitVec 16) (s : DeviceQueue Item)
    (c : Int × Call Item) : Prop :=
  (∀ item ∈ c.2.enqueued, Carried size mtu item) ∧
    ∀ s' ∈ step size mtu s c, s'.queue.totalReceivedBytes.toNat < 2 ^ 31

/-- Nothing is enqueued while the queue is stopped. -/
def Heeds (s : DeviceQueue Item) (c : Int × Call Item) : Prop :=
  ∀ item ∈ c.2.enqueued, s.txQueue.isStopped = false

instance (s : DeviceQueue Item) (c : Int × Call Item) : Decidable (Allowed size mtu s c) :=
  inferInstanceAs (Decidable ((∀ item ∈ c.2.enqueued, 0 < (size item).toNat ∧
    (size item).toNat ≤ mtu.toNat) ∧
    ∀ s' ∈ step size mtu s c, s'.queue.totalReceivedBytes.toNat < 2 ^ 31))

instance (s : DeviceQueue Item) (c : Int × Call Item) : Decidable (Heeds s c) :=
  inferInstanceAs (Decidable (∀ item ∈ c.2.enqueued, s.txQueue.isStopped = false))

/-- What one call does to the flags and the count of refused packets. -/
structure Steps (s : DeviceQueue Item) (c : Int × Call Item) (s' : DeviceQueue Item) : Prop where
  wakeCallback : s'.txQueue.wakeCallback = s.txQueue.wakeCallback
  woken : s.txQueue.wakeCallback = true → s.txQueue.isStopped = true →
    s'.txQueue.isStopped = false → s.txQueue.wakes < s'.txQueue.wakes
  refused : Heeds s c →
    s'.queue.totalDroppedPacketsBeforeEnqueue = s.queue.totalDroppedPacketsBeforeEnqueue

theorem Removes.steps (h : Removes s s') (c : Int × Call Item) : Steps s c s' :=
  ⟨h.eased.wakeCallback, h.eased.woken, fun _ => h.refused⟩

theorem step_spec (h : Inv size mtu s) {c : Int × Call Item} (hc : Allowed size mtu s c) :
    ∃ s', step size mtu s c = some s' ∧ Inv size mtu s' ∧ Steps s c s' := by
  obtain ⟨now, call⟩ := c
  obtain ⟨hitem, hrec⟩ := hc
  cases call with
  | enqueue gap item =>
    obtain ⟨r, hr, hinv, hcb, hstopped, hheeds⟩ :=
      doEnqueue_spec h gap (hitem item rfl) fun r hr => hrec r.2 (by simp [step, hr])
    refine ⟨r.2, by simp [step, hr], hinv, hcb, ?_, fun hh => (hheeds (hh item rfl)).2⟩
    intro _ hbefore hafter
    exact absurd ((hstopped hbefore).symm.trans hafter) (by decide)
  | dequeue place =>
    obtain ⟨r, hr, hinv, hremoves, -⟩ := doDequeue_spec now h place
    exact ⟨r.2, by simp [step, hr], hinv, hremoves.steps _⟩
  | remove place =>
    obtain ⟨r, hr, hinv, hremoves, -⟩ := doRemove_spec now h place
    exact ⟨r.2, by simp [step, hr], hinv, hremoves.steps _⟩
  | flush places =>
    obtain ⟨s', hs', hinv, hremoves⟩ := flushFrom_spec now places h (le_refl _)
    exact ⟨s', hs', hinv, hremoves.steps _⟩

theorem run_spec (h : Inv size mtu s) {cs : List (Int × Call Item)}
    (hcs : Transition.Along (step size mtu) (Allowed size mtu) s cs) :
    ∃ s', Transition.exec (step size mtu) s cs = some s' ∧ Inv size mtu s' ∧
      s'.txQueue.wakeCallback = s.txQueue.wakeCallback ∧
      (Transition.Along (step size mtu) Heeds s cs →
        s'.queue.totalDroppedPacketsBeforeEnqueue = s.queue.totalDroppedPacketsBeforeEnqueue) := by
  induction cs generalizing s with
  | nil => exact ⟨s, rfl, h, rfl, fun _ => rfl⟩
  | cons c cs ih =>
    obtain ⟨hc, hrest⟩ := hcs
    obtain ⟨u, hu, hinv, hsteps⟩ := step_spec h hc
    obtain ⟨s', hs', hinv', hcb, hrefused⟩ := ih hinv (hrest u hu)
    refine ⟨s', Transition.exec_cons_eq_some.mpr ⟨u, hu, hs'⟩, hinv',
      hcb.trans hsteps.wakeCallback, ?_⟩
    rintro ⟨hheeds, hrest'⟩
    exact (hrefused (hrest' u hu)).trans (hsteps.refused hheeds)

/-- The queue and its interface as constructed and connected. -/
def start (maxSize : QueueSize) (limits : Option (QueueLimitsAttributes × Int))
    (wakeCallback : Bool) : DeviceQueue Item where
  queue := { maxSize := maxSize }
  txQueue :=
    { queueLimits := limits.map fun l => DynamicQueueLimits.construct l.1 l.2
      wakeCallback := wakeCallback }

theorem inv_start {maxSize : QueueSize} (limits : Option (QueueLimitsAttributes × Int))
    (wakeCallback : Bool) (hroomy : maxSize.takenBy mtu.toNat ≤ maxSize.value.toNat) :
    Inv size mtu (start maxSize limits wakeCallback) := by
  have hcounted : (start maxSize limits wakeCallback : DeviceQueue Item).queue.Counted size mtu := by
    refine ⟨rfl, rfl, le_refl _, (by decide : (0 : BitVec 32).toNat < 2 ^ 31), ?_⟩
    intro i hi
    cases hi
  refine ⟨hcounted, hroomy, ⟨?_, fun _ => rfl⟩, ?_, fun _ => rfl⟩
  · intro l hl
    obtain ⟨a, -, rfl⟩ := Option.map_eq_some_iff.mp hl
    exact sub_zero (0 : BitVec 32)
  · symm
    apply eq_false_of_ne_true
    intro hover
    have hlt := hcounted.wouldOverflow_iff.mp hover
    rw [Queue.occupied_eq_zero rfl] at hlt
    change maxSize.value.toNat < 0 + maxSize.takenBy mtu.toNat at hlt
    omega

/-- Flow control does not stall: an empty queue is not stopped, a sender that may go on again
is woken, and one that heeds the flags loses no packet. -/
theorem flow_control {maxSize : QueueSize} {limits : Option (QueueLimitsAttributes × Int)}
    {wakeCallback : Bool} {cs : List (Int × Call Item)}
    (hroomy : maxSize.takenBy mtu.toNat ≤ maxSize.value.toNat)
    (hcs : Transition.Along (step size mtu) (Allowed size mtu)
      (start maxSize limits wakeCallback) cs) :
    ∃ s, Transition.exec (step size mtu) (start maxSize limits wakeCallback) cs = some s ∧
      (s.queue.isEmpty = true → s.txQueue.isStopped = false) ∧
      (∀ c s', Allowed size mtu s c → step size mtu s c = some s' → wakeCallback = true →
        s.txQueue.isStopped = true → s'.txQueue.isStopped = false →
        s.txQueue.wakes < s'.txQueue.wakes) ∧
      (Transition.Along (step size mtu) Heeds (start maxSize limits wakeCallback) cs →
        s.queue.totalDroppedPacketsBeforeEnqueue = 0) := by
  obtain ⟨s, hs, hinv, hcb, hrefused⟩ := run_spec (inv_start limits wakeCallback hroomy) hcs
  refine ⟨s, hs, ?_, ?_, hrefused⟩
  · intro hempty
    exact hinv.not_stopped_of_empty (hinv.counted.isEmpty_iff.mp hempty)
  · intro c s' hc hstep hset
    obtain ⟨t, ht, -, hsteps⟩ := step_spec hinv hc
    obtain rfl := Option.some.inj (hstep.symm.trans ht)
    exact hsteps.woken (hcb.trans hset)

section
/-- Removals at the head of the queue. -/
private def head : Place (BitVec 32) where
  index := fun _ => 0
  index_lt := fun _ hne => List.length_pos_iff.mpr hne

private def tail : Gap (BitVec 32) where
  index := List.length
  index_le := fun _ => le_refl _

private def someCalls : List (Int × Call (BitVec 32)) :=
  [(0, .enqueue tail 1500), (1, .dequeue head), (2, .enqueue tail 40), (3, .enqueue tail 1500),
    (4, .flush fun _ => head)]

private def someLimits : QueueLimitsAttributes := ⟨dqlMaxLimit, 0, 1000, by decide⟩

theorem flow_control_someCalls :
    ∃ s, Transition.exec (step id 1500) (start ⟨.packets, 2⟩ (some (someLimits, 0)) true)
      someCalls = some s ∧ (s.queue.isEmpty = true → s.txQueue.isStopped = false) ∧
      s.queue.totalDroppedPacketsBeforeEnqueue = 0 := by
  have hcs : Transition.Along (step id 1500) (Allowed id 1500)
      (start ⟨.packets, 2⟩ (some (someLimits, 0)) true) someCalls := by decide +kernel
  obtain ⟨s, hs, hempty, -, hrefused⟩ := flow_control (by decide) hcs
  exact ⟨s, hs, hempty, hrefused (by decide)⟩

end

end DeviceQueue
end CudaNs3.Network
