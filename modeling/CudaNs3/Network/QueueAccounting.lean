import CudaNs3.Network.DeviceQueue

/-!
# The accounts of a queue

The operations of a packet queue by itself, with a ledger of the items that were received,
dequeued and dropped. The ten counters of the queue are those of the ledger, and as long as
fewer than 2^32 packets and bytes are received they are exact, and so is admission.
-/

namespace CudaNs3.Network

set_option autoImplicit false

namespace Queue
variable {Item : Type} (size : Item → BitVec 32)

/-- Whether the item was accepted, and the queue. -/
def doEnqueue (q : Queue Item) (gap : Gap Item) (item : Item) : Bool × Queue Item :=
  if q.full (size item) then (false, q.countDropBeforeEnqueue (size item))
  else (true, q.insert (gap.index q.packets) item (size item))

/-- The item and the queue; `none` when an assertion fails. -/
def doDequeue (q : Queue Item) (place : Place Item) : Option (Option Item × Queue Item) :=
  if q.isEmpty then some (none, q)
  else do
    let item ← q.packets[place.index q.packets]?
    if size item ≤ q.nBytes then
      some (some item, q.erase (place.index q.packets) (size item))
    else none

/-- Packets are first dequeued and then dropped. -/
def doRemove (q : Queue Item) (place : Place Item) : Option (Option Item × Queue Item) := do
  match ← q.doDequeue size place with
  | (none, q) => some (none, q)
  | (some item, q) => some (some item, q.countDropAfterDequeue (size item))

/-- The loop of `Flush`, with the items removed, the last one first; `none` when the queue is not empty after the
given passes. -/
def flushFrom (places : Nat → Place Item) : Nat → Queue Item → Option (List Item × Queue Item)
  | 0, q => if q.isEmpty then some ([], q) else none
  | n + 1, q =>
    if q.isEmpty then some ([], q)
    else do
      let (item, q) ← q.doRemove size (places n)
      let (items, q) ← flushFrom places n q
      some (items ++ item.toList, q)

def flush (q : Queue Item) (places : Nat → Place Item) : Option (List Item × Queue Item) :=
  flushFrom size places q.packets.length q

def withMaxSize (q : Queue Item) (maxSize : QueueSize) : Queue Item := { q with maxSize := maxSize }

/-- Nothing is done for a size of 0; `none` when the current size exceeds the new maximum. -/
def setMaxSize (q : Queue Item) (maxSize : QueueSize) : Option (Queue Item) :=
  if maxSize.value = 0 then some q
  else if maxSize.value < (q.withMaxSize maxSize).getCurrentSize.value then none
  else some (q.withMaxSize maxSize)

end Queue

inductive QueueCall (Item : Type) where
  | enqueue (gap : Gap Item) (item : Item)
  | dequeue (place : Place Item)
  | remove (place : Place Item)
  | flush (places : Nat → Place Item)
  | setMaxSize (maxSize : QueueSize)
  | wouldOverflow (nPackets nBytes : BitVec 32)

/-- The items that went through a queue, the last one first. -/
structure Ledger (Item : Type) where
  received : List Item := []
  dequeued : List Item := []
  droppedBefore : List Item := []
  droppedAfter : List Item := []

structure Accounts (Item : Type) where
  queue : Queue Item
  ledger : Ledger Item := {}

namespace Accounts
variable {Item : Type} (size : Item → BitVec 32)

def enqueue (s : Accounts Item) (gap : Gap Item) (item : Item) : Accounts Item :=
  match s.queue.doEnqueue size gap item with
  | (true, queue) =>
    { queue, ledger := { s.ledger with received := item :: s.ledger.received } }
  | (false, queue) =>
    { queue, ledger := { s.ledger with droppedBefore := item :: s.ledger.droppedBefore } }

def dequeued (s : Accounts Item) (items : List Item) (queue : Queue Item) : Accounts Item :=
  { queue, ledger := { s.ledger with dequeued := items ++ s.ledger.dequeued } }

def removed (s : Accounts Item) (items : List Item) (queue : Queue Item) : Accounts Item :=
  { queue, ledger := { s.ledger with droppedAfter := items ++ s.ledger.droppedAfter } }

def step (s : Accounts Item) : QueueCall Item → Option (Accounts Item)
  | .enqueue gap item => some (s.enqueue size gap item)
  | .dequeue place =>
    (s.queue.doDequeue size place).map fun r => s.dequeued r.1.toList r.2
  | .remove place =>
    (s.queue.doRemove size place).map fun r => s.removed r.1.toList r.2
  | .flush places => (s.queue.flush size places).map fun r => s.removed r.1 r.2
  | .setMaxSize maxSize => (s.queue.setMaxSize maxSize).map fun queue => { s with queue }
  | .wouldOverflow _ _ => some s

/-- The number of bytes of items, without a bound. -/
def totalSize (items : List Item) : Nat := (items.map fun i => (size i).toNat).sum

/-- The counters are those of the ledger, as far as 32 bits go, and no item is lost. -/
structure Accounted (s : Accounts Item) : Prop where
  perm : s.ledger.received.Perm (s.queue.packets ++ (s.ledger.dequeued ++ s.ledger.droppedAfter))
  nPackets : s.queue.nPackets = .ofNat 32 s.queue.packets.length
  nBytes : s.queue.nBytes = .ofNat 32 (totalSize size s.queue.packets)
  receivedPackets : s.queue.totalReceivedPackets = .ofNat 32 s.ledger.received.length
  receivedBytes : s.queue.totalReceivedBytes = .ofNat 32 (totalSize size s.ledger.received)
  packetsBefore : s.queue.totalDroppedPacketsBeforeEnqueue = .ofNat 32 s.ledger.droppedBefore.length
  bytesBefore : s.queue.totalDroppedBytesBeforeEnqueue =
    .ofNat 32 (totalSize size s.ledger.droppedBefore)
  packetsAfter : s.queue.totalDroppedPacketsAfterDequeue = .ofNat 32 s.ledger.droppedAfter.length
  bytesAfter : s.queue.totalDroppedBytesAfterDequeue =
    .ofNat 32 (totalSize size s.ledger.droppedAfter)
  droppedPackets : s.queue.totalDroppedPackets =
    s.queue.totalDroppedPacketsBeforeEnqueue + s.queue.totalDroppedPacketsAfterDequeue
  droppedBytes : s.queue.totalDroppedBytes =
    s.queue.totalDroppedBytesBeforeEnqueue + s.queue.totalDroppedBytesAfterDequeue

/-- What is received fits into the counters. -/
structure Few (s : Accounts Item) : Prop where
  packets : s.ledger.received.length < 2 ^ 32
  bytes : totalSize size s.ledger.received < 2 ^ 32

variable {size} {s : Accounts Item}

@[simp] theorem totalSize_cons (i : Item) (items : List Item) :
    totalSize size (i :: items) = (size i).toNat + totalSize size items := List.sum_cons

theorem totalSize_append (xs ys : List Item) :
    totalSize size (xs ++ ys) = totalSize size xs + totalSize size ys := by
  unfold totalSize
  rw [List.map_append, List.sum_append]

theorem totalSize_perm {xs ys : List Item} (h : xs.Perm ys) : totalSize size xs = totalSize size ys :=
  (h.map fun i => (size i).toNat).sum_eq

theorem ofNat_succ (n : Nat) : BitVec.ofNat 32 n + 1 = .ofNat 32 (n + 1) := by
  rw [BitVec.ofNat_add]
  rfl

theorem ofNat_add_size (n : Nat) (i : Item) :
    BitVec.ofNat 32 n + size i = .ofNat 32 ((size i).toNat + n) := by
  rw [Nat.add_comm, BitVec.ofNat_add, BitVec.ofNat_toNat, BitVec.setWidth_eq]

theorem ofNat_succ_sub (n : Nat) : BitVec.ofNat 32 (n + 1) - 1 = .ofNat 32 n := by
  rw [← ofNat_succ, add_sub_cancel_right]

theorem ofNat_sub_size (n : Nat) (i : Item) :
    BitVec.ofNat 32 ((size i).toNat + n) - size i = .ofNat 32 n := by
  rw [← ofNat_add_size, add_sub_cancel_right]

namespace Accounted
variable (h : Accounted size s)
include h

theorem enqueue (gap : Gap Item) (item : Item) : Accounted size (s.enqueue size gap item) := by
  unfold Accounts.enqueue Queue.doEnqueue
  by_cases hfull : s.queue.full (size item) = true
  · rw [if_pos hfull]
    refine { h with packetsBefore := ?_, bytesBefore := ?_, droppedPackets := ?_,
                    droppedBytes := ?_ }
    · change s.queue.totalDroppedPacketsBeforeEnqueue + 1 = _
      rw [h.packetsBefore, ofNat_succ]
      rfl
    · change s.queue.totalDroppedBytesBeforeEnqueue + size item = _
      rw [h.bytesBefore, ofNat_add_size]
      rfl
    · change s.queue.totalDroppedPackets + 1 = s.queue.totalDroppedPacketsBeforeEnqueue + 1 +
        s.queue.totalDroppedPacketsAfterDequeue
      rw [h.droppedPackets, add_right_comm]
    · change s.queue.totalDroppedBytes + size item = s.queue.totalDroppedBytesBeforeEnqueue +
        size item + s.queue.totalDroppedBytesAfterDequeue
      rw [h.droppedBytes, add_right_comm]
  · rw [if_neg hfull]
    have hperm := List.perm_insertIdx item s.queue.packets (gap.index_le s.queue.packets)
    refine { h with perm := ?_, nPackets := ?_, nBytes := ?_, receivedPackets := ?_,
                    receivedBytes := ?_ }
    · change (item :: s.ledger.received).Perm
        (s.queue.packets.insertIdx (gap.index s.queue.packets) item ++ _)
      exact (h.perm.cons item).trans (hperm.symm.append_right _)
    · change s.queue.nPackets + 1 =
        .ofNat 32 (s.queue.packets.insertIdx (gap.index s.queue.packets) item).length
      rw [h.nPackets, ofNat_succ, hperm.length_eq, List.length_cons]
    · change s.queue.nBytes + size item = .ofNat 32
        (totalSize size (s.queue.packets.insertIdx (gap.index s.queue.packets) item))
      rw [h.nBytes, ofNat_add_size, totalSize_perm hperm, totalSize_cons]
    · change s.queue.totalReceivedPackets + 1 = _
      rw [h.receivedPackets, ofNat_succ]
      rfl
    · change s.queue.totalReceivedBytes + size item = _
      rw [h.receivedBytes, ofNat_add_size]
      rfl

section
variable {pos : Nat} {item : Item} (hitem : s.queue.packets[pos]? = some item)
include hitem

omit h in
theorem perm_erase : (item :: s.queue.packets.eraseIdx pos).Perm s.queue.packets := by
  obtain ⟨hpos, hget⟩ := List.getElem?_eq_some_iff.mp hitem
  rw [← hget]
  exact List.getElem_cons_eraseIdx_perm hpos

theorem nPackets_erase : s.queue.nPackets - 1 = .ofNat 32 (s.queue.packets.eraseIdx pos).length := by
  rw [h.nPackets, ← (perm_erase hitem).length_eq, List.length_cons, ofNat_succ_sub]

theorem nBytes_erase : s.queue.nBytes - size item =
    .ofNat 32 (totalSize size (s.queue.packets.eraseIdx pos)) := by
  rw [h.nBytes, ← totalSize_perm (perm_erase hitem), totalSize_cons, ofNat_sub_size]

theorem dequeued : Accounted size (s.dequeued [item] (s.queue.erase pos (size item))) := by
  refine { h with perm := ?_, nPackets := h.nPackets_erase hitem
                  nBytes := h.nBytes_erase hitem }
  change s.ledger.received.Perm (s.queue.packets.eraseIdx pos ++
    (item :: s.ledger.dequeued ++ s.ledger.droppedAfter))
  refine h.perm.trans (((perm_erase hitem).symm.append_right _).trans ?_)
  exact List.perm_middle.symm

theorem removed : Accounted size
    (s.removed [item] ((s.queue.erase pos (size item)).countDropAfterDequeue (size item))) := by
  refine { h with perm := ?_, nPackets := h.nPackets_erase hitem
                  nBytes := h.nBytes_erase hitem, packetsAfter := ?_, bytesAfter := ?_
                  droppedPackets := ?_, droppedBytes := ?_ }
  · change s.ledger.received.Perm (s.queue.packets.eraseIdx pos ++
      (s.ledger.dequeued ++ item :: s.ledger.droppedAfter))
    refine h.perm.trans (((perm_erase hitem).symm.append_right _).trans ?_)
    rw [← List.append_assoc, ← List.append_assoc]
    exact List.perm_middle.symm
  · change s.queue.totalDroppedPacketsAfterDequeue + 1 = _
    rw [h.packetsAfter, ofNat_succ]
    rfl
  · change s.queue.totalDroppedBytesAfterDequeue + size item = _
    rw [h.bytesAfter, ofNat_add_size]
    rfl
  · change s.queue.totalDroppedPackets + 1 = s.queue.totalDroppedPacketsBeforeEnqueue +
      (s.queue.totalDroppedPacketsAfterDequeue + 1)
    rw [h.droppedPackets, add_assoc]
  · change s.queue.totalDroppedBytes + size item = s.queue.totalDroppedBytesBeforeEnqueue +
      (s.queue.totalDroppedBytesAfterDequeue + size item)
    rw [h.droppedBytes, add_assoc]

end

omit h in
theorem doDequeue_eq_some {q q' : Queue Item} {place : Place Item} {o : Option Item}
    (hq : q.doDequeue size place = some (o, q')) :
    (o = none ∧ q' = q) ∨ ∃ item, o = some item ∧
      q.packets[place.index q.packets]? = some item ∧
      q' = q.erase (place.index q.packets) (size item) := by
  unfold Queue.doDequeue at hq
  split at hq
  · obtain ⟨rfl, rfl⟩ := Prod.mk.inj (Option.some.inj hq)
    exact Or.inl ⟨rfl, rfl⟩
  · obtain ⟨item, hitem, hrest⟩ := Option.bind_eq_some_iff.mp hq
    split at hrest
    · obtain ⟨rfl, rfl⟩ := Prod.mk.inj (Option.some.inj hrest)
      exact Or.inr ⟨item, rfl, hitem, rfl⟩
    · cases hrest

theorem doDequeue {place : Place Item} {r : Option Item × Queue Item}
    (hr : s.queue.doDequeue size place = some r) : Accounted size (s.dequeued r.1.toList r.2) := by
  obtain ⟨o, q'⟩ := r
  rcases doDequeue_eq_some hr with ⟨rfl, rfl⟩ | ⟨item, rfl, hitem, rfl⟩
  · exact { h with }
  · exact h.dequeued hitem

theorem doRemove {place : Place Item} {r : Option Item × Queue Item}
    (hr : s.queue.doRemove size place = some r) : Accounted size (s.removed r.1.toList r.2) := by
  obtain ⟨⟨o, q'⟩, hdequeue, hthen⟩ := Option.bind_eq_some_iff.mp hr
  rcases doDequeue_eq_some hdequeue with ⟨rfl, rfl⟩ | ⟨item, rfl, hitem, rfl⟩
  · obtain rfl := Option.some.inj hthen
    exact { h with }
  · obtain rfl := Option.some.inj hthen
    exact h.removed hitem

omit h in
theorem flushFrom {places : Nat → Place Item} (n : Nat) : ∀ {s : Accounts Item},
    Accounted size s → ∀ r, s.queue.flushFrom size places n = some r →
      Accounted size (s.removed r.1 r.2) := by
  induction n with
  | zero =>
    intro s h r hr
    unfold Queue.flushFrom at hr
    split at hr
    · obtain rfl := Option.some.inj hr
      exact { h with }
    · cases hr
  | succ n ih =>
    intro s h r hr
    unfold Queue.flushFrom at hr
    split at hr
    · obtain rfl := Option.some.inj hr
      exact { h with }
    · obtain ⟨⟨o, q⟩, hremove, hthen⟩ := Option.bind_eq_some_iff.mp hr
      obtain ⟨⟨items, q'⟩, hrest, hlast⟩ := Option.bind_eq_some_iff.mp hthen
      obtain rfl := Option.some.inj hlast
      have hmore := ih (h.doRemove hremove) (items, q') hrest
      have hlist : (s.removed o.toList q).removed items q' = s.removed (items ++ o.toList) q' := by
        unfold Accounts.removed
        rw [List.append_assoc]
      rw [hlist] at hmore
      exact hmore

theorem step {call : QueueCall Item} {s' : Accounts Item} (hs : s.step size call = some s') :
    Accounted size s' := by
  cases call with
  | enqueue gap item =>
    obtain rfl := Option.some.inj hs
    exact h.enqueue gap item
  | dequeue place =>
    obtain ⟨r, hr, rfl⟩ := Option.map_eq_some_iff.mp hs
    exact h.doDequeue hr
  | remove place =>
    obtain ⟨r, hr, rfl⟩ := Option.map_eq_some_iff.mp hs
    exact h.doRemove hr
  | flush places =>
    obtain ⟨r, hr, rfl⟩ := Option.map_eq_some_iff.mp hs
    exact flushFrom _ h r hr
  | setMaxSize maxSize =>
    obtain ⟨q, hq, rfl⟩ := Option.map_eq_some_iff.mp hs
    unfold Queue.setMaxSize at hq
    split at hq
    · obtain rfl := Option.some.inj hq
      exact h
    · split at hq
      · cases hq
      · obtain rfl := Option.some.inj hq
        exact { h with }
  | wouldOverflow nPackets nBytes =>
    obtain rfl := Option.some.inj hs
    exact h

end Accounted

/-- What was received stays received. -/
theorem step_received {call : QueueCall Item} {s' : Accounts Item}
    (hs : s.step size call = some s') :
    ∃ items, s'.ledger.received = items ++ s.ledger.received := by
  cases call with
  | enqueue gap item =>
    obtain rfl := Option.some.inj hs
    unfold enqueue Queue.doEnqueue
    by_cases hfull : s.queue.full (size item) = true
    · rw [if_pos hfull]
      exact ⟨[], rfl⟩
    · rw [if_neg hfull]
      exact ⟨[item], rfl⟩
  | wouldOverflow nPackets nBytes =>
    obtain rfl := Option.some.inj hs
    exact ⟨[], rfl⟩
  | _ =>
    obtain ⟨r, -, rfl⟩ := Option.map_eq_some_iff.mp hs
    exact ⟨[], rfl⟩

theorem exec_received {calls : List (QueueCall Item)} {s' : Accounts Item}
    (hs : Transition.exec (step size) s calls = some s') :
    ∃ items, s'.ledger.received = items ++ s.ledger.received := by
  refine Transition.exec_invariant (P := fun t : Accounts Item =>
    ∃ items, t.ledger.received = items ++ s.ledger.received) ?_ ⟨[], rfl⟩ hs
  rintro t call t' ⟨items, hitems⟩ hstep
  obtain ⟨more, hmore⟩ := step_received hstep
  exact ⟨more ++ items, by rw [hmore, hitems, List.append_assoc]⟩

theorem Few.before {s' : Accounts Item} (h : Few size s') {items : List Item}
    (hitems : s'.ledger.received = items ++ s.ledger.received) : Few size s := by
  have hpackets := h.packets
  have hbytes := h.bytes
  rw [hitems, List.length_append] at hpackets
  rw [hitems, totalSize_append] at hbytes
  exact ⟨by omega, by omega⟩

/-- The counters as numbers. -/
structure Exact (size : Item → BitVec 32) (s : Accounts Item) : Prop where
  nPackets : s.queue.nPackets.toNat = s.queue.packets.length
  nBytes : s.queue.nBytes.toNat = totalSize size s.queue.packets
  receivedPackets : s.queue.totalReceivedPackets.toNat = s.queue.packets.length +
    s.ledger.dequeued.length + s.queue.totalDroppedPacketsAfterDequeue.toNat
  receivedBytes : s.queue.totalReceivedBytes.toNat = totalSize size s.queue.packets +
    totalSize size s.ledger.dequeued + s.queue.totalDroppedBytesAfterDequeue.toNat
  packetsAfter : s.queue.totalDroppedPacketsAfterDequeue.toNat = s.ledger.droppedAfter.length
  bytesAfter : s.queue.totalDroppedBytesAfterDequeue.toNat = totalSize size s.ledger.droppedAfter
  packetsBefore : s.queue.totalDroppedPacketsBeforeEnqueue = .ofNat 32 s.ledger.droppedBefore.length
  bytesBefore : s.queue.totalDroppedBytesBeforeEnqueue =
    .ofNat 32 (totalSize size s.ledger.droppedBefore)
  droppedPackets : s.queue.totalDroppedPackets =
    s.queue.totalDroppedPacketsBeforeEnqueue + s.queue.totalDroppedPacketsAfterDequeue
  droppedBytes : s.queue.totalDroppedBytes =
    s.queue.totalDroppedBytesBeforeEnqueue + s.queue.totalDroppedBytesAfterDequeue

section Few
variable (h : Accounted size s) (hfew : Few size s)
include h

theorem Accounted.length_received : s.ledger.received.length = s.queue.packets.length +
    (s.ledger.dequeued.length + s.ledger.droppedAfter.length) := by
  rw [h.perm.length_eq, List.length_append, List.length_append]

theorem Accounted.totalSize_received : totalSize size s.ledger.received =
    totalSize size s.queue.packets +
      (totalSize size s.ledger.dequeued + totalSize size s.ledger.droppedAfter) := by
  rw [totalSize_perm h.perm, totalSize_append, totalSize_append]

include hfew

theorem Accounted.exact : Exact size s := by
  have hlength := h.length_received
  have hsize := h.totalSize_received
  have hpackets := hfew.packets
  have hbytes := hfew.bytes
  have hafter : s.queue.totalDroppedPacketsAfterDequeue.toNat = s.ledger.droppedAfter.length := by
    rw [h.packetsAfter, BitVec.toNat_ofNat, Nat.mod_eq_of_lt (by omega)]
  have hafterBytes : s.queue.totalDroppedBytesAfterDequeue.toNat =
      totalSize size s.ledger.droppedAfter := by
    rw [h.bytesAfter, BitVec.toNat_ofNat, Nat.mod_eq_of_lt (by omega)]
  refine ⟨?_, ?_, ?_, ?_, hafter, hafterBytes, h.packetsBefore, h.bytesBefore, h.droppedPackets,
    h.droppedBytes⟩
  · rw [h.nPackets, BitVec.toNat_ofNat, Nat.mod_eq_of_lt (by omega)]
  · rw [h.nBytes, BitVec.toNat_ofNat, Nat.mod_eq_of_lt (by omega)]
  · rw [hafter, h.receivedPackets, BitVec.toNat_ofNat, Nat.mod_eq_of_lt hpackets, hlength,
      Nat.add_assoc]
  · rw [hafterBytes, h.receivedBytes, BitVec.toNat_ofNat, Nat.mod_eq_of_lt hbytes, hsize,
      Nat.add_assoc]

theorem Accounted.isEmpty_iff : s.queue.isEmpty = true ↔ s.queue.packets = [] := by
  have hexact := (h.exact hfew).nPackets
  unfold Queue.isEmpty
  rw [decide_eq_true_iff, ← BitVec.toNat_inj, hexact]
  exact List.length_eq_zero_iff

/-- The assertions on the counters hold. -/
theorem Accounted.exists_doDequeue (place : Place Item) :
    (s.queue.packets = [] ∧ s.queue.doDequeue size place = some (none, s.queue)) ∨
      ∃ item, s.queue.packets[place.index s.queue.packets]? = some item ∧
        s.queue.doDequeue size place =
          some (some item, s.queue.erase (place.index s.queue.packets) (size item)) := by
  have hempty := h.isEmpty_iff hfew
  unfold Queue.doDequeue
  by_cases hnil : s.queue.packets = []
  · rw [if_pos (hempty.mpr hnil)]
    exact Or.inl ⟨hnil, rfl⟩
  · rw [if_neg (mt hempty.mp hnil)]
    have hlt := place.index_lt s.queue.packets hnil
    have hitem := List.getElem?_eq_getElem hlt
    have hsize : size (s.queue.packets[place.index s.queue.packets]) ≤ s.queue.nBytes := by
      rw [BitVec.le_def, (h.exact hfew).nBytes, ← totalSize_perm (Accounted.perm_erase hitem),
        totalSize_cons]
      exact Nat.le_add_right _ _
    refine Or.inr ⟨_, hitem, ?_⟩
    rw [hitem]
    exact if_pos hsize

theorem Accounted.exists_doRemove (place : Place Item) :
    ∃ r, s.queue.doRemove size place = some r ∧ Accounted size (s.removed r.1.toList r.2) ∧
      (s.queue.packets ≠ [] → r.2.packets.length + 1 = s.queue.packets.length) := by
  rcases h.exists_doDequeue hfew place with ⟨hnil, hr⟩ | ⟨item, hitem, hr⟩
  · have hremove : s.queue.doRemove size place = some (none, s.queue) := by
      unfold Queue.doRemove
      rw [hr]
      rfl
    exact ⟨_, hremove, h.doRemove hremove, fun hne => absurd hnil hne⟩
  · have hremove : s.queue.doRemove size place = some (some item,
        (s.queue.erase (place.index s.queue.packets) (size item)).countDropAfterDequeue
          (size item)) := by
      unfold Queue.doRemove
      rw [hr]
      rfl
    refine ⟨_, hremove, h.doRemove hremove, fun _ => ?_⟩
    have hlength := (Accounted.perm_erase hitem).length_eq
    rw [List.length_cons] at hlength
    exact hlength

omit h hfew in
/-- Each pass takes an item, so that there are passes enough. -/
theorem Accounted.exists_flushFrom (places : Nat → Place Item) (n : Nat) : ∀ {s : Accounts Item},
    Accounted size s → Few size s → s.queue.packets.length ≤ n →
      ∃ r, s.queue.flushFrom size places n = some r := by
  induction n with
  | zero =>
    intro s h hfew hn
    have hnil : s.queue.packets = [] := List.length_eq_zero_iff.mp (Nat.le_zero.mp hn)
    unfold Queue.flushFrom
    rw [if_pos ((h.isEmpty_iff hfew).mpr hnil)]
    exact ⟨_, rfl⟩
  | succ n ih =>
    intro s h hfew hn
    unfold Queue.flushFrom
    by_cases hempty : s.queue.isEmpty = true
    · rw [if_pos hempty]
      exact ⟨_, rfl⟩
    · rw [if_neg hempty]
      have hne : s.queue.packets ≠ [] := mt (h.isEmpty_iff hfew).mpr hempty
      obtain ⟨⟨o, q⟩, hremove, h', hlength⟩ := h.exists_doRemove hfew (places n)
      have hlen : q.packets.length + 1 = s.queue.packets.length := hlength hne
      have hfew' : Few size (s.removed o.toList q) := { hfew with }
      obtain ⟨⟨items, q'⟩, hrest⟩ := ih h' hfew' (by change q.packets.length ≤ n; omega)
      refine ⟨(items ++ o.toList, q'), ?_⟩
      change q.flushFrom size places n = _ at hrest
      rw [hremove]
      change (q.flushFrom size places n).bind _ = _
      rw [hrest]
      rfl

/-- A call fails only when it asks for a maximum below the current size. -/
theorem Accounted.step_eq_none_iff (call : QueueCall Item) : s.step size call = none ↔
    ∃ maxSize, call = .setMaxSize maxSize ∧ maxSize.value ≠ 0 ∧
      maxSize.value.toNat < (s.queue.withMaxSize maxSize).occupied size := by
  have hcurrent (maxSize : QueueSize) :
      (s.queue.withMaxSize maxSize).getCurrentSize.value.toNat =
        (s.queue.withMaxSize maxSize).occupied size := by
    unfold Queue.withMaxSize Queue.getCurrentSize Queue.occupied
    cases maxSize.unit with
    | packets => exact (h.exact hfew).nPackets
    | bytes => exact (h.exact hfew).nBytes
  cases call with
  | enqueue gap item => simp [Accounts.step]
  | wouldOverflow nPackets nBytes => simp [Accounts.step]
  | dequeue place =>
    rcases h.exists_doDequeue hfew place with ⟨-, hr⟩ | ⟨item, -, hr⟩
    · simp [Accounts.step, hr]
    · simp [Accounts.step, hr]
  | remove place =>
    obtain ⟨r, hr, -⟩ := h.exists_doRemove hfew place
    simp [Accounts.step, hr]
  | flush places =>
    obtain ⟨r, hr⟩ := Accounted.exists_flushFrom places _ h hfew (Nat.le_refl _)
    simp [Accounts.step, Queue.flush, hr]
  | setMaxSize maxSize =>
    have hstep : s.step size (.setMaxSize maxSize) = none ↔ maxSize.value ≠ 0 ∧
        maxSize.value < (s.queue.withMaxSize maxSize).getCurrentSize.value := by
      unfold Accounts.step Queue.setMaxSize
      rw [Option.map_eq_none_iff]
      by_cases hzero : maxSize.value = 0
      · rw [if_pos hzero]
        simp [hzero]
      · rw [if_neg hzero]
        by_cases hlt : maxSize.value < (s.queue.withMaxSize maxSize).getCurrentSize.value
        · rw [if_pos hlt]
          exact iff_of_true rfl ⟨hzero, hlt⟩
        · rw [if_neg hlt]
          exact iff_of_false (Option.some_ne_none _) fun hboth => hlt hboth.2
    rw [hstep, BitVec.lt_def, hcurrent]
    constructor
    · intro hboth
      exact ⟨maxSize, rfl, hboth⟩
    · rintro ⟨m, hm, hboth⟩
      obtain rfl := QueueCall.setMaxSize.inj hm
      exact hboth

end Few

/-- The sum that is compared with the maximum, as 32 bits hold it. -/
theorem full_iff (h : Exact size s) (item : Item) : s.queue.full (size item) = true ↔
    s.queue.maxSize.value.toNat <
      (s.queue.occupied size + s.queue.maxSize.takenBy (size item).toNat) % 2 ^ 32 := by
  unfold Queue.full Queue.getCurrentSize Queue.occupied QueueSize.takenBy QueueSize.add
  cases hunit : s.queue.maxSize.unit with
  | packets =>
    simp only [decide_eq_true_iff, BitVec.lt_def, BitVec.toNat_add, h.nPackets]
    rfl
  | bytes =>
    simp only [decide_eq_true_iff, BitVec.lt_def, BitVec.toNat_add, h.nBytes]
    rfl

theorem occupied_le (item : Item) :
    s.queue.occupied size + s.queue.maxSize.takenBy (size item).toNat ≤
      max (s.queue.packets.length + 1) (totalSize size s.queue.packets + (size item).toNat) := by
  unfold Queue.occupied QueueSize.takenBy
  cases s.queue.maxSize.unit with
  | packets => exact Nat.le_max_left _ _
  | bytes => exact Nat.le_max_right _ _

/-- An item that an overflow admits would bring the total received to 2^32. -/
theorem accepted_iff {gap : Gap Item} {item : Item} (h : Accounted size s)
    (hfew : Few size (s.enqueue size gap item)) :
    (s.queue.doEnqueue size gap item).1 = true ↔
      s.queue.occupied size + s.queue.maxSize.takenBy (size item).toNat ≤
        s.queue.maxSize.value.toNat := by
  have hstep : s.step size (.enqueue gap item) = some _ := rfl
  obtain ⟨items, hitems⟩ := step_received hstep
  have hexact := h.exact (hfew.before hitems)
  have hfull := full_iff hexact item
  have hmod := Nat.mod_le (s.queue.occupied size + s.queue.maxSize.takenBy (size item).toNat)
    (2 ^ 32)
  unfold Queue.doEnqueue
  by_cases hq : s.queue.full (size item) = true
  · rw [if_pos hq]
    have hlt := hfull.mp hq
    apply iff_of_false
    · exact Bool.false_ne_true
    · omega
  · rw [if_neg hq]
    have hreceived : (s.enqueue size gap item).ledger.received = item :: s.ledger.received := by
      unfold enqueue Queue.doEnqueue
      rw [if_neg hq]
    have hpackets := hfew.packets
    have hbytes := hfew.bytes
    rw [hreceived, List.length_cons, h.length_received] at hpackets
    rw [hreceived, totalSize_cons, h.totalSize_received] at hbytes
    have hle : s.queue.occupied size + s.queue.maxSize.takenBy (size item).toNat ≤ _ :=
      occupied_le item
    rw [hfull, Nat.mod_eq_of_lt (lt_of_le_of_lt hle (max_lt (by omega) (by omega)))] at hq
    exact iff_of_true rfl (Nat.le_of_not_lt hq)

/-- As constructed, with the maximum that it is given. -/
def start (maxSize : QueueSize) : Accounts Item := { queue := { maxSize } }

theorem accounted_start (maxSize : QueueSize) : Accounted size (start maxSize) :=
  { perm := .nil, nPackets := rfl, nBytes := rfl, receivedPackets := rfl, receivedBytes := rfl
    packetsBefore := rfl, bytesBefore := rfl, packetsAfter := rfl, bytesAfter := rfl
    droppedPackets := rfl, droppedBytes := rfl }

/-- In a run in which fewer than 2^32 packets and bytes are received the counters are exact at
its end, and at any time before an item is accepted just when there is room for it. -/
theorem accounts_exact {maxSize : QueueSize} {calls : List (QueueCall Item)} {s : Accounts Item}
    (hs : Transition.exec (step size) (start maxSize) calls = some s) (hfew : Few size s) :
    Exact size s ∧
    (∀ before gap item after u, calls = before ++ .enqueue gap item :: after →
      Transition.exec (step size) (start maxSize) before = some u →
      ((u.queue.doEnqueue size gap item).1 = true ↔
        u.queue.occupied size + u.queue.maxSize.takenBy (size item).toNat ≤
          u.queue.maxSize.value.toNat)) ∧
    ∀ call, s.step size call = none ↔ ∃ maxSize, call = .setMaxSize maxSize ∧
      maxSize.value ≠ 0 ∧ maxSize.value.toNat < (s.queue.withMaxSize maxSize).occupied size := by
  have hrun {calls : List (QueueCall Item)} {u : Accounts Item}
      (hu : Transition.exec (step size) (start maxSize) calls = some u) : Accounted size u :=
    Transition.exec_invariant (fun _ _ _ h hstep => h.step hstep) (accounted_start maxSize) hu
  refine ⟨(hrun hs).exact hfew, ?_, (hrun hs).step_eq_none_iff hfew⟩
  intro before gap item after u hcalls hu
  rw [hcalls] at hs
  obtain ⟨u', hu', hrest⟩ := Transition.exec_append.mp hs
  obtain rfl := Option.some.inj (hu.symm.trans hu')
  obtain ⟨v, hv, hafter⟩ := Transition.exec_cons_eq_some.mp hrest
  obtain rfl := Option.some.inj hv
  obtain ⟨items, hitems⟩ := exec_received hafter
  exact accepted_iff (hrun hu) (hfew.before hitems)

section
private theorem lengths_pos (items : List (BitVec 32)) (hne : items ≠ []) : 0 < items.length :=
  List.length_pos_iff.mpr hne

/-- Operations at the head of a queue of lengths. -/
private def first : Place (BitVec 32) where
  index := fun _ => 0
  index_lt := lengths_pos

private def front : Gap (BitVec 32) where
  index := fun _ => 0
  index_le := fun items => Nat.zero_le items.length

private def calls : List (QueueCall (BitVec 32)) :=
  [.enqueue front 1500, .dequeue first, .enqueue front 40, .remove first, .enqueue front 2000000,
    .setMaxSize ⟨.packets, 1⟩, .enqueue front 1, .flush fun _ => first]

theorem accounts_exact_calls :
    ∃ s, Transition.exec (step id) (start ⟨.bytes, 1000000⟩) calls = some s ∧ Exact id s := by
  obtain ⟨s, hs, hpackets, hbytes⟩ : ∃ s ∈ Transition.exec (step id) (start ⟨.bytes, 1000000⟩) calls,
      s.ledger.received.length < 2 ^ 32 ∧ totalSize id s.ledger.received < 2 ^ 32 := by
    decide +kernel
  exact ⟨s, hs, (accounts_exact hs ⟨hpackets, hbytes⟩).1⟩

end

end Accounts
end CudaNs3.Network
