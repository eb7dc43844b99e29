import CudaNs3.Lib.SlotBuffer
import CudaNs3.Lib.Transition
import Mathlib.Tactic.Abel

/-!
# The transmitter and its queue under concurrent calls

`SendFrom` and `D_TransmitComplete` with everything they call on one device, cut at each
load, store and `atomicCAS` on the memory they share. The queue counters only grow; a
counter that would pass the range of `int` is undefined and no step.
-/

namespace CudaNs3.Device.TransmitRace

open SlotBuffer Transition
set_option autoImplicit false

def mQueueSize : Nat := 2048

inductive TxMachineState where
  | ready
  | busy
  deriving DecidableEq, Repr

/-- The next shared access of a call. `completing` marks a `TransmitStart` called by
`D_TransmitComplete`. -/
inductive Pc where
  | sendFrom (p : Nat)
  | transmitStart (p : Nat) (completing : Bool)
  | enqueueRear (p : Nat)
  | enqueueFront (p rear : Nat)
  | enqueueClaim (p rear : Nat)
  | enqueueStore (p index : Nat)
  | release (p : Nat)
  | transmitComplete
  | dequeueRear
  | dequeueFront (rear : Nat)
  | dequeueClaim (front : Nat)
  | dequeueTest (index : Nat)
  | dequeuePointer (index : Nat)
  | dequeueReady (index p : Nat)
  | dequeueLoad (index : Nat)
  | dequeueClear (index : Nat) (packet : Option Nat)
  | done
  deriving DecidableEq

/-- The shared fields, and a record of the run: for each slot the counter value it was last
claimed with, the packets handed to `SendFrom`, those started on the channel, and those
refused with the number of queued packets then. -/
structure Transmitter where
  mTxMachineState : TxMachineState
  dQueueFront : Nat
  dQueueRear : Nat
  dPacketQueue : Nat → Option Nat
  ready : Nat → Bool
  tag : Nat → Nat
  handed : Multiset Nat
  started : Multiset Nat
  refused : Multiset (Nat × Nat)

structure System where
  device : Transmitter
  calls : Multiset Pc

/-- `rear & (m_queueSize - 1)`, which needs the size to be a power of 2. -/
def slot (index : Nat) : Nat := index &&& (mQueueSize - 1)

def unsignedDistance (rear front : Nat) : Nat := (((rear : Int) - front) % 2 ^ 32).toNat

namespace Transmitter

def idle : Transmitter where
  mTxMachineState := .ready
  dQueueFront := 0
  dQueueRear := 0
  dPacketQueue := fun _ => none
  ready := fun _ => true
  tag := id
  handed := 0
  started := 0
  refused := 0

def writeSlot (s : Transmitter) (i : Nat) (p : Option Nat) : Transmitter :=
  { s with dPacketQueue := Function.update s.dPacketQueue (slot i) p }

/-- One step of a call; none when it has returned or its next access is undefined. -/
def move (s : Transmitter) : Pc → Option (Transmitter × Pc)
  | .sendFrom p =>
    some (s, if s.mTxMachineState = .ready then .transmitStart p false else .enqueueRear p)
  | .transmitStart p _ =>
    if s.mTxMachineState = .ready then
      some ({ s with mTxMachineState := .busy, started := p ::ₘ s.started }, .done)
    else some (s, .enqueueRear p)
  | .enqueueRear p => some (s, .enqueueFront p s.dQueueRear)
  | .enqueueFront p rear =>
    if unsignedDistance rear s.dQueueFront ≥ mQueueSize then
      some ({ s with refused := (p, s.dQueueRear - s.dQueueFront) ::ₘ s.refused }, .release p)
    else some (s, .enqueueClaim p rear)
  | .enqueueClaim p rear =>
    if s.dQueueRear = rear then
      if rear + 1 < 2 ^ 31 then some ({ s with dQueueRear := rear + 1 }, .enqueueStore p rear)
      else none
    else some (s, .enqueueRear p)
  | .enqueueStore p i =>
    some ({ s.writeSlot i (some p) with tag := Function.update s.tag (slot i) i }, .done)
  | .release p => some ({ s with ready := Function.update s.ready p false }, .done)
  | .transmitComplete =>
    if s.mTxMachineState = .busy then some ({ s with mTxMachineState := .ready }, .dequeueRear)
    else some (s, .done)
  | .dequeueRear => some (s, .dequeueFront s.dQueueRear)
  | .dequeueFront rear =>
    if rear ≤ s.dQueueFront then some (s, .done) else some (s, .dequeueClaim s.dQueueFront)
  | .dequeueClaim front =>
    if s.dQueueFront = front then some ({ s with dQueueFront := front + 1 }, .dequeueTest front)
    else some (s, .dequeueRear)
  | .dequeueTest i =>
    some (s, if (s.dPacketQueue (slot i)).isNone then .done else .dequeuePointer i)
  | .dequeuePointer i => (s.dPacketQueue (slot i)).map fun p => (s, .dequeueReady i p)
  | .dequeueReady i p => some (s, if s.ready p then .dequeueLoad i else .done)
  | .dequeueLoad i => some (s, .dequeueClear i (s.dPacketQueue (slot i)))
  | .dequeueClear i none => some (s.writeSlot i none, .done)
  | .dequeueClear i (some p) => some (s.writeSlot i none, .transmitStart p true)
  | .done => none

end Transmitter

/-- `D_TransmitComplete` has reset the transmitter and not yet given up on the queue. -/
def Pc.drains : Pc → Prop
  | .transmitStart _ completing => completing = true
  | .dequeueRear | .dequeueFront _ | .dequeueClaim _ | .dequeueTest _ | .dequeuePointer _
  | .dequeueReady _ _ | .dequeueLoad _ | .dequeueClear _ _ => True
  | _ => False

/-- Someone will still look at the queue: a transmission is under way, or a call drains. -/
def Watched (s : Transmitter) (calls : Multiset Pc) : Prop :=
  s.mTxMachineState = .busy ∨ ∃ c ∈ calls, c.drains

/-- The step of `c` does not run into one of the races of this code, given the other calls:
the fullness test is not made against a front that has passed the rear it loaded; no packet
is queued, and no dequeue gives up, unless someone else will look at the queue; a slot is
stored to once it has been cleared, and examined once it has been stored to. -/
def Clean (s : Transmitter) (others : Multiset Pc) : Pc → Prop
  | .enqueueFront _ rear => s.dQueueFront ≤ rear
  | .enqueueClaim _ rear => s.dQueueRear = rear → Watched s others
  | .enqueueStore _ i => s.dPacketQueue (slot i) = none
  | .dequeueFront rear =>
    rear ≤ s.dQueueFront → s.dQueueFront < s.dQueueRear → Watched s others
  | .dequeueTest i => ∀ p, .enqueueStore p i ∉ others
  | _ => True

/-- Any number of calls at any moments, each `SendFrom` with a packet of its own, whose steps
are all allowed. -/
inductive Step (Allowed : Transmitter → Multiset Pc → Pc → Prop) : System → System → Prop where
  | sendFrom {s : Transmitter} {calls : Multiset Pc} {p : Nat} : p ∉ s.handed →
      Step Allowed ⟨s, calls⟩ ⟨{ s with handed := p ::ₘ s.handed }, .sendFrom p ::ₘ calls⟩
  | transmitComplete {s : Transmitter} {calls : Multiset Pc} :
      Step Allowed ⟨s, calls⟩ ⟨s, .transmitComplete ::ₘ calls⟩
  | move {s t : Transmitter} {c d : Pc} {others : Multiset Pc} : Allowed s others c →
      s.move c = some (t, d) → Step Allowed ⟨s, c ::ₘ others⟩ ⟨t, d ::ₘ others⟩

abbrev AnyStep : System → System → Prop := Step fun _ _ _ => True

abbrev CleanStep : System → System → Prop := Step Clean

def Queued (s : Transmitter) (p : Nat) : Prop :=
  ∃ i, s.dQueueFront ≤ i ∧ i < s.dQueueRear ∧ s.dPacketQueue (slot i) = some p

/-- Every packet is started once, or refused by a full queue, or queued, and a queue that is
not empty has a transmission under way. -/
structure Settled (s : Transmitter) : Prop where
  placed : ∀ p ∈ s.handed,
    (s.started.count p = 1 ∧ p ∉ s.refused.map Prod.fst ∧ ¬Queued s p) ∨
    (p ∉ s.started ∧ (p, mQueueSize) ∈ s.refused ∧ ¬Queued s p) ∨
    (p ∉ s.started ∧ p ∉ s.refused.map Prod.fst ∧ Queued s p)
  draining : s.dQueueFront < s.dQueueRear → s.mTxMachineState = .busy

theorem slot_eq (i : Nat) : slot i = i % mQueueSize :=
  Nat.and_two_pow_sub_one_eq_mod i 11

theorem slot_lt (i : Nat) : slot i < mQueueSize := by
  rw [slot_eq]
  exact Nat.mod_lt _ (by decide)

theorem unsignedDistance_eq {rear front : Nat} (h : front ≤ rear) (hrear : rear < 2 ^ 31) :
    unsignedDistance rear front = rear - front := by
  unfold unsignedDistance
  omega

/-- The packet a call holds and has not put anywhere yet. -/
def Pc.carried : Pc → Multiset Nat
  | .sendFrom p | .transmitStart p _ | .enqueueRear p | .enqueueFront p _ | .enqueueClaim p _
  | .enqueueStore p _ => {p}
  | _ => 0

/-- The queue position a call has claimed and not yet stored to. -/
def Pc.storing : Pc → Multiset Nat
  | .enqueueStore _ i => {i}
  | _ => 0

/-- The queue position a call has taken and not yet cleared. -/
def Pc.taking : Pc → Multiset Nat
  | .dequeueTest i | .dequeuePointer i | .dequeueReady i _ | .dequeueLoad i
  | .dequeueClear i _ => {i}
  | _ => 0

/-- The slot holds the packet stored for queue position `i`. -/
def Holds (s : Transmitter) (i p : Nat) : Prop :=
  s.dPacketQueue (slot i) = some p ∧ s.tag (slot i) = i

def carriedBy (calls : Multiset Pc) : Multiset Nat := calls.bind Pc.carried
def storedBy (calls : Multiset Pc) : Multiset Nat := calls.bind Pc.storing
def takenBy (calls : Multiset Pc) : Multiset Nat := calls.bind Pc.taking

theorem carriedBy_cons (c : Pc) (calls : Multiset Pc) :
    carriedBy (c ::ₘ calls) = c.carried + carriedBy calls := Multiset.cons_bind _ _ _

theorem storedBy_cons (c : Pc) (calls : Multiset Pc) :
    storedBy (c ::ₘ calls) = c.storing + storedBy calls := Multiset.cons_bind _ _ _

theorem takenBy_cons (c : Pc) (calls : Multiset Pc) :
    takenBy (c ::ₘ calls) = c.taking + takenBy calls := Multiset.cons_bind _ _ _

/-- What a call can rely on at its next access. -/
def Pc.Ok (s : Transmitter) : Pc → Prop
  | .enqueueFront _ rear => rear ≤ s.dQueueRear
  | .enqueueClaim _ rear => rear ≤ s.dQueueRear ∧ rear < s.dQueueFront + mQueueSize
  | .release p => p ∈ s.refused.map Prod.fst
  | .dequeueFront rear => rear ≤ s.dQueueRear
  | .dequeueClaim front => front < s.dQueueRear
  | .dequeuePointer i | .dequeueLoad i => ∃ p, Holds s i p
  | .dequeueReady i p => Holds s i p
  | .dequeueClear i packet => ∃ p, packet = some p ∧ Holds s i p
  | _ => True

def positions (s : Transmitter) : Multiset Nat :=
  bag (fun k => (s.dPacketQueue k).map fun _ => s.tag k) mQueueSize

def packets (s : Transmitter) : Multiset Nat := bag s.dPacketQueue mQueueSize

def between (front rear : Nat) : Multiset Nat := ↑(List.range' front (rear - front))

theorem between_push {front rear : Nat} (h : front ≤ rear) :
    between front (rear + 1) = rear ::ₘ between front rear := by
  unfold between
  rw [Nat.sub_add_comm h, List.range'_1_concat, ← Multiset.coe_add, Multiset.coe_singleton,
    add_comm, Multiset.singleton_add, Nat.add_sub_cancel' h]

theorem between_pop {front rear : Nat} (h : front < rear) :
    between front rear = front ::ₘ between (front + 1) rear := by
  unfold between
  obtain ⟨n, rfl⟩ := Nat.exists_eq_add_of_lt h
  have hall : front + n + 1 - front = n + 1 := by omega
  have hrest : front + n + 1 - (front + 1) = n := by omega
  rw [hall, hrest, List.range'_succ, Multiset.cons_coe]

theorem mem_between {front rear i : Nat} : i ∈ between front rear ↔ front ≤ i ∧ i < rear := by
  unfold between
  rw [Multiset.mem_coe, List.mem_range'_1]
  omega

structure Inv (s : Transmitter) (calls : Multiset Pc) : Prop where
  order : s.dQueueFront ≤ s.dQueueRear
  room : s.dQueueRear ≤ s.dQueueFront + mQueueSize
  range : s.dQueueRear < 2 ^ 31
  ok : ∀ c ∈ calls, c.Ok s
  /-- The positions claimed or filled are those in the queue and those being taken. -/
  balance : storedBy calls + positions s =
    takenBy calls + between s.dQueueFront s.dQueueRear
  taken : (takenBy calls).Nodup ∧ ∀ i ∈ takenBy calls, i < s.dQueueFront
  tagged : ∀ k p, s.dPacketQueue k = some p → slot (s.tag k) = k
  account : s.handed = s.started + s.refused.map Prod.fst + packets s + carriedBy calls
  distinct : s.handed.Nodup
  ready : ∀ p, s.ready p = false → p ∈ s.refused.map Prod.fst
  full : ∀ r ∈ s.refused, r.2 = mQueueSize
  watched : s.dQueueFront < s.dQueueRear → Watched s calls

theorem Inv.idle : Inv .idle 0 := by
  have hpos : positions .idle = 0 := bag_eq_zero.mpr fun _ _ => rfl
  have hpkt : packets .idle = 0 := bag_eq_zero.mpr fun _ _ => rfl
  refine ⟨le_refl _, Nat.zero_le _, by decide, fun c hc => absurd hc (Multiset.notMem_zero c), ?_,
    ⟨Multiset.nodup_zero, fun i hi => absurd hi (Multiset.notMem_zero i)⟩, ?_, ?_,
    Multiset.nodup_zero, ?_, ?_, ?_⟩
  · rw [hpos]
    rfl
  · intro k p hk
    simp [Transmitter.idle] at hk
  · rw [hpkt]
    rfl
  · intro p hp
    simp [Transmitter.idle] at hp
  · intro r hr
    simp [Transmitter.idle] at hr
  · exact fun h => absurd h (Nat.lt_irrefl 0)

/-- Counters and refusals only grow, so a call keeps what it relies on as long as its slot
keeps its packet. -/
theorem Pc.Ok.mono {s t : Transmitter} {c : Pc} (h : c.Ok s) (hrear : s.dQueueRear ≤ t.dQueueRear)
    (hfront : s.dQueueFront ≤ t.dQueueFront) (hrefused : s.refused ⊆ t.refused)
    (hslots : ∀ i ∈ c.taking, ∀ p, Holds s i p → Holds t i p) : c.Ok t := by
  have hslot {i p : Nat} (hi : i ∈ c.taking) (hp : Holds s i p) : Holds t i p := hslots i hi p hp
  cases c with
  | enqueueFront p rear => exact Nat.le_trans h hrear
  | enqueueClaim p rear => exact ⟨h.1.trans hrear, by have := h.2; omega⟩
  | release p => exact Multiset.map_subset_map hrefused h
  | dequeueFront rear => exact Nat.le_trans h hrear
  | dequeueClaim front => exact Nat.lt_of_lt_of_le h hrear
  | dequeuePointer i =>
    obtain ⟨p, hp⟩ := h
    exact ⟨p, hslot (by simp [Pc.taking]) hp⟩
  | dequeueReady i p => exact hslot (by simp [Pc.taking]) h
  | dequeueLoad i =>
    obtain ⟨p, hp⟩ := h
    exact ⟨p, hslot (by simp [Pc.taking]) hp⟩
  | dequeueClear i packet =>
    obtain ⟨p, rfl, hp⟩ := h
    exact ⟨p, rfl, hslot (by simp [Pc.taking]) hp⟩
  | _ => trivial

section Steps
variable {s t : Transmitter} {c d : Pc} {others : Multiset Pc}

theorem Watched.mono (h : Watched s (c ::ₘ others)) (hstate : t.mTxMachineState = s.mTxMachineState)
    (hdrains : c.drains → d.drains) : Watched t (d ::ₘ others) := by
  rcases h with hbusy | ⟨e, he, hdrain⟩
  · exact Or.inl (hstate.trans hbusy)
  · rcases Multiset.mem_cons.mp he with rfl | he
    · exact Or.inr ⟨d, Multiset.mem_cons_self _ _, hdrains hdrain⟩
    · exact Or.inr ⟨e, Multiset.mem_cons_of_mem he, hdrain⟩

theorem Watched.cons (h : Watched s others) : Watched s (d ::ₘ others) := by
  rcases h with hbusy | ⟨e, he, hdrain⟩
  · exact Or.inl hbusy
  · exact Or.inr ⟨e, Multiset.mem_cons_of_mem he, hdrain⟩

theorem Watched.of_drains (hdrains : d.drains) : Watched s (d ::ₘ others) :=
  Or.inr ⟨d, Multiset.mem_cons_self _ _, hdrains⟩

theorem Inv.others_ok (h : Inv s (c ::ₘ others)) (hrear : s.dQueueRear ≤ t.dQueueRear)
    (hfront : s.dQueueFront ≤ t.dQueueFront) (hrefused : s.refused ⊆ t.refused)
    (hslots : t.dPacketQueue = s.dPacketQueue) (htag : t.tag = s.tag) (hd : d.Ok t) :
    ∀ e ∈ d ::ₘ others, e.Ok t := by
  intro e he
  rcases Multiset.mem_cons.mp he with rfl | he
  · exact hd
  · refine (h.ok e (Multiset.mem_cons_of_mem he)).mono hrear hfront hrefused fun i _ p hp => ?_
    rwa [Holds, hslots, htag]

theorem Inv.advance (h : Inv s (c ::ₘ others)) (hcarried : d.carried = c.carried)
    (hstoring : d.storing = c.storing) (htaking : d.taking = c.taking) (hok : d.Ok s)
    (hwatched : s.dQueueFront < s.dQueueRear → Watched s (d ::ₘ others)) :
    Inv s (d ::ₘ others) where
  order := h.order
  room := h.room
  range := h.range
  ok := fun e he => by
    rcases Multiset.mem_cons.mp he with rfl | he
    · exact hok
    · exact h.ok e (Multiset.mem_cons_of_mem he)
  balance := by
    have := h.balance
    simpa only [storedBy_cons, takenBy_cons, hstoring, htaking] using this
  taken := by
    have := h.taken
    simpa only [takenBy_cons, htaking] using this
  tagged := h.tagged
  account := by
    have := h.account
    simpa only [carriedBy_cons, hcarried] using this
  distinct := h.distinct
  ready := h.ready
  full := h.full
  watched := hwatched

theorem Inv.transmitStart {p : Nat} {completing : Bool}
    (h : Inv s (.transmitStart p completing ::ₘ others)) :
    Inv { s with mTxMachineState := .busy, started := p ::ₘ s.started } (.done ::ₘ others) where
  order := h.order
  room := h.room
  range := h.range
  ok := h.others_ok (le_refl _) (le_refl _) (fun _ hr => hr) rfl rfl trivial
  balance := by
    have := h.balance
    rw [storedBy_cons, takenBy_cons] at this ⊢
    exact this
  taken := by
    have := h.taken
    rw [takenBy_cons] at this ⊢
    exact this
  tagged := h.tagged
  account := by
    have := h.account
    simp only [carriedBy_cons, Pc.carried, zero_add] at this ⊢
    rw [this]
    simp only [packets, ← Multiset.singleton_add]
    abel
  distinct := h.distinct
  ready := h.ready
  full := h.full
  watched := fun _ => Or.inl rfl

theorem Inv.refuse {p rear : Nat} (h : Inv s (.enqueueFront p rear ::ₘ others))
    (hclean : s.dQueueFront ≤ rear)
    (hfull : unsignedDistance rear s.dQueueFront ≥ mQueueSize) :
    Inv { s with refused := (p, s.dQueueRear - s.dQueueFront) ::ₘ s.refused }
      (.release p ::ₘ others) where
  order := h.order
  room := h.room
  range := h.range
  ok := h.others_ok (le_refl _) (le_refl _) (Multiset.subset_cons _ _) rfl rfl
    (by simp [Pc.Ok])
  balance := by
    have := h.balance
    rw [storedBy_cons, takenBy_cons] at this ⊢
    exact this
  taken := by
    have := h.taken
    rw [takenBy_cons] at this ⊢
    exact this
  tagged := h.tagged
  account := by
    have := h.account
    simp only [carriedBy_cons, Pc.carried, zero_add, Multiset.map_cons] at this ⊢
    rw [this]
    simp only [packets, ← Multiset.singleton_add]
    abel
  distinct := h.distinct
  ready := fun q hq => by
    rw [Multiset.map_cons]
    exact Multiset.mem_cons_of_mem (h.ready q hq)
  full := fun r hr => by
    have hloaded : rear ≤ s.dQueueRear := h.ok _ (Multiset.mem_cons_self _ _)
    have hroom := h.room
    have hrange := h.range
    rcases Multiset.mem_cons.mp hr with rfl | hr
    · -- the queue has at least what the call saw, and no more than its size
      rw [unsignedDistance_eq hclean (by omega)] at hfull
      show s.dQueueRear - s.dQueueFront = mQueueSize
      omega
    · exact h.full r hr
  watched := fun hlt => (h.watched hlt).mono rfl (fun hd => hd.elim)

theorem Inv.claim {p : Nat} (h : Inv s (.enqueueClaim p s.dQueueRear ::ₘ others))
    (hclean : Watched s others) (hrange : s.dQueueRear + 1 < 2 ^ 31) :
    Inv { s with dQueueRear := s.dQueueRear + 1 } (.enqueueStore p s.dQueueRear ::ₘ others) where
  order := Nat.le_succ_of_le h.order
  room := (h.ok _ (Multiset.mem_cons_self _ _)).2
  range := hrange
  ok := h.others_ok (Nat.le_succ _) (le_refl _) (fun _ hr => hr) rfl rfl trivial
  balance := by
    have := h.balance
    simp only [storedBy_cons, takenBy_cons, Pc.storing, Pc.taking, zero_add] at this ⊢
    rw [between_push h.order, add_assoc, Multiset.add_cons, ← this, Multiset.singleton_add]
    rfl
  taken := by
    have := h.taken
    rw [takenBy_cons] at this ⊢
    exact this
  tagged := h.tagged
  account := by
    have := h.account
    rw [carriedBy_cons] at this ⊢
    exact this
  distinct := h.distinct
  ready := h.ready
  full := h.full
  watched := fun _ => hclean.cons

theorem positions_store {p i : Nat} (hfree : s.dPacketQueue (slot i) = none) :
    positions { s.writeSlot i (some p) with tag := Function.update s.tag (slot i) i } =
      i ::ₘ positions s := by
  unfold positions
  rw [← bag_write (slot_lt i) (by simp [hfree]) i]
  refine bag_congr fun k _ => ?_
  by_cases hk : k = slot i
  · simp [hk, Transmitter.writeSlot]
  · simp [hk, Transmitter.writeSlot]

theorem Inv.store {p i : Nat} (h : Inv s (.enqueueStore p i ::ₘ others))
    (hclean : s.dPacketQueue (slot i) = none) :
    Inv { s.writeSlot i (some p) with tag := Function.update s.tag (slot i) i }
      (.done ::ₘ others) where
  order := h.order
  room := h.room
  range := h.range
  ok := fun e he => by
    rcases Multiset.mem_cons.mp he with rfl | he
    · trivial
    · refine (h.ok e (Multiset.mem_cons_of_mem he)).mono (le_refl _) (le_refl _)
        (fun _ hr => hr) fun j _ q hq => ?_
      have hne : slot j ≠ slot i := by
        intro heq
        rw [Holds, heq, hclean] at hq
        simp at hq
      simpa [Holds, Transmitter.writeSlot, hne] using hq
  balance := by
    have := h.balance
    simp only [storedBy_cons, takenBy_cons, Pc.storing, Pc.taking, zero_add] at this ⊢
    rw [positions_store hclean, Multiset.add_cons, ← Multiset.singleton_add, ← add_assoc]
    exact this
  taken := by
    have := h.taken
    rw [takenBy_cons] at this ⊢
    exact this
  tagged := fun k q hk => by
    by_cases hki : k = slot i
    · simp [hki]
    · simp only [Transmitter.writeSlot, Function.update_of_ne hki] at hk ⊢
      exact h.tagged k q hk
  account := by
    have := h.account
    have hpkt : packets { s.writeSlot i (some p) with tag := Function.update s.tag (slot i) i } =
        p ::ₘ packets s := bag_write (slot_lt i) hclean p
    simp only [carriedBy_cons, Pc.carried, zero_add] at this ⊢
    rw [hpkt]
    apply this.trans
    simp only [Transmitter.writeSlot, ← Multiset.singleton_add]
    abel
  distinct := h.distinct
  ready := h.ready
  full := h.full
  watched := fun hlt => (h.watched hlt).mono rfl (fun hd => hd.elim)

theorem Inv.release {p : Nat} (h : Inv s (.release p ::ₘ others)) :
    Inv { s with ready := Function.update s.ready p false } (.done ::ₘ others) where
  order := h.order
  room := h.room
  range := h.range
  ok := h.others_ok (le_refl _) (le_refl _) (fun _ hr => hr) rfl rfl trivial
  balance := by
    have := h.balance
    rw [storedBy_cons, takenBy_cons] at this ⊢
    exact this
  taken := by
    have := h.taken
    rw [takenBy_cons] at this ⊢
    exact this
  tagged := h.tagged
  account := by
    have := h.account
    rw [carriedBy_cons] at this ⊢
    exact this
  distinct := h.distinct
  ready := fun q hq => by
    by_cases hqp : q = p
    · subst hqp
      exact h.ok _ (Multiset.mem_cons_self _ _)
    · exact h.ready q (by simpa [hqp] using hq)
  full := h.full
  watched := fun hlt => (h.watched hlt).mono rfl (fun hd => hd.elim)

theorem Inv.transmitComplete (h : Inv s (.transmitComplete ::ₘ others)) :
    Inv { s with mTxMachineState := .ready } (.dequeueRear ::ₘ others) where
  order := h.order
  room := h.room
  range := h.range
  ok := h.others_ok (le_refl _) (le_refl _) (fun _ hr => hr) rfl rfl trivial
  balance := by
    have := h.balance
    rw [storedBy_cons, takenBy_cons] at this ⊢
    exact this
  taken := by
    have := h.taken
    rw [takenBy_cons] at this ⊢
    exact this
  tagged := h.tagged
  account := by
    have := h.account
    rw [carriedBy_cons] at this ⊢
    exact this
  distinct := h.distinct
  ready := h.ready
  full := h.full
  watched := fun _ => .of_drains trivial

theorem Inv.take (h : Inv s (.dequeueClaim s.dQueueFront ::ₘ others)) :
    Inv { s with dQueueFront := s.dQueueFront + 1 } (.dequeueTest s.dQueueFront ::ₘ others) where
  order := h.ok _ (Multiset.mem_cons_self _ _)
  room := by
    have := h.room
    show s.dQueueRear ≤ s.dQueueFront + 1 + mQueueSize
    omega
  range := h.range
  ok := h.others_ok (le_refl _) (Nat.le_succ _) (fun _ hr => hr) rfl rfl trivial
  balance := by
    have hlt : s.dQueueFront < s.dQueueRear := h.ok _ (Multiset.mem_cons_self _ _)
    have := h.balance
    simp only [storedBy_cons, takenBy_cons, Pc.storing, Pc.taking, zero_add] at this ⊢
    rw [between_pop hlt] at this
    apply this.trans
    rw [Multiset.add_cons, ← Multiset.singleton_add, add_assoc]
  taken := by
    obtain ⟨hnodup, hlow⟩ := h.taken
    simp only [takenBy_cons, Pc.taking, zero_add] at hnodup hlow
    rw [takenBy_cons]
    refine ⟨Multiset.nodup_cons.mpr ⟨fun hi => Nat.lt_irrefl _ (hlow _ hi), hnodup⟩, fun i hi => ?_⟩
    rcases Multiset.mem_cons.mp hi with rfl | hi
    · exact Nat.lt_succ_self _
    · exact Nat.lt_succ_of_lt (hlow i hi)
  tagged := h.tagged
  account := by
    have := h.account
    rw [carriedBy_cons] at this ⊢
    exact this
  distinct := h.distinct
  ready := h.ready
  full := h.full
  watched := fun _ => .of_drains trivial

theorem Inv.holds {i : Nat} (h : Inv s (.dequeueTest i ::ₘ others))
    (hclean : ∀ p, .enqueueStore p i ∉ others) : ∃ p, Holds s i p := by
  have hi : i ∈ storedBy (.dequeueTest i ::ₘ others) + positions s := by
    rw [h.balance, takenBy_cons]
    have hself : i ∈ ({i} : Multiset Nat) := Multiset.mem_singleton_self i
    exact Multiset.mem_add.mpr (Or.inl (Multiset.mem_add.mpr (Or.inl hself)))
  rcases Multiset.mem_add.mp hi with hstoring | hpos
  · obtain ⟨c, hc, hci⟩ := Multiset.mem_bind.mp hstoring
    cases c with
    | enqueueStore p j =>
      obtain rfl := Multiset.mem_singleton.mp hci
      rcases Multiset.mem_cons.mp hc with hc | hc
      · simp at hc
      · exact absurd hc (hclean p)
    | _ => exact absurd hci (Multiset.notMem_zero i)
  · obtain ⟨k, _, hk⟩ := mem_bag.mp hpos
    obtain ⟨p, hp, htag⟩ := Option.map_eq_some_iff.mp hk
    have hslot : slot i = k := htag ▸ h.tagged k p hp
    exact ⟨p, hslot ▸ hp, hslot ▸ htag⟩

theorem Inv.count_le {calls : Multiset Pc} (h : Inv s calls) (p : Nat) :
    s.handed.count p = s.started.count p + (s.refused.map Prod.fst).count p +
      (packets s).count p + (carriedBy calls).count p ∧ s.handed.count p ≤ 1 := by
  refine ⟨?_, Multiset.nodup_iff_count_le_one.mp h.distinct p⟩
  rw [h.account, Multiset.count_add, Multiset.count_add, Multiset.count_add]

theorem Inv.queued_ready {calls : Multiset Pc} {i p : Nat} (h : Inv s calls) (hp : Holds s i p) :
    s.ready p = true := by
  by_contra hready
  have hrefused := Multiset.one_le_count_iff_mem.mpr (h.ready p (by simpa using hready))
  have hqueued : 1 ≤ (packets s).count p :=
    Multiset.one_le_count_iff_mem.mpr (mem_bag.mpr ⟨slot i, slot_lt i, hp.1⟩)
  have hcount := h.count_le p
  omega

theorem Inv.clear {i p : Nat} (h : Inv s (.dequeueClear i (some p) ::ₘ others)) :
    Inv (s.writeSlot i none) (.transmitStart p true ::ₘ others) := by
  obtain ⟨q, hq, hslot, htag⟩ := h.ok _ (Multiset.mem_cons_self _ _)
  obtain rfl := Option.some.inj hq
  have hpkt : packets s = p ::ₘ packets (s.writeSlot i none) := bag_clear (slot_lt i) hslot
  have hpos : positions s = i ::ₘ positions (s.writeSlot i none) := by
    unfold positions
    rw [bag_clear (q := fun k => (s.dPacketQueue k).map fun _ => s.tag k) (a := i) (slot_lt i)
      (by simp [hslot, htag])]
    refine congrArg (i ::ₘ ·) (bag_congr fun k _ => ?_)
    by_cases hk : k = slot i
    · simp [hk, Transmitter.writeSlot]
    · simp [hk, Transmitter.writeSlot]
  obtain ⟨hnodup, hlow⟩ := h.taken
  simp only [takenBy_cons, Pc.taking] at hnodup hlow
  obtain ⟨hnotin, hnodup⟩ := Multiset.nodup_cons.mp hnodup
  refine ⟨h.order, h.room, h.range, ?_, ?_, ?_, ?_, ?_, h.distinct, h.ready, h.full, ?_⟩
  · intro e he
    rcases Multiset.mem_cons.mp he with rfl | he
    · trivial
    · refine (h.ok e (Multiset.mem_cons_of_mem he)).mono (le_refl _) (le_refl _)
        (fun _ hr => hr) fun j hj r hr => ?_
      -- no other call is taking position `i`
      have hne : slot j ≠ slot i := by
        intro heq
        obtain rfl : j = i := by rw [← hr.2, heq, htag]
        exact hnotin (Multiset.mem_bind.mpr ⟨e, he, hj⟩)
      simpa [Holds, Transmitter.writeSlot, hne] using hr
  · have := h.balance
    simp only [storedBy_cons, takenBy_cons, Pc.storing, Pc.taking, zero_add] at this ⊢
    rw [hpos, Multiset.add_cons, Multiset.singleton_add, Multiset.cons_add] at this
    exact (Multiset.cons_inj_right i).mp this
  · rw [takenBy_cons]
    simp only [Pc.taking, zero_add]
    exact ⟨hnodup, fun j hj => hlow j (Multiset.mem_add.mpr (Or.inr hj))⟩
  · intro k r hk
    by_cases hki : k = slot i
    · simp [hki, Transmitter.writeSlot] at hk
    · simp only [Transmitter.writeSlot, Function.update_of_ne hki] at hk ⊢
      exact h.tagged k r hk
  · have := h.account
    simp only [carriedBy_cons, Pc.carried, zero_add] at this ⊢
    rw [hpkt] at this
    apply this.trans
    simp only [Transmitter.writeSlot, ← Multiset.singleton_add]
    abel
  · exact fun _ => .of_drains rfl

theorem Inv.move (h : Inv s (c ::ₘ others)) (hclean : Clean s others c)
    (hmove : s.move c = some (t, d)) : Inv t (d ::ₘ others) := by
  cases c with
  | sendFrom p =>
    simp only [Transmitter.move, Option.some.injEq, Prod.mk.injEq] at hmove
    obtain ⟨rfl, rfl⟩ := hmove
    split
    · exact h.advance rfl rfl rfl trivial fun hlt => (h.watched hlt).mono rfl (fun hd => hd.elim)
    · exact h.advance rfl rfl rfl trivial fun hlt => (h.watched hlt).mono rfl (fun hd => hd.elim)
  | transmitStart p completing =>
    simp only [Transmitter.move] at hmove
    split at hmove
    · obtain ⟨rfl, rfl⟩ := Prod.mk.inj (Option.some.inj hmove)
      exact h.transmitStart
    · rename_i hstate
      obtain ⟨rfl, rfl⟩ := Prod.mk.inj (Option.some.inj hmove)
      refine h.advance rfl rfl rfl trivial fun _ => Or.inl ?_
      cases hs : s.mTxMachineState with
      | ready => exact absurd hs hstate
      | busy => rfl
  | enqueueRear p =>
    obtain ⟨rfl, rfl⟩ := Prod.mk.inj (Option.some.inj hmove)
    exact h.advance rfl rfl rfl (le_refl _)
      fun hlt => (h.watched hlt).mono rfl (fun hd => hd.elim)
  | enqueueFront p rear =>
    simp only [Transmitter.move] at hmove
    split at hmove
    · rename_i hfull
      obtain ⟨rfl, rfl⟩ := Prod.mk.inj (Option.some.inj hmove)
      exact h.refuse hclean hfull
    · rename_i hroom
      obtain ⟨rfl, rfl⟩ := Prod.mk.inj (Option.some.inj hmove)
      have hloaded : rear ≤ s.dQueueRear := h.ok _ (Multiset.mem_cons_self _ _)
      have hrange := h.range
      have hfront : s.dQueueFront ≤ rear := hclean
      rw [unsignedDistance_eq hfront (by omega)] at hroom
      exact h.advance rfl rfl rfl ⟨hloaded, by omega⟩
        fun hlt => (h.watched hlt).mono rfl (fun hd => hd.elim)
  | enqueueClaim p rear =>
    simp only [Transmitter.move] at hmove
    split at hmove
    · rename_i hrear
      subst hrear
      split at hmove
      · rename_i hrange
        obtain ⟨rfl, rfl⟩ := Prod.mk.inj (Option.some.inj hmove)
        exact h.claim (hclean rfl) hrange
      · simp at hmove
    · obtain ⟨rfl, rfl⟩ := Prod.mk.inj (Option.some.inj hmove)
      exact h.advance rfl rfl rfl trivial
        fun hlt => (h.watched hlt).mono rfl (fun hd => hd.elim)
  | enqueueStore p i =>
    obtain ⟨rfl, rfl⟩ := Prod.mk.inj (Option.some.inj hmove)
    exact h.store hclean
  | release p =>
    obtain ⟨rfl, rfl⟩ := Prod.mk.inj (Option.some.inj hmove)
    exact h.release
  | transmitComplete =>
    simp only [Transmitter.move] at hmove
    split at hmove
    · obtain ⟨rfl, rfl⟩ := Prod.mk.inj (Option.some.inj hmove)
      exact h.transmitComplete
    · obtain ⟨rfl, rfl⟩ := Prod.mk.inj (Option.some.inj hmove)
      exact h.advance rfl rfl rfl trivial
        fun hlt => (h.watched hlt).mono rfl (fun hd => hd.elim)
  | dequeueRear =>
    obtain ⟨rfl, rfl⟩ := Prod.mk.inj (Option.some.inj hmove)
    exact h.advance rfl rfl rfl (le_refl _) fun _ => .of_drains trivial
  | dequeueFront rear =>
    simp only [Transmitter.move] at hmove
    split at hmove
    · rename_i hempty
      obtain ⟨rfl, rfl⟩ := Prod.mk.inj (Option.some.inj hmove)
      exact h.advance rfl rfl rfl trivial fun hlt => (hclean hempty hlt).cons
    · rename_i hfull
      obtain ⟨rfl, rfl⟩ := Prod.mk.inj (Option.some.inj hmove)
      have hloaded : rear ≤ s.dQueueRear := h.ok _ (Multiset.mem_cons_self _ _)
      exact h.advance rfl rfl rfl (show s.dQueueFront < s.dQueueRear by omega)
        fun _ => .of_drains trivial
  | dequeueClaim front =>
    simp only [Transmitter.move] at hmove
    split at hmove
    · rename_i hfront
      subst hfront
      obtain ⟨rfl, rfl⟩ := Prod.mk.inj (Option.some.inj hmove)
      exact h.take
    · obtain ⟨rfl, rfl⟩ := Prod.mk.inj (Option.some.inj hmove)
      exact h.advance rfl rfl rfl trivial fun _ => .of_drains trivial
  | dequeueTest i =>
    obtain ⟨p, hp⟩ := h.holds hclean
    obtain ⟨rfl, rfl⟩ := Prod.mk.inj (Option.some.inj hmove)
    rw [hp.1]
    exact h.advance rfl rfl rfl ⟨p, hp⟩ fun _ => .of_drains trivial
  | dequeuePointer i =>
    obtain ⟨p, hp⟩ := h.ok _ (Multiset.mem_cons_self _ _)
    simp only [Transmitter.move, hp.1, Option.map_some] at hmove
    obtain ⟨rfl, rfl⟩ := Prod.mk.inj (Option.some.inj hmove)
    exact h.advance rfl rfl rfl hp fun _ => .of_drains trivial
  | dequeueReady i p =>
    have hp : Holds s i p := h.ok _ (Multiset.mem_cons_self _ _)
    obtain ⟨rfl, rfl⟩ := Prod.mk.inj (Option.some.inj hmove)
    rw [h.queued_ready hp]
    exact h.advance rfl rfl rfl ⟨p, hp⟩ fun _ => .of_drains trivial
  | dequeueLoad i =>
    obtain ⟨p, hp⟩ := h.ok _ (Multiset.mem_cons_self _ _)
    obtain ⟨rfl, rfl⟩ := Prod.mk.inj (Option.some.inj hmove)
    exact h.advance rfl rfl rfl ⟨p, hp.1, hp⟩ fun _ => .of_drains trivial
  | dequeueClear i packet =>
    cases packet with
    | none =>
      obtain ⟨p, hp, _⟩ := h.ok _ (Multiset.mem_cons_self _ _)
      simp at hp
    | some p =>
      obtain ⟨rfl, rfl⟩ := Prod.mk.inj (Option.some.inj hmove)
      exact h.clear
  | done => simp [Transmitter.move] at hmove

end Steps

section Runs
variable {s : Transmitter} {calls : Multiset Pc}

theorem Inv.call (h : Inv s calls) {c : Pc} {p : Multiset Nat} (hcarried : c.carried = p)
    (hstoring : c.storing = 0) (htaking : c.taking = 0)
    (hok : c.Ok { s with handed := p + s.handed }) (hfresh : (p + s.handed).Nodup) :
    Inv { s with handed := p + s.handed } (c ::ₘ calls) where
  order := h.order
  room := h.room
  range := h.range
  ok := fun e he => by
    rcases Multiset.mem_cons.mp he with rfl | he
    · exact hok
    · exact (h.ok e he).mono (le_refl _) (le_refl _) (fun _ hr => hr) fun _ _ _ hp => hp
  balance := by
    rw [storedBy_cons, takenBy_cons, hstoring, htaking, zero_add, zero_add]
    exact h.balance
  taken := by
    rw [takenBy_cons, htaking, zero_add]
    exact h.taken
  tagged := h.tagged
  account := by
    rw [carriedBy_cons, hcarried]
    apply (congrArg (p + ·) h.account).trans
    exact add_left_comm _ _ _
  distinct := hfresh
  ready := h.ready
  full := h.full
  watched := fun hlt => (h.watched hlt).cons

theorem Inv.step {x y : System} (h : Inv x.device x.calls) (hstep : CleanStep x y) :
    Inv y.device y.calls := by
  cases hstep with
  | @sendFrom s calls p hp =>
    have hfresh : ({p} + s.handed).Nodup := Multiset.nodup_cons.mpr ⟨hp, h.distinct⟩
    exact h.call (c := .sendFrom p) rfl rfl rfl trivial hfresh
  | @transmitComplete s calls =>
    have hnone : ((0 : Multiset Nat) + s.handed).Nodup := by
      rw [zero_add]
      exact h.distinct
    have hcall := h.call (c := .transmitComplete) (p := 0) rfl rfl rfl trivial hnone
    rwa [zero_add] at hcall
  | move hclean hmove => exact h.move hclean hmove

theorem Inv.in_queue_iff (h : Inv s calls) (hquiet : ∀ c ∈ calls, c = .done) (p : Nat) :
    Queued s p ↔ p ∈ packets s := by
  have hnone {f : Pc → Multiset Nat} (hf : f .done = 0) : calls.bind f = 0 := by
    refine Multiset.eq_zero_of_forall_notMem fun i hi => ?_
    obtain ⟨c, hc, hci⟩ := Multiset.mem_bind.mp hi
    rw [hquiet c hc, hf] at hci
    exact Multiset.notMem_zero i hci
  have hbalance := h.balance
  rw [storedBy, takenBy, hnone rfl, hnone rfl, zero_add, zero_add] at hbalance
  constructor
  · rintro ⟨i, _, _, hp⟩
    exact mem_bag.mpr ⟨slot i, slot_lt i, hp⟩
  · intro hp
    obtain ⟨k, hk, hkp⟩ := mem_bag.mp hp
    have hpos : s.tag k ∈ positions s := mem_bag.mpr ⟨k, hk, by simp [hkp]⟩
    rw [hbalance] at hpos
    obtain ⟨hfront, hrear⟩ := mem_between.mp hpos
    exact ⟨s.tag k, hfront, hrear, by rw [h.tagged k p hkp, hkp]⟩

theorem Inv.settled (h : Inv s calls) (hquiet : ∀ c ∈ calls, c = .done) : Settled s := by
  have hcarried : carriedBy calls = 0 := by
    refine Multiset.eq_zero_of_forall_notMem fun i hi => ?_
    obtain ⟨c, hc, hci⟩ := Multiset.mem_bind.mp hi
    rw [hquiet c hc] at hci
    exact Multiset.notMem_zero i hci
  refine ⟨fun p hp => ?_, fun hlt => ?_⟩
  · obtain ⟨hcount, hle⟩ := h.count_le p
    have hone := Multiset.one_le_count_iff_mem.mpr hp
    rw [hcarried, Multiset.count_zero] at hcount
    rw [h.in_queue_iff hquiet]
    simp only [← Multiset.one_le_count_iff_mem]
    by_cases hrefused : p ∈ s.refused.map Prod.fst
    · obtain ⟨⟨p', n⟩, hr, rfl⟩ := Multiset.mem_map.mp hrefused
      obtain rfl : n = mQueueSize := h.full _ hr
      have := Multiset.one_le_count_iff_mem.mpr hrefused
      exact Or.inr (Or.inl ⟨by omega, Multiset.one_le_count_iff_mem.mpr hr, by omega⟩)
    · have := Multiset.count_eq_zero.mpr hrefused
      omega
  · rcases h.watched hlt with hbusy | ⟨c, hc, hdrains⟩
    · exact hbusy
    · rw [hquiet c hc] at hdrains
      exact hdrains.elim

end Runs

/-- From an idle device, as long as no step runs into one of the races, every packet is
accounted for and a queue that is not empty is being drained whenever no call is in
progress. -/
theorem settled_of_clean {x : System} (h : Relation.ReflTransGen CleanStep ⟨.idle, 0⟩ x)
    (hquiet : ∀ c ∈ x.calls, c = .done) : Settled x.device := by
  have hinv : Inv x.device x.calls :=
    run_invariant (P := fun y => Inv y.device y.calls) (fun _ _ hy hstep => hy.step hstep)
      Inv.idle h
  exact hinv.settled hquiet

/-- Two sends in turn: the first is started, the second is queued behind it. -/
theorem settled_two_sends : ∃ x, Relation.ReflTransGen CleanStep ⟨.idle, 0⟩ x ∧
    x.device.started = {1} ∧ Queued x.device 2 ∧ Settled x.device := by
  have hrun : Relation.ReflTransGen CleanStep ⟨.idle, 0⟩ ⟨_, .sendFrom 1 ::ₘ 0⟩ :=
    .single (.sendFrom (Multiset.notMem_zero 1))
  have hrun := hrun.tail (.move trivial rfl)
  have hrun := hrun.tail (.move trivial rfl)
  have hrun := hrun.tail (.sendFrom (p := 2) (by simp [Transmitter.idle]))
  have hrun := hrun.tail (.move trivial rfl)
  have hrun := hrun.tail (.move trivial rfl)
  have hrun := hrun.tail (.move (le_refl _) rfl)
  have hrun := hrun.tail (.move (fun _ => Or.inl rfl) rfl)
  have hrun := hrun.tail (.move rfl rfl)
  refine ⟨_, hrun, rfl, ⟨0, le_refl _, Nat.zero_lt_one, rfl⟩, settled_of_clean hrun ?_⟩
  simp

/-- The second send finds the transmitter busy; before it has queued its packet the
transmission completes and the queue is found empty. -/
theorem packet_stranded : ∃ x, Relation.ReflTransGen AnyStep ⟨.idle, 0⟩ x ∧
    (∀ c ∈ x.calls, c = .done) ∧ ¬Settled x.device := by
  have hrun : Relation.ReflTransGen AnyStep ⟨.idle, 0⟩ ⟨_, .sendFrom 1 ::ₘ 0⟩ :=
    .single (.sendFrom (Multiset.notMem_zero 1))
  have hrun := hrun.tail (.move trivial rfl)
  have hrun := hrun.tail (.move trivial rfl)
  have hrun := hrun.tail (.sendFrom (p := 2) (by simp [Transmitter.idle]))
  have hrun := hrun.tail (.move trivial rfl)
  have hrun := hrun.tail .transmitComplete
  have hrun := hrun.tail (.move trivial rfl)
  have hrun := hrun.tail (.move trivial rfl)
  have hrun := hrun.tail (.move trivial rfl)
  have hrun : Relation.ReflTransGen AnyStep ⟨.idle, 0⟩
      ⟨_, Pc.done ::ₘ Pc.enqueueRear 2 ::ₘ {Pc.done}⟩ := hrun
  rw [Multiset.cons_swap Pc.done (Pc.enqueueRear 2)] at hrun
  have hrun := hrun.tail (.move trivial rfl)
  have hrun := hrun.tail (.move trivial rfl)
  have hrun := hrun.tail (.move trivial rfl)
  have hrun := hrun.tail (.move trivial rfl)
  refine ⟨_, hrun, ?_, fun h => ?_⟩
  · simp
  · have hbusy := h.draining Nat.zero_lt_one
    cases hbusy

end CudaNs3.Device.TransmitRace
