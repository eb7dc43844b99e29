import CudaNs3.Device.PairList
import Mathlib.Algebra.BigOperators.Intervals
import Mathlib.Algebra.Order.BigOperators.Group.Finset

/-!
# Receive accounting under concurrent calls

`CudaSocket::ForwardPacket` with its `HandleRead` and `CudaRecv`, cut at the same accesses as the
delivery ring under it. A packet is published in the ring before its size is added to
`m_rxAvailable`, so that another call may pop it and subtract the size first.
-/

namespace CudaNs3.Device.SocketReceive

open Transition
set_option autoImplicit false

abbrev RingPc := PairList.Pc Nat UInt32

/-- The next shared access of a call. Packets are named by numbers; the places in the ring are not
the code's. -/
inductive Pc where
  | forwardPacket (p : Nat)
  | testBuffer (p : Nat)
  | adding (p : Nat) (pc : RingPc)
  | atomicAdd (p place : Nat)
  | emptyFront
  | emptyRear (front : Nat)
  | popping (pc : RingPc)
  | compare (p place : Nat)
  | atomicSub (p place : Nat)
  | received (p : Nat)
  | release (p : Nat)
  | returned

/-- The fields, and a record of the run: the places whose packets are counted in
`m_rxAvailable`, the packets refused for lack of buffer with the bytes queued then, and the
packets whose size was subtracted from less than it. -/
structure Socket where
  mDeliveryQueue : PairList.Ring Nat UInt32
  mRxAvailable : UInt32
  mRcvBufSize : UInt32
  mShutdownRecv : Bool
  mReceived : UInt64
  getSize : Nat → UInt32
  ready : Nat → Bool
  counted : Finset Nat
  refused : List (Nat × Nat)
  borrows : List Nat

structure System where
  socket : Socket
  calls : Multiset Pc

namespace Socket

/-- A new socket with `CreateSocket`'s ring. -/
def new (rcvBufSize : UInt32) (shutdownRecv : Bool) (getSize : Nat → UInt32) : Socket where
  mDeliveryQueue := .new 1024
  mRxAvailable := 0
  mRcvBufSize := rcvBufSize
  mShutdownRecv := shutdownRecv
  mReceived := 0
  getSize := getSize
  ready := fun _ => true
  counted := ∅
  refused := []
  borrows := []

/-- The size of the packet placed at `i`. -/
def weight (s : Socket) (i : Nat) : Nat :=
  match s.mDeliveryQueue.placed[i]? with
  | none => 0
  | some pair => (s.getSize pair.first).toNat

/-- The bytes in the packets that are in `m_deliveryQueue`. -/
def queued (s : Socket) : Nat :=
  ∑ i ∈ Finset.Ico s.mDeliveryQueue.front s.mDeliveryQueue.rear, s.weight i

/-- One access of the ring on behalf of a call. -/
def ringMove (s : Socket) (pc : RingPc) (next : RingPc → Pc) : Option (Socket × Pc) :=
  (s.mDeliveryQueue.move pc).map fun r => ({ s with mDeliveryQueue := r.1 }, next r.2)

/-- One step of a call; none when it has returned. -/
def move (s : Socket) : Pc → Option (Socket × Pc)
  | .forwardPacket p => some (s, if s.mShutdownRecv then .returned else .testBuffer p)
  | .testBuffer p =>
    if s.mRxAvailable + s.getSize p ≤ s.mRcvBufSize then some (s, .adding p (.add ⟨p, 0⟩))
    else some ({ s with refused := s.refused ++ [(p, s.queued)] }, .returned)
  | .adding p pc =>
    match pc with
    | .added none => some (s, .release p)
    | .added (some i) => some (s, .atomicAdd p i)
    | pc => s.ringMove pc (.adding p)
  | .atomicAdd p i =>
    some ({ s with
      mRxAvailable := s.mRxAvailable + s.getSize p
      counted := insert i s.counted }, .emptyFront)
  | .emptyFront => some (s, .emptyRear s.mDeliveryQueue.front)
  | .emptyRear front =>
    some (s, if PairList.counter front = PairList.counter s.mDeliveryQueue.rear then .returned
      else .popping .popRear)
  | .popping pc =>
    match pc with
    | .popped none => some (s, .returned)
    | .popped (some (_, none, _)) => some (s, .returned)
    | .popped (some (i, some p, _)) => some (s, .compare p i)
    | pc => s.ringMove pc .popping
  | .compare p i => some (s, if s.getSize p < 0xFFFFFFFF then .atomicSub p i else .returned)
  | .atomicSub p i =>
    some ({ s with
      mRxAvailable := s.mRxAvailable - s.getSize p
      counted := s.counted.erase i
      borrows := if s.mRxAvailable < s.getSize p then s.borrows ++ [p] else s.borrows },
      .received p)
  | .received p =>
    some ({ s with mReceived := if 0 < s.getSize p then s.mReceived + 1 else s.mReceived },
      .release p)
  | .release p => some ({ s with ready := Function.update s.ready p false }, .returned)
  | .returned => none

end Socket

/-- The call on the ring that is in progress, or one that has returned. -/
def Pc.ring : Pc → RingPc
  | .adding _ pc | .popping pc => pc
  | _ => .added none

/-- The place a call on the ring has got for its pair. -/
def owing : RingPc → Multiset Nat
  | .addFirst _ i | .addSecond _ i | .added (some i) => {i}
  | _ => 0

/-- The place a call on the ring has taken. -/
def drawing : RingPc → Multiset Nat
  | .popFirst i | .popSecond i _ | .popped (some (i, _, _)) => {i}
  | _ => 0

namespace Pc

/-- The place whose packet a call has published and not yet counted. -/
def uncounted (c : Pc) : Multiset Nat :=
  owing c.ring + match c with
    | .atomicAdd _ i => {i}
    | _ => 0

/-- The place whose packet a call has taken and not yet subtracted. -/
def draining (c : Pc) : Multiset Nat :=
  drawing c.ring + match c with
    | .compare _ i | .atomicSub _ i => {i}
    | _ => 0

end Pc

/-- The step of `c` does not run into one of the races of this code, given the other calls: those
of the ring; no packet is refused while a popped packet is still counted; the sum does not wrap; a
packet has a size that is subtracted, and has been counted before it is. -/
def Clean (s : Socket) (others : Multiset Pc) : Pc → Prop
  | .testBuffer p => s.mRcvBufSize < s.mRxAvailable + s.getSize p →
      ∀ c ∈ others, ∀ i ∈ c.draining, i ∉ s.counted
  | .adding _ pc | .popping pc => PairList.Clean s.mDeliveryQueue (others.map Pc.ring) pc
  | .atomicAdd p _ => s.mRxAvailable.toNat + (s.getSize p).toNat < 2 ^ 32
  | .compare p _ => s.getSize p < 0xFFFFFFFF
  | .atomicSub _ i => ∀ c ∈ others, i ∉ c.uncounted
  | _ => True

/-- Any number of `ForwardPacket` calls at any moments, whose steps are all allowed. -/
inductive Step (Allowed : Socket → Multiset Pc → Pc → Prop) : System → System → Prop where
  | call {s : Socket} {calls : Multiset Pc} (p : Nat) :
      Step Allowed ⟨s, calls⟩ ⟨s, .forwardPacket p ::ₘ calls⟩
  | move {s t : Socket} {c d : Pc} {others : Multiset Pc} : Allowed s others c →
      s.move c = some (t, d) → Step Allowed ⟨s, c ::ₘ others⟩ ⟨t, d ::ₘ others⟩

abbrev AnyStep : System → System → Prop := Step fun _ _ _ => True

abbrev CleanStep : System → System → Prop := Step Clean

/-- `m_rxAvailable` has never wrapped below zero, is what the queue holds once no call is in
progress, and no packet was refused that would have fitted. -/
structure Accounted (s : Socket) (calls : Multiset Pc) : Prop where
  never : s.borrows = []
  equal : (∀ c ∈ calls, c = .returned) → s.mRxAvailable.toNat = s.queued
  refused : ∀ r ∈ s.refused, s.mRcvBufSize.toNat < r.2 + (s.getSize r.1).toNat

/-- What a call on the ring knows of the packet it adds, or of the pair it returns. -/
def Carries (r : PairList.Ring Nat UInt32) (p : Nat) : RingPc → Prop
  | .add pair | .addRear pair | .addFront pair _ | .addClaim pair _ | .addFirst pair _
  | .addSecond pair _ => pair.first = p
  | .added (some i) => ∃ pair, r.placed[i]? = some pair ∧ pair.first = p
  | _ => True

def Yields (r : PairList.Ring Nat UInt32) : RingPc → Prop
  | .popped (some (i, x, _)) => ∃ pair, r.placed[i]? = some pair ∧ x = some pair.first
  | _ => True

/-- What a call can rely on at its next access. -/
def Pc.Ok (s : Socket) : Pc → Prop
  | .adding p pc => Carries s.mDeliveryQueue p pc
  | .popping pc => Yields s.mDeliveryQueue pc
  | .atomicAdd p i | .compare p i | .atomicSub p i =>
    ∃ pair, s.mDeliveryQueue.placed[i]? = some pair ∧ pair.first = p
  | _ => True

def uncountedBy (calls : Multiset Pc) : Multiset Nat := calls.bind Pc.uncounted
def drainingBy (calls : Multiset Pc) : Multiset Nat := calls.bind Pc.draining

theorem uncountedBy_cons (c : Pc) (calls : Multiset Pc) :
    uncountedBy (c ::ₘ calls) = c.uncounted + uncountedBy calls := Multiset.cons_bind _ _ _

theorem drainingBy_cons (c : Pc) (calls : Multiset Pc) :
    drainingBy (c ::ₘ calls) = c.draining + drainingBy calls := Multiset.cons_bind _ _ _

section Ring
variable {s t : PairList.Ring Nat UInt32} {pc pc' : RingPc}

/-- The places a step of the ring hands out: none, the next `rear`, or the next `front`. -/
theorem ring_places (h : s.move pc = some (t, pc')) :
    (t.rear = s.rear ∧ t.front = s.front ∧ t.placed = s.placed ∧ owing pc' = owing pc ∧
      drawing pc' = drawing pc) ∨
    (t.rear = s.rear + 1 ∧ t.front = s.front ∧ (∃ pair, t.placed = s.placed ++ [pair]) ∧
      owing pc = 0 ∧ owing pc' = {s.rear} ∧ drawing pc' = drawing pc) ∨
    (t.rear = s.rear ∧ t.front = s.front + 1 ∧ t.placed = s.placed ∧ owing pc' = owing pc ∧
      drawing pc = 0 ∧ drawing pc' = {s.front}) := by
  cases pc with
  | add pair =>
    obtain ⟨rfl, rfl⟩ := Prod.mk.inj (Option.some.inj h)
    left
    split
    · exact ⟨rfl, rfl, rfl, rfl, rfl⟩
    · exact ⟨rfl, rfl, rfl, rfl, rfl⟩
  | addFront pair rear =>
    obtain ⟨rfl, rfl⟩ := Prod.mk.inj (Option.some.inj h)
    left
    split
    · exact ⟨rfl, rfl, rfl, rfl, rfl⟩
    · exact ⟨rfl, rfl, rfl, rfl, rfl⟩
  | addClaim pair rear =>
    simp only [PairList.Ring.move] at h
    split at h
    · obtain ⟨rfl, rfl⟩ := Prod.mk.inj (Option.some.inj h)
      exact Or.inr (Or.inl ⟨rfl, rfl, ⟨pair, rfl⟩, rfl, rfl, rfl⟩)
    · obtain ⟨rfl, rfl⟩ := Prod.mk.inj (Option.some.inj h)
      exact Or.inl ⟨rfl, rfl, rfl, rfl, rfl⟩
  | popFront rear =>
    obtain ⟨rfl, rfl⟩ := Prod.mk.inj (Option.some.inj h)
    left
    split
    · exact ⟨rfl, rfl, rfl, rfl, rfl⟩
    · exact ⟨rfl, rfl, rfl, rfl, rfl⟩
  | popClaim rear front =>
    simp only [PairList.Ring.move] at h
    split at h
    · obtain ⟨rfl, rfl⟩ := Prod.mk.inj (Option.some.inj h)
      exact Or.inr (Or.inr ⟨rfl, rfl, rfl, rfl, rfl, rfl⟩)
    · obtain ⟨rfl, rfl⟩ := Prod.mk.inj (Option.some.inj h)
      exact Or.inl ⟨rfl, rfl, rfl, rfl, rfl⟩
  | added place => cases h
  | popped pair => cases h
  | _ =>
    obtain ⟨rfl, rfl⟩ := Prod.mk.inj (Option.some.inj h)
    exact Or.inl ⟨rfl, rfl, rfl, rfl, rfl⟩

theorem ring_placed (h : s.move pc = some (t, pc')) (i : Nat)
    (pair : PairList.CudaPair Nat UInt32) (hp : s.placed[i]? = some pair) :
    t.placed[i]? = some pair := by
  rcases ring_places h with ⟨_, _, heq, _⟩ | ⟨_, _, ⟨new, heq⟩, _⟩ | ⟨_, _, heq, _⟩
  · rw [heq]
    exact hp
  · obtain ⟨hi, _⟩ := List.getElem?_eq_some_iff.mp hp
    rw [heq, List.getElem?_append_left hi]
    exact hp
  · rw [heq]
    exact hp

theorem Carries.move {p : Nat} (hok : pc.Ok s) (hc : Carries s p pc)
    (h : s.move pc = some (t, pc')) : Carries t p pc' := by
  cases pc with
  | add pair =>
    obtain ⟨rfl, rfl⟩ := Prod.mk.inj (Option.some.inj h)
    split
    · exact hc
    · trivial
  | addRear pair =>
    obtain ⟨rfl, rfl⟩ := Prod.mk.inj (Option.some.inj h)
    exact hc
  | addFront pair rear =>
    obtain ⟨rfl, rfl⟩ := Prod.mk.inj (Option.some.inj h)
    split
    · trivial
    · exact hc
  | addClaim pair rear =>
    simp only [PairList.Ring.move] at h
    split at h
    · obtain ⟨rfl, rfl⟩ := Prod.mk.inj (Option.some.inj h)
      exact hc
    · obtain ⟨rfl, rfl⟩ := Prod.mk.inj (Option.some.inj h)
      exact hc
  | addFirst pair i =>
    obtain ⟨rfl, rfl⟩ := Prod.mk.inj (Option.some.inj h)
    exact hc
  | addSecond pair i =>
    obtain ⟨rfl, rfl⟩ := Prod.mk.inj (Option.some.inj h)
    exact ⟨pair, hok, hc⟩
  | popFront rear =>
    obtain ⟨rfl, rfl⟩ := Prod.mk.inj (Option.some.inj h)
    split
    · trivial
    · trivial
  | popClaim rear front =>
    simp only [PairList.Ring.move] at h
    split at h
    · obtain ⟨rfl, rfl⟩ := Prod.mk.inj (Option.some.inj h)
      trivial
    · obtain ⟨rfl, rfl⟩ := Prod.mk.inj (Option.some.inj h)
      trivial
  | added place => cases h
  | popped pair => cases h
  | _ =>
    obtain ⟨rfl, rfl⟩ := Prod.mk.inj (Option.some.inj h)
    trivial

theorem Yields.move (hok : pc.Ok s) (h : s.move pc = some (t, pc')) : Yields t pc' := by
  cases pc with
  | add pair =>
    obtain ⟨rfl, rfl⟩ := Prod.mk.inj (Option.some.inj h)
    split
    · trivial
    · trivial
  | addFront pair rear =>
    obtain ⟨rfl, rfl⟩ := Prod.mk.inj (Option.some.inj h)
    split
    · trivial
    · trivial
  | addClaim pair rear =>
    simp only [PairList.Ring.move] at h
    split at h
    · obtain ⟨rfl, rfl⟩ := Prod.mk.inj (Option.some.inj h)
      trivial
    · obtain ⟨rfl, rfl⟩ := Prod.mk.inj (Option.some.inj h)
      trivial
  | popFront rear =>
    obtain ⟨rfl, rfl⟩ := Prod.mk.inj (Option.some.inj h)
    split
    · trivial
    · trivial
  | popClaim rear front =>
    simp only [PairList.Ring.move] at h
    split at h
    · obtain ⟨rfl, rfl⟩ := Prod.mk.inj (Option.some.inj h)
      trivial
    · obtain ⟨rfl, rfl⟩ := Prod.mk.inj (Option.some.inj h)
      trivial
  | popSecond i x =>
    obtain ⟨rfl, rfl⟩ := Prod.mk.inj (Option.some.inj h)
    exact hok
  | added place => cases h
  | popped pair => cases h
  | _ =>
    obtain ⟨rfl, rfl⟩ := Prod.mk.inj (Option.some.inj h)
    trivial

end Ring

/-- The books of the places: those whose packet is published and not yet counted, those taken and
not yet subtracted, and those counted. A place is counted from its `atomicAdd` until its
`atomicSub`, and is not subtracted before it is counted. -/
structure Books (front rear : Nat) (owed drained : Multiset Nat) (counted : Finset Nat) :
    Prop where
  owed_nodup : owed.Nodup
  owed_open : ∀ i ∈ owed, i < rear ∧ (front ≤ i ∨ i ∈ drained)
  drained_nodup : drained.Nodup
  drained_lt : ∀ i ∈ drained, i < front
  counted_iff : ∀ i, i ∈ counted ↔ i < rear ∧ i ∉ owed ∧ (front ≤ i ∨ i ∈ drained)

namespace Books
variable {front rear i : Nat} {owed drained : Multiset Nat} {counted : Finset Nat}

theorem new : Books 0 0 0 0 ∅ where
  owed_nodup := Multiset.nodup_zero
  owed_open := fun i hi => absurd hi (Multiset.notMem_zero i)
  drained_nodup := Multiset.nodup_zero
  drained_lt := fun i hi => absurd hi (Multiset.notMem_zero i)
  counted_iff := fun i => ⟨fun hi => absurd hi (Finset.notMem_empty i),
    fun hi => absurd hi.1 (Nat.not_lt_zero i)⟩

theorem claimRear (h : Books front rear owed drained counted) (hle : front ≤ rear) :
    Books front (rear + 1) (rear ::ₘ owed) drained counted where
  owed_nodup :=
    Multiset.nodup_cons.mpr ⟨fun hi => Nat.lt_irrefl _ (h.owed_open _ hi).1, h.owed_nodup⟩
  owed_open := fun i hi => by
    rcases Multiset.mem_cons.mp hi with rfl | hi
    · exact ⟨Nat.lt_succ_self _, Or.inl hle⟩
    · obtain ⟨hlt, hopen⟩ := h.owed_open i hi
      exact ⟨Nat.lt_succ_of_lt hlt, hopen⟩
  drained_nodup := h.drained_nodup
  drained_lt := h.drained_lt
  counted_iff := fun i => by
    rw [h.counted_iff, Multiset.mem_cons, not_or]
    constructor
    · rintro ⟨hlt, hnot, hopen⟩
      exact ⟨Nat.lt_succ_of_lt hlt, ⟨Nat.ne_of_lt hlt, hnot⟩, hopen⟩
    · rintro ⟨hlt, ⟨hne, hnot⟩, hopen⟩
      exact ⟨Nat.lt_of_le_of_ne (Nat.le_of_lt_succ hlt) hne, hnot, hopen⟩

theorem claimFront (h : Books front rear owed drained counted) :
    Books (front + 1) rear owed (front ::ₘ drained) counted := by
  have hopen (i : Nat) : front + 1 ≤ i ∨ i ∈ front ::ₘ drained ↔ front ≤ i ∨ i ∈ drained := by
    rw [Multiset.mem_cons]
    constructor
    · rintro (hle | rfl | hi)
      · exact Or.inl (Nat.le_of_succ_le hle)
      · exact Or.inl (le_refl _)
      · exact Or.inr hi
    · rintro (hle | hi)
      · rcases Nat.eq_or_lt_of_le hle with rfl | hlt
        · exact Or.inr (Or.inl rfl)
        · exact Or.inl hlt
      · exact Or.inr (Or.inr hi)
  refine ⟨h.owed_nodup, fun i hi => ?_, ?_, fun i hi => ?_, fun i => ?_⟩
  · rw [hopen]
    exact h.owed_open i hi
  · exact Multiset.nodup_cons.mpr
      ⟨fun hi => Nat.lt_irrefl _ (h.drained_lt _ hi), h.drained_nodup⟩
  · rcases Multiset.mem_cons.mp hi with rfl | hi
    · exact Nat.lt_succ_self _
    · exact Nat.lt_succ_of_lt (h.drained_lt i hi)
  · rw [hopen]
    exact h.counted_iff i

theorem count (h : Books front rear (i ::ₘ owed) drained counted) :
    i ∉ counted ∧ Books front rear owed drained (insert i counted) := by
  obtain ⟨hnot, hnodup⟩ := Multiset.nodup_cons.mp h.owed_nodup
  have hself := Multiset.mem_cons_self i owed
  refine ⟨fun hi => ((h.counted_iff i).mp hi).2.1 hself, hnodup, ?_, h.drained_nodup,
    h.drained_lt, fun j => ?_⟩
  · exact fun j hj => h.owed_open j (Multiset.mem_cons_of_mem hj)
  · rw [Finset.mem_insert, h.counted_iff, Multiset.mem_cons, not_or]
    constructor
    · rintro (rfl | ⟨hlt, ⟨_, hj⟩, hopen⟩)
      · obtain ⟨hlt, hopen⟩ := h.owed_open j hself
        exact ⟨hlt, hnot, hopen⟩
      · exact ⟨hlt, hj, hopen⟩
    · rintro ⟨hlt, hj, hopen⟩
      by_cases hji : j = i
      · exact Or.inl hji
      · exact Or.inr ⟨hlt, ⟨hji, hj⟩, hopen⟩

theorem uncount (h : Books front rear owed (i ::ₘ drained) counted) (hle : front ≤ rear)
    (howed : i ∉ owed) : i ∈ counted ∧ Books front rear owed drained (counted.erase i) := by
  obtain ⟨hnot, hnodup⟩ := Multiset.nodup_cons.mp h.drained_nodup
  have hself := Multiset.mem_cons_self i drained
  have hlt := h.drained_lt i hself
  have hopen {j : Nat} (hj : j ≠ i) :
      front ≤ j ∨ j ∈ i ::ₘ drained ↔ front ≤ j ∨ j ∈ drained := by
    rw [Multiset.mem_cons, or_iff_right hj]
  refine ⟨(h.counted_iff i).mpr ⟨hlt.trans_le hle, howed, Or.inr hself⟩, h.owed_nodup, ?_,
    hnodup, ?_, fun j => ?_⟩
  · intro j hj
    have hne : j ≠ i := fun heq => howed (heq ▸ hj)
    rw [← hopen hne]
    exact h.owed_open j hj
  · exact fun j hj => h.drained_lt j (Multiset.mem_cons_of_mem hj)
  · rw [Finset.mem_erase, h.counted_iff]
    constructor
    · rintro ⟨hne, hj, hjowed, hjopen⟩
      exact ⟨hj, hjowed, (hopen hne).mp hjopen⟩
    · rintro ⟨hj, hjowed, hjopen⟩
      have hne : j ≠ i := by
        rintro rfl
        rcases hjopen with hfront | hdrained
        · omega
        · exact hnot hdrained
      exact ⟨hne, hj, hjowed, (hopen hne).mpr hjopen⟩

/-- Where no taken place is counted, what is counted is queued. -/
theorem subset (h : Books front rear owed drained counted) (hnone : ∀ i ∈ drained, i ∉ counted) :
    counted ⊆ Finset.Ico front rear := by
  intro i hi
  obtain ⟨hlt, _, hfront | hdrained⟩ := (h.counted_iff i).mp hi
  · exact Finset.mem_Ico.mpr ⟨hfront, hlt⟩
  · exact absurd hi (hnone i hdrained)

theorem settled (h : Books front rear 0 0 counted) : counted = Finset.Ico front rear := by
  apply Finset.Subset.antisymm
  · exact h.subset fun i hi => absurd hi (Multiset.notMem_zero i)
  · intro i hi
    obtain ⟨hfront, hlt⟩ := Finset.mem_Ico.mp hi
    exact (h.counted_iff i).mpr ⟨hlt, Multiset.notMem_zero i, Or.inl hfront⟩

end Books

structure Inv (s : Socket) (calls : Multiset Pc) : Prop where
  ring : PairList.Inv s.mDeliveryQueue (calls.map Pc.ring)
  ok : ∀ c ∈ calls, c.Ok s
  books : Books s.mDeliveryQueue.front s.mDeliveryQueue.rear (uncountedBy calls)
    (drainingBy calls) s.counted
  available : s.mRxAvailable.toNat = ∑ i ∈ s.counted, s.weight i
  never : s.borrows = []
  refused : ∀ r ∈ s.refused, s.mRcvBufSize.toNat < r.2 + (s.getSize r.1).toNat

theorem weight_eq {s : Socket} {i p : Nat}
    (h : ∃ pair, s.mDeliveryQueue.placed[i]? = some pair ∧ pair.first = p) :
    s.weight i = (s.getSize p).toNat := by
  obtain ⟨pair, hpair, rfl⟩ := h
  simp [Socket.weight, hpair]

theorem Inv.new (rcvBufSize : UInt32) (shutdownRecv : Bool) (getSize : Nat → UInt32) :
    Inv (.new rcvBufSize shutdownRecv getSize) 0 where
  ring := PairList.Inv.new (k := 10) (by decide)
  ok := fun c hc => absurd hc (Multiset.notMem_zero c)
  books := Books.new
  available := rfl
  never := rfl
  refused := fun _ hr => absurd hr List.not_mem_nil

theorem Carries.mono {r r' : PairList.Ring Nat UInt32} {p : Nat} {pc : RingPc}
    (h : Carries r p pc) (hplaced : ∀ (i : Nat) pair, r.placed[i]? = some pair →
      r'.placed[i]? = some pair) : Carries r' p pc := by
  cases pc with
  | added place =>
    cases place with
    | none => trivial
    | some i =>
      obtain ⟨pair, hpair, hp⟩ := h
      exact ⟨pair, hplaced i pair hpair, hp⟩
  | _ => exact h

theorem Yields.mono {r r' : PairList.Ring Nat UInt32} {pc : RingPc} (h : Yields r pc)
    (hplaced : ∀ (i : Nat) pair, r.placed[i]? = some pair → r'.placed[i]? = some pair) :
    Yields r' pc := by
  cases pc with
  | popped result =>
    cases result with
    | none => trivial
    | some result =>
      obtain ⟨pair, hpair, hx⟩ := h
      exact ⟨pair, hplaced result.1 pair hpair, hx⟩
  | _ => exact h

/-- Pairs that have been placed stay where they are. -/
theorem Pc.Ok.mono {s : Socket} {r : PairList.Ring Nat UInt32} {c : Pc} (h : c.Ok s)
    (hplaced : ∀ (i : Nat) pair, s.mDeliveryQueue.placed[i]? = some pair →
      r.placed[i]? = some pair) : c.Ok { s with mDeliveryQueue := r } := by
  have hpair {p i : Nat}
      (h : ∃ pair, s.mDeliveryQueue.placed[i]? = some pair ∧ pair.first = p) :
      ∃ pair, r.placed[i]? = some pair ∧ pair.first = p := by
    obtain ⟨pair, hold, hp⟩ := h
    exact ⟨pair, hplaced i pair hold, hp⟩
  cases c with
  | adding p pc => exact Carries.mono h hplaced
  | popping pc => exact Yields.mono h hplaced
  | atomicAdd p i => exact hpair h
  | compare p i => exact hpair h
  | atomicSub p i => exact hpair h
  | _ => trivial

theorem move_adding {s t : Socket} {p : Nat} {pc : RingPc} {d : Pc}
    (h : s.move (.adding p pc) = some (t, d)) :
    (pc = .added none ∧ t = s ∧ d = .release p) ∨
    (∃ i, pc = .added (some i) ∧ t = s ∧ d = .atomicAdd p i) ∨
    ∃ r pc', s.mDeliveryQueue.move pc = some (r, pc') ∧ t = { s with mDeliveryQueue := r } ∧
      d = .adding p pc' := by
  have hring (h : s.ringMove pc (.adding p) = some (t, d)) :
      ∃ r pc', s.mDeliveryQueue.move pc = some (r, pc') ∧ t = { s with mDeliveryQueue := r } ∧
        d = .adding p pc' := by
    obtain ⟨⟨r, pc'⟩, hr, heq⟩ := Option.map_eq_some_iff.mp h
    obtain ⟨rfl, rfl⟩ := Prod.mk.inj heq
    exact ⟨r, pc', hr, rfl, rfl⟩
  cases pc with
  | added place =>
    cases place with
    | none =>
      obtain ⟨rfl, rfl⟩ := Prod.mk.inj (Option.some.inj h)
      exact Or.inl ⟨rfl, rfl, rfl⟩
    | some i =>
      obtain ⟨rfl, rfl⟩ := Prod.mk.inj (Option.some.inj h)
      exact Or.inr (Or.inl ⟨i, rfl, rfl, rfl⟩)
  | _ => exact Or.inr (Or.inr (hring h))

theorem move_popping {s t : Socket} {pc : RingPc} {d : Pc}
    (h : s.move (.popping pc) = some (t, d)) :
    (pc = .popped none ∧ t = s ∧ d = .returned) ∨
    (∃ i y, pc = .popped (some (i, none, y)) ∧ t = s ∧ d = .returned) ∨
    (∃ i p y, pc = .popped (some (i, some p, y)) ∧ t = s ∧ d = .compare p i) ∨
    ∃ r pc', s.mDeliveryQueue.move pc = some (r, pc') ∧ t = { s with mDeliveryQueue := r } ∧
      d = .popping pc' := by
  have hring (h : s.ringMove pc .popping = some (t, d)) :
      ∃ r pc', s.mDeliveryQueue.move pc = some (r, pc') ∧ t = { s with mDeliveryQueue := r } ∧
        d = .popping pc' := by
    obtain ⟨⟨r, pc'⟩, hr, heq⟩ := Option.map_eq_some_iff.mp h
    obtain ⟨rfl, rfl⟩ := Prod.mk.inj heq
    exact ⟨r, pc', hr, rfl, rfl⟩
  cases pc with
  | popped result =>
    rcases result with _ | ⟨i, x, y⟩
    · obtain ⟨rfl, rfl⟩ := Prod.mk.inj (Option.some.inj h)
      exact Or.inl ⟨rfl, rfl, rfl⟩
    · cases x with
      | none =>
        obtain ⟨rfl, rfl⟩ := Prod.mk.inj (Option.some.inj h)
        exact Or.inr (Or.inl ⟨i, y, rfl, rfl, rfl⟩)
      | some p =>
        obtain ⟨rfl, rfl⟩ := Prod.mk.inj (Option.some.inj h)
        exact Or.inr (Or.inr (Or.inl ⟨i, p, y, rfl, rfl, rfl⟩))
  | _ => exact Or.inr (Or.inr (Or.inr (hring h)))

section Steps
variable {s : Socket} {c d : Pc} {others : Multiset Pc}

/-- The ring is as it was where the call is at no place of it before and after the step. -/
theorem Inv.ringStay (h : Inv s (c ::ₘ others)) (hc : c.ring.Returned)
    (hd : d.ring.Returned ∨ d.ring.Enters) :
    PairList.Inv s.mDeliveryQueue ((d ::ₘ others).map Pc.ring) := by
  have hring := h.ring
  rw [Multiset.map_cons] at hring ⊢
  exact hring.again hc hd

/-- A step that leaves the ring and `m_rxAvailable` as they are. -/
theorem Inv.advance (h : Inv s (c ::ₘ others)) (hc : c.ring.Returned)
    (hd : d.ring.Returned ∨ d.ring.Enters) (huncounted : d.uncounted = c.uncounted)
    (hdraining : d.draining = c.draining) (hok : d.Ok s) {refused : List (Nat × Nat)}
    (mReceived : UInt64) (ready : Nat → Bool)
    (hrefused : ∀ r ∈ refused, s.mRcvBufSize.toNat < r.2 + (s.getSize r.1).toNat) :
    Inv { s with refused := refused, mReceived := mReceived, ready := ready }
      (d ::ₘ others) := by
  have hun : uncountedBy (d ::ₘ others) = uncountedBy (c ::ₘ others) := by
    rw [uncountedBy_cons, uncountedBy_cons, huncounted]
  have hdr : drainingBy (d ::ₘ others) = drainingBy (c ::ₘ others) := by
    rw [drainingBy_cons, drainingBy_cons, hdraining]
  refine ⟨h.ringStay hc hd, ?_, ?_, h.available, h.never, hrefused⟩
  · intro e he
    rcases Multiset.mem_cons.mp he with rfl | he
    · exact hok
    · exact h.ok e (Multiset.mem_cons_of_mem he)
  · rw [hun, hdr]
    exact h.books

/-- One access of the ring on behalf of a call. -/
theorem Inv.ringStep (next : RingPc → Pc) {pc pc' : RingPc} {r : PairList.Ring Nat UInt32}
    (h : Inv s (next pc ::ₘ others)) (hnext : ∀ q, (next q).ring = q)
    (huncounted : ∀ q, (next q).uncounted = owing q)
    (hdraining : ∀ q, (next q).draining = drawing q)
    (hclean : PairList.Clean s.mDeliveryQueue (others.map Pc.ring) pc)
    (hmove : s.mDeliveryQueue.move pc = some (r, pc'))
    (hok : (next pc').Ok { s with mDeliveryQueue := r }) :
    Inv { s with mDeliveryQueue := r } (next pc' ::ₘ others) := by
  have hring := h.ring
  rw [Multiset.map_cons, hnext] at hring
  have hring' := hring.move hclean hmove
  have hplaced := ring_placed hmove
  have hlength := h.ring.length
  have hweight (i : Nat) (hi : i < s.mDeliveryQueue.rear) :
      ({ s with mDeliveryQueue := r } : Socket).weight i = s.weight i := by
    rw [← hlength] at hi
    have hold := List.getElem?_eq_getElem hi
    have hnew := hplaced i _ hold
    simp only [Socket.weight, hold, hnew]
  have hbooks := h.books
  rw [uncountedBy_cons, drainingBy_cons, huncounted, hdraining] at hbooks
  have hok' (e : Pc) (he : e ∈ next pc' ::ₘ others) : e.Ok { s with mDeliveryQueue := r } := by
    rcases Multiset.mem_cons.mp he with rfl | he
    · exact hok
    · exact (h.ok e (Multiset.mem_cons_of_mem he)).mono hplaced
  have havailable : s.mRxAvailable.toNat =
      ∑ i ∈ s.counted, ({ s with mDeliveryQueue := r } : Socket).weight i := by
    rw [h.available]
    refine Finset.sum_congr rfl fun i hi => ?_
    exact (hweight i ((h.books.counted_iff i).mp hi).1).symm
  refine ⟨?_, hok', ?_, havailable, h.never, h.refused⟩
  · rw [Multiset.map_cons, hnext]
    exact hring'
  · rw [uncountedBy_cons, drainingBy_cons, huncounted, hdraining]
    rcases ring_places hmove with ⟨hrear, hfront, _, hu, hd⟩ | ⟨hrear, hfront, _, hu, hu', hd⟩ |
      ⟨hrear, hfront, _, hu, hd, hd'⟩
    · rw [hu, hd]
      exact hrear ▸ hfront ▸ hbooks
    · rw [hu, zero_add] at hbooks
      rw [hu', hd, Multiset.singleton_add]
      exact hrear.symm ▸ hfront.symm ▸ hbooks.claimRear h.ring.order
    · rw [hd, zero_add] at hbooks
      rw [hu, hd', Multiset.singleton_add]
      exact hrear.symm ▸ hfront.symm ▸ hbooks.claimFront

theorem Inv.atomicAdd {p i : Nat} (h : Inv s (.atomicAdd p i ::ₘ others))
    (hclean : s.mRxAvailable.toNat + (s.getSize p).toNat < 2 ^ 32) :
    Inv { s with
      mRxAvailable := s.mRxAvailable + s.getSize p
      counted := insert i s.counted } (.emptyFront ::ₘ others) := by
  have hun : uncountedBy (.atomicAdd p i ::ₘ others) = i ::ₘ uncountedBy others := by
    simp [uncountedBy_cons, Pc.uncounted, Pc.ring, owing]
  have hun' : uncountedBy (.emptyFront ::ₘ others) = uncountedBy others := by
    simp [uncountedBy_cons, Pc.uncounted, Pc.ring, owing]
  have hdr : drainingBy (.emptyFront ::ₘ others) = drainingBy (.atomicAdd p i ::ₘ others) := by
    simp [drainingBy_cons, Pc.draining, Pc.ring, drawing]
  have hbooks := h.books
  rw [hun] at hbooks
  obtain ⟨hnew, hbooks⟩ := hbooks.count
  refine ⟨?_, ?_, ?_, ?_, h.never, h.refused⟩
  · exact h.ringStay trivial (Or.inl trivial)
  · intro e he
    rcases Multiset.mem_cons.mp he with rfl | he
    · trivial
    · exact h.ok e (Multiset.mem_cons_of_mem he)
  · rw [hun', hdr]
    exact hbooks
  · have hweight : s.weight i = (s.getSize p).toNat :=
      weight_eq (h.ok _ (Multiset.mem_cons_self _ _))
    have hsum : (s.mRxAvailable + s.getSize p).toNat =
        s.mRxAvailable.toNat + (s.getSize p).toNat := by
      rw [UInt32.toNat_add]
      exact Nat.mod_eq_of_lt hclean
    calc (s.mRxAvailable + s.getSize p).toNat
        = s.weight i + ∑ j ∈ s.counted, s.weight j := by
          rw [hsum, hweight, h.available, Nat.add_comm]
      _ = ∑ j ∈ insert i s.counted, s.weight j := (Finset.sum_insert hnew).symm

/-- The size that is subtracted is one of those counted. -/
theorem Inv.atomicSub {p i : Nat} (h : Inv s (.atomicSub p i ::ₘ others))
    (hclean : ∀ c ∈ others, i ∉ c.uncounted) :
    Inv { s with
      mRxAvailable := s.mRxAvailable - s.getSize p
      counted := s.counted.erase i
      borrows := if s.mRxAvailable < s.getSize p then s.borrows ++ [p] else s.borrows }
      (.received p ::ₘ others) := by
  have hun : uncountedBy (.atomicSub p i ::ₘ others) = uncountedBy others := by
    simp [uncountedBy_cons, Pc.uncounted, Pc.ring, owing]
  have hun' : uncountedBy (.received p ::ₘ others) = uncountedBy others := by
    simp [uncountedBy_cons, Pc.uncounted, Pc.ring, owing]
  have hdr : drainingBy (.atomicSub p i ::ₘ others) = i ::ₘ drainingBy others := by
    simp [drainingBy_cons, Pc.draining, Pc.ring, drawing]
  have hdr' : drainingBy (.received p ::ₘ others) = drainingBy others := by
    simp [drainingBy_cons, Pc.draining, Pc.ring, drawing]
  have howed : i ∉ uncountedBy others := by
    intro hi
    obtain ⟨c, hc, hic⟩ := Multiset.mem_bind.mp hi
    exact hclean c hc hic
  have hbooks := h.books
  rw [hun, hdr] at hbooks
  obtain ⟨hcounted, hbooks⟩ := hbooks.uncount h.ring.order howed
  have hweight : s.weight i = (s.getSize p).toNat :=
    weight_eq (h.ok _ (Multiset.mem_cons_self _ _))
  have hsum : s.weight i + ∑ j ∈ s.counted.erase i, s.weight j = s.mRxAvailable.toNat := by
    rw [Finset.add_sum_erase s.counted s.weight hcounted, h.available]
  have hle : s.getSize p ≤ s.mRxAvailable := by
    rw [UInt32.le_iff_toNat_le, ← hweight, ← hsum]
    exact Nat.le_add_right _ _
  refine ⟨?_, ?_, ?_, ?_, ?_, h.refused⟩
  · exact h.ringStay trivial (Or.inl trivial)
  · intro e he
    rcases Multiset.mem_cons.mp he with rfl | he
    · trivial
    · exact h.ok e (Multiset.mem_cons_of_mem he)
  · rw [hun', hdr']
    exact hbooks
  · have hleft : (s.mRxAvailable - s.getSize p).toNat =
        ∑ j ∈ s.counted.erase i, s.weight j := by
      rw [UInt32.toNat_sub_of_le _ _ hle, ← hweight, ← hsum, Nat.add_sub_cancel_left]
    exact hleft
  · rw [if_neg (UInt32.not_lt.mpr hle)]
    exact h.never

/-- Where no popped packet is still counted, what is counted is at most what is queued. -/
theorem Inv.available_le (h : Inv s (c ::ₘ others)) (hc : c.draining = 0)
    (hnone : ∀ e ∈ others, ∀ i ∈ e.draining, i ∉ s.counted) :
    s.mRxAvailable.toNat ≤ s.queued := by
  rw [h.available]
  refine Finset.sum_le_sum_of_subset (h.books.subset ?_)
  intro i hi
  rw [drainingBy_cons, hc, zero_add] at hi
  obtain ⟨e, he, hie⟩ := Multiset.mem_bind.mp hi
  exact hnone e he i hie

theorem Inv.refuse {p : Nat} (h : Inv s (.testBuffer p ::ₘ others))
    (hclean : Clean s others (.testBuffer p))
    (hfull : s.mRcvBufSize < s.mRxAvailable + s.getSize p) :
    s.mRcvBufSize.toNat < s.queued + (s.getSize p).toNat := by
  have hle := h.available_le rfl (hclean hfull)
  have hlt := UInt32.lt_iff_toNat_lt.mp hfull
  have hmod : (s.mRxAvailable + s.getSize p).toNat ≤
      s.mRxAvailable.toNat + (s.getSize p).toNat := by
    rw [UInt32.toNat_add]
    exact Nat.mod_le _ _
  omega

theorem Inv.move {t : Socket} (h : Inv s (c ::ₘ others)) (hclean : Clean s others c)
    (hmove : s.move c = some (t, d)) : Inv t (d ::ₘ others) := by
  have hc := h.ok c (Multiset.mem_cons_self _ _)
  cases c with
  | forwardPacket p =>
    obtain ⟨rfl, rfl⟩ := Prod.mk.inj (Option.some.inj hmove)
    split
    · exact h.advance (d := .returned) trivial (Or.inl trivial) rfl rfl trivial _ _ h.refused
    · exact h.advance (d := .testBuffer p) trivial (Or.inl trivial) rfl rfl trivial _ _ h.refused
  | testBuffer p =>
    simp only [Socket.move] at hmove
    split at hmove
    · obtain ⟨rfl, rfl⟩ := Prod.mk.inj (Option.some.inj hmove)
      exact h.advance (d := .adding p (.add ⟨p, 0⟩)) trivial (Or.inr trivial) rfl rfl rfl _ _
        h.refused
    · rename_i hfull
      obtain ⟨rfl, rfl⟩ := Prod.mk.inj (Option.some.inj hmove)
      refine h.advance (d := .returned) trivial (Or.inl trivial) rfl rfl trivial _ _ ?_
      intro r hr
      rcases List.mem_append.mp hr with hr | hr
      · exact h.refused r hr
      · obtain rfl := List.mem_singleton.mp hr
        exact h.refuse hclean (UInt32.not_le.mp hfull)
  | adding p pc =>
    rcases move_adding hmove with ⟨rfl, rfl, rfl⟩ | ⟨i, rfl, rfl, rfl⟩ | ⟨r, pc', hr, rfl, rfl⟩
    · exact h.advance (d := .release p) trivial (Or.inl trivial) rfl rfl trivial _ _ h.refused
    · exact h.advance (d := .atomicAdd p i) trivial (Or.inl trivial) rfl rfl hc _ _ h.refused
    · have hpc := h.ring.ok pc (Multiset.mem_map_of_mem Pc.ring (Multiset.mem_cons_self _ _))
      exact Inv.ringStep (.adding p) h (fun _ => rfl) (fun _ => add_zero _)
        (fun _ => add_zero _) hclean hr (Carries.move hpc hc hr)
  | atomicAdd p i =>
    obtain ⟨rfl, rfl⟩ := Prod.mk.inj (Option.some.inj hmove)
    exact h.atomicAdd hclean
  | emptyFront =>
    obtain ⟨rfl, rfl⟩ := Prod.mk.inj (Option.some.inj hmove)
    exact h.advance (d := .emptyRear s.mDeliveryQueue.front) trivial (Or.inl trivial) rfl rfl
      trivial _ _ h.refused
  | emptyRear front =>
    obtain ⟨rfl, rfl⟩ := Prod.mk.inj (Option.some.inj hmove)
    split
    · exact h.advance (d := .returned) trivial (Or.inl trivial) rfl rfl trivial _ _ h.refused
    · exact h.advance (d := .popping .popRear) trivial (Or.inr trivial) rfl rfl trivial _ _
        h.refused
  | popping pc =>
    rcases move_popping hmove with ⟨rfl, rfl, rfl⟩ | ⟨i, y, rfl, rfl, rfl⟩ |
      ⟨i, p, y, rfl, rfl, rfl⟩ | ⟨r, pc', hr, rfl, rfl⟩
    · exact h.advance (d := .returned) trivial (Or.inl trivial) rfl rfl trivial _ _ h.refused
    · obtain ⟨pair, _, hnull⟩ := hc
      cases hnull
    · obtain ⟨pair, hpair, hp⟩ := hc
      exact h.advance (d := .compare p i) trivial (Or.inl trivial) rfl rfl
        ⟨pair, hpair, (Option.some.inj hp).symm⟩ _ _ h.refused
    · have hpc := h.ring.ok pc (Multiset.mem_map_of_mem Pc.ring (Multiset.mem_cons_self _ _))
      exact Inv.ringStep .popping h (fun _ => rfl) (fun _ => add_zero _)
        (fun _ => add_zero _) hclean hr (Yields.move hpc hr)
  | compare p i =>
    obtain ⟨rfl, rfl⟩ := Prod.mk.inj (Option.some.inj hmove)
    have hsize : s.getSize p < 0xFFFFFFFF := hclean
    rw [if_pos hsize]
    exact h.advance (d := .atomicSub p i) trivial (Or.inl trivial) rfl rfl hc _ _ h.refused
  | atomicSub p i =>
    obtain ⟨rfl, rfl⟩ := Prod.mk.inj (Option.some.inj hmove)
    exact h.atomicSub hclean
  | received p =>
    obtain ⟨rfl, rfl⟩ := Prod.mk.inj (Option.some.inj hmove)
    exact h.advance (d := .release p) trivial (Or.inl trivial) rfl rfl trivial _ _ h.refused
  | release p =>
    obtain ⟨rfl, rfl⟩ := Prod.mk.inj (Option.some.inj hmove)
    exact h.advance (d := .returned) trivial (Or.inl trivial) rfl rfl trivial _ _ h.refused
  | returned => cases hmove

end Steps

theorem Inv.call {s : Socket} {calls : Multiset Pc} (h : Inv s calls) (p : Nat) :
    Inv s (.forwardPacket p ::ₘ calls) := by
  have hun : uncountedBy (.forwardPacket p ::ₘ calls) = uncountedBy calls := by
    simp [uncountedBy_cons, Pc.uncounted, Pc.ring, owing]
  have hdr : drainingBy (.forwardPacket p ::ₘ calls) = drainingBy calls := by
    simp [drainingBy_cons, Pc.draining, Pc.ring, drawing]
  refine ⟨?_, ?_, ?_, h.available, h.never, h.refused⟩
  · rw [Multiset.map_cons]
    exact h.ring.cons rfl rfl rfl trivial
  · intro e he
    rcases Multiset.mem_cons.mp he with rfl | he
    · trivial
    · exact h.ok e he
  · rw [hun, hdr]
    exact h.books

theorem Inv.step {x y : System} (h : Inv x.socket x.calls) (hstep : CleanStep x y) :
    Inv y.socket y.calls := by
  cases hstep with
  | call p => exact h.call p
  | move hclean hmove => exact h.move hclean hmove

theorem Inv.accounted {s : Socket} {calls : Multiset Pc} (h : Inv s calls) :
    Accounted s calls := by
  refine ⟨h.never, fun hquiet => ?_, h.refused⟩
  have hnone {f : Pc → Multiset Nat} (hf : f .returned = 0) : calls.bind f = 0 := by
    refine Multiset.eq_zero_of_forall_notMem fun i hi => ?_
    obtain ⟨c, hc, hic⟩ := Multiset.mem_bind.mp hi
    rw [hquiet c hc, hf] at hic
    exact Multiset.notMem_zero i hic
  have hbooks := h.books
  rw [uncountedBy, drainingBy, hnone rfl, hnone rfl] at hbooks
  rw [h.available, hbooks.settled]
  rfl

/-- As long as no step runs into one of the races, the receive accounting matches the queue. -/
theorem accounted_of_clean {rcvBufSize : UInt32} {shutdownRecv : Bool} {getSize : Nat → UInt32}
    {x : System}
    (h : Relation.ReflTransGen CleanStep ⟨.new rcvBufSize shutdownRecv getSize, 0⟩ x) :
    Accounted x.socket x.calls := by
  have hinv : Inv x.socket x.calls :=
    run_invariant (P := fun y : System => Inv y.socket y.calls)
      (fun _ _ hy hstep => hy.step hstep) (Inv.new rcvBufSize shutdownRecv getSize) h
  exact hinv.accounted

/-- One packet of 100 bytes is forwarded, read and released. -/
theorem accounted_one_packet : ∃ x : System,
    Relation.ReflTransGen CleanStep ⟨.new 262144 false fun _ => 100, 0⟩ x ∧
    x.socket.mReceived = 1 ∧ Accounted x.socket x.calls := by
  have hnone {P : Pc → Prop} (c : Pc) (hc : c ∈ (0 : Multiset Pc)) : P c :=
    absurd hc (Multiset.notMem_zero c)
  have hring {P : RingPc → Prop} (c : RingPc) (hc : c ∈ (0 : Multiset Pc).map Pc.ring) : P c :=
    absurd hc (Multiset.notMem_zero c)
  have hsum : (0 : UInt32).toNat + (100 : UInt32).toNat < 2 ^ 32 := by decide
  have hsize : (100 : UInt32) < 0xFFFFFFFF := by decide
  have hrun : Relation.ReflTransGen CleanStep
      (⟨.new 262144 false fun _ => 100, 0⟩ : System) ⟨_, .forwardPacket 7 ::ₘ 0⟩ :=
    .single (.call 7)
  have hrun := hrun.tail (.move trivial rfl)
  have hrun := hrun.tail (.move (fun _ => hnone) rfl)
  have hrun := hrun.tail (.move trivial rfl)
  have hrun := hrun.tail (.move trivial rfl)
  have hrun := hrun.tail (.move trivial rfl)
  have hrun := hrun.tail (.move (fun _ => rfl) rfl)
  have hrun := hrun.tail (.move hring rfl)
  have hrun := hrun.tail (.move trivial rfl)
  have hrun := hrun.tail (.move trivial rfl)
  have hrun := hrun.tail (.move hsum rfl)
  have hrun := hrun.tail (.move trivial rfl)
  have hrun := hrun.tail (.move trivial rfl)
  have hrun := hrun.tail (.move trivial rfl)
  have hrun := hrun.tail (.move (Nat.zero_le _) rfl)
  have hrun := hrun.tail (.move (fun _ => rfl) rfl)
  have hrun := hrun.tail (.move hring rfl)
  have hrun := hrun.tail (.move trivial rfl)
  have hrun := hrun.tail (.move trivial rfl)
  have hrun := hrun.tail (.move hsize rfl)
  have hrun := hrun.tail (.move hnone rfl)
  have hrun := hrun.tail (.move trivial rfl)
  have hrun := hrun.tail (.move trivial rfl)
  exact ⟨_, hrun, rfl, accounted_of_clean hrun⟩

/-- A packet of 200 bytes is in the ring and not yet counted when a second call, which has
counted its own 100 bytes, pops it and subtracts. -/
theorem available_wraps : ¬ ∀ (rcvBufSize : UInt32) (shutdownRecv : Bool)
    (getSize : Nat → UInt32) (x : System),
    Relation.ReflTransGen AnyStep ⟨.new rcvBufSize shutdownRecv getSize, 0⟩ x →
    Accounted x.socket x.calls := by
  intro h
  have hrun : Relation.ReflTransGen AnyStep
      (⟨.new 262144 false fun p => if p = 0 then 200 else 100, 0⟩ : System)
      ⟨_, .forwardPacket 0 ::ₘ 0⟩ := .single (.call 0)
  have hrun := hrun.tail (.move trivial rfl)
  have hrun := hrun.tail (.move trivial rfl)
  have hrun := hrun.tail (.move trivial rfl)
  have hrun := hrun.tail (.move trivial rfl)
  have hrun := hrun.tail (.move trivial rfl)
  have hrun := hrun.tail (.move trivial rfl)
  have hrun := hrun.tail (.move trivial rfl)
  have hrun := hrun.tail (.move trivial rfl)
  have hrun := hrun.tail (.call 1)
  have hrun := hrun.tail (.move trivial rfl)
  have hrun := hrun.tail (.move trivial rfl)
  have hrun := hrun.tail (.move trivial rfl)
  have hrun := hrun.tail (.move trivial rfl)
  have hrun := hrun.tail (.move trivial rfl)
  have hrun := hrun.tail (.move trivial rfl)
  have hrun := hrun.tail (.move trivial rfl)
  have hrun := hrun.tail (.move trivial rfl)
  have hrun := hrun.tail (.move trivial rfl)
  have hrun := hrun.tail (.move trivial rfl)
  have hrun := hrun.tail (.move trivial rfl)
  have hrun := hrun.tail (.move trivial rfl)
  have hrun := hrun.tail (.move trivial rfl)
  have hrun := hrun.tail (.move trivial rfl)
  have hrun := hrun.tail (.move trivial rfl)
  have hrun := hrun.tail (.move trivial rfl)
  have hrun := hrun.tail (.move trivial rfl)
  have hrun := hrun.tail (.move trivial rfl)
  have hrun := hrun.tail (.move trivial rfl)
  have hrun := hrun.tail (.move trivial rfl)
  have hborrows : [0] = [] := (h _ _ _ _ hrun).never
  cases hborrows

end CudaNs3.Device.SocketReceive
