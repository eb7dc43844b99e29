import CudaNs3.Tcp.HighestSack
import CudaNs3.Tcp.Socket

/-!
# Bytes in flight

The estimate from the counters beside the walk over the list that asks `IsLostRFC` for each item.
A retransmitted item is one more item for the counters; for the walk it counts if it is lost.
-/

namespace CudaNs3.Tcp

open SequenceNumber TcpTxBuffer
set_option autoImplicit false

/-- What the walk of `BytesInFlightRFC` adds up. -/
structure Pipe where
  size : BitVec 32
  sackedOut : BitVec 32
  lostOut : BitVec 32
  retrans : BitVec 32
  totalSize : BitVec 32

namespace TcpTxBuffer

/-- The loop of `IsLostRFC` from an item on, with the sacked items and bytes that were passed. -/
def lostFrom (s : TcpTxBuffer) (segmentSize : BitVec 32) :
    BitVec 32 → BitVec 32 → SequenceNumber 32 → List TcpTxItem → Bool
  | _, _, _, [] => false
  | count, bytes, begin, item :: rest =>
    let count := if item.sacked then count + 1 else count
    let bytes := if item.sacked then bytes + item.size else bytes
    if item.sacked && (s.dupAckThresh ≤ count || (s.dupAckThresh - 1) * segmentSize < bytes) then true
    else if ge begin s.highestSack.2 then item.lost && !item.retrans
    else lostFrom s segmentSize count bytes (begin + item.size) rest

/-- `segment` is the list from the item on. -/
def isLostRFC (s : TcpTxBuffer) (segmentSize : BitVec 32) (seq : SequenceNumber 32)
    (segment : List TcpTxItem) : Bool :=
  if segment.head?.any TcpTxItem.sacked then false else s.lostFrom segmentSize 0 0 seq segment

def walkRFC (s : TcpTxBuffer) (segmentSize : BitVec 32) :
    Pipe → SequenceNumber 32 → List TcpTxItem → Pipe
  | k, _, [] => k
  | k, begin, item :: rest =>
    let isLost := s.isLostRFC segmentSize begin (item :: rest)
    walkRFC s segmentSize
      { size :=
          if !item.sacked then
            if !isLost then k.size + item.size
            else if item.retrans then k.size + item.size
            else k.size
          else k.size
        sackedOut := if !item.sacked then k.sackedOut else k.sackedOut + item.size
        lostOut := if !item.sacked then if isLost then k.lostOut + item.size else k.lostOut else k.lostOut
        retrans := if item.retrans then k.retrans + item.size else k.retrans
        totalSize := k.totalSize + item.size }
      (begin + item.size) rest

def bytesInFlightRFC (s : TcpTxBuffer) (segmentSize : BitVec 32) : Option (BitVec 32) :=
  let k := s.walkRFC segmentSize ⟨0, 0, 0, 0, 0⟩ s.firstByteSeq s.sentList
  if k.lostOut = s.lostOut ∧ k.retrans = s.retrans ∧ k.sackedOut = s.sackedOut ∧
      k.totalSize = s.sentSize then some k.size
  else none

/-- The bytes of the items that `p` holds of, where it may ask whether `IsLostRFC` finds the item
lost. -/
def bytesRFC (s : TcpTxBuffer) (segmentSize : BitVec 32) (p : TcpTxItem → Bool → Bool) :
    SequenceNumber 32 → List TcpTxItem → Nat
  | _, [] => 0
  | begin, item :: rest =>
    (if p item (s.isLostRFC segmentSize begin (item :: rest)) then item.packet.length else 0) +
      bytesRFC s segmentSize p (begin + item.size) rest

/-- The bytes that `IsLostRFC` finds lost. -/
def lostRFC (s : TcpTxBuffer) (segmentSize : BitVec 32) : Nat :=
  s.bytesRFC segmentSize (fun _ lost => lost) s.firstByteSeq s.sentList

/-- The bytes of the retransmitted items that are sacked or not lost for `IsLostRFC`. -/
def strayRetrans (s : TcpTxBuffer) (segmentSize : BitVec 32) : Nat :=
  s.bytesRFC segmentSize (fun item lost => item.retrans && (item.sacked || !lost)) s.firstByteSeq
    s.sentList

variable {s : TcpTxBuffer} {segmentSize : BitVec 32}

theorem isLostRFC_sacked {seq : SequenceNumber 32} {item : TcpTxItem} {rest : List TcpTxItem}
    (h : item.sacked = true) : s.isLostRFC segmentSize seq (item :: rest) = false := by
  rw [isLostRFC, if_pos (by simpa using h)]

/-- The octets that the walk counts. -/
def inPipe (item : TcpTxItem) (lost : Bool) : Bool := !item.sacked && (!lost || item.retrans)

theorem walkRFC_eq (k : Pipe) (begin : SequenceNumber 32) (l : List TcpTxItem) :
    s.walkRFC segmentSize k begin l =
      { size := k.size + BitVec.ofNat 32 (s.bytesRFC segmentSize inPipe begin l)
        sackedOut := k.sackedOut + BitVec.ofNat 32 (bytes TcpTxItem.sacked l)
        lostOut := k.lostOut + BitVec.ofNat 32 (s.bytesRFC segmentSize (fun _ lost => lost) begin l)
        retrans := k.retrans + BitVec.ofNat 32 (bytes TcpTxItem.retrans l)
        totalSize := k.totalSize + BitVec.ofNat 32 (bytes every l) } := by
  induction l generalizing k begin with
  | nil => simp [walkRFC, bytesRFC]
  | cons item rest ih =>
    have hadd (x : BitVec 32) (flag : Bool) (y : Nat) :
        (if flag then x + item.size else x) + BitVec.ofNat 32 y =
          x + BitVec.ofNat 32 ((if flag then item.packet.length else 0) + y) := by
      cases flag
      · simp
      · rw [if_pos rfl, if_pos rfl, BitVec.ofNat_add, TcpTxItem.size]
        ring
    rw [walkRFC, ih]
    simp only [bytesRFC, bytes_cons, ← hadd]
    cases hs : item.sacked with
    | true =>
      rw [isLostRFC_sacked hs]
      simp [inPipe, hs]
    | false =>
      cases s.isLostRFC segmentSize begin (item :: rest) with
      | true => cases hr : item.retrans <;> simp [inPipe, hs, hr]
      | false => simp [inPipe, hs]

/-- Item by item: what is not sacked is in the pipe or lost, and a retransmission is once more in the
pipe if the item is lost. -/
theorem bytesRFC_sum (begin : SequenceNumber 32) (l : List TcpTxItem) :
    s.bytesRFC segmentSize inPipe begin l + s.bytesRFC segmentSize (fun _ lost => lost) begin l +
      s.bytesRFC segmentSize (fun item lost => item.retrans && (item.sacked || !lost)) begin l +
        bytes TcpTxItem.sacked l = bytes every l + bytes TcpTxItem.retrans l := by
  induction l generalizing begin with
  | nil => rfl
  | cons item rest ih =>
    have hrest := ih (begin + item.size)
    simp only [bytesRFC, bytes_cons, every_eq, if_true]
    have hitem : (if inPipe item (s.isLostRFC segmentSize begin (item :: rest)) then item.packet.length
          else 0) +
        (if s.isLostRFC segmentSize begin (item :: rest) then item.packet.length else 0) +
        (if item.retrans && (item.sacked || !s.isLostRFC segmentSize begin (item :: rest)) then
          item.packet.length else 0) + (if item.sacked then item.packet.length else 0) =
          item.packet.length + if item.retrans then item.packet.length else 0 := by
      cases hs : item.sacked with
      | true =>
        rw [isLostRFC_sacked hs]
        simp [inPipe, hs]
        omega
      | false =>
        cases s.isLostRFC segmentSize begin (item :: rest) <;> cases hr : item.retrans <;>
          simp [inPipe, hs, hr]
    omega

theorem bytesRFC_le (p : TcpTxItem → Bool → Bool) (begin : SequenceNumber 32) (l : List TcpTxItem) :
    s.bytesRFC segmentSize p begin l ≤ bytes every l := by
  induction l generalizing begin with
  | nil => exact Nat.le_refl _
  | cons item rest ih =>
    have hle := ih (begin + item.size)
    simp only [bytesRFC, bytes_cons, every_eq, if_true]
    split <;> omega

end TcpTxBuffer

/-- The estimate beside the pipe. -/
structure InFlight (s : TcpTxBuffer) (segmentSize : BitVec 32) : Prop where
  estimate : s.bytesInFlight = some (s.sentSize - (s.sackedOut + s.lostOut) + s.retrans)
  /-- The assertions of the walk hold if it finds as many bytes lost as are counted. -/
  walked : (s.bytesInFlightRFC segmentSize).isSome ↔ s.lostRFC segmentSize = s.lostOut.toNat
  exceeds : ∀ pipe, s.bytesInFlightRFC segmentSize = some pipe →
    s.bytesInFlight = some (pipe + BitVec.ofNat 32 (s.strayRetrans segmentSize))
  agrees : ∀ pipe, s.bytesInFlightRFC segmentSize = some pipe →
    (s.bytesInFlight = some pipe ↔ s.strayRetrans segmentSize = 0)
  within : s.sentSize.toNat < 2 ^ 31 → ∀ k, s.bytesInFlight = some k →
    (k ≤ s.sentSize ↔ s.retrans.toNat ≤ s.sackedOut.toNat + s.lostOut.toNat)

namespace Counted
variable {s : TcpTxBuffer}

theorem bytesInFlight (h : Counted s) :
    s.bytesInFlight = some (s.sentSize - (s.sackedOut + s.lostOut) + s.retrans) := by
  refine if_pos ?_
  have hle := h.left_le
  rw [BitVec.lt_def] at hle
  rw [BitVec.le_def]
  omega

theorem bytesInFlightRFC (h : Counted s) (segmentSize : BitVec 32) :
    s.bytesInFlightRFC segmentSize = if s.lostRFC segmentSize = s.lostOut.toNat then
      some (BitVec.ofNat 32 (s.bytesRFC segmentSize inPipe s.firstByteSeq s.sentList)) else none := by
  have hlt := h.sent_lt
  have hlost : BitVec.ofNat 32 (s.lostRFC segmentSize) = s.lostOut ↔
      s.lostRFC segmentSize = s.lostOut.toNat := by
    have hle : s.lostRFC segmentSize ≤ bytes every s.sentList := bytesRFC_le _ _ _
    constructor
    · intro heq
      rw [← heq, BitVec.toNat_ofNat, Nat.mod_eq_of_lt (by omega)]
    · intro heq
      rw [heq, BitVec.ofNat_toNat, BitVec.setWidth_eq]
  unfold TcpTxBuffer.bytesInFlightRFC
  rw [walkRFC_eq]
  simp only [BitVec.ofNat_eq_ofNat, BitVec.zero_add, ← h.retrans, ← h.sackedOut, ← h.sentSize, and_true]
  exact if_congr hlost rfl rfl

theorem inFlight (h : Counted s) (segmentSize : BitVec 32) : InFlight s segmentSize := by
  have hrfc := h.bytesInFlightRFC segmentSize
  have hexact := h.exact
  have hlt := h.sent_lt
  have hsum := @bytesRFC_sum s segmentSize s.firstByteSeq s.sentList
  have hleft := bytes_exclusive h.exclusive
  have hretrans := bytes_le_every TcpTxItem.retrans s.sentList
  have hexceeds : ∀ pipe, s.bytesInFlightRFC segmentSize = some pipe →
      s.bytesInFlight = some (pipe + BitVec.ofNat 32 (s.strayRetrans segmentSize)) := by
    intro pipe hpipe
    rw [hrfc] at hpipe
    split at hpipe
    · rename_i hlost
      obtain rfl := Option.some.inj hpipe
      rw [h.bytesInFlight, ← BitVec.ofNat_add]
      congr 1
      apply BitVec.eq_of_toNat_eq
      rw [hexact.lostOut] at hlost
      rw [lostRFC] at hlost
      rw [BitVec.toNat_add, BitVec.toNat_sub, BitVec.toNat_add, BitVec.toNat_ofNat, hexact.sentSize,
        hexact.sackedOut, hexact.lostOut, hexact.retrans, strayRetrans]
      omega
    · cases hpipe
  refine ⟨h.bytesInFlight, ?_, hexceeds, ?_, ?_⟩
  · rw [hrfc]
    split
    · rename_i hlost
      simp [hlost]
    · rename_i hlost
      simp [hlost]
  · intro pipe hpipe
    rw [hexceeds pipe hpipe, Option.some.injEq, add_eq_left]
    have hle : s.strayRetrans segmentSize ≤ bytes every s.sentList := bytesRFC_le _ _ _
    constructor
    · intro hzero
      have hnat := congrArg BitVec.toNat hzero
      rw [BitVec.toNat_ofNat, Nat.mod_eq_of_lt (by omega)] at hnat
      exact hnat
    · intro hzero
      rw [hzero]
      rfl
  · intro hhalf k hk
    rw [h.bytesInFlight] at hk
    obtain rfl := Option.some.inj hk
    rw [hexact.sentSize] at hhalf
    rw [BitVec.le_def, BitVec.toNat_add, BitVec.toNat_sub, BitVec.toNat_add, hexact.sentSize,
      hexact.sackedOut, hexact.lostOut, hexact.retrans]
    omega

end Counted

/-- The estimate exceeds the pipe by the retransmissions that are sacked or not lost. -/
theorem inFlight_beside_pipe {n : SequenceNumber 32} {maxBuffer dupAckThresh : BitVec 32}
    {sackEnabled : Bool} {s : TcpTxBuffer}
    (h : CleanRun (.new n maxBuffer dupAckThresh sackEnabled) s) (segmentSize : BitVec 32) :
    InFlight s segmentSize :=
  (h.counted (.new n maxBuffer dupAckThresh sackEnabled)).inFlight segmentSize

/-- A segment that has been sent is in the pipe. -/
theorem inFlight_of_one : ∃ s : TcpTxBuffer, s.bytesInFlight = some 1 ∧ InFlight s 1 := by
  have hadd : TcpTxBuffer.step (.new 0 100 3 true) (.add (.ones 1 (by decide))) =
      some ((TcpTxBuffer.new 0 100 3 true).add (.ones 1 (by decide))).1 := rfl
  obtain ⟨s, hcopy, hsize⟩ := exists_of_any (o := TcpTxBuffer.step
    ((TcpTxBuffer.new 0 100 3 true).add (.ones 1 (by decide))).1 (.copyFromSequence 0 1 0))
    (p := fun s => s.bytesInFlight = some 1) (by decide)
  have hclean (t : TcpTxBuffer) : Clean t (.add (.ones 1 (by decide))) ∧
      Clean t (.copyFromSequence 0 1 0) := ⟨trivial, trivial⟩
  have hrun : CleanRun (.new 0 100 3 true) s :=
    .step (.step .start (hclean _).1 hadd) (hclean _).2 hcopy
  exact ⟨s, by simpa using hsize, inFlight_beside_pipe hrun 1⟩

/-- Two segments, of which the first is sent again without being lost: three bytes of two are in
flight, and two for the walk. -/
theorem inFlight_exceeds : ∃ s : TcpTxBuffer,
    Transition.exec TcpTxBuffer.step (.new 0 100 3 true)
      (sentOnes 2 ++ [.copyFromSequence 1 1 0]) = some s ∧
    s.bytesInFlight = some 3 ∧ s.bytesInFlightRFC 1 = some 2 ∧ s.sentSize = 2 := by
  obtain ⟨s, hrun, hs⟩ := exists_of_any (o := Transition.exec TcpTxBuffer.step
      (.new 0 100 3 true) (sentOnes 2 ++ [.copyFromSequence 1 1 0]))
    (p := fun s => s.bytesInFlight = some 3 && s.bytesInFlightRFC 1 = some 2 && s.sentSize = 2)
    (by decide)
  rw [Bool.and_eq_true, Bool.and_eq_true, decide_eq_true_eq, decide_eq_true_eq, decide_eq_true_eq] at hs
  exact ⟨s, hrun, hs.1.1, hs.1.2, hs.2⟩

end CudaNs3.Tcp
