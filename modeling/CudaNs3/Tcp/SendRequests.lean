import CudaNs3.Tcp.SocketReceiving
import CudaNs3.Tcp.TxContent

/-!
# What is asked of the send buffer

`SendPendingData`, `DoRetransmit` and `PersistTimeout` ask for a range of the send buffer, and a
range without a byte is answered by a null pointer. Where the sent bytes fill the peer's window
`NextSeg` offers such a range.
-/

namespace CudaNs3.Tcp

open SequenceNumber TcpTxBuffer TcpSocketBase Flags
set_option autoImplicit false

/-- A buffer without an empty item. -/
structure Stocked (b : TcpTxBuffer) : Prop where
  sized : Sized b
  sent : ∀ it ∈ b.sentList, it.packet ≠ []
  unsent : ∀ it ∈ b.appList, it.packet ≠ []

/-- A call on the buffer. -/
inductive BufferMove (b : TcpTxBuffer) : TcpTxBuffer → Prop where
  | step {b' : TcpTxBuffer} (op : Op) (h : b.step op = some b') : BufferMove b b'
  | setHeadSequence {b' : TcpTxBuffer} (seq : SequenceNumber 32) (h : b.setHeadSequence seq = some b') :
    BufferMove b b'
  | setSackEnabled (sackEnabled : Bool) : BufferMove b { b with sackEnabled := sackEnabled }

namespace Stocked
variable {b b' : TcpTxBuffer} {now : Int} {n offset : BitVec 32} {seq : SequenceNumber 32}

theorem new {n : SequenceNumber 32} {maxBuffer dupAckThresh : BitVec 32} {sackEnabled : Bool}
    (hmax : maxBuffer.toNat < 2 ^ 31) : Stocked (.new n maxBuffer dupAckThresh sackEnabled) :=
  ⟨.new hmax, by simp [TcpTxBuffer.new], by simp [TcpTxBuffer.new]⟩

/-- The same packets. -/
theorem repacked (h : Stocked b) (hsized : Sized b')
    (hpackets : b'.sentList.map TcpTxItem.packet = b.sentList.map TcpTxItem.packet)
    (happ : b'.appList = b.appList) : Stocked b' where
  sized := hsized
  sent := by
    intro it hit
    have hmem : it.packet ∈ b.sentList.map TcpTxItem.packet := hpackets ▸ List.mem_map_of_mem hit
    obtain ⟨it', hit', heq⟩ := List.mem_map.mp hmem
    exact heq ▸ h.sent it' hit'
  unsent := by
    rw [happ]
    exact h.unsent

theorem rescored (h : Stocked b) (hb : Rescored b b') : Stocked b' :=
  h.repacked (hb.sized h.sized) hb.packets hb.appList

theorem sentSize_le (h : Stocked b) : b.sentSize.toNat ≤ b.size.toNat := by
  rw [h.sized.sentSize, h.sized.size]
  omega

theorem size_lt (h : Stocked b) : b.size.toNat < 2 ^ 31 := by
  have hroom := h.sized.room
  have hsmall := h.sized.small
  rw [h.sized.size]
  omega

theorem setSent {f : Found} {s : TcpTxBuffer} (hfilled : ∀ it ∈ f.list, it.packet ≠ [])
    (happ : ∀ it ∈ s.appList, it.packet ≠ []) {r : Option TcpTxItem}
    (hout : handOut now s f = some (b', r)) :
    (∀ it ∈ b'.sentList, it.packet ≠ []) ∧ (∀ it ∈ b'.appList, it.packet ≠ []) ∧ r ≠ none := by
  obtain ⟨-, hout⟩ := Option.ite_none_right_eq_some.mp hout
  obtain ⟨rfl, rfl⟩ := Prod.mk.inj (Option.some.inj hout)
  simp only [Found.list, List.forall_mem_append, List.forall_mem_cons] at hfilled
  refine ⟨?_, happ, Option.some_ne_none _⟩
  simp only [TcpTxBuffer.setSent, Found.list, List.forall_mem_append, List.forall_mem_cons]
  exact hfilled

/-- A range with a byte is answered by an item. -/
theorem copyFrom {depth : Nat} {r : Option TcpTxItem} (h : Stocked b)
    (hcopy : TcpTxBuffer.copyFrom now b depth n seq = some (b', r)) :
    (∀ it ∈ b'.sentList, it.packet ≠ []) ∧ (∀ it ∈ b'.appList, it.packet ≠ []) ∧
      (r = none ↔ stdMin n (b.sizeFromSequence seq) = 0) := by
  induction depth generalizing n with
  | zero => cases hcopy
  | succ depth ih =>
    unfold TcpTxBuffer.copyFrom at hcopy
    split at hcopy
    · cases hcopy
    simp only at hcopy
    split at hcopy
    · rename_i hzero
      cases hcopy
      exact ⟨h.sent, h.unsent, by simp [hzero]⟩
    rename_i hn
    have hsent_lt : bytes every b.sentList < 2 ^ 32 := by
      have hroom := h.sized.room
      have hsmall := h.sized.small
      omega
    split at hcopy
    · obtain ⟨f, hf, hout⟩ := Option.bind_eq_some_iff.mp hcopy
      split at hout
      · cases hout
      unfold TcpTxBuffer.getTransmittedSegment at hf
      split at hf
      · cases hf
      split at hf
      · cases hf
      split at hf
      · cases hf
      obtain ⟨g, hget, rfl⟩ := Option.map_eq_some_iff.mp hf
      have hfilled := getPacketFromList_filled (segmentLimit_ne_zero hn h.sent hsent_lt) hget h.sent
      have hfilled' : ∀ it ∈ (if g.item.retrans then g else
          { g with
            retrans := g.retrans + g.item.size
            item := { g.item with retrans := true } }).list, it.packet ≠ [] := by
        split
        · exact hfilled
        · simpa only [Found.list, List.forall_mem_append, List.forall_mem_cons] using hfilled
      obtain ⟨hsent, happ, hsome⟩ := setSent hfilled' h.unsent hout
      exact ⟨hsent, happ, iff_of_false hsome hn⟩
    split at hcopy
    · split at hcopy
      · obtain ⟨⟨u, f⟩, hf, hout⟩ := Option.bind_eq_some_iff.mp hcopy
        simp only at hout
        split at hout
        · cases hout
        unfold TcpTxBuffer.getNewSegment at hf
        obtain ⟨g, hget, heq⟩ := Option.map_eq_some_iff.mp hf
        obtain ⟨rfl, rfl⟩ := Prod.mk.inj heq
        have hfilled := getPacketFromList_filled hn hget h.unsent
        simp only [Found.list, List.forall_mem_append, List.forall_mem_cons] at hfilled
        obtain ⟨hsent, happ, hsome⟩ := setSent (by
            simp only [Found.list, List.forall_mem_append, List.forall_mem_cons]
            exact ⟨h.sent, hfilled.2.1, by simp⟩) (by
            simp only [List.forall_mem_append]
            exact ⟨hfilled.1, hfilled.2.2⟩) hout
        exact ⟨hsent, happ, iff_of_false hsome hn⟩
      · cases hcopy
    split at hcopy
    · rename_i hacross
      obtain ⟨hsent, happ, hnone⟩ := ih hcopy
      refine ⟨hsent, happ, hnone.trans ⟨fun hzero => ?_, fun hzero => absurd hzero hn⟩⟩
      -- there are sent bytes from `seq` on
      have hpart : b.firstByteSeq + b.sentSize - seq ≠ 0 := by
        intro hsub
        rw [sub_eq_zero.mp hsub] at hacross
        exact absurd hacross.1 (by simp)
      have hpart' : b.sizeFromSequence seq ≠ 0 := by
        intro hsize
        rw [hsize] at hn
        exact hn (by simp [stdMin])
      exact absurd hzero (stdMin_ne_zero hpart hpart')
    · cases hcopy

theorem copyFromSequence {r : Option TcpTxItem} (h : Stocked b)
    (hcopy : b.copyFromSequence now n seq = some (b', r)) : Stocked b' := by
  obtain ⟨hsent, happ, -⟩ := h.copyFrom hcopy
  refine ⟨?_, hsent, happ⟩
  obtain ⟨-, rfl⟩ | ⟨it, -, hcopied⟩ := h.sized.copyFromSequence hcopy
  · exact h.sized
  · exact hcopied.sized

theorem add (h : Stocked b) (p : Packet) : Stocked (b.add p).1 := by
  refine ⟨(h.sized.add p).1, ?_, ?_⟩
  · unfold TcpTxBuffer.add
    simp only
    split
    · split
      · exact h.sent
      · exact h.sent
    · exact h.sent
  · unfold TcpTxBuffer.add
    simp only
    split
    · split
      · rename_i hpos
        simp only [List.forall_mem_append, List.forall_mem_singleton]
        refine ⟨h.unsent, fun hnil => ?_⟩
        change p.bytes = [] at hnil
        simp [hnil] at hpos
      · exact h.unsent
    · exact h.unsent

theorem removeHead {it : TcpTxItem} {k : BitVec 32} {l : List TcpTxItem} (h : Stocked b)
    (hsized : Sized b') (hl : ∀ it ∈ l, it.packet ≠ [])
    (hremove : b.removeHead it k l = some b') : Stocked b' := by
  unfold TcpTxBuffer.removeHead removeFromCounts at hremove
  split at hremove
  · cases hremove
  split at hremove
  · cases hremove
  split at hremove
  · cases hremove
  obtain rfl := Option.some.inj hremove
  exact ⟨hsized, hl, h.unsent⟩

theorem discard {fuel : Nat} (h : Stocked b)
    (hd : TcpTxBuffer.discard now fuel b offset = some b') : Stocked b' := by
  induction fuel generalizing b offset with
  | zero => cases hd
  | succ fuel ih =>
    unfold TcpTxBuffer.discard at hd
    split at hd
    · obtain rfl := Option.some.inj hd
      exact h
    obtain ⟨u, hpull, hd⟩ := Option.bind_eq_some_iff.mp hd
    have hu : Stocked u := by
      unfold TcpTxBuffer.pullSent at hpull
      split at hpull
      · obtain ⟨⟨v, r⟩, hcopy, hr⟩ := Option.bind_eq_some_iff.mp hpull
        obtain ⟨_, _, rfl⟩ := Option.map_eq_some_iff.mp hr
        exact h.copyFromSequence hcopy
      · obtain rfl := Option.some.inj hpull
        exact h
    split at hd
    · cases hd
    rename_i it rest hlist
    have hfilled := hu.sent
    rw [hlist, List.forall_mem_cons] at hfilled
    have hsize : it.size.toNat = it.packet.length := by
      have hroom := hu.sized.room
      have hsmall := hu.sized.small
      simp only [hlist, bytes_cons, every_eq, if_true] at hroom
      simp only [TcpTxItem.size, BitVec.toNat_ofNat]
      omega
    split at hd
    · cases hd
    split at hd
    · obtain ⟨v, hremove, hd⟩ := Option.bind_eq_some_iff.mp hd
      have hsized := hu.sized.removeHead hlist hsize.le
        (by rw [hlist, stream_cons, hsize, List.drop_left]) hremove
      exact ih (hu.removeHead hsized.1 hfilled.2 hremove) hd
    · rename_i hgt
      rw [BitVec.not_le, BitVec.lt_def] at hgt
      have hsized := hu.sized.removeHead (l := Counted.trimmed it offset :: rest) hlist (by omega)
        (by simp [hlist, Counted.trimmed,
          List.drop_append_of_le_length (show offset.toNat ≤ it.packet.length by omega)]) hd
      refine hu.removeHead hsized.1 (List.forall_mem_cons.mpr ⟨?_, hfilled.2⟩) hd
      apply List.ne_nil_of_length_pos
      simp only [List.length_drop]
      omega

theorem discardUpTo (h : Stocked b) (hd : b.discardUpTo now seq = some b') : Stocked b' := by
  have hsized := (h.sized.discardUpTo hd).1
  unfold TcpTxBuffer.discardUpTo at hd
  split at hd
  · obtain rfl := Option.some.inj hd
    exact h
  obtain ⟨u, hdiscard, hd⟩ := Option.bind_eq_some_iff.mp hd
  obtain ⟨v, hmove, hd⟩ := Option.bind_eq_some_iff.mp hd
  have hcatch : (u.catchFin seq).sentList = u.sentList ∧ (u.catchFin seq).appList = u.appList := by
    unfold TcpTxBuffer.catchFin
    split <;> exact ⟨rfl, rfl⟩
  have hreset : v.resetHighestSack.sentList = v.sentList ∧ v.resetHighestSack.appList = v.appList := by
    unfold TcpTxBuffer.resetHighestSack
    split <;> exact ⟨rfl, rfl⟩
  have hv := Rescored.moveSackFromHead hmove
  simp only at hd
  split at hd
  · cases hd
  split at hd
  · cases hd
  split at hd
  · cases hd
  obtain rfl := Option.some.inj hd
  refine (h.discard hdiscard).repacked hsized ?_ ?_
  · rw [hreset.1, hv.packets, hcatch.1]
  · rw [hreset.2, hv.appList, hcatch.2]

theorem resetSentList (h : Stocked b) : Stocked b.resetSentList := by
  have hsize := h.sized.size
  have hroom := h.sized.room
  have hsame : bytes every (b.sentList.map fun it =>
      { it with retrans := false, sacked := false, lost := false }) = bytes every b.sentList :=
    every_congr (by simp)
  refine ⟨⟨?_, rfl, ?_, h.sized.small⟩, by simp [TcpTxBuffer.resetSentList], ?_⟩
  · simp only [TcpTxBuffer.resetSentList, bytes_nil, bytes_append, hsame]
    omega
  · simp only [TcpTxBuffer.resetSentList, bytes_nil, bytes_append, hsame]
    omega
  · simp only [TcpTxBuffer.resetSentList, List.forall_mem_append, List.forall_mem_map]
    exact ⟨h.sent, h.unsent⟩

theorem resetLastSegmentSent (h : Stocked b) : Stocked b.resetLastSegmentSent := by
  refine ⟨h.sized.resetLastSegmentSent.1, ?_, ?_⟩
  · unfold TcpTxBuffer.resetLastSegmentSent
    split
    · exact h.sent
    · exact fun it hit => h.sent it (List.mem_of_mem_dropLast hit)
  · unfold TcpTxBuffer.resetLastSegmentSent
    split
    · exact h.unsent
    · rename_i it hlast
      exact List.forall_mem_cons.mpr ⟨h.sent it (List.mem_of_getLast? hlast), h.unsent⟩

theorem deleteRetransmittedFlagFromHead (h : Stocked b)
    (hd : b.deleteRetransmittedFlagFromHead = some b') : Stocked b' := by
  unfold TcpTxBuffer.deleteRetransmittedFlagFromHead at hd
  split at hd
  · obtain rfl := Option.some.inj hd
    exact h
  split at hd
  · cases hd
  rename_i head rest hlist
  split at hd
  · obtain rfl := Option.some.inj hd
    exact h.rescored ⟨rfl, rfl, rfl, rfl, rfl, by simp [hlist]⟩
  · obtain rfl := Option.some.inj hd
    exact h

theorem step {op : Op} (h : Stocked b) (hstep : b.step op = some b') : Stocked b' := by
  cases op with
  | add p =>
    obtain rfl := Option.some.inj hstep
    exact h.add p
  | copyFromSequence now n seq =>
    obtain ⟨⟨b', r⟩, hcopy, rfl⟩ := Option.map_eq_some_iff.mp hstep
    exact h.copyFromSequence hcopy
  | discardUpTo now seq => exact h.discardUpTo hstep
  | update blocks =>
    obtain ⟨⟨b', sacked⟩, hupdate, rfl⟩ := Option.map_eq_some_iff.mp hstep
    exact h.rescored (Rescored.update hupdate)
  | markHeadAsLost =>
    obtain rfl := Option.some.inj hstep
    exact h.rescored (Rescored.markHeadAsLost b)
  | addRenoSack => exact h.rescored (Rescored.addRenoSack hstep)
  | resetRenoSack =>
    obtain rfl := Option.some.inj hstep
    exact h.rescored (Rescored.resetRenoSack b)
  | setSentListLost resetSack => exact h.rescored (Rescored.setSentListLost hstep)
  | resetSentList =>
    obtain rfl := Option.some.inj hstep
    exact h.resetSentList
  | resetLastSegmentSent =>
    obtain rfl := Option.some.inj hstep
    exact h.resetLastSegmentSent
  | deleteRetransmittedFlagFromHead => exact h.deleteRetransmittedFlagFromHead hstep

theorem move (h : Stocked b) (hmove : BufferMove b b') : Stocked b' := by
  cases hmove with
  | step op hstep => exact h.step hstep
  | setHeadSequence seq hset =>
    refine ⟨(h.sized.setHeadSequence hset).1, ?_, ?_⟩
    all_goals
      obtain ⟨-, heq⟩ := Option.ite_none_right_eq_some.mp hset
      obtain rfl := Option.some.inj heq
    · exact h.sent
    · exact h.unsent
  | setSackEnabled sackEnabled =>
    exact ⟨⟨h.sized.size, h.sized.sentSize, h.sized.room, h.sized.small⟩, h.sent, h.unsent⟩

end Stocked

namespace TcpTxBuffer

/-- `seq` is the number of a byte of the buffer. -/
def Buffered (b : TcpTxBuffer) (seq : SequenceNumber 32) : Prop :=
  (seq - b.firstByteSeq).toNat < b.size.toNat

/-- The range of `n` bytes from `seq` on has a byte of the buffer. -/
def Asks (b : TcpTxBuffer) (n : BitVec 32) (seq : SequenceNumber 32) : Prop :=
  n ≠ 0 ∧ b.Buffered seq

/-- No lost segment is left to be sent again, there is unsent data, and the sent bytes are as many
as the window has. -/
def FillsWindow (b : TcpTxBuffer) (rWnd : BitVec 32) : Prop :=
  (∀ it ∈ b.sentList, it.lost = true → it.retrans = true ∨ it.sacked = true) ∧
    b.sentSize < b.size ∧ b.sentSize = rWnd

end TcpTxBuffer

theorem stdMin_zero (a : BitVec 32) : stdMin a 0 = 0 := by
  apply BitVec.eq_of_toNat_eq
  rw [stdMin_toNat]
  exact Nat.min_eq_right (Nat.zero_le _)

section Ranges
variable {b : TcpTxBuffer} {now : Int} {n : BitVec 32} {seq : SequenceNumber 32}

theorem lt_add_iff {m : BitVec 32} (hm : m.toNat < 2 ^ 31) : lt seq (seq + m) = true ↔ m ≠ 0 := by
  have hlt : lt (at32 seq 0) (at32 seq m.toNat) ↔ 0 < m.toNat := lt_at32 (by omega) (by omega)
  rw [at32_zero, at32, BitVec.ofNat_toNat, BitVec.setWidth_eq] at hlt
  rw [hlt, Nat.pos_iff_ne_zero]
  exact not_congr ⟨fun h => BitVec.eq_of_toNat_eq h, fun h => by simp [h]⟩

theorem Sized.buffered_iff (h : Sized b) :
    b.Buffered seq ↔ le b.firstByteSeq seq = true ∧ b.sizeFromSequence seq ≠ 0 := by
  have hroom := h.room
  have hsmall := h.small
  have hsize := h.size
  have hlt : b.size.toNat < 2 ^ 31 := by omega
  have hhalf : (halfMaxValue 32).toNat = 2147483647 := rfl
  have hfirst := b.firstByteSeq.isLt
  have hseq := seq.isLt
  have hzero (x : BitVec 32) : x ≠ 0 ↔ x.toNat ≠ 0 :=
    not_congr ⟨fun h => by simp [h], fun h => BitVec.eq_of_toNat_eq h⟩
  have h0 : (0 : BitVec 32).toNat = 0 := rfl
  unfold TcpTxBuffer.sizeFromSequence
  rw [TcpTxBuffer.Buffered, TcpTxBuffer.tailSequence, distance_eq, hzero]
  split
  · rename_i hge
    simp only [ge, gt, Bool.or_eq_true, Bool.and_eq_true, decide_eq_true_eq, BitVec.lt_def,
      BitVec.le_def, BitVec.toNat_add, BitVec.toNat_sub, hhalf, ← BitVec.toNat_inj] at hge
    simp only [le, gt, Bool.not_eq_true', Bool.or_eq_false_iff, Bool.and_eq_false_iff,
      decide_eq_false_iff_not, BitVec.lt_def, BitVec.le_def, BitVec.toNat_add, BitVec.toNat_sub, hhalf]
    omega
  · rename_i hge
    simp only [ge, gt, Bool.not_eq_true, Bool.or_eq_false_iff, Bool.and_eq_false_iff,
      decide_eq_false_iff_not, BitVec.lt_def, BitVec.le_def, BitVec.toNat_add, BitVec.toNat_sub, hhalf,
      ← BitVec.toNat_inj] at hge
    simp only [le, gt, Bool.not_eq_true', Bool.or_eq_false_iff, Bool.and_eq_false_iff,
      decide_eq_false_iff_not, BitVec.lt_def, BitVec.le_def, BitVec.toNat_sub, hhalf, h0]
    omega

/-- A null pointer is returned exactly for a range without a byte. -/
theorem Stocked.null_iff (h : Stocked b) :
    (∃ b', b.copyFromSequence now n seq = some (b', none)) ↔
      le b.firstByteSeq seq = true ∧ ¬ b.Asks n seq := by
  have hmin : stdMin n (b.sizeFromSequence seq) = 0 ↔ n = 0 ∨ b.sizeFromSequence seq = 0 := by
    constructor
    · intro hzero
      by_contra hnot
      rw [not_or] at hnot
      exact stdMin_ne_zero hnot.1 hnot.2 hzero
    · rintro (h0 | h0)
      · simp [stdMin, h0]
      · rw [h0, stdMin_zero]
  have hasks (hle : le b.firstByteSeq seq = true) :
      ¬ b.Asks n seq ↔ stdMin n (b.sizeFromSequence seq) = 0 := by
    rw [hmin, TcpTxBuffer.Asks, h.sized.buffered_iff, not_and_or, not_and_or, not_not, not_not]
    simp [hle]
  constructor
  · rintro ⟨b', hcopy⟩
    have hzero := (h.copyFrom hcopy).2.2.mp rfl
    unfold TcpTxBuffer.copyFromSequence TcpTxBuffer.copyFrom at hcopy
    split at hcopy
    · cases hcopy
    · rename_i hgt
      have hle : le b.firstByteSeq seq = true := by simpa [le] using hgt
      exact ⟨hle, (hasks hle).mpr hzero⟩
  · rintro ⟨hle, hnot⟩
    have hgt : ¬ gt b.firstByteSeq seq = true := by simpa [le] using hle
    refine ⟨b, ?_⟩
    unfold TcpTxBuffer.copyFromSequence TcpTxBuffer.copyFrom
    rw [if_neg hgt]
    simp only
    rw [if_pos ((hasks hle).mp hnot)]

/-- The loop of `NextSeg` finds the start of an item. -/
theorem nextLost_spec (isRecovery : Bool) (origin : SequenceNumber 32) (x : Nat)
    (rule3 : Option (SequenceNumber 32)) {l : List TcpTxItem} (hl : ∀ it ∈ l, it.packet ≠ []) :
    match nextLost isRecovery (at32 origin x) rule3 l with
    | .inl seq =>
      (∃ y, x ≤ y ∧ y < x + bytes every l ∧ seq = at32 origin y) ∧
        ∃ it ∈ l, it.lost = true ∧ it.retrans = false ∧ it.sacked = false
    | .inr r =>
      (∀ it ∈ l, it.lost = true → it.retrans = true ∨ it.sacked = true) ∧
        (r = rule3 ∨ ∃ y, x ≤ y ∧ y < x + bytes every l ∧ r = some (at32 origin y)) := by
  induction l generalizing x rule3 with
  | nil => exact ⟨by simp, .inl rfl⟩
  | cons it rest ih =>
    simp only [List.forall_mem_cons] at hl
    have hlen := List.length_pos_iff.mpr hl.1
    have hnext : at32 origin x + it.size = at32 origin (x + it.packet.length) := at32_add origin x _
    unfold nextLost
    rw [hnext]
    simp only [bytes_cons, every_eq, if_true]
    by_cases hfree : (!it.retrans && !it.sacked) = true
    · rw [if_pos hfree]
      simp only [Bool.and_eq_true, Bool.not_eq_true'] at hfree
      by_cases hlost : it.lost = true
      · rw [if_pos hlost]
        exact ⟨⟨x, by omega, by omega, rfl⟩, it, List.mem_cons_self, hlost, hfree.1, hfree.2⟩
      · rw [if_neg hlost]
        have hrest := ih (x + it.packet.length)
          (if rule3.getD 0 = 0 && isRecovery then some (at32 origin x) else rule3) hl.2
        split at hrest
        · obtain ⟨⟨y, hlo, hhi, hy⟩, it', hit', hflags⟩ := hrest
          exact ⟨⟨y, by omega, by omega, hy⟩, it', List.mem_cons_of_mem _ hit', hflags⟩
        · obtain ⟨hall, hrule⟩ := hrest
          refine ⟨List.forall_mem_cons.mpr ⟨fun h => absurd h hlost, hall⟩, ?_⟩
          rcases hrule with hrule | ⟨y, hlo, hhi, hy⟩
          · split at hrule
            · exact .inr ⟨x, by omega, by omega, hrule⟩
            · exact .inl hrule
          · exact .inr ⟨y, by omega, by omega, hy⟩
    · rw [if_neg hfree]
      have hrest := ih (x + it.packet.length) rule3 hl.2
      split at hrest
      · obtain ⟨⟨y, hlo, hhi, hy⟩, it', hit', hflags⟩ := hrest
        exact ⟨⟨y, by omega, by omega, hy⟩, it', List.mem_cons_of_mem _ hit', hflags⟩
      · obtain ⟨hall, hrule⟩ := hrest
        refine ⟨List.forall_mem_cons.mpr ⟨fun _ => ?_, hall⟩, ?_⟩
        · simp only [Bool.and_eq_true, Bool.not_eq_true', not_and_or, Bool.not_eq_false] at hfree
          exact hfree
        · exact hrule.imp id fun ⟨y, hlo, hhi, hy⟩ => ⟨y, by omega, by omega, hy⟩

theorem Stocked.buffered_at (h : Stocked b) {y : Nat} (hy : y < bytes every b.sentList) :
    b.Buffered (at32 b.firstByteSeq y) := by
  have hsize := h.sized.size
  have hlt := h.size_lt
  rw [TcpTxBuffer.Buffered, at32_sub_toNat (by omega)]
  omega

/-- There is unsent data. -/
theorem Stocked.unsent_iff (h : Stocked b) :
    0 < b.sizeFromSequence (b.firstByteSeq + b.sentSize) ↔ b.sentSize < b.size := by
  have hle := h.sentSize_le
  have hlt := h.size_lt
  have hafter : le b.firstByteSeq (b.firstByteSeq + b.sentSize) = true := by
    have hle : le (at32 b.firstByteSeq 0) (at32 b.firstByteSeq b.sentSize.toNat) ↔
        0 ≤ b.sentSize.toNat := le_at32 (by omega) (by omega)
    rw [at32_zero, at32, BitVec.ofNat_toNat, BitVec.setWidth_eq] at hle
    exact hle.mpr (Nat.zero_le _)
  have hiff : b.Buffered (b.firstByteSeq + b.sentSize) ↔ _ := h.sized.buffered_iff
  rw [TcpTxBuffer.Buffered, add_sub_cancel_left] at hiff
  rw [BitVec.lt_def (x := b.sentSize), hiff, and_iff_right hafter]
  exact BitVec.pos_iff_ne_zero _

/-- What `NextSeg` returns is a range of the buffer, and empty where the sent bytes fill the
window. -/
theorem Stocked.nextSeg (h : Stocked b) {segmentSize rWnd : BitVec 32} {isRecovery : Bool}
    {seq seqHigh : SequenceNumber 32} (hpos : 0 < segmentSize.toNat)
    (hseg : segmentSize.toNat < 2 ^ 31)
    (hnext : b.nextSeg segmentSize rWnd isRecovery = some (seq, seqHigh)) :
    b.Buffered seq ∧ ∃ m : BitVec 32, seqHigh = seq + m ∧ m.toNat < 2 ^ 31 ∧
      (m ≠ 0 ↔ ¬ b.FillsWindow rWnd) := by
  have hsegment : segmentSize ≠ 0 := fun h0 => by simp [h0] at hpos
  have hspec := nextLost_spec isRecovery b.firstByteSeq 0 none h.sent
  rw [at32_zero] at hspec
  unfold TcpTxBuffer.nextSeg at hnext
  split at hspec
  · rename_i heq
    rw [heq] at hnext
    obtain ⟨rfl, rfl⟩ := Prod.mk.inj (Option.some.inj hnext)
    obtain ⟨⟨y, -, hy, rfl⟩, it, hit, hlost, hretrans, hsacked⟩ := hspec
    refine ⟨h.buffered_at (by omega), segmentSize, rfl, hseg, iff_of_true hsegment fun hfull => ?_⟩
    rcases hfull.1 it hit hlost with hbusy | hbusy
    · simp [hretrans] at hbusy
    · simp [hsacked] at hbusy
  · rename_i r heq
    rw [heq] at hnext
    obtain ⟨hall, hrule⟩ := hspec
    simp only at hnext
    split at hnext
    · rename_i hunsent
      have hroom := h.unsent_iff.mp hunsent
      split at hnext
      · rename_i hwindow
        obtain ⟨rfl, rfl⟩ := Prod.mk.inj (Option.some.inj hnext)
        refine ⟨?_, _, rfl, ?_, ?_⟩
        · rw [TcpTxBuffer.Buffered, add_sub_cancel_left]
          exact hroom
        · rw [stdMin_toNat]
          omega
        · rw [← not_iff_not, not_not, not_not]
          constructor
          · intro hzero
            refine ⟨hall, hroom, ?_⟩
            by_contra hne
            exact stdMin_ne_zero hsegment (fun hsub => hne (sub_eq_zero.mp hsub).symm) hzero
          · rintro ⟨-, -, hfull⟩
            rw [hfull, sub_self]
            exact stdMin_zero _
      · cases hnext
    · rename_i hsent
      obtain ⟨q, rfl, hrange⟩ := Option.map_eq_some_iff.mp hnext
      obtain ⟨rfl, rfl⟩ := Prod.mk.inj hrange
      rcases hrule with hrule | ⟨y, -, hy, hrule⟩
      · cases hrule
      · obtain rfl := Option.some.inj hrule
        refine ⟨h.buffered_at (by omega), segmentSize, rfl, hseg, iff_of_true hsegment fun hfull => ?_⟩
        exact hsent (h.unsent_iff.mpr hfull.2.1)

/-- Without a range to offer, no unsent data fits the window. -/
theorem Stocked.nextSeg_none (h : Stocked b) {segmentSize rWnd : BitVec 32} {isRecovery : Bool}
    (hnext : b.nextSeg segmentSize rWnd isRecovery = none) : ¬ b.FillsWindow rWnd := by
  rintro ⟨-, hroom, hfull⟩
  unfold TcpTxBuffer.nextSeg at hnext
  split at hnext
  · cases hnext
  · rw [if_pos (h.unsent_iff.mpr hroom), if_pos (hfull ▸ BitVec.le_refl _)] at hnext
    cases hnext

end Ranges

namespace TcpSocketBase

/-- The range that `SendPendingData` asks for, with a window of `available` bytes. -/
def pendingRange (s : TcpSocketBase) (isRecovery : Bool) (available : BitVec 32) :
    Option (SequenceNumber 32 × BitVec 32) :=
  (s.nextSegment isRecovery).map fun (next, nextHigh) =>
    (next, stdMin (stdMin available s.segmentSize) (distance nextHigh next))

end TcpSocketBase

/-- Each of the three functions asks for a byte of the buffer exactly under its own condition, and
the buffer answers with a null pointer exactly where it is asked for none. -/
theorem requests_nonempty_iff {n : SequenceNumber 32} {maxBuffer dupAckThresh : BitVec 32}
    {sackEnabled : Bool} {s : TcpSocketBase} (hmax : maxBuffer.toNat < 2 ^ 31)
    (hrun : Relation.ReflTransGen BufferMove (.new n maxBuffer dupAckThresh sackEnabled) s.txBuffer)
    (hpos : 0 < s.segmentSize.toNat) (hseg : s.segmentSize.toNat < 2 ^ 31) :
    (∀ isRecovery seq seqHigh, s.nextSegment isRecovery = some (seq, seqHigh) →
      (s.txBuffer.Buffered seq ∧ lt seq seqHigh = true ↔ ¬ s.txBuffer.FillsWindow s.rWnd)) ∧
    (∀ isRecovery available seq size, available ≠ 0 →
      s.pendingRange isRecovery available = some (seq, size) →
        (s.txBuffer.Asks size seq ↔ ¬ s.txBuffer.FillsWindow s.rWnd)) ∧
    (s.txBuffer.Asks s.retransmitRange.2 s.retransmitRange.1 ↔
      s.txBuffer.size ≠ 0 ∧ ¬ s.txBuffer.FillsWindow s.rWnd) ∧
    (s.txBuffer.Asks 1 s.nextTxSequence ↔
      le s.txBuffer.firstByteSeq s.nextTxSequence = true ∧
        s.txBuffer.sizeFromSequence s.nextTxSequence ≠ 0) ∧
    ∀ now m seq, (∃ b', s.txBuffer.copyFromSequence now m seq = some (b', none)) ↔
      le s.txBuffer.firstByteSeq seq = true ∧ ¬ s.txBuffer.Asks m seq := by
  have h : Stocked s.txBuffer :=
    Transition.run_invariant (fun _ _ h hmove => h.move hmove) (.new hmax) hrun
  have hsegment : s.segmentSize ≠ 0 := fun h0 => by simp [h0] at hpos
  have hdistance (seq m : BitVec 32) : distance (seq + m) seq = m := by
    rw [distance_eq, add_sub_cancel_left]
  refine ⟨fun isRecovery seq seqHigh hnext => ?_, fun isRecovery available seq size havail hrange => ?_,
    ?_, ?_, fun now m seq => h.null_iff⟩
  · obtain ⟨hin, m, rfl, hm, hiff⟩ := h.nextSeg hpos hseg hnext
    rw [and_iff_right hin, lt_add_iff hm, hiff]
  · obtain ⟨⟨next, nextHigh⟩, hnext, heq⟩ := Option.map_eq_some_iff.mp hrange
    obtain ⟨rfl, rfl⟩ := Prod.mk.inj heq
    obtain ⟨hin, m, rfl, -, hiff⟩ := h.nextSeg hpos hseg hnext
    simp only [hdistance]
    rw [TcpTxBuffer.Asks, and_iff_left hin, ← hiff]
    refine ⟨fun hne h0 => hne ?_, fun hne => stdMin_ne_zero (stdMin_ne_zero havail hsegment) hne⟩
    rw [h0, stdMin_zero]
  · unfold TcpSocketBase.retransmitRange
    split
    · rename_i hnone
      rw [TcpTxBuffer.Asks, TcpTxBuffer.Buffered, sub_self, and_iff_right hsegment,
        and_iff_left (h.nextSeg_none hnone)]
      exact ⟨fun hlt h0 => by simp [h0] at hlt, fun hne => (BitVec.pos_iff_ne_zero _).mpr hne⟩
    · rename_i seq seqHigh hnext
      obtain ⟨hin, m, rfl, -, hiff⟩ := h.nextSeg hpos hseg hnext
      simp only [hdistance]
      rw [TcpTxBuffer.Asks, and_iff_left hin, hiff]
      refine (and_iff_right fun h0 => ?_).symm
      simp [TcpTxBuffer.Buffered, h0] at hin
  · rw [TcpTxBuffer.Asks, and_iff_right (by decide), h.sized.buffered_iff]

/-- Attributes of a socket that sends one byte in a segment. -/
def bytewise : Attributes where
  sndBufSize := 100
  rcvBufSize := 100
  segmentSize := 1
  initialCwnd := 10
  connCount := 6
  dataRetries := 6
  delAckCount := 2
  tcpNoDelay := true
  windowScaling := false
  sack := true
  timestamp := false
  limitedTransmit := true
  retxThresh := 3
  maxWindowSize := 65535
  enablePacing := false
  paceInitialWindow := false
  useEcn := .off
  hasCongControl := false

/-- A byte that waits to be sent. -/
theorem requests_nonempty_iff_one :
    ((TcpTxBuffer.new 0 100 3 true).add ⟨[1], by decide⟩).1.Asks 1 0 := by
  have hmove : BufferMove (.new 0 100 3 true)
      ((TcpTxBuffer.new 0 100 3 true).add ⟨[1], by decide⟩).1 := .step (.add ⟨[1], by decide⟩) rfl
  exact (requests_nonempty_iff
    (s := { TcpSocketBase.new bytewise with
      txBuffer := ((TcpTxBuffer.new 0 100 3 true).add ⟨[1], by decide⟩).1 })
    (by decide) (.single hmove) (by decide) (by decide)).2.2.2.1.mpr ⟨by decide, by decide⟩

namespace TcpSocketBase

/-- The machine after the inputs, if none of them stops it. -/
def runInputs (m : Machine) : List Input → Option Machine
  | [] => some m
  | i :: is =>
    match step i m with
    | .ok _ m' => runInputs m' is
    | .error _ _ => none

theorem reaches_runInputs {a : Attributes} {m m' : Machine} {is : List Input} (h : Reaches a m)
    (hrun : runInputs m is = some m') : Reaches a m' := by
  induction is generalizing m with
  | nil =>
    obtain rfl := Option.some.inj hrun
    exact h
  | cons i is ih =>
    unfold runInputs at hrun
    split at hrun
    · rename_i hstep
      exact ih (h.step i hstep) hrun
    · cases hrun

theorem reaches_any {a : Attributes} (is : List Input) {p : Machine → Bool}
    (h : (runInputs (Machine.start a) is).any p = true) : ∃ m, Reaches a m ∧ p m = true := by
  cases hrun : runInputs (Machine.start a) is with
  | none =>
    rw [hrun] at h
    cases h
  | some m =>
    rw [hrun, Option.any_some] at h
    exact ⟨m, reaches_runInputs .start hrun, h⟩

def stopsNull : EStateM.Result Failure Machine Unit → Bool
  | .error .null _ => true
  | _ => false

theorem reaches_null {a : Attributes} (is : List Input) {i : Input}
    (h : ((runInputs (Machine.start a) is).any fun m => stopsNull (step i m)) = true) :
    ∃ m, Reaches a m ∧ ∃ m', step i m = .error .null m' := by
  obtain ⟨m, hreach, hstop⟩ := reaches_any is h
  unfold stopsNull at hstop
  split at hstop
  · rename_i m' hstep
    exact ⟨m, hreach, m', hstep⟩
  · cases hstop

/-- An input without an answer of the application. -/
def plain (e : Event) : Input := ⟨e, 0, [], [], 10, 1⟩

/-- The answer to the first SYN. -/
def synAck (window : BitVec 16) : Segment :=
  ⟨SYN ||| ACK, 0, 1, window, none, true, false, [], []⟩

end TcpSocketBase

/-- With a window of zero from the start the persist timer finds nothing to send. And of three bytes
two fill the window, of which the second one is sacked. -/
theorem null_requested :
    (∃ m, Reaches bytewise m ∧ ∃ m', TcpSocketBase.step (plain .persistEvent) m = .error .null m') ∧
      ∃ m, Reaches bytewise m ∧ ∃ m', TcpSocketBase.step
        (plain (.forwardUp .notEct ⟨.ACK, 1, 1, 2, none, false, false, [[(2, 3)]], []⟩)) m =
          .error .null m' := by
  constructor
  · exact reaches_null [plain (.call (.connect true true)),
      plain (.forwardUp .notEct (synAck 0))] (by decide +kernel)
  · exact reaches_null [plain (.call (.connect true true)),
      plain (.forwardUp .notEct (synAck 2)), plain (.call (.send ⟨[1, 2, 3], by decide⟩)),
      plain .sendPendingDataEvent] (by decide +kernel)

end CudaNs3.Tcp
