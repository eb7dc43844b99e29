import CudaNs3.Tcp.TxStream
import CudaNs3.Tcp.Socket

/-!
# What a send buffer holds

Every function that the socket calls on its send buffer keeps the sizes, in whatever order they
are called: the flags of the items, which the scoreboard may get wrong, are not looked at. What is
handed out is a piece of the bytes held.
-/

namespace CudaNs3.Tcp

open SequenceNumber TcpTxBuffer
set_option autoImplicit false

/-- The sizes as natural numbers, for a buffer that the sequence numbers can order. -/
structure Sized (s : TcpTxBuffer) : Prop where
  size : s.size.toNat = bytes every s.sentList + bytes every s.appList
  sentSize : s.sentSize.toNat = bytes every s.sentList
  room : bytes every s.sentList + bytes every s.appList ≤ s.maxBuffer.toNat
  small : s.maxBuffer.toNat < 2 ^ 31

/-- Nothing but the flags of sent items and the counters of flags has changed. -/
structure Rescored (s t : TcpTxBuffer) : Prop where
  maxBuffer : t.maxBuffer = s.maxBuffer
  size : t.size = s.size
  sentSize : t.sentSize = s.sentSize
  firstByteSeq : t.firstByteSeq = s.firstByteSeq
  appList : t.appList = s.appList
  packets : t.sentList.map TcpTxItem.packet = s.sentList.map TcpTxItem.packet

theorem stream_congr {l l' : List TcpTxItem}
    (h : l'.map TcpTxItem.packet = l.map TcpTxItem.packet) : stream l' = stream l := by
  rw [stream, stream, List.flatMap_def, List.flatMap_def, h]

theorem every_congr {l l' : List TcpTxItem}
    (h : l'.map TcpTxItem.packet = l.map TcpTxItem.packet) : bytes every l' = bytes every l := by
  rw [← length_stream, ← length_stream, stream_congr h]

namespace Rescored
variable {s t u : TcpTxBuffer}

theorem refl (s : TcpTxBuffer) : Rescored s s := ⟨rfl, rfl, rfl, rfl, rfl, rfl⟩

theorem trans (h : Rescored s t) (h' : Rescored t u) : Rescored s u where
  maxBuffer := h'.maxBuffer.trans h.maxBuffer
  size := h'.size.trans h.size
  sentSize := h'.sentSize.trans h.sentSize
  firstByteSeq := h'.firstByteSeq.trans h.firstByteSeq
  appList := h'.appList.trans h.appList
  packets := h'.packets.trans h.packets

theorem view (h : Rescored s t) : t.view = s.view := by
  rw [TcpTxBuffer.view, TcpTxBuffer.view, h.maxBuffer, h.firstByteSeq, h.appList,
    stream_congr h.packets]

theorem sized (h : Rescored s t) (hs : Sized s) : Sized t where
  size := by rw [h.size, h.appList, every_congr h.packets, hs.size]
  sentSize := by rw [h.sentSize, every_congr h.packets, hs.sentSize]
  room := by
    rw [h.maxBuffer, h.appList, every_congr h.packets]
    exact hs.room
  small := h.maxBuffer ▸ hs.small

theorem markHeadAsLost (s : TcpTxBuffer) : Rescored s s.markHeadAsLost := by
  unfold TcpTxBuffer.markHeadAsLost
  split
  · exact refl s
  · rename_i head rest hlist
    exact ⟨rfl, rfl, rfl, rfl, rfl, by simp [hlist]⟩

theorem addRenoSack (h : s.addRenoSack = some t) : Rescored s t := by
  unfold TcpTxBuffer.addRenoSack at h
  split at h
  · cases h
  rename_i head rest hlist
  split at h
  · cases h
  split at h
  · obtain rfl := Option.some.inj h
    exact refl s
  · rename_i rest' it hfirst
    obtain rfl := Option.some.inj h
    obtain ⟨l₁, l₂, hl, hl', -⟩ := sackFirst_eq_some hfirst
    exact ⟨rfl, rfl, rfl, rfl, rfl, by simp [hlist, hl, hl']⟩

theorem resetRenoSack (s : TcpTxBuffer) : Rescored s s.resetRenoSack :=
  ⟨rfl, rfl, rfl, rfl, rfl, by simp [TcpTxBuffer.resetRenoSack]⟩

theorem setSentListLost {resetSack : Bool} (h : s.setSentListLost resetSack = some t) :
    Rescored s t := by
  unfold TcpTxBuffer.setSentListLost at h
  generalize (if resetSack then s.sentSize else 0) = lostOut at h
  have hpackets := (Counted.loseAll_keeps resetSack lostOut s.sentList).1
  generalize loseAll resetSack lostOut s.sentList = lost at h hpackets
  obtain ⟨items, lostOut⟩ := lost
  obtain ⟨-, ht⟩ := Option.ite_none_left_eq_some.mp h
  obtain rfl := Option.some.inj ht
  exact ⟨rfl, rfl, rfl, rfl, rfl, hpackets⟩

theorem moveSackFromHead (h : s.moveSackFromHead = some t) : Rescored s t := by
  unfold TcpTxBuffer.moveSackFromHead at h
  split at h
  · obtain rfl := Option.some.inj h
    exact refl s
  rename_i head rest hlist
  split at h
  · split at h
    · cases h
    obtain ⟨u, hadd, rfl⟩ := Option.map_eq_some_iff.mp h
    have hclear : Rescored s { s with
        sentList := { head with sacked := false } :: rest
        sackedOut := s.sackedOut - head.size } := ⟨rfl, rfl, rfl, rfl, rfl, by simp [hlist]⟩
    exact (hclear.trans (addRenoSack hadd)).trans (markHeadAsLost u)
  · obtain rfl := Option.some.inj h
    exact refl s

theorem updateLostCount (h : s.updateLostCount = some t) : Rescored s t := by
  unfold TcpTxBuffer.updateLostCount at h
  split at h
  · rename_i node head rest _ hlist
    obtain ⟨⟨upTo, behind⟩, hfind, heq⟩ := Option.map_eq_some_iff.mp h
    have happend : rest = upTo ++ behind := by
      split at hfind
      · cases hfind
        rfl
      · exact upToNode_append hfind
    have hlose := (loseItems_marked s.dupAckThresh s.lostOut s.sackedOut upTo).packets
    simp only at heq
    split at heq
    · subst heq
      exact ⟨rfl, rfl, rfl, rfl, rfl, by simp [hlist, happend, hlose]⟩
    · subst heq
      exact ⟨rfl, rfl, rfl, rfl, rfl, by simp [hlist, happend, hlose]⟩
  · cases h

theorem update {blocks : List SackBlock} {n : BitVec 32} (h : s.update blocks = some (t, n)) :
    Rescored s t := by
  unfold TcpTxBuffer.update at h
  obtain ⟨⟨items, k, early⟩, hblocks, h⟩ := Option.bind_eq_some_iff.mp h
  have hitems : Rescored s { s with
      sentList := items
      lostOut := k.lostOut
      sackedOut := k.sackedOut
      highestSack := k.highestSack } :=
    ⟨rfl, rfl, rfl, rfl, rfl, (updateBlocks_marked hblocks).packets⟩
  simp only at h
  split at h
  · obtain ⟨rfl, rfl⟩ := Prod.mk.inj (Option.some.inj h)
    exact hitems
  · obtain ⟨u, hu, h⟩ := Option.bind_eq_some_iff.mp h
    split at h
    · cases h
    split at h
    · cases h
    obtain ⟨rfl, rfl⟩ := Prod.mk.inj (Option.some.inj h)
    split at hu
    · obtain rfl := Option.some.inj hu
      exact hitems
    · exact hitems.trans (updateLostCount hu)

end Rescored

section Search
variable {una : Option (SequenceNumber 32)} {numBytes : BitVec 32} {seq begin : SequenceNumber 32}
  {fuel node : Nat} {r : BitVec 32} {l : List TcpTxItem} {f : Found}

/-- What is before the item found ends where it was asked for. -/
theorem getPacketFromList_place (h : getPacketFromList una numBytes seq fuel begin r node l = some f) :
    begin + BitVec.ofNat 32 (bytes every f.before) = seq := by
  induction fuel generalizing begin r node l f with
  | zero => cases h
  | succ fuel ih =>
    cases l with
    | nil => cases h
    | cons current rest =>
      unfold getPacketFromList at h
      split at h
      · cases h
      split at h
      · split at h
        · rename_i hseq
          split at h
          · split at h
            · cases h
              simp [hseq]
            split at h
            · obtain ⟨p, -, rfl⟩ := Option.map_eq_some_iff.mp h
              simp [hseq]
            · cases h
          · cases rest with
            | nil =>
              cases h
              simp [hseq]
            | cons next rest =>
              obtain ⟨p, -, h⟩ := Option.bind_eq_some_iff.mp h
              exact ih h
        split at h
        · obtain ⟨p, -, h⟩ := Option.bind_eq_some_iff.mp h
          exact ih h
        · cases h
      · obtain ⟨g, hg, rfl⟩ := Option.map_eq_some_iff.mp h
        have hplace := ih hg
        rw [← hplace]
        simp [TcpTxItem.size, BitVec.ofNat_add, BitVec.add_assoc]

theorem gt_of_add_le {b n k : BitVec 32} (hk : k.toNat < 2 ^ 31) (hn : n.toNat ≤ k.toNat) :
    gt (b + n) (b + k) = false := by
  have hb := b.isLt
  have hhalf : (halfMaxValue 32).toNat = 2147483647 := rfl
  simp only [gt, Bool.or_eq_false_iff, Bool.and_eq_false_iff, decide_eq_false_iff_not,
    BitVec.lt_def, BitVec.le_def, BitVec.toNat_add, BitVec.toNat_sub, hhalf]
  omega

/-- No more is found than was asked for. -/
theorem getPacketFromList_le (hsmall : bytes every l < 2 ^ 31)
    (h : getPacketFromList una numBytes seq fuel begin r node l = some f) :
    f.item.packet.length ≤ numBytes.toNat := by
  induction fuel generalizing begin r node l f with
  | zero => cases h
  | succ fuel ih =>
    cases l with
    | nil => cases h
    | cons current rest =>
      have hcurrent : current.size.toNat = current.packet.length := by
        simp only [bytes_cons, every_eq, if_true] at hsmall
        simp only [TcpTxItem.size, BitVec.toNat_ofNat]
        omega
      unfold getPacketFromList at h
      split at h
      · cases h
      split at h
      · split at h
        · rename_i hseq
          split at h
          · split at h
            · rename_i hsize
              cases h
              simp [hsize, hcurrent]
            split at h
            · obtain ⟨⟨a, b⟩, hsplit, rfl⟩ := Option.map_eq_some_iff.mp h
              unfold splitItems at hsplit
              split at hsplit
              · cases hsplit
              obtain ⟨rfl, rfl⟩ := Prod.mk.inj (Option.some.inj hsplit)
              exact List.length_take_le _ _
            · cases h
          · rename_i hle
            cases rest with
            | nil =>
              cases h
              change current.packet.length ≤ numBytes.toNat
              by_contra hgt
              apply hle
              rw [hseq, le, gt_of_add_le, Bool.not_false]
              · simpa [hcurrent] using hsmall
              · omega
            | cons next rest =>
              obtain ⟨⟨r', t⟩, hmerge, h⟩ := Option.bind_eq_some_iff.mp h
              exact ih ((Recut.merge hmerge rest).every ▸ hsmall) h
        split at h
        · obtain ⟨⟨a, b⟩, hsplit, h⟩ := Option.bind_eq_some_iff.mp h
          exact ih ((Recut.split hsplit rest r).every ▸ hsmall) h
        · cases h
      · obtain ⟨g, hg, rfl⟩ := Option.map_eq_some_iff.mp h
        change g.item.packet.length ≤ numBytes.toNat
        refine ih ?_ hg
        simp only [bytes_cons, every_eq, if_true] at hsmall
        omega

end Search

/-- What `CopyFromSequence` hands out: a piece of the bytes held from `seq` on. The buffer still
holds them all. -/
structure Copied (s t : TcpTxBuffer) (n : BitVec 32) (seq : SequenceNumber 32) (it : TcpTxItem) :
    Prop where
  sized : Sized t
  view : t.view = s.view
  size : t.size = s.size
  le : it.packet.length ≤ (stdMin n (s.sizeFromSequence seq)).toNat
  sentSize : t.sentSize.toNat ≤ s.sentSize.toNat + it.packet.length
  bytes : it.packet = (s.view.pending.drop (seq - s.firstByteSeq).toNat).take it.packet.length

namespace Sized
variable {s t : TcpTxBuffer}

theorem new {n : SequenceNumber 32} {maxBuffer dupAckThresh : BitVec 32} {sackEnabled : Bool}
    (hmax : maxBuffer.toNat < 2 ^ 31) : Sized (.new n maxBuffer dupAckThresh sackEnabled) :=
  ⟨rfl, rfl, Nat.zero_le _, hmax⟩

theorem length_pending (h : Sized s) : s.view.pending.length = s.size.toNat := by
  rw [Streamed.length_pending, h.size]

theorem add (h : Sized s) (p : Packet) :
    Sized (s.add p).1 ∧ (s.add p).1.firstByteSeq = s.firstByteSeq ∧
      (s.add p).1.view.pending = s.view.pending ++ (if (s.add p).2 then p.bytes else []) ∧
        (s.add p).1.sentSize = s.sentSize := by
  have hsize := h.size
  have hroom := h.room
  have hsmall := h.small
  have hlen := p.length_lt
  unfold TcpTxBuffer.add
  simp only
  split
  · rename_i hle
    simp only [available, BitVec.le_def, BitVec.toNat_sub, BitVec.toNat_ofNat] at hle
    split
    · refine ⟨⟨?_, h.sentSize, ?_, hsmall⟩, rfl, ?_, rfl⟩
      · simp only [bytes_append, bytes_cons, every_eq, if_true, bytes_nil, TcpTxItem.new,
          BitVec.toNat_add, BitVec.toNat_ofNat]
        omega
      · simp only [bytes_append, bytes_cons, every_eq, if_true, bytes_nil, TcpTxItem.new]
        omega
      · simp [view, TcpTxItem.new]
    · rename_i hzero
      have hnil : p.bytes = [] := by
        simp only [BitVec.lt_def, BitVec.toNat_ofNat] at hzero
        exact List.eq_nil_of_length_eq_zero (by simp at hzero; omega)
      exact ⟨h, rfl, by simp [hnil], rfl⟩
  · exact ⟨h, rfl, by simp, rfl⟩

/-- A searched list is put back. -/
theorem setSent (h : Sized s) {f : Found} (hstream : stream f.list = stream s.sentList) :
    Sized (s.setSent f) ∧ (s.setSent f).view = s.view := by
  have hevery : bytes every f.list = bytes every s.sentList := by
    rw [← length_stream, ← length_stream, hstream]
  refine ⟨⟨?_, ?_, ?_, h.small⟩, ?_⟩
  · exact h.size.trans (by rw [← hevery]; rfl)
  · exact h.sentSize.trans hevery.symm
  · exact hevery.symm ▸ h.room
  · simp only [TcpTxBuffer.view, TcpTxBuffer.setSent, hstream]

/-- A piece of a stream that was found at its place. -/
theorem piece {f : Found} {l : List TcpTxItem} (more : List UInt8) {first seq : SequenceNumber 32}
    (hstream : stream f.list = stream l) (hsmall : bytes every l < 2 ^ 32)
    (hplace : first + BitVec.ofNat 32 (bytes every f.before) = seq) :
    f.item.packet =
      ((stream l ++ more).drop (seq - first).toNat).take f.item.packet.length := by
  have hbefore : (seq - first).toNat = (stream f.before).length := by
    have hle : bytes every f.before ≤ bytes every l := by
      rw [← length_stream l, ← hstream, length_stream]
      simp [Found.list]
    rw [← hplace, length_stream, add_comm, add_sub_cancel_right, BitVec.toNat_ofNat]
    omega
  rw [hbefore, ← hstream]
  simp [Found.list]

theorem getTransmittedSegment (h : Sized s) {n : BitVec 32} {seq : SequenceNumber 32} {f : Found}
    (hf : s.getTransmittedSegment n seq = some f) :
    stream f.list = stream s.sentList ∧ f.item.packet.length ≤ n.toNat ∧
      f.item.packet = (s.view.pending.drop (seq - s.firstByteSeq).toNat).take f.item.packet.length := by
  have hroom := h.room
  have hsmall := h.small
  unfold TcpTxBuffer.getTransmittedSegment at hf
  split at hf
  · cases hf
  split at hf
  · cases hf
  split at hf
  · cases hf
  obtain ⟨g, hget, rfl⟩ := Option.map_eq_some_iff.mp hf
  have hstream := (getPacketFromList_recut hget).stream
  have hle := (getPacketFromList_le (by omega) hget).trans (segmentLimit_le seq n s.sentList)
  have hpiece := piece (stream s.appList) hstream (by omega) (getPacketFromList_place hget)
  split
  · exact ⟨hstream, hle, hpiece⟩
  · exact ⟨by simpa [Found.list] using hstream, hle, hpiece⟩

theorem getNewSegment (h : Sized s) {n : BitVec 32} {f : Found}
    (hf : s.getNewSegment n = some (t, f)) :
    Sized (t.setSent f) ∧ (t.setSent f).view = s.view ∧ t.size = s.size ∧
      t.sentSize.toNat = s.sentSize.toNat + f.item.packet.length ∧ f.item.packet.length ≤ n.toNat ∧
        f.item.packet = (s.view.pending.drop s.sentSize.toNat).take f.item.packet.length := by
  have hsize := h.size
  have hsent := h.sentSize
  have hroom := h.room
  have hsmall := h.small
  unfold TcpTxBuffer.getNewSegment at hf
  obtain ⟨g, hget, heq⟩ := Option.map_eq_some_iff.mp hf
  obtain ⟨rfl, rfl⟩ := Prod.mk.inj heq
  have hstream := (getPacketFromList_recut hget).stream
  have hevery := (getPacketFromList_recut hget).every
  have hplace := getPacketFromList_place hget
  have hpart : bytes every g.before ≤ bytes every s.appList := by
    rw [← hevery]
    simp [Found.list]
  -- the search starts where it was asked for
  have hbefore : g.before.flatMap TcpTxItem.packet = [] := by
    apply List.eq_nil_of_length_eq_zero
    have hzero := congrArg BitVec.toNat (add_eq_left.mp hplace)
    change (stream g.before).length = 0
    rw [length_stream]
    simp only [BitVec.toNat_ofNat, BitVec.ofNat_eq_ofNat] at hzero
    omega
  change stream g.before = [] at hbefore
  have hbytes : bytes every g.before = 0 := by rw [← length_stream, hbefore]; rfl
  simp only [Found.list, stream_append, stream_cons, hbefore, List.nil_append] at hstream
  simp only [Found.list, bytes_append, bytes_cons, every_eq, if_true] at hevery
  have hle := getPacketFromList_le (show bytes every s.appList < 2 ^ 31 by omega) hget
  have hgrown : (s.sentSize + g.item.size).toNat = s.sentSize.toNat + g.item.packet.length := by
    simp only [BitVec.toNat_add, TcpTxItem.size, BitVec.toNat_ofNat]
    omega
  refine ⟨⟨?_, ?_, ?_, hsmall⟩, ?_, rfl, hgrown, hle, ?_⟩
  · simp only [TcpTxBuffer.setSent, Found.list, bytes_append, bytes_cons, every_eq, if_true, bytes_nil]
    omega
  · simp only [TcpTxBuffer.setSent, Found.list, bytes_append, bytes_cons, every_eq, if_true, bytes_nil,
      hgrown]
    omega
  · simp only [TcpTxBuffer.setSent, Found.list, bytes_append, bytes_cons, every_eq, if_true, bytes_nil]
    omega
  · simp only [TcpTxBuffer.view, TcpTxBuffer.setSent, Found.list, stream_append, stream_cons, stream_nil,
      hbefore, ← hstream, List.nil_append, List.append_nil, List.append_assoc]
  · rw [hsent, ← length_stream]
    simp [TcpTxBuffer.view, ← hstream]

theorem handOut {now : Int} {f : Found} {r : Option TcpTxItem}
    (h : Sized (s.setSent f)) (hout : TcpTxBuffer.handOut now s f = some (t, r)) :
    Sized t ∧ t.view = (s.setSent f).view ∧ t.size = s.size ∧ t.sentSize = s.sentSize ∧
      ∃ it, r = some it ∧ it.packet = f.item.packet := by
  unfold TcpTxBuffer.handOut at hout
  split at hout
  · obtain ⟨rfl, rfl⟩ := Prod.mk.inj (Option.some.inj hout)
    have hset : Rescored (s.setSent f) (s.setSent { f with item := { f.item with lastSent := now } }) :=
      ⟨rfl, rfl, rfl, rfl, rfl, by simp [TcpTxBuffer.setSent, Found.list]⟩
    exact ⟨hset.sized h, hset.view, rfl, rfl, _, rfl, rfl⟩
  · cases hout

theorem copyFrom {now : Int} {depth : Nat} {n : BitVec 32} {seq : SequenceNumber 32}
    {r : Option TcpTxItem} (h : Sized s)
    (hcopy : TcpTxBuffer.copyFrom now s depth n seq = some (t, r)) :
    (r = none ∧ t = s) ∨ ∃ it, r = some it ∧ Copied s t n seq it := by
  induction depth generalizing n with
  | zero => cases hcopy
  | succ depth ih =>
    unfold TcpTxBuffer.copyFrom at hcopy
    split at hcopy
    · cases hcopy
    simp only at hcopy
    split at hcopy
    · cases hcopy
      exact .inl ⟨rfl, rfl⟩
    split at hcopy
    · obtain ⟨f, hf, hout⟩ := Option.bind_eq_some_iff.mp hcopy
      split at hout
      · cases hout
      obtain ⟨hstream, hle, hpiece⟩ := h.getTransmittedSegment hf
      obtain ⟨hset, hview⟩ := h.setSent hstream
      obtain ⟨ht, htview, hsize, hsent, it, rfl, hit⟩ := hset.handOut hout
      exact .inr ⟨it, rfl, ht, htview.trans hview, hsize, hit ▸ hle,
        hsent ▸ Nat.le_add_right _ _, hit ▸ hpiece⟩
    split at hcopy
    · split at hcopy
      · rename_i hseq
        obtain ⟨⟨u, f⟩, hf, hout⟩ := Option.bind_eq_some_iff.mp hcopy
        simp only at hout
        split at hout
        · cases hout
        obtain ⟨hset, hview, husize, husent, hle, hpiece⟩ := h.getNewSegment hf
        obtain ⟨ht, htview, hsize, hsent, it, rfl, hit⟩ := hset.handOut hout
        refine .inr ⟨it, rfl, ht, htview.trans hview, hsize.trans husize, hit ▸ hle, ?_, ?_⟩
        · rw [hsent, husent, hit]
        · rw [← hseq, add_sub_cancel_left]
          exact hit ▸ hpiece
      · cases hcopy
    split at hcopy
    · rename_i hacross
      rcases ih hcopy with hnone | ⟨it, hr, hc⟩
      · exact .inl hnone
      refine .inr ⟨it, hr, { hc with le := ?_ }⟩
      have hle := hc.le
      -- the second request is the part of the first one that was sent
      have hpart : s.firstByteSeq + s.sentSize - seq ≤ stdMin n (s.sizeFromSequence seq) := by
        obtain ⟨hlt, hend⟩ := hacross
        generalize stdMin n (s.sizeFromSequence seq) = m at hend ⊢
        generalize s.firstByteSeq + s.sentSize = e at hlt hend ⊢
        bv_omega
      rw [BitVec.le_def] at hpart
      rw [stdMin_toNat] at hle
      omega
    · cases hcopy

theorem copyFromSequence {now : Int} {n : BitVec 32} {seq : SequenceNumber 32} {r : Option TcpTxItem}
    (h : Sized s) (hcopy : s.copyFromSequence now n seq = some (t, r)) :
    (r = none ∧ t = s) ∨ ∃ it, r = some it ∧ Copied s t n seq it := h.copyFrom hcopy

theorem transmitted_place (h : Sized s) {n : BitVec 32} {seq : SequenceNumber 32} {f : Found}
    (hf : s.getTransmittedSegment n seq = some f) :
    f.item.retrans = true ∧
      (seq - s.firstByteSeq).toNat + f.item.packet.length ≤ s.sentSize.toNat := by
  have hsent := h.sentSize
  have hroom := h.room
  have hsmall := h.small
  unfold TcpTxBuffer.getTransmittedSegment at hf
  split at hf
  · cases hf
  split at hf
  · cases hf
  split at hf
  · cases hf
  obtain ⟨g, hget, rfl⟩ := Option.map_eq_some_iff.mp hf
  have hevery := (getPacketFromList_recut hget).every
  simp only [Found.list, bytes_append, bytes_cons, every_eq, if_true] at hevery
  have hplace : (seq - s.firstByteSeq).toNat = bytes every g.before := by
    rw [← getPacketFromList_place hget, add_comm, add_sub_cancel_right, BitVec.toNat_ofNat]
    omega
  rw [hplace, hsent]
  split
  · rename_i hretrans
    exact ⟨hretrans, by omega⟩
  · exact ⟨rfl, by simp only; omega⟩

/-- What is sent again was sent before; other data begins where that ends. -/
theorem copyFrom_place {now : Int} {depth : Nat} {n : BitVec 32} {seq : SequenceNumber 32}
    {it : TcpTxItem} (h : Sized s)
    (hcopy : TcpTxBuffer.copyFrom now s depth n seq = some (t, some it)) :
    if it.retrans then
      t.sentSize = s.sentSize ∧ (seq - s.firstByteSeq).toNat + it.packet.length ≤ s.sentSize.toNat
    else
      seq = s.firstByteSeq + s.sentSize ∧
        t.sentSize.toNat = s.sentSize.toNat + it.packet.length := by
  induction depth generalizing n with
  | zero => cases hcopy
  | succ depth ih =>
    unfold TcpTxBuffer.copyFrom at hcopy
    split at hcopy
    · cases hcopy
    simp only at hcopy
    split at hcopy
    · cases hcopy
    split at hcopy
    · obtain ⟨f, hf, hout⟩ := Option.bind_eq_some_iff.mp hcopy
      split at hout
      · cases hout
      obtain ⟨hretrans, hplace⟩ := h.transmitted_place hf
      obtain ⟨-, hout⟩ := Option.ite_none_right_eq_some.mp hout
      obtain ⟨rfl, hit⟩ := Prod.mk.inj (Option.some.inj hout)
      obtain rfl := Option.some.inj hit
      rw [if_pos hretrans]
      exact ⟨rfl, hplace⟩
    split at hcopy
    · split at hcopy
      · rename_i hseq
        obtain ⟨⟨u, f⟩, hf, hout⟩ := Option.bind_eq_some_iff.mp hcopy
        simp only at hout
        split at hout
        · cases hout
        rename_i hretrans
        obtain ⟨-, -, -, husent, -, -⟩ := h.getNewSegment hf
        obtain ⟨-, hout⟩ := Option.ite_none_right_eq_some.mp hout
        obtain ⟨rfl, hit⟩ := Prod.mk.inj (Option.some.inj hout)
        obtain rfl := Option.some.inj hit
        rw [if_neg hretrans]
        exact ⟨hseq.symm, husent⟩
      · cases hcopy
    split at hcopy
    · exact ih hcopy
    · cases hcopy

theorem resetLastSegmentSent (h : Sized s) :
    Sized s.resetLastSegmentSent ∧ s.resetLastSegmentSent.view = s.view ∧
      s.resetLastSegmentSent.size = s.size := by
  have hsize := h.size
  have hsent := h.sentSize
  have hroom := h.room
  have hsmall := h.small
  unfold TcpTxBuffer.resetLastSegmentSent
  split
  · exact ⟨h, rfl, rfl⟩
  rename_i it hget
  obtain ⟨l, hl⟩ := List.getLast?_eq_some_iff.mp hget
  simp only [hl, bytes_append, bytes_cons, bytes_nil, every_eq, if_true] at hsize hsent hroom
  simp only [hl, List.dropLast_concat]
  refine ⟨⟨?_, ?_, ?_, hsmall⟩, ?_, trivial⟩
  · simp only [bytes_cons, every_eq, if_true]
    omega
  · simp only [BitVec.toNat_sub, TcpTxItem.size, BitVec.toNat_ofNat]
    omega
  · simp only [bytes_cons, every_eq, if_true]
    omega
  · simp [TcpTxBuffer.view, hl]

theorem setHeadSequence {seq : SequenceNumber 32} (h : Sized s)
    (hset : s.setHeadSequence seq = some t) :
    Sized t ∧ t.firstByteSeq = seq ∧ t.view.pending = s.view.pending ∧ t.size = s.size ∧
      t.sentSize = 0 := by
  unfold TcpTxBuffer.setHeadSequence at hset
  obtain ⟨hnil, heq⟩ := Option.ite_none_right_eq_some.mp hset
  obtain rfl := Option.some.inj heq
  refine ⟨⟨h.size, h.sentSize, h.room, h.small⟩, rfl, rfl, rfl, ?_⟩
  have hsent := h.sentSize
  rw [hnil] at hsent
  exact BitVec.eq_of_toNat_eq (by simpa using hsent)

theorem pullSent {now : Int} {offset : BitVec 32} (h : Sized s)
    (hpull : s.pullSent now offset = some t) :
    Sized t ∧ t.view = s.view ∧ t.size = s.size ∧
      (s.sentSize.toNat ≤ offset.toNat → t.sentSize.toNat ≤ offset.toNat) := by
  unfold TcpTxBuffer.pullSent at hpull
  split at hpull
  · rename_i hnil
    obtain ⟨⟨u, r⟩, hcopy, hr⟩ := Option.bind_eq_some_iff.mp hpull
    obtain ⟨it, rfl, rfl⟩ := Option.map_eq_some_iff.mp hr
    obtain ⟨hr, -⟩ | ⟨_, hr, hc⟩ := h.copyFromSequence hcopy
    · cases hr
    · cases hr
      refine ⟨hc.sized, hc.view, hc.size, fun _ => hc.sentSize.trans ?_⟩
      have hsent := h.sentSize
      have hle := hc.le
      rw [hnil, bytes_nil] at hsent
      rw [stdMin_toNat] at hle
      omega
  · obtain rfl := Option.some.inj hpull
    exact ⟨h, rfl, rfl, id⟩

theorem pullSent_sent {now : Int} {offset : BitVec 32} (h : Sized s)
    (hpull : s.pullSent now offset = some t) : s.sentSize.toNat ≤ t.sentSize.toNat := by
  unfold TcpTxBuffer.pullSent at hpull
  split at hpull
  · rename_i hnil
    have hsent := h.sentSize
    rw [hnil, bytes_nil] at hsent
    omega
  · obtain rfl := Option.some.inj hpull
    exact Nat.le_refl _

/-- The first `k` bytes of the first item leave. -/
theorem removeHead {it : TcpTxItem} {rest l : List TcpTxItem} {k : BitVec 32} (h : Sized s)
    (hlist : s.sentList = it :: rest) (hk : k.toNat ≤ it.packet.length)
    (hl : stream l = (stream s.sentList).drop k.toNat) (hremove : s.removeHead it k l = some t) :
    Sized t ∧ t.view.pending = s.view.pending.drop k.toNat ∧
      t.sentSize.toNat = s.sentSize.toNat - k.toNat := by
  obtain ⟨hfirst, hsent, happ, hmax⟩ := Streamed.removeHead_eq hremove
  have hcounts : t.size = s.size - k ∧ t.sentSize = s.sentSize - k := by
    unfold TcpTxBuffer.removeHead removeFromCounts at hremove
    split at hremove
    · cases hremove
    split at hremove
    · cases hremove
    split at hremove
    · cases hremove
    obtain rfl := Option.some.inj hremove
    exact ⟨rfl, rfl⟩
  have hevery : bytes every l = bytes every s.sentList - k.toNat := by
    rw [← length_stream, hl, List.length_drop, length_stream]
  have hle : k.toNat ≤ bytes every s.sentList := by
    rw [hlist]
    simp only [bytes_cons, every_eq, if_true]
    omega
  have hsize := h.size
  have hsentSize := h.sentSize
  have hroom := h.room
  have hshrunk : t.sentSize.toNat = s.sentSize.toNat - k.toNat := by
    rw [hcounts.2, BitVec.toNat_sub_of_le]
    rw [BitVec.le_def]
    omega
  refine ⟨⟨?_, ?_, ?_, hmax ▸ h.small⟩, ?_, hshrunk⟩
  · rw [hcounts.1, BitVec.toNat_sub_of_le, hsent, happ, hevery]
    · omega
    · rw [BitVec.le_def]
      omega
  · rw [hshrunk, hsent, hevery]
    omega
  · rw [hsent, happ, hevery, hmax]
    omega
  · rw [TcpTxBuffer.view, TcpTxBuffer.view, hsent, happ, hl,
      List.drop_append_of_le_length (by rwa [length_stream])]

theorem discard {now : Int} {fuel : Nat} {offset : BitVec 32} (h : Sized s)
    (hd : TcpTxBuffer.discard now fuel s offset = some t) :
    Sized t ∧ t.maxBuffer = s.maxBuffer ∧ t.view.pending = s.view.pending.drop offset.toNat ∧
      (t.size = 0 ∨ t.firstByteSeq = s.firstByteSeq + offset) ∧
        (s.sentSize.toNat ≤ offset.toNat → t.sentSize = 0) := by
  induction fuel generalizing s offset with
  | zero => cases hd
  | succ fuel ih =>
    unfold TcpTxBuffer.discard at hd
    split at hd
    · rename_i hstop
      obtain rfl := Option.some.inj hd
      have hsize := h.size
      have hsent := h.sentSize
      refine ⟨h, rfl, ?_, hstop.imp id fun hzero => by simp [hzero], fun hle => ?_⟩
      · rcases hstop with hzero | rfl
        · have hlen := h.length_pending
          rw [hzero] at hlen
          simp [List.eq_nil_of_length_eq_zero hlen]
        · simp
      · apply BitVec.eq_of_toNat_eq
        rcases hstop with hzero | rfl
        · rw [hzero] at hsize
          simp only [BitVec.toNat_ofNat, BitVec.ofNat_eq_ofNat] at hsize ⊢
          omega
        · simpa using hle
    obtain ⟨u, hpull, hd⟩ := Option.bind_eq_some_iff.mp hd
    obtain ⟨hu, hview, -, hsent⟩ := h.pullSent hpull
    have hfirst : u.firstByteSeq = s.firstByteSeq := congrArg ByteStream.head hview
    have hmax : u.maxBuffer = s.maxBuffer := congrArg ByteStream.maxBuffer hview
    rw [← hview, ← hfirst, ← hmax]
    split at hd
    · cases hd
    rename_i it rest hlist
    have hsize : it.size.toNat = it.packet.length := by
      have hroom := hu.room
      have hsmall := hu.small
      simp only [hlist, bytes_cons, every_eq, if_true] at hroom
      simp only [TcpTxItem.size, BitVec.toNat_ofNat]
      omega
    split at hd
    · cases hd
    split at hd
    · rename_i hle
      obtain ⟨v, hremove, hd⟩ := Option.bind_eq_some_iff.mp hd
      obtain ⟨hv, hpending, hshrunk⟩ :=
        hu.removeHead hlist hsize.le (by rw [hlist, stream_cons, hsize, List.drop_left]) hremove
      obtain ⟨ht, hmax', hdrop, hend, hsent'⟩ := ih hv hd
      rw [BitVec.le_def] at hle
      refine ⟨ht, hmax'.trans (Streamed.removeHead_eq hremove).2.2.2, ?_, hend.imp id fun heq => ?_,
        fun h' => hsent' ?_⟩
      · rw [hdrop, hpending, List.drop_drop, BitVec.toNat_sub_of_le (BitVec.le_def.mpr hle)]
        congr 1
        omega
      · rw [heq, (Streamed.removeHead_eq hremove).1]
        ring
      · rw [hshrunk, BitVec.toNat_sub_of_le (BitVec.le_def.mpr hle)]
        have := hsent h'
        omega
    · rename_i hgt
      rw [BitVec.not_le, BitVec.lt_def] at hgt
      obtain ⟨ht, hdrop, hshrunk⟩ := hu.removeHead (l := Counted.trimmed it offset :: rest) hlist
        (by omega)
        (by simp [hlist, Counted.trimmed, List.drop_append_of_le_length (show offset.toNat ≤ it.packet.length by omega)]) hd
      refine ⟨ht, (Streamed.removeHead_eq hd).2.2.2, hdrop, .inr (Streamed.removeHead_eq hd).1,
        fun h' => BitVec.eq_of_toNat_eq ?_⟩
      have := hsent h'
      rw [hshrunk]
      simp
      omega

/-- Of what is sent no more leaves than is acknowledged. -/
theorem discard_sent {now : Int} {fuel : Nat} {offset : BitVec 32} (h : Sized s)
    (hd : TcpTxBuffer.discard now fuel s offset = some t) :
    s.sentSize.toNat ≤ t.sentSize.toNat + offset.toNat := by
  induction fuel generalizing s offset with
  | zero => cases hd
  | succ fuel ih =>
    unfold TcpTxBuffer.discard at hd
    split at hd
    · obtain rfl := Option.some.inj hd
      omega
    obtain ⟨u, hpull, hd⟩ := Option.bind_eq_some_iff.mp hd
    obtain ⟨hu, -, -, -⟩ := h.pullSent hpull
    refine Nat.le_trans (h.pullSent_sent hpull) ?_
    split at hd
    · cases hd
    rename_i it rest hlist
    have hsize : it.size.toNat = it.packet.length := by
      have hroom := hu.room
      have hsmall := hu.small
      simp only [hlist, bytes_cons, every_eq, if_true] at hroom
      simp only [TcpTxItem.size, BitVec.toNat_ofNat]
      omega
    split at hd
    · cases hd
    split at hd
    · rename_i hle
      obtain ⟨v, hremove, hd⟩ := Option.bind_eq_some_iff.mp hd
      obtain ⟨hv, -, hshrunk⟩ :=
        hu.removeHead hlist hsize.le (by rw [hlist, stream_cons, hsize, List.drop_left]) hremove
      have hrest := ih hv hd
      rw [BitVec.toNat_sub_of_le hle, hshrunk] at hrest
      rw [BitVec.le_def] at hle
      omega
    · rename_i hgt
      rw [BitVec.not_le, BitVec.lt_def] at hgt
      obtain ⟨-, -, hshrunk⟩ := hu.removeHead (l := Counted.trimmed it offset :: rest) hlist
        (by omega)
        (by simp [hlist, Counted.trimmed,
          List.drop_append_of_le_length (show offset.toNat ≤ it.packet.length by omega)]) hd
      omega

/-- Acknowledged bytes leave, and what is sent is not more than before. -/
theorem discardUpTo {now : Int} {seq : SequenceNumber 32} (h : Sized s)
    (hd : s.discardUpTo now seq = some t) :
    Sized t ∧ t.view = s.view.discardUpTo seq ∧ (s.sentSize = 0 → t.sentSize = 0) := by
  rw [ByteStream.discardUpTo, show s.view.head = s.firstByteSeq from rfl]
  unfold TcpTxBuffer.discardUpTo at hd
  split at hd
  · rename_i hge
    obtain rfl := Option.some.inj hd
    rw [if_pos hge]
    exact ⟨h, rfl, id⟩
  rename_i hge
  rw [if_neg hge]
  obtain ⟨u, hdiscard, hd⟩ := Option.bind_eq_some_iff.mp hd
  obtain ⟨v, hmove, hd⟩ := Option.bind_eq_some_iff.mp hd
  obtain ⟨hu, hmax, hpending, hend, hsent⟩ := h.discard hdiscard
  rw [distance_eq] at hpending hend
  have hcatch : Sized (u.catchFin seq) ∧
      (u.catchFin seq).view =
        ⟨s.maxBuffer, seq, s.view.pending.drop (seq - s.firstByteSeq).toNat⟩ ∧
      (u.catchFin seq).sentSize = u.sentSize := by
    rw [← hpending, ← hmax]
    unfold TcpTxBuffer.catchFin
    split
    · exact ⟨⟨hu.size, hu.sentSize, hu.room, hu.small⟩, rfl, rfl⟩
    · rename_i hsome
      have hfirst : u.firstByteSeq = seq := by
        rw [hend.resolve_left hsome]
        ring
      exact ⟨hu, by rw [← hfirst]; rfl, rfl⟩
  have hv := Rescored.moveSackFromHead hmove
  simp only at hd
  split at hd
  · cases hd
  split at hd
  · cases hd
  split at hd
  · cases hd
  obtain rfl := Option.some.inj hd
  have hreset : Rescored v v.resetHighestSack := by
    unfold TcpTxBuffer.resetHighestSack
    split
    · exact ⟨rfl, rfl, rfl, rfl, rfl, rfl⟩
    · exact .refl v
  have hall := hv.trans hreset
  refine ⟨hall.sized hcatch.1, hall.view.trans hcatch.2.1, fun hzero => ?_⟩
  rw [hall.sentSize, hcatch.2.2]
  exact hsent (by simp [hzero])

theorem discardUpTo_sent {now : Int} {seq : SequenceNumber 32} (h : Sized s)
    (hd : s.discardUpTo now seq = some t) :
    s.sentSize.toNat ≤ t.sentSize.toNat + (t.firstByteSeq - s.firstByteSeq).toNat := by
  obtain ⟨-, hview, -⟩ := h.discardUpTo hd
  have hhead : t.firstByteSeq = (s.view.discardUpTo seq).head := congrArg ByteStream.head hview
  rw [ByteStream.discardUpTo, show s.view.head = s.firstByteSeq from rfl] at hhead
  unfold TcpTxBuffer.discardUpTo at hd
  split at hd
  · obtain rfl := Option.some.inj hd
    omega
  rename_i hge
  rw [if_neg hge] at hhead
  obtain ⟨u, hdiscard, hd⟩ := Option.bind_eq_some_iff.mp hd
  obtain ⟨v, hmove, hd⟩ := Option.bind_eq_some_iff.mp hd
  have hsent := h.discard_sent hdiscard
  have hcatch : (u.catchFin seq).sentSize = u.sentSize := by
    unfold TcpTxBuffer.catchFin
    split <;> rfl
  have hreset : v.resetHighestSack.sentSize = v.sentSize := by
    unfold TcpTxBuffer.resetHighestSack
    split <;> rfl
  simp only at hd
  split at hd
  · cases hd
  split at hd
  · cases hd
  split at hd
  · cases hd
  obtain rfl := Option.some.inj hd
  rw [hhead, hreset, (Rescored.moveSackFromHead hmove).sentSize, hcatch, ← distance_eq]
  exact hsent

end Sized

end CudaNs3.Tcp
