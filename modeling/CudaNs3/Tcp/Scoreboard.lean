import CudaNs3.Tcp.TxBuffer
import CudaNs3.Lib.Transition
import Mathlib.Tactic.LinearCombination

/-!
# The counters of the send scoreboard

`m_sentSize`, `m_sackedOut`, `m_lostOut` and `m_retrans` are kept next to flags on the items
that they are the sums of. The sums are compared modulo `2 ^ 32` while an operation runs, where
no subtraction needs a reason; that no sum ever reaches `2 ^ 32` comes from `m_maxBuffer`.
-/

namespace CudaNs3.Tcp

open TcpTxBuffer
set_option autoImplicit false

/-- The bytes of the items of a list that have a flag. -/
def bytes (p : TcpTxItem → Bool) (l : List TcpTxItem) : Nat :=
  ((l.filter p).map fun it => it.packet.length).sum

def every (_ : TcpTxItem) : Bool := true

section Bytes
variable (p : TcpTxItem → Bool)

@[simp] theorem bytes_nil : bytes p [] = 0 := rfl

@[simp] theorem bytes_cons (it : TcpTxItem) (l : List TcpTxItem) :
    bytes p (it :: l) = (if p it then it.packet.length else 0) + bytes p l := by
  by_cases h : p it = true <;> simp [bytes, h]

@[simp] theorem bytes_append (l l' : List TcpTxItem) :
    bytes p (l ++ l') = bytes p l + bytes p l' := by simp [bytes]

@[simp] theorem every_eq (it : TcpTxItem) : every it = true := rfl

theorem bytes_le_every (l : List TcpTxItem) : bytes p l ≤ bytes every l := by
  induction l with
  | nil => exact Nat.le_refl _
  | cons it l ih =>
    simp only [bytes_cons, every_eq, if_true]
    split
    · exact Nat.add_le_add_left ih _
    · exact Nat.add_le_add (Nat.zero_le _) ih

theorem bytes_of_none {l : List TcpTxItem} (h : ∀ it ∈ l, p it = false) : bytes p l = 0 := by
  induction l with
  | nil => rfl
  | cons it l ih =>
    simp [h it List.mem_cons_self, ih fun it' hit => h it' (List.mem_cons_of_mem _ hit)]

end Bytes

/-- The byte stream of a list of items. -/
def stream (l : List TcpTxItem) : List UInt8 := l.flatMap TcpTxItem.packet

@[simp] theorem stream_nil : stream [] = [] := rfl

@[simp] theorem stream_cons (it : TcpTxItem) (l : List TcpTxItem) :
    stream (it :: l) = it.packet ++ stream l := rfl

@[simp] theorem stream_append (l l' : List TcpTxItem) : stream (l ++ l') = stream l ++ stream l' := by
  simp [stream]

theorem length_stream (l : List TcpTxItem) : (stream l).length = bytes every l := by
  induction l with
  | nil => rfl
  | cons it l ih => simp [ih]

/-- The same stream cut at other places, with `m_retrans` before and after: `l` is split and
merged into `l'`. -/
structure Recut (l : List TcpTxItem) (r : BitVec 32) (l' : List TcpTxItem) (r' : BitVec 32) :
    Prop where
  stream : stream l' = stream l
  sacked : bytes TcpTxItem.sacked l' = bytes TcpTxItem.sacked l
  lost : bytes TcpTxItem.lost l' = bytes TcpTxItem.lost l
  retrans : r' + BitVec.ofNat 32 (bytes TcpTxItem.retrans l) =
    r + BitVec.ofNat 32 (bytes TcpTxItem.retrans l')
  flags : ∀ P : Bool → Bool → Prop, (∀ it ∈ l, P it.sacked it.lost) → ∀ it ∈ l', P it.sacked it.lost
  fresh : (∀ it ∈ l, it.retrans = false) → ∀ it ∈ l', it.retrans = false

namespace Recut
variable {l l' l'' : List TcpTxItem} {r r' r'' : BitVec 32}

theorem refl (l : List TcpTxItem) (r : BitVec 32) : Recut l r l r :=
  ⟨rfl, rfl, rfl, rfl, fun _ h => h, fun h => h⟩

theorem trans (h : Recut l r l' r') (h' : Recut l' r' l'' r'') : Recut l r l'' r'' where
  stream := h'.stream.trans h.stream
  sacked := h'.sacked.trans h.sacked
  lost := h'.lost.trans h.lost
  retrans := by linear_combination h.retrans + h'.retrans
  flags P hl := h'.flags P (h.flags P hl)
  fresh hl := h'.fresh (h.fresh hl)

theorem every (h : Recut l r l' r') : bytes every l' = bytes every l := by
  rw [← length_stream, ← length_stream, h.stream]

theorem cons (h : Recut l r l' r') (it : TcpTxItem) : Recut (it :: l) r (it :: l') r' where
  stream := by simp [h.stream]
  sacked := by simp [h.sacked]
  lost := by simp [h.lost]
  retrans := by
    simp only [bytes_cons, BitVec.ofNat_add]
    linear_combination h.retrans
  flags P hl := by
    simp only [List.forall_mem_cons] at hl ⊢
    exact ⟨hl.1, h.flags P hl.2⟩
  fresh hl := by
    simp only [List.forall_mem_cons] at hl ⊢
    exact ⟨hl.1, h.fresh hl.2⟩

theorem split {node : Nat} {t a b : TcpTxItem} {n : BitVec 32}
    (h : splitItems node t n = some (a, b)) (l : List TcpTxItem) (r : BitVec 32) :
    Recut (t :: l) r (a :: b :: l) r := by
  unfold splitItems at h
  split at h
  · cases h
  · rename_i hlen
    obtain ⟨rfl, rfl⟩ := Prod.mk.inj (Option.some.inj h)
    have htake : (t.packet.take n.toNat).length + (t.packet.drop n.toNat).length =
        t.packet.length := by simp only [List.length_take, List.length_drop]; omega
    have hsum (p : Bool) : (if p then (t.packet.take n.toNat).length else 0) +
        (if p then (t.packet.drop n.toNat).length else 0) =
          if p then t.packet.length else 0 := by
      cases p
      · rfl
      · exact htake
    exact
      { stream := by simp only [stream_cons, ← List.append_assoc, List.take_append_drop]
        sacked := by simp only [bytes_cons, ← Nat.add_assoc, hsum]
        lost := by simp only [bytes_cons, ← Nat.add_assoc, hsum]
        retrans := by simp only [bytes_cons, ← Nat.add_assoc, hsum]
        flags := fun P hl => by simpa [List.forall_mem_cons] using hl
        fresh := fun hl => by simpa [List.forall_mem_cons] using hl }

theorem merge {t₁ t₂ t : TcpTxItem} (h : mergeItems r t₁ t₂ = some (r', t))
    (l : List TcpTxItem) : Recut (t₁ :: t₂ :: l) r (t :: l) r' := by
  unfold mergeItems at h
  split at h
  · cases h
  rename_i hsacked
  split at h
  · cases h
  rename_i hlost
  obtain ⟨rfl, rfl⟩ := Prod.mk.inj (Option.some.inj h)
  have hs : t₁.sacked = t₂.sacked := not_not.mp hsacked
  have hl : t₁.lost = t₂.lost := not_not.mp hlost
  exact
    { stream := by simp
      sacked := by
        simp only [bytes_cons, hs, List.length_append]
        split <;> omega
      lost := by
        simp only [bytes_cons, hl, List.length_append]
        split <;> omega
      retrans := by
        simp only [bytes_cons, TcpTxItem.size, List.length_append]
        cases h₁ : t₁.retrans <;> cases h₂ : t₂.retrans <;>
          simp only [Bool.and_true, Bool.and_false, Bool.false_eq_true, Bool.true_eq_false,
            if_true, if_false, BitVec.ofNat_add, Nat.zero_add] <;>
          ring
      flags := fun P hP => by
        simp only [List.forall_mem_cons] at hP ⊢
        exact ⟨hP.1, hP.2.2⟩
      fresh := fun hf => by
        simp only [List.forall_mem_cons] at hf ⊢
        exact ⟨by simp [hf.1], hf.2.2⟩ }

end Recut

/-- Whatever is asked of it, the search only cuts the list at other places. -/
theorem getPacketFromList_recut {una : Option (SequenceNumber 32)} {numBytes : BitVec 32}
    {seq : SequenceNumber 32} {fuel : Nat} {begin : SequenceNumber 32} {r : BitVec 32} {node : Nat}
    {l : List TcpTxItem} {f : Found}
    (h : getPacketFromList una numBytes seq fuel begin r node l = some f) :
    Recut l r f.list f.retrans := by
  induction fuel generalizing begin r node l f with
  | zero => cases h
  | succ fuel ih =>
    cases l with
    | nil => cases h
    | cons current rest =>
      unfold getPacketFromList at h
      split at h
      · cases h
      split at h
      · split at h
        · -- the item found
          split at h
          · split at h
            · cases h
              exact Recut.refl _ _
            split at h
            · obtain ⟨⟨a, b⟩, hsplit, rfl⟩ := Option.map_eq_some_iff.mp h
              exact Recut.split hsplit rest r
            · cases h
          · cases rest with
            | nil =>
              cases h
              exact Recut.refl _ _
            | cons next rest =>
              obtain ⟨⟨r', t⟩, hmerge, h⟩ := Option.bind_eq_some_iff.mp h
              exact (Recut.merge hmerge rest).trans (ih h)
        split at h
        · obtain ⟨⟨a, b⟩, hsplit, h⟩ := Option.bind_eq_some_iff.mp h
          exact (Recut.split hsplit rest r).trans (ih h)
        · cases h
      · obtain ⟨f, hf, rfl⟩ := Option.map_eq_some_iff.mp h
        exact (ih hf).cons current

theorem splitItems_filled {node : Nat} {t a b : TcpTxItem} {n : BitVec 32}
    (h : splitItems node t n = some (a, b)) (hpos : n ≠ 0) (hlen : n ≠ t.size) :
    a.packet ≠ [] ∧ b.packet ≠ [] := by
  unfold splitItems at h
  split at h
  · cases h
  · rename_i hle
    obtain ⟨rfl, rfl⟩ := Prod.mk.inj (Option.some.inj h)
    have hn : n.toNat ≠ 0 := fun h0 => hpos (BitVec.eq_of_toNat_eq h0)
    have hne : n.toNat ≠ t.packet.length := by
      intro heq
      apply hlen
      rw [TcpTxItem.size, ← heq, BitVec.ofNat_toNat, BitVec.setWidth_eq]
    constructor
    · apply List.ne_nil_of_length_pos
      simp only [List.length_take]
      omega
    · apply List.ne_nil_of_length_pos
      simp only [List.length_drop]
      omega

/-- No cut leaves an empty item. -/
theorem getPacketFromList_filled {una : Option (SequenceNumber 32)} {numBytes : BitVec 32}
    {seq : SequenceNumber 32} {fuel : Nat} {begin : SequenceNumber 32} {r : BitVec 32} {node : Nat}
    {l : List TcpTxItem} {f : Found} (hpos : numBytes ≠ 0)
    (h : getPacketFromList una numBytes seq fuel begin r node l = some f)
    (hl : ∀ it ∈ l, it.packet ≠ []) : ∀ it ∈ f.list, it.packet ≠ [] := by
  induction fuel generalizing begin r node l f with
  | zero => cases h
  | succ fuel ih =>
    cases l with
    | nil => cases h
    | cons current rest =>
      simp only [List.forall_mem_cons] at hl
      unfold getPacketFromList at h
      split at h
      · cases h
      split at h
      · rename_i hlt
        split at h
        · split at h
          · split at h
            · cases h
              simpa [Found.list] using hl
            rename_i hne
            split at h
            · obtain ⟨⟨a, b⟩, hsplit, rfl⟩ := Option.map_eq_some_iff.mp h
              have hfilled := splitItems_filled hsplit hpos hne
              simp only [Found.list, List.nil_append, List.forall_mem_cons]
              exact ⟨hfilled.1, hfilled.2, hl.2⟩
            · cases h
          · cases rest with
            | nil =>
              cases h
              simpa [Found.list] using hl
            | cons next rest =>
              obtain ⟨⟨r', t⟩, hmerge, h⟩ := Option.bind_eq_some_iff.mp h
              simp only [List.forall_mem_cons] at hl
              have ht : t.packet ≠ [] := by
                have hstream := (Recut.merge hmerge []).stream
                simp only [stream_cons, stream_nil, List.append_nil] at hstream
                simp [hstream, hl.1]
              exact ih h (List.forall_mem_cons.mpr ⟨ht, hl.2.2⟩)
        rename_i hne
        split at h
        · obtain ⟨⟨a, b⟩, hsplit, h⟩ := Option.bind_eq_some_iff.mp h
          rw [SequenceNumber.distance_eq] at hsplit
          have hfilled := splitItems_filled hsplit (fun h0 => hne (sub_eq_zero.mp h0)) fun hsize => by
            rw [← hsize, add_sub_cancel] at hlt
            simp [SequenceNumber.lt] at hlt
          exact ih h (List.forall_mem_cons.mpr ⟨hfilled.1, List.forall_mem_cons.mpr
            ⟨hfilled.2, hl.2⟩⟩)
        · cases h
      · obtain ⟨f, hf, rfl⟩ := Option.map_eq_some_iff.mp h
        exact List.forall_mem_cons.mpr ⟨hl.1, ih hf hl.2⟩

/-- The law of the counters, as sums modulo `2 ^ 32`. -/
structure Counted (s : TcpTxBuffer) : Prop where
  size : s.size = BitVec.ofNat 32 (bytes every s.sentList + bytes every s.appList)
  sentSize : s.sentSize = BitVec.ofNat 32 (bytes every s.sentList)
  sackedOut : s.sackedOut = BitVec.ofNat 32 (bytes TcpTxItem.sacked s.sentList)
  lostOut : s.lostOut = BitVec.ofNat 32 (bytes TcpTxItem.lost s.sentList)
  retrans : s.retrans = BitVec.ofNat 32 (bytes TcpTxItem.retrans s.sentList)
  exclusive : ∀ it ∈ s.sentList, ¬ (it.sacked = true ∧ it.lost = true)
  unsent : ∀ it ∈ s.appList, it.sacked = false ∧ it.lost = false ∧ it.retrans = false
  room : bytes every s.sentList + bytes every s.appList ≤ s.maxBuffer.toNat
  filled : ∀ it ∈ s.sentList, it.packet ≠ []
  filledApp : ∀ it ∈ s.appList, it.packet ≠ []

theorem size_ne_zero {it : TcpTxItem} (hne : it.packet ≠ []) (hlt : it.packet.length < 2 ^ 32) :
    it.size ≠ 0 := by
  intro h
  have hnat := congrArg BitVec.toNat h
  have hpos := List.length_pos_iff.mpr hne
  simp only [TcpTxItem.size, BitVec.toNat_ofNat] at hnat
  rw [Nat.mod_eq_of_lt hlt] at hnat
  exact absurd hnat (Nat.ne_of_gt hpos)

theorem stdMin_ne_zero {a b : BitVec 32} (ha : a ≠ 0) (hb : b ≠ 0) : stdMin a b ≠ 0 := by
  unfold stdMin
  split
  · exact hb
  · exact ha

theorem segmentLimit_ne_zero {seq : SequenceNumber 32} {n : BitVec 32} {l : List TcpTxItem}
    (hn : n ≠ 0) (hl : ∀ it ∈ l, it.packet ≠ []) (hlt : bytes every l < 2 ^ 32) :
    segmentLimit seq n l ≠ 0 := by
  induction l with
  | nil => exact hn
  | cons it rest ih =>
    simp only [List.forall_mem_cons, bytes_cons, every_eq, if_true] at hl hlt
    have hit : it.size ≠ 0 := size_ne_zero hl.1 (by omega)
    unfold segmentLimit
    split
    · cases rest with
      | nil => exact stdMin_ne_zero hn hit
      | cons next rest =>
        simp only [bytes_cons, every_eq, if_true] at hlt
        have hpos := List.length_pos_iff.mpr hl.1
        have hsum : it.size + next.size ≠ 0 := by
          intro h
          have hnat := congrArg BitVec.toNat h
          simp only [TcpTxItem.size, BitVec.toNat_add, BitVec.toNat_ofNat] at hnat
          simp at hnat
          omega
        simp only
        split
        · exact stdMin_ne_zero hn hsum
        · exact stdMin_ne_zero hn hit
    · exact ih hl.2 (by omega)

namespace Counted
variable {s s' : TcpTxBuffer}

theorem sent_lt (h : Counted s) : bytes every s.sentList < 2 ^ 32 := by
  have hmax := s.maxBuffer.isLt
  have hroom := h.room
  omega

theorem new (n : SequenceNumber 32) (maxBuffer dupAckThresh : BitVec 32) (sackEnabled : Bool) :
    Counted (.new n maxBuffer dupAckThresh sackEnabled) := by
  constructor <;> simp [TcpTxBuffer.new]

theorem size_toNat (h : Counted s) :
    s.size.toNat = bytes every s.sentList + bytes every s.appList := by
  have hmax := s.maxBuffer.isLt
  have hroom := h.room
  rw [h.size, BitVec.toNat_ofNat]
  omega

theorem add (h : Counted s) (p : Packet) : Counted (s.add p).1 := by
  unfold TcpTxBuffer.add
  simp only
  split
  · split
    · rename_i hfits hpos
      have hsize := h.size_toNat
      have hroom := h.room
      have hmax := s.maxBuffer.isLt
      have hlen := p.length_lt
      simp only [available, BitVec.le_def, BitVec.lt_def, BitVec.toNat_sub, BitVec.toNat_ofNat] at hfits hpos
      exact
        { h with
          size := by
            simp only [h.size, bytes_append, bytes_cons, every_eq, if_true, bytes_nil,
              TcpTxItem.new, BitVec.ofNat_add, Nat.add_zero, BitVec.add_assoc]
          unsent := by
            simp only [List.forall_mem_append, List.forall_mem_singleton]
            exact ⟨h.unsent, rfl, rfl, rfl⟩
          room := by
            simp only [bytes_append, bytes_cons, every_eq, if_true, bytes_nil, TcpTxItem.new]
            omega
          filledApp := by
            simp only [List.forall_mem_append, List.forall_mem_singleton]
            refine ⟨h.filledApp, fun hnil => ?_⟩
            simp only [TcpTxItem.new] at hnil
            simp [hnil] at hpos }
    · exact h
  · exact h

/-- What counts of the state when a searched list is put back. -/
theorem setSent (h : Counted s) {f : Found} (hcut : Recut s.sentList s.retrans f.list f.retrans)
    (hfilled : ∀ it ∈ f.list, it.packet ≠ []) : Counted (s.setSent f) :=
  { h with
    size := by simpa [TcpTxBuffer.setSent, hcut.every] using h.size
    sentSize := by simpa [TcpTxBuffer.setSent, hcut.every] using h.sentSize
    sackedOut := by simpa [TcpTxBuffer.setSent, hcut.sacked] using h.sackedOut
    lostOut := by simpa [TcpTxBuffer.setSent, hcut.lost] using h.lostOut
    retrans := by
      have hr := h.retrans
      have hc := hcut.retrans
      simp only [TcpTxBuffer.setSent]
      linear_combination hc + hr
    exclusive := hcut.flags (fun sacked lost => ¬ (sacked = true ∧ lost = true)) h.exclusive
    room := by simpa [TcpTxBuffer.setSent, hcut.every] using h.room
    filled := hfilled }

/-- What one item contributes to a counter. -/
def share (flag : Bool) (it : TcpTxItem) : BitVec 32 := if flag then it.size else 0

theorem ofNat_ite (flag : Bool) (k : Nat) :
    BitVec.ofNat 32 (if flag then k else 0) = if flag then BitVec.ofNat 32 k else 0 := by
  cases flag <;> rfl

theorem ofNat_share (flag : Bool) (it : TcpTxItem) :
    BitVec.ofNat 32 (if flag then it.packet.length else 0) = share flag it := ofNat_ite flag _

/-- The flags of one item change, and the counters by what it contributes. -/
theorem reflag {l₁ l₂ : List TcpTxItem} {it it' : TcpTxItem} (h : Counted s)
    (hlist : s.sentList = l₁ ++ it :: l₂) (hlist' : s'.sentList = l₁ ++ it' :: l₂)
    (hpacket : it'.packet = it.packet) (hexcl : ¬ (it'.sacked = true ∧ it'.lost = true))
    (hsacked : s'.sackedOut + share it.sacked it = s.sackedOut + share it'.sacked it)
    (hlost : s'.lostOut + share it.lost it = s.lostOut + share it'.lost it)
    (hretrans : s'.retrans + share it.retrans it = s.retrans + share it'.retrans it)
    (hsize : s'.size = s.size) (hsent : s'.sentSize = s.sentSize) (happ : s'.appList = s.appList)
    (hmax : s'.maxBuffer = s.maxBuffer) : Counted s' := by
  have hsum := h.sackedOut
  have hsum' := h.lostOut
  have hsum'' := h.retrans
  have hold := h.exclusive
  have hfilled := h.filled
  simp only [hlist, bytes_append, bytes_cons, BitVec.ofNat_add, ofNat_share,
    List.forall_mem_append, List.forall_mem_cons] at hsum hsum' hsum'' hold hfilled
  have hevery : bytes every s'.sentList = bytes every s.sentList := by
    simp only [hlist, hlist', bytes_append, bytes_cons, every_eq, hpacket]
  have hshare (flag : Bool) : share flag it' = share flag it := by
    simp only [share, TcpTxItem.size, hpacket]
  exact
    { size := by rw [hsize, hevery, happ, h.size]
      sentSize := by rw [hsent, hevery, h.sentSize]
      sackedOut := by
        simp only [hlist', bytes_append, bytes_cons, BitVec.ofNat_add, ofNat_share, hshare]
        linear_combination hsacked + hsum
      lostOut := by
        simp only [hlist', bytes_append, bytes_cons, BitVec.ofNat_add, ofNat_share, hshare]
        linear_combination hlost + hsum'
      retrans := by
        simp only [hlist', bytes_append, bytes_cons, BitVec.ofNat_add, ofNat_share, hshare]
        linear_combination hretrans + hsum''
      exclusive := by
        simp only [hlist', List.forall_mem_append, List.forall_mem_cons]
        exact ⟨hold.1, hexcl, hold.2.2⟩
      unsent := by
        rw [happ]
        exact h.unsent
      room := by
        rw [hevery, happ, hmax]
        exact h.room
      filled := by
        simp only [hlist', List.forall_mem_append, List.forall_mem_cons, hpacket]
        exact hfilled
      filledApp := by
        rw [happ]
        exact h.filledApp }

/-- The flags of all items may change, as long as the counters follow. -/
theorem relist {l : List TcpTxItem} {sacked lost retrans : BitVec 32} (h : Counted s)
    (hpackets : l.map TcpTxItem.packet = s.sentList.map TcpTxItem.packet)
    (hsacked : sacked = BitVec.ofNat 32 (bytes TcpTxItem.sacked l))
    (hlost : lost = BitVec.ofNat 32 (bytes TcpTxItem.lost l))
    (hretrans : retrans = BitVec.ofNat 32 (bytes TcpTxItem.retrans l))
    (hexcl : ∀ it ∈ l, ¬ (it.sacked = true ∧ it.lost = true))
    (highest : Option Nat × SequenceNumber 32) :
    Counted { s with
      sentList := l
      sackedOut := sacked
      lostOut := lost
      retrans := retrans
      highestSack := highest } := by
  have hevery : bytes every l = bytes every s.sentList := by
    rw [← length_stream, ← length_stream, stream, stream, List.flatMap_def, List.flatMap_def,
      hpackets]
  have hfilled : ∀ p ∈ s.sentList.map TcpTxItem.packet, p ≠ [] := List.forall_mem_map.mpr h.filled
  exact
    { size := by rw [hevery, h.size]
      sentSize := by rw [hevery, h.sentSize]
      sackedOut := hsacked
      lostOut := hlost
      retrans := hretrans
      exclusive := hexcl
      unsent := h.unsent
      room := by
        rw [hevery]
        exact h.room
      filled := fun it hit => hfilled it.packet (hpackets ▸ List.mem_map_of_mem hit)
      filledApp := h.filledApp }

theorem getTransmittedSegment (h : Counted s) {n : BitVec 32} {seq : SequenceNumber 32} {f : Found}
    (hn : n ≠ 0) (hf : s.getTransmittedSegment n seq = some f) : Counted (s.setSent f) := by
  unfold TcpTxBuffer.getTransmittedSegment at hf
  split at hf
  · cases hf
  split at hf
  · cases hf
  split at hf
  · cases hf
  obtain ⟨f, hget, rfl⟩ := Option.map_eq_some_iff.mp hf
  have hset := h.setSent (getPacketFromList_recut hget)
    (getPacketFromList_filled (segmentLimit_ne_zero hn h.filled h.sent_lt) hget h.filled)
  split
  · exact hset
  · rename_i hr
    have hmem : f.item ∈ (s.setSent f).sentList := by simp [TcpTxBuffer.setSent, Found.list]
    exact hset.reflag rfl rfl rfl (hset.exclusive f.item hmem) rfl rfl
      (by simp [share, TcpTxBuffer.setSent, hr]) rfl rfl rfl rfl

theorem getNewSegment (h : Counted s) {n : BitVec 32} {f : Found} (hn : n ≠ 0)
    (hf : s.getNewSegment n = some (s', f)) :
    Counted (s'.setSent f) ∧ f.before = s.sentList ∧ f.after = [] ∧ f.item.sacked = false := by
  unfold TcpTxBuffer.getNewSegment at hf
  obtain ⟨g, hget, heq⟩ := Option.map_eq_some_iff.mp hf
  obtain ⟨rfl, rfl⟩ := Prod.mk.inj heq
  have hcut := getPacketFromList_recut hget
  have hfilled := getPacketFromList_filled hn hget h.filledApp
  have hevery := hcut.every
  have hflags := hcut.flags (fun sacked lost => sacked = false ∧ lost = false) fun it hit =>
    ⟨(h.unsent it hit).1, (h.unsent it hit).2.1⟩
  have hfresh := hcut.fresh fun it hit => (h.unsent it hit).2.2
  have hcount := hcut.retrans
  rw [bytes_of_none _ hfresh, bytes_of_none _ fun it hit => (h.unsent it hit).2.2] at hcount
  simp only [Found.list, List.forall_mem_append, List.forall_mem_cons, bytes_append, bytes_cons,
    every_eq, if_true] at hfilled hflags hfresh hevery
  have hsize := h.size
  have hroom := h.room
  refine ⟨?_, rfl, rfl, hflags.2.1.1⟩
  constructor
  · simp only [TcpTxBuffer.setSent, Found.list, bytes_append, bytes_cons, every_eq, if_true, bytes_nil]
    rw [hsize]
    congr 1
    omega
  · simp [TcpTxBuffer.setSent, Found.list, h.sentSize, BitVec.ofNat_add, TcpTxItem.size]
  · simpa [TcpTxBuffer.setSent, Found.list, hflags.2.1.1] using h.sackedOut
  · simpa [TcpTxBuffer.setSent, Found.list, hflags.2.1.2] using h.lostOut
  · simp only [TcpTxBuffer.setSent, Found.list, bytes_append, bytes_cons, bytes_nil, hfresh.2.1,
      Bool.false_eq_true, if_false, Nat.add_zero]
    linear_combination hcount + h.retrans
  · simp only [TcpTxBuffer.setSent, Found.list, List.forall_mem_append, List.forall_mem_singleton]
    exact ⟨h.exclusive, by simp [hflags.2.1.1]⟩
  · simp only [TcpTxBuffer.setSent, List.forall_mem_append]
    exact ⟨fun it hit => ⟨(hflags.1 it hit).1, (hflags.1 it hit).2, hfresh.1 it hit⟩, fun it hit =>
      ⟨(hflags.2.2 it hit).1, (hflags.2.2 it hit).2, hfresh.2.2 it hit⟩⟩
  · simp only [TcpTxBuffer.setSent, Found.list, bytes_append, bytes_cons, every_eq, if_true, bytes_nil]
    omega
  · simp only [TcpTxBuffer.setSent, Found.list, List.forall_mem_append, List.forall_mem_singleton]
    exact ⟨h.filled, hfilled.2.1⟩
  · simp only [TcpTxBuffer.setSent, List.forall_mem_append]
    exact ⟨hfilled.1, hfilled.2.2⟩

theorem handOut {now : Int} {f : Found} {r : Option TcpTxItem} (h : Counted (s.setSent f))
    (hout : TcpTxBuffer.handOut now s f = some (s', r)) : Counted s' := by
  unfold TcpTxBuffer.handOut at hout
  split at hout
  · obtain ⟨rfl, rfl⟩ := Prod.mk.inj (Option.some.inj hout)
    have hmem : f.item ∈ (s.setSent f).sentList := by simp [TcpTxBuffer.setSent, Found.list]
    exact h.reflag rfl rfl rfl (h.exclusive f.item hmem) rfl rfl rfl rfl rfl rfl rfl
  · cases hout

theorem copyFrom {now : Int} {depth : Nat} {n : BitVec 32} {seq : SequenceNumber 32}
    {r : Option TcpTxItem} (h : Counted s)
    (hcopy : TcpTxBuffer.copyFrom now s depth n seq = some (s', r)) : Counted s' := by
  induction depth generalizing n with
  | zero => cases hcopy
  | succ depth ih =>
    unfold TcpTxBuffer.copyFrom at hcopy
    split at hcopy
    · cases hcopy
    simp only at hcopy
    split at hcopy
    · cases hcopy
      exact h
    rename_i hn
    split at hcopy
    · obtain ⟨f, hf, hout⟩ := Option.bind_eq_some_iff.mp hcopy
      split at hout
      · cases hout
      · exact (h.getTransmittedSegment hn hf).handOut hout
    split at hcopy
    · split at hcopy
      · obtain ⟨⟨t, f⟩, hf, hout⟩ := Option.bind_eq_some_iff.mp hcopy
        simp only at hout
        split at hout
        · cases hout
        · exact (h.getNewSegment hn hf).1.handOut hout
      · cases hcopy
    split at hcopy
    · exact ih hcopy
    · cases hcopy

/-- The first `k` bytes of the sent list leave, which are bytes of `it`. -/
theorem removeHead {it : TcpTxItem} {k : Nat} {l : List TcpTxItem} (h : Counted s)
    (hall : bytes every s.sentList = k + bytes every l)
    (hsacked : bytes TcpTxItem.sacked s.sentList =
      (if it.sacked then k else 0) + bytes TcpTxItem.sacked l)
    (hlost : bytes TcpTxItem.lost s.sentList = (if it.lost then k else 0) + bytes TcpTxItem.lost l)
    (hretrans : bytes TcpTxItem.retrans s.sentList =
      (if it.retrans then k else 0) + bytes TcpTxItem.retrans l)
    (hexcl : ∀ it ∈ l, ¬ (it.sacked = true ∧ it.lost = true)) (hfilled : ∀ it ∈ l, it.packet ≠ [])
    (hremove : s.removeHead it (BitVec.ofNat 32 k) l = some s') :
    Counted s' ∧ s'.sentList = l ∧ s'.appList = s.appList := by
  have hsize := h.size
  have hsent := h.sentSize
  have hsack := h.sackedOut
  have hlose := h.lostOut
  have hretr := h.retrans
  have hroom := h.room
  simp only [hall, hsacked, hlost, hretrans, BitVec.ofNat_add, ofNat_ite] at hsize hsent hsack hlose hretr hroom
  unfold TcpTxBuffer.removeHead removeFromCounts at hremove
  split at hremove
  · cases hremove
  split at hremove
  · cases hremove
  split at hremove
  · cases hremove
  obtain rfl := Option.some.inj hremove
  refine ⟨?_, rfl, rfl⟩
  exact
    { size := by
        simp only [BitVec.ofNat_add]
        linear_combination hsize
      sentSize := by linear_combination hsent
      sackedOut := by
        cases hf : it.sacked
        · simp only [hf, Bool.false_eq_true, if_false] at hsack ⊢
          linear_combination hsack
        · simp only [hf, if_true] at hsack ⊢
          linear_combination hsack
      lostOut := by
        cases hf : it.lost
        · simp only [hf, Bool.false_eq_true, if_false] at hlose ⊢
          linear_combination hlose
        · simp only [hf, if_true] at hlose ⊢
          linear_combination hlose
      retrans := by
        cases hf : it.retrans
        · simp only [hf, Bool.false_eq_true, if_false] at hretr ⊢
          linear_combination hretr
        · simp only [hf, if_true] at hretr ⊢
          linear_combination hretr
      exclusive := hexcl
      unsent := h.unsent
      room := by
        simp only
        omega
      filled := hfilled
      filledApp := h.filledApp }

theorem pullSent {now : Int} {offset : BitVec 32} (h : Counted s)
    (hpull : s.pullSent now offset = some s') : Counted s' := by
  unfold TcpTxBuffer.pullSent at hpull
  split at hpull
  · obtain ⟨⟨t, r⟩, hcopy, hr⟩ := Option.bind_eq_some_iff.mp hpull
    obtain ⟨_, _, rfl⟩ := Option.map_eq_some_iff.mp hr
    exact h.copyFrom hcopy
  · obtain rfl := Option.some.inj hpull
    exact h

theorem removeWhole {it : TcpTxItem} {rest : List TcpTxItem} (h : Counted s)
    (hlist : s.sentList = it :: rest) (hremove : s.removeHead it it.size rest = some s') :
    Counted s' ∧ s'.sentList = rest ∧ s'.appList = s.appList := by
  have hexcl := h.exclusive
  have hfilled := h.filled
  simp only [hlist, List.forall_mem_cons] at hexcl hfilled
  exact h.removeHead (by simp [hlist]) (by simp [hlist]) (by simp [hlist]) (by simp [hlist]) hexcl.2
    hfilled.2 hremove

/-- The item with its first `offset` bytes acknowledged. -/
def trimmed (it : TcpTxItem) (offset : BitVec 32) : TcpTxItem :=
  { it with
    packet := it.packet.drop offset.toNat
    startSeq := it.startSeq + offset }

theorem removePart {it : TcpTxItem} {rest : List TcpTxItem} {offset : BitVec 32}
    (h : Counted s) (hlist : s.sentList = it :: rest) (hlt : offset < it.size)
    (hremove : s.removeHead it offset (trimmed it offset :: rest) = some s') :
    Counted s' ∧ s'.sentList = trimmed it offset :: rest ∧ s'.appList = s.appList := by
  have hexcl := h.exclusive
  have hfilled := h.filled
  simp only [hlist, List.forall_mem_cons] at hexcl hfilled
  have hle : offset.toNat < it.packet.length := by
    have hmod := Nat.mod_le it.packet.length (2 ^ 32)
    simp only [BitVec.lt_def, TcpTxItem.size, BitVec.toNat_ofNat] at hlt
    omega
  have hk : BitVec.ofNat 32 offset.toNat = offset := by simp
  have hsum (p : Bool) (n : Nat) : (if p then it.packet.length else 0) + n =
      (if p then offset.toNat else 0) + ((if p then (it.packet.drop offset.toNat).length else 0) +
        n) := by
    cases p
    · simp
    · simp only [if_true, List.length_drop]
      omega
  have hremove' : s.removeHead it (BitVec.ofNat 32 offset.toNat) (trimmed it offset :: rest) =
      some s' := by rwa [hk]
  refine h.removeHead ?_ ?_ ?_ ?_ ?_ ?_ hremove'
  · simpa [hlist, trimmed] using hsum true (bytes every rest)
  · simpa only [hlist, bytes_cons, trimmed] using hsum it.sacked _
  · simpa only [hlist, bytes_cons, trimmed] using hsum it.lost _
  · simpa only [hlist, bytes_cons, trimmed] using hsum it.retrans _
  · exact List.forall_mem_cons.mpr hexcl
  · refine List.forall_mem_cons.mpr ⟨?_, hfilled.2⟩
    apply List.ne_nil_of_length_pos
    simp only [trimmed, List.length_drop]
    omega

theorem discard {now : Int} {fuel : Nat} {offset : BitVec 32} (h : Counted s)
    (hd : TcpTxBuffer.discard now fuel s offset = some s') : Counted s' := by
  induction fuel generalizing s offset with
  | zero => cases hd
  | succ fuel ih =>
    unfold TcpTxBuffer.discard at hd
    split at hd
    · obtain rfl := Option.some.inj hd
      exact h
    obtain ⟨t, hpull, hd⟩ := Option.bind_eq_some_iff.mp hd
    have ht := h.pullSent hpull
    split at hd
    · cases hd
    rename_i it rest hlist
    split at hd
    · cases hd
    split at hd
    · obtain ⟨u, hremove, hd⟩ := Option.bind_eq_some_iff.mp hd
      exact ih (ht.removeWhole hlist hremove).1 hd
    · rename_i hlt
      exact (ht.removePart hlist (BitVec.not_le.mp hlt) hd).1

end Counted

/-- The first of the items that is not sacked is not lost either. -/
def RenoSafe (l : List TcpTxItem) : Prop :=
  ∀ it, l.find? (fun it => !it.sacked) = some it → it.lost = false

/-- What an acknowledgment of `n` bytes leaves of a list, but for the front of the first item. -/
def dropAcked : Nat → List TcpTxItem → List TcpTxItem
  | _, [] => []
  | n, it :: rest =>
    if n ≠ 0 ∧ it.packet.length ≤ n then dropAcked (n - it.packet.length) rest else it :: rest

section Flags
variable {s s' : TcpTxBuffer} {P : Bool → Bool → Prop}

/-- `m_sacked` and `m_lost` of the sent items are all so. -/
def SentFlags (P : Bool → Bool → Prop) (s : TcpTxBuffer) : Prop := ∀ it ∈ s.sentList, P it.sacked it.lost

theorem SentFlags.handOut {now : Int} {f : Found} {r : Option TcpTxItem}
    (h : ∀ it ∈ f.list, P it.sacked it.lost)
    (hout : TcpTxBuffer.handOut now s f = some (s', r)) : SentFlags P s' := by
  unfold TcpTxBuffer.handOut at hout
  split at hout
  · obtain ⟨rfl, rfl⟩ := Prod.mk.inj (Option.some.inj hout)
    simp only [Found.list, List.forall_mem_append, List.forall_mem_cons] at h
    simp only [SentFlags, setSent, Found.list, List.forall_mem_append, List.forall_mem_cons]
    exact h
  · cases hout

theorem getTransmittedSegment_flags {n : BitVec 32} {seq : SequenceNumber 32} {f : Found}
    (h : SentFlags P s) (hf : s.getTransmittedSegment n seq = some f) :
    ∀ it ∈ f.list, P it.sacked it.lost := by
  unfold getTransmittedSegment at hf
  split at hf
  · cases hf
  split at hf
  · cases hf
  split at hf
  · cases hf
  obtain ⟨g, hget, rfl⟩ := Option.map_eq_some_iff.mp hf
  have hflags := (getPacketFromList_recut hget).flags P h
  split
  · exact hflags
  · simp only [Found.list, List.forall_mem_append, List.forall_mem_cons] at hflags ⊢
    exact hflags

theorem SentFlags.copyFrom {now : Int} {depth : Nat} {n : BitVec 32} {seq : SequenceNumber 32}
    {r : Option TcpTxItem} (hs : Counted s) (hnew : P false false) (h : SentFlags P s)
    (hcopy : TcpTxBuffer.copyFrom now s depth n seq = some (s', r)) : SentFlags P s' := by
  induction depth generalizing n with
  | zero => cases hcopy
  | succ depth ih =>
    unfold TcpTxBuffer.copyFrom at hcopy
    split at hcopy
    · cases hcopy
    simp only at hcopy
    split at hcopy
    · cases hcopy
      exact h
    split at hcopy
    · obtain ⟨f, hf, hout⟩ := Option.bind_eq_some_iff.mp hcopy
      split at hout
      · cases hout
      · exact SentFlags.handOut (getTransmittedSegment_flags h hf) hout
    split at hcopy
    · split at hcopy
      · obtain ⟨⟨t, f⟩, hf, hout⟩ := Option.bind_eq_some_iff.mp hcopy
        simp only at hout
        split at hout
        · cases hout
        · refine SentFlags.handOut ?_ hout
          obtain ⟨g, hget, heq⟩ := Option.map_eq_some_iff.mp hf
          obtain ⟨rfl, rfl⟩ := Prod.mk.inj heq
          have hflags := (getPacketFromList_recut hget).flags
            (fun sacked lost => sacked = false ∧ lost = false) fun it hit =>
              ⟨(hs.unsent it hit).1, (hs.unsent it hit).2.1⟩
          have hitem := hflags g.item (by simp [Found.list])
          simp only [Found.list, List.forall_mem_append, List.forall_mem_singleton, hitem.1, hitem.2]
          exact ⟨h, hnew⟩
      · cases hcopy
    split at hcopy
    · exact ih hcopy
    · cases hcopy

theorem SentFlags.pullSent {now : Int} {offset : BitVec 32} (hs : Counted s) (hnew : P false false)
    (h : SentFlags P s) (hpull : s.pullSent now offset = some s') : SentFlags P s' := by
  unfold TcpTxBuffer.pullSent at hpull
  split at hpull
  · obtain ⟨⟨t, r⟩, hcopy, hr⟩ := Option.bind_eq_some_iff.mp hpull
    obtain ⟨_, _, rfl⟩ := Option.map_eq_some_iff.mp hr
    exact h.copyFrom hs hnew hcopy
  · obtain rfl := Option.some.inj hpull
    exact h

theorem SentFlags.discard {now : Int} {fuel : Nat} {offset : BitVec 32} (hs : Counted s)
    (hnew : P false false) (h : SentFlags P s)
    (hd : TcpTxBuffer.discard now fuel s offset = some s') : SentFlags P s' := by
  induction fuel generalizing s offset with
  | zero => cases hd
  | succ fuel ih =>
    unfold TcpTxBuffer.discard at hd
    split at hd
    · obtain rfl := Option.some.inj hd
      exact h
    obtain ⟨t, hpull, hd⟩ := Option.bind_eq_some_iff.mp hd
    have ht := hs.pullSent hpull
    have hflags := h.pullSent hs hnew hpull
    split at hd
    · cases hd
    rename_i it rest hlist
    simp only [SentFlags, hlist, List.forall_mem_cons] at hflags
    split at hd
    · cases hd
    split at hd
    · obtain ⟨u, hremove, hd⟩ := Option.bind_eq_some_iff.mp hd
      obtain ⟨hu, hul, _⟩ := ht.removeWhole hlist hremove
      exact ih hu (by simpa [SentFlags, hul] using hflags.2) hd
    · rename_i hlt
      obtain ⟨_, hul, _⟩ := ht.removePart hlist (BitVec.not_le.mp hlt) hd
      simpa [SentFlags, hul, Counted.trimmed] using hflags

end Flags

/-- If the new head is sacked it was there before, and so was everything behind it. -/
theorem discard_head {now : Int} {fuel : Nat} {offset : BitVec 32} {s s' : TcpTxBuffer}
    (h : Counted s) (hd : TcpTxBuffer.discard now fuel s offset = some s') {head : TcpTxItem}
    {rest : List TcpTxItem} (hlist : s'.sentList = head :: rest) (hsacked : head.sacked = true) :
    ∃ it, dropAcked offset.toNat s.sentList = it :: rest ∧ it.sacked = true := by
  induction fuel generalizing s offset with
  | zero => cases hd
  | succ fuel ih =>
    have hcopy := hd
    unfold TcpTxBuffer.discard at hd
    split at hd
    · rename_i hstop
      obtain rfl := Option.some.inj hd
      rcases hstop with hzero | rfl
      · -- nothing is buffered, so nothing is in the lists
        have hsize := h.size_toNat
        have hpos := List.length_pos_iff.mpr (h.filled head (by simp [hlist]))
        have hnat : s.size.toNat = 0 := congrArg BitVec.toNat hzero
        simp only [hlist, bytes_cons, every_eq, if_true] at hsize
        omega
      · exact ⟨head, by simp [hlist, dropAcked], hsacked⟩
    cases hsent : s.sentList with
    | nil =>
      -- whatever is moved from the unsent data is not sacked
      have hnone := SentFlags.discard (P := fun sacked _ => sacked = false) h rfl
        (by simp [SentFlags, hsent]) hcopy
      have := hnone head (by simp [hlist])
      simp [this] at hsacked
    | cons it tail =>
      rename_i hgo
      have hpull : s.pullSent now offset = some s := by simp [TcpTxBuffer.pullSent, hsent]
      simp only [hpull, Option.bind_some, hsent] at hd
      have hoffset : offset.toNat ≠ 0 := fun h0 => hgo (.inr (BitVec.eq_of_toNat_eq h0))
      have hlt : it.packet.length < 2 ^ 32 := by
        have hall := h.sent_lt
        simp only [hsent, bytes_cons, every_eq, if_true] at hall
        omega
      have hnat : it.size.toNat = it.packet.length := by
        simp only [TcpTxItem.size, BitVec.toNat_ofNat]
        exact Nat.mod_eq_of_lt hlt
      split at hd
      · cases hd
      split at hd
      · rename_i hle
        rw [BitVec.le_def, hnat] at hle
        obtain ⟨u, hremove, hd⟩ := Option.bind_eq_some_iff.mp hd
        obtain ⟨hu, hul, _⟩ := h.removeWhole hsent hremove
        obtain ⟨it', hdrop, hit'⟩ := ih hu hd
        refine ⟨it', ?_, hit'⟩
        rw [hul] at hdrop
        rw [dropAcked, if_pos ⟨hoffset, hle⟩, ← hdrop]
        congr 1
        rw [BitVec.toNat_sub_of_le (by rwa [BitVec.le_def, hnat]), hnat]
      · rename_i hgt
        obtain ⟨_, hul, _⟩ := h.removePart hsent (BitVec.not_le.mp hgt) hd
        rw [BitVec.le_def, hnat] at hgt
        obtain ⟨rfl, rfl⟩ := List.cons.inj (hul.symm.trans hlist)
        exact ⟨it, by rw [dropAcked, if_neg fun h => hgt h.2], hsacked⟩

theorem sackFirst_eq_some {l l' : List TcpTxItem} {it : TcpTxItem}
    (h : sackFirst l = (l', some it)) :
    ∃ l₁ l₂, l = l₁ ++ it :: l₂ ∧ l' = l₁ ++ { it with sacked := true } :: l₂ ∧
      l.find? (fun it => !it.sacked) = some it := by
  induction l generalizing l' with
  | nil => cases h
  | cons head rest ih =>
    unfold sackFirst at h
    split at h
    · rename_i hsacked
      obtain ⟨rfl, hfound⟩ := Prod.mk.inj h
      obtain ⟨l₁, l₂, hl, hl', hfind⟩ := ih (Prod.ext rfl hfound)
      refine ⟨head :: l₁, l₂, by simp [hl], ?_, by simp [hsacked, hfind]⟩
      simp only [List.cons_append, List.cons.injEq, true_and]
      exact hl'
    · rename_i hsacked
      obtain ⟨rfl, hfound⟩ := Prod.mk.inj h
      obtain rfl := Option.some.inj hfound
      exact ⟨[], rest, rfl, rfl, by simp [hsacked]⟩

namespace Counted
variable {s s' : TcpTxBuffer}

theorem addRenoSack (h : Counted s) (hsafe : RenoSafe s.sentList.tail)
    (hadd : s.addRenoSack = some s') : Counted s' := by
  unfold TcpTxBuffer.addRenoSack at hadd
  split at hadd
  · cases hadd
  rename_i head rest hlist
  split at hadd
  · cases hadd
  split at hadd
  · obtain rfl := Option.some.inj hadd
    exact h
  · rename_i rest' it hfirst
    obtain rfl := Option.some.inj hadd
    obtain ⟨l₁, l₂, hl, hl', hfind⟩ := sackFirst_eq_some hfirst
    have hsacked : it.sacked = false := by simpa using List.find?_some hfind
    have hlost : it.lost = false := hsafe it (by simpa [hlist] using hfind)
    have hsplit : s.sentList = (head :: l₁) ++ it :: l₂ := by rw [hlist, hl, List.cons_append]
    have hsplit' : head :: rest' = (head :: l₁) ++ { it with sacked := true } :: l₂ := by
      rw [hl', List.cons_append]
    exact h.reflag hsplit hsplit' rfl (by simp [hlost]) (by simp [share, hsacked]) rfl rfl rfl rfl
      rfl rfl

theorem markHeadAsLost (h : Counted s) : Counted s.markHeadAsLost := by
  unfold TcpTxBuffer.markHeadAsLost
  split
  · exact h
  rename_i head rest hlist
  have hlist' : s.sentList = [] ++ head :: rest := hlist
  refine h.reflag hlist' rfl rfl (by simp) ?_ ?_ ?_ rfl rfl rfl rfl
  · cases hf : head.sacked <;> simp [share]
  · cases hf : head.lost <;> simp [share]
  · cases hf : head.retrans <;> simp [share]

theorem moveSackFromHead (h : Counted s)
    (hsafe : ∀ head rest, s.sentList = head :: rest → head.sacked = true → RenoSafe rest)
    (hmove : s.moveSackFromHead = some s') : Counted s' := by
  unfold TcpTxBuffer.moveSackFromHead at hmove
  split at hmove
  · obtain rfl := Option.some.inj hmove
    exact h
  rename_i head rest hlist
  split at hmove
  · rename_i hsacked
    split at hmove
    · cases hmove
    obtain ⟨t, hadd, rfl⟩ := Option.map_eq_some_iff.mp hmove
    have hlist' : s.sentList = [] ++ head :: rest := hlist
    have hclear : Counted { s with
        sentList := { head with sacked := false } :: rest
        sackedOut := s.sackedOut - head.size } :=
      h.reflag hlist' rfl rfl (by simp) (by simp [share, hsacked]) rfl rfl rfl rfl rfl rfl
    exact (hclear.addRenoSack (hsafe head rest hlist hsacked) hadd).markHeadAsLost
  · obtain rfl := Option.some.inj hmove
    exact h

theorem catchFin (h : Counted s) (seq : SequenceNumber 32) : Counted (s.catchFin seq) := by
  unfold TcpTxBuffer.catchFin
  split
  · exact { h with }
  · exact h

theorem resetHighestSack (h : Counted s) : Counted s.resetHighestSack := by
  unfold TcpTxBuffer.resetHighestSack
  split
  · exact { h with }
  · exact h

theorem discardUpTo {now : Int} {seq : SequenceNumber 32} (h : Counted s)
    (hsafe : SequenceNumber.ge s.firstByteSeq seq = false → ∀ head rest,
      dropAcked (SequenceNumber.distance seq s.firstByteSeq).toNat s.sentList = head :: rest →
        head.sacked = true → RenoSafe rest)
    (hd : s.discardUpTo now seq = some s') : Counted s' := by
  unfold TcpTxBuffer.discardUpTo at hd
  split at hd
  · obtain rfl := Option.some.inj hd
    exact h
  rename_i hge
  obtain ⟨t, hdiscard, hd⟩ := Option.bind_eq_some_iff.mp hd
  obtain ⟨u, hmove, hd⟩ := Option.bind_eq_some_iff.mp hd
  have hlist : (t.catchFin seq).sentList = t.sentList := by
    unfold TcpTxBuffer.catchFin
    split <;> rfl
  have hu : Counted u := by
    refine ((h.discard hdiscard).catchFin seq).moveSackFromHead ?_ hmove
    intro head rest hhead hsacked
    obtain ⟨it, hdrop, hit⟩ := discard_head h hdiscard (hlist ▸ hhead) hsacked
    exact hsafe (by simpa using hge) it rest hdrop hit
  simp only at hd
  split at hd
  · cases hd
  split at hd
  · cases hd
  split at hd
  · cases hd
  obtain rfl := Option.some.inj hd
  exact hu.resetHighestSack

end Counted

/-- The same packets with other `m_sacked` and `m_lost` flags, and with `m_lostOut` and
`m_sackedOut` before and after. -/
structure Marked (l : List TcpTxItem) (lost sacked : BitVec 32) (l' : List TcpTxItem)
    (lost' sacked' : BitVec 32) : Prop where
  packets : l'.map TcpTxItem.packet = l.map TcpTxItem.packet
  retrans : bytes TcpTxItem.retrans l' = bytes TcpTxItem.retrans l
  lost : lost' + BitVec.ofNat 32 (bytes TcpTxItem.lost l) =
    lost + BitVec.ofNat 32 (bytes TcpTxItem.lost l')
  sacked : sacked' + BitVec.ofNat 32 (bytes TcpTxItem.sacked l) =
    sacked + BitVec.ofNat 32 (bytes TcpTxItem.sacked l')
  exclusive : (∀ it ∈ l, ¬ (it.sacked = true ∧ it.lost = true)) →
    ∀ it ∈ l', ¬ (it.sacked = true ∧ it.lost = true)

namespace Marked
variable {l l' l'' : List TcpTxItem} {lost lost' lost'' sacked sacked' sacked'' : BitVec 32}

theorem refl (l : List TcpTxItem) (lost sacked : BitVec 32) : Marked l lost sacked l lost sacked :=
  ⟨rfl, rfl, rfl, rfl, fun h => h⟩

theorem trans (h : Marked l lost sacked l' lost' sacked')
    (h' : Marked l' lost' sacked' l'' lost'' sacked'') :
    Marked l lost sacked l'' lost'' sacked'' where
  packets := h'.packets.trans h.packets
  retrans := h'.retrans.trans h.retrans
  lost := by linear_combination h.lost + h'.lost
  sacked := by linear_combination h.sacked + h'.sacked
  exclusive hl := h'.exclusive (h.exclusive hl)

theorem cons (h : Marked l lost sacked l' lost' sacked') (it : TcpTxItem) :
    Marked (it :: l) lost sacked (it :: l') lost' sacked' where
  packets := by simp [h.packets]
  retrans := by simp [h.retrans]
  lost := by
    simp only [bytes_cons, BitVec.ofNat_add]
    linear_combination h.lost
  sacked := by
    simp only [bytes_cons, BitVec.ofNat_add]
    linear_combination h.sacked
  exclusive hl := by
    simp only [List.forall_mem_cons] at hl ⊢
    exact ⟨hl.1, h.exclusive hl.2⟩

theorem append (h : Marked l lost sacked l' lost' sacked') (behind : List TcpTxItem) :
    Marked (l ++ behind) lost sacked (l' ++ behind) lost' sacked' where
  packets := by simp [h.packets]
  retrans := by simp [h.retrans]
  lost := by
    simp only [bytes_append, BitVec.ofNat_add]
    linear_combination h.lost
  sacked := by
    simp only [bytes_append, BitVec.ofNat_add]
    linear_combination h.sacked
  exclusive hl := by
    simp only [List.forall_mem_append] at hl ⊢
    exact ⟨h.exclusive hl.1, hl.2⟩

/-- One item that was not sacked is. -/
theorem sackOne {it : TcpTxItem} (hit : it.sacked = false) (l : List TcpTxItem)
    (lost sacked : BitVec 32) :
    Marked (it :: l) lost sacked ({ it with lost := false, sacked := true } :: l)
      (if it.lost then lost - it.size else lost) (sacked + it.size) where
  packets := rfl
  retrans := by simp
  lost := by
    cases hlost : it.lost
    · simp [hlost]
    · simp only [bytes_cons, hlost, if_true, Bool.false_eq_true, if_false, Nat.zero_add,
        BitVec.ofNat_add, TcpTxItem.size]
      ring
  sacked := by
    simp only [bytes_cons, hit, if_true, Bool.false_eq_true, if_false, Nat.zero_add,
      BitVec.ofNat_add, TcpTxItem.size]
    ring
  exclusive hl := by
    simp only [List.forall_mem_cons] at hl ⊢
    exact ⟨by simp, hl.2⟩

/-- One item that was not lost is. -/
theorem loseOne {it : TcpTxItem} (hit : it.lost = false) (hs : it.sacked = false)
    (l : List TcpTxItem) (lost sacked : BitVec 32) :
    Marked (it :: l) lost sacked ({ it with lost := true } :: l) (lost + it.size) sacked where
  packets := rfl
  retrans := by simp
  lost := by
    simp only [bytes_cons, hit, if_true, Bool.false_eq_true, if_false, Nat.zero_add,
      BitVec.ofNat_add, TcpTxItem.size]
    ring
  sacked := by simp
  exclusive hl := by
    simp only [List.forall_mem_cons] at hl ⊢
    exact ⟨by simp [hs], hl.2⟩

end Marked

theorem updateItems_marked {block : SackBlock} {begin : SequenceNumber 32} {k k' : Sacking}
    {l l' : List TcpTxItem} (h : updateItems block begin k l = some (l', k')) :
    Marked l k.lostOut k.sackedOut l' k'.lostOut k'.sackedOut := by
  induction l generalizing begin k l' k' with
  | nil =>
    cases h
    exact Marked.refl _ _ _
  | cons it rest ih =>
    unfold updateItems at h
    split at h
    · split at h
      · split at h
        · cases h
        · obtain ⟨⟨rest', t⟩, hrest, heq⟩ := Option.map_eq_some_iff.mp h
          obtain ⟨rfl, rfl⟩ := Prod.mk.inj heq
          exact (ih hrest).cons it
      · rename_i hit
        obtain ⟨⟨rest', t⟩, hrest, heq⟩ := Option.map_eq_some_iff.mp h
        obtain ⟨rfl, rfl⟩ := Prod.mk.inj heq
        exact (Marked.sackOne (by simpa using hit) rest _ _).trans ((ih hrest).cons _)
    split at h
    · cases h
      exact Marked.refl _ _ _
    · obtain ⟨⟨rest', t⟩, hrest, heq⟩ := Option.map_eq_some_iff.mp h
      obtain ⟨rfl, rfl⟩ := Prod.mk.inj heq
      exact (ih hrest).cons it

theorem updateBlocks_marked {s : TcpTxBuffer} {k k' : Sacking} {l l' : List TcpTxItem}
    {blocks : List SackBlock} {early : Bool} (h : updateBlocks s k l blocks = some (l', k', early)) :
    Marked l k.lostOut k.sackedOut l' k'.lostOut k'.sackedOut := by
  induction blocks generalizing k l with
  | nil =>
    cases h
    exact Marked.refl _ _ _
  | cons block blocks ih =>
    unfold updateBlocks at h
    split at h
    · cases h
      exact Marked.refl _ _ _
    · obtain ⟨⟨items, t⟩, hitems, hrest⟩ := Option.bind_eq_some_iff.mp h
      exact (updateItems_marked hitems).trans (ih hrest)

theorem loseItems_marked (thresh lost sacked : BitVec 32) (l : List TcpTxItem) :
    Marked l lost sacked (loseItems thresh lost l).1 (loseItems thresh lost l).2.2 sacked := by
  induction l with
  | nil => exact Marked.refl _ _ _
  | cons it rest ih =>
    unfold loseItems
    simp only
    generalize (if it.sacked = true then (loseItems thresh lost rest).2.1 + 1
      else (loseItems thresh lost rest).2.1) = count
    split
    · rename_i h
      exact (ih.cons it).trans (Marked.loseOne (by simpa using h.2.2) (by simpa using h.2.1) _ _ _)
    · exact ih.cons it

theorem upToNode_append {node : Nat} {l upTo behind : List TcpTxItem}
    (h : upToNode node l = some (upTo, behind)) : l = upTo ++ behind := by
  induction l generalizing upTo behind with
  | nil => cases h
  | cons it rest ih =>
    unfold upToNode at h
    split at h
    · cases h
      rfl
    · obtain ⟨⟨u, b⟩, hrest, heq⟩ := Option.map_eq_some_iff.mp h
      obtain ⟨rfl, rfl⟩ := Prod.mk.inj heq
      rw [List.cons_append, ← ih hrest]

namespace Counted
variable {s s' : TcpTxBuffer}

theorem marked {l : List TcpTxItem} {lost sacked : BitVec 32} (h : Counted s)
    (hm : Marked s.sentList s.lostOut s.sackedOut l lost sacked)
    (highest : Option Nat × SequenceNumber 32) :
    Counted { s with
      sentList := l
      lostOut := lost
      sackedOut := sacked
      highestSack := highest } := by
  refine h.relist hm.packets ?_ ?_ ?_ (hm.exclusive h.exclusive) highest
  · linear_combination hm.sacked + h.sackedOut
  · linear_combination hm.lost + h.lostOut
  · rw [hm.retrans, h.retrans]

/-- `UpdateLostCount` may mark a sacked head; the assertion at the end of `Update` then fails. -/
theorem updateLostCount (h : Counted s) (hlost : s.updateLostCount = some s')
    (hhead : (s'.sentList.head?.any fun head => !head.sacked) = true) : Counted s' := by
  unfold TcpTxBuffer.updateLostCount at hlost
  split at hlost
  · rename_i node head rest _ hlist
    obtain ⟨⟨upTo, behind⟩, hfind, heq⟩ := Option.map_eq_some_iff.mp hlost
    have happend : rest = upTo ++ behind := by
      split at hfind
      · cases hfind
        rfl
      · exact upToNode_append hfind
    have htail := ((loseItems_marked s.dupAckThresh s.lostOut s.sackedOut upTo).append behind).cons head
    rw [← happend, ← hlist] at htail
    simp only at heq
    split at heq
    · rename_i hif
      subst heq
      have hone := htail.trans (Marked.loseOne (by simpa using hif.2) (by simpa using hhead) _ _ _)
      exact h.marked hone s.highestSack
    · subst heq
      exact h.marked htail s.highestSack
  · cases hlost

theorem update {blocks : List SackBlock} {n : BitVec 32} (h : Counted s)
    (hu : s.update blocks = some (s', n)) : Counted s' := by
  unfold TcpTxBuffer.update at hu
  obtain ⟨⟨items, k, early⟩, hblocks, hu⟩ := Option.bind_eq_some_iff.mp hu
  have hm := h.marked (updateBlocks_marked hblocks) k.highestSack
  simp only at hu
  split at hu
  · obtain ⟨rfl, rfl⟩ := Prod.mk.inj (Option.some.inj hu)
    exact hm
  · obtain ⟨t, ht, hu⟩ := Option.bind_eq_some_iff.mp hu
    split at hu
    · cases hu
    rename_i hhead
    split at hu
    · cases hu
    obtain ⟨rfl, rfl⟩ := Prod.mk.inj (Option.some.inj hu)
    split at ht
    · obtain rfl := Option.some.inj ht
      exact hm
    · exact hm.updateLostCount ht (by simpa using hhead)

end Counted

namespace Counted
variable {s : TcpTxBuffer}

theorem loseAll_keeps (resetSack : Bool) (lost : BitVec 32) (l : List TcpTxItem) :
    (loseAll resetSack lost l).1.map TcpTxItem.packet = l.map TcpTxItem.packet ∧
      ∀ it ∈ (loseAll resetSack lost l).1, it.retrans = false := by
  induction l generalizing lost with
  | nil => simp [loseAll]
  | cons it rest ih =>
    unfold loseAll
    split
    · simpa using ih lost
    · split
      · simpa using ih (lost + it.size)
      · simpa using ih lost

theorem loseAll_reset (lost : BitVec 32) (l : List TcpTxItem) :
    (loseAll true lost l).2 = lost ∧
      ∀ it ∈ (loseAll true lost l).1, it.sacked = false ∧ it.lost = true := by
  induction l with
  | nil => simp [loseAll]
  | cons it rest ih => simpa [loseAll] using ih

/-- Without the reset every item that is not sacked is lost. -/
theorem loseAll_marked {l : List TcpTxItem}
    (hl : ∀ it ∈ l, ¬ (it.sacked = true ∧ it.lost = true)) (lost : BitVec 32) :
    (loseAll false lost l).2 =
        lost + BitVec.ofNat 32 (bytes TcpTxItem.lost (loseAll false lost l).1) ∧
      bytes TcpTxItem.sacked (loseAll false lost l).1 = bytes TcpTxItem.sacked l ∧
      ∀ it ∈ (loseAll false lost l).1, ¬ (it.sacked = true ∧ it.lost = true) := by
  induction l generalizing lost with
  | nil => simp [loseAll]
  | cons it rest ih =>
    simp only [List.forall_mem_cons] at hl
    unfold loseAll
    simp only [Bool.false_eq_true, if_false]
    split
    · rename_i hnot
      obtain ⟨hlost, hsacked, hexcl⟩ := ih hl.2 (lost + it.size)
      refine ⟨?_, ?_, ?_⟩
      · simp only [bytes_cons, if_true, BitVec.ofNat_add]
        rw [hlost, TcpTxItem.size]
        ring
      · simp only [bytes_cons, hsacked]
      · refine List.forall_mem_cons.mpr ⟨?_, hexcl⟩
        rintro ⟨hs, -⟩
        simp only at hs
        simp only [hs, Bool.not_true, Bool.or_false] at hnot
        exact hl.1 ⟨hs, hnot⟩
    · rename_i hnot
      obtain ⟨hlost, hsacked, hexcl⟩ := ih hl.2 lost
      simp only [Bool.or_eq_true, Bool.not_eq_true', not_or, Bool.not_eq_true,
        Bool.not_eq_false] at hnot
      refine ⟨?_, ?_, ?_⟩
      · simp only [bytes_cons, hnot.1, Bool.false_eq_true, if_false, Nat.zero_add]
        exact hlost
      · simp only [bytes_cons, hsacked]
      · exact List.forall_mem_cons.mpr ⟨by simp [hnot.1], hexcl⟩

theorem bytes_of_all {p : TcpTxItem → Bool} {l : List TcpTxItem} (h : ∀ it ∈ l, p it = true) :
    bytes p l = bytes every l := by
  induction l with
  | nil => rfl
  | cons it rest ih =>
    simp only [List.forall_mem_cons] at h
    simp [h.1, ih h.2]

theorem setSentListLost {s' : TcpTxBuffer} {resetSack : Bool} (h : Counted s)
    (hset : s.setSentListLost resetSack = some s') : Counted s' := by
  unfold TcpTxBuffer.setSentListLost at hset
  cases resetSack with
  | true =>
    simp only [if_true] at hset
    split at hset
    · cases hset
    obtain rfl := Option.some.inj hset
    obtain ⟨hpackets, hretrans⟩ := loseAll_keeps true s.sentSize s.sentList
    obtain ⟨hlost, hflags⟩ := loseAll_reset s.sentSize s.sentList
    have hevery : bytes every (loseAll true s.sentSize s.sentList).1 = bytes every s.sentList := by
      rw [← length_stream, ← length_stream, stream, stream, List.flatMap_def, List.flatMap_def,
        hpackets]
    refine h.relist hpackets ?_ ?_ ?_ ?_ (none, 0)
    · rw [bytes_of_none _ fun it hit => (hflags it hit).1]
      rfl
    · rw [hlost, bytes_of_all fun it hit => (hflags it hit).2, hevery, h.sentSize]
    · rw [bytes_of_none _ hretrans]
      rfl
    · intro it hit hboth
      simp [(hflags it hit).1] at hboth
  | false =>
    simp only [Bool.false_eq_true, if_false] at hset
    split at hset
    · cases hset
    obtain rfl := Option.some.inj hset
    obtain ⟨hpackets, hretrans⟩ := loseAll_keeps false 0 s.sentList
    obtain ⟨hlost, hsacked, hexcl⟩ := loseAll_marked h.exclusive 0
    refine h.relist hpackets ?_ ?_ ?_ hexcl s.highestSack
    · rw [hsacked, h.sackedOut]
    · rw [hlost]
      exact zero_add _
    · rw [bytes_of_none _ hretrans]
      rfl

theorem resetRenoSack (h : Counted s) : Counted s.resetRenoSack := by
  have hlost : bytes TcpTxItem.lost (s.sentList.map fun it => { it with sacked := false }) =
      bytes TcpTxItem.lost s.sentList := by
    induction s.sentList with
    | nil => rfl
    | cons it rest ih => simp [ih]
  have hretrans : bytes TcpTxItem.retrans (s.sentList.map fun it => { it with sacked := false }) =
      bytes TcpTxItem.retrans s.sentList := by
    induction s.sentList with
    | nil => rfl
    | cons it rest ih => simp [ih]
  refine h.relist ?_ ?_ ?_ ?_ ?_ (none, 0)
  · simp
  · rw [bytes_of_none _ (by simp)]
    rfl
  · rw [hlost, h.lostOut]
  · rw [hretrans, h.retrans]
  · simp

theorem resetSentList (h : Counted s) : Counted s.resetSentList := by
  have hstream : stream s.resetSentList.appList = stream s.sentList ++ stream s.appList := by
    simp [TcpTxBuffer.resetSentList, stream, List.flatMap_map]
  have hevery : bytes every s.resetSentList.appList =
      bytes every s.sentList + bytes every s.appList := by
    rw [← length_stream, hstream, List.length_append, length_stream, length_stream]
  exact
    { size := by
        rw [hevery]
        exact h.size.trans (by simp [TcpTxBuffer.resetSentList])
      sentSize := rfl
      sackedOut := rfl
      lostOut := rfl
      retrans := rfl
      exclusive := by simp [TcpTxBuffer.resetSentList]
      unsent := by
        refine List.forall_mem_append.mpr ⟨List.forall_mem_map.mpr fun it _ => ?_, h.unsent⟩
        exact ⟨rfl, rfl, rfl⟩
      room := by
        rw [hevery]
        exact (by simp [TcpTxBuffer.resetSentList, h.room])
      filled := by simp [TcpTxBuffer.resetSentList]
      filledApp := by
        simp only [TcpTxBuffer.resetSentList, List.forall_mem_append, List.forall_mem_map]
        exact ⟨h.filled, h.filledApp⟩ }

theorem resetLastSegmentSent (h : Counted s)
    (hlast : ∀ it, s.sentList.getLast? = some it →
      it.sacked = false ∧ it.lost = false ∧ it.retrans = false) :
    Counted s.resetLastSegmentSent := by
  unfold TcpTxBuffer.resetLastSegmentSent
  split
  · exact h
  rename_i it hget
  obtain ⟨l, hl⟩ := List.getLast?_eq_some_iff.mp hget
  obtain ⟨hs, hlo, hr⟩ := hlast it hget
  have hsize := h.size
  have hsent := h.sentSize
  have hsacked := h.sackedOut
  have hlost := h.lostOut
  have hretrans := h.retrans
  have hexcl := h.exclusive
  have hroom := h.room
  have hfilled := h.filled
  simp only [hl, bytes_append, bytes_cons, bytes_nil, every_eq, if_true, hs, hlo, hr,
    Bool.false_eq_true, if_false, Nat.add_zero, List.forall_mem_append,
    List.forall_mem_singleton] at hsize hsent hsacked hlost hretrans hexcl hroom hfilled
  simp only [hl, List.dropLast_concat, hr, Bool.false_eq_true, if_false]
  exact
    { size := by
        rw [hsize]
        simp only [bytes_cons, every_eq, if_true, Nat.add_assoc]
      sentSize := by
        simp only [hsent, BitVec.ofNat_add, TcpTxItem.size]
        ring
      sackedOut := hsacked
      lostOut := hlost
      retrans := hretrans
      exclusive := hexcl.1
      unsent := List.forall_mem_cons.mpr ⟨⟨hs, hlo, hr⟩, h.unsent⟩
      room := by
        simp only [bytes_cons, every_eq, if_true]
        omega
      filled := hfilled.1
      filledApp := List.forall_mem_cons.mpr ⟨hfilled.2, h.filledApp⟩ }

theorem deleteRetransmittedFlagFromHead {s' : TcpTxBuffer} (h : Counted s)
    (hd : s.deleteRetransmittedFlagFromHead = some s') : Counted s' := by
  unfold TcpTxBuffer.deleteRetransmittedFlagFromHead at hd
  split at hd
  · obtain rfl := Option.some.inj hd
    exact h
  split at hd
  · cases hd
  rename_i head rest hlist
  split at hd
  · rename_i hr
    obtain rfl := Option.some.inj hd
    have hlist' : s.sentList = [] ++ head :: rest := hlist
    exact h.reflag hlist' rfl rfl (h.exclusive head (by simp [hlist])) rfl rfl
      (by simp [share, hr]) rfl rfl rfl rfl
  · obtain rfl := Option.some.inj hd
    exact h

end Counted

/-- The operation does not take one of the paths that lose count: a SACK flag is not put on a
lost segment, and the last segment that goes back to the unsent data has no flag set. -/
def Clean (s : TcpTxBuffer) : Op → Prop
  | .addRenoSack => RenoSafe s.sentList.tail
  | .discardUpTo _ seq =>
    SequenceNumber.ge s.firstByteSeq seq = false → ∀ head rest,
      dropAcked (SequenceNumber.distance seq s.firstByteSeq).toNat s.sentList = head :: rest →
        head.sacked = true → RenoSafe rest
  | .resetLastSegmentSent => ∀ it, s.sentList.getLast? = some it →
      it.sacked = false ∧ it.lost = false ∧ it.retrans = false
  | _ => True

theorem Counted.step {s s' : TcpTxBuffer} {op : Op} (h : Counted s) (hclean : Clean s op)
    (hstep : s.step op = some s') : Counted s' := by
  cases op with
  | add p =>
    obtain rfl := Option.some.inj hstep
    exact h.add p
  | copyFromSequence now numBytes seq =>
    obtain ⟨⟨t, r⟩, hcopy, rfl⟩ := Option.map_eq_some_iff.mp hstep
    exact h.copyFrom hcopy
  | discardUpTo now seq => exact h.discardUpTo hclean hstep
  | update blocks =>
    obtain ⟨⟨t, n⟩, hupdate, rfl⟩ := Option.map_eq_some_iff.mp hstep
    exact h.update hupdate
  | markHeadAsLost =>
    obtain rfl := Option.some.inj hstep
    exact h.markHeadAsLost
  | addRenoSack => exact h.addRenoSack hclean hstep
  | resetRenoSack =>
    obtain rfl := Option.some.inj hstep
    exact h.resetRenoSack
  | setSentListLost resetSack => exact h.setSentListLost hstep
  | resetSentList =>
    obtain rfl := Option.some.inj hstep
    exact h.resetSentList
  | resetLastSegmentSent =>
    obtain rfl := Option.some.inj hstep
    exact h.resetLastSegmentSent hclean
  | deleteRetransmittedFlagFromHead => exact h.deleteRetransmittedFlagFromHead hstep

/-- The law that `ConsistencyCheck` would check, and what it leaves unsaid of the flags and of
the unsent data. -/
structure Exact (s : TcpTxBuffer) : Prop where
  sentSize : s.sentSize.toNat = bytes every s.sentList
  sackedOut : s.sackedOut.toNat = bytes TcpTxItem.sacked s.sentList
  lostOut : s.lostOut.toNat = bytes TcpTxItem.lost s.sentList
  retrans : s.retrans.toNat = bytes TcpTxItem.retrans s.sentList
  exclusive : ∀ it ∈ s.sentList, ¬ (it.sacked = true ∧ it.lost = true)
  unsentSize : (s.size - s.sentSize).toNat = bytes every s.appList
  unsent : ∀ it ∈ s.appList, it.sacked = false ∧ it.lost = false ∧ it.retrans = false

theorem Counted.exact {s : TcpTxBuffer} (h : Counted s) : Exact s := by
  have hlt := h.sent_lt
  have hmax := s.maxBuffer.isLt
  have hroom := h.room
  have hcount (p : TcpTxItem → Bool) :
      (BitVec.ofNat 32 (bytes p s.sentList)).toNat = bytes p s.sentList := by
    rw [BitVec.toNat_ofNat]
    exact Nat.mod_eq_of_lt (Nat.lt_of_le_of_lt (bytes_le_every p s.sentList) hlt)
  have hdiff : s.size - s.sentSize = BitVec.ofNat 32 (bytes every s.appList) := by
    rw [h.size, h.sentSize, BitVec.ofNat_add]
    ring
  exact
    { sentSize := by rw [h.sentSize, hcount]
      sackedOut := by rw [h.sackedOut, hcount]
      lostOut := by rw [h.lostOut, hcount]
      retrans := by rw [h.retrans, hcount]
      exclusive := h.exclusive
      unsentSize := by
        rw [hdiff, BitVec.toNat_ofNat]
        exact Nat.mod_eq_of_lt (by omega)
      unsent := h.unsent }

/-- States with the operations that led to them, each of them clean where it was performed. -/
inductive CleanRun (start : TcpTxBuffer) : TcpTxBuffer → Prop where
  | start : CleanRun start start
  | step {s s' : TcpTxBuffer} {op : Op} : CleanRun start s → Clean s op → s.step op = some s' →
      CleanRun start s'

theorem CleanRun.counted {start s : TcpTxBuffer} (hstart : Counted start)
    (h : CleanRun start s) : Counted s := by
  induction h with
  | start => exact hstart
  | step _ hclean hstep ih => exact ih.step hclean hstep

/-- The counters are exact in every state that clean operations lead to. -/
theorem counters_exact {n : SequenceNumber 32} {maxBuffer dupAckThresh : BitVec 32}
    {sackEnabled : Bool} {s : TcpTxBuffer}
    (h : CleanRun (.new n maxBuffer dupAckThresh sackEnabled) s) : Exact s :=
  (h.counted (.new n maxBuffer dupAckThresh sackEnabled)).exact

def Packet.ones (n : Nat) (h : n < 2 ^ 32) : Packet := ⟨List.replicate n 1, by simpa using h⟩

/-- Two segments of one byte, both sent. -/
def twoSent : List Op :=
  [.add (.ones 1 (by decide)), .add (.ones 1 (by decide)), .copyFromSequence 0 1 0,
    .copyFromSequence 0 1 1]

theorem exists_of_any {o : Option TcpTxBuffer} {p : TcpTxBuffer → Bool} (h : o.any p = true) :
    ∃ s, o = some s ∧ p s = true := by
  cases o with
  | none => cases h
  | some s => exact ⟨s, rfl, h⟩

/-- A duplicate acknowledgment after a timeout: the second segment is both lost and sacked. And
a segment that goes back to the unsent data while it is counted as sacked. -/
theorem counters_drift :
    (∃ s, Transition.exec TcpTxBuffer.step (.new 0 100 3 false)
        (twoSent ++ [.setSentListLost true, .addRenoSack]) = some s ∧ ¬ Exact s) ∧
      ∃ s, Transition.exec TcpTxBuffer.step (.new 0 100 3 true)
        (twoSent ++ [.update [(1, 2)], .resetLastSegmentSent]) = some s ∧ ¬ Exact s := by
  constructor
  · obtain ⟨s, hrun, hboth⟩ := exists_of_any (o := Transition.exec TcpTxBuffer.step
      (.new 0 100 3 false) (twoSent ++ [.setSentListLost true, .addRenoSack]))
      (p := fun s => s.sentList.any fun it => it.sacked && it.lost) (by decide)
    obtain ⟨it, hit, hflags⟩ := List.any_eq_true.mp hboth
    exact ⟨s, hrun, fun h => h.exclusive it hit (by simpa using hflags)⟩
  · obtain ⟨s, hrun, hflag⟩ := exists_of_any (o := Transition.exec TcpTxBuffer.step
      (.new 0 100 3 true) (twoSent ++ [.update [(1, 2)], .resetLastSegmentSent]))
      (p := fun s => s.appList.any fun it => it.sacked) (by decide)
    obtain ⟨it, hit, hsacked⟩ := List.any_eq_true.mp hflag
    refine ⟨s, hrun, fun h => ?_⟩
    rw [(h.unsent it hit).1] at hsacked
    cases hsacked

theorem counters_exact_sent : ∃ s : TcpTxBuffer, s.sentSize = 1 ∧ Exact s := by
  have hadd : TcpTxBuffer.step (.new 0 100 3 true) (.add (.ones 1 (by decide))) =
      some ((TcpTxBuffer.new 0 100 3 true).add (.ones 1 (by decide))).1 := rfl
  obtain ⟨s, hcopy, hsize⟩ := exists_of_any (o := TcpTxBuffer.step
    ((TcpTxBuffer.new 0 100 3 true).add (.ones 1 (by decide))).1 (.copyFromSequence 0 1 0))
    (p := fun s => s.sentSize = 1) (by decide)
  have hclean (t : TcpTxBuffer) : Clean t (.add (.ones 1 (by decide))) ∧
      Clean t (.copyFromSequence 0 1 0) := ⟨trivial, trivial⟩
  have hrun : CleanRun (.new 0 100 3 true) s :=
    .step (.step .start (hclean _).1 hadd) (hclean _).2 hcopy
  exact ⟨s, by simpa using hsize, counters_exact hrun⟩

end CudaNs3.Tcp
