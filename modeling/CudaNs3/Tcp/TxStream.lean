import CudaNs3.Tcp.Scoreboard

/-!
# The send buffer as a byte stream

The packets of the two lists, one after the other, are the bytes that were added and not yet
discarded. The items of `m_sentList` are cut out of that stream, split and merged again, and
every cut keeps the stream. Whether a request can be served depends on the cuts: a range that
is to become one item may not mix lost data with other data.
-/

namespace CudaNs3.Tcp

open SequenceNumber TcpTxBuffer
set_option autoImplicit false

/-- A stream of bytes, of which `maxBuffer` can be pending, with the sequence number of the first
one that is. -/
structure ByteStream where
  maxBuffer : BitVec 32
  head : SequenceNumber 32
  pending : List UInt8
  deriving DecidableEq

namespace ByteStream

/-- A packet is taken whole or not at all. -/
def add (b : ByteStream) (p : Packet) : ByteStream :=
  if p.bytes.length + b.pending.length ≤ b.maxBuffer.toNat then
    { b with pending := b.pending ++ p.bytes }
  else b

def discardUpTo (b : ByteStream) (seq : SequenceNumber 32) : ByteStream :=
  if ge b.head seq then b
  else
    { b with
      head := seq
      pending := b.pending.drop (seq - b.head).toNat }

end ByteStream

/-- The operations that send, acknowledge and requeue data. -/
inductive StreamOp where
  | add (p : Packet)
  | copyFromSequence (now : Int) (numBytes : BitVec 32) (seq : SequenceNumber 32)
  | discardUpTo (now : Int) (seq : SequenceNumber 32)
  | setSentListLost (resetSack : Bool)
  | resetSentList

def StreamOp.op : StreamOp → Op
  | add p => .add p
  | copyFromSequence now numBytes seq => .copyFromSequence now numBytes seq
  | discardUpTo now seq => .discardUpTo now seq
  | setSentListLost resetSack => .setSentListLost resetSack
  | resetSentList => .resetSentList

def TcpTxBuffer.streamStep (s : TcpTxBuffer) (op : StreamOp) : Option TcpTxBuffer := s.step op.op

def ByteStream.step (b : ByteStream) : StreamOp → ByteStream
  | .add p => b.add p
  | .discardUpTo _ seq => b.discardUpTo seq
  | _ => b

def TcpTxBuffer.view (s : TcpTxBuffer) : ByteStream :=
  ⟨s.maxBuffer, s.firstByteSeq, stream s.sentList ++ stream s.appList⟩

/-- Every item starts where the one before it ends. -/
def Consecutive : SequenceNumber 32 → List TcpTxItem → Prop
  | _, [] => True
  | seq, it :: rest => it.startSeq = seq ∧ Consecutive (seq + it.size) rest

theorem consecutive_append {seq : SequenceNumber 32} {l l' : List TcpTxItem} :
    Consecutive seq (l ++ l') ↔
      Consecutive seq l ∧ Consecutive (seq + BitVec.ofNat 32 (bytes every l)) l' := by
  induction l generalizing seq with
  | nil => simp [Consecutive]
  | cons it rest ih =>
    simp only [List.cons_append, Consecutive, ih, bytes_cons, every_eq, if_true, TcpTxItem.size,
      BitVec.ofNat_add, BitVec.add_assoc, and_assoc]

theorem Consecutive.place {origin : SequenceNumber 32} {x : Nat} {l : List TcpTxItem}
    {it : TcpTxItem} (h : Consecutive (at32 origin x) l) (hfilled : ∀ it ∈ l, it.packet ≠ [])
    (hit : it ∈ l) : ∃ y, x ≤ y ∧ y < x + bytes every l ∧ it.startSeq = at32 origin y := by
  induction l generalizing x with
  | nil => cases hit
  | cons head rest ih =>
    obtain ⟨hstart, hrest⟩ := h
    simp only [List.forall_mem_cons] at hfilled
    have hlen := List.length_pos_iff.mpr hfilled.1
    simp only [bytes_cons, every_eq, if_true]
    rcases List.mem_cons.mp hit with rfl | hit
    · exact ⟨x, Nat.le_refl x, by omega, hstart⟩
    · rw [TcpTxItem.size, at32_add] at hrest
      obtain ⟨y, hy, hlt, hplace⟩ := ih hrest hfilled.2 hit
      exact ⟨y, by omega, by omega, hplace⟩

/-- Only where the items start and how long they are matters. -/
theorem Consecutive.congr {seq : SequenceNumber 32} {l l' : List TcpTxItem}
    (h : Consecutive seq l)
    (heq : l'.map (fun it => (it.startSeq, it.packet)) = l.map fun it => (it.startSeq, it.packet)) :
    Consecutive seq l' := by
  induction l generalizing seq l' with
  | nil =>
    obtain rfl := List.map_eq_nil_iff.mp heq
    trivial
  | cons it rest ih =>
    obtain ⟨it', rest', rfl, hit, hrest⟩ := List.map_eq_cons_iff.mp heq
    obtain ⟨hstart, hpacket⟩ := Prod.mk.inj hit
    simp only [Consecutive, TcpTxItem.size] at h ⊢
    rw [hstart, hpacket]
    exact ⟨h.1, ih h.2 hrest⟩

theorem splitItems_consecutive {node : Nat} {t a b : TcpTxItem} {n : BitVec 32}
    {seq : SequenceNumber 32} {rest : List TcpTxItem} (h : splitItems node t n = some (a, b))
    (hl : Consecutive seq (t :: rest)) : Consecutive seq (a :: b :: rest) := by
  unfold splitItems at h
  split at h
  · cases h
  rename_i hle
  obtain ⟨rfl, rfl⟩ := Prod.mk.inj (Option.some.inj h)
  obtain ⟨hstart, hrest⟩ := hl
  have hlen : BitVec.ofNat 32 (t.packet.take n.toNat).length = n := by
    rw [List.length_take, Nat.min_eq_left (Nat.le_of_not_lt hle), BitVec.ofNat_toNat,
      BitVec.setWidth_eq]
  have hsum : n + BitVec.ofNat 32 (t.packet.drop n.toNat).length = t.size := by
    have htake : (t.packet.take n.toNat).length + (t.packet.drop n.toNat).length =
        t.packet.length := by simp only [List.length_take, List.length_drop]; omega
    rw [TcpTxItem.size, ← htake, BitVec.ofNat_add, hlen]
  refine ⟨hstart, ?_, ?_⟩
  · simp only [TcpTxItem.size, hlen, hstart]
  · simpa only [TcpTxItem.size, hlen, BitVec.add_assoc, hsum] using hrest

theorem mergeItems_consecutive {r r' : BitVec 32} {t₁ t₂ t : TcpTxItem} {seq : SequenceNumber 32}
    {rest : List TcpTxItem} (h : mergeItems r t₁ t₂ = some (r', t))
    (hl : Consecutive seq (t₁ :: t₂ :: rest)) : Consecutive seq (t :: rest) := by
  unfold mergeItems at h
  split at h
  · cases h
  split at h
  · cases h
  obtain ⟨rfl, rfl⟩ := Prod.mk.inj (Option.some.inj h)
  obtain ⟨hstart, -, hrest⟩ := hl
  refine ⟨hstart, ?_⟩
  simpa only [TcpTxItem.size, List.length_append, BitVec.ofNat_add, BitVec.add_assoc] using hrest

theorem getPacketFromList_consecutive {una : Option (SequenceNumber 32)} {numBytes : BitVec 32}
    {seq : SequenceNumber 32} {fuel : Nat} {begin : SequenceNumber 32} {r : BitVec 32} {node : Nat}
    {l : List TcpTxItem} {f : Found}
    (h : getPacketFromList una numBytes seq fuel begin r node l = some f)
    (hl : Consecutive begin l) : Consecutive begin f.list := by
  induction fuel generalizing begin r node l f with
  | zero => cases h
  | succ fuel ih =>
    cases l with
    | nil => cases h
    | cons current rest =>
      unfold getPacketFromList at h
      split at h
      · cases h
      split at h
      · split at h
        · split at h
          · split at h
            · cases h
              exact hl
            split at h
            · obtain ⟨⟨a, b⟩, hsplit, rfl⟩ := Option.map_eq_some_iff.mp h
              exact splitItems_consecutive hsplit hl
            · cases h
          · cases rest with
            | nil =>
              cases h
              exact hl
            | cons next rest =>
              obtain ⟨⟨r', t⟩, hmerge, h⟩ := Option.bind_eq_some_iff.mp h
              exact ih h (mergeItems_consecutive hmerge hl)
        split at h
        · obtain ⟨⟨a, b⟩, hsplit, h⟩ := Option.bind_eq_some_iff.mp h
          exact ih h (splitItems_consecutive hsplit hl)
        · cases h
      · obtain ⟨f, hf, rfl⟩ := Option.map_eq_some_iff.mp h
        exact ⟨hl.1, ih hf hl.2⟩

/-- The items of a list from place `x` on with a byte in `[a, b)`. -/
def covering (a b : Nat) : Nat → List TcpTxItem → List TcpTxItem
  | _, [] => []
  | x, it :: rest =>
    if x < b ∧ a < x + it.packet.length then it :: covering a b (x + it.packet.length) rest
    else covering a b (x + it.packet.length) rest

/-- Lost data is not mixed with other data. -/
def Uniform (l : List TcpTxItem) : Prop := ∀ it ∈ l, ∀ it' ∈ l, it.lost = it'.lost

theorem covering_of_le {a b x : Nat} {l : List TcpTxItem} (h : b ≤ x) : covering a b x l = [] := by
  induction l generalizing x with
  | nil => rfl
  | cons it rest ih =>
    rw [covering, if_neg (by omega)]
    exact ih (by omega)

theorem uniform_cons {it : TcpTxItem} {l : List TcpTxItem} :
    Uniform (it :: l) ↔ ∀ it' ∈ l, it'.lost = it.lost := by
  constructor
  · intro h it' hit'
    exact h it' (List.mem_cons_of_mem _ hit') it List.mem_cons_self
  · intro h a ha b hb
    have hall : ∀ it' ∈ it :: l, it'.lost = it.lost := List.forall_mem_cons.mpr ⟨rfl, h⟩
    rw [hall a ha, hall b hb]

theorem mergeItems_of_eq {t₁ t₂ : TcpTxItem} (r : BitVec 32) (hsacked : t₁.sacked = t₂.sacked)
    (hlost : t₁.lost = t₂.lost) :
    ∃ r' t, mergeItems r t₁ t₂ = some (r', t) ∧ t.startSeq = t₁.startSeq ∧
      t.packet = t₁.packet ++ t₂.packet ∧ t.lost = t₁.lost ∧ t.sacked = t₁.sacked := by
  rw [mergeItems, if_neg (not_not.mpr hsacked), if_neg (not_not.mpr hlost)]
  exact ⟨_, _, rfl, rfl, rfl, rfl, rfl⟩

/-- What the search does for a range at `x` that begins with an item and is not longer than the
list: it hands out the range if lost data is not mixed with other data there, and fails if it
is. -/
theorem getPacketFromList_start {una : Option (SequenceNumber 32)} {numBytes : BitVec 32}
    {origin : SequenceNumber 32} {x fuel : Nat} {r : BitVec 32} {node : Nat} {current : TcpTxItem}
    {rest : List TcpTxItem} (hpos : 0 < numBytes.toNat)
    (hfit : numBytes.toNat ≤ bytes every (current :: rest))
    (hsmall : bytes every (current :: rest) < 2 ^ 31) (hfuel : rest.length < fuel)
    (huna : (una.any fun first => !ge current.startSeq first) = false)
    (hfilled : current.packet ≠ []) (hsacked : ∀ it ∈ current :: rest, it.sacked = false) :
    match getPacketFromList una numBytes (at32 origin x) fuel (at32 origin x) r node
        (current :: rest) with
    | some f =>
      Uniform (covering x (x + numBytes.toNat) x (current :: rest)) ∧ f.before = [] ∧
        f.item.startSeq = current.startSeq ∧ f.item.sacked = false ∧
          f.item.packet = (stream (current :: rest)).take numBytes.toNat
    | none => ¬ Uniform (covering x (x + numBytes.toNat) x (current :: rest)) := by
  induction fuel generalizing current rest r node with
  | zero => omega
  | succ fuel ih =>
    have hlen := List.length_pos_iff.mpr hfilled
    have hcover : covering x (x + numBytes.toNat) x (current :: rest) =
        current :: covering x (x + numBytes.toNat) (x + current.packet.length) rest := by
      rw [covering, if_pos (by omega)]
    simp only [bytes_cons, every_eq, if_true] at hfit hsmall
    have hsize : current.size.toNat = current.packet.length := by
      simp only [TcpTxItem.size, BitVec.toNat_ofNat]
      omega
    have hnum : BitVec.ofNat 32 numBytes.toNat = numBytes := by
      rw [BitVec.ofNat_toNat, BitVec.setWidth_eq]
    have hin : lt (at32 origin x) (at32 origin x + current.size) = true := by
      rw [TcpTxItem.size, at32_add, lt_at32 (by omega) (by omega)]
      omega
    have hle : le (at32 origin x + numBytes) (at32 origin x + current.size) = true ↔
        numBytes.toNat ≤ current.packet.length := by
      rw [← hnum, TcpTxItem.size, at32_add, at32_add, le_at32 (by omega) (by omega), hnum]
      omega
    unfold getPacketFromList
    rw [if_neg (by simp [huna]), if_pos hin, if_pos rfl]
    by_cases hshort : numBytes.toNat ≤ current.packet.length
    · rw [if_pos (hle.mpr hshort)]
      have huni : Uniform (covering x (x + numBytes.toNat) x (current :: rest)) := by
        rw [hcover, covering_of_le (by omega)]
        exact uniform_cons.mpr (by simp)
      have hcur := hsacked current List.mem_cons_self
      by_cases heq : numBytes = current.size
      · rw [if_pos heq]
        refine ⟨huni, rfl, rfl, hcur, ?_⟩
        rw [stream_cons, List.take_append_of_le_length hshort, List.take_of_length_le]
        rw [heq, hsize]
      · have hlt : numBytes < current.size := by
          have hne : numBytes.toNat ≠ current.size.toNat := fun h => heq (BitVec.eq_of_toNat_eq h)
          rw [BitVec.lt_def]
          omega
        rw [if_neg heq, if_pos hlt, splitItems, if_neg (by omega)]
        refine ⟨huni, rfl, rfl, hcur, ?_⟩
        rw [stream_cons, List.take_append_of_le_length hshort]
    · rw [if_neg fun h => hshort (hle.mp h)]
      cases rest with
      | nil =>
        simp only [bytes_nil] at hfit
        omega
      | cons next rest =>
        simp only [List.forall_mem_cons] at hsacked
        simp only [bytes_cons, every_eq, if_true, List.length_cons] at hfit hsmall hfuel
        obtain ⟨hcur, hnext, hrest⟩ := hsacked
        simp only
        by_cases hlost : current.lost = next.lost
        · obtain ⟨r', t, hmerge, hstart, hpacket, htlost, htsacked⟩ := mergeItems_of_eq r
            (hcur.trans hnext.symm) hlost
          have htlen : t.packet.length = current.packet.length + next.packet.length := by
            rw [hpacket, List.length_append]
          have huni : Uniform (covering x (x + numBytes.toNat) x (current :: next :: rest)) ↔
              Uniform (covering x (x + numBytes.toNat) x (t :: rest)) := by
            rw [hcover, covering, if_pos (by omega), covering, if_pos (by omega), htlen,
              Nat.add_assoc, uniform_cons, uniform_cons, htlost]
            simp only [List.forall_mem_cons, hlost, true_and]
          have hstep := @ih r' node t rest
            (by simp only [bytes_cons, every_eq, if_true, htlen]; omega)
            (by simp only [bytes_cons, every_eq, if_true, htlen]; omega) (by omega)
            (by rwa [hstart]) (by simp [hpacket, hfilled])
            (List.forall_mem_cons.mpr ⟨htsacked.trans hcur, hrest⟩)
          rw [hmerge, Option.bind_some, huni]
          simpa only [hstart, stream_cons, hpacket, List.append_assoc] using hstep
        · have hfail : mergeItems r current next = none := by
            rw [mergeItems, if_neg (not_not.mpr (hcur.trans hnext.symm)), if_pos hlost]
          rw [hfail, Option.bind_none]
          refine fun huni => hlost ?_
          rw [hcover, covering, if_pos (by omega)] at huni
          exact (uniform_cons.mp huni next List.mem_cons_self).symm

theorem splitItems_of_lt (node : Nat) {t : TcpTxItem} {n : Nat} (hn : n < t.packet.length)
    (hsmall : t.packet.length < 2 ^ 31) :
    ∃ a b, splitItems node t (BitVec.ofNat 32 n) = some (a, b) ∧
      (a.startSeq = t.startSeq ∧ a.size = BitVec.ofNat 32 n) ∧
        b.startSeq = t.startSeq + BitVec.ofNat 32 n ∧ b.packet = t.packet.drop n ∧
          b.lost = t.lost ∧ b.sacked = t.sacked := by
  have hnat : (BitVec.ofNat 32 n).toNat = n := by
    rw [BitVec.toNat_ofNat]
    omega
  rw [splitItems, if_neg (by omega)]
  refine ⟨_, _, rfl, ⟨rfl, ?_⟩, rfl, by rw [hnat], rfl, rfl⟩
  rw [TcpTxItem.size, hnat, List.length_take, Nat.min_eq_left (by omega)]

theorem ge_origin {origin : SequenceNumber 32} {x : Nat} (hx : x < 2 ^ 31) :
    ge (at32 origin x) origin = true := by
  have h : ge (at32 origin x) (at32 origin 0) ↔ 0 ≤ x := ge_at32 (by omega) (by omega)
  rw [at32_zero] at h
  exact h.mpr (Nat.zero_le x)

/-- The search in `m_sentList` for a range anywhere in it. -/
theorem getPacketFromList_at {numBytes : BitVec 32} {origin : SequenceNumber 32} {x q fuel : Nat}
    {r : BitVec 32} {node : Nat} {l : List TcpTxItem} (hpos : 0 < numBytes.toNat) (hxq : x ≤ q)
    (hfit : q + numBytes.toNat ≤ x + bytes every l) (hsmall : x + bytes every l < 2 ^ 31)
    (hfuel : l.length + 2 ≤ fuel) (hl : Consecutive (at32 origin x) l)
    (hfilled : ∀ it ∈ l, it.packet ≠ []) (hsacked : ∀ it ∈ l, it.sacked = false) :
    match getPacketFromList (some origin) numBytes (at32 origin q) fuel (at32 origin x) r node l with
    | some f =>
      Uniform (covering q (q + numBytes.toNat) x l) ∧ f.item.startSeq = at32 origin q ∧
        f.item.sacked = false ∧ f.item.packet = ((stream l).drop (q - x)).take numBytes.toNat
    | none => ¬ Uniform (covering q (q + numBytes.toNat) x l) := by
  induction l generalizing x fuel with
  | nil =>
    simp only [bytes_nil] at hfit
    omega
  | cons current rest ih =>
    obtain ⟨fuel, rfl⟩ : ∃ k, fuel = k + 1 := ⟨fuel - 1, by omega⟩
    have hlist := hfilled
    have hmarks := hsacked
    simp only [List.forall_mem_cons] at hlist hmarks
    simp only [bytes_cons, every_eq, if_true, List.length_cons] at hfit hsmall hfuel
    obtain ⟨hstart, hrest⟩ := hl
    have huna : ((some origin).any fun first => !ge current.startSeq first) = false := by
      simp [hstart, ge_origin (by omega : x < 2 ^ 31)]
    have hsize : at32 origin x + current.size = at32 origin (x + current.packet.length) := by
      rw [TcpTxItem.size, at32_add]
    rcases Nat.eq_or_lt_of_le hxq with rfl | hxq
    · have hfound := @getPacketFromList_start (some origin) numBytes origin x (fuel + 1) r node
        current rest hpos
        (by simp only [bytes_cons, every_eq, if_true]; omega)
        (by simp only [bytes_cons, every_eq, if_true]; omega) (by omega : rest.length < fuel + 1)
        huna hlist.1 hsacked
      revert hfound
      cases getPacketFromList (some origin) numBytes (at32 origin x) (fuel + 1) (at32 origin x) r
        node (current :: rest) with
      | none => exact id
      | some f =>
        rintro ⟨huni, -, hseq, hsack, hpacket⟩
        exact ⟨huni, hseq.trans hstart, hsack, by simpa using hpacket⟩
    · have hlt : lt (at32 origin q) (at32 origin x + current.size) = true ↔
          q < x + current.packet.length := by
        rw [hsize]
        exact lt_at32 (by omega) (by omega)
      have hne : at32 origin q ≠ at32 origin x := fun h => by
        have := (at32_inj (by omega) (by omega)).mp h
        omega
      by_cases hin : q < x + current.packet.length
      · -- the item is split, and the search passes over its first part
        obtain ⟨fuel, rfl⟩ : ∃ k, fuel = k + 1 := ⟨fuel - 1, by omega⟩
        obtain ⟨d, rfl⟩ := Nat.exists_eq_add_of_lt hxq
        obtain ⟨a, b, hsplit, ha, hb, hbpacket, hblost, hbsacked⟩ :=
          splitItems_of_lt node (t := current) (n := d + 1) (by omega) (by omega)
        have hdist : distance (at32 origin (x + d + 1)) (at32 origin x) =
            BitVec.ofNat 32 (d + 1) := by
          rw [distance_eq, at32_sub (by omega)]
          congr 1
          omega
        have hgt : gt (at32 origin (x + d + 1)) (at32 origin x) = true :=
          (gt_at32 (by omega) (by omega)).mpr (by omega)
        have hblen : b.packet.length = current.packet.length - (d + 1) := by
          rw [hbpacket, List.length_drop]
        have hbegin : at32 origin x + a.size = at32 origin (x + d + 1) := by
          rw [ha.2, at32_add, Nat.add_assoc]
        have hagain : lt (at32 origin (x + d + 1)) (at32 origin (x + d + 1)) = false := by
          simp [lt]
        have huna' : ((some origin).any fun first => !ge b.startSeq first) = false := by
          rw [hb, hstart, at32_add]
          simp [ge_origin (by omega : x + (d + 1) < 2 ^ 31)]
        unfold getPacketFromList
        rw [if_neg (by simp [huna]), if_pos (hlt.mpr hin), if_neg hne, if_pos hgt, hdist, hsplit,
          Option.bind_some]
        simp only
        unfold getPacketFromList
        rw [if_neg (by simp [ha.1, huna]), hbegin, if_neg (by simp [hagain])]
        have hfound := @getPacketFromList_start (some origin) numBytes origin (x + d + 1) fuel r
          (node + 1) b rest hpos
          (by simp only [bytes_cons, every_eq, if_true, hblen]; omega)
          (by simp only [bytes_cons, every_eq, if_true, hblen]; omega) (by omega : rest.length < fuel)
          huna' (List.ne_nil_of_length_pos (by omega))
          (List.forall_mem_cons.mpr ⟨hbsacked.trans hmarks.1, hmarks.2⟩)
        have hcover : Uniform (covering (x + d + 1) (x + d + 1 + numBytes.toNat) x
              (current :: rest)) ↔
            Uniform (covering (x + d + 1) (x + d + 1 + numBytes.toNat) (x + d + 1)
              (b :: rest)) := by
          rw [covering, if_pos (by omega), covering, if_pos (by omega), uniform_cons, uniform_cons,
            hblost, hblen]
          rw [show x + d + 1 + (current.packet.length - (d + 1)) = x + current.packet.length by omega]
        have hdrop : (stream (current :: rest)).drop (x + d + 1 - x) = stream (b :: rest) := by
          rw [stream_cons, stream_cons, hbpacket, show x + d + 1 - x = d + 1 by omega,
            List.drop_append_of_le_length (by omega)]
        rw [hcover, hdrop]
        revert hfound
        cases getPacketFromList (some origin) numBytes (at32 origin (x + d + 1)) fuel
          (at32 origin (x + d + 1)) r (node + 1) (b :: rest) with
        | none => exact id
        | some f =>
          rintro ⟨huni, -, hseq, hsack, hpacket⟩
          exact ⟨huni, by rw [hseq, hb, hstart, at32_add, Nat.add_assoc], hsack, hpacket⟩
      · unfold getPacketFromList
        rw [if_neg (by simp [huna]), if_neg fun h => hin (hlt.mp h), hsize]
        have hih := @ih (x + current.packet.length) fuel (by omega) (by omega)
          (by omega) (by omega) (by rwa [← hsize]) hlist.2 hmarks.2
        have hcover : covering q (q + numBytes.toNat) x (current :: rest) =
            covering q (q + numBytes.toNat) (x + current.packet.length) rest := by
          rw [covering, if_neg (by omega)]
        have hdrop : (stream (current :: rest)).drop (q - x) =
            (stream rest).drop (q - (x + current.packet.length)) := by
          rw [stream_cons, List.drop_append, List.drop_eq_nil_of_le (by omega), List.nil_append]
          congr 1
          omega
        rw [hcover, hdrop]
        revert hih
        cases getPacketFromList (some origin) numBytes (at32 origin q) fuel
          (at32 origin (x + current.packet.length)) r node rest <;> exact id

theorem segmentLimit_le (seq : SequenceNumber 32) (n : BitVec 32) (l : List TcpTxItem) :
    (segmentLimit seq n l).toNat ≤ n.toNat := by
  induction l with
  | nil => exact Nat.le_refl _
  | cons it rest ih =>
    unfold segmentLimit
    split
    · cases rest with
      | nil =>
        simp only [stdMin_toNat]
        omega
      | cons next rest =>
        simp only
        split <;> simp only [stdMin_toNat] <;> omega
    · exact ih

theorem segmentLimit_of_inside {seq : SequenceNumber 32} {n : BitVec 32} {l : List TcpTxItem}
    (h : ∀ it ∈ l, it.startSeq ≠ seq) : segmentLimit seq n l = n := by
  induction l with
  | nil => rfl
  | cons it rest ih =>
    simp only [List.forall_mem_cons] at h
    unfold segmentLimit
    rw [if_neg h.1]
    exact ih h.2

/-- From where an item starts, what `GetTransmittedSegment` goes for is never mixed. -/
theorem segmentLimit_uniform {origin : SequenceNumber 32} {x q : Nat} {n : BitVec 32}
    {l : List TcpTxItem} (hl : Consecutive (at32 origin x) l) (hsmall : x + bytes every l < 2 ^ 31)
    (hq : q < 2 ^ 31) (hsacked : ∀ it ∈ l, it.sacked = false)
    (hfilled : ∀ it ∈ l, it.packet ≠ []) (hitem : ∃ it ∈ l, it.startSeq = at32 origin q) :
    Uniform (covering q (q + (segmentLimit (at32 origin q) n l).toNat) x l) := by
  induction l generalizing x with
  | nil =>
    obtain ⟨it, hit, -⟩ := hitem
    cases hit
  | cons it rest ih =>
    simp only [List.forall_mem_cons] at hsacked hfilled
    simp only [bytes_cons, every_eq, if_true] at hsmall
    obtain ⟨hstart, hrest⟩ := hl
    have hlen := List.length_pos_iff.mpr hfilled.1
    have hsize : it.size.toNat = it.packet.length := by
      simp only [TcpTxItem.size, BitVec.toNat_ofNat]
      omega
    unfold segmentLimit
    by_cases hhere : it.startSeq = at32 origin q
    · obtain rfl := (at32_inj (by omega) (by omega)).mp (hstart.symm.trans hhere)
      have hone {k : Nat} (hk : k ≤ it.packet.length) :
          Uniform (covering x (x + k) x (it :: rest)) := by
        rw [covering, covering_of_le (by omega : x + k ≤ x + it.packet.length)]
        split
        · exact uniform_cons.mpr (by simp)
        · exact fun it' hit' => absurd hit' List.not_mem_nil
      rw [if_pos hhere]
      cases rest with
      | nil =>
        refine hone ?_
        rw [stdMin_toNat]
        omega
      | cons next rest =>
        simp only
        split
        · rename_i hsame
          simp only [bytes_cons, every_eq, if_true] at hsmall
          have hnext : next.size.toNat = next.packet.length := by
            simp only [TcpTxItem.size, BitVec.toNat_ofNat]
            omega
          have htwo : (stdMin n (it.size + next.size)).toNat ≤
              it.packet.length + next.packet.length := by
            rw [stdMin_toNat, BitVec.toNat_add, hsize, hnext]
            omega
          rw [covering, covering, covering_of_le (b := x + (stdMin n (it.size + next.size)).toNat)
            (by omega)]
          have heq : it.lost = next.lost := by simpa [hsacked.2 next List.mem_cons_self] using hsame
          split
          · split
            · exact uniform_cons.mpr (by simp [heq])
            · exact uniform_cons.mpr (by simp)
          · split
            · exact uniform_cons.mpr (by simp)
            · exact fun it' hit' => absurd hit' List.not_mem_nil
        · refine hone ?_
          rw [stdMin_toNat]
          omega
    · rw [if_neg hhere]
      obtain ⟨it', hit', hseq⟩ := hitem
      have hit' : it' ∈ rest := (List.mem_cons.mp hit').resolve_left fun h => hhere (h ▸ hseq)
      rw [TcpTxItem.size, at32_add] at hrest
      obtain ⟨y, hy, hlt, hplace⟩ := hrest.place hfilled.2 hit'
      obtain rfl := (at32_inj (by omega) (by omega)).mp (hplace.symm.trans hseq)
      rw [covering, if_neg (by omega)]
      exact ih hrest (by omega) hsacked.2 hfilled.2 ⟨it', hit', hseq⟩

/-- What every operation of the stream keeps: the counters, the order of the sent items, and that
nothing is marked as sacked. -/
structure Streamed (s : TcpTxBuffer) : Prop where
  counted : Counted s
  consecutive : Consecutive s.firstByteSeq s.sentList
  unsacked : ∀ it ∈ s.sentList, it.sacked = false
  small : s.maxBuffer.toNat < 2 ^ 31

namespace Streamed
variable {s s' : TcpTxBuffer}

theorem new {n : SequenceNumber 32} {maxBuffer dupAckThresh : BitVec 32} {sackEnabled : Bool}
    (hmax : maxBuffer.toNat < 2 ^ 31) : Streamed (.new n maxBuffer dupAckThresh sackEnabled) where
  counted := .new n maxBuffer dupAckThresh sackEnabled
  consecutive := trivial
  unsacked := by simp [TcpTxBuffer.new]
  small := hmax

theorem all_lt (h : Streamed s) : bytes every s.sentList + bytes every s.appList < 2 ^ 31 :=
  Nat.lt_of_le_of_lt h.counted.room h.small

theorem sentSize_toNat (h : Streamed s) : s.sentSize.toNat = bytes every s.sentList :=
  h.counted.exact.sentSize

/-- Where the sent data ends. -/
theorem sentEnd (h : Streamed s) :
    s.firstByteSeq + s.sentSize = at32 s.firstByteSeq (bytes every s.sentList) := by
  rw [h.counted.sentSize, at32]

theorem sizeFromSequence (h : Streamed s) {q : Nat}
    (hq : q ≤ bytes every s.sentList + bytes every s.appList) :
    s.sizeFromSequence (at32 s.firstByteSeq q) =
      BitVec.ofNat 32 (bytes every s.sentList + bytes every s.appList - q) := by
  have hall := h.all_lt
  have htail : s.tailSequence =
      at32 s.firstByteSeq (bytes every s.sentList + bytes every s.appList) := by
    rw [tailSequence, h.counted.size, at32]
  rw [TcpTxBuffer.sizeFromSequence, htail, if_pos ((ge_at32 (by omega) (by omega)).mpr hq),
    distance_eq, at32_sub hq]

theorem length_pending (s : TcpTxBuffer) :
    s.view.pending.length = bytes every s.sentList + bytes every s.appList := by
  simp [view, length_stream]

theorem handOut {now : Int} {f : Found} {r : Option TcpTxItem} (h : Streamed (s.setSent f))
    (hout : TcpTxBuffer.handOut now s f = some (s', r)) :
    Streamed s' ∧ s'.view = (s.setSent f).view := by
  have hcounted := h.counted.handOut hout
  unfold TcpTxBuffer.handOut at hout
  split at hout
  · obtain ⟨rfl, rfl⟩ := Prod.mk.inj (Option.some.inj hout)
    refine ⟨⟨hcounted, ?_, ?_, h.small⟩, ?_⟩
    · exact h.consecutive.congr (by simp [setSent, Found.list])
    · have hall := h.unsacked
      simp only [setSent, Found.list, List.forall_mem_append, List.forall_mem_cons] at hall ⊢
      exact hall
    · simp [view, setSent, Found.list]
  · cases hout

theorem setSent_transmitted (h : Streamed s) {n : BitVec 32} {seq : SequenceNumber 32} {f : Found}
    (hn : n ≠ 0) (hf : s.getTransmittedSegment n seq = some f) :
    Streamed (s.setSent f) ∧ (s.setSent f).view = s.view := by
  have hcounted := h.counted.getTransmittedSegment hn hf
  have hflags := getTransmittedSegment_flags (P := fun sacked _ => sacked = false) h.unsacked hf
  unfold TcpTxBuffer.getTransmittedSegment at hf
  split at hf
  · cases hf
  split at hf
  · cases hf
  split at hf
  · cases hf
  obtain ⟨g, hget, rfl⟩ := Option.map_eq_some_iff.mp hf
  have hcons := getPacketFromList_consecutive hget h.consecutive
  have hstream := (getPacketFromList_recut hget).stream
  refine ⟨⟨hcounted, ?_, hflags, h.small⟩, ?_⟩
  · refine hcons.congr ?_
    simp only [setSent]
    split <;> simp [Found.list]
  · simp only [view, setSent, ← hstream]
    split <;> simp [Found.list]

/-- The part of the unsent data that is asked for becomes the last sent item. -/
theorem getNewSegment (h : Streamed s) {n : BitVec 32} (hpos : 0 < n.toNat)
    (hfit : n.toNat ≤ bytes every s.appList) :
    ∃ s' f, s.getNewSegment n = some (s', f) ∧ Streamed (s'.setSent f) ∧
      (s'.setSent f).view = s.view ∧ s'.firstByteSeq = s.firstByteSeq ∧
        f.item.startSeq = s.firstByteSeq + s.sentSize ∧ f.item.retrans = false ∧
          f.item.packet = (stream s.appList).take n.toNat := by
  have hall := h.all_lt
  cases hlist : s.appList with
  | nil =>
    rw [hlist, bytes_nil] at hfit
    omega
  | cons current rest =>
    have hunsent := h.counted.unsent
    have huni (b x : Nat) : Uniform (covering x b x s.appList) := by
      have hmem (x' : Nat) (l : List TcpTxItem) : ∀ it ∈ covering x b x' l, it ∈ l := by
        induction l generalizing x' with
        | nil => exact fun it hit => hit
        | cons head tail ih =>
          intro it hit
          unfold covering at hit
          split at hit
          · rcases List.mem_cons.mp hit with rfl | hit
            · exact List.mem_cons_self
            · exact List.mem_cons_of_mem _ (ih _ it hit)
          · exact List.mem_cons_of_mem _ (ih _ it hit)
      intro it hit it' hit'
      rw [(hunsent it (hmem _ _ it hit)).2.1, (hunsent it' (hmem _ _ it' hit')).2.1]
    have hfound := @getPacketFromList_start none n s.firstByteSeq (bytes every s.sentList)
      (getPacketFuel s.appList) s.retrans s.nextNode current rest hpos (by rwa [← hlist])
      (by rw [← hlist]; omega) (by simp only [getPacketFuel, hlist, List.length_cons]; omega) rfl
      (h.counted.filledApp current (by simp [hlist]))
      (by rw [← hlist]; exact fun it hit => (hunsent it hit).1)
    rw [← hlist, ← h.sentEnd] at hfound
    cases hget : getPacketFromList none n (s.firstByteSeq + s.sentSize) (getPacketFuel s.appList)
      (s.firstByteSeq + s.sentSize) s.retrans s.nextNode s.appList with
    | none =>
      rw [hget] at hfound
      exact absurd (huni _ _) hfound
    | some g =>
      rw [hget] at hfound
      obtain ⟨-, hbefore, -, hsacked, hpacket⟩ := hfound
      have hcut := getPacketFromList_recut hget
      have hnew : s.getNewSegment n = some
          ({ s with appList := g.before ++ g.after, sentSize := s.sentSize + g.item.size },
            ⟨s.sentList, { g.item with
              startSeq := s.firstByteSeq + s.sentSize
              node := g.nextNode }, [], g.retrans, g.nextNode + 1⟩) := by
        rw [TcpTxBuffer.getNewSegment, hget]
        rfl
      refine ⟨_, _, hnew, ⟨?_, ?_, ?_, h.small⟩, ?_, rfl, rfl, ?_, ?_⟩
      · exact (h.counted.getNewSegment (fun h0 => by simp [h0] at hpos) hnew).1
      · simp only [setSent, Found.list, consecutive_append, ← h.counted.sentSize]
        exact ⟨h.consecutive, rfl, trivial⟩
      · simp only [setSent, Found.list, List.forall_mem_append, List.forall_mem_singleton]
        exact ⟨h.unsacked, hsacked⟩
      · have hstream := hcut.stream
        simp only [Found.list, hbefore, List.nil_append, stream_cons] at hstream
        simp [view, setSent, Found.list, hbefore, ← hstream]
      · exact hcut.fresh (fun it hit => (hunsent it hit).2.2) g.item (by simp [Found.list])
      · rw [← hlist]
        exact hpacket

/-- The stream stays as it is, whatever is asked for. -/
theorem copyFrom {now : Int} {depth : Nat} {n : BitVec 32} {seq : SequenceNumber 32}
    {r : Option TcpTxItem} (h : Streamed s)
    (hcopy : TcpTxBuffer.copyFrom now s depth n seq = some (s', r)) :
    Streamed s' ∧ s'.view = s.view := by
  induction depth generalizing n with
  | zero => cases hcopy
  | succ depth ih =>
    unfold TcpTxBuffer.copyFrom at hcopy
    split at hcopy
    · cases hcopy
    simp only at hcopy
    split at hcopy
    · cases hcopy
      exact ⟨h, rfl⟩
    rename_i hn
    split at hcopy
    · obtain ⟨f, hf, hout⟩ := Option.bind_eq_some_iff.mp hcopy
      split at hout
      · cases hout
      · obtain ⟨hset, hview⟩ := h.setSent_transmitted hn hf
        obtain ⟨hs', hview'⟩ := hset.handOut hout
        exact ⟨hs', hview'.trans hview⟩
    split at hcopy
    · split at hcopy
      · rename_i hend
        have hpos : 0 < (stdMin n (s.sizeFromSequence seq)).toNat :=
          Nat.pos_of_ne_zero fun h0 => hn (BitVec.eq_of_toNat_eq h0)
        have hfit : (stdMin n (s.sizeFromSequence seq)).toNat ≤ bytes every s.appList := by
          have hall := h.all_lt
          rw [← hend, h.sentEnd, h.sizeFromSequence (by omega), stdMin_toNat, BitVec.toNat_ofNat]
          omega
        obtain ⟨t, f, hnew, hset, hview, -⟩ := h.getNewSegment hpos hfit
        rw [hnew, Option.bind_some] at hcopy
        simp only at hcopy
        split at hcopy
        · cases hcopy
        · obtain ⟨hs', hview'⟩ := hset.handOut hcopy
          exact ⟨hs', hview'.trans hview⟩
      · cases hcopy
    split at hcopy
    · exact ih hcopy
    · cases hcopy

theorem add (h : Streamed s) (p : Packet) :
    Streamed (s.add p).1 ∧ (s.add p).1.view = s.view.add p := by
  have hcounted := h.counted.add p
  have hsize := h.counted.size_toNat
  have hroom := h.counted.room
  have hlen := p.length_lt
  have hmax := s.maxBuffer.isLt
  have hfits : BitVec.ofNat 32 p.bytes.length ≤ s.available ↔
      p.bytes.length + s.view.pending.length ≤ s.view.maxBuffer.toNat := by
    rw [show s.view.maxBuffer = s.maxBuffer from rfl]
    simp only [available, BitVec.le_def, BitVec.toNat_sub, BitVec.toNat_ofNat, length_pending]
    omega
  rw [ByteStream.add]
  unfold TcpTxBuffer.add at hcounted ⊢
  simp only at hcounted ⊢
  split
  · rename_i hle
    rw [if_pos (hfits.mp hle)]
    split
    · rename_i hpos
      rw [if_pos hle, if_pos hpos] at hcounted
      refine ⟨⟨hcounted, h.consecutive, h.unsacked, h.small⟩, ?_⟩
      simp [view, TcpTxItem.new]
    · rename_i hzero
      have hnil : p.bytes = [] := by
        simp only [BitVec.lt_def, BitVec.toNat_ofNat] at hzero
        exact List.eq_nil_of_length_eq_zero (by simp at hzero; omega)
      exact ⟨h, by simp [hnil]⟩
  · rename_i hle
    rw [if_neg fun hh => hle (hfits.mpr hh)]
    exact ⟨h, rfl⟩

theorem pullSent {now : Int} {offset : BitVec 32} (h : Streamed s)
    (hpull : s.pullSent now offset = some s') : Streamed s' ∧ s'.view = s.view := by
  unfold TcpTxBuffer.pullSent at hpull
  split at hpull
  · obtain ⟨⟨t, r⟩, hcopy, hr⟩ := Option.bind_eq_some_iff.mp hpull
    obtain ⟨_, _, rfl⟩ := Option.map_eq_some_iff.mp hr
    exact h.copyFrom hcopy
  · obtain rfl := Option.some.inj hpull
    exact ⟨h, rfl⟩

theorem removeHead_eq {it : TcpTxItem} {k : BitVec 32} {l : List TcpTxItem}
    (hremove : s.removeHead it k l = some s') :
    s'.firstByteSeq = s.firstByteSeq + k ∧ s'.sentList = l ∧ s'.appList = s.appList ∧
      s'.maxBuffer = s.maxBuffer := by
  unfold TcpTxBuffer.removeHead removeFromCounts at hremove
  split at hremove
  · cases hremove
  split at hremove
  · cases hremove
  split at hremove
  · cases hremove
  obtain rfl := Option.some.inj hremove
  exact ⟨rfl, rfl, rfl, rfl⟩

theorem removeWhole {it : TcpTxItem} {rest : List TcpTxItem} (h : Streamed s)
    (hlist : s.sentList = it :: rest) (hremove : s.removeHead it it.size rest = some s') :
    Streamed s' ∧ s'.view.pending = s.view.pending.drop it.packet.length := by
  obtain ⟨hcounted, -⟩ := h.counted.removeWhole hlist hremove
  obtain ⟨hfirst, hl, happ, hmax⟩ := removeHead_eq hremove
  have hcons := h.consecutive
  have hunsacked := h.unsacked
  rw [hlist] at hcons hunsacked
  refine ⟨⟨hcounted, ?_, ?_, ?_⟩, ?_⟩
  · rw [hl, hfirst]
    exact hcons.2
  · rw [hl]
    exact (List.forall_mem_cons.mp hunsacked).2
  · rw [hmax]
    exact h.small
  · simp [view, hl, happ, hlist]

theorem removePart {it : TcpTxItem} {rest : List TcpTxItem} {offset : BitVec 32} (h : Streamed s)
    (hlist : s.sentList = it :: rest) (hlt : offset < it.size)
    (hremove : s.removeHead it offset (Counted.trimmed it offset :: rest) = some s') :
    Streamed s' ∧ s'.view.pending = s.view.pending.drop offset.toNat := by
  obtain ⟨hcounted, -⟩ := h.counted.removePart hlist hlt hremove
  obtain ⟨hfirst, hl, happ, hmax⟩ := removeHead_eq hremove
  have hcons := h.consecutive
  have hunsacked := h.unsacked
  rw [hlist] at hcons hunsacked
  have hle : offset.toNat ≤ it.packet.length := by
    have hmod := Nat.mod_le it.packet.length (2 ^ 32)
    simp only [BitVec.lt_def, TcpTxItem.size, BitVec.toNat_ofNat] at hlt
    omega
  have hsize : offset + BitVec.ofNat 32 (it.packet.drop offset.toNat).length = it.size := by
    obtain ⟨k, hk⟩ := Nat.exists_eq_add_of_le hle
    rw [List.length_drop, TcpTxItem.size, hk, Nat.add_sub_cancel_left, BitVec.ofNat_add]
    simp
  refine ⟨⟨hcounted, ?_, ?_, ?_⟩, ?_⟩
  · rw [hl, hfirst]
    refine ⟨by rw [Counted.trimmed, hcons.1], ?_⟩
    rw [Counted.trimmed, TcpTxItem.size, BitVec.add_assoc, hsize]
    exact hcons.2
  · rw [hl]
    exact List.forall_mem_cons.mpr (List.forall_mem_cons.mp hunsacked)
  · rw [hmax]
    exact h.small
  · simp [view, hl, happ, hlist, Counted.trimmed, List.drop_append_of_le_length hle]

/-- The bytes that are acknowledged leave; only where everything leaves may `seq` lie beyond. -/
theorem discard {now : Int} {fuel : Nat} {offset : BitVec 32} (h : Streamed s)
    (hd : TcpTxBuffer.discard now fuel s offset = some s') :
    Streamed s' ∧ s'.maxBuffer = s.maxBuffer ∧
      s'.view.pending = s.view.pending.drop offset.toNat ∧
        (s'.size = 0 ∨ s'.firstByteSeq = s.firstByteSeq + offset) := by
  induction fuel generalizing s offset with
  | zero => cases hd
  | succ fuel ih =>
    unfold TcpTxBuffer.discard at hd
    split at hd
    · rename_i hstop
      obtain rfl := Option.some.inj hd
      refine ⟨h, rfl, ?_, hstop.imp id fun hzero => by simp [hzero]⟩
      rcases hstop with hzero | rfl
      · have hlen := length_pending s
        rw [← h.counted.size_toNat, hzero] at hlen
        simp [List.eq_nil_of_length_eq_zero hlen]
      · simp
    obtain ⟨t, hpull, hd⟩ := Option.bind_eq_some_iff.mp hd
    obtain ⟨ht, hview⟩ := h.pullSent hpull
    have hfirst : t.firstByteSeq = s.firstByteSeq := congrArg ByteStream.head hview
    have hmax : t.maxBuffer = s.maxBuffer := congrArg ByteStream.maxBuffer hview
    rw [← hview, ← hfirst, ← hmax]
    split at hd
    · cases hd
    rename_i it rest hlist
    split at hd
    · cases hd
    split at hd
    · rename_i hle
      obtain ⟨u, hremove, hd⟩ := Option.bind_eq_some_iff.mp hd
      obtain ⟨hu, hpending⟩ := ht.removeWhole hlist hremove
      obtain ⟨hs', hmax', hdrop, hend⟩ := ih hu hd
      have hsize : it.size.toNat = it.packet.length := by
        have hall := ht.all_lt
        simp only [hlist, bytes_cons, every_eq, if_true] at hall
        simp only [TcpTxItem.size, BitVec.toNat_ofNat]
        omega
      refine ⟨hs', hmax'.trans (removeHead_eq hremove).2.2.2, ?_, hend.imp id fun heq => ?_⟩
      · rw [hdrop, hpending, List.drop_drop, BitVec.toNat_sub_of_le hle, hsize]
        rw [BitVec.le_def, hsize] at hle
        congr 1
        omega
      · rw [heq, (removeHead_eq hremove).1]
        ring
    · rename_i hgt
      obtain ⟨hs', hdrop⟩ := ht.removePart hlist (BitVec.not_le.mp hgt) hd
      exact ⟨hs', (removeHead_eq hd).2.2.2, hdrop, .inr (removeHead_eq hd).1⟩

theorem discardUpTo {now : Int} {seq : SequenceNumber 32} (h : Streamed s)
    (hd : s.discardUpTo now seq = some s') : Streamed s' ∧ s'.view = s.view.discardUpTo seq := by
  rw [ByteStream.discardUpTo, show s.view.head = s.firstByteSeq from rfl]
  unfold TcpTxBuffer.discardUpTo at hd
  split at hd
  · rename_i hge
    obtain rfl := Option.some.inj hd
    rw [if_pos hge]
    exact ⟨h, rfl⟩
  rename_i hge
  rw [if_neg hge]
  obtain ⟨t, hdiscard, hd⟩ := Option.bind_eq_some_iff.mp hd
  obtain ⟨u, hmove, hd⟩ := Option.bind_eq_some_iff.mp hd
  obtain ⟨ht, hmax, hpending, hend⟩ := h.discard hdiscard
  rw [distance_eq] at hpending hend
  -- what remains starts at `seq`
  have hcatch : Streamed (t.catchFin seq) ∧
      (t.catchFin seq).view =
        ⟨s.maxBuffer, seq, s.view.pending.drop (seq - s.firstByteSeq).toNat⟩ := by
    rw [← hpending, ← hmax]
    unfold TcpTxBuffer.catchFin
    split
    · rename_i hzero
      have hlen := length_pending t
      rw [← ht.counted.size_toNat, hzero] at hlen
      have hnil : t.sentList = [] := by
        rw [List.eq_nil_iff_forall_not_mem]
        intro it hit
        have hstream := List.append_eq_nil_iff.mp (List.eq_nil_of_length_eq_zero hlen)
        exact ht.counted.filled it hit (List.flatMap_eq_nil_iff.mp hstream.1 it hit)
      exact ⟨⟨{ ht.counted with }, by simp [hnil, Consecutive], ht.unsacked, ht.small⟩, rfl⟩
    · rename_i hsome
      have hfirst : t.firstByteSeq = seq := by
        rw [hend.resolve_left hsome]
        ring
      exact ⟨ht, by rw [← hfirst]; rfl⟩
  have hu : u = t.catchFin seq := by
    unfold TcpTxBuffer.moveSackFromHead at hmove
    split at hmove
    · exact (Option.some.inj hmove).symm
    · rename_i head rest hlist
      rw [if_neg (by simp [hcatch.1.unsacked head (by simp [hlist])])] at hmove
      exact (Option.some.inj hmove).symm
  simp only at hd
  split at hd
  · cases hd
  split at hd
  · cases hd
  split at hd
  · cases hd
  obtain rfl := Option.some.inj hd
  rw [hu, show s.view.maxBuffer = s.maxBuffer from rfl, ← hcatch.2]
  unfold TcpTxBuffer.resetHighestSack
  split
  · exact ⟨⟨{ hcatch.1.counted with }, hcatch.1.consecutive, hcatch.1.unsacked, hcatch.1.small⟩, rfl⟩
  · exact ⟨hcatch.1, rfl⟩

theorem loseAll_shape (resetSack : Bool) (lostOut : BitVec 32) (l : List TcpTxItem) :
    (loseAll resetSack lostOut l).1.map (fun it => (it.startSeq, it.packet)) =
      l.map (fun it => (it.startSeq, it.packet)) ∧
    ((∀ it ∈ l, it.sacked = false) → ∀ it ∈ (loseAll resetSack lostOut l).1, it.sacked = false) := by
  induction l generalizing lostOut with
  | nil => simp [loseAll]
  | cons it rest ih =>
    unfold loseAll
    split
    · obtain ⟨hmap, hsacked⟩ := ih lostOut
      exact ⟨by simp [hmap], fun h => by simpa using hsacked (List.forall_mem_cons.mp h).2⟩
    · split
      · obtain ⟨hmap, hsacked⟩ := ih (lostOut + it.size)
        refine ⟨by simp [hmap], fun h => ?_⟩
        obtain ⟨hit, hrest⟩ := List.forall_mem_cons.mp h
        exact List.forall_mem_cons.mpr ⟨hit, hsacked hrest⟩
      · obtain ⟨hmap, hsacked⟩ := ih lostOut
        refine ⟨by simp [hmap], fun h => ?_⟩
        obtain ⟨hit, hrest⟩ := List.forall_mem_cons.mp h
        exact List.forall_mem_cons.mpr ⟨hit, hsacked hrest⟩

/-- The flags of the sent items change, and nothing is sacked by it. -/
theorem reshape (h : Streamed s) (hcounted : Counted s')
    (hshape : s'.sentList.map (fun it => (it.startSeq, it.packet)) =
      s.sentList.map fun it => (it.startSeq, it.packet))
    (hsacked : ∀ it ∈ s'.sentList, it.sacked = false) (hmax : s'.maxBuffer = s.maxBuffer)
    (hfirst : s'.firstByteSeq = s.firstByteSeq) (happ : s'.appList = s.appList) :
    Streamed s' ∧ s'.view = s.view := by
  have hpackets := congrArg (List.map Prod.snd) hshape
  simp only [List.map_map] at hpackets
  refine ⟨⟨hcounted, ?_, hsacked, ?_⟩, ?_⟩
  · rw [hfirst]
    exact h.consecutive.congr hshape
  · rw [hmax]
    exact h.small
  · rw [view, view, hmax, hfirst, happ, stream, stream, List.flatMap_def, List.flatMap_def]
    exact congrArg (fun l => ByteStream.mk s.maxBuffer s.firstByteSeq (List.flatten l ++ _)) hpackets

theorem setSentListLost {resetSack : Bool} (h : Streamed s)
    (hset : s.setSentListLost resetSack = some s') : Streamed s' ∧ s'.view = s.view := by
  have hcounted := h.counted.setSentListLost hset
  unfold TcpTxBuffer.setSentListLost at hset
  cases resetSack with
  | true =>
    obtain ⟨hshape, hsacked⟩ := loseAll_shape true s.sentSize s.sentList
    simp only [if_true] at hset
    split at hset
    · cases hset
    obtain rfl := Option.some.inj hset
    exact h.reshape hcounted hshape (hsacked h.unsacked) rfl rfl rfl
  | false =>
    obtain ⟨hshape, hsacked⟩ := loseAll_shape false 0 s.sentList
    simp only [Bool.false_eq_true, if_false] at hset
    split at hset
    · cases hset
    obtain rfl := Option.some.inj hset
    exact h.reshape hcounted hshape (hsacked h.unsacked) rfl rfl rfl

theorem resetSentList (h : Streamed s) :
    Streamed s.resetSentList ∧ s.resetSentList.view = s.view := by
  refine ⟨⟨h.counted.resetSentList, trivial, by simp [TcpTxBuffer.resetSentList], h.small⟩, ?_⟩
  simp [view, TcpTxBuffer.resetSentList, stream, List.flatMap_map]

end Streamed

theorem Streamed.step {s s' : TcpTxBuffer} {op : StreamOp} (h : Streamed s)
    (hstep : s.streamStep op = some s') : Streamed s' ∧ s'.view = s.view.step op := by
  cases op with
  | add p =>
    obtain rfl := Option.some.inj hstep
    exact h.add p
  | copyFromSequence now numBytes seq =>
    obtain ⟨⟨t, r⟩, hcopy, rfl⟩ := Option.map_eq_some_iff.mp hstep
    exact h.copyFrom hcopy
  | discardUpTo now seq => exact h.discardUpTo hstep
  | setSentListLost resetSack => exact h.setSentListLost hstep
  | resetSentList =>
    obtain rfl := Option.some.inj hstep
    exact h.resetSentList

section Copy
variable {s : TcpTxBuffer}

/-- An item with bytes of the stream from `seq` on, at most `n` of them. -/
structure Slice (s : TcpTxBuffer) (n : BitVec 32) (seq : SequenceNumber 32) (it : TcpTxItem) :
    Prop where
  startSeq : it.startSeq = seq
  filled : 1 ≤ it.packet.length
  le : it.packet.length ≤ n.toNat
  bytes : it.packet = (s.view.pending.drop (seq - s.firstByteSeq).toNat).take it.packet.length

/-- A request is answered, and with what the stream has there. -/
def CopyFaithful (s : TcpTxBuffer) (now : Int) (n : BitVec 32) (seq : SequenceNumber 32) : Prop :=
  ∃ s' r, s.copyFromSequence now n seq = some (s', r) ∧ s'.view = s.view ∧
    (r = none ↔ stdMin n (s.sizeFromSequence seq) = 0) ∧ ∀ it, r = some it → Slice s n seq it

/-- The sent data in `[a, b)` can be handed out from `seq` on: it is in one item or, if no item
starts there, at least not mixed. -/
def Servable (s : TcpTxBuffer) (seq : SequenceNumber 32) (a b : Nat) : Prop :=
  (∃ it ∈ s.sentList, it.startSeq = seq) ∨ Uniform (covering a b 0 s.sentList)

/-- What a request for sent data needs: if it reaches beyond that data its numbers may not wrap
around, as they are compared without the arithmetic of sequence numbers. -/
def Copyable (s : TcpTxBuffer) (n : BitVec 32) (seq : SequenceNumber 32) : Prop :=
  let k := (stdMin n (s.sizeFromSequence seq)).toNat
  let q := (seq - s.firstByteSeq).toNat
  let sent := s.sentSize.toNat
  k = 0 ∨ q = sent ∨ ((sent < q + k → seq.toNat + k < 2 ^ 32) ∧ Servable s seq q (min (q + k) sent))

theorem Streamed.getTransmittedSegment (h : Streamed s) {q : Nat} {n : BitVec 32}
    (hpos : 0 < n.toNat) (hfit : q + n.toNat ≤ CudaNs3.Tcp.bytes every s.sentList) :
    match s.getTransmittedSegment n (at32 s.firstByteSeq q) with
    | some f =>
      Servable s (at32 s.firstByteSeq q) q (q + n.toNat) ∧
        f.item.startSeq = at32 s.firstByteSeq q ∧ f.item.sacked = false ∧
          ∃ m, 0 < m ∧ m ≤ n.toNat ∧ f.item.packet = ((stream s.sentList).drop q).take m
    | none => ¬ Servable s (at32 s.firstByteSeq q) q (q + n.toNat) := by
  have hall := h.all_lt
  have hlimit := segmentLimit_le (at32 s.firstByteSeq q) n s.sentList
  have hne : 0 < (segmentLimit (at32 s.firstByteSeq q) n s.sentList).toNat := by
    refine Nat.pos_of_ne_zero fun h0 => ?_
    exact segmentLimit_ne_zero (fun h0 => by simp [h0] at hpos) h.counted.filled h.counted.sent_lt
      (BitVec.eq_of_toNat_eq h0)
  -- what the source goes for is unmixed exactly if the request can be served
  have hserve : Uniform (covering q (q + (segmentLimit (at32 s.firstByteSeq q) n
      s.sentList).toNat) 0 s.sentList) ↔ Servable s (at32 s.firstByteSeq q) q (q + n.toNat) := by
    have hcons := h.consecutive
    rw [← at32_zero s.firstByteSeq] at hcons
    by_cases hitem : ∃ it ∈ s.sentList, it.startSeq = at32 s.firstByteSeq q
    · have huni : Uniform (covering q (q + (segmentLimit (at32 s.firstByteSeq q) n
          s.sentList).toNat) 0 s.sentList) :=
        segmentLimit_uniform hcons (by omega) (by omega) h.unsacked h.counted.filled hitem
      exact ⟨fun _ => .inl hitem, fun _ => huni⟩
    · have hinside : ∀ it ∈ s.sentList, it.startSeq ≠ at32 s.firstByteSeq q :=
        fun it hit heq => hitem ⟨it, hit, heq⟩
      rw [segmentLimit_of_inside hinside]
      exact ⟨.inr, fun hs => hs.resolve_left hitem⟩
  have hlist : s.sentList ≠ [] := by
    intro hnil
    rw [hnil, bytes_nil] at hfit
    omega
  have hfuel : s.sentList.length + 2 ≤ getPacketFuel s.sentList := by
    have hlen := List.length_pos_iff.mpr hlist
    simp only [getPacketFuel]
    omega
  have hfound := @getPacketFromList_at (segmentLimit (at32 s.firstByteSeq q) n s.sentList)
    s.firstByteSeq 0 q (getPacketFuel s.sentList) s.retrans s.nextNode s.sentList hne
    (Nat.zero_le q) (by omega) (by omega) hfuel
    (by rw [at32_zero]; exact h.consecutive) h.counted.filled h.unsacked
  rw [at32_zero] at hfound
  have hsent : ¬ s.sentSize < n := by
    rw [BitVec.lt_def, h.sentSize_toNat]
    omega
  unfold TcpTxBuffer.getTransmittedSegment
  rw [if_neg (by simp [ge_origin (by omega : q < 2 ^ 31)]), if_neg hsent, if_neg hlist]
  revert hfound
  cases getPacketFromList (some s.firstByteSeq) (segmentLimit (at32 s.firstByteSeq q) n s.sentList)
    (at32 s.firstByteSeq q) (getPacketFuel s.sentList) s.firstByteSeq s.retrans s.nextNode
    s.sentList with
  | none => exact fun hnot hs => hnot (hserve.mpr hs)
  | some g =>
    rintro ⟨huni, hstart, hsacked, hpacket⟩
    simp only [Option.map_some]
    refine ⟨hserve.mp huni, ?_, ?_, _, hne, hlimit, ?_⟩
    · split
      · exact hstart
      · exact hstart
    · split
      · exact hsacked
      · exact hsacked
    · split
      · exact hpacket
      · exact hpacket

theorem at32_sub_toNat {origin : SequenceNumber 32} {q : Nat} (hq : q < 2 ^ 31) :
    (at32 origin q - origin).toNat = q := by
  have hsub : at32 origin q - at32 origin 0 = BitVec.ofNat 32 (q - 0) := at32_sub (Nat.zero_le q)
  rw [at32_zero, Nat.sub_zero] at hsub
  rw [hsub, BitVec.toNat_ofNat]
  omega

/-- A request for sent data is answered with a slice or, if it cannot be served, not at all. -/
theorem Streamed.serve (h : Streamed s) {q : Nat} {n : BitVec 32} (now : Int)
    (hpos : 0 < n.toNat) (hfit : q + n.toNat ≤ CudaNs3.Tcp.bytes every s.sentList) :
    match (s.getTransmittedSegment n (at32 s.firstByteSeq q)).bind fun f =>
        if f.item.sacked then none else TcpTxBuffer.handOut now s f with
    | some (_, r) =>
      Servable s (at32 s.firstByteSeq q) q (q + n.toNat) ∧
        ∃ it, r = some it ∧ Slice s n (at32 s.firstByteSeq q) it
    | none => ¬ Servable s (at32 s.firstByteSeq q) q (q + n.toNat) := by
  have hall := h.all_lt
  have hfound := h.getTransmittedSegment hpos hfit
  revert hfound
  cases s.getTransmittedSegment n (at32 s.firstByteSeq q) with
  | none => exact id
  | some f =>
    rintro ⟨hserve, hstart, hsacked, m, hm, hmn, hpacket⟩
    have hlen : f.item.packet.length = m := by
      rw [hpacket, List.length_take, List.length_drop, length_stream]
      omega
    rw [Option.bind_some, if_neg (by simp [hsacked]), TcpTxBuffer.handOut,
      if_pos (by rw [hstart]; exact ge_origin (by omega))]
    refine ⟨hserve, _, rfl, hstart, by simp only [hlen]; omega, by simp only [hlen]; omega, ?_⟩
    simp only [hlen, at32_sub_toNat (by omega : q < 2 ^ 31), view]
    rw [hpacket, List.drop_append_of_le_length (by rw [length_stream]; omega),
      List.take_append_of_le_length (by rw [List.length_drop, length_stream]; omega)]

/-- The numbers that a request at place `q` of the stream is compared with. -/
structure Asked (s : TcpTxBuffer) (n : BitVec 32) (q k : Nat) : Prop where
  within : q ≤ CudaNs3.Tcp.bytes every s.sentList
  size : (stdMin n (s.sizeFromSequence (at32 s.firstByteSeq q))).toNat = k
  fits : q + k ≤ CudaNs3.Tcp.bytes every s.sentList + CudaNs3.Tcp.bytes every s.appList
  le : k ≤ n.toNat

theorem Streamed.asked (h : Streamed s) (n : BitVec 32) {q : Nat}
    (hq : q ≤ CudaNs3.Tcp.bytes every s.sentList) :
    Asked s n q (stdMin n (s.sizeFromSequence (at32 s.firstByteSeq q))).toNat := by
  have hall := h.all_lt
  have hsize := h.sizeFromSequence (q := q) (by omega)
  refine ⟨hq, rfl, ?_, ?_⟩ <;>
    (rw [stdMin_toNat, hsize, BitVec.toNat_ofNat]; omega)

section Asked
variable {now : Int} {depth q k : Nat} {n : BitVec 32}

theorem Asked.min_eq (ha : Asked s n q k) :
    stdMin n (s.sizeFromSequence (at32 s.firstByteSeq q)) = BitVec.ofNat 32 k := by
  rw [← ha.size, BitVec.ofNat_toNat, BitVec.setWidth_eq]

theorem Streamed.not_before (h : Streamed s) (ha : Asked s n q k) :
    gt s.firstByteSeq (at32 s.firstByteSeq q) = false := by
  have hall := h.all_lt
  have hin := ha.within
  have hgt : gt (at32 s.firstByteSeq 0) (at32 s.firstByteSeq q) ↔ q < 0 :=
    gt_at32 (by omega) (by omega)
  simpa using hgt

theorem Asked.ne_zero (ha : Asked s n q k) (hpos : 0 < k) : BitVec.ofNat 32 k ≠ 0 := by
  rw [← ha.min_eq]
  intro h0
  have hk := ha.size
  rw [h0] at hk
  simp at hk
  omega

/-- Whether the request ends within the sent data. -/
theorem Streamed.sent_ge (h : Streamed s) (ha : Asked s n q k) :
    ge (s.firstByteSeq + s.sentSize) (at32 s.firstByteSeq q + BitVec.ofNat 32 k) ↔
      q + k ≤ CudaNs3.Tcp.bytes every s.sentList := by
  have hall := h.all_lt
  have hfits := ha.fits
  rw [h.sentEnd, at32_add]
  exact ge_at32 (by omega) (by omega)

theorem Streamed.sent_le (h : Streamed s) (ha : Asked s n q k) :
    le (s.firstByteSeq + s.sentSize) (at32 s.firstByteSeq q) ↔
      CudaNs3.Tcp.bytes every s.sentList ≤ q := by
  have hall := h.all_lt
  have hfits := ha.fits
  rw [h.sentEnd]
  exact le_at32 (by omega) (by omega)

/-- A request within the sent data goes to `GetTransmittedSegment`. -/
theorem Streamed.copyFrom_sent (h : Streamed s) (ha : Asked s n q k) (hpos : 0 < k)
    (hfit : q + k ≤ CudaNs3.Tcp.bytes every s.sentList) :
    TcpTxBuffer.copyFrom now s (depth + 1) n (at32 s.firstByteSeq q) =
      (s.getTransmittedSegment (BitVec.ofNat 32 k) (at32 s.firstByteSeq q)).bind fun f =>
        if f.item.sacked then none else TcpTxBuffer.handOut now s f := by
  rw [TcpTxBuffer.copyFrom]
  simp only
  rw [if_neg (by simp [h.not_before ha]), ha.min_eq, if_neg (ha.ne_zero hpos),
    if_pos ((h.sent_ge ha).mpr hfit)]

/-- A request that begins where the sent data ends goes to `GetNewSegment`. -/
theorem Streamed.copyFrom_unsent (h : Streamed s) (ha : Asked s n q k) (hpos : 0 < k)
    (hq : q = CudaNs3.Tcp.bytes every s.sentList) :
    TcpTxBuffer.copyFrom now s (depth + 1) n (at32 s.firstByteSeq q) =
      (s.getNewSegment (BitVec.ofNat 32 k)).bind fun (s, f) =>
        if f.item.retrans then none else TcpTxBuffer.handOut now s f := by
  have hend : s.firstByteSeq + s.sentSize = at32 s.firstByteSeq q := by rw [hq, h.sentEnd]
  rw [TcpTxBuffer.copyFrom]
  simp only
  rw [if_neg (by simp [h.not_before ha]), ha.min_eq, if_neg (ha.ne_zero hpos),
    if_neg fun hge => absurd ((h.sent_ge ha).mp hge) (by omega),
    if_pos ((h.sent_le ha).mpr (by omega)), if_pos hend]

/-- A request across the end of the sent data is cut there, unless the numbers wrap around. -/
theorem Streamed.copyFrom_across (h : Streamed s) (ha : Asked s n q k)
    (hq : q < CudaNs3.Tcp.bytes every s.sentList)
    (hover : CudaNs3.Tcp.bytes every s.sentList < q + k) :
    TcpTxBuffer.copyFrom now s (depth + 1) n (at32 s.firstByteSeq q) =
      if (at32 s.firstByteSeq q).toNat + k < 2 ^ 32 then
        TcpTxBuffer.copyFrom now s depth
          (BitVec.ofNat 32 (CudaNs3.Tcp.bytes every s.sentList - q)) (at32 s.firstByteSeq q)
      else none := by
  have hall := h.all_lt
  have hfits := ha.fits
  obtain ⟨d, hd⟩ := Nat.exists_eq_add_of_lt hq
  have hend : s.firstByteSeq + s.sentSize =
      at32 s.firstByteSeq q + BitVec.ofNat 32 (d + 1) := by
    rw [h.sentEnd, at32_add, hd, Nat.add_assoc]
  have hamount : s.firstByteSeq + s.sentSize - at32 s.firstByteSeq q =
      BitVec.ofNat 32 (CudaNs3.Tcp.bytes every s.sentList - q) := by
    rw [h.sentEnd, at32_sub (Nat.le_of_lt hq)]
  have hraw : (at32 s.firstByteSeq q < s.firstByteSeq + s.sentSize ∧
      s.firstByteSeq + s.sentSize < at32 s.firstByteSeq q + BitVec.ofNat 32 k) ↔
        (at32 s.firstByteSeq q).toNat + k < 2 ^ 32 := by
    have hlt := (at32 s.firstByteSeq q).isLt
    rw [hend]
    simp only [BitVec.lt_def, BitVec.toNat_add, BitVec.toNat_ofNat]
    omega
  rw [TcpTxBuffer.copyFrom]
  simp only
  rw [if_neg (by simp [h.not_before ha]), ha.min_eq, if_neg (ha.ne_zero (by omega)),
    if_neg fun hge => absurd ((h.sent_ge ha).mp hge) (by omega),
    if_neg fun hle => absurd ((h.sent_le ha).mp hle) (by omega), hamount]
  by_cases hwrap : (at32 s.firstByteSeq q).toNat + k < 2 ^ 32
  · rw [if_pos (hraw.mpr hwrap), if_pos hwrap]
  · rw [if_neg fun hh => hwrap (hraw.mp hh), if_neg hwrap]

end Asked

theorem at32_toNat_sub {seq : SequenceNumber 32} (origin : SequenceNumber 32) :
    at32 origin (seq - origin).toNat = seq := by
  rw [at32, BitVec.ofNat_toNat, BitVec.setWidth_eq]
  ring

theorem Slice.mono {n n' : BitVec 32} {seq : SequenceNumber 32} {it : TcpTxItem}
    (h : Slice s n seq it) (hle : n.toNat ≤ n'.toNat) : Slice s n' seq it :=
  { h with le := Nat.le_trans h.le hle }

theorem Streamed.copyFaithful_of_match (h : Streamed s) {P : Prop} {now : Int} {n : BitVec 32}
    {seq : SequenceNumber 32} (hne : stdMin n (s.sizeFromSequence seq) ≠ 0)
    (hcopy : match s.copyFromSequence now n seq with
      | some (_, r) => P ∧ ∃ it, r = some it ∧ Slice s n seq it
      | none => ¬ P) : CopyFaithful s now n seq ↔ P := by
  cases heq : s.copyFromSequence now n seq with
  | none =>
    rw [heq] at hcopy
    refine ⟨fun hf => ?_, fun hP => absurd hP hcopy⟩
    obtain ⟨t, r, hsome, -⟩ := hf
    rw [heq] at hsome
    cases hsome
  | some out =>
    obtain ⟨t, r⟩ := out
    rw [heq] at hcopy
    obtain ⟨hP, it, rfl, hslice⟩ := hcopy
    refine ⟨fun _ => hP, fun _ => ⟨t, some it, heq, (h.copyFrom heq).2,
      ⟨nofun, fun h0 => absurd h0 hne⟩, ?_⟩⟩
    rintro it' ⟨⟩
    exact hslice

section Cases
variable {q k : Nat} {n : BitVec 32}

/-- New data is always handed out. -/
theorem Streamed.copy_new (h : Streamed s) (now : Int) (ha : Asked s n q k) (hpos : 0 < k)
    (hq : q = CudaNs3.Tcp.bytes every s.sentList) :
    ∃ s' it, s.copyFromSequence now n (at32 s.firstByteSeq q) = some (s', some it) ∧
      Slice s n (at32 s.firstByteSeq q) it := by
  have hall := h.all_lt
  have hfits := ha.fits
  have hk : (BitVec.ofNat 32 k).toNat = k := by
    rw [BitVec.toNat_ofNat]
    omega
  obtain ⟨t, f, hnew, -, -, hfirst, hstart, hretrans, hpacket⟩ :=
    h.getNewSegment (n := BitVec.ofNat 32 k) (by rwa [hk]) (by rw [hk]; omega)
  have hlen : f.item.packet.length = k := by
    rw [hpacket, hk, List.length_take, length_stream]
    omega
  have hge : ge f.item.startSeq t.firstByteSeq = true := by
    rw [hstart, hfirst, h.sentEnd]
    exact ge_origin (by omega)
  refine ⟨t.setSent { f with item := { f.item with lastSent := now } },
    { f.item with lastSent := now }, ?_, ?_⟩
  · rw [copyFromSequence, h.copyFrom_unsent ha hpos hq, hnew, Option.bind_some]
    simp only
    rw [if_neg (by simp [hretrans]), TcpTxBuffer.handOut, if_pos hge]
  · refine ⟨by rw [hstart, h.sentEnd, hq], by simp only [hlen]; omega,
      by simp only [hlen]; exact ha.le, ?_⟩
    simp only [hlen, at32_sub_toNat (by omega : q < 2 ^ 31), view]
    rw [hpacket, hk, hq, List.drop_append_of_le_length (by rw [length_stream]),
      List.drop_of_length_le (by rw [length_stream]), List.nil_append]

theorem Streamed.copy_sent (h : Streamed s) (now : Int) (ha : Asked s n q k) (hpos : 0 < k)
    (hin : q + k ≤ CudaNs3.Tcp.bytes every s.sentList) :
    match s.copyFromSequence now n (at32 s.firstByteSeq q) with
    | some (_, r) =>
      Servable s (at32 s.firstByteSeq q) q (q + k) ∧
        ∃ it, r = some it ∧ Slice s n (at32 s.firstByteSeq q) it
    | none => ¬ Servable s (at32 s.firstByteSeq q) q (q + k) := by
  have hall := h.all_lt
  have hk : (BitVec.ofNat 32 k).toNat = k := by
    rw [BitVec.toNat_ofNat]
    omega
  have hserve := h.serve (n := BitVec.ofNat 32 k) now (by rwa [hk]) (by rwa [hk])
  rw [copyFromSequence, h.copyFrom_sent ha hpos hin]
  rw [hk] at hserve
  revert hserve
  split
  · rintro ⟨hs, it, rfl, hslice⟩
    exact ⟨hs, it, rfl, hslice.mono (by rw [hk]; exact ha.le)⟩
  · exact id

/-- A request across the end of the sent data is one for the sent part, if it gets so far. -/
theorem Streamed.copy_across (h : Streamed s) (now : Int) (ha : Asked s n q k)
    (hq : q < CudaNs3.Tcp.bytes every s.sentList)
    (hover : CudaNs3.Tcp.bytes every s.sentList < q + k) :
    match s.copyFromSequence now n (at32 s.firstByteSeq q) with
    | some (_, r) =>
      ((at32 s.firstByteSeq q).toNat + k < 2 ^ 32 ∧
        Servable s (at32 s.firstByteSeq q) q (CudaNs3.Tcp.bytes every s.sentList)) ∧
          ∃ it, r = some it ∧ Slice s n (at32 s.firstByteSeq q) it
    | none =>
      ¬ ((at32 s.firstByteSeq q).toNat + k < 2 ^ 32 ∧
        Servable s (at32 s.firstByteSeq q) q (CudaNs3.Tcp.bytes every s.sentList)) := by
  have hall := h.all_lt
  have hle := ha.le
  obtain ⟨d, hd⟩ := Nat.exists_eq_add_of_lt hq
  have hrest : CudaNs3.Tcp.bytes every s.sentList - q = d + 1 := by omega
  have hend : q + (d + 1) = CudaNs3.Tcp.bytes every s.sentList := by omega
  have hd' : (BitVec.ofNat 32 (d + 1)).toNat = d + 1 := by
    rw [BitVec.toNat_ofNat]
    omega
  rw [copyFromSequence, h.copyFrom_across ha hq hover, hrest]
  by_cases hwrap : (at32 s.firstByteSeq q).toNat + k < 2 ^ 32
  · have hagain : Asked s (BitVec.ofNat 32 (d + 1)) q (d + 1) := by
      have hasked := h.asked (BitVec.ofNat 32 (d + 1)) (Nat.le_of_lt hq)
      have hsize := h.sizeFromSequence (q := q) (by omega)
      rw [stdMin_toNat, hd', hsize, BitVec.toNat_ofNat, Nat.min_eq_left (by omega)] at hasked
      exact hasked
    have hserve := h.serve (q := q) (n := BitVec.ofNat 32 (d + 1)) now (by omega) (by omega)
    rw [if_pos hwrap, h.copyFrom_sent hagain (by omega) (by omega)]
    rw [hd', hend] at hserve
    revert hserve
    split
    · rintro ⟨hs, it, rfl, hslice⟩
      exact ⟨⟨hwrap, hs⟩, it, rfl, hslice.mono (by omega)⟩
    · exact fun hnot hs => hnot hs.2
  · rw [if_neg hwrap]
    exact fun hs => hwrap hs.1

end Cases

/-- Requests between the first pending byte and the end of the sent data are answered from the
stream exactly if they are copyable. -/
theorem Streamed.copyFaithful_iff (h : Streamed s) (now : Int) (n : BitVec 32)
    {seq : SequenceNumber 32} (hseq : (seq - s.firstByteSeq).toNat ≤ s.sentSize.toNat) :
    CopyFaithful s now n seq ↔ Copyable s n seq := by
  obtain ⟨q, hq⟩ : ∃ q, (seq - s.firstByteSeq).toNat = q := ⟨_, rfl⟩
  have hwithin : q ≤ CudaNs3.Tcp.bytes every s.sentList := by
    rwa [← hq, ← h.sentSize_toNat]
  obtain rfl : seq = at32 s.firstByteSeq q := by rw [← hq, at32_toNat_sub]
  have ha := h.asked n hwithin
  obtain ⟨k, hk⟩ : ∃ k, (stdMin n (s.sizeFromSequence (at32 s.firstByteSeq q))).toNat = k := ⟨_, rfl⟩
  rw [hk] at ha
  have hzero : stdMin n (s.sizeFromSequence (at32 s.firstByteSeq q)) = 0 ↔ k = 0 := by
    rw [← hk]
    exact ⟨fun h0 => by simp [h0], fun h0 => BitVec.eq_of_toNat_eq h0⟩
  simp only [Copyable, hk, hq, h.sentSize_toNat]
  rcases Nat.eq_zero_or_pos k with rfl | hpos
  · -- nothing is left to hand out
    refine ⟨fun _ => .inl rfl, fun _ => ⟨s, none, ?_, rfl, ⟨fun _ => hzero.mpr rfl, fun _ => rfl⟩,
      nofun⟩⟩
    rw [copyFromSequence, TcpTxBuffer.copyFrom]
    simp only
    rw [if_neg (by simp [h.not_before ha]), if_pos (hzero.mpr rfl)]
  have hne : stdMin n (s.sizeFromSequence (at32 s.firstByteSeq q)) ≠ 0 := fun h0 =>
    absurd (hzero.mp h0) (by omega)
  rcases Nat.eq_or_lt_of_le hwithin with heq | hlt
  · refine ⟨fun _ => .inr (.inl heq), fun _ => ?_⟩
    obtain ⟨t, it, hout, hslice⟩ := h.copy_new now ha hpos heq
    refine ⟨t, some it, hout, (h.copyFrom hout).2, ⟨nofun, fun h0 => absurd h0 hne⟩, ?_⟩
    rintro it' ⟨⟩
    exact hslice
  · have hor {P : Prop} : (k = 0 ∨ q = CudaNs3.Tcp.bytes every s.sentList ∨ P) ↔ P := by
      constructor
      · rintro (h0 | h0 | hP)
        · omega
        · omega
        · exact hP
      · exact fun hP => .inr (.inr hP)
    rw [hor]
    by_cases hin : q + k ≤ CudaNs3.Tcp.bytes every s.sentList
    · rw [Nat.min_eq_left hin, h.copyFaithful_of_match hne (h.copy_sent now ha hpos hin)]
      exact ⟨fun hs => ⟨fun hover => absurd hover (by omega), hs⟩, fun hs => hs.2⟩
    · have hover : CudaNs3.Tcp.bytes every s.sentList < q + k := Nat.lt_of_not_le hin
      rw [Nat.min_eq_right (Nat.le_of_lt hover),
        h.copyFaithful_of_match hne (h.copy_across now ha hlt hover)]
      exact ⟨fun hs => ⟨fun _ => hs.1, hs.2⟩, fun hs => ⟨hs.1 hover, hs.2⟩⟩

/-- `seq` is between `m_firstByteSeq` and the end of the sent data. -/
def Within (s : TcpTxBuffer) (seq : SequenceNumber 32) : Prop :=
  le s.firstByteSeq seq = true ∧ le seq (s.firstByteSeq + s.sentSize) = true

theorem Streamed.within (h : Streamed s) {seq : SequenceNumber 32} (hseq : Within s seq) :
    (seq - s.firstByteSeq).toNat ≤ s.sentSize.toNat := by
  have hsmall : s.sentSize.toNat < 2 ^ 31 := by
    have hall := h.all_lt
    rw [h.sentSize_toNat]
    omega
  have hfirst := s.firstByteSeq.isLt
  have hlt := seq.isLt
  have hhalf : (halfMaxValue 32).toNat = 2147483647 := rfl
  obtain ⟨hge, hle⟩ := hseq
  simp only [le, gt, Bool.not_eq_true', Bool.or_eq_false_iff, Bool.and_eq_false_iff,
    decide_eq_false_iff_not, BitVec.lt_def, BitVec.le_def, BitVec.toNat_add, BitVec.toNat_sub,
    hhalf] at hge hle
  rw [BitVec.toNat_sub]
  omega

end Copy

/-- In every run the two lists are the stream, in items that follow each other, and a request is
answered from it exactly if it is copyable. -/
theorem txBuffer_streams {n : SequenceNumber 32} {maxBuffer dupAckThresh : BitVec 32}
    {sackEnabled : Bool} {s : TcpTxBuffer} {ops : List StreamOp} (hmax : maxBuffer.toNat < 2 ^ 31)
    (hrun : Transition.exec streamStep
      (.new n maxBuffer dupAckThresh sackEnabled) ops = some s) :
    s.view = ops.foldl ByteStream.step ⟨maxBuffer, n, []⟩ ∧
      Consecutive s.firstByteSeq s.sentList ∧
        ∀ now m seq, Within s seq → (CopyFaithful s now m seq ↔ Copyable s m seq) := by
  obtain ⟨hs, hview⟩ := Transition.exec_refines (P := Streamed) (fun _ _ _ h hstep => h.step hstep)
    (Streamed.new hmax) hrun
  exact ⟨hview, hs.consecutive, fun now m seq hseq => hs.copyFaithful_iff now m (hs.within hseq)⟩

/-- A state whose run ends, with a request in range that is not answered. -/
theorem unanswered {start : TcpTxBuffer} {ops : List StreamOp} {n : BitVec 32}
    {seq : SequenceNumber 32}
    (h : ((Transition.exec streamStep start ops).any fun s =>
      (s.copyFromSequence 0 n seq).isNone && (le s.firstByteSeq seq &&
        le seq (s.firstByteSeq + s.sentSize))) = true) :
    ∃ s, Transition.exec streamStep start ops = some s ∧ Within s seq ∧
      ¬ CopyFaithful s 0 n seq := by
  obtain ⟨s, hrun, hs⟩ := exists_of_any h
  simp only [Bool.and_eq_true, Option.isNone_iff_eq_none] at hs
  obtain ⟨hnone, hwithin⟩ := hs
  refine ⟨s, hrun, hwithin, fun hf => ?_⟩
  obtain ⟨t, r, hsome, -⟩ := hf
  rw [hnone] at hsome
  cases hsome

/-- Five bytes from the end of the sequence space, three of six bytes are sent and then all six are
asked for. And after a timeout the second of two sent bytes is asked for together with new data
that was sent meanwhile. -/
theorem requests_fail :
    (∃ s, Transition.exec streamStep (.new 4294967291 100 3 true)
        [.add (.ones 6 (by decide)), .copyFromSequence 0 3 4294967291] = some s ∧
          Within s 4294967291 ∧ ¬ CopyFaithful s 0 6 4294967291) ∧
      ∃ s, Transition.exec streamStep (.new 0 100 3 true)
        [.add (.ones 2 (by decide)), .copyFromSequence 0 2 0, .setSentListLost false,
          .add (.ones 2 (by decide)), .copyFromSequence 0 2 2] = some s ∧ Within s 1 ∧
            ¬ CopyFaithful s 0 2 1 :=
  ⟨unanswered (by decide), unanswered (by decide)⟩

theorem txBuffer_streams_sent : ∃ s : TcpTxBuffer, s.view.pending = [1] ∧
    ∀ now m seq, Within s seq → (CopyFaithful s now m seq ↔ Copyable s m seq) := by
  obtain ⟨s, hrun, -⟩ := exists_of_any (p := fun _ => true) (o := Transition.exec streamStep
    (.new 0 100 3 true) [.add (.ones 1 (by decide)), .copyFromSequence 0 1 0]) (by decide +kernel)
  obtain ⟨hview, -, hcopy⟩ := txBuffer_streams (by decide) hrun
  exact ⟨s, by rw [hview]; decide, hcopy⟩

end CudaNs3.Tcp
