import CudaNs3.Tcp.TxContent
import CudaNs3.Lib.Transition

/-!
# Round trip times

`UpdateRttHistory` records what is sent, and an acknowledgment of the first record is a
measurement unless the record is marked as sent again. A segment that is sent again marks one
record only, and may carry bytes of others. What comes later in the history can still not be
measured while a record before it ends no earlier, because both are then forgotten at once.
-/

namespace CudaNs3.Tcp

open SequenceNumber TcpTxBuffer
set_option autoImplicit false

/-- A segment as it goes out. `start` is the place of its first byte in the stream, which the
source does not keep. -/
structure Transmission where
  seq : SequenceNumber 32
  sz : BitVec 32
  time : Int
  start : Nat
  deriving DecidableEq

namespace Transmission

def stop (t : Transmission) : Nat := t.start + t.sz.toNat

def carries (t : Transmission) (x : Nat) : Bool := t.start ≤ x && x < t.stop

end Transmission

/-- How often the byte at `x` has gone out. -/
def times (sent : List Transmission) (x : Nat) : Nat := sent.countP fun t => t.carries x

/-- `start` and `stop` are the places that `seq` and `seq + count` stand for. -/
structure RttHistory where
  seq : SequenceNumber 32
  count : BitVec 32
  time : Int
  retx : Bool
  start : Nat
  stop : Nat

namespace RttHistory

def new (t : Transmission) : RttHistory := ⟨t.seq, t.sz, t.time, false, t.start, t.stop⟩

def contains (h : RttHistory) (seq : SequenceNumber 32) : Bool :=
  ge seq h.seq && lt seq (h.seq + h.count)

def mark (t : Transmission) (h : RttHistory) : RttHistory :=
  { h with
    retx := true
    count := distance (t.seq + t.sz) h.seq
    stop := t.stop }

end RttHistory

/-- The record that is marked when the segment from `seq` on is sent again. -/
def markedBy (seq : SequenceNumber 32) (history : List RttHistory) : Option Nat :=
  history.findIdx? fun h => h.contains seq

def updateRttHistory (t : Transmission) (isRetransmission : Bool) (history : List RttHistory) :
    List RttHistory :=
  if isRetransmission then
    match markedBy t.seq history with
    | some i => history.modify i (.mark t)
    | none => history
  else history ++ [.new t]

/-- The measurement of `EstimateRtt`, if there is one. -/
def measurement (now : Int) (ackSeq : SequenceNumber 32) (history : List RttHistory) : Option Int :=
  match history with
  | [] => none
  | h :: _ =>
    if !h.retx && ge ackSeq (h.seq + h.count) && now - h.time ≠ 0 then some (now - h.time) else none

/-- The end of `EstimateRtt`. -/
def forget (ackSeq : SequenceNumber 32) (history : List RttHistory) : List RttHistory :=
  history.dropWhile fun h => !gt (h.seq + h.count) ackSeq

/-- What the transmissions of a socket depend on, with the place of `m_firstByteSeq`, all that was
transmitted, and whether a window probe was. -/
structure Sender where
  txBuffer : TcpTxBuffer
  history : List RttHistory
  place : Nat
  sent : List Transmission
  probed : Bool

/-- The calls that transmit, and those that change the buffer or the history. -/
inductive SenderCall where
  | sendDataPacket (now : Int) (seq : SequenceNumber 32) (maxSize : BitVec 32)
  | sendSyn (now : Int) (isRetransmission : Bool)
  | persistTimeout (now : Int) (nextTxSequence : SequenceNumber 32)
  | reTxTimeout
  | estimateRtt (ackSeq : SequenceNumber 32)
  | add (p : Packet)
  | discardUpTo (now : Int) (seq : SequenceNumber 32)
  | update (blocks : List SackBlock)
  | markHeadAsLost
  | addRenoSack
  | resetRenoSack
  | setSentListLost (resetSack : Bool)

namespace Sender

/-- The first byte follows the SYN, which takes the number `isn`. -/
def new (isn : SequenceNumber 32) (maxBuffer dupAckThresh : BitVec 32) (sackEnabled : Bool) :
    Sender :=
  ⟨.new (isn + 1) maxBuffer dupAckThresh sackEnabled, [], 1, [], false⟩

def transmission (s : Sender) (now : Int) (seq : SequenceNumber 32) (item : TcpTxItem) :
    Transmission :=
  ⟨seq, item.size, now, s.place + (seq - s.txBuffer.firstByteSeq).toNat⟩

/-- A SYN carries no byte. -/
def syn (isn : SequenceNumber 32) (now : Int) : Transmission := ⟨isn, 0, now, 0⟩

def withBuffer (s : Sender) (tx : TcpTxBuffer) : Sender :=
  { s with
    txBuffer := tx
    place := s.place + (tx.firstByteSeq - s.txBuffer.firstByteSeq).toNat }

def step (isn : SequenceNumber 32) (s : Sender) : SenderCall → Option Sender
  | .sendDataPacket now seq maxSize =>
    (s.txBuffer.copyFromSequence now maxSize seq).bind fun (tx, outItem) =>
      outItem.map fun outItem =>
        let t := s.transmission now seq outItem
        { s with
          txBuffer := tx
          history := updateRttHistory t outItem.retrans s.history
          sent := s.sent ++ [t] }
  | .sendSyn now isRetransmission =>
    some
      { s with
        history := updateRttHistory (syn isn now) isRetransmission s.history
        sent := s.sent ++ [syn isn now] }
  | .persistTimeout now nextTxSequence =>
    (s.txBuffer.copyFromSequence now 1 nextTxSequence).bind fun (tx, item) =>
      item.map fun item =>
        { s with
          txBuffer := tx.resetLastSegmentSent
          sent := s.sent ++ [s.transmission now nextTxSequence item]
          probed := true }
  | .reTxTimeout => some { s with history := [] }
  | .estimateRtt ackSeq => some { s with history := forget ackSeq s.history }
  | .add p => some (s.withBuffer (s.txBuffer.add p).1)
  | .discardUpTo now seq => (s.txBuffer.discardUpTo now seq).map s.withBuffer
  | .update blocks => (s.txBuffer.update blocks).map fun (tx, _) => s.withBuffer tx
  | .markHeadAsLost => some (s.withBuffer s.txBuffer.markHeadAsLost)
  | .addRenoSack => s.txBuffer.addRenoSack.map s.withBuffer
  | .resetRenoSack => some (s.withBuffer s.txBuffer.resetRenoSack)
  | .setSentListLost resetSack => (s.txBuffer.setSentListLost resetSack).map s.withBuffer

end Sender

/-- The measurement is the time since a segment went out whose bytes have gone out once. -/
def Karn (isn : SequenceNumber 32) (sent : List Transmission) (now : Int)
    (ackSeq : SequenceNumber 32) (m : Int) : Prop :=
  ∃ t ∈ sent, m = now - t.time ∧ t.seq = at32 isn t.start ∧ ge ackSeq (t.seq + t.sz) = true ∧
    ∀ x, t.carries x = true → times sent x = 1

/-- A byte of the record has gone out more than once. -/
def Repeated (sent : List Transmission) (h : RttHistory) : Prop :=
  ∃ x, h.start ≤ x ∧ x < h.stop ∧ 2 ≤ times sent x

/-- When `t` goes out and marks the record `found`, each other record that is not marked and has a
byte that is then sent more than once ends no later than one before it; `found` then ends with
`t`. -/
def Shelters (sent : List Transmission) (history : List RttHistory) (t : Transmission)
    (found : Option Nat) : Prop :=
  ∀ j h, history[j]? = some h → h.retx = false → found ≠ some j → Repeated (sent ++ [t]) h →
    ∃ i q, i < j ∧ history[i]? = some q ∧ h.stop ≤ if found = some i then t.stop else q.stop

/-- What the acknowledgment covers ends before what it does not cover. -/
def Orders (ackSeq : SequenceNumber 32) (history : List RttHistory) : Prop :=
  ∀ h ∈ history, ∀ q ∈ history, gt (h.seq + h.count) ackSeq = false →
    gt (q.seq + q.count) ackSeq = true → h.stop < q.stop

/-- The calls that leave no measurement of a byte that went out twice. Data is sent as new although
it was sent before only after a window probe. -/
def Sender.Careful (isn : SequenceNumber 32) (s : Sender) : SenderCall → Prop
  | .sendDataPacket now seq maxSize =>
    ∀ tx outItem, s.txBuffer.copyFromSequence now maxSize seq = some (tx, some outItem) →
      let t := s.transmission now seq outItem
      if outItem.retrans then Shelters s.sent s.history t (markedBy seq s.history)
      else s.probed = true → Shelters s.sent (s.history ++ [.new t]) t none
  | .sendSyn now isRetransmission =>
    isRetransmission = true → Shelters s.sent s.history (syn isn now) (markedBy isn s.history)
  | .persistTimeout now nextTxSequence =>
    ∀ tx item, s.txBuffer.copyFromSequence now 1 nextTxSequence = some (tx, some item) →
      Shelters s.sent s.history (s.transmission now nextTxSequence item) none
  | .estimateRtt ackSeq => Orders ackSeq s.history
  | _ => True

section History
variable {sent : List Transmission} {history : List RttHistory} {t : Transmission} {x : Nat}

theorem Transmission.carries_iff : t.carries x = true ↔ t.start ≤ x ∧ x < t.stop := by
  simp [Transmission.carries]

theorem times_append : times (sent ++ [t]) x = times sent x + if t.carries x then 1 else 0 := by
  simp [times, List.countP_append, List.countP_cons]

/-- A record that is not marked and has a byte that went out more than once ends no later than one
before it. -/
def Guarded (sent : List Transmission) (history : List RttHistory) : Prop :=
  ∀ j h, history[j]? = some h → h.retx = false → Repeated sent h →
    ∃ (i : Nat) (q : RttHistory), i < j ∧ history[i]? = some q ∧ h.stop ≤ q.stop

theorem shelters_none : Shelters sent history t none ↔ Guarded (sent ++ [t]) history := by
  simp [Shelters, Guarded]

theorem Guarded.nil : Guarded sent [] := by
  intro j h hj
  simp at hj

/-- What is measured was sent once: nothing is before the first record. -/
theorem Guarded.first {h : RttHistory} {rest : List RttHistory}
    (hguard : Guarded sent (h :: rest)) (hretx : h.retx = false) : ¬ Repeated sent h := by
  intro hrep
  obtain ⟨i, -, hi, -⟩ := hguard 0 h rfl hretx hrep
  exact absurd hi (Nat.not_lt_zero i)

theorem Shelters.modify {i : Nat} (hshelter : Shelters sent history t (some i)) :
    Guarded (sent ++ [t]) (history.modify i (.mark t)) := by
  intro j h hj hretx hrep
  rw [List.getElem?_modify] at hj
  obtain ⟨h₀, hj₀, rfl⟩ := Option.map_eq_some_iff.mp hj
  by_cases hij : i = j
  · rw [if_pos hij] at hretx
    cases hretx
  rw [if_neg hij] at hretx hrep ⊢
  obtain ⟨k, q, hk, hq, hle⟩ := hshelter j h₀ hj₀ hretx (by simpa using hij) hrep
  refine ⟨k, if i = k then q.mark t else q, hk, by simp [List.getElem?_modify, hq], ?_⟩
  simp only [Option.some.injEq] at hle
  split
  · rename_i hik
    rw [if_pos hik] at hle
    exact hle
  · rename_i hik
    rw [if_neg hik] at hle
    exact hle

theorem Shelters.update (hshelter : Shelters sent history t (markedBy t.seq history)) :
    Guarded (sent ++ [t]) (updateRttHistory t true history) := by
  rw [updateRttHistory, if_pos rfl]
  split
  · rename_i i hi
    rw [hi] at hshelter
    exact hshelter.modify
  · rename_i hnone
    rw [hnone] at hshelter
    exact shelters_none.mp hshelter

/-- Nothing that went out reaches to where the new segment begins. -/
theorem Guarded.append (hguard : Guarded sent history)
    (hrecorded : ∀ h ∈ history, h.retx = false → ∃ t' ∈ sent, h = .new t')
    (hfresh : ∀ t' ∈ sent, t'.stop ≤ t.start) :
    Guarded (sent ++ [t]) (history ++ [.new t]) := by
  intro j h hj hretx ⟨x, hlo, hhi, htwo⟩
  rcases Nat.lt_or_ge j history.length with hlt | hge
  · rw [List.getElem?_append_left hlt] at hj
    obtain ⟨t', ht', rfl⟩ := hrecorded h (List.mem_of_getElem? hj) hretx
    have hbefore : x < t.start := Nat.lt_of_lt_of_le hhi (hfresh t' ht')
    have hnot : t.carries x = false := by
      rw [Bool.eq_false_iff, ne_eq, Transmission.carries_iff]
      omega
    rw [times_append, hnot, if_neg Bool.false_ne_true] at htwo
    obtain ⟨i, q, hi, hq, hle⟩ := hguard j _ hj hretx ⟨x, hlo, hhi, htwo⟩
    exact ⟨i, q, hi, by rw [List.getElem?_append_left (by omega), hq], hle⟩
  · rw [List.getElem?_append_right hge, List.getElem?_singleton] at hj
    obtain ⟨-, heq⟩ := Option.ite_none_right_eq_some.mp hj
    obtain rfl := Option.some.inj heq
    have hnone : times sent x = 0 := by
      rw [times, List.countP_eq_zero]
      intro t' ht' hcarries
      have := hfresh t' ht'
      have := (Transmission.carries_iff.mp hcarries).2
      change t.start ≤ x at hlo
      omega
    rw [times_append, hnone] at htwo
    split at htwo <;> omega

/-- The records up to the first one that is not covered are forgotten. -/
theorem forget_eq_drop (ackSeq : SequenceNumber 32) (history : List RttHistory) :
    ∃ n, forget ackSeq history = history.drop n ∧
      (∀ (i : Nat) (q : RttHistory), i < n → history[i]? = some q →
        gt (q.seq + q.count) ackSeq = false) ∧
      ∀ q : RttHistory, history[n]? = some q → gt (q.seq + q.count) ackSeq = true := by
  induction history with
  | nil => exact ⟨0, rfl, by simp, by simp⟩
  | cons h rest ih =>
    rw [forget, List.dropWhile_cons]
    split
    · rename_i hgt
      obtain ⟨n, hdrop, hcovered, hfront⟩ := ih
      refine ⟨n + 1, hdrop, fun i q hi hq => ?_, fun q hq => hfront q (by simpa using hq)⟩
      cases i with
      | zero =>
        obtain rfl : h = q := by simpa using hq
        simpa using hgt
      | succ i => exact hcovered i q (by omega) (by simpa using hq)
    · rename_i hgt
      refine ⟨0, rfl, fun i q hi => absurd hi (Nat.not_lt_zero i), fun q hq => ?_⟩
      obtain rfl : h = q := by simpa using hq
      simpa using hgt

/-- Records that are forgotten were covered, and what they end behind is forgotten too. -/
theorem Guarded.forget {ackSeq : SequenceNumber 32} (hguard : Guarded sent history)
    (horder : Orders ackSeq history) : Guarded sent (forget ackSeq history) := by
  obtain ⟨n, hdrop, hcovered, hfront⟩ := forget_eq_drop ackSeq history
  rw [hdrop]
  intro j h hj hretx hrep
  rw [List.getElem?_drop] at hj
  obtain ⟨i, q, hi, hq, hle⟩ := hguard (n + j) h hj hretx hrep
  rcases Nat.lt_or_ge i n with hlt | hge
  · -- the guard is gone, and the record that is now the first one ends behind it
    obtain ⟨k, hk⟩ : ∃ k, history[n]? = some k := by
      have hbound := (List.getElem?_eq_some_iff.mp hj).1
      exact ⟨history[n], List.getElem?_eq_getElem (by omega)⟩
    have hend := horder q (List.mem_of_getElem? hq) k (List.mem_of_getElem? hk)
      (hcovered i q hlt hq) (hfront k hk)
    rcases Nat.eq_zero_or_pos j with rfl | hpos
    · obtain rfl : k = h := by
        rw [Nat.add_zero, hk] at hj
        exact Option.some.inj hj
      omega
    · exact ⟨0, k, hpos, by rw [List.getElem?_drop, Nat.add_zero, hk], by omega⟩
  · exact ⟨i - n, q, by omega, by rw [List.getElem?_drop, Nat.add_sub_cancel' hge, hq], hle⟩

end History

namespace Sender
variable {isn : SequenceNumber 32} {s s' : Sender} {tx : TcpTxBuffer} {now : Int}

/-- What was sent is before the end of the sent data, unless a window probe was sent, and a record
that is not marked is of a segment that was sent. -/
structure Traced (isn : SequenceNumber 32) (s : Sender) : Prop where
  sized : Sized s.txBuffer
  head : s.txBuffer.firstByteSeq = at32 isn s.place
  seqs : ∀ t ∈ s.sent, t.seq = at32 isn t.start
  ends : ∀ h ∈ s.history, h.seq + h.count = at32 isn h.stop
  behind : s.probed = false → ∀ t ∈ s.sent, t.stop ≤ s.place + s.txBuffer.sentSize.toNat
  recorded : ∀ h ∈ s.history, h.retx = false → ∃ t ∈ s.sent, h = .new t
  guarded : Guarded s.sent s.history

theorem Traced.new {maxBuffer dupAckThresh : BitVec 32} {sackEnabled : Bool}
    (hmax : maxBuffer.toNat < 2 ^ 31) : Traced isn (new isn maxBuffer dupAckThresh sackEnabled) where
  sized := Sized.new hmax
  head := rfl
  seqs := by simp [Sender.new]
  ends := by simp [Sender.new]
  behind := by simp [Sender.new]
  recorded := by simp [Sender.new]
  guarded := .nil

/-- What is measured is the time since a segment that went out once. -/
theorem Traced.karn (h : Traced isn s) {ackSeq : SequenceNumber 32} {m : Int}
    (hm : measurement now ackSeq s.history = some m) : Karn isn s.sent now ackSeq m := by
  obtain ⟨tx, history, place, sent, probed⟩ := s
  unfold measurement at hm
  split at hm
  · cases hm
  rename_i r rest heq
  obtain ⟨hcond, hm⟩ := Option.ite_none_right_eq_some.mp hm
  obtain rfl := Option.some.inj hm
  simp only [Bool.and_eq_true, Bool.not_eq_true'] at hcond
  obtain ⟨⟨hretx, hge⟩, -⟩ := hcond
  simp only at heq
  subst heq
  have honce := h.guarded.first hretx
  obtain ⟨t, ht, rfl⟩ := h.recorded r List.mem_cons_self hretx
  refine ⟨t, ht, rfl, h.seqs t ht, hge, fun x hx => ?_⟩
  have hsome : 0 < times sent x := List.countP_pos_iff.mpr ⟨t, ht, hx⟩
  obtain ⟨hlo, hhi⟩ := Transmission.carries_iff.mp hx
  have hnot : ¬ 2 ≤ times sent x := fun htwo => honce ⟨x, hlo, hhi, htwo⟩
  simp only
  omega

/-- An acknowledgment less than half the circle away from the ends of the records covers what ends
before it. -/
theorem Traced.orders (h : Traced isn s) {a : Nat}
    (hnear : ∀ r ∈ s.history, r.stop < a + 2 ^ 31 ∧ a < r.stop + 2 ^ 31) :
    Orders (at32 isn a) s.history := by
  intro r hr q hq hcovered hleft
  obtain ⟨hr₁, hr₂⟩ := hnear r hr
  obtain ⟨hq₁, hq₂⟩ := hnear q hq
  rw [h.ends r hr, ← Bool.not_eq_true, gt_at32 hr₁ hr₂] at hcovered
  rw [h.ends q hq, gt_at32 hq₁ hq₂] at hleft
  omega

/-- The buffer moves on and nothing goes out. -/
theorem Traced.withBuffer (h : Traced isn s) (hsized : Sized tx)
    (hsent : s.txBuffer.sentSize.toNat ≤
      tx.sentSize.toNat + (tx.firstByteSeq - s.txBuffer.firstByteSeq).toNat) :
    Traced isn (s.withBuffer tx) where
  sized := hsized
  head := by
    have hhead := h.head
    rw [Sender.withBuffer, ← at32_add, ← hhead, BitVec.ofNat_toNat, BitVec.setWidth_eq]
    ring
  seqs := h.seqs
  ends := h.ends
  behind := by
    intro hprobed t ht
    have hstop := h.behind hprobed t ht
    simp only [Sender.withBuffer]
    omega
  recorded := h.recorded
  guarded := h.guarded

theorem Traced.rescored (h : Traced isn s) (htx : Rescored s.txBuffer tx) :
    Traced isn (s.withBuffer tx) :=
  h.withBuffer (htx.sized h.sized) (by rw [htx.sentSize]; omega)

/-- A segment that goes out is added to what was sent. -/
theorem Traced.send (h : Traced isn s) {t : Transmission} {history : List RttHistory}
    {probed : Bool} (hsized : Sized tx) (hfirst : tx.firstByteSeq = s.txBuffer.firstByteSeq)
    (hseq : t.seq = at32 isn t.start)
    (hbehind : probed = false → s.probed = false ∧ t.stop ≤ s.place + tx.sentSize.toNat ∧
      s.txBuffer.sentSize.toNat ≤ tx.sentSize.toNat)
    (hrecorded : ∀ r ∈ history, r ∈ s.history ∨ r = .new t ∨ ∃ q, r = .mark t q)
    (hguard : Guarded (s.sent ++ [t]) history) :
    Traced isn ⟨tx, history, s.place, s.sent ++ [t], probed⟩ where
  sized := hsized
  head := hfirst.trans h.head
  seqs := by
    intro t' ht'
    rcases List.mem_append.mp ht' with ht' | ht'
    · exact h.seqs t' ht'
    · obtain rfl := List.mem_singleton.mp ht'
      exact hseq
  ends := by
    intro r hr
    have hend : t.seq + t.sz = at32 isn t.stop := by
      rw [hseq, Transmission.stop, ← at32_add, BitVec.ofNat_toNat, BitVec.setWidth_eq]
    rcases hrecorded r hr with hold | rfl | ⟨q, rfl⟩
    · exact h.ends r hold
    · exact hend
    · simp only [RttHistory.mark, distance_eq]
      rw [← hend]
      ring
  behind := by
    intro hprobed t' ht'
    obtain ⟨hold, hstop, hgrown⟩ := hbehind hprobed
    rcases List.mem_append.mp ht' with ht' | ht'
    · exact (h.behind hold t' ht').trans (Nat.add_le_add_left hgrown _)
    · obtain rfl := List.mem_singleton.mp ht'
      exact hstop
  recorded := by
    intro r hr hretx
    rcases hrecorded r hr with hold | rfl | ⟨q, rfl⟩
    · obtain ⟨t', ht', rfl⟩ := h.recorded r hold hretx
      exact ⟨t', List.mem_append_left _ ht', rfl⟩
    · exact ⟨t, List.mem_append_right _ List.mem_cons_self, rfl⟩
    · cases hretx
  guarded := hguard

/-- Where a segment is in the stream. -/
theorem Traced.transmission_seq (h : Traced isn s) (seq : SequenceNumber 32) (item : TcpTxItem) :
    (s.transmission now seq item).seq = at32 isn (s.transmission now seq item).start := by
  rw [Sender.transmission, ← at32_add, ← h.head, BitVec.ofNat_toNat, BitVec.setWidth_eq]
  ring

end Sender

theorem mem_updateRttHistory {t : Transmission} {again : Bool} {history : List RttHistory}
    {r : RttHistory} (hr : r ∈ updateRttHistory t again history) :
    r ∈ history ∨ r = .new t ∨ ∃ q, r = .mark t q := by
  unfold updateRttHistory at hr
  split at hr
  · split at hr
    · obtain ⟨j, hj⟩ := List.mem_iff_getElem?.mp hr
      rw [List.getElem?_modify] at hj
      obtain ⟨r₀, hj₀, rfl⟩ := Option.map_eq_some_iff.mp hj
      split
      · exact .inr (.inr ⟨r₀, rfl⟩)
      · exact .inl (List.mem_of_getElem? hj₀)
    · exact .inl hr
  · rcases List.mem_append.mp hr with hr | hr
    · exact .inl hr
    · exact .inr (.inl (List.mem_singleton.mp hr))

namespace Sender
variable {isn : SequenceNumber 32} {s s' : Sender} {tx : TcpTxBuffer} {now : Int}
  {seq : SequenceNumber 32} {n : BitVec 32} {item : TcpTxItem}

/-- A segment of the buffer, and that it ends with the sent data. -/
theorem Traced.copied (h : Traced isn s)
    (hcopy : s.txBuffer.copyFromSequence now n seq = some (tx, some item)) :
    Sized tx ∧ tx.firstByteSeq = s.txBuffer.firstByteSeq ∧
      s.txBuffer.sentSize.toNat ≤ tx.sentSize.toNat ∧
      (s.transmission now seq item).stop ≤ s.place + tx.sentSize.toNat ∧
      (item.retrans = false →
        (s.transmission now seq item).start = s.place + s.txBuffer.sentSize.toNat) := by
  obtain ⟨hnone, -⟩ | ⟨it, hit, hcopied⟩ := h.sized.copyFromSequence hcopy
  · cases hnone
  obtain rfl := Option.some.inj hit
  have hfirst : tx.firstByteSeq = s.txBuffer.firstByteSeq := congrArg ByteStream.head hcopied.view
  have hlen : item.size.toNat = item.packet.length := by
    have hle := hcopied.le
    have hlt := (stdMin n (s.txBuffer.sizeFromSequence seq)).isLt
    rw [TcpTxItem.size, BitVec.toNat_ofNat]
    omega
  have hplace := h.sized.copyFrom_place hcopy
  simp only [Transmission.stop, transmission, hlen]
  split at hplace
  · rename_i hretrans
    obtain ⟨hsame, hin⟩ := hplace
    exact ⟨hcopied.sized, hfirst, by rw [hsame], by rw [hsame]; omega,
      fun hfalse => absurd (hretrans.symm.trans hfalse) (by decide)⟩
  · obtain ⟨rfl, hgrown⟩ := hplace
    have hsub : s.txBuffer.firstByteSeq + s.txBuffer.sentSize - s.txBuffer.firstByteSeq =
        s.txBuffer.sentSize := by ring
    rw [hsub]
    exact ⟨hcopied.sized, hfirst, by omega, by omega, fun _ => rfl⟩

theorem Traced.sendDataPacket (h : Traced isn s)
    (hcare : s.Careful isn (.sendDataPacket now seq n))
    (hstep : s.step isn (.sendDataPacket now seq n) = some s') : Traced isn s' := by
  obtain ⟨⟨tx, outItem⟩, hcopy, hstep⟩ := Option.bind_eq_some_iff.mp hstep
  obtain ⟨item, rfl, rfl⟩ := Option.map_eq_some_iff.mp hstep
  obtain ⟨hsized, hfirst, hgrown, hstop, hnew⟩ := h.copied hcopy
  have hcare := hcare tx item hcopy
  simp only at hcare
  refine h.send hsized hfirst (h.transmission_seq seq item) (fun hprobed => ⟨hprobed, hstop, hgrown⟩)
    (fun r hr => mem_updateRttHistory hr) ?_
  by_cases hretrans : item.retrans = true
  · rw [if_pos hretrans] at hcare
    rw [hretrans]
    exact hcare.update
  rw [if_neg hretrans] at hcare
  rw [Bool.not_eq_true] at hretrans
  rw [hretrans, updateRttHistory, if_neg Bool.false_ne_true]
  by_cases hprobed : s.probed = true
  · exact shelters_none.mp (hcare hprobed)
  · rw [Bool.not_eq_true] at hprobed
    refine h.guarded.append h.recorded fun t ht => ?_
    rw [hnew hretrans]
    exact h.behind hprobed t ht

theorem Traced.sendSyn {again : Bool} (h : Traced isn s) (hcare : s.Careful isn (.sendSyn now again))
    (hstep : s.step isn (.sendSyn now again) = some s') : Traced isn s' := by
  obtain rfl := Option.some.inj hstep
  refine h.send h.sized rfl (by simp [syn]) (fun hprobed => ⟨hprobed, ?_, Nat.le_refl _⟩)
    (fun r hr => mem_updateRttHistory hr) ?_
  · simp [Transmission.stop, syn]
  cases again with
  | true => exact (hcare rfl).update
  | false =>
    -- no byte goes out
    have htimes (x : Nat) : times (s.sent ++ [syn isn now]) x = times s.sent x := by
      rw [times_append, if_neg (by simp [Transmission.carries, Transmission.stop, syn])]
      rfl
    intro j r hj hretx ⟨x, hlo, hhi, htwo⟩
    rw [htimes] at htwo
    rw [updateRttHistory, if_neg Bool.false_ne_true] at hj ⊢
    rcases Nat.lt_or_ge j s.history.length with hlt | hge
    · rw [List.getElem?_append_left hlt] at hj
      obtain ⟨i, q, hi, hq, hle⟩ := h.guarded j r hj hretx ⟨x, hlo, hhi, htwo⟩
      exact ⟨i, q, hi, by rw [List.getElem?_append_left (by omega), hq], hle⟩
    · rw [List.getElem?_append_right hge, List.getElem?_singleton] at hj
      obtain ⟨-, heq⟩ := Option.ite_none_right_eq_some.mp hj
      obtain rfl := Option.some.inj heq
      simp [RttHistory.new, Transmission.stop, syn] at hhi

theorem Traced.persistTimeout (h : Traced isn s) (hcare : s.Careful isn (.persistTimeout now seq))
    (hstep : s.step isn (.persistTimeout now seq) = some s') : Traced isn s' := by
  obtain ⟨⟨tx, outItem⟩, hcopy, hstep⟩ := Option.bind_eq_some_iff.mp hstep
  obtain ⟨item, rfl, rfl⟩ := Option.map_eq_some_iff.mp hstep
  obtain ⟨hsized, hfirst, -, -, -⟩ := h.copied hcopy
  obtain ⟨hsized, hview, -⟩ := hsized.resetLastSegmentSent
  have hkept : tx.resetLastSegmentSent.firstByteSeq = tx.firstByteSeq :=
    congrArg ByteStream.head hview
  exact h.send hsized (hkept.trans hfirst) (h.transmission_seq seq item) nofun
    (fun r hr => .inl hr) (shelters_none.mp (hcare tx item hcopy))

theorem Traced.step {call : SenderCall} (h : Traced isn s) (hcare : s.Careful isn call)
    (hstep : s.step isn call = some s') : Traced isn s' := by
  cases call with
  | sendDataPacket now seq maxSize => exact h.sendDataPacket hcare hstep
  | sendSyn now again => exact h.sendSyn hcare hstep
  | persistTimeout now seq => exact h.persistTimeout hcare hstep
  | reTxTimeout =>
    obtain rfl := Option.some.inj hstep
    exact { h with ends := by simp, recorded := by simp, guarded := .nil }
  | estimateRtt ackSeq =>
    obtain rfl := Option.some.inj hstep
    have hsub := (List.dropWhile_suffix (l := s.history)
      fun r => !gt (r.seq + r.count) ackSeq).subset
    exact
      { h with
        ends := fun r hr => h.ends r (hsub hr)
        recorded := fun r hr => h.recorded r (hsub hr)
        guarded := h.guarded.forget hcare }
  | add p =>
    obtain rfl := Option.some.inj hstep
    obtain ⟨hsized, -, -, hsent⟩ := h.sized.add p
    exact h.withBuffer hsized (by rw [hsent]; omega)
  | discardUpTo now seq =>
    obtain ⟨tx, hdiscard, rfl⟩ := Option.map_eq_some_iff.mp hstep
    exact h.withBuffer (h.sized.discardUpTo hdiscard).1 (h.sized.discardUpTo_sent hdiscard)
  | update blocks =>
    obtain ⟨⟨tx, sacked⟩, hupdate, rfl⟩ := Option.map_eq_some_iff.mp hstep
    exact h.rescored (Rescored.update hupdate)
  | markHeadAsLost =>
    obtain rfl := Option.some.inj hstep
    exact h.rescored (Rescored.markHeadAsLost _)
  | addRenoSack =>
    obtain ⟨tx, hadd, rfl⟩ := Option.map_eq_some_iff.mp hstep
    exact h.rescored (Rescored.addRenoSack hadd)
  | resetRenoSack =>
    obtain rfl := Option.some.inj hstep
    exact h.rescored (Rescored.resetRenoSack _)
  | setSentListLost resetSack =>
    obtain ⟨tx, hlost, rfl⟩ := Option.map_eq_some_iff.mp hstep
    exact h.rescored (Rescored.setSentListLost hlost)

end Sender

/-- In a run of careful calls what is measured is the time since a segment went out, none of whose
bytes went out again. -/
theorem measurements_obey_karn {isn ackSeq : SequenceNumber 32} {maxBuffer dupAckThresh : BitVec 32}
    {sackEnabled : Bool} {calls : List SenderCall} {s : Sender} {now m : Int}
    (hmax : maxBuffer.toNat < 2 ^ 31)
    (hcare : Transition.Along (Sender.step isn) (Sender.Careful isn)
      (.new isn maxBuffer dupAckThresh sackEnabled) calls)
    (hrun : Transition.exec (Sender.step isn) (.new isn maxBuffer dupAckThresh sackEnabled) calls =
      some s)
    (hm : measurement now ackSeq s.history = some m) : Karn isn s.sent now ackSeq m :=
  (Transition.along_invariant (P := Sender.Traced isn)
    (fun _ _ _ h hcare hstep => h.step hcare hstep) (.new hmax) hcare hrun).karn hm

theorem measurements_obey_karn_one : ∃ s : Sender, measurement 7 2 s.history = some 7 ∧
    Karn 0 s.sent 7 2 7 := by
  have hrun : (Transition.exec (Sender.step 0) (.new 0 100 3 true)
      [.add (.ones 1 (by decide)), .sendDataPacket 0 1 1]).bind
        (fun s => measurement 7 2 s.history) = some 7 := by decide +kernel
  obtain ⟨s, hs, hm⟩ := Option.bind_eq_some_iff.mp hrun
  have hcare : Transition.Along (Sender.step 0) (Sender.Careful 0) (.new 0 100 3 true)
      [.add (.ones 1 (by decide)), .sendDataPacket 0 1 1] := by
    refine ⟨trivial, fun s₁ hs₁ => ⟨fun tx item hcopy => ?_, fun _ _ => trivial⟩⟩
    obtain rfl := Option.some.inj hs₁
    have hretrans : (((TcpTxBuffer.add (.new 1 100 3 true) (.ones 1 (by decide))).1.copyFromSequence
        0 1 1).bind Prod.snd).map TcpTxItem.retrans = some false := by decide +kernel
    have hcopy : (TcpTxBuffer.add (.new 1 100 3 true) (.ones 1 (by decide))).1.copyFromSequence
        0 1 1 = some (tx, some item) := hcopy
    rw [hcopy] at hretrans
    have hnew : item.retrans = false := Option.some.inj hretrans
    simp only [hnew]
    exact fun hprobed => absurd hprobed (by decide)
  exact ⟨s, hm, measurements_obey_karn (by decide) hcare hs hm⟩

/-- Segments of one and of two bytes go out, and then the first two bytes again. The record of the
second segment is not marked. -/
theorem repeated_byte_measured : ∃ s : Sender,
    Transition.exec (Sender.step 0) (.new 0 100 3 true)
      [.add (.ones 1 (by decide)), .sendDataPacket 0 1 2, .add (.ones 2 (by decide)),
        .sendDataPacket 1 2 2, .sendDataPacket 2 1 2, .estimateRtt 3] = some s ∧
      measurement 10 4 s.history = some 9 ∧ ¬ Karn 0 s.sent 10 4 9 := by
  have hrun : (Transition.exec (Sender.step 0) (.new 0 100 3 true)
      [.add (.ones 1 (by decide)), .sendDataPacket 0 1 2, .add (.ones 2 (by decide)),
        .sendDataPacket 1 2 2, .sendDataPacket 2 1 2, .estimateRtt 3]).map
      (fun s => (s.sent, measurement 10 4 s.history)) =
        some ([⟨1, 1, 0, 1⟩, ⟨2, 2, 1, 2⟩, ⟨1, 2, 2, 1⟩], some 9) := by decide +kernel
  obtain ⟨s, hs, heq⟩ := Option.map_eq_some_iff.mp hrun
  obtain ⟨hsent, hm⟩ := Prod.mk.inj heq
  refine ⟨s, hs, hm, ?_⟩
  rw [hsent]
  rintro ⟨t, ht, htime, -, -, honce⟩
  have hsecond : t = ⟨2, 2, 1, 2⟩ := by
    simp only [List.mem_cons, List.not_mem_nil, or_false] at ht
    rcases ht with rfl | rfl | rfl
    · simp at htime
    · rfl
    · simp at htime
  have htwice := honce 2 (by rw [hsecond]; decide)
  exact absurd htwice (by decide)

end CudaNs3.Tcp
