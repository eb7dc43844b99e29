import CudaNs3.Tcp.RxFin
import CudaNs3.Tcp.SendRequests
import CudaNs3.Tcp.SocketRuns

/-!
# The FIN of the peer

The peer sends pieces of one stream, in any order and any number of times, and a FIN behind the
last byte. `PeerClose` records where the FIN is by the end of the payload, `ProcessWait` by its
start.
-/

namespace CudaNs3.Tcp

open SequenceNumber TcpRxBuffer TcpSocketBase Intervals Relation
set_option autoImplicit false

/-- The bytes that the application has read. -/
def delivered : List Entry → List UInt8
  | [] => []
  | ⟨_, .delivered bytes⟩ :: trace => delivered trace ++ bytes
  | _ :: trace => delivered trace

def Happening.synchronizes : Happening → Bool
  | .synchronized _ => true
  | _ => false

/-- A SYN of the peer has been answered. -/
def Synchronized (trace : List Entry) : Prop := ∃ e ∈ trace, e.happening.synchronizes

/-- What a socket has stored, and what has been read of it. -/
def reading (s : TcpSocketBase) (trace : List Entry) : Reading := ⟨s.rxBuffer, delivered trace⟩

/-- Less than half the circle lies between the start of a segment, or the first byte that is not yet
read, and a window above all that has arrived, with one more number for the FIN. -/
structure Recent (n : SequenceNumber 32) (r : Reading) (a b : Nat) : Prop where
  segment : b + r.rx.maxBuffer.toNat + 1 < min a r.out.length + 2 ^ 31
  read : r.out.length + r.rx.maxBuffer.toNat + 1 < min a r.out.length + 2 ^ 31
  blocks : ∀ block ∈ r.rx.data, r.out.length + r.offset n block.1 + block.2.length +
    r.rx.maxBuffer.toNat + 1 < min a r.out.length + 2 ^ 31

/-- A segment with the bytes of the stream `w` from `a` to `b`, where `n` is the first number. -/
structure FromPeer (n : SequenceNumber 32) (w : List UInt8) (seg : Segment) (a b : Nat) : Prop where
  le : a ≤ b
  bound : b ≤ w.length
  seq : seg.seq = at32 n a
  payload : seg.payload = piece w a b
  fin : seg.flags.fin → b = w.length

/-- What the peer sends: its SYN first, and then pieces of its stream with the FIN at the end. The
number behind the SYN is set again only while it is the one that is expected. -/
def Peer (n : SequenceNumber 32) (w : List UInt8) : Entry → List Entry → Prop
  | ⟨s, .received seg⟩, trace => s.reads seg → s.takesData seg → carries seg →
      Synchronized trace ∧ ∃ a b, FromPeer n w seg a b ∧ Recent n (reading s trace) a b
  | ⟨s, .synchronized seq⟩, trace => seq = n ∧ (Synchronized trace → s.rxBuffer.nextRxSeq = n)
  | _, _ => True

/-- No FIN behind a payload goes to `ProcessWait`, unless the FIN has been reached before. -/
def FinAlone : Entry → List Entry → Prop
  | ⟨s, .received seg⟩, _ => s.reads seg → s.waits → seg.flags.control = .FIN ||| .ACK →
      seg.payload ≠ [] → s.rxBuffer.finished
  | _, _ => True

section Decisions
variable (n : SequenceNumber 32) (w : List UInt8)

instance (trace : List Entry) : Decidable (Synchronized trace) :=
  inferInstanceAs (Decidable (∃ e ∈ trace, e.happening.synchronizes))

instance (r : Reading) (a b : Nat) : Decidable (Recent n r a b) :=
  decidable_of_iff
    (b + r.rx.maxBuffer.toNat + 1 < min a r.out.length + 2 ^ 31 ∧
      r.out.length + r.rx.maxBuffer.toNat + 1 < min a r.out.length + 2 ^ 31 ∧
        ∀ block ∈ r.rx.data, r.out.length + r.offset n block.1 + block.2.length +
          r.rx.maxBuffer.toNat + 1 < min a r.out.length + 2 ^ 31)
    ⟨fun h => ⟨h.1, h.2.1, h.2.2⟩, fun h => ⟨h.segment, h.read, h.blocks⟩⟩

instance (seg : Segment) (a b : Nat) : Decidable (FromPeer n w seg a b) :=
  decidable_of_iff
    (a ≤ b ∧ b ≤ w.length ∧ seg.seq = at32 n a ∧ seg.payload = piece w a b ∧
      (seg.flags.fin → b = w.length))
    ⟨fun h => ⟨h.1, h.2.1, h.2.2.1, h.2.2.2.1, h.2.2.2.2⟩,
      fun h => ⟨h.le, h.bound, h.seq, h.payload, h.fin⟩⟩

instance (seg : Segment) (r : Reading) : Decidable (∃ a b, FromPeer n w seg a b ∧ Recent n r a b) :=
  decidable_of_iff
    (∃ b ∈ List.range (w.length + 1), ∃ a ∈ List.range (b + 1), FromPeer n w seg a b ∧ Recent n r a b)
    ⟨fun ⟨b, _, a, _, h⟩ => ⟨a, b, h⟩, fun ⟨a, b, h⟩ => ⟨b, List.mem_range.mpr (Nat.lt_succ_of_le h.1.bound),
      a, List.mem_range.mpr (Nat.lt_succ_of_le h.1.le), h⟩⟩

instance (e : Entry) (trace : List Entry) : Decidable (Peer n w e trace) :=
  match e with
  | ⟨s, .received seg⟩ => inferInstanceAs (Decidable (s.reads seg → s.takesData seg → carries seg →
      Synchronized trace ∧ ∃ a b, FromPeer n w seg a b ∧ Recent n (reading s trace) a b))
  | ⟨s, .synchronized seq⟩ =>
    inferInstanceAs (Decidable (seq = n ∧ (Synchronized trace → s.rxBuffer.nextRxSeq = n)))
  | ⟨_, .state _⟩ | ⟨_, .sent _⟩ | ⟨_, .accepted _⟩ | ⟨_, .refused _⟩ | ⟨_, .delivered _⟩ | ⟨_, .bound⟩
  | ⟨_, .opening⟩ | ⟨_, .handshake⟩ | ⟨_, .acknowledged _⟩ | ⟨_, .dataPacket _ _ _ _⟩
  | ⟨_, .sendPendingData⟩ | ⟨_, .peerClose⟩ | ⟨_, .gaveUp⟩ => .isTrue trivial

instance (e : Entry) (trace : List Entry) : Decidable (FinAlone e trace) :=
  match e with
  | ⟨s, .received seg⟩ => inferInstanceAs (Decidable (s.reads seg → s.waits →
      seg.flags.control = .FIN ||| .ACK → seg.payload ≠ [] → s.rxBuffer.finished))
  | ⟨_, .state _⟩ | ⟨_, .sent _⟩ | ⟨_, .accepted _⟩ | ⟨_, .refused _⟩ | ⟨_, .delivered _⟩ | ⟨_, .bound⟩
  | ⟨_, .opening⟩ | ⟨_, .handshake⟩ | ⟨_, .synchronized _⟩ | ⟨_, .acknowledged _⟩
  | ⟨_, .dataPacket _ _ _ _⟩ | ⟨_, .sendPendingData⟩ | ⟨_, .peerClose⟩ | ⟨_, .gaveUp⟩ => .isTrue trivial

end Decisions

section Rx

/-- Nothing of the receiving side has changed. -/
structure SameRx (r r' : Snapshot) : Prop where
  rxBuffer : r'.socket.rxBuffer = r.socket.rxBuffer
  delivered : delivered r'.trace = delivered r.trace
  current : ∀ s₀ seg, Current r'.trace s₀ seg ↔ Current r.trace s₀ seg
  synchronized : Synchronized r'.trace ↔ Synchronized r.trace

theorem synchronized_cons {e : Entry} {tr : List Entry} :
    Synchronized (e :: tr) ↔ e.happening.synchronizes ∨ Synchronized tr := by
  simp [Synchronized]

theorem delivered_cons {e : Entry} {tr : List Entry} (h : ∀ bytes, e.happening = .delivered bytes → bytes = []) :
    delivered (e :: tr) = delivered tr := by
  obtain ⟨s, happening⟩ := e
  cases happening with
  | delivered bytes => rw [delivered, h bytes rfl, List.append_nil]
  | _ => rfl

theorem SameRx.trans {r r' r'' : Snapshot} (h : SameRx r r') (h' : SameRx r' r'') : SameRx r r'' where
  rxBuffer := h'.rxBuffer.trans h.rxBuffer
  delivered := h'.delivered.trans h.delivered
  current s₀ seg := (h'.current s₀ seg).trans (h.current s₀ seg)
  synchronized := h'.synchronized.trans h.synchronized

/-- Happenings of the sending side, and calls that read nothing. -/
def Happening.aside : Happening → Bool
  | .received _ | .synchronized _ => false
  | .delivered bytes => bytes = []
  | _ => true

theorem SameRx.cons {s t : TcpSocketBase} {e : Entry} {tr : List Entry} (hrx : t.rxBuffer = s.rxBuffer)
    (h : e.happening.aside) : SameRx ⟨s, tr⟩ ⟨t, e :: tr⟩ := by
  obtain ⟨u, happening⟩ := e
  refine ⟨hrx, delivered_cons ?_, fun s₀ seg => ?_, ?_⟩
  · rintro bytes rfl
    exact of_decide_eq_true h
  · cases happening with
    | received _ => cases h
    | _ => simp [Current, Happening.isReceived]
  · rw [synchronized_cons]
    cases happening with
    | synchronized _ => cases h
    | _ => simp [Happening.synchronizes]

theorem SameRx.same {s t : TcpSocketBase} {tr : List Entry} (hrx : t.rxBuffer = s.rxBuffer) :
    SameRx ⟨s, tr⟩ ⟨t, tr⟩ := ⟨hrx, rfl, fun _ _ => .rfl, .rfl⟩

/-- What can change on the receiving side. -/
inductive RxMove : Snapshot → Snapshot → Prop where
  | extracted {s tr n b bytes} (h : s.rxBuffer.extract n = some (b, bytes)) :
    RxMove ⟨s, tr⟩ ⟨{ s with rxBuffer := b }, ⟨{ s with rxBuffer := b }, .delivered bytes⟩ :: tr⟩
  | added {s tr s₀ seg b added} (heard : Processed tr s₀ seg) (takes : s₀.takesData seg)
    (carries : carries seg) (h : s.rxBuffer.add seg.seq seg.payload = some (b, added)) :
    RxMove ⟨s, tr⟩ ⟨{ s with rxBuffer := b }, tr⟩
  | fin {s tr s₀ seg seq} (heard : Processed tr s₀ seg) (takes : s₀.takesData seg)
    (carries : carries seg) (ends : Ends s₀ s seg seq) :
    RxMove ⟨s, tr⟩ ⟨{ s with rxBuffer := s.rxBuffer.setFinSequence seq }, tr⟩
  | next {s tr seq} :
    RxMove ⟨s, tr⟩ ⟨{ s with rxBuffer := { s.rxBuffer with nextRxSeq := seq } }, ⟨s, .synchronized seq⟩ :: tr⟩
  | received {s t tr seg} (h : t.rxBuffer = s.rxBuffer) : RxMove ⟨s, tr⟩ ⟨t, ⟨s, .received seg⟩ :: tr⟩

theorem heard_rxBuffer (s : TcpSocketBase) (seg : Segment) (e : EcnState) :
    (s.heard seg e).rxBuffer = s.rxBuffer := by
  unfold TcpSocketBase.heard readHeader updateWindowSize
  split
  · split
    · rfl
    · split
      · simp only
        split <;> rfl
      · rfl
  · rfl

theorem CallMove.rx {r r' : Snapshot} (h : CallMove r r') : SameRx r r' ∨ RxMove r r' := by
  cases h with
  | calm h => exact .inl (.same h.rxBuffer)
  | noted hh =>
    rename_i happening
    refine .inl (.cons rfl ?_)
    cases happening <;> simp_all [Happening.note, Happening.aside]
  | queued _ _ hh => exact .inl (.cons rfl (hh.elim (fun h => h ▸ rfl) fun h => h ▸ rfl))
  | extracted h => exact .inr (.extracted h)
  | scaled _ => exact .inl (.same rfl)
  | armed _ _ => exact .inl (.same rfl)
  | fin _ _ _ _ _ ht =>
    subst ht
    exact .inl ((SameRx.cons rfl rfl).trans (.cons rfl rfl))
  | deallocated =>
    refine .inl (.same ?_)
    unfold TcpSocketBase.deallocated
    split <;> rfl
  | opening _ => exact .inl ((SameRx.cons (t := _) rfl rfl).trans (.cons rfl rfl))
  | _ => exact .inl (.cons rfl rfl)

theorem Move.rx {r r' : Snapshot} (h : Move r r') : SameRx r r' ∨ RxMove r r' := by
  cases h with
  | silenced h => exact .inl (.same h.calm.rxBuffer)
  | resent hcalm _ _ => exact .inl (.cons hcalm.rxBuffer rfl)
  | closed => exact .inl (.cons rfl rfl)
  | basic h =>
    cases h with
    | call h => exact h.rx
    | data _ _ _ _ hcalm _ _ => exact .inl (.cons hcalm.rxBuffer rfl)
    | probe _ _ _ hcalm _ => exact .inl (.cons hcalm.rxBuffer rfl)
    | rearmed => exact .inl (.same rfl)
    | disarmed _ => exact .inl (.same rfl)
    | persisted => exact .inl (.same rfl)
    | answered _ => exact .inl (.same rfl)
    | awaited _ => exact .inl (.same rfl)
    | expired => exact .inl (.same rfl)
    | closeWait _ => exact .inl (.cons rfl rfl)
    | fork _ hf =>
      subst hf
      exact .inl ((SameRx.cons rfl rfl).trans (.cons rfl rfl))
    | rxAdded heard takes carries h => exact .inr (.added heard takes carries h)
    | rxFin heard takes carries ends => exact .inr (.fin heard takes carries ends)
    | rxNext => exact .inr .next
    | _ => exact .inl (.cons rfl rfl)

theorem RunMove.rx {r r' : Snapshot} (h : RunMove r r') : SameRx r r' ∨ RxMove r r' := by
  obtain ⟨e, s₀, h⟩ := h
  cases h with
  | move h => exact h.rx
  | received _ _ => exact .inr (.received (heard_rxBuffer _ _ _))

end Rx

/-- A bound above what has been read and what is stored. -/
structure Below (r : Reading) (l : List (Nat × Nat)) (a hi : Nat) : Prop where
  segment : a + 2 ^ 31 ≥ hi
  read : r.out.length + r.rx.maxBuffer.toNat + 1 < hi
  start : hi ≤ r.out.length + 2 ^ 31
  blocks : ∀ p ∈ l, p.2 + r.rx.maxBuffer.toNat + 1 < hi

/-- What is known of the segment that is being processed. -/
structure InHand (n : SequenceNumber 32) (w : List UInt8) (r : Reading) (l : List (Nat × Nat))
    (passed : Bool) (s₀ : TcpSocketBase) (seg : Segment) (a b : Nat) : Prop where
  peer : FromPeer n w seg a b
  below : ∃ hi, Below r l a hi ∧ b + r.rx.maxBuffer.toNat + 1 < hi
  alone : s₀.waits → seg.flags.control = .FIN ||| .ACK → seg.payload ≠ [] → passed

/-- The receive buffer by places once the SYN has been answered. -/
structure Known (n : SequenceNumber 32) (w : List UInt8) (r : Reading) (l : List (Nat × Nat)) (m : Nat)
    (k : List (Nat × Nat)) (passed : Bool) : Prop where
  places : FinPlaces n w r l m k passed
  near : ∀ p ∈ l, p.2 + 1 < r.out.length + 2 ^ 31
  fin : r.rx.gotFin → w.length < r.out.length + 2 ^ 31 ∧ (passed = false → r.rx.finSeq = at32 n w.length)
  passed : passed → m = w.length

namespace Known
variable {n : SequenceNumber 32} {w : List UInt8} {r : Reading} {l k : List (Nat × Nat)} {m : Nat}
  {passed : Bool}

theorem next_lt (h : Known n w r l m k passed) : m + 1 < r.out.length + 2 ^ 31 := by
  have hread : (r.bare n m).out.length < r.out.length + 2147483647 :=
    Nat.lt_add_of_pos_right (by decide)
  have hblocks : ∀ p ∈ l, p.2 < r.out.length + 2147483647 := by
    intro p hp
    have hp := h.near p hp
    omega
  have hlt := h.places.places.next_lt hread hblocks
  omega

/-- A buffer that says it is finished has passed the FIN. -/
theorem passed_of_finished (h : Known n w r l m k passed) (hfinished : r.rx.finished) : passed = true := by
  cases hp : passed with
  | true => rfl
  | false =>
    subst hp
    rw [TcpRxBuffer.finished, Bool.and_eq_true] at hfinished
    obtain ⟨hw, hseq⟩ := h.fin hfinished.1
    have hle := h.places.places.le
    have hout : (r.bare n m).out = r.out := rfl
    have hm := h.places.places.next_le
    have hnext := h.places.next
    simp only [Bool.false_eq_true, if_false, Nat.add_zero] at hnext
    rw [hout] at hle
    have hlt : lt (at32 n w.length) (at32 n m) = true := by
      rw [← hseq rfl, ← hnext]
      exact hfinished.2
    rw [lt_at32 (by omega) (by omega)] at hlt
    omega

/-- What the buffer holds when it says that it is finished. -/
theorem complete (h : Known n w r l m k passed) (hfinished : r.rx.finished) :
    r.rx.nextRxSeq = at32 n (w.length + 1) ∧ r.out <+: w ∧
      ∀ x < w.length, x < r.out.length ∨ Held n w r x := by
  have hpassed := h.passed_of_finished hfinished
  have hm := h.passed hpassed
  refine ⟨by rw [h.places.next, hm, hpassed, if_pos rfl], h.places.places.out, fun x hx => ?_⟩
  rcases Nat.lt_or_ge x r.out.length with hlt | hge
  · exact .inl hlt
  · exact .inr (h.places.places.held_iff.mpr (h.places.places.covered x hge (hm ▸ hx)))

theorem next_below (h : Known n w r l m k passed) {a hi : Nat} (hb : Below r l a hi) :
    m + r.rx.maxBuffer.toNat + 1 < hi := by
  have hread := hb.read
  have hstored : ∀ p ∈ l, p.2 < hi - (r.rx.maxBuffer.toNat + 1) := by
    intro p hp
    have hp := hb.blocks p hp
    omega
  have hlt : m < hi - (r.rx.maxBuffer.toNat + 1) :=
    h.places.places.next_lt (show r.out.length < _ by omega) hstored
  omega

/-- The bounds of a segment in terms of places. -/
theorem below (h : Known n w r l m k passed) {a b : Nat} (hr : Recent n r a b) :
    Below r l a (min a r.out.length + 2 ^ 31) where
  segment := by omega
  read := hr.read
  start := by omega
  blocks p hp := by
    have hp' : (at32 n p.1, piece w p.1 p.2) ∈ r.rx.data := by
      have hdata : r.rx.data = blocksOf n w l := h.places.places.data
      rw [hdata]
      exact List.mem_map_of_mem hp
    have hblock := hr.blocks _ hp'
    obtain ⟨hlo, hne⟩ := h.places.places.ascending.of_mem hp
    have hspan := h.places.places.span p hp
    have hout : (r.bare n m).out = r.out := rfl
    rw [hout] at hlo hspan
    rw [length_piece (h.places.places.within p hp), Places.offset_eq hlo (by omega)] at hblock
    omega

theorem outstanding (h : Known n w r l m k passed) {a b hi : Nat} (hb : Below r l a hi)
    (hend : b + r.rx.maxBuffer.toNat + 1 < hi) : Outstanding n r a b := by
  have hsegment := hb.segment
  have hread := hb.read
  have hstart := hb.start
  have hdata : r.rx.data = blocksOf n w l := h.places.places.data
  have hout : (r.bare n m).out = r.out := rfl
  have hplace : ∀ p ∈ l, r.offset n (at32 n p.1) = p.1 - r.out.length ∧ r.out.length ≤ p.1 ∧
      p.1 < p.2 ∧ (piece w p.1 p.2).length = p.2 - p.1 := by
    intro p hp
    obtain ⟨hlo, hne⟩ := h.places.places.ascending.of_mem hp
    have hspan := h.places.places.span p hp
    rw [hout] at hlo hspan
    exact ⟨Places.offset_eq hlo (by omega), hlo, hne, length_piece (h.places.places.within p hp)⟩
  refine ⟨by omega, by omega, fun block hblock => ?_, fun block hblock => ?_⟩
  · rw [hdata] at hblock
    obtain ⟨p, hp, rfl⟩ := List.mem_map.mp hblock
    obtain ⟨hoffset, hlo, hne, hlen⟩ := hplace p hp
    have hp := hb.blocks p hp
    rw [hoffset, hlen]
    omega
  · rw [hdata] at hblock
    obtain ⟨p, hp, rfl⟩ := List.mem_map.mp (List.mem_of_mem_head? hblock)
    obtain ⟨hoffset, hlo, hne, hlen⟩ := hplace p hp
    have hp := hb.blocks p hp
    rw [hoffset]
    omega

/-- The application reads. -/
theorem extract (h : Known n w r l m k passed) {maxSize : BitVec 32} {rx : TcpRxBuffer}
    {bytes : List UInt8} (hx : r.rx.extract maxSize = some (rx, bytes)) :
    ∃ l', Known n w ⟨rx, r.out ++ bytes⟩ l' m k passed ∧ (∀ p ∈ l', ∃ q ∈ l, p.2 = q.2) ∧
      rx.maxBuffer = r.rx.maxBuffer := by
  obtain ⟨rx', out, l', hrun, hplaces, -, hends, hmax, hgot, hseq⟩ := h.places.extract h.next_lt maxSize
  obtain ⟨rfl, rfl⟩ := Prod.mk.inj (Option.some.inj (hx.symm.trans hrun))
  have hlonger : r.out.length ≤ (r.out ++ bytes).length := by simp
  refine ⟨l', ⟨hplaces, fun p hp => ?_, fun hfin => ?_, h.passed⟩, hends, hmax⟩
  · obtain ⟨q, hq, heq⟩ := hends p hp
    have hq := h.near q hq
    rw [heq]
    exact Nat.lt_of_lt_of_le hq (Nat.add_le_add_right hlonger _)
  · obtain ⟨hw, hplace⟩ := h.fin (hgot ▸ hfin)
    exact ⟨Nat.lt_of_lt_of_le hw (Nat.add_le_add_right hlonger _), fun hp => hseq.trans (hplace hp)⟩

end Known

namespace InHand
variable {n : SequenceNumber 32} {w : List UInt8} {r r' : Reading} {l l' k : List (Nat × Nat)} {m a b : Nat}
  {passed passed' : Bool} {s₀ s : TcpSocketBase} {seg : Segment}

theorem extract (hin : InHand n w r l passed s₀ seg a b) (h : Known n w r l m k passed)
    (h' : Known n w r' l' m k passed) (hlonger : r.out.length ≤ r'.out.length)
    (hends : ∀ p ∈ l', ∃ q ∈ l, p.2 = q.2) (hmax : r'.rx.maxBuffer = r.rx.maxBuffer) :
    InHand n w r' l' passed s₀ seg a b := by
  obtain ⟨hi, hb, hend⟩ := hin.below
  have hnext := h.next_below hb
  have hread : r'.out.length ≤ m := h'.places.places.le
  have hstart := hb.start
  have hbelow : r'.out.length + r'.rx.maxBuffer.toNat + 1 < hi := by
    rw [hmax]
    omega
  refine ⟨hin.peer, ⟨hi, ⟨hb.segment, hbelow, by omega, fun p hp => ?_⟩, by rwa [hmax]⟩, hin.alone⟩
  obtain ⟨q, hq, heq⟩ := hends p hp
  rw [heq, hmax]
  exact hb.blocks q hq

/-- Nothing is read, and what is stored is stored before or comes from the segment. -/
theorem stored (hin : InHand n w r l passed s₀ seg a b) (hout : r'.out = r.out)
    (hmax : r'.rx.maxBuffer = r.rx.maxBuffer) (hpassed : passed → passed')
    (hends : ∀ p ∈ l', (∃ q ∈ l, p.2 = q.2) ∨ p.2 ≤ b) : InHand n w r' l' passed' s₀ seg a b := by
  obtain ⟨hi, hb, hend⟩ := hin.below
  refine ⟨hin.peer, ⟨hi, ⟨hb.segment, ?_, ?_, fun p hp => ?_⟩, by rwa [hmax]⟩, fun hw hc hp => ?_⟩
  · rw [hout, hmax]
    exact hb.read
  · rw [hout]
    exact hb.start
  · rw [hmax]
    rcases hends p hp with ⟨q, hq, heq⟩ | hle
    · rw [heq]
      exact hb.blocks q hq
    · omega
  · exact hpassed (hin.alone hw hc hp)

end InHand

namespace Known
variable {n : SequenceNumber 32} {w : List UInt8} {r : Reading} {l k : List (Nat × Nat)} {m a b : Nat}
  {passed : Bool} {s₀ s : TcpSocketBase} {seg : Segment}

/-- The payload is put into the buffer. -/
theorem add (h : Known n w r l m k passed) (hin : InHand n w r l passed s₀ seg a b) {rx : TcpRxBuffer}
    {ok : Bool} (hadd : r.rx.add seg.seq seg.payload = some (rx, ok)) :
    ∃ l' m' k' passed', Known n w { r with rx := rx } l' m' k' passed' ∧ (passed → passed') ∧
      (∀ p ∈ l', (∃ q ∈ l, p.2 = q.2) ∨ p.2 ≤ b) ∧ rx.maxBuffer = r.rx.maxBuffer := by
  obtain ⟨hi, hb, hend⟩ := hin.below
  have hstart := hb.start
  have ho := h.outstanding hb hend
  rw [hin.peer.seq, hin.peer.payload] at hadd
  cases passed with
  | true =>
    have hm := h.passed rfl
    have hnext := h.next_below hb
    have hsegment := hb.segment
    have hcut : Places.cut r.rx.maxBuffer l b ≤ m :=
      Nat.le_trans (Places.cut_le _ _ _) (hm ▸ hin.peer.bound)
    obtain ⟨rx', l', hrun, hplaces, hsub, -, hmax, hgot, hseq⟩ :=
      h.places.add_passed hin.peer.le hin.peer.bound ho (by omega) hcut
    obtain ⟨rfl, -⟩ := Prod.mk.inj (Option.some.inj (hadd.symm.trans hrun))
    refine ⟨l', m, k, true, ⟨hplaces, fun p hp => h.near p (hsub.subset hp), fun hfin => ?_, h.passed⟩,
      id, fun p hp => .inl ⟨p, hsub.subset hp, rfl⟩, hmax⟩
    have hw := (h.fin (hgot ▸ hfin)).1
    exact ⟨hw, fun hp => Bool.noConfusion hp⟩
  | false =>
    obtain ⟨rx', ok', l', m', k', hrun, hadded⟩ := h.places.add hin.peer.le hin.peer.bound ho
    obtain ⟨rfl, rfl⟩ := Prod.mk.inj (Option.some.inj (hadd.symm.trans hrun))
    have hends : ∀ p ∈ l', (∃ q ∈ l, p.2 = q.2) ∨ p.2 ≤ b := by
      intro p hp
      have hstored := hadded.stored
      split at hstored
      · obtain ⟨head, tail, hs⟩ := hstored
        obtain ⟨l₁, hsub, rfl, -, -⟩ := hs.places
        rcases mem_put.mp hp with rfl | hp
        · exact .inr (Nat.le_trans hs.tail_le (Places.cut_le _ _ _))
        · exact .inl ⟨p, hsub.subset hp, rfl⟩
      · exact .inl ⟨p, hstored.1.subset hp, rfl⟩
    have hnear : ∀ p ∈ l', p.2 + 1 < r.out.length + 2 ^ 31 := by
      intro p hp
      rcases hends p hp with ⟨q, hq, heq⟩ | hle
      · rw [heq]
        exact h.near q hq
      · omega
    have hout : r.out.length ≤ m' := hadded.fin.places.le
    have hbound := hadded.fin.places.next_le
    refine ⟨l', m', k', _, ⟨hadded.fin, hnear, fun hfin => ?_, fun hp => ?_⟩, by simp, hends,
      hadded.maxBuffer⟩
    · obtain ⟨hw, hplace⟩ := h.fin (hadded.gotFin ▸ hfin)
      exact ⟨hw, fun _ => hadded.finSeq.trans (hplace rfl)⟩
    · simp only [Bool.and_eq_true, decide_eq_true_eq] at hp
      obtain ⟨hw, hplace⟩ := h.fin hp.1.2
      have hat := hp.2
      rwa [hplace rfl, at32_inj (by omega) (by omega)] at hat

/-- The number of the FIN is recorded. -/
theorem setFinSequence (h : Known n w r l m k passed) (hin : InHand n w r l passed s₀ seg a b)
    (hrx : s.rxBuffer = r.rx) {seq : SequenceNumber 32} (hends : Ends s₀ s seg seq) :
    ∃ passed', Known n w { r with rx := r.rx.setFinSequence seq } l m k passed' ∧
      (passed → passed') := by
  obtain ⟨hi, hb, hend⟩ := hin.below
  have hsegment := hb.segment
  have hstart := hb.start
  have hread := hb.read
  have hnext := h.next_below hb
  have hle : r.out.length ≤ m := h.places.places.le
  have hm := h.places.places.next_le
  have hbound := hin.peer.bound
  have hab := hin.peer.le
  have hfrom := h.places.next
  -- a FIN that has not been passed is recorded behind the last byte
  have hplace : (passed = true ∧ at32 n (m + 1) ≠ seq) ∨ (b = w.length ∧ seq = at32 n w.length) := by
    rcases hends with ⟨rfl, hlt, hfin⟩ | ⟨rfl, hfin, hwaits, hcontrol⟩
    · have hsize : seg.seq + seg.size = at32 n b := by
        rw [hin.peer.seq, Segment.size, hin.peer.payload]
        exact at32_getSize hab hbound
      rcases hfin with hfin | hfinished
      · have hw := hin.peer.fin hfin
        exact .inr ⟨hw, by rw [hsize, hw]⟩
      · rw [hrx] at hfinished hlt
        obtain rfl := h.passed_of_finished hfinished
        have hw := h.passed rfl
        have hbelow : lt (at32 n a) (at32 n (m + 1)) = true := (lt_at32 (by omega) (by omega)).mpr (by omega)
        rw [hin.peer.seq, hfrom, if_pos rfl, hbelow] at hlt
        cases hlt
    · have hw := hin.peer.fin hfin
      by_cases hempty : seg.payload = []
      · rw [hin.peer.payload] at hempty
        have hlen := length_piece (a := a) hbound
        rw [hempty, List.length_nil] at hlen
        exact .inr ⟨hw, by rw [hin.peer.seq, show a = w.length by omega]⟩
      · have hpassed := hin.alone hwaits (hcontrol hempty) hempty
        have hmw := h.passed hpassed
        refine .inl ⟨hpassed, ?_⟩
        rw [hin.peer.seq, Ne, at32_inj (by omega) (by omega)]
        omega
  have hnot : passed = true → at32 n (m + 1) ≠ seq := by
    intro hp
    rcases hplace with ⟨-, hne⟩ | ⟨hw, rfl⟩
    · exact hne
    · have hmw := h.passed hp
      rw [Ne, at32_inj (by omega) (by omega)]
      omega
  have hset := h.places.setFinSequence seq hnot
  have hlast : w.length < r.out.length + 2 ^ 31 := by
    rcases hplace with ⟨hp, -⟩ | ⟨hw, -⟩
    · have hmw := h.passed hp
      omega
    · omega
  refine ⟨_, ⟨hset, h.near, fun _ => ⟨hlast, fun hq => ?_⟩, fun hp => ?_⟩, by simp +contextual⟩
  · rcases hplace with ⟨hp, -⟩ | ⟨hw, rfl⟩
    · simp [hp] at hq
    · unfold TcpRxBuffer.setFinSequence
      split <;> rfl
  · rw [Bool.or_eq_true, decide_eq_true_eq] at hp
    rcases hp with hp | hat
    · exact h.passed hp
    · rcases hplace with ⟨hp, -⟩ | ⟨hw, rfl⟩
      · exact h.passed hp
      · rwa [at32_inj (by omega) (by omega)] at hat

end Known

theorem extract_new (x : SequenceNumber 32) (size n : BitVec 32) :
    (TcpRxBuffer.new x size).extract n = some (.new x size, []) := by
  have hnone : stdMin n (TcpRxBuffer.new x size).availBytes = 0 := stdMin_zero n
  rw [TcpRxBuffer.extract, hnone]
  rfl

/-- The receiving side of a socket, before and after the SYN has been answered. -/
inductive Receiving (n : SequenceNumber 32) (w : List UInt8) (rx₀ : TcpRxBuffer) (r : Snapshot) : Prop where
  | waiting (fresh : ¬ Synchronized r.trace) (rx : r.socket.rxBuffer = rx₀) (out : delivered r.trace = [])
  | open (fresh : Synchronized r.trace) (l : List (Nat × Nat)) (m : Nat) (k : List (Nat × Nat))
    (passed : Bool) (known : Known n w (reading r.socket r.trace) l m k passed)
    (inHand : ∀ s₀ seg, Processed r.trace s₀ seg → s₀.takesData seg → carries seg →
      ∃ a b, InHand n w (reading r.socket r.trace) l passed s₀ seg a b)

/-- What is asked of a run. -/
def GoodEntry (n : SequenceNumber 32) (w : List UInt8) (e : Entry) (trace : List Entry) : Prop :=
  Peer n w e trace ∧ FinAlone e trace

section Run
variable {n : SequenceNumber 32} {w : List UInt8} {r r' : Snapshot} {size : BitVec 32}
  {x : SequenceNumber 32}

theorem Receiving.same {rx₀ : TcpRxBuffer} (h : Receiving n w rx₀ r) (hsame : SameRx r r') :
    Receiving n w rx₀ r' := by
  have hreading : reading r'.socket r'.trace = reading r.socket r.trace := by
    rw [reading, hsame.rxBuffer, hsame.delivered]
    rfl
  cases h with
  | waiting hfresh hrx hout =>
    exact .waiting (hsame.synchronized.not.mpr hfresh) (hsame.rxBuffer.trans hrx)
      (hsame.delivered.trans hout)
  | «open» hfresh l m k passed known inHand =>
    refine .open (hsame.synchronized.mpr hfresh) l m k passed (hreading ▸ known) ?_
    intro s₀ seg hp
    rw [hreading]
    exact inHand s₀ seg ⟨(hsame.current s₀ seg).mp hp.current, hp.reads⟩

/-- The entry of the segment that is being processed, with the trace before it. -/
theorem Current.entry {P : Entry → List Entry → Prop} {tr : List Entry} {s₀ : TcpSocketBase} {seg : Segment}
    (h : Current tr s₀ seg) (hgood : Along P tr) :
    ∃ before, before <:+ tr ∧ P ⟨s₀, .received seg⟩ before := by
  induction tr with
  | nil => cases h
  | cons e rest ih =>
    unfold Current at h
    rw [List.find?_cons] at h
    split at h
    · obtain rfl := Option.some.inj h
      exact ⟨rest, List.suffix_cons _ _, hgood.1⟩
    · obtain ⟨before, hsuffix, hentry⟩ := ih h hgood.2
      exact ⟨before, hsuffix.trans (List.suffix_cons _ _), hentry⟩

theorem Current.unique {tr : List Entry} {s₀ s₁ : TcpSocketBase} {seg seg' : Segment}
    (h : Current tr s₀ seg) (h' : Current tr s₁ seg') : s₀ = s₁ ∧ seg = seg' := by
  have heq := Option.some.inj (h.symm.trans h')
  simpa using heq

theorem Synchronized.mono {tr tr' : List Entry} (h : Synchronized tr) (hsuffix : tr <:+ tr') :
    Synchronized tr' := by
  obtain ⟨e, he, hs⟩ := h
  exact ⟨e, hsuffix.subset he, hs⟩

/-- Data is taken only when the SYN has been answered. -/
theorem synchronized_of_takes {tr : List Entry} {s₀ : TcpSocketBase} {seg : Segment}
    (hgood : Along (GoodEntry n w) tr) (hp : Processed tr s₀ seg) (htakes : s₀.takesData seg)
    (hcarries : carries seg) : Synchronized tr := by
  obtain ⟨before, hsuffix, hentry⟩ := hp.current.entry hgood
  exact (hentry.1 hp.reads htakes hcarries).1.mono hsuffix

theorem Receiving.move (hmove : RxMove r r') (hgood : Along (GoodEntry n w) r'.trace)
    (h : Receiving n w (.new x size) r) : Receiving n w (.new x size) r' := by
  cases hmove with
  | @extracted s tr _ rx bytes hx =>
    cases h with
    | waiting hfresh hrx hout =>
      rw [show s.rxBuffer = .new x size from hrx, extract_new] at hx
      obtain ⟨rfl, rfl⟩ := Prod.mk.inj (Option.some.inj hx)
      refine .waiting (fun hs => hfresh ((synchronized_cons.mp hs).resolve_left Bool.false_ne_true)) rfl ?_
      exact (List.append_nil _).trans hout
    | «open» hfresh l m k passed known inHand =>
      have hlonger : (delivered tr).length ≤ (delivered tr ++ bytes).length := by simp
      obtain ⟨l', known', hends, hmax⟩ := known.extract hx
      refine .open (synchronized_cons.mpr (.inr hfresh)) l' m k passed known' fun s₀ seg hp ht hc => ?_
      have hcurrent : Current tr s₀ seg := by simpa [Current, Happening.isReceived] using hp.current
      obtain ⟨a, b, hin⟩ := inHand s₀ seg ⟨hcurrent, hp.reads⟩ ht hc
      exact ⟨a, b, hin.extract known known' hlonger hends hmax⟩
  | @added s tr _ _ _ _ hp htakes hcarries hadd =>
    have hfresh := synchronized_of_takes hgood hp htakes hcarries
    cases h with
    | waiting hnot _ _ => exact absurd hfresh hnot
    | «open» _ l m k passed known inHand =>
      obtain ⟨a, b, hin⟩ := inHand _ _ hp htakes hcarries
      obtain ⟨l', m', k', passed', known', hpassed, hends, hmax⟩ := known.add hin hadd
      refine .open hfresh l' m' k' passed' known' fun s₀ seg' hp' ht hc => ?_
      obtain ⟨rfl, rfl⟩ := hp.current.unique hp'.current
      exact ⟨a, b, hin.stored rfl hmax hpassed hends⟩
  | @fin s tr _ _ _ hp htakes hcarries hends =>
    have hfresh := synchronized_of_takes hgood hp htakes hcarries
    cases h with
    | waiting hnot _ _ => exact absurd hfresh hnot
    | «open» _ l m k passed known inHand =>
      obtain ⟨a, b, hin⟩ := inHand _ _ hp htakes hcarries
      obtain ⟨passed', known', hpassed⟩ := known.setFinSequence hin rfl hends
      refine .open hfresh l m k passed' known' fun s₀ seg' hp' ht hc => ?_
      obtain ⟨rfl, rfl⟩ := hp.current.unique hp'.current
      refine ⟨a, b, hin.stored rfl ?_ hpassed fun p hp => .inl ⟨p, hp, rfl⟩⟩
      simp only [reading]
      unfold TcpRxBuffer.setFinSequence
      split <;> rfl
  | @next s tr seq =>
    obtain ⟨⟨rfl, hagain⟩, -⟩ := hgood.1
    have hsync : Synchronized (⟨s, .synchronized seq⟩ :: tr) := synchronized_cons.mpr (.inl rfl)
    have hcurrent {s₀ : TcpSocketBase} {seg : Segment}
        (h : Current (⟨s, .synchronized seq⟩ :: tr) s₀ seg) : Current tr s₀ seg := by
      simpa [Current, Happening.isReceived] using h
    cases h with
    | waiting hfresh hrx hout =>
      refine .open hsync [] 0 [] false ?_ fun s₀ seg' hp ht hc => ?_
      · have hreading : reading { s with rxBuffer := { s.rxBuffer with nextRxSeq := seq } }
            (⟨s, .synchronized seq⟩ :: tr) = ⟨.new seq size, []⟩ := by
          rw [reading, show s.rxBuffer = .new x size from hrx]
          exact congrArg (Reading.mk _) hout
        rw [hreading]
        exact ⟨.new seq w size, fun p hp => absurd hp List.not_mem_nil,
          fun hfin => absurd hfin Bool.false_ne_true, fun hpassed => absurd hpassed Bool.false_ne_true⟩
      · exact absurd (synchronized_of_takes hgood.2 ⟨hcurrent hp.current, hp.reads⟩ ht hc) hfresh
    | «open» hfresh l m k passed known inHand =>
      have hreading : reading { s with rxBuffer := { s.rxBuffer with nextRxSeq := seq } }
          (⟨s, .synchronized seq⟩ :: tr) = reading s tr := by
        refine congrArg (Reading.mk · (delivered tr)) ?_
        simp only [← hagain hfresh]
      refine .open hsync l m k passed (hreading ▸ known) fun s₀ seg' hp ht hc => ?_
      rw [hreading]
      exact inHand s₀ seg' ⟨hcurrent hp.current, hp.reads⟩ ht hc
  | @received s t tr seg hrx =>
    obtain ⟨⟨hpeer, halone⟩, -⟩ := hgood
    have hreading : reading t (⟨s, .received seg⟩ :: tr) = reading s tr := by
      rw [reading, hrx]
      rfl
    cases h with
    | waiting hfresh hrx' hout =>
      exact .waiting (fun hs => hfresh ((synchronized_cons.mp hs).resolve_left Bool.false_ne_true)) (hrx.trans hrx') hout
    | «open» hfresh l m k passed known inHand =>
      refine .open (synchronized_cons.mpr (.inr hfresh)) l m k passed (hreading ▸ known) ?_
      intro s₀ seg' hp ht hc
      have hhead : Current (⟨s, .received seg⟩ :: tr) s seg := by simp [Current, Happening.isReceived]
      obtain ⟨rfl, rfl⟩ := hhead.unique hp.current
      obtain ⟨-, a, b, hfrom, hrecent⟩ := hpeer hp.reads ht hc
      rw [hreading]
      refine ⟨a, b, hfrom, ⟨_, known.below hrecent, hrecent.segment⟩, fun hw hcontrol hsome => ?_⟩
      exact known.passed_of_finished (halone hp.reads hw hcontrol hsome)

theorem Receiving.step (hmove : RunMove r r') (hgood : Along (GoodEntry n w) r'.trace)
    (h : Receiving n w (.new x size) r) : Receiving n w (.new x size) r' := by
  rcases hmove.rx with hsame | hrx
  · exact h.same hsame
  · exact h.move hrx hgood

/-- A FIN takes one number behind the last byte, in every run in which no FIN comes behind a payload
to `ProcessWait` before it has been reached. -/
theorem fin_takes_one {a : Attributes} {m : Machine} (h : Reaches a m)
    (hpeer : Along (Peer n w) m.trace) (halone : Along FinAlone m.trace)
    (hfinished : m.socket.rxBuffer.finished) :
    m.socket.rxBuffer.nextRxSeq = at32 n (w.length + 1) ∧ delivered m.trace <+: w ∧
      ∀ x < w.length, x < (delivered m.trace).length ∨ Held n w (reading m.socket m.trace) x := by
  have hstart : Receiving n w (.new 0 a.rcvBufSize) (Machine.start a).snapshot :=
    .waiting (by simp [Synchronized, Machine.start, Machine.snapshot]) rfl rfl
  have hend := moves_keep (fun _ _ => Receiving.step) (reaches_moves h) (hpeer.and halone) hstart
  cases hend with
  | waiting _ hrx _ =>
    rw [show m.socket.rxBuffer = .new 0 a.rcvBufSize from hrx] at hfinished
    cases hfinished
  | «open» _ l m' k passed known _ => exact known.complete hfinished

/-- A FIN behind one byte. -/
def finBehindByte : Segment := ⟨.FIN ||| .ACK, 1, 1, 100, none, false, false, [], [5]⟩

/-- The FIN is received in `ESTABLISHED`. -/
theorem fin_takes_one_established : ∃ m, Reaches bytewise m ∧
    m.socket.rxBuffer.nextRxSeq = at32 1 2 := by
  obtain ⟨m, hreach, hm⟩ := reaches_any (a := bytewise)
    (p := fun m => Along (Peer 1 [5]) m.trace ∧ Along FinAlone m.trace ∧ m.socket.rxBuffer.finished)
    [plain (.call (.connect true true)), plain (.forwardUp .notEct (synAck 100)),
      plain (.forwardUp .notEct finBehindByte)] (by decide +kernel)
  obtain ⟨hpeer, halone, hfinished⟩ := of_decide_eq_true hm
  exact ⟨m, hreach, (fin_takes_one hreach hpeer halone hfinished).1⟩

/-- In `FIN_WAIT_1` the same segment leaves the number of its FIN expected. -/
theorem fin_not_counted : ∃ m, Reaches bytewise m ∧ Along (Peer 1 [5]) m.trace ∧
    m.socket.rxBuffer.finished ∧ m.socket.rxBuffer.nextRxSeq ≠ at32 1 2 := by
  obtain ⟨m, hreach, hm⟩ := reaches_any (a := bytewise)
    (p := fun m => Along (Peer 1 [5]) m.trace ∧ m.socket.rxBuffer.finished ∧
      m.socket.rxBuffer.nextRxSeq ≠ at32 1 2)
    [plain (.call (.connect true true)), plain (.forwardUp .notEct (synAck 100)), plain (.call .close),
      plain (.forwardUp .notEct finBehindByte)] (by decide +kernel)
  exact ⟨m, hreach, of_decide_eq_true hm⟩

end Run

end CudaNs3.Tcp
