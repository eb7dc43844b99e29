import CudaNs3.Applications.PacketSink
import CudaNs3.Lib.Transition

/-!
# Bulk transfers

`SendData` offers a stream to the socket in packets of `SendSize` bytes, the last one shorter,
and keeps what the socket did not take for the next call. The bytes are named by their places in
the stream the application creates, so that a packet is a list of places. The values that
`Socket::Send` returns are the environment's.
-/

namespace CudaNs3.Applications

set_option autoImplicit false

/-- The attributes, with the ranges of their checkers and types. -/
structure BulkSendAttributes where
  m_sendSize : Nat
  m_maxBytes : Nat
  m_enableSeqTsSizeHeader : Bool
  sendSize_pos : 1 ≤ m_sendSize
  sendSize_lt : m_sendSize < 2 ^ 32
  maxBytes_lt : m_maxBytes < 2 ^ 64

/-- The bytes of a packet as places in the stream. -/
abbrev StreamPacket := List Nat

structure BulkSendApplication where
  m_connected : Bool := false
  m_totBytes : Nat := 0
  m_seq : Nat := 0
  m_unsentPacket : Option StreamPacket := none
  deriving DecidableEq, Repr

/-- What the application does: the two traces, the packets it offers, the closing of the
socket. -/
inductive BulkSendOutput where
  | txWithSeqTsSize (seq size : Nat)
  | send (packet : StreamPacket)
  | tx (packet : StreamPacket)
  | close
  deriving DecidableEq, Repr

/-- What happens to the application: `returned` is the end of a call of `Socket::Send`. -/
inductive BulkSendInput where
  | connectionSucceeded
  | dataSend
  | stop
  | returned (actual : Int)
  deriving DecidableEq, Repr

/-- The application between two inputs: the packet that the socket is being offered, whether an
abort was reached, how many bytes were put into packets and which the socket has accepted. -/
structure BulkSend where
  app : BulkSendApplication := {}
  sending : Option StreamPacket := none
  aborted : Bool := false
  created : Nat := 0
  accepted : List Nat := []
  deriving DecidableEq, Repr

namespace BulkSend

section Source

/-- `(unsigned) actual` -/
def asUnsigned (actual : Int) : Nat := (actual % 2 ^ 32).toNat

/-- A size as the `int` that `Socket::Send` returns. -/
def asInt (size : Nat) : Int := (size : Int).bmod (2 ^ 32)

/-- `m_totBytes += actual`, where an `int` is added to a `uint64_t`. -/
def addBytes (totBytes : Nat) (actual : Int) : Nat := ((totBytes + actual) % 2 ^ 64).toNat

def createFragment (packet : StreamPacket) (start length : Nat) : StreamPacket :=
  (packet.drop start).take length

variable (a : BulkSendAttributes) (s : BulkSend)

/-- The end of `SendData`: time to close, when all is sent. -/
def finish : BulkSend × List BulkSendOutput :=
  if s.app.m_totBytes = a.m_maxBytes ∧ s.app.m_connected then
    ({ s with app := { s.app with m_connected := false } }, [.close])
  else (s, [])

/-- `SendData` up to the next call of `Socket::Send`, or to its end. -/
def sendData : BulkSend × List BulkSendOutput :=
  if a.m_maxBytes = 0 ∨ s.app.m_totBytes < a.m_maxBytes then
    let toSend :=
      if 0 < a.m_maxBytes then min a.m_sendSize (a.m_maxBytes - s.app.m_totBytes)
      else a.m_sendSize
    match s.app.m_unsentPacket with
    | some packet => ({ s with sending := some packet }, [.send packet])
    | none =>
      let packet := List.range' s.created toSend
      if a.m_enableSeqTsSizeHeader then
        let counted := { s with app := { s.app with m_seq := (s.app.m_seq + 1) % 2 ^ 32 } }
        if toSend < SeqTsSizeHeader.getSerializedSize then ({ counted with aborted := true }, [])
        else ({ counted with sending := some packet, created := s.created + toSend },
          [.txWithSeqTsSize s.app.m_seq toSend, .send packet])
      else ({ s with sending := some packet, created := s.created + toSend }, [.send packet])
  else finish a s

/-- `SendData` from the return of `Socket::Send (packet)` on. -/
def sendReturned (packet : StreamPacket) (actual : Int) : BulkSend × List BulkSendOutput :=
  -- what the socket took, whatever the application makes of the number
  let taken := if actual = -1 then [] else packet.take (asUnsigned actual)
  let back := { s with sending := none, accepted := s.accepted ++ taken }
  if asUnsigned actual = packet.length then
    let counted := { back with app := { back.app with
      m_totBytes := addBytes back.app.m_totBytes actual, m_unsentPacket := none } }
    ((sendData a counted).1, .tx packet :: (sendData a counted).2)
  else if actual = -1 then
    finish a { back with app := { back.app with m_unsentPacket := some packet } }
  else if 0 < actual ∧ asUnsigned actual < packet.length then
    let sent := createFragment packet 0 (asUnsigned actual)
    let unsent :=
      createFragment packet (asUnsigned actual) (packet.length - asUnsigned actual)
    let counted := { back with app := { back.app with
      m_totBytes := addBytes back.app.m_totBytes actual, m_unsentPacket := some unsent } }
    ((finish a counted).1, .tx sent :: (finish a counted).2)
  else ({ back with aborted := true }, [])

/-- One input; `none` where it cannot occur: `Socket::Send` returns once to each call, the
callbacks come between the calls, and nothing follows an abort. -/
def perform : BulkSendInput → Option (BulkSend × List BulkSendOutput)
  | .connectionSucceeded =>
    if s.aborted ∨ s.sending.isSome then none
    else some (sendData a { s with app := { s.app with m_connected := true } })
  | .dataSend =>
    if s.aborted ∨ s.sending.isSome then none
    else if s.app.m_connected then some (sendData a s)
    else some (s, [])
  | .stop =>
    if s.aborted ∨ s.sending.isSome then none
    else some ({ s with app := { s.app with m_connected := false } }, [.close])
  | .returned actual =>
    if s.aborted then none else s.sending.map fun packet => sendReturned a s packet actual

def step (input : BulkSendInput) : Option BulkSend := (perform a s input).map Prod.fst

/-- `Socket::Send` took the whole packet, nothing, or a part. -/
def Answers (s : BulkSend) : BulkSendInput → Prop
  | .returned actual => ∀ packet ∈ s.sending,
    actual = asInt packet.length ∨ actual = -1 ∨ (0 < actual ∧ actual < packet.length)
  | _ => True

instance Answers.decidable (s : BulkSend) : (input : BulkSendInput) → Decidable (Answers s input)
  | .returned _ => inferInstanceAs (Decidable (∀ packet ∈ s.sending, _))
  | .connectionSucceeded | .dataSend | .stop => .isTrue trivial

end Source

variable {a : BulkSendAttributes} {s t : BulkSend} {outputs : List BulkSendOutput}

/-- What holds between two calls of `Socket::Send`: the bytes in packets are those accepted and
those of the cached packet, and they end at a packet's end. -/
structure Between (a : BulkSendAttributes) (s : BulkSend) : Prop where
  running : s.aborted = false
  idle : s.sending = none
  accepted_eq : s.accepted = List.range s.app.m_totBytes
  tot_le : s.app.m_totBytes ≤ s.created
  created_le : s.created ≤ a.m_maxBytes
  aligned : s.created = a.m_maxBytes ∨ a.m_sendSize ∣ s.created
  chunk : s.created - s.app.m_totBytes < 2 ^ 31
  cached : ∀ packet, s.app.m_unsentPacket = some packet →
    s.app.m_totBytes < s.created ∧
      packet = List.range' s.app.m_totBytes (s.created - s.app.m_totBytes)
  fresh : s.app.m_unsentPacket = none → s.created = s.app.m_totBytes

/-- What holds while the socket is offered a packet: it is what is left of the bytes in
packets. -/
structure Offering (a : BulkSendAttributes) (s : BulkSend) (packet : StreamPacket) : Prop where
  running : s.aborted = false
  offered : s.sending = some packet
  connected : s.app.m_connected = true
  accepted_eq : s.accepted = List.range s.app.m_totBytes
  tot_lt : s.app.m_totBytes < s.created
  created_le : s.created ≤ a.m_maxBytes
  aligned : s.created = a.m_maxBytes ∨ a.m_sendSize ∣ s.created
  chunk : s.created - s.app.m_totBytes < 2 ^ 31
  packet_eq : packet = List.range' s.app.m_totBytes (s.created - s.app.m_totBytes)

/-- In every state a packet is on offer, or the application is connected only while bytes are
outstanding. -/
def Inv (a : BulkSendAttributes) (s : BulkSend) : Prop :=
  (Between a s ∧ (s.app.m_connected = true → s.app.m_totBytes < a.m_maxBytes)) ∨
    ∃ packet, Offering a s packet

theorem finish_spec (h : Between a s) :
    Inv a (finish a s).1 ∧ (finish a s).1.app.m_totBytes = s.app.m_totBytes ∧
      (s.app.m_connected = true →
        (.close ∈ (finish a s).2 ↔ s.app.m_totBytes = a.m_maxBytes)) := by
  unfold finish
  split_ifs with hdone
  · refine ⟨Or.inl ⟨⟨h.running, h.idle, h.accepted_eq, h.tot_le, h.created_le, h.aligned,
      h.chunk, h.cached, h.fresh⟩, fun hc => absurd hc Bool.false_ne_true⟩, rfl, fun _ => ?_⟩
    exact iff_of_true List.mem_cons_self hdone.1
  · have hlt (hc : s.app.m_connected = true) : s.app.m_totBytes < a.m_maxBytes :=
      lt_of_le_of_ne (h.tot_le.trans h.created_le) fun heq => hdone ⟨heq, hc⟩
    exact ⟨Or.inl ⟨h, hlt⟩, rfl, fun hc => iff_of_false List.not_mem_nil (hlt hc).ne⟩

/-- The last packet, where it is shorter than the others, has room for its header, and no
packet is too large for an `int`. -/
def Fits (a : BulkSendAttributes) : Prop :=
  min a.m_sendSize a.m_maxBytes < 2 ^ 31 ∧
    (a.m_enableSeqTsSizeHeader = true → a.m_maxBytes % a.m_sendSize = 0 ∨
      SeqTsSizeHeader.getSerializedSize ≤ a.m_maxBytes % a.m_sendSize)

instance (a : BulkSendAttributes) : Decidable (Fits a) := inferInstanceAs (Decidable (_ ∧ _))

/-- The packet that is created once everything before it is accepted. -/
theorem toSend_spec (h : Between a s) (hfresh : s.app.m_unsentPacket = none)
    (hlt : s.app.m_totBytes < a.m_maxBytes) (hfits : Fits a)
    (hsize : a.m_enableSeqTsSizeHeader = true →
      SeqTsSizeHeader.getSerializedSize ≤ a.m_sendSize) :
    let toSend := min a.m_sendSize (a.m_maxBytes - s.app.m_totBytes)
    0 < toSend ∧ toSend < 2 ^ 31 ∧
      (s.created + toSend = a.m_maxBytes ∨ a.m_sendSize ∣ s.created + toSend) ∧
      (a.m_enableSeqTsSizeHeader = true → SeqTsSizeHeader.getSerializedSize ≤ toSend) := by
  intro toSend
  have hpos := a.sendSize_pos
  have hcreated := h.fresh hfresh
  have hdvd : a.m_sendSize ∣ s.app.m_totBytes := by
    rcases h.aligned with heq | hdvd
    · omega
    · rwa [hcreated] at hdvd
  obtain ⟨k, hk⟩ := hdvd
  have hchunk : toSend ≤ min a.m_sendSize a.m_maxBytes := by omega
  refine ⟨by omega, lt_of_le_of_lt hchunk hfits.1, ?_, fun henable => ?_⟩
  · by_cases hfull : a.m_sendSize ≤ a.m_maxBytes - s.app.m_totBytes
    · right
      have htoSend : toSend = a.m_sendSize := min_eq_left hfull
      rw [htoSend, hcreated, hk]
      exact ⟨k + 1, (Nat.mul_succ _ _).symm⟩
    · left
      omega
  · by_cases hfull : a.m_sendSize ≤ a.m_maxBytes - s.app.m_totBytes
    · have htoSend : toSend = a.m_sendSize := min_eq_left hfull
      rw [htoSend]
      exact hsize henable
    · have htoSend : toSend = a.m_maxBytes - s.app.m_totBytes := min_eq_right (by omega)
      have hmod : a.m_maxBytes % a.m_sendSize = toSend := by
        rw [show a.m_maxBytes = toSend + a.m_sendSize * k by omega, Nat.add_mul_mod_self_left]
        exact Nat.mod_eq_of_lt (by omega)
      rcases hfits.2 henable with hzero | hle
      · omega
      · omega

/-- `SendData` as far as the next call of `Socket::Send`: it offers the bytes that follow those
accepted, or there are none left and it closes the socket. -/
theorem sendData_spec (h : Between a s) (hconnected : s.app.m_connected = true)
    (hmax : 0 < a.m_maxBytes) (hfits : Fits a)
    (hsize : a.m_enableSeqTsSizeHeader = true →
      SeqTsSizeHeader.getSerializedSize ≤ a.m_sendSize) :
    Inv a (sendData a s).1 ∧ (sendData a s).1.app.m_totBytes = s.app.m_totBytes ∧
      (.close ∈ (sendData a s).2 ↔ s.app.m_totBytes = a.m_maxBytes) := by
  unfold sendData
  by_cases hlt : s.app.m_totBytes < a.m_maxBytes
  · rw [if_pos (Or.inr hlt)]
    have hne : s.app.m_totBytes ≠ a.m_maxBytes := hlt.ne
    cases hunsent : s.app.m_unsentPacket with
    | some packet =>
      obtain ⟨htot, heq⟩ := h.cached packet hunsent
      have hoffer : Offering a { s with sending := some packet } packet :=
        ⟨h.running, rfl, hconnected, h.accepted_eq, htot, h.created_le, h.aligned, h.chunk, heq⟩
      exact ⟨Or.inr ⟨packet, hoffer⟩, rfl, iff_of_false (by simp) hne⟩
    | none =>
      obtain ⟨hpos, hchunk, haligned, hroom⟩ := toSend_spec h hunsent hlt hfits hsize
      have hcreated := h.fresh hunsent
      simp only [if_pos hmax]
      generalize htoSend : min a.m_sendSize (a.m_maxBytes - s.app.m_totBytes) = toSend
        at hpos hchunk haligned hroom
      have hpacket : List.range' s.created toSend =
          List.range' s.app.m_totBytes (s.created + toSend - s.app.m_totBytes) := by
        rw [hcreated, Nat.add_sub_cancel_left]
      split_ifs with henable hshort
      · exact absurd (hroom henable) (by omega)
      · refine ⟨Or.inr ⟨_, ⟨h.running, rfl, hconnected, h.accepted_eq, ?_, ?_, haligned, ?_,
          hpacket⟩⟩, rfl, iff_of_false (by simp) hne⟩
        · exact show s.app.m_totBytes < s.created + toSend by omega
        · exact show s.created + toSend ≤ a.m_maxBytes by omega
        · exact show s.created + toSend - s.app.m_totBytes < 2 ^ 31 by omega
      · refine ⟨Or.inr ⟨_, ⟨h.running, rfl, hconnected, h.accepted_eq, ?_, ?_, haligned, ?_,
          hpacket⟩⟩, rfl, iff_of_false (by simp) hne⟩
        · exact show s.app.m_totBytes < s.created + toSend by omega
        · exact show s.created + toSend ≤ a.m_maxBytes by omega
        · exact show s.created + toSend - s.app.m_totBytes < 2 ^ 31 by omega
  · rw [if_neg (by omega)]
    obtain ⟨hinv, htot, hclose⟩ := finish_spec h
    exact ⟨hinv, htot, hclose hconnected⟩

theorem asInt_of_lt {n : Nat} (h : n < 2 ^ 31) : asInt n = n :=
  Int.bmod_eq_of_le (by omega) (by omega)

theorem asUnsigned_natCast {n : Nat} (h : n < 2 ^ 31) : asUnsigned n = n := by
  rw [asUnsigned, Int.emod_eq_of_lt (by omega) (by omega), Int.toNat_natCast]

theorem addBytes_of_lt {tot n : Nat} (h : tot + n < 2 ^ 64) : addBytes tot n = tot + n := by
  rw [addBytes, Int.emod_eq_of_lt (by omega) (by omega)]
  omega

/-- The state after the socket has taken the first `n` bytes of the packet on offer. -/
def took (s : BulkSend) (packet : StreamPacket) (n : Nat) (unsent : Option StreamPacket) :
    BulkSend :=
  { s with
    sending := none
    accepted := s.accepted ++ packet.take n
    app := { s.app with m_totBytes := s.app.m_totBytes + n, m_unsentPacket := unsent } }

theorem between_took {packet : StreamPacket} {n : Nat} {unsent : Option StreamPacket}
    (h : Offering a s packet) (hn : n ≤ packet.length)
    (hcached : ∀ p, unsent = some p → n < packet.length ∧ p = packet.drop n)
    (hfresh : unsent = none → n = packet.length) : Between a (took s packet n unsent) := by
  have htot := h.tot_lt
  have hchunk := h.chunk
  have hlength : packet.length = s.created - s.app.m_totBytes := by
    rw [h.packet_eq, List.length_range']
  refine ⟨h.running, rfl, ?_, ?_, h.created_le, h.aligned, ?_, fun p hp => ?_, fun hp => ?_⟩
  · have htake : packet.take n = List.range' s.app.m_totBytes n := by
      rw [h.packet_eq, List.take_range'_of_length_ge (by omega)]
    have happend := List.range'_append_1 (s := 0) (m := s.app.m_totBytes) (n := n)
    rw [Nat.zero_add] at happend
    rw [took, htake, h.accepted_eq, List.range_eq_range', List.range_eq_range', happend]
  · exact show s.app.m_totBytes + n ≤ s.created by omega
  · exact show s.created - (s.app.m_totBytes + n) < 2 ^ 31 by omega
  · obtain ⟨hlt, rfl⟩ := hcached p hp
    refine ⟨show s.app.m_totBytes + n < s.created by omega, ?_⟩
    rw [h.packet_eq, List.drop_range', Nat.mul_one, Nat.sub_sub]
    rfl
  · have := hfresh hp
    exact show s.created = s.app.m_totBytes + n by omega

section Returned
variable {packet : StreamPacket} {n : Nat}

theorem sendReturned_whole (hn : packet.length < 2 ^ 31)
    (htot : s.app.m_totBytes + packet.length < 2 ^ 64) :
    sendReturned a s packet packet.length =
      ((sendData a (took s packet packet.length none)).1,
        .tx packet :: (sendData a (took s packet packet.length none)).2) := by
  have hne : (packet.length : Int) ≠ -1 := by omega
  simp only [sendReturned, asUnsigned_natCast hn, if_neg hne, addBytes_of_lt htot]
  rfl

theorem sendReturned_none (hn : packet.length < 2 ^ 31) :
    sendReturned a s packet (-1) = finish a (took s packet 0 (some packet)) := by
  have hne : asUnsigned (-1) ≠ packet.length := by
    have hval : asUnsigned (-1) = 2 ^ 32 - 1 := rfl
    omega
  simp only [sendReturned, if_neg hne]
  rfl

theorem sendReturned_part (hpos : 0 < n) (hlt : n < packet.length) (hn : packet.length < 2 ^ 31)
    (htot : s.app.m_totBytes + n < 2 ^ 64) :
    sendReturned a s packet n =
      ((finish a (took s packet n (some (packet.drop n)))).1,
        .tx (createFragment packet 0 n) ::
          (finish a (took s packet n (some (packet.drop n)))).2) := by
  have hne : (n : Int) ≠ -1 := by omega
  have hrest : createFragment packet n (packet.length - n) = packet.drop n :=
    List.take_of_length_le (by rw [List.length_drop])
  simp only [sendReturned, asUnsigned_natCast (show n < 2 ^ 31 by omega), if_neg hne,
    addBytes_of_lt htot, if_neg hlt.ne, if_pos (show 0 < (n : Int) ∧ n < packet.length by omega),
    hrest]
  rfl

/-- The return of `Socket::Send`: what it took is appended to the bytes accepted, and the rest
is offered next. -/
theorem sendReturned_spec {actual : Int} (h : Offering a s packet)
    (hanswer : actual = asInt packet.length ∨ actual = -1 ∨ (0 < actual ∧ actual < packet.length))
    (hmax : 0 < a.m_maxBytes) (hfits : Fits a)
    (hsize : a.m_enableSeqTsSizeHeader = true →
      SeqTsSizeHeader.getSerializedSize ≤ a.m_sendSize) :
    Inv a (sendReturned a s packet actual).1 ∧
      (.close ∈ (sendReturned a s packet actual).2 ↔
        (sendReturned a s packet actual).1.app.m_totBytes = a.m_maxBytes) := by
  have htot := h.tot_lt
  have hcreated := h.created_le
  have hchunk := h.chunk
  have hmaxlt := a.maxBytes_lt
  have hlength : packet.length = s.created - s.app.m_totBytes := by
    rw [h.packet_eq, List.length_range']
  rcases hanswer with hwhole | rfl | ⟨hpos, hpart⟩
  · rw [hwhole, asInt_of_lt (by omega), sendReturned_whole (by omega) (by omega)]
    have hbetween : Between a (took s packet packet.length none) :=
      between_took h le_rfl (fun _ hp => by cases hp) (fun _ => rfl)
    obtain ⟨hinv, hkeep, hclose⟩ := sendData_spec hbetween h.connected hmax hfits hsize
    refine ⟨hinv, ?_⟩
    rw [hkeep]
    simpa using hclose
  · rw [sendReturned_none (by omega)]
    have hbetween : Between a (took s packet 0 (some packet)) :=
      between_took h (Nat.zero_le _)
        (fun p hp => ⟨by omega, (Option.some.inj hp).symm⟩) (fun hp => by cases hp)
    obtain ⟨hinv, hkeep, hclose⟩ := finish_spec hbetween
    refine ⟨hinv, ?_⟩
    rw [hkeep]
    exact hclose h.connected
  · obtain ⟨n, rfl⟩ := Int.eq_ofNat_of_zero_le hpos.le
    have hn : 0 < n ∧ n < packet.length := by omega
    rw [sendReturned_part hn.1 hn.2 (by omega) (by omega)]
    have hbetween : Between a (took s packet n (some (packet.drop n))) :=
      between_took h hn.2.le
        (fun p hp => ⟨hn.2, (Option.some.inj hp).symm⟩) (fun hp => by cases hp)
    obtain ⟨hinv, hkeep, hclose⟩ := finish_spec hbetween
    refine ⟨hinv, ?_⟩
    rw [hkeep]
    simpa using hclose h.connected

end Returned

/-- When the application closes the socket by itself: the last bytes have just been accepted, or
a connection is reported after that. -/
def ClosesWhen (a : BulkSendAttributes) (s t : BulkSend) (input : BulkSendInput) : Prop :=
  t.app.m_totBytes = a.m_maxBytes ∧
    (s.app.m_totBytes < a.m_maxBytes ∨ input = .connectionSucceeded)

theorem perform_spec (h : Inv a s) (hmax : 0 < a.m_maxBytes) (hfits : Fits a)
    (hsize : a.m_enableSeqTsSizeHeader = true →
      SeqTsSizeHeader.getSerializedSize ≤ a.m_sendSize)
    {input : BulkSendInput} (hanswers : Answers s input)
    (hperform : perform a s input = some (t, outputs)) :
    Inv a t ∧ (input ≠ .stop → (.close ∈ outputs ↔ ClosesWhen a s t input)) := by
  have hidle (hs : ¬ (s.aborted = true ∨ s.sending.isSome = true)) :
      Between a s ∧ (s.app.m_connected = true → s.app.m_totBytes < a.m_maxBytes) := by
    rcases h with hbetween | ⟨packet, hoffer⟩
    · exact hbetween
    · exact absurd (Or.inr (by rw [hoffer.offered]; rfl)) hs
  cases input with
  | connectionSucceeded =>
    simp only [perform] at hperform
    split_ifs at hperform with hs
    obtain ⟨hbetween, -⟩ := hidle hs
    have hconnected : Between a { s with app := { s.app with m_connected := true } } :=
      ⟨hbetween.running, hbetween.idle, hbetween.accepted_eq, hbetween.tot_le,
        hbetween.created_le, hbetween.aligned, hbetween.chunk, hbetween.cached, hbetween.fresh⟩
    obtain ⟨hinv, htot, hclose⟩ := sendData_spec hconnected rfl hmax hfits hsize
    rw [Option.some.inj hperform] at hinv htot hclose
    refine ⟨hinv, fun _ => ?_⟩
    rw [hclose, ClosesWhen, htot]
    simp
  | dataSend =>
    simp only [perform] at hperform
    split_ifs at hperform with hs hconnected
    · obtain ⟨hbetween, hout⟩ := hidle hs
      obtain ⟨hinv, htot, hclose⟩ := sendData_spec hbetween hconnected hmax hfits hsize
      rw [Option.some.inj hperform] at hinv htot hclose
      refine ⟨hinv, fun _ => ?_⟩
      rw [hclose, ClosesWhen, htot]
      simp [hout hconnected]
    · obtain ⟨rfl, rfl⟩ := Prod.mk.inj (Option.some.inj hperform)
      refine ⟨h, fun _ => iff_of_false List.not_mem_nil ?_⟩
      rintro ⟨heq, hlt | hcon⟩
      · exact absurd heq hlt.ne
      · cases hcon
  | stop =>
    simp only [perform] at hperform
    split_ifs at hperform with hs
    obtain ⟨hbetween, -⟩ := hidle hs
    obtain ⟨rfl, rfl⟩ := Prod.mk.inj (Option.some.inj hperform)
    refine ⟨Or.inl ⟨?_, fun hc => by cases hc⟩, fun hne => absurd rfl hne⟩
    exact ⟨hbetween.running, hbetween.idle, hbetween.accepted_eq, hbetween.tot_le,
      hbetween.created_le, hbetween.aligned, hbetween.chunk, hbetween.cached, hbetween.fresh⟩
  | returned actual =>
    simp only [perform] at hperform
    split_ifs at hperform with hs
    obtain ⟨packet, hsending, hreturned⟩ := Option.map_eq_some_iff.mp hperform
    rcases h with ⟨hbetween, -⟩ | ⟨packet', hoffer⟩
    · rw [hbetween.idle] at hsending
      cases hsending
    · obtain rfl : packet' = packet := Option.some.inj (hoffer.offered.symm.trans hsending)
      obtain ⟨hinv, hclose⟩ :=
        sendReturned_spec hoffer (hanswers _ hsending) hmax hfits hsize
      rw [hreturned] at hinv hclose
      refine ⟨hinv, fun _ => ?_⟩
      have hlt := lt_of_lt_of_le hoffer.tot_lt hoffer.created_le
      rw [hclose, ClosesWhen]
      simp [hlt]

/-- What the application promises in a state: no abort, what is on offer follows what was
accepted, the count is that of the accepted bytes, and the next input closes the socket exactly
when it should. -/
structure Exactly (a : BulkSendAttributes) (s : BulkSend) : Prop where
  running : s.aborted = false
  offers : ∀ packet, s.sending = some packet →
    packet ≠ [] ∧ packet = List.range' s.app.m_totBytes packet.length
  accepted_eq : s.accepted = List.range s.app.m_totBytes
  tot_le : s.app.m_totBytes ≤ a.m_maxBytes
  closes : ∀ input t outputs, input ≠ .stop → Answers s input →
    perform a s input = some (t, outputs) → (.close ∈ outputs ↔ ClosesWhen a s t input)

theorem Inv.exactly (h : Inv a s) (hmax : 0 < a.m_maxBytes) (hfits : Fits a)
    (hsize : a.m_enableSeqTsSizeHeader = true →
      SeqTsSizeHeader.getSerializedSize ≤ a.m_sendSize) : Exactly a s := by
  have hcloses : ∀ input t outputs, input ≠ .stop → Answers s input →
      perform a s input = some (t, outputs) → (.close ∈ outputs ↔ ClosesWhen a s t input) :=
    fun _ _ _ hne hanswers hperform =>
      (perform_spec h hmax hfits hsize hanswers hperform).2 hne
  rcases h with ⟨hbetween, -⟩ | ⟨packet, hoffer⟩
  · refine ⟨hbetween.running, fun packet hp => ?_, hbetween.accepted_eq,
      hbetween.tot_le.trans hbetween.created_le, hcloses⟩
    rw [hbetween.idle] at hp
    cases hp
  · refine ⟨hoffer.running, fun packet' hp => ?_, hoffer.accepted_eq,
      hoffer.tot_lt.le.trans hoffer.created_le, hcloses⟩
    obtain rfl : packet = packet' := Option.some.inj (hoffer.offered.symm.trans hp)
    have htot := hoffer.tot_lt
    have hlength : packet.length = s.created - s.app.m_totBytes := by
      rw [hoffer.packet_eq, List.length_range']
    refine ⟨List.ne_nil_of_length_pos (by omega), ?_⟩
    rw [hlength]
    exact hoffer.packet_eq

theorem inv_init (a : BulkSendAttributes) (hmax : 0 < a.m_maxBytes) : Inv a {} :=
  Or.inl ⟨⟨rfl, rfl, rfl, le_rfl, Nat.zero_le _, Or.inr (dvd_zero _), by decide,
    fun _ hp => (by cases hp), fun _ => rfl⟩, fun _ => hmax⟩

/-- Every run in which the packets fit sends the stream in order, up to `MaxBytes`. -/
theorem bulkSend_exactly (a : BulkSendAttributes) (hmax : 0 < a.m_maxBytes)
    (hsize : a.m_enableSeqTsSizeHeader = true →
      SeqTsSizeHeader.getSerializedSize ≤ a.m_sendSize)
    (hfits : Fits a) (inputs : List BulkSendInput) (s : BulkSend)
    (hanswers : Transition.Along (step a) Answers {} inputs)
    (hrun : Transition.exec (step a) {} inputs = some s) : Exactly a s := by
  refine Inv.exactly (s := s) ?_ hmax hfits hsize
  refine Transition.along_invariant (fun s input t hinv hanswers hstep => ?_) (inv_init a hmax)
    hanswers hrun
  obtain ⟨⟨t', outputs⟩, hperform, rfl⟩ := Option.map_eq_some_iff.mp hstep
  exact (perform_spec hinv hmax hfits hsize hanswers hperform).1

/-- Two packets of `30` bytes and one of `20`, with a part taken and a refusal. -/
theorem bulkSend_exactly_partial :
    Exactly ⟨30, 80, true, by decide, by decide, by decide⟩
      ⟨⟨false, 80, 3, none⟩, none, false, 80, List.range 80⟩ :=
  bulkSend_exactly ⟨30, 80, true, by decide, by decide, by decide⟩ (by decide) (by decide)
    (by decide)
    [.connectionSucceeded, .returned 30, .returned 10, .dataSend, .returned 20,
      .returned (-1), .dataSend, .returned 20] _ (by decide +kernel) (by decide +kernel)

/-- With `SendSize` 30 and `MaxBytes` 40 the second packet is shorter than its header. -/
theorem not_bulkSend_exactly :
    ¬ ∀ (a : BulkSendAttributes), 0 < a.m_maxBytes →
      (a.m_enableSeqTsSizeHeader = true →
        SeqTsSizeHeader.getSerializedSize ≤ a.m_sendSize) →
      ∀ inputs s, Transition.Along (step a) Answers {} inputs →
        Transition.exec (step a) {} inputs = some s → Exactly a s := by
  intro h
  have hexactly := h ⟨30, 40, true, by decide, by decide, by decide⟩ (by decide) (by decide)
    [.connectionSucceeded, .returned 30] ⟨⟨true, 30, 2, none⟩, none, true, 30, List.range 30⟩
    (by decide +kernel) (by decide +kernel)
  exact absurd hexactly.running (by decide)

end BulkSend

end CudaNs3.Applications
