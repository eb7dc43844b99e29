import Mathlib.Data.UInt
import CudaNs3.Lib.Frames
import CudaNs3.Lib.Words

/-!
# The packet sink

`PacketSink` puts application messages together again from the packets of a byte stream: each
message is a header with the size of the whole followed by a payload. A buffer is kept for each
sender; at each packet the header at the front of the buffer is read, and messages are cut off
as long as the buffer holds a whole one.
-/

namespace CudaNs3.Applications

set_option autoImplicit false

structure SeqTsSizeHeader where
  size : UInt64
  seq : UInt32
  ts : UInt64
deriving DecidableEq

namespace SeqTsSizeHeader

def getSerializedSize : Nat := 4 + 8 + 8

def serialize (h : SeqTsSizeHeader) : List UInt8 :=
  Words.toBytes 8 h.size.toNat ++ Words.toBytes 4 h.seq.toNat ++ Words.toBytes 8 h.ts.toNat

/-- `none` when there are fewer bytes than a header has. -/
def deserialize (b : List UInt8) : Option SeqTsSizeHeader := do
  let size ← Words.readWord b 0 8
  let seq ← Words.readWord b 8 4
  let ts ← Words.readWord b 12 8
  return { size := UInt64.ofNat size, seq := UInt32.ofNat seq, ts := UInt64.ofNat ts }

end SeqTsSizeHeader

/-- What a trace of the sink reports: the payload, the sender, the local address, the header. -/
structure Report (Address : Type) where
  payload : List UInt8
  sender : Address
  localAddress : Address
  header : SeqTsSizeHeader
deriving DecidableEq

structure PacketSink (Address : Type) where
  totalRx : Nat := 0
  buffer : Address → Option (List UInt8) := fun _ => none
  rxTraceWithSeqTsSize : List (Report Address) := []

/-- A packet as `RecvFrom` hands it out. -/
structure Reception (Address : Type) where
  packet : List UInt8
  sender : Address
  localAddress : Address

/-- The messages cut off from the buffer, and the buffer left; `none` when a header is read from
fewer bytes than it has, or the passes do not suffice. -/
def cutMessages : Nat → List UInt8 → SeqTsSizeHeader →
    Option (List (List UInt8 × SeqTsSizeHeader) × List UInt8)
  | 0, _, _ => none
  | passes + 1, buffer, header =>
    if header.size.toNat ≤ buffer.length then do
      let length := header.size.toNat % 2 ^ 32
      let complete := buffer.take length
      let buffer := buffer.drop length
      let header ← SeqTsSizeHeader.deserialize complete
      let reported := (complete.drop SeqTsSizeHeader.getSerializedSize, header)
      if SeqTsSizeHeader.getSerializedSize < buffer.length then
        let header ← SeqTsSizeHeader.deserialize buffer
        let (rest, buffer) ← cutMessages passes buffer header
        return (reported :: rest, buffer)
      else
        return ([reported], buffer)
    else some ([], buffer)

namespace PacketSink
variable {Address : Type} [DecidableEq Address]

def packetReceived (s : PacketSink Address) (r : Reception Address) :
    Option (PacketSink Address) := do
  let buffer := (s.buffer r.sender).getD [] ++ r.packet
  let header ← SeqTsSizeHeader.deserialize buffer
  if header.size = 0 then none
  else
    let (messages, buffer) ← cutMessages (buffer.length + 1) buffer header
    return { s with
      buffer := Function.update s.buffer r.sender (some buffer)
      rxTraceWithSeqTsSize := s.rxTraceWithSeqTsSize ++
        messages.map fun m => ⟨m.1, r.sender, r.localAddress, m.2⟩ }

/-- The packets of one call in order; an empty one ends the call. -/
def handleRead (s : PacketSink Address) : List (Reception Address) → Option (PacketSink Address)
  | [] => some s
  | r :: rs =>
    if r.packet.length = 0 then some s
    else (packetReceived { s with totalRx := s.totalRx + r.packet.length } r).bind fun s =>
      handleRead s rs

end PacketSink

/-- A message as it is built for sending: the size in its header is that of the whole. -/
structure Message where
  seq : UInt32
  ts : UInt64
  payload : List UInt8
  fits : SeqTsSizeHeader.getSerializedSize + payload.length < 2 ^ 32

namespace Message

def size (m : Message) : Nat := SeqTsSizeHeader.getSerializedSize + m.payload.length

def header (m : Message) : SeqTsSizeHeader := ⟨UInt64.ofNat m.size, m.seq, m.ts⟩

def encode (m : Message) : List UInt8 := m.header.serialize ++ m.payload

end Message
namespace SeqTsSizeHeader

@[simp] theorem length_serialize (h : SeqTsSizeHeader) : h.serialize.length = 20 := by
  simp [serialize]

theorem deserialize_append (h : SeqTsSizeHeader) (rest : List UInt8) :
    deserialize (h.serialize ++ rest) = some h := by
  have hsize : Words.readWord (h.serialize ++ rest) 0 8 = some h.size.toNat := by
    apply Words.readWord_of_drop h.size.toNat_lt
    rw [List.drop_zero, serialize, List.append_assoc, List.append_assoc]
  have hseq : Words.readWord (h.serialize ++ rest) 8 4 = some h.seq.toNat := by
    apply Words.readWord_of_drop h.seq.toNat_lt
    rw [serialize, List.append_assoc, List.append_assoc]
    exact List.drop_left' Words.length_toBytes
  have hts : Words.readWord (h.serialize ++ rest) 12 8 = some h.ts.toNat := by
    apply Words.readWord_of_drop h.ts.toNat_lt
    rw [serialize, List.append_assoc _ (Words.toBytes 8 h.ts.toNat)]
    apply List.drop_left'
    simp
  rw [deserialize, hsize, hseq, hts]
  simp

theorem deserialize_of_short {b : List UInt8} (h : b.length < 20) : deserialize b = none := by
  have hts : Words.readWord b 12 8 = none := by
    rw [Words.readWord, Words.readBytes, if_neg, Option.map_none]
    rw [List.length_drop]
    omega
  rw [deserialize, hts]
  cases Words.readWord b 0 8 with
  | none => rfl
  | some size =>
    cases Words.readWord b 8 4 with
    | none => rfl
    | some seq => rfl

end SeqTsSizeHeader

namespace Message
variable {m : Message} {b : List UInt8} {ms : List Message}

@[simp] theorem length_encode : m.encode.length = m.size := by
  simp [encode, size, SeqTsSizeHeader.getSerializedSize]

theorem le_size : 20 ≤ m.size := Nat.le_add_right _ _

theorem toNat_header_size : m.header.size.toNat = m.size := by
  have hfits : m.size < 2 ^ 32 := m.fits
  rw [header, UInt64.toNat_ofNat_of_lt']
  exact lt_trans hfits (by decide)

/-- A header at the front of a stream is read as soon as it has arrived whole. -/
theorem deserialize_front (h : b <+: Frames.stream encode (m :: ms)) (hlen : 20 ≤ b.length) :
    SeqTsSizeHeader.deserialize b = some m.header := by
  rw [Frames.stream_cons, encode, List.append_assoc] at h
  obtain ⟨c, rfl⟩ : m.header.serialize <+: b :=
    List.prefix_of_prefix_length_le (List.prefix_append _ _) h (by simpa using hlen)
  exact SeqTsSizeHeader.deserialize_append _ _

end Message

end CudaNs3.Applications
