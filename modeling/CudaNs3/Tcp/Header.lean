import CudaNs3.Tcp.HeaderOptions

/-!
# `TcpHeader`

Building, writing and reading a TCP header. A buffer is the bytes that an iterator at its start
can reach: the header and the payload.
-/

namespace CudaNs3.Tcp

open Words TcpOption
set_option autoImplicit false

/-- An unset address, or one of the two families. -/
inductive Address where
  | unset
  | ipv4 (address : BitVec 32)
  | ipv6 (address : BitVec 128)
  deriving DecidableEq

namespace Address

def bytes : Address → List UInt8
  | unset => []
  | ipv4 a => toBytes 4 a.toNat
  | ipv6 a => toBytes 16 a.toNat

def isIpv4 : Address → Bool
  | ipv4 _ => true
  | _ => false

end Address

/-- `length` is the data offset in words, `optionsLen` counts the bytes of the options. -/
structure TcpHeader where
  sourcePort : BitVec 16
  destinationPort : BitVec 16
  sequenceNumber : SequenceNumber 32
  ackNumber : SequenceNumber 32
  length : Nat
  flags : UInt8
  windowSize : BitVec 16
  urgentPointer : BitVec 16
  source : Address
  destination : Address
  protocol : UInt8
  calcChecksum : Bool
  goodChecksum : Bool
  options : List TcpOption
  optionsLen : Nat
  deriving DecidableEq

namespace TcpHeader

def maxOptionsLen : Nat := 40

def new : TcpHeader where
  sourcePort := 0
  destinationPort := 0
  sequenceNumber := 0
  ackNumber := 0
  length := 5
  flags := 0
  windowSize := 0xffff
  urgentPointer := 0
  source := .unset
  destination := .unset
  protocol := 0
  calcChecksum := false
  goodChecksum := true
  options := []
  optionsLen := 0

/-- The setters. -/
inductive Setting where
  | sourcePort (port : BitVec 16)
  | destinationPort (port : BitVec 16)
  | sequenceNumber (sequenceNumber : SequenceNumber 32)
  | ackNumber (ackNumber : SequenceNumber 32)
  | flags (flags : UInt8)
  | windowSize (windowSize : BitVec 16)
  | urgentPointer (urgentPointer : BitVec 16)
  | enableChecksums
  | initializeChecksum (source destination : Address) (protocol : UInt8)

def set (h : TcpHeader) : Setting → TcpHeader
  | .sourcePort port => { h with sourcePort := port }
  | .destinationPort port => { h with destinationPort := port }
  | .sequenceNumber n => { h with sequenceNumber := n }
  | .ackNumber n => { h with ackNumber := n }
  | .flags f => { h with flags := f }
  | .windowSize w => { h with windowSize := w }
  | .urgentPointer u => { h with urgentPointer := u }
  | .enableChecksums => { h with calcChecksum := true }
  | .initializeChecksum source destination protocol =>
    { h with source := source, destination := destination, protocol := protocol }

/-- The header and the result. -/
def appendOption (h : TcpHeader) (option : TcpOption) : TcpHeader × Bool :=
  if h.optionsLen + option.getSerializedSize ≤ maxOptionsLen then
    if isKindKnown option.getKind then
      if option.getKind ≠ 0 then
        let optionsLen := h.optionsLen + option.getSerializedSize
        let totalLen := 20 + 3 + optionsLen
        ({ h with
            options := h.options ++ [option]
            optionsLen := optionsLen
            length := totalLen / 4 }, true)
      else (h, true)
    else (h, false)
  else (h, false)

def optionBytes (options : List TcpOption) : Nat := (options.map getSerializedSize).sum

/-- The words of the header with its options, rounded up. -/
def calculateHeaderLength (h : TcpHeader) : Nat :=
  let len := 20 + optionBytes h.options
  let len := if len % 4 ≠ 0 then len + (4 - len % 4) else len
  len / 4

def getSerializedSize (h : TcpHeader) : Nat := h.calculateHeaderLength * 4

/-- `CalculateIpChecksum` of the first `size` bytes, with an `uint16_t size`. -/
def calculateIpChecksum (b : List UInt8) (size initialChecksum : Nat) : Nat :=
  65535 - fold (initialChecksum + sum16 (b.take (size % 65536)))

/-- The bytes of the pseudo header that are summed. -/
def pseudoHeader (h : TcpHeader) (size : Nat) : List UInt8 :=
  let length := [UInt8.ofNat (size / 256), UInt8.ofNat size]
  if h.source.isIpv4 then
    (h.source.bytes ++ h.destination.bytes ++ [0, h.protocol] ++ length).take 12
  else (h.source.bytes ++ h.destination.bytes ++ [0, 0] ++ length ++ [0, 0, 0, h.protocol]).take 40

/-- The complement of a complement: the sum of the pseudo header. -/
def calculateHeaderChecksum (h : TcpHeader) (size : Nat) : Nat :=
  let b := h.pseudoHeader (size % 65536)
  65535 - calculateIpChecksum b b.length 0

/-- The twenty bytes before the options, with a checksum of 0. -/
def fixedPart (h : TcpHeader) : List UInt8 :=
  toBytes 2 h.sourcePort.toNat ++ toBytes 2 h.destinationPort.toNat ++
    toBytes 4 h.sequenceNumber.toNat ++ toBytes 4 h.ackNumber.toNat ++
    toBytes 2 (h.length * 4096 + h.flags.toNat) ++ toBytes 2 h.windowSize.toNat ++
    [0, 0] ++ toBytes 2 h.urgentPointer.toNat

/-- How many `END` bytes follow options of `optionLen` bytes. -/
def paddingLen (optionLen : Nat) : Nat := (4 - optionLen % 4) % 4

def written (h : TcpHeader) : List UInt8 :=
  h.fixedPart ++ h.options.flatMap TcpOption.serialize ++
    List.replicate (paddingLen (optionBytes h.options)) 0

/-- `WriteU16` of the checksum, the least significant byte first. -/
def putChecksum (b : List UInt8) (checksum : Nat) : List UInt8 :=
  (b.set 16 (UInt8.ofNat checksum)).set 17 (UInt8.ofNat (checksum / 256))

/-- `Serialize` into a buffer in front of which there is room for the header. -/
def serialize (h : TcpHeader) (start : List UInt8) : List UInt8 :=
  let b := h.written ++ start.drop h.written.length
  if h.calcChecksum then
    putChecksum b (calculateIpChecksum b b.length (h.calculateHeaderChecksum b.length))
  else b

/-- What the loop over the options has read. -/
structure Reading where
  options : List TcpOption
  optionsLen : Nat
  readTo : Nat

/-- The loop of `Deserialize`, at most `fuel` rounds of it. -/
def optionLoop (b : List UInt8) : Nat → Nat → Nat → Reading → Option Reading
  | 0, _, _, _ => none
  | fuel + 1, pos, optionLen, s =>
    if optionLen = 0 then some s
    else do
      let kind ← b[pos]?
      let p ← deserializeOption b pos kind
      let s := { s with readTo := max s.readTo p.readTo }
      if p.optionSize ≠ p.op.getSerializedSize then some s
      else if p.optionSize ≤ optionLen then
        let s := { s with options := s.options ++ [p.op], optionsLen := s.optionsLen + p.optionSize }
        if p.op.getKind = 0 then
          -- the padding is passed over, and then nothing is left
          some { s with optionsLen := s.optionsLen + (optionLen - p.optionSize) }
        else optionLoop b fuel (pos + p.optionSize) (optionLen - p.optionSize) s
      else some s

/-- The header, what `Deserialize` returns, and one beyond the last byte that the fields and
options were read from. -/
structure Deserialized where
  header : TcpHeader
  size : Nat
  readTo : Nat

/-- The fixed part, with no options yet. -/
def readFields (h : TcpHeader) (start : List UInt8) : Option TcpHeader := do
  let sourcePort ← readWord start 0 2
  let destinationPort ← readWord start 2 2
  let sequenceNumber ← readWord start 4 4
  let ackNumber ← readWord start 8 4
  let field ← readWord start 12 2
  let windowSize ← readWord start 14 2
  let urgentPointer ← readWord start 18 2
  some { h with
    optionsLen := 0
    sourcePort := BitVec.ofNat 16 sourcePort
    destinationPort := BitVec.ofNat 16 destinationPort
    sequenceNumber := BitVec.ofNat 32 sequenceNumber
    ackNumber := BitVec.ofNat 32 ackNumber
    flags := UInt8.ofNat field
    length := field / 4096
    windowSize := BitVec.ofNat 16 windowSize
    urgentPointer := BitVec.ofNat 16 urgentPointer
    options := [] }

/-- The result of `CalculateIpChecksum` over a segment that is received. -/
def goodOf (h : TcpHeader) (start : List UInt8) : Bool :=
  calculateIpChecksum start start.length (h.calculateHeaderChecksum start.length) == 0

def doChecksum (h : TcpHeader) (start : List UInt8) : TcpHeader :=
  if h.calcChecksum then { h with goodChecksum := h.goodOf start } else h

/-- `none` when `fuel` rounds are not enough, or one of them aborts or reads beyond the buffer. -/
def deserialize (fuel : Nat) (h : TcpHeader) (start : List UInt8) : Option Deserialized := do
  let h ← h.readFields start
  let optionLen := ((BitVec.ofNat 32 h.length - 5) * 4).toNat
  if maxOptionsLen < optionLen then some ⟨h, 20, 20⟩
  else
    let s ← optionLoop start fuel 20 optionLen ⟨[], 0, 20⟩
    let h := { h with options := s.options, optionsLen := s.optionsLen }.doChecksum start
    some ⟨h, h.getSerializedSize, s.readTo⟩

end TcpHeader

end CudaNs3.Tcp
