import CudaNs3.Lib.Bytes

/-!
# `CudaPacket` and the headers put on it

A packet is filled backwards in its row of the raw packet buffer: a header lowers
`offset`, removing one raises it, and `m_size` stays the size of the payload. Offsets are
32-bit values. The alignment paths of `AddHeader` copy the same bytes.
-/

namespace CudaNs3.Device

set_option autoImplicit false

def maxPacketSize : Nat := 2048

structure MACAddress where
  addr : List UInt8
  length_addr : addr.length = 6
  deriving DecidableEq

def MACAddress.zero : MACAddress := ⟨List.replicate 6 0, rfl⟩

/-- A locally administered address. -/
def MACAddress.station (last : UInt8) : MACAddress := ⟨[2, 0, 0, 0, 0, last], rfl⟩

def le16 (x : UInt16) : List UInt8 := [x.toUInt8, (x >>> 8).toUInt8]

def le32 (x : UInt32) : List UInt8 :=
  [x.toUInt8, (x >>> 8).toUInt8, (x >>> 16).toUInt8, (x >>> 24).toUInt8]

/-- `data` is the row `m_data` points to. Of `ready` only whether it is zero is used. -/
structure CudaPacket where
  data : Nat → UInt8
  offset : Nat
  size : Nat
  size_le : size ≤ maxPacketSize
  ready : Bool

namespace CudaPacket

def free : CudaPacket := ⟨fun _ => 0, 0, 0, Nat.zero_le _, false⟩

/-- The constructor, with the row assigned to `m_data` right after it. -/
def construct (p : CudaPacket) : CudaPacket :=
  { p with
    offset := maxPacketSize
    size := 0
    size_le := Nat.zero_le _ }

def setSize (p : CudaPacket) (size : Nat) : CudaPacket :=
  if h : maxPacketSize < size then p
  else
    { p with
      size := size
      size_le := Nat.not_lt.mp h
      offset := maxPacketSize - size }

def addHeader (p : CudaPacket) (header : List UInt8) : CudaPacket :=
  if maxPacketSize < header.length + p.size then p
  else
    let offset := (p.offset + (UInt32.size - header.length)) % UInt32.size
    { p with offset := offset, data := Bytes.write p.data offset header }

/-- What `dstBuffer`, which held `dst`, holds after the call. -/
def extractPayload (p : CudaPacket) (dst : List UInt8) (off length : Nat) : List UInt8 :=
  if p.size < off + length then dst else Bytes.read p.data (p.offset + off) length

def removeHeader (p : CudaPacket) (headerSize : Nat) : CudaPacket :=
  if p.size < headerSize then p else { p with offset := (p.offset + headerSize) % UInt32.size }

/-- The `m_size` bytes at `GetData()`. -/
def payload (p : CudaPacket) : List UInt8 := Bytes.read p.data p.offset p.size

def release (p : CudaPacket) : CudaPacket := { p with ready := false }

def extractAddress (p : CudaPacket) (old : MACAddress) : MACAddress where
  addr := p.extractPayload old.addr 0 6
  length_addr := by
    unfold extractPayload
    split
    · exact old.length_addr
    · exact Bytes.length_read _ _ _

@[simp] theorem addHeader_size (p : CudaPacket) (h : List UInt8) :
    (p.addHeader h).size = p.size := by
  unfold addHeader
  split <;> rfl

@[simp] theorem addHeader_ready (p : CudaPacket) (h : List UInt8) :
    (p.addHeader h).ready = p.ready := by
  unfold addHeader
  split <;> rfl

@[simp] theorem removeHeader_size (p : CudaPacket) (n : Nat) :
    (p.removeHeader n).size = p.size := by
  unfold removeHeader
  split <;> rfl

@[simp] theorem removeHeader_ready (p : CudaPacket) (n : Nat) :
    (p.removeHeader n).ready = p.ready := by
  unfold removeHeader
  split <;> rfl

@[simp] theorem removeHeader_data (p : CudaPacket) (n : Nat) :
    (p.removeHeader n).data = p.data := by
  unfold removeHeader
  split <;> rfl

@[simp] theorem construct_ready (p : CudaPacket) : p.construct.ready = p.ready := rfl

@[simp] theorem setSize_ready (p : CudaPacket) (n : Nat) : (p.setSize n).ready = p.ready := by
  unfold setSize
  split <;> rfl

end CudaPacket

/-- What the uninitialised locals of the handlers hold: `dst` and `src` of `d_Receive`,
`header_checksum`, which is only set under `CHECKSUM_CHECK`, and the result of
`CudaUdpL4Protocol::OptimizeSend`, which has no return statement. -/
structure Locals where
  dst : MACAddress
  src : MACAddress
  headerChecksum : UInt16
  result : Int
  deriving DecidableEq

def Locals.zero : Locals := ⟨.zero, .zero, 0, 0⟩

structure CudaUdpHeader where
  sport : UInt16
  dport : UInt16
  length : UInt16
  checksum : UInt16
  deriving DecidableEq

def CudaUdpHeader.bytes (h : CudaUdpHeader) : List UInt8 :=
  le16 h.sport ++ le16 h.dport ++ le16 h.length ++ le16 h.checksum

structure CudaIpv4Header where
  versionIhl : UInt8
  dscpEcn : UInt8
  totalLength : UInt16
  identification : UInt16
  flagsFragmentOffset : UInt16
  ttl : UInt8
  protocol : UInt8
  headerChecksum : UInt16
  saddr : UInt32
  daddr : UInt32
  deriving DecidableEq

def CudaIpv4Header.bytes (h : CudaIpv4Header) : List UInt8 :=
  [h.versionIhl, h.dscpEcn] ++ le16 h.totalLength ++ le16 h.identification ++
    le16 h.flagsFragmentOffset ++ [h.ttl, h.protocol] ++ le16 h.headerChecksum ++
    le32 h.saddr ++ le32 h.daddr

/-- `CudaUdpL4Protocol::PrepareHeader`; the addresses only enter the checksum. -/
def CudaUdpHeader.prepare (_saddr _daddr : UInt32) (sport dport len : UInt16) : CudaUdpHeader :=
  ⟨sport, dport, len, 0⟩

def CudaIpv4Header.prepare (l : Locals) (source destination : UInt32) (protocol : UInt8)
    (len : UInt16) : CudaIpv4Header :=
  ⟨0x05, 0x45, len, 0, 0, 64, protocol, l.headerChecksum, source, destination⟩

/-- `CombinedIpUdpHeaders` as `CudaUdpL4Protocol::OptimizeSend` fills it. It passes the length
first to both `PrepareHeader`s, which shifts every later argument by one place. -/
def combinedIpUdpHeaders (l : Locals) (size : Nat) (saddr daddr : UInt32) (sport dport : UInt16) :
    List UInt8 :=
  let udpLength : UInt16 := .ofNat (size + 8)
  let udp := CudaUdpHeader.prepare udpLength.toUInt32 saddr daddr.toUInt16 sport dport
  let udpTotalLength := udp.length
  let ip := CudaIpv4Header.prepare l udpTotalLength.toUInt32 saddr daddr.toUInt8 17
  ip.bytes ++ udp.bytes

@[simp] theorem length_combinedIpUdpHeaders (l : Locals) (size : Nat) (saddr daddr : UInt32)
    (sport dport : UInt16) : (combinedIpUdpHeaders l size saddr daddr sport dport).length = 28 :=
  rfl

namespace CudaPacket

/-- The headers `CudaNetDevice::SendFrom` adds. -/
def addLinkHeader (p : CudaPacket) (src dst : MACAddress) : CudaPacket :=
  ((p.addHeader (le32 0x0800)).addHeader src.addr).addHeader dst.addr

/-- The first part of `CudaNetDevice::d_Receive`: the packet without its link header, the
destination and the source. The ethertype is extracted too and then not used by anyone. -/
def stripLinkHeader (p : CudaPacket) (l : Locals) : CudaPacket × MACAddress × MACAddress :=
  let dst := p.extractAddress l.dst
  let p := p.removeHeader 6
  let src := p.extractAddress l.src
  let p := p.removeHeader 6
  (p.removeHeader 4, dst, src)

/-- `d_LocalDeliver` and `CudaUdpL4Protocol::Receive` up to `ForwardPacket`; what the latter
extracts is only used under `CHECKSUM_CHECK`. -/
def stripIpUdpHeaders (p : CudaPacket) : CudaPacket := (p.removeHeader 20).removeHeader 8

@[simp] theorem addLinkHeader_size (p : CudaPacket) (src dst : MACAddress) :
    (p.addLinkHeader src dst).size = p.size := by simp [addLinkHeader]

@[simp] theorem addLinkHeader_ready (p : CudaPacket) (src dst : MACAddress) :
    (p.addLinkHeader src dst).ready = p.ready := by simp [addLinkHeader]

@[simp] theorem stripLinkHeader_size (p : CudaPacket) (l : Locals) :
    (p.stripLinkHeader l).1.size = p.size := by simp [stripLinkHeader]

@[simp] theorem stripLinkHeader_ready (p : CudaPacket) (l : Locals) :
    (p.stripLinkHeader l).1.ready = p.ready := by simp [stripLinkHeader]

@[simp] theorem stripIpUdpHeaders_size (p : CudaPacket) :
    p.stripIpUdpHeaders.size = p.size := by simp [stripIpUdpHeaders]

@[simp] theorem stripIpUdpHeaders_ready (p : CudaPacket) :
    p.stripIpUdpHeaders.ready = p.ready := by simp [stripIpUdpHeaders]

end CudaPacket

end CudaNs3.Device
