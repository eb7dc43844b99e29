import CudaNs3.Lib.ByteStreams

/-!
# PCAP files

A file is written with a header and one record for each packet, cut to the snap length, in the
byte order of the host or the other one, which the reader tells by the magic number. What is read
from a file is what was written to it.
-/

namespace CudaNs3.Network

open ByteStreams

set_option autoImplicit false

structure PcapFileHeader where
  magicNumber : BitVec 32
  versionMajor : BitVec 16
  versionMinor : BitVec 16
  zone : BitVec 32
  sigFigs : BitVec 32
  snapLen : BitVec 32
  type : BitVec 32

structure PcapRecordHeader where
  tsSec : BitVec 32
  tsUsec : BitVec 32
  inclLen : BitVec 32
  origLen : BitVec 32

structure PcapFile where
  file : Stream
  fileHeader : PcapFileHeader
  swapMode : Bool
  nanosecMode : Bool

namespace PcapFile

def magic : BitVec 32 := 0xa1b2c3d4
def swappedMagic : BitVec 32 := 0xd4c3b2a1
def nsMagic : BitVec 32 := 0xa1b23c4d
def nsSwappedMagic : BitVec 32 := 0x4d3cb2a1
def versionMajor : BitVec 16 := 2
def versionMinor : BitVec 16 := 4

def swap16 (val : BitVec 16) : BitVec 16 :=
  ((val >>> 8) &&& 0x00ff#16) ||| ((val <<< 8) &&& 0xff00#16)

def swap32 (val : BitVec 32) : BitVec 32 :=
  ((val >>> 24) &&& 0x000000ff#32) ||| ((val >>> 8) &&& 0x0000ff00#32) |||
    ((val <<< 8) &&& 0x00ff0000#32) ||| ((val <<< 24) &&& 0xff000000#32)

def swapFileHeader (h : PcapFileHeader) : PcapFileHeader where
  magicNumber := swap32 h.magicNumber
  versionMajor := swap16 h.versionMajor
  versionMinor := swap16 h.versionMinor
  zone := swap32 h.zone
  sigFigs := swap32 h.sigFigs
  snapLen := swap32 h.snapLen
  type := swap32 h.type

def swapRecordHeader (h : PcapRecordHeader) : PcapRecordHeader where
  tsSec := swap32 h.tsSec
  tsUsec := swap32 h.tsUsec
  inclLen := swap32 h.inclLen
  origLen := swap32 h.origLen

def fail (f : PcapFile) : Bool := f.file.failed

def eof (f : PcapFile) : Bool := f.file.eof

section
variable (bigEndian : Bool)

/-! ### Writing -/

def putFileHeader (h : PcapFileHeader) (s : Stream) : Stream :=
  let s := writeWord bigEndian 4 h.magicNumber s
  let s := writeWord bigEndian 2 h.versionMajor s
  let s := writeWord bigEndian 2 h.versionMinor s
  let s := writeWord bigEndian 4 h.zone s
  let s := writeWord bigEndian 4 h.sigFigs s
  let s := writeWord bigEndian 4 h.snapLen s
  writeWord bigEndian 4 h.type s

def writeFileHeader (f : PcapFile) : PcapFile :=
  let headerOut := if f.swapMode then swapFileHeader f.fileHeader else f.fileHeader
  { f with file := putFileHeader bigEndian headerOut (f.file.seek 0) }

def init (f : PcapFile) (dataLinkType snapLen timeZoneCorrection : BitVec 32)
    (swapMode nanosecMode : Bool) : PcapFile :=
  writeFileHeader bigEndian
    { f with
      fileHeader :=
        { magicNumber := if nanosecMode then nsMagic else magic
          versionMajor, versionMinor, zone := timeZoneCorrection, sigFigs := 0, snapLen,
          type := dataLinkType }
      swapMode := swapMode || bigEndian
      nanosecMode }

def putRecordHeader (h : PcapRecordHeader) (s : Stream) : Stream :=
  let s := writeWord bigEndian 4 h.tsSec s
  let s := writeWord bigEndian 4 h.tsUsec s
  let s := writeWord bigEndian 4 h.inclLen s
  writeWord bigEndian 4 h.origLen s

def writePacketHeader (f : PcapFile) (tsSec tsUsec totalLen : BitVec 32) :
    BitVec 32 × PcapFile :=
  let inclLen := if f.fileHeader.snapLen < totalLen then f.fileHeader.snapLen else totalLen
  let header : PcapRecordHeader := { tsSec, tsUsec, inclLen, origLen := totalLen }
  let header := if f.swapMode then swapRecordHeader header else header
  (inclLen, { f with file := putRecordHeader bigEndian header f.file })

end

/-- Bytes whose number is a 32-bit one. -/
structure Octets where
  bytes : List UInt8
  fits : bytes.length < 2 ^ 32

def Octets.size (o : Octets) : BitVec 32 := BitVec.ofNat 32 o.bytes.length

section
variable (bigEndian : Bool) (f : PcapFile) (tsSec tsUsec : BitVec 32)

def writeData (data : Octets) : PcapFile :=
  let (inclLen, f) := writePacketHeader bigEndian f tsSec tsUsec data.size
  { f with file := f.file.write (data.bytes.take inclLen.toNat) }

def writePacket (p : Octets) : PcapFile :=
  let (inclLen, f) := writePacketHeader bigEndian f tsSec tsUsec p.size
  { f with file := f.file.write (p.bytes.take inclLen.toNat) }

def writeHeaderPacket (header p : Octets) : PcapFile :=
  let headerSize := header.size
  let totalSize := headerSize + p.size
  let (inclLen, f) := writePacketHeader bigEndian f tsSec tsUsec totalSize
  let toCopy := if inclLen < headerSize then inclLen else headerSize
  let file := f.file.write (header.bytes.take toCopy.toNat)
  { f with file := file.write (p.bytes.take (inclLen - toCopy).toNat) }

end

inductive Payload where
  | data (data : Octets)
  | packet (p : Octets)
  | headerPacket (header p : Octets)

structure WriteCall where
  tsSec : BitVec 32
  tsUsec : BitVec 32
  payload : Payload

def write (bigEndian : Bool) (f : PcapFile) (c : WriteCall) : PcapFile :=
  match c.payload with
  | .data data => writeData bigEndian f c.tsSec c.tsUsec data
  | .packet p => writePacket bigEndian f c.tsSec c.tsUsec p
  | .headerPacket header p => writeHeaderPacket bigEndian f c.tsSec c.tsUsec header p

/-! ### Reading -/

section
variable (bigEndian : Bool)

def getFileHeader (h : PcapFileHeader) (s : Stream) : PcapFileHeader × Stream :=
  let (magicNumber, s) := readWord bigEndian 4 h.magicNumber s
  let (versionMajor, s) := readWord bigEndian 2 h.versionMajor s
  let (versionMinor, s) := readWord bigEndian 2 h.versionMinor s
  let (zone, s) := readWord bigEndian 4 h.zone s
  let (sigFigs, s) := readWord bigEndian 4 h.sigFigs s
  let (snapLen, s) := readWord bigEndian 4 h.snapLen s
  let (type, s) := readWord bigEndian 4 h.type s
  ({ magicNumber, versionMajor, versionMinor, zone, sigFigs, snapLen, type }, s)

def knownMagic (m : BitVec 32) : Bool :=
  m == magic || m == swappedMagic || m == nsMagic || m == nsSwappedMagic

def readAndVerifyFileHeader (f : PcapFile) : PcapFile :=
  let (header, file) := getFileHeader bigEndian f.fileHeader (f.file.seek 0)
  if file.failed then { f with file, fileHeader := header }
  else
    let swapMode := header.magicNumber == swappedMagic || header.magicNumber == nsSwappedMagic
    let fileHeader := if swapMode then swapFileHeader header else header
    { file := { file with
        failed := !knownMagic header.magicNumber ||
          fileHeader.versionMajor != versionMajor || fileHeader.versionMinor != versionMinor ||
          decide (fileHeader.zone.toInt < -12 ∨ 12 < fileHeader.zone.toInt) }
      fileHeader, swapMode,
      nanosecMode := fileHeader.magicNumber == nsMagic ||
        fileHeader.magicNumber == nsSwappedMagic }

/-- A file with these bytes is opened for reading. -/
def openFile (f : PcapFile) (bytes : List UInt8) : PcapFile :=
  readAndVerifyFileHeader bigEndian { f with file := { bytes } }

def getRecordHeader (s : Stream) : PcapRecordHeader × Stream :=
  let (tsSec, s) := readWord bigEndian 4 0 s
  let (tsUsec, s) := readWord bigEndian 4 0 s
  let (inclLen, s) := readWord bigEndian 4 0 s
  let (origLen, s) := readWord bigEndian 4 0 s
  ({ tsSec, tsUsec, inclLen, origLen }, s)

/-- The arguments `Read` writes to. -/
structure Fetched where
  data : List UInt8
  tsSec : BitVec 32 := 0
  tsUsec : BitVec 32 := 0
  inclLen : BitVec 32 := 0
  origLen : BitVec 32 := 0
  readLen : BitVec 32 := 0

def read (f : PcapFile) (maxBytes : BitVec 32) (out : Fetched) : Fetched × PcapFile :=
  let (header, file) := getRecordHeader bigEndian f.file
  if file.failed then (out, { f with file })
  else
    let header := if f.swapMode then swapRecordHeader header else header
    let readLen := if maxBytes < header.inclLen then maxBytes else header.inclLen
    let (got, file) := file.read readLen.toNat
    let file :=
      if readLen < header.inclLen then file.skip (header.inclLen - readLen).toNat else file
    ({ data := got ++ out.data.drop got.length, tsSec := header.tsSec, tsUsec := header.tsUsec,
       inclLen := header.inclLen, origLen := header.origLen, readLen }, { f with file })

end

/-! ### Byte order -/

theorem getLsbD_swap16 (val : BitVec 16) {i : Nat} (hi : i < 16) :
    (swap16 val).getLsbD i = val.getLsbD (8 * (1 - i / 8) + i % 8) := by
  have hlow : ∀ i < 16, (0x00ff#16).getLsbD i = decide (i < 8) := by decide +kernel
  have hhigh : ∀ i < 16, (0xff00#16).getLsbD i = decide (8 ≤ i) := by decide +kernel
  unfold swap16
  rw [BitVec.getLsbD_or, BitVec.getLsbD_and, BitVec.getLsbD_and, BitVec.getLsbD_ushiftRight,
    BitVec.getLsbD_shiftLeft, hlow i hi, hhigh i hi]
  by_cases h : i < 8
  · have hplace : 8 * (1 - i / 8) + i % 8 = 8 + i := by omega
    simp [h, hplace]
  · have hplace : 8 * (1 - i / 8) + i % 8 = i - 8 := by omega
    simp [h, hi, hplace, Nat.not_lt.mp h]

theorem getLsbD_swap32 (val : BitVec 32) {i : Nat} (hi : i < 32) :
    (swap32 val).getLsbD i = val.getLsbD (8 * (3 - i / 8) + i % 8) := by
  have h0 : ∀ i < 32, (0x000000ff#32).getLsbD i = decide (i / 8 = 0) := by decide +kernel
  have h1 : ∀ i < 32, (0x0000ff00#32).getLsbD i = decide (i / 8 = 1) := by decide +kernel
  have h2 : ∀ i < 32, (0x00ff0000#32).getLsbD i = decide (i / 8 = 2) := by decide +kernel
  have h3 : ∀ i < 32, (0xff000000#32).getLsbD i = decide (i / 8 = 3) := by decide +kernel
  unfold swap32
  rw [BitVec.getLsbD_or, BitVec.getLsbD_or, BitVec.getLsbD_or, BitVec.getLsbD_and,
    BitVec.getLsbD_and, BitVec.getLsbD_and, BitVec.getLsbD_and, BitVec.getLsbD_ushiftRight,
    BitVec.getLsbD_ushiftRight, BitVec.getLsbD_shiftLeft, BitVec.getLsbD_shiftLeft, h0 i hi,
    h1 i hi, h2 i hi, h3 i hi]
  have hcases : i / 8 = 0 ∨ i / 8 = 1 ∨ i / 8 = 2 ∨ i / 8 = 3 := by omega
  rcases hcases with h | h | h | h
  · have hplace : 8 * 3 + i % 8 = 24 + i := by omega
    simp [h, hplace]
  · have hplace : 8 * 2 + i % 8 = 8 + i := by omega
    simp [h, hplace]
  · have hplace : 8 * 1 + i % 8 = i - 8 := by omega
    simp [h, hplace, hi, show 8 ≤ i by omega]
  · have hplace : i % 8 = i - 24 := by omega
    simp [h, hplace, hi, show 24 ≤ i by omega]

theorem swap16_swap16 (val : BitVec 16) : swap16 (swap16 val) = val := by
  apply BitVec.eq_of_getLsbD_eq
  intro i hi
  rw [getLsbD_swap16 _ hi, getLsbD_swap16 _ (by omega)]
  congr 1
  omega

theorem swap32_swap32 (val : BitVec 32) : swap32 (swap32 val) = val := by
  apply BitVec.eq_of_getLsbD_eq
  intro i hi
  rw [getLsbD_swap32 _ hi, getLsbD_swap32 _ (by omega)]
  congr 1
  omega

theorem swapFileHeader_swap (h : PcapFileHeader) : swapFileHeader (swapFileHeader h) = h := by
  simp only [swapFileHeader, swap16_swap16, swap32_swap32]

theorem swapRecordHeader_swap (h : PcapRecordHeader) :
    swapRecordHeader (swapRecordHeader h) = h := by
  simp only [swapRecordHeader, swap32_swap32]

/-! ### What is written -/

def Payload.content : Payload → List UInt8
  | .data d => d.bytes
  | .packet p => p.bytes
  | .headerPacket header p => header.bytes ++ p.bytes

/-- The total length in 32 bits. -/
def Payload.total (p : Payload) : BitVec 32 := BitVec.ofNat 32 p.content.length

/-- A record with as many bytes as its header says. -/
structure Record where
  header : PcapRecordHeader
  data : List UInt8
  length : data.length = header.inclLen.toNat

theorem total_le (p : Payload) : p.total.toNat ≤ p.content.length := Nat.mod_le _ _

/-- The length included of a packet. -/
def included (snapLen total : BitVec 32) : BitVec 32 := if snapLen < total then snapLen else total

theorem toNat_included (snapLen total : BitVec 32) :
    (included snapLen total).toNat = min total.toNat snapLen.toNat := by
  unfold included
  split
  · rename_i h
    rw [BitVec.lt_def] at h
    omega
  · rename_i h
    rw [BitVec.lt_def] at h
    omega

def record (snapLen : BitVec 32) (c : WriteCall) : Record where
  header :=
    { tsSec := c.tsSec, tsUsec := c.tsUsec, inclLen := included snapLen c.payload.total
      origLen := c.payload.total }
  data := c.payload.content.take (included snapLen c.payload.total).toNat
  length := by
    have hle := total_le c.payload
    rw [List.length_take, toNat_included]
    omega

section
variable (bigEndian : Bool)

def fileHeaderBytes (h : PcapFileHeader) : List UInt8 :=
  hostBytes bigEndian 4 h.magicNumber.toNat ++ hostBytes bigEndian 2 h.versionMajor.toNat ++
    hostBytes bigEndian 2 h.versionMinor.toNat ++ hostBytes bigEndian 4 h.zone.toNat ++
    hostBytes bigEndian 4 h.sigFigs.toNat ++ hostBytes bigEndian 4 h.snapLen.toNat ++
    hostBytes bigEndian 4 h.type.toNat

def recordHeaderBytes (h : PcapRecordHeader) : List UInt8 :=
  hostBytes bigEndian 4 h.tsSec.toNat ++ hostBytes bigEndian 4 h.tsUsec.toNat ++
    hostBytes bigEndian 4 h.inclLen.toNat ++ hostBytes bigEndian 4 h.origLen.toNat

/-- The bytes of a record in the byte order of the file. -/
def recordBytes (swapMode : Bool) (r : Record) : List UInt8 :=
  recordHeaderBytes bigEndian (if swapMode then swapRecordHeader r.header else r.header) ++ r.data

variable {bigEndian} {s : Stream} {f : PcapFile}

theorem putFileHeader_spec (hs : AtEnd s) (h : PcapFileHeader) :
    Appends s (fileHeaderBytes bigEndian h) (putFileHeader bigEndian h s) :=
  ((((((hs.write _).write _).write _).write _).write _).write _).write _

theorem putRecordHeader_spec (hs : AtEnd s) (h : PcapRecordHeader) :
    Appends s (recordHeaderBytes bigEndian h) (putRecordHeader bigEndian h s) :=
  (((hs.write _).write _).write _).write _

/-- The bytes have been appended to the file, which is otherwise as it was. -/
structure Wrote (f : PcapFile) (bs : List UInt8) (f' : PcapFile) : Prop where
  appends : Appends f.file bs f'.file
  fileHeader : f'.fileHeader = f.fileHeader
  swapMode : f'.swapMode = f.swapMode
  nanosecMode : f'.nanosecMode = f.nanosecMode

/-- The bytes of the header as far as they are wanted and then those of the packet. -/
theorem take_header_packet (header p : Octets) {inclLen toCopy : BitVec 32}
    (hcopy : toCopy = if inclLen < header.size then inclLen else header.size) :
    header.bytes.take toCopy.toNat ++ p.bytes.take (inclLen - toCopy).toNat =
      (header.bytes ++ p.bytes).take inclLen.toNat := by
  have hsize : header.size.toNat = header.bytes.length := Nat.mod_eq_of_lt header.fits
  have hmin : toCopy.toNat = min inclLen.toNat header.bytes.length := by
    rw [hcopy, ← hsize]
    split <;> rename_i h <;> rw [BitVec.lt_def] at h <;> omega
  have hle : toCopy ≤ inclLen := by
    rw [BitVec.le_def]
    omega
  rw [BitVec.toNat_sub_of_le hle, hmin, List.take_append, ← List.take_eq_take_min]
  congr 2
  omega

theorem write_spec (hs : AtEnd f.file) (c : WriteCall) :
    Wrote f (recordBytes bigEndian f.swapMode (record f.fileHeader.snapLen c))
      (write bigEndian f c) := by
  have hheader (h : PcapRecordHeader) :
      Appends f.file (recordHeaderBytes bigEndian h) (putRecordHeader bigEndian h f.file) :=
    putRecordHeader_spec hs h
  rcases c with ⟨tsSec, tsUsec, payload⟩
  cases payload with
  | data data => exact ⟨(hheader _).write _, rfl, rfl, rfl⟩
  | packet p => exact ⟨(hheader _).write _, rfl, rfl, rfl⟩
  | headerPacket header p =>
    have htotal : header.size + p.size = (Payload.headerPacket header p).total := by
      rw [Payload.total, Payload.content, List.length_append, BitVec.ofNat_add]
      rfl
    have happends (h : PcapRecordHeader) (inclLen : BitVec 32) := ((hheader h).write
      (header.bytes.take (if inclLen < header.size then inclLen else header.size).toNat)).write
        (p.bytes.take (inclLen - if inclLen < header.size then inclLen else header.size).toNat)
    simp only [List.append_assoc, take_header_packet header p rfl] at happends
    refine ⟨?_, rfl, rfl, rfl⟩
    unfold write writeHeaderPacket
    simp only [htotal]
    exact happends _ _

end

/-! ### Files -/

/-- The arguments of `Init`. -/
structure Settings where
  dataLinkType : BitVec 32
  snapLen : BitVec 32
  timeZoneCorrection : BitVec 32
  swapMode : Bool
  nanosecMode : Bool

def Settings.header (c : Settings) : PcapFileHeader where
  magicNumber := if c.nanosecMode then nsMagic else magic
  versionMajor := PcapFile.versionMajor
  versionMinor := PcapFile.versionMinor
  zone := c.timeZoneCorrection
  sigFigs := 0
  snapLen := c.snapLen
  type := c.dataLinkType

/-- A new file with these packets. -/
def written (bigEndian : Bool) (new : PcapFile) (c : Settings) (calls : List WriteCall) :
    PcapFile :=
  calls.foldl (write bigEndian)
    (init bigEndian { new with file := {} } c.dataLinkType c.snapLen c.timeZoneCorrection
      c.swapMode c.nanosecMode)

section
variable {bigEndian : Bool} {new f : PcapFile} {c : Settings} {calls : List WriteCall}
  {rest : List UInt8} {r : Record}

/-- The header of a file in its byte order. -/
def storedHeader (swapMode : Bool) (h : PcapFileHeader) : PcapFileHeader :=
  if swapMode then swapFileHeader h else h

theorem foldl_write (hs : AtEnd f.file) (calls : List WriteCall) :
    Wrote f (calls.flatMap fun call =>
      recordBytes bigEndian f.swapMode (record f.fileHeader.snapLen call))
      (calls.foldl (write bigEndian) f) := by
  induction calls generalizing f with
  | nil => exact ⟨⟨(List.append_nil _).symm, hs⟩, rfl, rfl, rfl⟩
  | cons call calls ih =>
    have hone : Wrote f _ (write bigEndian f call) := write_spec hs call
    have hmore := ih hone.appends.atEnd
    rw [hone.fileHeader, hone.swapMode] at hmore
    exact ⟨hone.appends.trans hmore.appends, hmore.fileHeader.trans hone.fileHeader,
      hmore.swapMode.trans hone.swapMode, hmore.nanosecMode.trans hone.nanosecMode⟩

theorem bytes_written (bigEndian : Bool) (new : PcapFile) (c : Settings) (calls : List WriteCall) :
    (written bigEndian new c calls).file.bytes =
      fileHeaderBytes bigEndian (storedHeader (c.swapMode || bigEndian) c.header) ++
        calls.flatMap fun call =>
          recordBytes bigEndian (c.swapMode || bigEndian) (record c.snapLen call) := by
  have hinit : Appends _ (fileHeaderBytes bigEndian _) _ := putFileHeader_spec atEnd_empty
    (storedHeader (c.swapMode || bigEndian) c.header)
  exact ((foldl_write hinit.atEnd calls).appends.bytes).trans
    (congrArg (· ++ _) hinit.bytes)

theorem getFileHeader_spec {s : Stream} (old h : PcapFileHeader)
    (hs : Before s (fileHeaderBytes bigEndian h ++ rest)) :
    (getFileHeader bigEndian old s).1 = h ∧ Before (getFileHeader bigEndian old s).2 rest := by
  unfold fileHeaderBytes at hs
  simp only [List.append_assoc] at hs
  obtain ⟨hmagic, hs⟩ := hs.readWord old.magicNumber
  obtain ⟨hmajor, hs⟩ := hs.readWord old.versionMajor
  obtain ⟨hminor, hs⟩ := hs.readWord old.versionMinor
  obtain ⟨hzone, hs⟩ := hs.readWord old.zone
  obtain ⟨hsig, hs⟩ := hs.readWord old.sigFigs
  obtain ⟨hsnap, hs⟩ := hs.readWord old.snapLen
  obtain ⟨htype, hs⟩ := hs.readWord old.type
  refine ⟨?_, hs⟩
  unfold getFileHeader
  simp only [hmagic, hmajor, hminor, hzone, hsig, hsnap, htype]

theorem getRecordHeader_spec {s : Stream} (h : PcapRecordHeader)
    (hs : Before s (recordHeaderBytes bigEndian h ++ rest)) :
    (getRecordHeader bigEndian s).1 = h ∧ Before (getRecordHeader bigEndian s).2 rest := by
  unfold recordHeaderBytes at hs
  simp only [List.append_assoc] at hs
  obtain ⟨hsec, hs⟩ := hs.readWord 0
  obtain ⟨husec, hs⟩ := hs.readWord 0
  obtain ⟨hincl, hs⟩ := hs.readWord 0
  obtain ⟨horig, hs⟩ := hs.readWord 0
  refine ⟨?_, hs⟩
  unfold getRecordHeader
  simp only [hsec, husec, hincl, horig]

/-- The file is open for reading with these settings and bytes in front of it. -/
structure Opened (bigEndian : Bool) (c : Settings) (rest : List UInt8) (f : PcapFile) : Prop where
  before : Before f.file rest
  fileHeader : f.fileHeader = c.header
  swapMode : f.swapMode = (c.swapMode || bigEndian)
  nanosecMode : f.nanosecMode = c.nanosecMode

/-- The magic number tells the byte order and the unit of the timestamps. -/
theorem magic_stored (c : Settings) (swap : Bool) :
    knownMagic (storedHeader swap c.header).magicNumber = true ∧
    ((storedHeader swap c.header).magicNumber == swappedMagic ||
      (storedHeader swap c.header).magicNumber == nsSwappedMagic) = swap ∧
    (c.header.magicNumber == nsMagic || c.header.magicNumber == nsSwappedMagic) =
      c.nanosecMode := by
  have hstored : (storedHeader swap c.header).magicNumber =
      if swap then swap32 c.header.magicNumber else c.header.magicNumber := by
    cases swap <;> rfl
  have hplain : c.header.magicNumber = if c.nanosecMode then nsMagic else magic := rfl
  rw [hstored, hplain]
  cases swap <;> cases c.nanosecMode <;> decide +kernel

theorem storedHeader_stored (swap : Bool) (h : PcapFileHeader) :
    (if swap then swapFileHeader (storedHeader swap h) else storedHeader swap h) = h := by
  cases swap
  · rfl
  · exact swapFileHeader_swap h

theorem openFile_spec (new : PcapFile) (rest : List UInt8)
    (hzone : -12 ≤ c.timeZoneCorrection.toInt ∧ c.timeZoneCorrection.toInt ≤ 12) :
    Opened bigEndian c rest (openFile bigEndian new
      (fileHeaderBytes bigEndian (storedHeader (c.swapMode || bigEndian) c.header) ++ rest)) := by
  generalize hswap : (c.swapMode || bigEndian) = swap
  obtain ⟨hheader, hbefore⟩ := getFileHeader_spec new.fileHeader _
    (before_start (fileHeaderBytes bigEndian (storedHeader swap c.header) ++ rest))
  obtain ⟨hknown, hmode, hnano⟩ := magic_stored c swap
  have hrange : decide (c.timeZoneCorrection.toInt < -12 ∨ 12 < c.timeZoneCorrection.toInt) =
      false := decide_eq_false (by omega)
  unfold openFile readAndVerifyFileHeader
  simp only [Stream.seek, hheader, Bool.false_eq_true, if_false, hbefore.failed, hmode, hknown,
    storedHeader_stored, hnano]
  refine ⟨⟨hbefore.eof, ?_, hbefore.rest⟩, rfl, hswap.symm, rfl⟩
  change (!true || versionMajor != versionMajor || versionMinor != versionMinor ||
    decide (c.timeZoneCorrection.toInt < -12 ∨ 12 < c.timeZoneCorrection.toInt)) = false
  rw [hrange]
  rfl

/-- What `Read` makes of its arguments for a record. -/
def fetch (r : Record) (maxBytes : BitVec 32) (out : Fetched) : Fetched :=
  let readLen := if maxBytes < r.header.inclLen then maxBytes else r.header.inclLen
  { data := r.data.take readLen.toNat ++ out.data.drop readLen.toNat
    tsSec := r.header.tsSec
    tsUsec := r.header.tsUsec
    inclLen := r.header.inclLen
    origLen := r.header.origLen
    readLen }

theorem read_spec (hf : Opened bigEndian c (recordBytes bigEndian (c.swapMode || bigEndian) r ++ rest) f)
    (maxBytes : BitVec 32) (out : Fetched) :
    (read bigEndian f maxBytes out).1 = fetch r maxBytes out ∧
      Opened bigEndian c rest (read bigEndian f maxBytes out).2 := by
  have hstored : (if f.swapMode then swapRecordHeader
      (if (c.swapMode || bigEndian) then swapRecordHeader r.header else r.header) else
      (if (c.swapMode || bigEndian) then swapRecordHeader r.header else r.header)) = r.header := by
    rw [hf.swapMode]
    cases c.swapMode || bigEndian
    · rfl
    · exact swapRecordHeader_swap r.header
  have hbefore := hf.before
  unfold recordBytes at hbefore
  rw [List.append_assoc] at hbefore
  obtain ⟨hheader, hbefore⟩ := getRecordHeader_spec _ hbefore
  unfold read fetch
  simp only [hheader, hbefore.failed, Bool.false_eq_true, if_false, hstored]
  generalize hlen : (if maxBytes < r.header.inclLen then maxBytes else r.header.inclLen) = readLen
  have hle : readLen ≤ r.header.inclLen := by
    rw [← hlen, BitVec.le_def]
    split
    · rename_i h
      exact Nat.le_of_lt (BitVec.lt_def.mp h)
    · exact Nat.le_refl _
  have htake : (r.data.take readLen.toNat).length = readLen.toNat := by
    rw [List.length_take, r.length]
    exact Nat.min_eq_left hle
  rw [← List.take_append_drop readLen.toNat r.data, List.append_assoc] at hbefore
  obtain ⟨hgot, hmore⟩ := hbefore.read
  rw [htake] at hgot hmore
  rw [hgot, htake]
  refine ⟨rfl, ?_, hf.fileHeader, hf.swapMode, hf.nanosecMode⟩
  have hdrop : (r.data.drop readLen.toNat).length = (r.header.inclLen - readLen).toNat := by
    rw [List.length_drop, r.length, BitVec.toNat_sub_of_le hle]
  split
  · rw [← hdrop]
    exact hmore.skip
  · rename_i hnot
    have hnil : r.data.drop readLen.toNat = [] := by
      apply List.length_eq_zero_iff.mp
      rw [BitVec.lt_def] at hnot
      rw [List.length_drop, r.length]
      omega
    rwa [hnil] at hmore

/-- At the end of the file nothing is fetched and both flags are set. -/
theorem read_end (hf : Opened bigEndian c [] f) (maxBytes : BitVec 32) (out : Fetched) :
    (read bigEndian f maxBytes out).1 = out ∧ (read bigEndian f maxBytes out).2.eof = true ∧
      (read bigEndian f maxBytes out).2.fail = true := by
  obtain ⟨-, heof, hfailed⟩ := hf.before.read_end (show 0 < 4 by decide)
  have hkept : (getRecordHeader bigEndian f.file).2 = (f.file.read 4).2 := by
    have hstays (s : Stream) (hs : s.failed = true) : (s.read 4).2 = s := (read_failed hs).2
    change ((((f.file.read 4).2.read 4).2.read 4).2.read 4).2 = _
    rw [hstays _ hfailed, hstays _ hfailed, hstays _ hfailed]
  unfold read
  rw [← hkept] at heof hfailed
  simp only [hfailed, if_true]
  exact ⟨trivial, heof, hfailed⟩

/-! ### Round trips -/

/-- One call of `Read` for each of the arguments. -/
def readAll (bigEndian : Bool) : PcapFile → List (BitVec 32 × Fetched) → List Fetched × PcapFile
  | f, [] => ([], f)
  | f, (maxBytes, out) :: args =>
    let (out, f) := read bigEndian f maxBytes out
    let (outs, f) := readAll bigEndian f args
    (out :: outs, f)

/-- What `Read` with `maxBytes` returns of a packet. -/
structure Yields (snapLen : BitVec 32) (call : WriteCall) (maxBytes : BitVec 32)
    (out : Fetched) : Prop where
  tsSec : out.tsSec = call.tsSec
  tsUsec : out.tsUsec = call.tsUsec
  inclLen : out.inclLen.toNat = min call.payload.total.toNat snapLen.toNat
  origLen : out.origLen = call.payload.total
  readLen : out.readLen.toNat = min maxBytes.toNat out.inclLen.toNat
  data : out.data.take out.readLen.toNat =
    call.payload.content.take (min maxBytes.toNat out.inclLen.toNat)

/-- The file that is opened has the header that was written and gives the packets in order, and
then it is at its end. -/
structure RoundTrips (bigEndian : Bool) (c : Settings)
    (calls : List WriteCall) (args : List (BitVec 32 × Fetched)) (g : PcapFile) : Prop where
  opened : g.fail = false
  fileHeader : g.fileHeader = c.header
  swapMode : g.swapMode = (c.swapMode || bigEndian)
  nanosecMode : g.nanosecMode = c.nanosecMode
  packets : List.Forall₂ (fun (ca : WriteCall × BitVec 32 × Fetched) out =>
    Yields c.snapLen ca.1 ca.2.1 out) (calls.zip args) (readAll bigEndian g args).1
  more : (readAll bigEndian g args).2.eof = false ∧ (readAll bigEndian g args).2.fail = false
  ends : ∀ maxBytes out, let r := read bigEndian (readAll bigEndian g args).2 maxBytes out
    r.1 = out ∧ r.2.eof = true ∧ r.2.fail = true

theorem toNat_readLen (r : Record) (maxBytes : BitVec 32) (out : Fetched) :
    (fetch r maxBytes out).readLen.toNat = min maxBytes.toNat r.header.inclLen.toNat := by
  unfold fetch
  change (if maxBytes < r.header.inclLen then maxBytes else r.header.inclLen).toNat = _
  split <;> rename_i h <;> rw [BitVec.lt_def] at h <;> omega

theorem data_fetch (r : Record) (maxBytes : BitVec 32) (out : Fetched) :
    (fetch r maxBytes out).data.take (fetch r maxBytes out).readLen.toNat =
      r.data.take (fetch r maxBytes out).readLen.toNat := by
  apply List.take_left'
  rw [List.length_take, r.length]
  change min (fetch r maxBytes out).readLen.toNat _ = (fetch r maxBytes out).readLen.toNat
  rw [toNat_readLen]
  omega

theorem yields_fetch (snapLen : BitVec 32) (call : WriteCall) (maxBytes : BitVec 32)
    (out : Fetched) : Yields snapLen call maxBytes (fetch (record snapLen call) maxBytes out) := by
  refine ⟨rfl, rfl, toNat_included _ _, rfl, toNat_readLen _ _ _, ?_⟩
  rw [data_fetch, toNat_readLen]
  change (call.payload.content.take (included snapLen call.payload.total).toNat).take
    (min maxBytes.toNat (included snapLen call.payload.total).toNat) = _
  rw [List.take_take, Nat.min_assoc, Nat.min_self]
  rfl

theorem readAll_spec {args : List (BitVec 32 × Fetched)} (hlen : args.length = calls.length)
    (hf : Opened bigEndian c (calls.flatMap fun call =>
      recordBytes bigEndian (c.swapMode || bigEndian) (record c.snapLen call)) f) :
    List.Forall₂ (fun (ca : WriteCall × BitVec 32 × Fetched) out =>
      Yields c.snapLen ca.1 ca.2.1 out) (calls.zip args) (readAll bigEndian f args).1 ∧
      Opened bigEndian c [] (readAll bigEndian f args).2 := by
  induction calls generalizing f args with
  | nil =>
    obtain rfl := List.length_eq_zero_iff.mp hlen
    exact ⟨.nil, hf⟩
  | cons call calls ih =>
    cases args with
    | nil => cases hlen
    | cons arg args =>
      obtain ⟨maxBytes, out⟩ := arg
      rw [List.flatMap_cons] at hf
      obtain ⟨hout, hrest⟩ := read_spec hf maxBytes out
      obtain ⟨houts, hend⟩ := ih (Nat.succ.inj hlen) hrest
      have hyields := yields_fetch c.snapLen call maxBytes out
      rw [← hout] at hyields
      exact ⟨.cons hyields houts, hend⟩

theorem roundTrips (bigEndian : Bool) (new : PcapFile) (calls : List WriteCall)
    {args : List (BitVec 32 × Fetched)} (hlen : args.length = calls.length)
    (hzone : -12 ≤ c.timeZoneCorrection.toInt ∧ c.timeZoneCorrection.toInt ≤ 12) :
    RoundTrips bigEndian c calls args
      (openFile bigEndian new (written bigEndian new c calls).file.bytes) := by
  rw [bytes_written]
  have hopened : Opened bigEndian c _ _ := openFile_spec new
    (calls.flatMap fun call =>
      recordBytes bigEndian (c.swapMode || bigEndian) (record c.snapLen call)) hzone
  obtain ⟨hpackets, hend⟩ := readAll_spec hlen hopened
  exact ⟨hopened.before.failed, hopened.fileHeader, hopened.swapMode, hopened.nanosecMode,
    hpackets, ⟨hend.before.eof, hend.before.failed⟩, fun maxBytes out => read_end hend maxBytes out⟩

end

end PcapFile

end CudaNs3.Network
