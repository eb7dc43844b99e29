import Mathlib.Algebra.Group.Nat.Defs
import CudaNs3.Device.Packet
import CudaNs3.Lib.Bytes
import CudaNs3.Lib.Handles

/-!
# Byte tags

A `ByteTagList` stores its tags one after the other in a block that other lists may share. The
offsets of a tag are stored less the adjustment of the list, and are neither moved nor cut off
when the packet loses bytes.
-/

namespace CudaNs3.Network

open Device (le32)
set_option autoImplicit false

/-- A tag as `Tag::Serialize` writes it. -/
structure Tag where
  tid : UInt32
  content : List UInt8
  length_lt : content.length < 2 ^ 32
  deriving DecidableEq

def Tag.getSerializedSize (t : Tag) : Nat := t.content.length

structure ByteTagListData where
  size : Nat
  count : Nat
  dirty : Nat
  data : Nat → UInt8

/-- The blocks, numbered in the order in which `Allocate` hands them out, and the statics of the
file. A block from the free list gets a new number. -/
structure TagMemory where
  blocks : Nat → ByteTagListData
  next : Nat
  fresh : Nat → Nat → UInt8
  freeList : List ByteTagListData
  maxSize : Nat

structure ByteTagList where
  minStart : Int32
  maxEnd : Int32
  adjustment : Int32
  used : Nat
  data : Option Nat

def offsetMax : Int32 := .maxValue

namespace TagMemory

variable (h : TagMemory)

def set (k : Nat) (d : ByteTagListData) : TagMemory :=
  { h with blocks := fun i => if i = k then d else h.blocks i }

@[simp] theorem set_blocks (k : Nat) (d : ByteTagListData) (i : Nat) :
    (h.set k d).blocks i = if i = k then d else h.blocks i := rfl

@[simp] theorem set_next (k : Nat) (d : ByteTagListData) : (h.set k d).next = h.next := rfl

/-- The loop of `Allocate`: blocks that are too small are deleted. -/
def popFree (size : Nat) : List ByteTagListData → Option ByteTagListData × List ByteTagListData
  | [] => (none, [])
  | d :: rest => if size ≤ d.size then (some d, rest) else popFree size rest

/-- A new block has room for `max(size, g_maxSize)` bytes, and `size` says less. -/
def allocate (size : Nat) : TagMemory × Nat :=
  let (found, rest) := popFree size h.freeList
  let d := match found with
    | some d => { d with count := 1, dirty := 0 }
    | none => ⟨size, 1, 0, h.fresh h.next⟩
  ({ h.set h.next d with next := h.next + 1, freeList := rest }, h.next)

def deallocate (data : Option Nat) : TagMemory :=
  match data with
  | none => h
  | some k =>
    let maxSize := max h.maxSize (h.blocks k).size
    let h : TagMemory := { h.set k { h.blocks k with count := (h.blocks k).count - 1 } with
      maxSize := maxSize }
    if (h.blocks k).count = 0 then
      if 1000 < h.freeList.length ∨ (h.blocks k).size < maxSize then h
      else { h with freeList := h.blocks k :: h.freeList }
    else h

end TagMemory

/-! ### The stored form -/

/-- `TagBuffer::ReadU32`; `none` when the buffer ends before. -/
def readU32 : List UInt8 → Option (UInt32 × List UInt8)
  | b0 :: b1 :: b2 :: b3 :: bs =>
    some (UInt32.ofNat (b0.toNat + 256 * b1.toNat + 65536 * b2.toNat + 16777216 * b3.toNat), bs)
  | _ => none

/-- What stands for one tag in a block. -/
structure TagRecord where
  tag : Tag
  start : Int32
  end_ : Int32

def TagRecord.bytes (r : TagRecord) : List UInt8 :=
  le32 r.tag.tid ++ le32 (UInt32.ofNat r.tag.content.length) ++ le32 r.start.toUInt32 ++
    le32 r.end_.toUInt32 ++ r.tag.content

/-- The record at the start of `bs`, and what follows it. -/
def readRecord (bs : List UInt8) : Option (TagRecord × List UInt8) := do
  let (tid, bs) ← readU32 bs
  let (size, bs) ← readU32 bs
  let (start, bs) ← readU32 bs
  let (end_, bs) ← readU32 bs
  if bs.length < size.toNat then none
  else
    let tag : Tag := ⟨tid, bs.take size.toNat, Nat.lt_of_le_of_lt (List.length_take_le _ _)
      size.toNat_lt⟩
    some (⟨tag, start.toInt32, end_.toInt32⟩, bs.drop size.toNat)

namespace ByteTagList

/-- `Iterator::Item`. -/
structure Item where
  tag : Tag
  start : Int32
  end_ : Int32

/-- What the calls of `Iterator::Next` return, one after the other: `PrepareForNext` goes past
the tags outside `[offsetStart, offsetEnd)`, and the others are cut off there. A record has 16
bytes or more, so `bs.length` is enough fuel. -/
def items (offsetStart offsetEnd adjustment : Int32) : Nat → List UInt8 → List Item
  | 0, _ => []
  | fuel + 1, bs =>
    match readRecord bs with
    | none => []
    | some (r, bs) =>
      let nextStart := r.start + adjustment
      let nextEnd := r.end_ + adjustment
      if offsetEnd ≤ nextStart ∨ nextEnd ≤ offsetStart then
        items offsetStart offsetEnd adjustment fuel bs
      else
        ⟨r.tag, if nextStart < offsetStart then offsetStart else nextStart,
          if offsetEnd < nextEnd then offsetEnd else nextEnd⟩ ::
          items offsetStart offsetEnd adjustment fuel bs

def empty : ByteTagList := ⟨.maxValue, .minValue, 0, 0, none⟩

variable (h : TagMemory) (l : ByteTagList)

/-- `Begin`, and the whole of the iteration. -/
def begin (offsetStart offsetEnd : Int32) : List Item :=
  match l.data with
  | none => []
  | some k => items offsetStart offsetEnd l.adjustment l.used (Bytes.read (h.blocks k).data 0 l.used)

def beginAll : List Item := begin h l 0 offsetMax

/-- The copy constructor. -/
def copy : TagMemory × ByteTagList :=
  match l.data with
  | none => (h, l)
  | some k => (h.set k { h.blocks k with count := (h.blocks k).count + 1 }, l)

/-- `operator=` between different objects. -/
def assign (o : ByteTagList) : TagMemory × ByteTagList := copy (h.deallocate l.data) o

/-- The first half of `Add`: the block in which `spaceNeeded` bytes can be used. -/
def makeRoom (spaceNeeded : Nat) : TagMemory × Nat :=
  match l.data with
  | none => h.allocate spaceNeeded
  | some k =>
    if (h.blocks k).size < spaceNeeded ∨ ((h.blocks k).count ≠ 1 ∧ (h.blocks k).dirty ≠ l.used)
    then
      let (h, k') := h.allocate spaceNeeded
      let bytes := Bytes.read (h.blocks k).data 0 l.used
      let h := h.set k' { h.blocks k' with data := Bytes.write (h.blocks k').data 0 bytes }
      (h.deallocate (some k), k')
    else (h, k)

/-- `Add(tid, bufferSize, start, end)`, with the bytes that the caller writes. -/
def add (tag : Tag) (start end_ : Int32) : TagMemory × ByteTagList :=
  let spaceNeeded := l.used + tag.getSerializedSize + 4 + 4 + 4 + 4
  let (h, k) := makeRoom h l spaceNeeded
  let record : TagRecord := ⟨tag, start - l.adjustment, end_ - l.adjustment⟩
  let minStart := if record.start < l.minStart then record.start else l.minStart
  let maxEnd := if l.maxEnd < record.end_ then record.end_ else l.maxEnd
  (h.set k { h.blocks k with
    data := Bytes.write (h.blocks k).data l.used record.bytes, dirty := spaceNeeded },
    ⟨minStart, maxEnd, l.adjustment, spaceNeeded, some k⟩)

/-- The items are added one after the other. -/
def addItems (is : List Item) : TagMemory × ByteTagList :=
  is.foldl (fun (h, l) item => add h l item.tag item.start item.end_) (h, l)

/-- `Add(const ByteTagList&)`. -/
def addList (o : ByteTagList) : TagMemory × ByteTagList := addItems h l (beginAll h o)

def adjust (adjustment : Int32) : ByteTagList := { l with adjustment := l.adjustment + adjustment }

/-- The items are added to a new list, which is assigned and destroyed. -/
def rebuild (is : List Item) : TagMemory × ByteTagList :=
  let (h, list) := addItems h empty is
  let (h, l) := assign h l list
  (h.deallocate list.data, l)

/-- The assignment also replaces the `m_maxEnd` that the loop keeps. -/
def addAtEnd (appendOffset : Int32) : TagMemory × ByteTagList :=
  if l.maxEnd ≤ appendOffset - l.adjustment then (h, l)
  else
    rebuild h l <| (beginAll h l).filterMap fun item =>
      if appendOffset ≤ item.start then none
      else some { item with end_ := if appendOffset < item.end_ then appendOffset else item.end_ }

def addAtStart (prependOffset : Int32) : TagMemory × ByteTagList :=
  if prependOffset - l.adjustment ≤ l.minStart then (h, l)
  else
    rebuild h l <| (beginAll h l).filterMap fun item =>
      if item.end_ ≤ prependOffset then none
      else some { item with
        start := if item.start < prependOffset then prependOffset else item.start }

end ByteTagList

/-! ### Packets -/

/-- Of the buffer of a packet only its size is used here. -/
structure TaggedPacket where
  getSize : Nat
  byteTagList : ByteTagList

namespace TaggedPacket

open ByteTagList

variable (h : TagMemory) (p : TaggedPacket)

def offset (n : Nat) : Int32 := .ofNat n

def create (size : Nat) : TaggedPacket := ⟨size, empty⟩

def addByteTag (tag : Tag) : TagMemory × TaggedPacket :=
  let (h, list) := ByteTagList.add h p.byteTagList tag 0 (offset p.getSize)
  (h, { p with byteTagList := list })

/-- `AddByteTag(tag, start, end)`. -/
def addByteTagRange (tag : Tag) (start end_ : Nat) : TagMemory × TaggedPacket :=
  let (h, list) := ByteTagList.add h p.byteTagList tag (offset start) (offset end_)
  (h, { p with byteTagList := list })

def getByteTagIterator : List Item := ByteTagList.begin h p.byteTagList 0 (offset p.getSize)

def addHeader (size : Nat) : TagMemory × TaggedPacket :=
  let list := p.byteTagList.adjust (offset size)
  let (h, list) := ByteTagList.addAtStart h list (offset size)
  (h, ⟨p.getSize + size, list⟩)

def removeAtStart (size : Nat) : TaggedPacket :=
  ⟨p.getSize - size, p.byteTagList.adjust (-offset size)⟩

def removeHeader (deserialized : Nat) : TaggedPacket :=
  ⟨p.getSize - deserialized, p.byteTagList.adjust (-offset deserialized)⟩

def addPaddingAtEnd (size : Nat) : TagMemory × TaggedPacket :=
  let (h, list) := ByteTagList.addAtEnd h p.byteTagList (offset p.getSize)
  (h, ⟨p.getSize + size, list⟩)

def addTrailer (size : Nat) : TagMemory × TaggedPacket :=
  let (h, list) := ByteTagList.addAtEnd h p.byteTagList (offset p.getSize)
  (h, ⟨p.getSize + size, list⟩)

def removeAtEnd (size : Nat) : TaggedPacket := { p with getSize := p.getSize - size }

def removeTrailer (deserialized : Nat) : TaggedPacket :=
  { p with getSize := p.getSize - deserialized }

def addAtEnd (packet : TaggedPacket) : TagMemory × TaggedPacket :=
  let (h, list) := ByteTagList.addAtEnd h p.byteTagList (offset p.getSize)
  let (h, copy) := ByteTagList.copy h packet.byteTagList
  let (h, copy) := ByteTagList.addAtStart h copy 0
  let copy := copy.adjust (offset p.getSize)
  let (h, list) := ByteTagList.addList h list copy
  (h.deallocate copy.data, ⟨p.getSize + packet.getSize, list⟩)

/-- The copy constructor. -/
def copy : TagMemory × TaggedPacket :=
  let (h, list) := ByteTagList.copy h p.byteTagList
  (h, { p with byteTagList := list })

/-- The list is copied once more into the new packet, and the first copy goes. -/
def createFragment (start length : Nat) : TagMemory × TaggedPacket :=
  let (h, byteTagList) := ByteTagList.copy h p.byteTagList
  let byteTagList := byteTagList.adjust (-offset start)
  let (h, list) := ByteTagList.copy h byteTagList
  (h.deallocate byteTagList.data, ⟨length, list⟩)

/-- `~Packet`. -/
def destroy : TagMemory := h.deallocate p.byteTagList.data

end TaggedPacket

end CudaNs3.Network
