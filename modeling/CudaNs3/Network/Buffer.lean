import CudaNs3.Lib.Bytes

/-!
# Packet buffers

A `Buffer` is a window on a block of storage that other Buffers may share. Its offsets are
virtual: between `zeroAreaStart` and `zeroAreaEnd` stand zeros that the block does not store,
so what follows the zero area is stored that much earlier.
-/

namespace CudaNs3.Network

set_option autoImplicit false

/-- What stops the code: a failed assertion, or an access outside the block. -/
inductive Fault where
  | assertion
  | outOfBlock
  deriving DecidableEq, Repr

def check (p : Prop) [Decidable p] : Except Fault Unit :=
  if p then .ok () else .error .assertion

theorem check_pos {p : Prop} [Decidable p] (hp : p) : check p = .ok () := if_pos hp

theorem check_neg {p : Prop} [Decidable p] (hp : ¬ p) : check p = .error .assertion := if_neg hp

/-- `Buffer::Data`. -/
structure Data where
  count : Nat
  size : Nat
  dirtyStart : Nat
  dirtyEnd : Nat
  bytes : Nat → UInt8

/-- `data` is the number of the block. -/
structure Buffer where
  data : Nat
  maxZeroAreaStart : Nat
  zeroAreaStart : Nat
  zeroAreaEnd : Nat
  start : Nat
  end_ : Nat
  deriving DecidableEq

/-- The blocks, numbered in the order in which `Buffer::Create` hands them out, and the static
members of `Buffer`. A block from the free list, whose back comes first here, gets a new number.
`fresh k` is what the allocator leaves in block `k`. -/
structure Memory where
  blocks : Nat → Data
  next : Nat
  fresh : Nat → Nat → UInt8
  freeList : List Data
  maxSize : Nat
  recommendedStart : Nat

namespace Memory

def set (h : Memory) (k : Nat) (d : Data) : Memory :=
  { h with blocks := fun i => if i = k then d else h.blocks i }

@[simp] theorem set_blocks (h : Memory) (k : Nat) (d : Data) (i : Nat) :
    (h.set k d).blocks i = if i = k then d else h.blocks i := rfl

@[simp] theorem set_next (h : Memory) (k : Nat) (d : Data) : (h.set k d).next = h.next := rfl

/-- The cells of block `k` from `pos` on become `bs`. -/
def poke (h : Memory) (k pos : Nat) (bs : List UInt8) : Memory :=
  h.set k { h.blocks k with bytes := Bytes.write (h.blocks k).bytes pos bs }

def store (h : Memory) (k pos : Nat) (bs : List UInt8) : Except Fault Memory :=
  if bs ≠ [] ∧ (h.blocks k).size < pos + bs.length then .error .outOfBlock
  else .ok (h.poke k pos bs)

/-- `Buffer::Allocate`: the dirty bounds are not initialised, and are set before they are read. -/
def allocate (h : Memory) (reqSize : Nat) : Data where
  count := 1
  size := max reqSize 1
  dirtyStart := 0
  dirtyEnd := 0
  bytes := h.fresh h.next

/-- The loop of `Buffer::Create`: blocks that are too small are deallocated. -/
def popFree (dataSize : Nat) : List Data → Option Data × List Data
  | [] => (none, [])
  | d :: rest => if dataSize ≤ d.size then (some d, rest) else popFree dataSize rest

def create (h : Memory) (dataSize : Nat) : Memory × Nat :=
  let (found, rest) := popFree dataSize h.freeList
  let d := match found with
    | some d => { d with count := 1 }
    | none => h.allocate dataSize
  ({ h.set h.next d with next := h.next + 1, freeList := rest }, h.next)

def recycle (h : Memory) (k : Nat) : Memory :=
  let maxSize := max h.maxSize (h.blocks k).size
  if (h.blocks k).size < maxSize ∨ 1000 < h.freeList.length then { h with maxSize := maxSize }
  else { h with maxSize := maxSize, freeList := h.blocks k :: h.freeList }

/-- One Buffer less points to block `k`. -/
def release (h : Memory) (k : Nat) : Memory :=
  let h := h.set k { h.blocks k with count := (h.blocks k).count - 1 }
  if (h.blocks k).count = 0 then h.recycle k else h

def setDirty (h : Memory) (k dirtyStart dirtyEnd : Nat) : Memory :=
  h.set k { h.blocks k with dirtyStart := dirtyStart, dirtyEnd := dirtyEnd }

end Memory

namespace Buffer

variable (h : Memory) (b : Buffer)

def getSize : Nat := b.end_ - b.start

/-- How much is added to an offset behind the zero area. -/
def zeroSize : Nat := b.zeroAreaEnd - b.zeroAreaStart

def getInternalSize : Nat := b.zeroAreaStart - b.start + (b.end_ - b.zeroAreaEnd)

def getInternalEnd : Nat := b.end_ - (b.zeroAreaEnd - b.zeroAreaStart)

/-- `Buffer::Initialize`, which the constructors call. -/
def construct (zeroSize : Nat) : Memory × Buffer :=
  let (h, k) := h.create 0
  let start := min (h.blocks k).size h.recommendedStart
  (h.setDirty k start (start + zeroSize), ⟨k, start, start, start + zeroSize, start,
    start + zeroSize⟩)

/-- The copy constructor. -/
def copy : Memory × Buffer :=
  (h.set b.data { h.blocks b.data with count := (h.blocks b.data).count + 1 },
    { b with maxZeroAreaStart := b.zeroAreaStart })

/-- `Buffer::operator=`. -/
def assign (o : Buffer) : Memory × Buffer :=
  let h := if b.data = o.data then h else
    let h := h.release b.data
    h.set o.data { h.blocks o.data with count := (h.blocks o.data).count + 1 }
  ({ h with recommendedStart := max h.recommendedStart b.maxZeroAreaStart }, o)

/-- `Buffer::~Buffer`. -/
def destroy : Memory :=
  ({ h with recommendedStart := max h.recommendedStart b.maxZeroAreaStart } : Memory).release b.data

/-- The stored bytes move to a new block, where they start at `pos`. -/
def relocate (newSize pos : Nat) : Memory × Nat :=
  let (h, k) := h.create newSize
  let h := h.poke k pos (Bytes.read (h.blocks b.data).bytes b.start b.getInternalSize)
  (h.release b.data, k)

def addAtStart (start : Nat) : Except Fault (Memory × Buffer) :=
  let d := h.blocks b.data
  let isDirty := 1 < d.count ∧ d.dirtyStart < b.start
  if start ≤ b.start ∧ ¬ isDirty then do
    check (d.count = 1 ∨ b.start = d.dirtyStart)
    let b := { b with start := b.start - start }
    let b := { b with maxZeroAreaStart := max b.maxZeroAreaStart b.zeroAreaStart }
    return (h.setDirty b.data b.start d.dirtyEnd, b)
  else
    let (h, k) := relocate h b (b.getInternalSize + start) start
    -- every offset moves by `start - b.start`, then `m_start` goes back by `start`
    let b := { b with
      data := k
      start := 0
      zeroAreaStart := b.zeroAreaStart + start - b.start
      zeroAreaEnd := b.zeroAreaEnd + start - b.start
      end_ := b.end_ + start - b.start }
    let b := { b with maxZeroAreaStart := max b.maxZeroAreaStart b.zeroAreaStart }
    .ok (h.setDirty k b.start b.end_, b)

def addAtEnd (end_ : Nat) : Except Fault (Memory × Buffer) :=
  let d := h.blocks b.data
  let isDirty := 1 < d.count ∧ b.end_ < d.dirtyEnd
  if b.getInternalEnd + end_ ≤ d.size ∧ ¬ isDirty then do
    check (d.count = 1 ∨ b.end_ = d.dirtyEnd)
    let b := { b with end_ := b.end_ + end_ }
    let b := { b with maxZeroAreaStart := max b.maxZeroAreaStart b.zeroAreaStart }
    return (h.setDirty b.data d.dirtyStart b.end_, b)
  else
    let (h, k) := relocate h b (b.getInternalSize + end_) 0
    let b := { b with
      data := k
      start := 0
      zeroAreaStart := b.zeroAreaStart - b.start
      zeroAreaEnd := b.zeroAreaEnd - b.start
      end_ := b.end_ - b.start + end_ }
    let b := { b with maxZeroAreaStart := max b.maxZeroAreaStart b.zeroAreaStart }
    .ok (h.setDirty k b.start b.end_, b)

def removeAtStart (start : Nat) : Buffer :=
  let newStart := b.start + start
  let b :=
    if newStart ≤ b.zeroAreaStart then { b with start := newStart }
    else if newStart ≤ b.zeroAreaEnd then
      let delta := newStart - b.zeroAreaStart
      { b with
        start := b.zeroAreaStart
        zeroAreaEnd := b.zeroAreaEnd - delta
        end_ := b.end_ - delta }
    else if newStart ≤ b.end_ then
      let zeroSize := b.zeroAreaEnd - b.zeroAreaStart
      let start := newStart - zeroSize
      { b with start := start, end_ := b.end_ - zeroSize, zeroAreaStart := start,
               zeroAreaEnd := start }
    else
      let end_ := b.end_ - (b.zeroAreaEnd - b.zeroAreaStart)
      { b with start := end_, end_ := end_, zeroAreaStart := end_, zeroAreaEnd := end_ }
  { b with maxZeroAreaStart := max b.maxZeroAreaStart b.zeroAreaStart }

def removeAtEnd (end_ : Nat) : Buffer :=
  let newEnd := b.end_ - min end_ (b.end_ - b.start)
  let b :=
    if b.zeroAreaEnd < newEnd then { b with end_ := newEnd }
    else if b.zeroAreaStart < newEnd then { b with end_ := newEnd, zeroAreaEnd := newEnd }
    else if b.start < newEnd then
      { b with end_ := newEnd, zeroAreaEnd := newEnd, zeroAreaStart := newEnd }
    else { b with end_ := b.start, zeroAreaEnd := b.start, zeroAreaStart := b.start }
  { b with maxZeroAreaStart := max b.maxZeroAreaStart b.zeroAreaStart }

def createFragment (start length : Nat) : Memory × Buffer :=
  let (h, tmp) := copy h b
  (h, (tmp.removeAtStart start).removeAtEnd (b.getSize - (start + length)))

/-! ### Iterators -/

/-- `Buffer::Iterator`. -/
structure Iterator where
  zeroStart : Nat
  zeroEnd : Nat
  dataStart : Nat
  dataEnd : Nat
  current : Nat
  data : Nat

/-- `Buffer::Iterator::Construct`, and the position. -/
def iterator (current : Nat) : Iterator :=
  ⟨b.zeroAreaStart, b.zeroAreaEnd, b.start, b.end_, current, b.data⟩

def begin : Iterator := b.iterator b.start

def «end» : Iterator := b.iterator b.end_

namespace Iterator

variable (it : Iterator)

def prev (delta : Nat) : Except Fault Iterator := do
  check (delta ≤ it.current)
  return { it with current := it.current - delta }

def checkNoZero (start end_ : Nat) : Prop :=
  ¬ (start < it.dataStart ∨ it.dataEnd < end_ ∨
    (it.zeroStart < end_ ∧ start < it.zeroEnd ∧ it.zeroEnd ≠ it.zeroStart ∧ start ≠ end_))

instance (start end_ : Nat) : Decidable (it.checkNoZero start end_) := by
  unfold checkNoZero; infer_instance

/-- `Buffer::Iterator::Check`. -/
def checkAt (i : Nat) : Prop :=
  it.dataStart ≤ i ∧ ¬ (it.zeroStart ≤ i ∧ i < it.zeroEnd) ∧ i ≤ it.dataEnd

instance (i : Nat) : Decidable (it.checkAt i) := by unfold checkAt; infer_instance

/-- Store at the current position and advance. `direct` is the test of the caller for being
before the zero area. -/
def putBytes (direct : Prop) [Decidable direct] (bs : List UInt8) :
    Except Fault (Memory × Iterator) := do
  let pos := if direct then it.current else it.current - (it.zeroEnd - it.zeroStart)
  let h ← h.store it.data pos bs
  return (h, { it with current := it.current + bs.length })

def writeU8 (v : UInt8) : Except Fault (Memory × Iterator) := do
  check (it.checkAt it.current)
  it.putBytes h (it.current < it.zeroStart) [v]

/-- `WriteU8(data, len)`. -/
def writeU8s (v : UInt8) (len : Nat) : Except Fault (Memory × Iterator) := do
  check (it.checkNoZero it.current (it.current + len))
  it.putBytes h (it.current ≤ it.zeroStart) (List.replicate len v)

/-- `WriteHtonU16` and `WriteHtonU32`. -/
def writeHton (bs : List UInt8) : Except Fault (Memory × Iterator) := do
  check (it.checkNoZero it.current (it.current + bs.length))
  it.putBytes h (it.current + bs.length ≤ it.zeroStart) bs

/-- `Write(buffer, size)`: the second argument of the check is `size`. -/
def write (bs : List UInt8) : Except Fault (Memory × Iterator) := do
  check (it.checkNoZero it.current bs.length)
  it.putBytes h (it.current ≤ it.zeroStart) bs

/-- The other integers are written one byte after the other. -/
def writeEach (bs : List UInt8) : Except Fault (Memory × Iterator) :=
  bs.foldlM (fun (h, it) v => writeU8 h it v) (h, it)

/-- `Write(start, end)`. -/
def writeFrom (start end_ : Iterator) : Except Fault (Memory × Iterator) := do
  check (start.data = end_.data)
  check (start.current ≤ end_.current)
  check (start.zeroStart = end_.zeroStart)
  check (start.zeroEnd = end_.zeroEnd)
  check (it.data ≠ start.data)
  let size := end_.current - start.current
  check (it.checkNoZero it.current (it.current + size))
  let src := start.current
  let pos := it.current
  let toCopy := if src ≤ start.zeroStart then min size (start.zeroStart - src) else 0
  let h ← h.store it.data pos (Bytes.read (h.blocks start.data).bytes src toCopy)
  let src := src + toCopy
  let pos := pos + toCopy
  let size := size - toCopy
  let toCopy := if src ≤ start.zeroEnd then min size (start.zeroEnd - src) else 0
  let h ← h.store it.data pos (List.replicate toCopy 0)
  let src := src + toCopy
  let pos := pos + toCopy
  let size := size - toCopy
  let toCopy := min size (start.dataEnd - src)
  let h ← h.store it.data pos
    (Bytes.read (h.blocks start.data).bytes (src - (start.zeroEnd - start.zeroStart)) toCopy)
  return (h, { it with current := pos + toCopy })

def peekU8 : Except Fault UInt8 := do
  check (it.dataStart ≤ it.current ∧ it.current < it.dataEnd)
  return if it.current < it.zeroStart then (h.blocks it.data).bytes it.current
    else if it.current < it.zeroEnd then 0
    else (h.blocks it.data).bytes (it.current - (it.zeroEnd - it.zeroStart))

def readU8 : Except Fault (UInt8 × Iterator) := do
  let ret ← it.peekU8 h
  return (ret, { it with current := it.current + 1 })

/-- `Read(buffer, size)`. -/
def read (it : Iterator) : Nat → Except Fault (List UInt8)
  | 0 => .ok []
  | size + 1 => do
    let (v, it) ← it.readU8 h
    let vs ← it.read size
    return v :: vs

end Iterator

/-- The calls that write through an iterator. -/
inductive Writing where
  | u8 (v : UInt8)
  | u8s (v : UInt8) (len : Nat)
  | u16 (v : UInt16)
  | u32 (v : UInt32)
  | u64 (v : UInt64)
  | htolsbU16 (v : UInt16)
  | htolsbU32 (v : UInt32)
  | htolsbU64 (v : UInt64)
  | htonU16 (v : UInt16)
  | htonU32 (v : UInt32)
  | htonU64 (v : UInt64)
  | block (bs : List UInt8)

/-- The low `n` bytes of `v`, the least significant first. -/
def lsb (n v : Nat) : List UInt8 := (List.range n).map fun i => UInt8.ofNat (v >>> (8 * i))

def Writing.bytes : Writing → List UInt8
  | .u8 v => [v]
  | .u8s v len => List.replicate len v
  | .u16 v | .htolsbU16 v => lsb 2 v.toNat
  | .u32 v | .htolsbU32 v => lsb 4 v.toNat
  | .u64 v | .htolsbU64 v => lsb 8 v.toNat
  | .htonU16 v => (lsb 2 v.toNat).reverse
  | .htonU32 v => (lsb 4 v.toNat).reverse
  | .htonU64 v => (lsb 8 v.toNat).reverse
  | .block bs => bs

def Iterator.perform (h : Memory) (it : Iterator) (w : Writing) :
    Except Fault (Memory × Iterator) :=
  match w with
  | .u8 v => it.writeU8 h v
  | .u8s v len => it.writeU8s h v len
  | .htonU16 _ | .htonU32 _ => it.writeHton h w.bytes
  | .block bs => it.write h bs
  | _ => it.writeEach h w.bytes

def Iterator.performAll (h : Memory) (it : Iterator) (ws : List Writing) :
    Except Fault (Memory × Iterator) :=
  ws.foldlM (fun (h, it) w => it.perform h w) (h, it)

/-! ### Copies -/

def createFullCopy : Except Fault (Memory × Buffer) :=
  if b.zeroAreaEnd - b.zeroAreaStart ≠ 0 then do
    let (h, tmp) := construct h 0
    let (h, tmp) ← addAtStart h tmp (b.zeroAreaEnd - b.zeroAreaStart)
    let (h, _) ← tmp.begin.writeU8s h 0 (b.zeroAreaEnd - b.zeroAreaStart)
    let dataStart := b.zeroAreaStart - b.start
    let (h, tmp) ← addAtStart h tmp dataStart
    let (h, _) ← tmp.begin.write h (Bytes.read (h.blocks b.data).bytes b.start dataStart)
    let dataEnd := b.end_ - b.zeroAreaEnd
    let (h, tmp) ← addAtEnd h tmp dataEnd
    let i ← tmp.end.prev dataEnd
    let (h, _) ← i.write h (Bytes.read (h.blocks b.data).bytes b.zeroAreaStart dataEnd)
    return (h, tmp)
  else .ok (copy h b)

/-- The test of `AddAtEnd(const Buffer&)` for two zero areas that can be joined. -/
def joins (o : Buffer) : Prop :=
  (h.blocks b.data).count = 1 ∧
    (b.end_ = b.zeroAreaEnd ∨ b.zeroAreaStart = b.zeroAreaEnd) ∧
    b.end_ = (h.blocks b.data).dirtyEnd ∧ o.start = o.zeroAreaStart ∧
    0 < o.zeroAreaEnd - o.zeroAreaStart

instance (o : Buffer) : Decidable (joins h b o) := by unfold joins; infer_instance

/-- `AddAtEnd(const Buffer&)`. -/
def addAtEndBuffer (o : Buffer) : Except Fault (Memory × Buffer) :=
  if joins h b o then do
    let b := if b.zeroAreaStart = b.zeroAreaEnd then { b with zeroAreaStart := b.end_ } else b
    let zeroSize := o.zeroAreaEnd - o.zeroAreaStart
    let b := { b with zeroAreaEnd := b.end_ + zeroSize, end_ := b.end_ + zeroSize }
    let h := h.setDirty b.data (h.blocks b.data).dirtyStart b.zeroAreaEnd
    let endData := o.end_ - o.zeroAreaEnd
    let (h, b) ← addAtEnd h b endData
    let dst ← b.end.prev endData
    let src ← o.end.prev endData
    let (h, _) ← dst.writeFrom h src o.end
    return (h, b)
  else do
    let (h, tmp) ← createFullCopy h b
    let (h, b) := assign h b tmp
    let h := destroy h tmp
    let (h, b) ← addAtEnd h b o.getSize
    let destStart ← b.end.prev o.getSize
    let (h, _) ← destStart.writeFrom h o.begin o.end
    return (h, b)

/-! ### What a Buffer reports -/

/-- The loop that writes `left` zeros, `g_zeroes.size` at a time. -/
def zeroes (left : Nat) : List UInt8 :=
  if left = 0 then []
  else List.replicate (min left 1000) 0 ++ zeroes (left - min left 1000)
termination_by left

/-- `CopyData(buffer, size)`: the bytes copied. -/
def copyData (size : Nat) : List UInt8 :=
  let bytes := (h.blocks b.data).bytes
  if 0 < size then
    let tmpsize := min (b.zeroAreaStart - b.start) size
    let size := size - tmpsize
    Bytes.read bytes b.start tmpsize ++
      if 0 < size then
        let tmpsize := min (b.zeroAreaEnd - b.zeroAreaStart) size
        let size := size - tmpsize
        zeroes tmpsize ++
          if 0 < size then Bytes.read bytes b.zeroAreaStart (min (b.end_ - b.zeroAreaEnd) size)
          else []
      else []
  else []

/-- `CopyData(os, size)`: the bytes written to the stream. -/
def copyDataTo (size : Nat) : List UInt8 :=
  let bytes := (h.blocks b.data).bytes
  if 0 < size then
    let tmpsize := min (b.zeroAreaStart - b.start) size
    Bytes.read bytes b.start tmpsize ++
      if tmpsize < size then
        let size := size - (b.zeroAreaStart - b.start)
        let tmpsize := min (b.zeroAreaEnd - b.zeroAreaStart) size
        zeroes tmpsize ++
          if tmpsize < size then
            let size := size - tmpsize
            Bytes.read bytes b.zeroAreaStart (min (b.end_ - b.zeroAreaEnd) size)
          else []
      else []
  else []

end Buffer

end CudaNs3.Network
