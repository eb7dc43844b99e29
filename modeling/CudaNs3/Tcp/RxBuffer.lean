import CudaNs3.Tcp.TxBuffer

/-!
# `TcpRxBuffer`

The stored blocks, the SACK list and the counters. `m_data` is the list of its entries in the
order of the map. `none` is a failed assertion, or an iterator to the end that is used.
-/

namespace CudaNs3.Tcp

open SequenceNumber TcpTxBuffer
set_option autoImplicit false

/-- `std::map<SequenceNumber32, Ptr<Packet>>`. -/
abbrev RxBlocks := List (SequenceNumber 32 × List UInt8)

structure TcpRxBuffer where
  sackList : List SackBlock
  nextRxSeq : SequenceNumber 32
  finSeq : SequenceNumber 32
  gotFin : Bool
  size : BitVec 32
  maxBuffer : BitVec 32
  availBytes : BitVec 32
  data : RxBlocks
  deriving DecidableEq

namespace TcpRxBuffer

def getSize (p : List UInt8) : BitVec 32 := BitVec.ofNat 32 p.length

/-- The constructor, and the size that `TcpSocketBase` sets. -/
def new (n : SequenceNumber 32) (maxBuffer : BitVec 32) : TcpRxBuffer where
  sackList := []
  nextRxSeq := n
  finSeq := 0
  gotFin := false
  size := 0
  maxBuffer := maxBuffer
  availBytes := 0
  data := []

/-- The lowest sequence number that cannot be accepted. -/
def maxRxSequence (s : TcpRxBuffer) : SequenceNumber 32 :=
  if s.gotFin then s.finSeq
  else
    match s.data with
    | [] => s.nextRxSeq + s.maxBuffer
    | (first, _) :: _ => if gt s.nextRxSeq first then first + s.maxBuffer else s.nextRxSeq + s.maxBuffer

def setFinSequence (s : TcpRxBuffer) (seq : SequenceNumber 32) : TcpRxBuffer :=
  { s with
    gotFin := true
    finSeq := seq
    nextRxSeq := if s.nextRxSeq = seq then s.nextRxSeq + 1 else s.nextRxSeq }

def finished (s : TcpRxBuffer) : Bool := s.gotFin && lt s.finSeq s.nextRxSeq

/-- `m_data[seq] = p`. -/
def store (seq : SequenceNumber 32) (p : List UInt8) : RxBlocks → RxBlocks
  | [] => [(seq, p)]
  | (first, q) :: rest =>
    if lt seq first then (seq, p) :: (first, q) :: rest
    else if lt first seq then (first, q) :: store seq p rest
    else (seq, p) :: rest

/-- The ends of a segment within the window. -/
def fitWindow (s : TcpRxBuffer) (headSeq tailSeq : SequenceNumber 32) :
    SequenceNumber 32 × SequenceNumber 32 :=
  let headSeq := if lt headSeq s.nextRxSeq then s.nextRxSeq else headSeq
  match s.data with
  | [] => (headSeq, tailSeq)
  | (first, _) :: _ =>
    let maxSeq := first + s.maxBuffer
    let tailSeq := if lt maxSeq tailSeq then maxSeq else tailSeq
    (if lt tailSeq headSeq then tailSeq else headSeq, tailSeq)

structure Trimmed where
  data : RxBlocks
  size : BitVec 32
  headSeq : SequenceNumber 32
  tailSeq : SequenceNumber 32

/-- The loop over the stored blocks that removes overlapped bytes from the packet, or blocks that
lie within it. -/
def trim : RxBlocks → BitVec 32 → SequenceNumber 32 → SequenceNumber 32 → Trimmed
  | [], size, headSeq, tailSeq => ⟨[], size, headSeq, tailSeq⟩
  | (first, q) :: rest, size, headSeq, tailSeq =>
    if le first tailSeq then
      let lastByteSeq := first + getSize q
      if gt lastByteSeq headSeq then
        if gt first headSeq && lt lastByteSeq tailSeq then
          trim rest (size - getSize q) headSeq tailSeq
        else
          let t := trim rest size (if le first headSeq then lastByteSeq else headSeq)
            (if ge lastByteSeq tailSeq then first else tailSeq)
          { t with data := (first, q) :: t.data }
      else
        let t := trim rest size headSeq tailSeq
        { t with data := (first, q) :: t.data }
    else ⟨(first, q) :: rest, size, headSeq, tailSeq⟩

/-- The first block of the SACK list that `begin` can be merged with, and the list without it. -/
def mergeSack (begin : SackBlock) : List SackBlock → Option (Option (SackBlock × List SackBlock))
  | [] => some none
  | current :: rest =>
    if begin.1 = current.2 then
      if lt current.1 begin.2 then some (some ((current.1, begin.2), rest)) else none
    else if begin.2 = current.1 then
      if lt begin.1 current.2 then some (some ((begin.1, current.2), rest)) else none
    else (mergeSack begin rest).map (Option.map fun (merged, rest) => (merged, current :: rest))

/-- The loop of `UpdateSackList`, which starts over after each merge. -/
def mergeSackList : Nat → SackBlock → List SackBlock → Option (List SackBlock)
  | 0, _, _ => none
  | fuel + 1, begin, rest =>
    (mergeSack begin rest).bind fun
      | none => some (begin :: rest)
      | some (merged, rest) => mergeSackList fuel merged rest

def updateSackList (s : TcpRxBuffer) (head tail : SequenceNumber 32) : Option TcpRxBuffer :=
  if !gt head s.nextRxSeq then none
  else
    (mergeSackList (s.sackList.length + 1) (head, tail) s.sackList).map fun list =>
      { s with sackList := if 4 < list.length then list.dropLast else list }

def clearSackList (seq : SequenceNumber 32) : List SackBlock → Option (List SackBlock)
  | [] => some []
  | block :: rest =>
    if !lt block.1 block.2 then none
    else (clearSackList seq rest).map fun rest => if le block.2 seq then rest else block :: rest

/-- The loop over the blocks that moves `m_nextRxSeq` to the end of those that follow it. -/
def catchUp : TcpRxBuffer → RxBlocks → Option TcpRxBuffer
  | s, [] => some s
  | s, (first, q) :: rest =>
    if lt first s.nextRxSeq then catchUp s rest
    else if gt first s.nextRxSeq then some s
    else
      (clearSackList (first + getSize q) s.sackList).bind fun sackList =>
        catchUp
          { s with
            nextRxSeq := first + getSize q
            availBytes := s.availBytes + getSize q
            sackList := sackList } rest

/-- The FIN takes a sequence number as well. -/
def countFin (s : TcpRxBuffer) : TcpRxBuffer :=
  if s.gotFin && s.nextRxSeq = s.finSeq then { s with nextRxSeq := s.nextRxSeq + 1 } else s

/-- The end of `Add`, for the bytes that are to be stored. -/
def insert (s : TcpRxBuffer) (headSeq tailSeq : SequenceNumber 32) (p : List UInt8) :
    Option TcpRxBuffer :=
  if s.data.any fun block => block.1 = headSeq then none
  else
    let s := { s with data := store headSeq p s.data }
    (if gt headSeq s.nextRxSeq then s.updateSackList headSeq tailSeq else some s).bind fun s =>
      (catchUp { s with size := s.size + getSize p } s.data).map countFin

/-- With whether there was something to buffer. -/
def add (s : TcpRxBuffer) (seq : SequenceNumber 32) (p : List UInt8) :
    Option (TcpRxBuffer × Bool) :=
  let (headSeq, tailSeq) := s.fitWindow seq (seq + getSize p)
  let t := trim s.data s.size headSeq tailSeq
  let s := { s with data := t.data, size := t.size }
  if ge t.headSeq t.tailSeq then some (s, false)
  else
    let start := distance t.headSeq seq
    let length := distance t.tailSeq t.headSeq
    let p := (p.drop start.toNat).take length.toNat
    if getSize p ≠ length then none
    else (s.insert t.headSeq t.tailSeq p).map fun s => (s, true)

/-- The loop of `Extract`, with the bytes it takes out. -/
def extractLoop : Nat → TcpRxBuffer → BitVec 32 → Option (TcpRxBuffer × List UInt8)
  | 0, _, _ => none
  | fuel + 1, s, extractSize =>
    if extractSize = 0 then some (s, [])
    else
      match s.data with
      | [] => none
      | (first, q) :: rest =>
        if !le first s.nextRxSeq then none
        else if getSize q ≤ extractSize then
          (extractLoop fuel
            { s with
              data := rest
              size := s.size - getSize q
              availBytes := s.availBytes - getSize q } (extractSize - getSize q)).map
            fun (s, out) => (s, q ++ out)
        else
          some
            ({ s with
                data := (store (first + extractSize) (q.drop extractSize.toNat) s.data).eraseP
                  fun block => block.1 = first
                size := s.size - extractSize
                availBytes := s.availBytes - extractSize },
              q.take extractSize.toNat)

/-- The bytes that are handed out; there are none if the source returns no packet. -/
def extract (s : TcpRxBuffer) (maxSize : BitVec 32) : Option (TcpRxBuffer × List UInt8) :=
  extractLoop (s.data.length + 1) s (stdMin maxSize s.availBytes)

end TcpRxBuffer

end CudaNs3.Tcp
