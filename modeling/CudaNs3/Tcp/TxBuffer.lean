import CudaNs3.Tcp.SequenceNumber

/-!
# `TcpTxBuffer`

The two lists of items and the counters, and the operations on them. `none` is a failed
assertion or abort, a null or dangling pointer that is used, or a loop that does not end.
Counters and sizes are 32-bit values. A list node is named by the number it got when its
item was put in `m_sentList`, so that an iterator can be kept in the state.
-/

namespace CudaNs3.Tcp

open SequenceNumber
set_option autoImplicit false

/-- A packet as the application hands it over; sizes of packets are 32-bit values. -/
structure Packet where
  bytes : List UInt8
  length_lt : bytes.length < 2 ^ 32

/-- `std::min` on `uint32_t`. -/
def stdMin (a b : BitVec 32) : BitVec 32 := if b < a then b else a

theorem stdMin_toNat (a b : BitVec 32) : (stdMin a b).toNat = min a.toNat b.toNat := by
  unfold stdMin
  split
  · rename_i h
    rw [BitVec.lt_def] at h
    omega
  · rename_i h
    rw [BitVec.lt_def] at h
    omega

structure TcpTxItem where
  node : Nat
  startSeq : SequenceNumber 32
  packet : List UInt8
  lost : Bool
  retrans : Bool
  sacked : Bool
  lastSent : Int
  deriving DecidableEq

namespace TcpTxItem

/-- `Time::Max()`, where an item starts that was never sent. -/
def timeMax : Int := 2 ^ 63 - 1

def new (p : List UInt8) : TcpTxItem := ⟨0, 0, p, false, false, false, timeMax⟩

def size (item : TcpTxItem) : BitVec 32 := BitVec.ofNat 32 item.packet.length

end TcpTxItem

/-- `SplitItems`, the new item being in the list node `node`. -/
def splitItems (node : Nat) (t₂ : TcpTxItem) (size : BitVec 32) : Option (TcpTxItem × TcpTxItem) :=
  if t₂.packet.length < size.toNat then none
  else some
    ({ t₂ with node := node, packet := t₂.packet.take size.toNat },
      { t₂ with packet := t₂.packet.drop size.toNat, startSeq := t₂.startSeq + size })

/-- `MergeItems`, with `m_retrans` before and after. -/
def mergeItems (retrans : BitVec 32) (t₁ t₂ : TcpTxItem) : Option (BitVec 32 × TcpTxItem) :=
  if t₁.sacked ≠ t₂.sacked then none
  else if t₁.lost ≠ t₂.lost then none
  else
    let retrans :=
      if t₁.retrans = t₂.retrans then retrans
      else if t₁.retrans then retrans - t₁.size
      else retrans - t₂.size
    some (retrans,
      { t₁ with
        retrans := t₁.retrans && t₂.retrans
        lastSent := if t₁.lastSent < t₂.lastSent then t₂.lastSent else t₁.lastSent
        packet := t₁.packet ++ t₂.packet })

/-- A list with a marked item, and what the search for it did to `m_retrans` and to the numbers
of list nodes. -/
structure Found where
  before : List TcpTxItem
  item : TcpTxItem
  after : List TcpTxItem
  retrans : BitVec 32
  nextNode : Nat

def Found.list (f : Found) : List TcpTxItem := f.before ++ f.item :: f.after

/-- `GetPacketFromList` from the item at `begin` on. Where the source starts again from the head
of the list it comes back to the same item, with everything before it passed over as it was the
first time. `una` is given when the list is `m_sentList`. -/
def getPacketFromList (una : Option (SequenceNumber 32)) (numBytes : BitVec 32)
    (seq : SequenceNumber 32) :
    Nat → SequenceNumber 32 → BitVec 32 → Nat → List TcpTxItem → Option Found
  | 0, _, _, _, _ => none
  | _ + 1, _, _, _, [] => none
  | fuel + 1, begin, retrans, nextNode, current :: rest =>
    if una.any fun first => !ge current.startSeq first then none
    else if lt seq (begin + current.size) then
      if seq = begin then
        if le (seq + numBytes) (begin + current.size) then
          if numBytes = current.size then some ⟨[], current, rest, retrans, nextNode⟩
          else if numBytes < current.size then
            (splitItems nextNode current numBytes).map fun (firstPart, current) =>
              ⟨[], firstPart, current :: rest, retrans, nextNode + 1⟩
          else none
        else
          match rest with
          | [] => some ⟨[], current, [], retrans, nextNode⟩
          | next :: rest =>
            (mergeItems retrans current next).bind fun (retrans, current) =>
              getPacketFromList una numBytes seq fuel begin retrans nextNode (current :: rest)
      else if gt seq begin then
        (splitItems nextNode current (distance seq begin)).bind fun (firstPart, current) =>
          getPacketFromList una numBytes seq fuel begin retrans (nextNode + 1)
            (firstPart :: current :: rest)
      else none
    else
      (getPacketFromList una numBytes seq fuel (begin + current.size) retrans nextNode rest).map
        fun f => { f with before := current :: f.before }

/-- Each item is split at most once and then passed over twice. -/
def getPacketFuel (list : List TcpTxItem) : Nat := 3 * list.length + 1

/-- `highestSack.1` is `none` for `m_sentList.end()`. -/
structure TcpTxBuffer where
  maxBuffer : BitVec 32
  size : BitVec 32
  sentSize : BitVec 32
  firstByteSeq : SequenceNumber 32
  appList : List TcpTxItem
  sentList : List TcpTxItem
  lostOut : BitVec 32
  sackedOut : BitVec 32
  retrans : BitVec 32
  highestSack : Option Nat × SequenceNumber 32
  dupAckThresh : BitVec 32
  sackEnabled : Bool
  nextNode : Nat
  deriving DecidableEq

namespace TcpTxBuffer

/-- The constructor, with what `TcpSocketBase` sets right after it. -/
def new (n : SequenceNumber 32) (maxBuffer dupAckThresh : BitVec 32) (sackEnabled : Bool) :
    TcpTxBuffer where
  maxBuffer := maxBuffer
  size := 0
  sentSize := 0
  firstByteSeq := n
  appList := []
  sentList := []
  lostOut := 0
  sackedOut := 0
  retrans := 0
  highestSack := (none, 0)
  dupAckThresh := dupAckThresh
  sackEnabled := sackEnabled
  nextNode := 0

def tailSequence (s : TcpTxBuffer) : SequenceNumber 32 := s.firstByteSeq + s.size

def available (s : TcpTxBuffer) : BitVec 32 := s.maxBuffer - s.size

/-- With whether the packet was taken. -/
def add (s : TcpTxBuffer) (p : Packet) : TcpTxBuffer × Bool :=
  let size := BitVec.ofNat 32 p.bytes.length
  if size ≤ s.available then
    if 0 < size then
      ({ s with appList := s.appList ++ [.new p.bytes], size := s.size + size }, true)
    else (s, true)
  else (s, false)

def sizeFromSequence (s : TcpTxBuffer) (seq : SequenceNumber 32) : BitVec 32 :=
  if ge s.tailSequence seq then distance s.tailSequence seq else 0

/-- Put a list that was searched back in place. -/
def setSent (s : TcpTxBuffer) (f : Found) : TcpTxBuffer :=
  { s with sentList := f.list, retrans := f.retrans, nextNode := f.nextNode }

/-- The loop of `GetTransmittedSegment`: not to merge items with different flags. -/
def segmentLimit (seq : SequenceNumber 32) (s : BitVec 32) : List TcpTxItem → BitVec 32
  | [] => s
  | it :: rest =>
    if it.startSeq = seq then
      match rest with
      | [] => stdMin s it.size
      | next :: _ =>
        if !next.sacked && it.lost = next.lost then stdMin s (it.size + next.size)
        else stdMin s it.size
    else segmentLimit seq s rest

def getTransmittedSegment (s : TcpTxBuffer) (numBytes : BitVec 32) (seq : SequenceNumber 32) :
    Option Found :=
  if !ge seq s.firstByteSeq then none
  else if s.sentSize < numBytes then none
  else if s.sentList = [] then none
  else
    (getPacketFromList (some s.firstByteSeq) (segmentLimit seq numBytes s.sentList) seq
        (getPacketFuel s.sentList) s.firstByteSeq s.retrans s.nextNode s.sentList).map fun f =>
      if f.item.retrans then f
      else
        { f with
          retrans := f.retrans + f.item.size
          item := { f.item with retrans := true } }

/-- The new item comes last in `m_sentList`, in a list node of its own. -/
def getNewSegment (s : TcpTxBuffer) (numBytes : BitVec 32) : Option (TcpTxBuffer × Found) :=
  let startOfAppList := s.firstByteSeq + s.sentSize
  (getPacketFromList none numBytes startOfAppList (getPacketFuel s.appList) startOfAppList s.retrans
      s.nextNode s.appList).map fun f =>
    ({ s with
        appList := f.before ++ f.after
        sentSize := s.sentSize + f.item.size },
      ⟨s.sentList, { f.item with startSeq := startOfAppList, node := f.nextNode }, [], f.retrans,
        f.nextNode + 1⟩)

/-- The end of `CopyFromSequence`. -/
def handOut (now : Int) (s : TcpTxBuffer) (f : Found) : Option (TcpTxBuffer × Option TcpTxItem) :=
  if ge f.item.startSeq s.firstByteSeq then
    let item := { f.item with lastSent := now }
    some (s.setSent { f with item := item }, some item)
  else none

/-- `CopyFromSequence` calling itself at most `depth - 1` times. -/
def copyFrom (now : Int) (s : TcpTxBuffer) :
    Nat → BitVec 32 → SequenceNumber 32 → Option (TcpTxBuffer × Option TcpTxItem)
  | 0, _, _ => none
  | depth + 1, numBytes, seq =>
    if gt s.firstByteSeq seq then none
    else
      let n := stdMin numBytes (s.sizeFromSequence seq)
      let sentEnd := s.firstByteSeq + s.sentSize
      if n = 0 then some (s, none)
      else if ge sentEnd (seq + n) then
        (s.getTransmittedSegment n seq).bind fun f =>
          if f.item.sacked then none else handOut now s f
      else if le sentEnd seq then
        if sentEnd = seq then
          (s.getNewSegment n).bind fun (s, f) =>
            if f.item.retrans then none else handOut now s f
        else none
      else if seq < sentEnd ∧ sentEnd < seq + n then copyFrom now s depth (sentEnd - seq) seq
      else none

/-- The second call is always answered from `m_sentList`. -/
def copyFromSequence (now : Int) (s : TcpTxBuffer) (numBytes : BitVec 32)
    (seq : SequenceNumber 32) : Option (TcpTxBuffer × Option TcpTxItem) :=
  copyFrom now s 2 numBytes seq

def removeFromCounts (s : TcpTxBuffer) (item : TcpTxItem) (size : BitVec 32) :
    Option TcpTxBuffer :=
  if item.sacked ∧ s.sackedOut < size then none
  else if item.retrans ∧ s.retrans < size then none
  else if item.lost ∧ s.lostOut < size then none
  else some
    { s with
      sackedOut := if item.sacked then s.sackedOut - size else s.sackedOut
      retrans := if item.retrans then s.retrans - size else s.retrans
      lostOut := if item.lost then s.lostOut - size else s.lostOut }

/-- The two branches of the loop of `DiscardUpTo` take `size` bytes from the first item. -/
def removeHead (s : TcpTxBuffer) (item : TcpTxItem) (size : BitVec 32)
    (sentList : List TcpTxItem) : Option TcpTxBuffer :=
  removeFromCounts
    { s with
      size := s.size - size
      sentSize := s.sentSize - size
      firstByteSeq := s.firstByteSeq + size
      sentList := sentList } item size

/-- Data that is discarded before it was sent is moved to the sent list first. -/
def pullSent (now : Int) (s : TcpTxBuffer) (offset : BitVec 32) : Option TcpTxBuffer :=
  if s.sentList = [] then
    (s.copyFromSequence now offset s.firstByteSeq).bind fun (s, item) => item.map fun _ => s
  else some s

def discard (now : Int) : Nat → TcpTxBuffer → BitVec 32 → Option TcpTxBuffer
  | 0, _, _ => none
  | fuel + 1, s, offset =>
    if s.size = 0 ∨ offset = 0 then some s
    else
      (s.pullSent now offset).bind fun s =>
        match s.sentList with
        | [] => none
        | item :: rest =>
          if item.startSeq ≠ s.firstByteSeq then none
          else if item.size ≤ offset then
            (s.removeHead item item.size rest).bind fun s => discard now fuel s (offset - item.size)
          else
            s.removeHead item offset
              ({ item with
                  packet := item.packet.drop offset.toNat
                  startSeq := item.startSeq + offset } :: rest)

/-- Each round but the last one removes an item. -/
def discardFuel (s : TcpTxBuffer) : Nat := s.sentList.length + s.appList.length + 1

/-- The first item that is not sacked, marked, with the rest of the list around it. -/
def sackFirst : List TcpTxItem → List TcpTxItem × Option TcpTxItem
  | [] => ([], none)
  | it :: rest =>
    if it.sacked then
      let (rest, found) := sackFirst rest
      (it :: rest, found)
    else ({ it with sacked := true } :: rest, some it)

/-- The head is never marked. -/
def addRenoSack (s : TcpTxBuffer) : Option TcpTxBuffer :=
  match s.sentList with
  | [] => none
  | head :: rest =>
    if s.sackEnabled ∧ rest = [] then none
    else
      match sackFirst rest with
      | (_, none) => some s
      | (rest, some it) =>
        some
          { s with
            sentList := head :: rest
            sackedOut := s.sackedOut + it.size
            highestSack := (some it.node, it.startSeq) }

def markHeadAsLost (s : TcpTxBuffer) : TcpTxBuffer :=
  match s.sentList with
  | [] => s
  | head :: rest =>
    { s with
      sentList := { head with sacked := false, retrans := false, lost := true } :: rest
      sackedOut := if head.sacked then s.sackedOut - head.size else s.sackedOut
      retrans := if head.retrans then s.retrans - head.size else s.retrans
      lostOut := if head.lost then s.lostOut else s.lostOut + head.size }

/-- The receiver cannot have sacked the head: the flag is moved to another segment. -/
def moveSackFromHead (s : TcpTxBuffer) : Option TcpTxBuffer :=
  match s.sentList with
  | [] => some s
  | head :: rest =>
    if head.sacked then
      if head.lost then none
      else
        (addRenoSack
          { s with
            sentList := { head with sacked := false } :: rest
            sackedOut := s.sackedOut - head.size }).map markHeadAsLost
    else some s

/-- With nothing left it may be a FIN that is acknowledged. -/
def catchFin (s : TcpTxBuffer) (seq : SequenceNumber 32) : TcpTxBuffer :=
  if s.size = 0 then { s with firstByteSeq := seq } else s

def resetHighestSack (s : TcpTxBuffer) : TcpTxBuffer :=
  if le s.highestSack.2 s.firstByteSeq then { s with highestSack := (none, 0) } else s

def discardUpTo (now : Int) (s : TcpTxBuffer) (seq : SequenceNumber 32) : Option TcpTxBuffer :=
  if ge s.firstByteSeq seq then some s
  else
    (discard now s.discardFuel s (distance seq s.firstByteSeq)).bind fun s =>
      (s.catchFin seq).moveSackFromHead.bind fun s =>
        if s.sentList.head?.any fun head => head.startSeq ≠ seq then none
        else
          let s := s.resetHighestSack
          if !ge s.firstByteSeq seq then none
          else if s.sentSize < s.sackedOut + s.lostOut then none
          else some s

/-- What `Update` changes while it walks over the items. -/
structure Sacking where
  lostOut : BitVec 32
  sackedOut : BitVec 32
  bytesSacked : BitVec 32
  highestSack : Option Nat × SequenceNumber 32

abbrev SackBlock := SequenceNumber 32 × SequenceNumber 32

def Sacking.mark (k : Sacking) (it : TcpTxItem) (begin : SequenceNumber 32) : Sacking where
  lostOut := if it.lost then k.lostOut - it.size else k.lostOut
  sackedOut := k.sackedOut + it.size
  bytesSacked := k.bytesSacked + it.size
  highestSack :=
    if k.highestSack.1 = none ∨ le k.highestSack.2 (begin + it.size) then (some it.node, begin)
    else k.highestSack

/-- The items against one block of the option. -/
def updateItems (block : SackBlock) :
    SequenceNumber 32 → Sacking → List TcpTxItem → Option (List TcpTxItem × Sacking)
  | _, k, [] => some ([], k)
  | begin, k, it :: rest =>
    if ge begin block.1 && le (begin + it.size) block.2 then
      if it.sacked then
        if it.lost then none
        else
          (updateItems block (begin + it.size) k rest).map fun (rest, k) => (it :: rest, k)
      else
        (updateItems block (begin + it.size) (k.mark it begin) rest).map fun (rest, k) =>
          ({ it with lost := false, sacked := true } :: rest, k)
    else if gt (begin + it.size) block.2 then some (it :: rest, k)
    else (updateItems block (begin + it.size) k rest).map fun (rest, k) => (it :: rest, k)

/-- The blocks in turn; with whether `Update` returns early, at a block beyond what was sent. -/
def updateBlocks (s : TcpTxBuffer) :
    Sacking → List TcpTxItem → List SackBlock → Option (List TcpTxItem × Sacking × Bool)
  | k, items, [] => some (items, k, false)
  | k, items, block :: blocks =>
    if lt (s.firstByteSeq + s.sentSize) block.1 then some (items, k, true)
    else
      (updateItems block s.firstByteSeq k items).bind fun (items, k) =>
        updateBlocks s k items blocks

/-- The loop of `UpdateLostCount` over the items up to the highest sacked one, from the last to
the first, with the number of sacked items passed. -/
def loseItems (thresh lostOut : BitVec 32) :
    List TcpTxItem → List TcpTxItem × BitVec 32 × BitVec 32
  | [] => ([], 0, lostOut)
  | it :: rest =>
    let (rest, sacked, lostOut) := loseItems thresh lostOut rest
    let sacked := if it.sacked then sacked + 1 else sacked
    if thresh ≤ sacked ∧ !it.sacked ∧ !it.lost then
      ({ it with lost := true } :: rest, sacked, lostOut + it.size)
    else (it :: rest, sacked, lostOut)

/-- The items after the head up to the list node `node`, and those behind it. -/
def upToNode (node : Nat) : List TcpTxItem → Option (List TcpTxItem × List TcpTxItem)
  | [] => none
  | it :: rest =>
    if it.node = node then some ([it], rest)
    else (upToNode node rest).map fun (upTo, behind) => (it :: upTo, behind)

/-- The loop stops before the head, which is then looked at without a test for `m_sacked`. -/
def updateLostCount (s : TcpTxBuffer) : Option TcpTxBuffer :=
  match s.highestSack.1, s.sentList with
  | some node, head :: rest =>
    (if head.node = node then some ([], rest) else upToNode node rest).map fun (upTo, behind) =>
      let (upTo, sacked, lostOut) := loseItems s.dupAckThresh s.lostOut upTo
      if s.dupAckThresh ≤ sacked ∧ !head.lost then
        { s with
          sentList := { head with lost := true } :: upTo ++ behind
          lostOut := lostOut + head.size }
      else
        { s with
          sentList := head :: upTo ++ behind
          lostOut := lostOut }
  | _, _ => none

/-- With the number of bytes newly sacked. -/
def update (s : TcpTxBuffer) (blocks : List SackBlock) : Option (TcpTxBuffer × BitVec 32) :=
  (updateBlocks s ⟨s.lostOut, s.sackedOut, 0, s.highestSack⟩ s.sentList blocks).bind
    fun (items, k, early) =>
      let s :=
        { s with
          sentList := items
          lostOut := k.lostOut
          sackedOut := k.sackedOut
          highestSack := k.highestSack }
      if early then some (s, k.bytesSacked)
      else
        (if k.bytesSacked = 0 then some s else s.updateLostCount).bind fun s =>
          if !(s.sentList.head?.any fun head => !head.sacked) then none
          else if s.sentSize < s.sackedOut + s.lostOut then none
          else some (s, k.bytesSacked)

def resetRenoSack (s : TcpTxBuffer) : TcpTxBuffer :=
  { s with
    sackedOut := 0
    sentList := s.sentList.map fun it => { it with sacked := false }
    highestSack := (none, 0) }

def resetSentList (s : TcpTxBuffer) : TcpTxBuffer :=
  { s with
    appList :=
      s.sentList.map (fun it => { it with retrans := false, sacked := false, lost := false }) ++
        s.appList
    sentList := []
    sentSize := 0
    lostOut := 0
    retrans := 0
    sackedOut := 0
    highestSack := (none, 0) }

/-- The last item goes back to `m_appList` as it is: of its flags only `m_retrans` is looked
at. -/
def resetLastSegmentSent (s : TcpTxBuffer) : TcpTxBuffer :=
  match s.sentList.getLast? with
  | none => s
  | some item =>
    { s with
      sentList := s.sentList.dropLast
      sentSize := s.sentSize - item.size
      retrans := if item.retrans then s.retrans - item.size else s.retrans
      appList := item :: s.appList }

/-- The loop of `SetSentListLost`, with the bytes it adds to `m_lostOut`. -/
def loseAll (resetSack : Bool) (lostOut : BitVec 32) : List TcpTxItem → List TcpTxItem × BitVec 32
  | [] => ([], lostOut)
  | it :: rest =>
    if resetSack then
      let (rest, lostOut) := loseAll resetSack lostOut rest
      ({ it with sacked := false, lost := true, retrans := false } :: rest, lostOut)
    else if it.lost || !it.sacked then
      let (rest, lostOut) := loseAll resetSack (lostOut + it.size) rest
      ({ it with lost := true, retrans := false } :: rest, lostOut)
    else
      let (rest, lostOut) := loseAll resetSack lostOut rest
      ({ it with retrans := false } :: rest, lostOut)

def setSentListLost (s : TcpTxBuffer) (resetSack : Bool) : Option TcpTxBuffer :=
  let (items, lostOut) := loseAll resetSack (if resetSack then s.sentSize else 0) s.sentList
  let s :=
    { s with
      retrans := 0
      sackedOut := if resetSack then 0 else s.sackedOut
      lostOut := lostOut
      highestSack := if resetSack then (none, 0) else s.highestSack
      sentList := items }
  if s.sentSize < s.sackedOut + s.lostOut then none else some s

def deleteRetransmittedFlagFromHead (s : TcpTxBuffer) : Option TcpTxBuffer :=
  if s.sentSize = 0 then some s
  else
    match s.sentList with
    | [] => none
    | head :: rest =>
      if head.retrans then
        some
          { s with
            sentList := { head with retrans := false } :: rest
            retrans := s.retrans - head.size }
      else some s

inductive Op where
  | add (p : Packet)
  | copyFromSequence (now : Int) (numBytes : BitVec 32) (seq : SequenceNumber 32)
  | discardUpTo (now : Int) (seq : SequenceNumber 32)
  | update (blocks : List SackBlock)
  | markHeadAsLost
  | addRenoSack
  | resetRenoSack
  | setSentListLost (resetSack : Bool)
  | resetSentList
  | resetLastSegmentSent
  | deleteRetransmittedFlagFromHead

def step (s : TcpTxBuffer) : Op → Option TcpTxBuffer
  | .add p => some (s.add p).1
  | .copyFromSequence now numBytes seq => (s.copyFromSequence now numBytes seq).map Prod.fst
  | .discardUpTo now seq => s.discardUpTo now seq
  | .update blocks => (s.update blocks).map Prod.fst
  | .markHeadAsLost => some s.markHeadAsLost
  | .addRenoSack => s.addRenoSack
  | .resetRenoSack => some s.resetRenoSack
  | .setSentListLost resetSack => s.setSentListLost resetSack
  | .resetSentList => some s.resetSentList
  | .resetLastSegmentSent => some s.resetLastSegmentSent
  | .deleteRetransmittedFlagFromHead => s.deleteRetransmittedFlagFromHead

end TcpTxBuffer

end CudaNs3.Tcp
