import CudaNs3.Tcp.Socket

/-!
# What `TcpSocketBase` sends

Empty segments, data segments, retransmissions and probes, and the functions that the timers run.
`app` is what the application does in a callback.
-/

namespace CudaNs3.Tcp.TcpSocketBase

open SequenceNumber TcpTxBuffer Programs Flags
set_option autoImplicit false

/-- The window before it is scaled. -/
def receiveWindow (s : TcpSocketBase) : Option (BitVec 32) :=
  if s.rxBuffer.gotFin then some s.advWnd
  else if 0 ≤ sub s.rxBuffer.maxRxSequence s.rxBuffer.nextRxSeq then
    some (distance s.rxBuffer.maxRxSequence s.rxBuffer.nextRxSeq)
  else none

def advertisedWindowSize (scale : Bool) : Program (BitVec 16) := do
  let s ← socket
  let w ← lift s.receiveWindow
  update fun s => { s with advWnd := w }
  let w := if scale then w >>> s.rcvWindShift.toNat else w
  pure (if s.maxWinSize.setWidth 32 < w then s.maxWinSize else w.setWidth 16)

def windowScaleLoop (maxWinSize : BitVec 32) : Nat → BitVec 32 → BitVec 8 → BitVec 8
  | 0, _, scale => scale
  | fuel + 1, maxSpace, scale =>
    if maxWinSize < maxSpace then windowScaleLoop maxWinSize fuel (maxSpace >>> 1) (scale + 1)
    else scale

/-- `CalculateWScale`; a size has 32 bits to lose. -/
def calculateWScale (s : TcpSocketBase) : BitVec 8 :=
  let scale := windowScaleLoop (s.maxWinSize.setWidth 32) 33 s.rxBuffer.maxBuffer 0
  if 14 < scale then 14 else scale

/-- The blocks that `AddOptionSack` finds room for. -/
def sackBlocks (s : TcpSocketBase) (syn : Bool) : List (List SackBlock) :=
  let optionLen :=
    (if s.timestampEnabled then 10 else 0) +
      (if syn then (if s.winScalingEnabled then 3 else 0) + (if s.sackEnabled then 2 else 0) else 0)
  let allowed := (40 - optionLen - 2) / 8
  if s.sackEnabled && s.rxBuffer.sackList ≠ [] && allowed ≠ 0 then
    [s.rxBuffer.sackList.take allowed]
  else []

def bytesInFlightNow : Program (BitVec 32) := do
  let s ← socket
  let n ← lift s.txBuffer.bytesInFlight
  update fun s => { s with bytesInFlight := n }
  pure n

/-- `AvailableWindow`. -/
def availableWindow : Program (BitVec 32) := do
  let s ← socket
  let inflight ← bytesInFlightNow
  let win := stdMin s.rWnd s.cWnd
  pure (if win < inflight then 0 else win - inflight)

def nextSegment (isRecovery : Bool) (s : TcpSocketBase) :
    Option (SequenceNumber 32 × SequenceNumber 32) :=
  s.txBuffer.nextSeg s.segmentSize s.rWnd isRecovery

variable (app : Callback → Program Unit)

/-- The same with either of the end points. -/
def deallocateEndPoint : Program Unit := do
  let s ← socket
  when s.endPoint (update fun s => { s.withoutTimers with endPoint := false })

def notifyClose : Program Unit := do
  let s ← socket
  when (!s.closeNotified) do
    app .normalClose
    update fun s => { s with closeNotified := true }

def closeAndNotify : Program Unit := do
  notifyClose app
  update fun s => { s with lastAckEvent := false }
  setState .closed
  deallocateEndPoint

/-- `m_state = TIME_WAIT` and `CancelAllTimers`. -/
def enterTimeWait : Program Unit := do
  setState .timeWait
  update withoutTimers

def timeWait : Program Unit := do
  enterTimeWait
  notifyClose app
  update fun s => { s with timewaitEvent := true }

/-- The number in an empty segment: the FIN takes the next one, what is sent after it comes
behind it. -/
def emptySequence (s : TcpSocketBase) (flags : Flags) : SequenceNumber 32 :=
  if flags.fin then s.nextTxSequence
  else
    match s.state with
    | .finWait1 | .lastAck | .closing => s.nextTxSequence + 1
    | _ => s.nextTxSequence

/-- What sending an acknowledgment settles. -/
def acked (ack : SequenceNumber 32) (s : TcpSocketBase) : TcpSocketBase :=
  { s with
    delAckEvent := false
    delAckCount := 0
    highTxAck := if lt s.highTxAck ack then ack else s.highTxAck }

/-- No more connection retries. -/
def giveUp : Program Unit := do
  log .gaveUp
  app .connectionFailed
  setState .closed
  deallocateEndPoint

/-- The rest of `SendEmptyPacket`, where a segment is sent. -/
def sendEmptySegment (flags : Flags) (seq ack : SequenceNumber 32) (window : BitVec 16) :
    Program Unit := do
  when flags.ack (update (acked ack))
  let s ← socket
  log (.sent
    { flags := flags
      seq := seq
      ack := ack
      window := window
      windowScale := if flags.syn && s.winScalingEnabled then some s.rcvWindShift else none
      sackPermitted := flags.syn && s.sackEnabled
      timestamp := s.timestampEnabled
      sack := if flags.ack then s.sackBlocks flags.syn else []
      payload := [] })
  when (flags.syn || flags.fin) (update fun s =>
    { s with retxEvent := s.retxEvent.or (some (.sendEmptyPacket flags)) })

def sendEmptyPacket (flags : Flags) : Program Unit := do
  let s ← socket
  when s.endPoint do
    let flags := if flags.fin then flags ||| ACK else flags
    let seq := s.emptySequence flags
    let ack := s.rxBuffer.nextRxSeq
    let window ← advertisedWindowSize true
    if flags.syn then do
      when s.winScalingEnabled (update fun s => { s with rcvWindShift := s.calculateWScale })
      if s.synCount = 0 then giveUp app
      else do
        update fun s => { s with synCount := s.synCount - 1 }
        let window ← advertisedWindowSize false
        sendEmptySegment flags seq ack window
    else sendEmptySegment flags seq ack window

def sendRST : Program Unit := do
  sendEmptyPacket app RST
  app .errorClose
  deallocateEndPoint

/-- The acknowledgment that is sent in several places, with the echo of a congestion mark. -/
def sendAck : Program Unit := do
  let s ← socket
  if s.ecnState = .ceRcvd ∨ s.ecnState = .sendingEce then do
    sendEmptyPacket app (ACK ||| ECE)
    update fun s => { s with ecnState := .sendingEce }
  else sendEmptyPacket app ACK

/-- The flags of a data segment, and the state of the congestion echo after it. -/
def markCwr (seq : SequenceNumber 32) (isRetransmission : Bool) (flags : Flags)
    (s : TcpSocketBase) : Flags × TcpSocketBase :=
  if s.ecnState = .eceRcvd ∧ gt s.ecnEchoSeq s.ecnCWRSeq ∧ isRetransmission = false then
    (flags ||| CWR, { s with ecnState := .cwrSent, ecnCWRSeq := seq })
  else (flags, s)

/-- The state that a FIN on a data segment leads to. -/
def finState (s : TcpSocketBase) : TcpStates :=
  match s.state with
  | .established => .finWait1
  | .closeWait => .lastAck
  | st => st

/-- The segment leaves, and the retransmission timer is set. -/
def transmit (seq : SequenceNumber 32) (flags : Flags) (payload : List UInt8) : Program Unit := do
  let s ← socket
  if s.endPoint then do
    let window ← advertisedWindowSize true
    let s ← socket
    update fun s => { s with retxEvent := s.retxEvent.or (some .reTxTimeout) }
    log (.sent
      { flags := flags
        seq := seq
        ack := s.rxBuffer.nextRxSeq
        window := window
        windowScale := none
        sackPermitted := false
        timestamp := s.timestampEnabled
        sack := []
        payload := payload })
    let sent := seq + BitVec.ofNat 32 payload.length
    update fun s => { s with highTxMark := if lt sent s.highTxMark then s.highTxMark else sent }
  else fail .null

/-- Whether a segment is the last one before the socket closes. -/
def isLast (s : TcpSocketBase) (seq : SequenceNumber 32) (payload : List UInt8) : Bool :=
  s.closeOnEmpty && s.txBuffer.sizeFromSequence (seq + BitVec.ofNat 32 payload.length) = 0

/-- The last segment carries the FIN. -/
def sendDataSegment (seq : SequenceNumber 32) (flags : Flags) (payload : List UInt8) :
    Program Unit := do
  let s ← socket
  when (s.isLast seq payload && s.finState ≠ s.state) (setState s.finState)
  transmit seq (if s.isLast seq payload then flags ||| FIN else flags) payload

/-- The next piece of the send buffer, which is moved to the sent data. -/
def copyFromTxBuffer (maxSize : BitVec 32) (seq : SequenceNumber 32) : Program TcpTxItem := fun m =>
  match m.socket.txBuffer.copyFromSequence m.now maxSize seq with
  | none => .error .assertion m
  | some (_, none) => .error .null m
  | some (b, some item) => .ok item { m with socket := { m.socket with txBuffer := b } }

/-- The flags of the segment, with what is settled before it leaves. -/
def dataFlags (seq : SequenceNumber 32) (maxSize : BitVec 32) (withAck : Bool) (item : TcpTxItem) :
    Program Flags := do
  let s ← socket
  ensure (item.retrans ∨ ge (s.highRxAckMark + s.rWnd) (seq + maxSize))
  when s.isPacingEnabled (update fun s => { s with pacingTimer := true })
  when withAck (update fun s => { s with delAckEvent := false, delAckCount := 0 })
  update fun s => (s.markCwr seq item.retrans {}).2
  pure (s.markCwr seq item.retrans (if withAck then ACK else {})).1

def sendDataPacket (seq : SequenceNumber 32) (maxSize : BitVec 32) (withAck : Bool) :
    Program (BitVec 32) := do
  let _ ← bytesInFlightNow
  let item ← copyFromTxBuffer maxSize seq
  log (.dataPacket seq maxSize item.size item.retrans)
  let flags ← dataFlags seq maxSize withAck item
  sendDataSegment seq flags item.packet
  pure item.size

/-- What the loop of `SendPendingData` tests before it asks the send buffer. -/
def mustWait (s : TcpSocketBase) : Bool :=
  (s.isPacingEnabled && s.pacingTimer) || (s.congState = .caOpen && s.state = .finWait1)

/-- The silly window and Nagle's algorithm. -/
def holdsBack (s : TcpSocketBase) (available availableData : BitVec 32) : Bool :=
  (available < s.segmentSize && available < availableData) ||
    (!s.noDelay && 0 < s.unAckDataCount && availableData < s.segmentSize)

/-- A segment that passed the tests. -/
def sendNext (next : SequenceNumber 32) (size : BitVec 32) (withAck : Bool) : Program Unit := do
  setNextTxSequence next
  let s ← socket
  when (s.bytesInFlight = 0) congestion
  let sz ← sendDataPacket next size withAck
  update fun s => { s with nextTxSequence := s.nextTxSequence + sz }

/-- The loop of `SendPendingData`, with the number of segments sent. -/
def sendLoop (withAck : Bool) : Nat → BitVec 32 → Program (BitVec 32)
  | 0, _ => fail .endless
  | rounds + 1, nPacketsSent => do
    let available ← availableWindow
    let s ← socket
    match (if available = 0 || s.mustWait then none
      else s.nextSegment (s.sackEnabled && s.congState = .caRecovery)) with
    | none => pure nPacketsSent
    | some (next, nextHigh) => do
      let availableData := s.txBuffer.sizeFromSequence next
      when (availableData < available) (app .send)
      let s ← socket
      if s.holdsBack available availableData then pure nPacketsSent
      else do
        sendNext next (stdMin (stdMin available s.segmentSize) (distance nextHigh next)) withAck
        let s ← socket
        if s.isPacingEnabled && !s.pacingTimer then do
          update fun s => { s with pacingTimer := true }
          pure (nPacketsSent + 1)
        else sendLoop withAck rounds (nPacketsSent + 1)

def sendPendingData (withAck : Bool) : Program (BitVec 32) := do
  log .sendPendingData
  let s ← socket
  if s.txBuffer.size = 0 || !s.endPoint then pure 0
  else do
    let rounds ← (fun m => .ok m.rounds m : Program Nat)
    let n ← sendLoop app withAck rounds 0
    let s ← socket
    ensure (n = 0 ∨ s.sackEnabled ∨ s.limitedTx ∨ s.congState ≠ .caDisorder)
    pure n

/-- The range that `DoRetransmit` sends: the head once more if there is nothing else. -/
def retransmitRange (s : TcpSocketBase) : SequenceNumber 32 × BitVec 32 :=
  match s.nextSegment false with
  | none => (s.txBuffer.firstByteSeq, s.segmentSize)
  | some (seq, seqHigh) => (seq, distance seqHigh seq)

def doRetransmit : Program Unit := do
  let s ← socket
  let (seq, maxSizeToSend) := s.retransmitRange
  ensure (s.sackEnabled ∨ seq = s.txBuffer.firstByteSeq)
  setNextTxSequence seq
  let sz ← sendDataPacket seq maxSizeToSend true
  ensure (0 < sz)

/-- What a retransmission timeout does to the scoreboard and the congestion state. -/
def loseSentList : Program Unit := do
  let _ ← bytesInFlightNow
  let s ← socket
  updateTxBuffer fun b => (if s.sackEnabled then b else b.resetRenoSack).setSentListLost !s.sackEnabled
  congestion
  update fun s =>
    { s with
      dupAckCount := 0
      recover := s.highTxMark
      recoverActive := true
      congState := .caLoss
      cWnd := s.segmentSize
      pacingTimer := false }
  let n ← bytesInFlightNow
  ensure (n = 0)

def reTxTimeout : Program Unit := do
  let s ← socket
  if s.state = .closed ∨ s.state = .timeWait then pure ()
  else if s.state = .synSent then do
    ensure (0 < s.synCount)
    sendEmptyPacket app (if s.useEcn = .on then SYN ||| ECE ||| CWR else SYN)
  else if s.txBuffer.size = 0 then
    when (s.state = .finWait1 ∨ s.state = .closing) (sendEmptyPacket app FIN)
  -- the test that comes next in the source asks for an empty buffer once more
  else if s.dataRetrCount = 0 then do
    log .gaveUp
    app .errorClose
    deallocateEndPoint
  else do
    update fun s => { s with dataRetrCount := s.dataRetrCount - 1 }
    loseSentList
    let s ← socket
    let _ ← sendPendingData app s.connected
    let n ← bytesInFlightNow
    let s ← socket
    ensure (n ≤ s.segmentSize)

def delAckTimeout : Program Unit := do
  update fun s => { s with delAckCount := 0 }
  congestion
  sendAck app

def lastAckTimeout : Program Unit := do
  update fun s => { s with lastAckEvent := false }
  let s ← socket
  when (s.state = .lastAck) do
    if s.dataRetrCount = 0 then do
      log .gaveUp
      app .errorClose
      deallocateEndPoint
    else do
      update fun s => { s with dataRetrCount := s.dataRetrCount - 1 }
      sendEmptyPacket app (FIN ||| ACK)
      update fun s => { s with lastAckEvent := true }

/-- A probe of one byte. The byte is not counted as sent. -/
def persistTimeout : Program Unit := do
  let s ← socket
  let item ← copyFromTxBuffer 1 s.nextTxSequence
  update fun s => { s with txBuffer := s.txBuffer.resetLastSegmentSent }
  let window ← advertisedWindowSize true
  if s.endPoint then do
    log (.sent
      { flags := {}
        seq := s.nextTxSequence
        ack := s.rxBuffer.nextRxSeq
        window := window
        windowScale := none
        sackPermitted := false
        timestamp := s.timestampEnabled
        sack := []
        payload := item.packet })
    update fun s => { s with persistEvent := true }
  else fail .null

end CudaNs3.Tcp.TcpSocketBase
