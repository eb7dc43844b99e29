import CudaNs3.Tcp.SocketSending

/-!
# What `TcpSocketBase` does with a call or a segment

The calls of the application, the functions for each state that a segment is handed to, and the
events that drive a socket.
-/

namespace CudaNs3.Tcp.TcpSocketBase

open SequenceNumber TcpTxBuffer Programs Flags
set_option autoImplicit false

variable (app : Callback → Program Unit)

/-- `m_state = st` after a FIN was sent for it. -/
def sendFin (flags : Flags) (st : TcpStates) : Program Unit := do
  sendEmptyPacket app flags
  setState st

def doClose : Program Unit := do
  let s ← socket
  match s.state with
  | .synRcvd | .established => sendFin app FIN .finWait1
  | .closeWait => sendFin app (FIN ||| ACK) .lastAck
  | .synSent | .closing => do
    sendRST app
    closeAndNotify app
  | .listen => closeAndNotify app
  | .lastAck | .closed | .finWait1 | .finWait2 | .timeWait => pure ()

def close : Program Unit := do
  let s ← socket
  if s.rxBuffer.size ≠ 0 then sendRST app
  else if 0 < s.txBuffer.sizeFromSequence s.nextTxSequence then
    update fun s => { s with closeOnEmpty := true }
  else doClose app

def shutdownSendNow : Program Unit := do
  update fun s => { s with shutdownSend := true, closeOnEmpty := true }
  let s ← socket
  when (s.txBuffer.size = 0) do
    if s.state = .established then sendFin app FIN .finWait1
    else when (s.state = .closeWait) (sendFin app FIN .lastAck)

def setErrno (e : SocketErrno) : Program Unit := update fun s => { s with errno := e }

/-- `SendPendingData` is called later if the window allows it. -/
def scheduleSend : Program Unit := do
  let s ← socket
  when (s.state = .established ∨ s.state = .closeWait) do
    let available ← availableWindow
    when (0 < available) (update fun s =>
      { s with sendPendingDataEvent := s.sendPendingDataEvent.or (some s.connected) })

/-- The packet has been put into the buffer. -/
def sendAccepted (p : Packet) : Program Unit := do
  log (.accepted p.bytes)
  scheduleSend

/-- The packet stays in the buffer where it is refused because of `m_shutdownSend`. -/
def send (p : Packet) : Program Unit := do
  let s ← socket
  if s.state = .established ∨ s.state = .synSent ∨ s.state = .closeWait then
    if (s.txBuffer.add p).2 then do
      setTxBuffer (s.txBuffer.add p).1
      if s.shutdownSend then do
        log (.refused p.bytes)
        setErrno .shutdown
      else sendAccepted p
    else setErrno .msgSize
  else setErrno .notConn

def recv (maxSize : BitVec 32) : Program Unit := do
  let s ← socket
  if s.rxBuffer.size = 0 ∧ s.state = .closeWait then log (.delivered [])
  else do
    let (b, bytes) ← lift (s.rxBuffer.extract maxSize)
    setRxBuffer b
    log (.delivered bytes)

/-- `m_state = st` for a new connection. -/
def openConnection (st : TcpStates) : Program Unit := do
  log .opening
  setState st

def doConnect : Program Unit := do
  let s ← socket
  match s.state with
  | .closed | .listen | .synSent | .lastAck | .closeWait => do
    sendEmptyPacket app (if s.useEcn = .on then SYN ||| ECE ||| CWR else SYN)
    openConnection .synSent
    update fun s => { s with ecnState := .disabled }
  | .timeWait => pure ()
  | .synRcvd | .established | .finWait1 | .finWait2 | .closing => do
    sendRST app
    closeAndNotify app

def bindSocket (allocated : Bool) : Program Unit := do
  log .bound
  update fun s => { s with endPoint := allocated }
  when (!allocated) (setErrno .addrNotAvail)

def connect (allocated routed : Bool) : Program Unit := do
  let s ← socket
  when (!s.endPoint) (bindSocket allocated)
  let s ← socket
  when s.endPoint do
    if routed then do
      update fun s => { s with synCount := s.synRetries, dataRetrCount := s.dataRetries }
      doConnect app
    else setErrno .noRouteToHost

def listenSocket : Program Unit := do
  let s ← socket
  if s.state = .closed then setState .listen else setErrno .inval

def call : Call → Program Unit
  | .bind allocated => bindSocket allocated
  | .connect allocated routed => connect app allocated routed
  | .listen => listenSocket
  | .send p => send p
  | .recv maxSize => recv maxSize
  | .shutdownSend => shutdownSendNow app
  | .shutdownRecv => update fun s => { s with shutdownRecv := true }
  | .close => close app

/-- `m_state = CLOSE_WAIT`, behind an assertion. -/
def enterCloseWait : Program Unit := do
  log .peerClose
  let s ← socket
  ensure (s.state = .established ∨ s.state = .synRcvd ∨ s.state = .finWait1 ∨ s.state = .finWait2)
  setState .closeWait

/-- The last FIN is sent again as long as it is not acknowledged. -/
def awaitLastAck : Program Unit := do
  let s ← socket
  when (s.state = .lastAck) (update fun s =>
    { s with dataRetrCount := s.dataRetries, lastAckEvent := true })

/-- The peer's FIN has been reached. -/
def doPeerClose : Program Unit := do
  enterCloseWait
  notifyClose app
  let s ← socket
  if s.shutdownSend then close app else sendEmptyPacket app ACK
  awaitLastAck

/-- An acknowledgment at once, or later if the count allows. -/
def delayAck : Program Unit := do
  update fun s => { s with delAckCount := s.delAckCount + 1 }
  let s ← socket
  congestion
  if s.delAckMaxCount ≤ s.delAckCount then do
    update fun s => { s with delAckEvent := false, delAckCount := 0 }
    sendAck app
  else update fun s => { s with delAckEvent := true }

/-- The end of `ReceivedData`: a gap in the buffer, or one that was filled, is acknowledged at
once. -/
def ackData (expectedSeq : SequenceNumber 32) (size : BitVec 32) : Program Unit := do
  let s ← socket
  if s.rxBuffer.availBytes < s.rxBuffer.size ∨ gt s.rxBuffer.nextRxSeq (expectedSeq + size) then do
    congestion
    sendAck app
  else delayAck app

def addToRxBuffer (seg : Segment) : Program Bool := do
  let s ← socket
  let (b, added) ← lift (s.rxBuffer.add seg.seq seg.payload)
  setRxBuffer b
  pure added

def receivedData (seg : Segment) : Program Unit := do
  let s ← socket
  let expectedSeq := s.rxBuffer.nextRxSeq
  let added ← addToRxBuffer seg
  if !added then sendAck app
  else do
    let s ← socket
    if lt expectedSeq s.rxBuffer.nextRxSeq then do
      when (!s.shutdownRecv) (app .dataRecv)
      let s ← socket
      if s.rxBuffer.finished && !seg.flags.fin then doPeerClose app
      else ackData app expectedSeq seg.size
    else ackData app expectedSeq seg.size

def setFinSequence (seq : SequenceNumber 32) : Program Unit :=
  update fun s => { s with rxBuffer := s.rxBuffer.setFinSequence seq }

/-- The part of `PeerClose` behind the piggybacked data. -/
def finishPeerClose : Program Unit := do
  let s ← socket
  when s.rxBuffer.finished do
    if s.state = .finWait1 then setState .closing else doPeerClose app

def peerClose (seg : Segment) : Program Unit := do
  let s ← socket
  when (!(lt seg.seq s.rxBuffer.nextRxSeq || gt seg.seq s.rxBuffer.maxRxSequence)) do
    setFinSequence (seg.seq + seg.size)
    when (seg.payload ≠ []) (receivedData app seg)
    finishPeerClose app

def enterCwr : Program Unit := do
  let s ← socket
  ensure (s.congState ≠ .caCwr)
  update fun s => { s with congState := .caCwr, recover := s.highTxMark }
  congestion

def enterRecovery : Program Unit := do
  let s ← socket
  ensure (s.congState ≠ .caRecovery)
  if s.sackEnabled then
    when (!s.txBuffer.isLost s.txBuffer.firstByteSeq) (updateTxBuffer fun b => some b.markHeadAsLost)
  else updateTxBuffer fun b => b.addRenoSack.map markHeadAsLost
  congestion
  update fun s =>
    { s with recover := s.highTxMark, recoverActive := true, congState := .caRecovery }
  let _ ← bytesInFlightNow
  congestion
  doRetransmit

/-- The branch of `DupAck` for `CA_DISORDER`. -/
def dupAckInDisorder : Program Unit := do
  let s ← socket
  ensure (s.dupAckCount ≤ s.retxThresh ∨ s.recoverActive)
  if s.dupAckCount = s.retxThresh ∧ (ge s.highRxAckMark s.recover ∨ s.recoverActive = false) then
    enterRecovery
  else if s.txBuffer.isLost (s.highRxAckMark + s.segmentSize) then enterRecovery
  else when (!s.sackEnabled ∧ s.limitedTx) (updateTxBuffer addRenoSack)

def dupAck : Program Unit := do
  let s ← socket
  when (s.congState ≠ .caLoss) do
    when (s.congState ≠ .caRecovery) (update fun s => { s with dupAckCount := s.dupAckCount + 1 })
    let s ← socket
    when (s.congState = .caOpen) do
      ensure (s.dupAckCount = 1)
      congestion
      setCongState .caDisorder
    let s ← socket
    if s.congState = .caRecovery then do
      when (!s.sackEnabled) (updateTxBuffer addRenoSack)
      when (!s.hasCongControl) congestion
    else when (s.congState = .caDisorder) dupAckInDisorder

def newAck (ack : SequenceNumber 32) (resetRTO : Bool) : Program Unit := do
  update fun s => { s with dataRetrCount := s.dataRetries }
  let s ← socket
  when (s.state ≠ .synRcvd ∧ resetRTO) (update fun s => { s with retxEvent := some .reTxTimeout })
  when (0 < s.getTxAvailable) (app .send)
  let s ← socket
  when (gt ack s.nextTxSequence) (setNextTxSequence ack)
  let s ← socket
  when (s.txBuffer.size = 0 ∧ s.state ≠ .finWait1 ∧ s.state ≠ .closing)
    (update fun s => { s with retxEvent := none })

/-- The segments acknowledged, with the bytes that do not make up one kept for later. -/
def countAcked (ack oldHead : SequenceNumber 32) : Program (BitVec 32) := do
  let s ← socket
  let bytes := distance ack oldHead
  let left := s.bytesAckedNotProcessed + bytes % s.segmentSize
  let whole := bytes / s.segmentSize
  let (segs, left) :=
    if s.segmentSize ≤ left then (whole + 1, left - s.segmentSize) else (whole, left)
  update fun s => { s with bytesAckedNotProcessed := left }
  pure segs

/-- A partial acknowledgment in `CA_RECOVERY`. -/
def partialAck (ack : SequenceNumber 32) (segsAcked : BitVec 32) : Program Unit := do
  let s ← socket
  when (!s.sackEnabled) (updateTxBuffer fun b => some b.markHeadAsLost)
  when (!s.hasCongControl ∧ 1 ≤ segsAcked) congestion
  let s ← socket
  when (!s.txBuffer.isRetransmittedDataAcked (ack + s.segmentSize)) doRetransmit
  congestion
  let s ← socket
  newAck app ack s.isFirstPartialAck
  update fun s => { s with isFirstPartialAck := false }

/-- The last branch of `ProcessAck`, before the recovery point is looked at. With whether fast
recovery is left. -/
def leaveCongState (isDupack : Bool) (segsAcked oldDupAckCount : BitVec 32) : Program Bool := do
  let s ← socket
  match s.congState with
  | .caOpen => do
    congestion
    pure false
  | .caDisorder => do
    when (oldDupAckCount ≤ segsAcked) congestion
    when (!isDupack) do
      congestion
      setCongState .caOpen
    pure false
  | .caRecovery => do
    update fun s => { s with isFirstPartialAck := true }
    congestion
    update fun s => { s with congState := .caOpen, dupAckCount := 0 }
    pure true
  | .caLoss => do
    update fun s => { s with isFirstPartialAck := true }
    congestion
    setCongState .caOpen
    pure false
  | .caCwr => pure false

def fullAck (ack : SequenceNumber 32) (isDupack : Bool) (segsAcked oldDupAckCount : BitVec 32) :
    Program Unit := do
  let exitedFastRecovery ← leaveCongState isDupack segsAcked oldDupAckCount
  update fun s => { s with recoverActive := s.recoverActive && !ge ack s.recover }
  when exitedFastRecovery do
    newAck app ack true
    congestion
  let s ← socket
  when (s.congState = .caOpen) do
    congestion
    newAck app ack true

/-- A new acknowledgment, in each of the congestion states. -/
def advanceAck (ack oldHead : SequenceNumber 32) (isDupack : Bool) (oldDupAckCount : BitVec 32) :
    Program Unit := do
  let segsAcked ← countAcked ack oldHead
  when (!isDupack) (update fun s => { s with dupAckCount := 0 })
  let s ← socket
  if lt ack s.recover ∧ s.congState = .caRecovery then partialAck app ack segsAcked
  else if lt ack s.recover ∧ s.congState = .caLoss then do
    congestion
    ensure (s.sackEnabled ∨ s.txBuffer.sackedOut = 0)
    newAck app ack true
  else if s.congState = .caCwr then do
    congestion
    newAck app ack true
  else fullAck app ack isDupack segsAcked oldDupAckCount

def processAck (ack : SequenceNumber 32) (scoreboardUpdated : Bool) (oldHead : SequenceNumber 32) :
    Program Unit := do
  let s ← socket
  let oldDupAckCount := s.dupAckCount
  let isDupack :=
    if s.sackEnabled then scoreboardUpdated else ack = oldHead ∧ lt ack s.highTxMark
  when isDupack dupAck
  let s ← socket
  if ack = oldHead then
    if ack = s.highTxMark then pure ()
    else if gt ack s.highTxMark then setNextTxSequence ack
    else congestion
  else when (gt ack oldHead) (advanceAck app ack oldHead isDupack oldDupAckCount)

/-- `ProcessOptionSack`, with the number of bytes that are newly sacked. -/
def processOptionSack (blocks : List SackBlock) : Program (BitVec 32) := do
  let s ← socket
  let (b, sacked) ← lift (s.txBuffer.update blocks)
  setTxBuffer b
  pure sacked

/-- `ReadOptions`: the number of bytes is that of the last option. -/
def readOptions (sacked : BitVec 32) : List (List SackBlock) → Program (BitVec 32)
  | [] => pure sacked
  | blocks :: rest => do
    let sacked ← processOptionSack blocks
    readOptions sacked rest

/-- `DiscardUpTo` on the send buffer. -/
def discardUpTo (ack : SequenceNumber 32) : Program Unit := fun m =>
  match m.socket.txBuffer.discardUpTo m.now ack with
  | none => .error .assertion m
  | some b =>
    .ok ()
      { m with
        socket := { m.socket with txBuffer := b }
        trace := ⟨m.socket, .acknowledged ack⟩ :: m.trace }

/-- What the echo of a congestion mark does. -/
def processEcho (ack oldHead : SequenceNumber 32) (ece : Bool) : Program Unit := do
  let s ← socket
  if gt ack oldHead ∧ s.ecnState ≠ .disabled ∧ ece then
    when (lt s.ecnEchoSeq ack) do
      update fun s => { s with ecnEchoSeq := ack, ecnState := .eceRcvd }
      when (s.congState ≠ .caCwr) enterCwr
  else when (s.ecnState = .eceRcvd ∧ ece = false) (update fun s => { s with ecnState := .idle })

/-- The part of `ReceivedAck` for an acknowledgment that is not old. -/
def acceptAck (seg : Segment) (bytesSacked : BitVec 32) (oldHead : SequenceNumber 32) :
    Program Unit := do
  discardUpTo seg.ack
  let s ← socket
  when (s.congState = .caCwr ∧ gt seg.ack s.recover) do
    setCongState .caOpen
    when (!s.hasCongControl) congestion
  processEcho seg.ack oldHead seg.flags.ece
  let _ ← bytesInFlightNow
  processAck app seg.ack (0 < bytesSacked) oldHead
  let s ← socket
  when s.hasCongControl congestion

def receivedAck (seg : Segment) : Program Unit := do
  let s ← socket
  ensure (seg.flags.ack ∧ 0 < s.segmentSize)
  let bytesSacked ← readOptions 0 seg.sack
  let s ← socket
  let oldHead := s.txBuffer.firstByteSeq
  if lt seg.ack oldHead then when (seg.payload ≠ []) (receivedData app seg)
  else do
    acceptAck app seg bytesSacked oldHead
    when (seg.payload ≠ []) (receivedData app seg)
    let s ← socket
    let _ ← sendPendingData app s.connected

/-- An illegal segment is answered by a reset, a reset is not; either closes the socket. -/
def abort (flags : Flags) : Program Unit := do
  when (flags ≠ RST) (sendRST app)
  closeAndNotify app

def processEstablished (seg : Segment) : Program Unit := do
  let s ← socket
  let flags := seg.flags.control
  if flags = ACK then
    if lt seg.ack s.txBuffer.firstByteSeq then pure ()
    else if gt seg.ack s.highTxMark then sendAck app
    else receivedAck app seg
  else if flags = SYN ∨ flags = SYN ||| ACK then pure ()
  else if flags = FIN ∨ flags = FIN ||| ACK then peerClose app seg
  else if flags = {} then do
    receivedData app seg
    let s ← socket
    when s.rxBuffer.finished (peerClose app seg)
  else abort app flags

def becomeEstablished : Program Unit := do
  congestion
  setCongState .caOpen
  setState .established
  update fun s => { s with connected := true, retxEvent := none }

/-- The end of a handshake: the SYN takes a sequence number, and the buffer starts behind it. -/
def startSending : Program Unit := do
  let s ← socket
  let b ← lift (s.txBuffer.setHeadSequence (s.nextTxSequence + 1))
  log .handshake
  update fun s =>
    { s with
      nextTxSequence := s.nextTxSequence + 1
      highTxMark := s.nextTxSequence + 1
      txBuffer := b }

/-- The same where `m_state` is left to `PeerClose`. -/
def startSendingConnected : Program Unit := do
  update fun s => { s with connected := true, retxEvent := none }
  startSending

def setNextRxSequence (seq : SequenceNumber 32) : Program Unit := do
  log (.synchronized seq)
  update fun s => { s with rxBuffer := { s.rxBuffer with nextRxSeq := seq } }

/-- The answer to a SYN. -/
def sendSynAck (flags : Flags) : Program Unit := do
  let s ← socket
  if s.useEcn ≠ .off ∧ flags.cwr ∧ flags.ece then do
    sendEmptyPacket app (SYN ||| ACK ||| ECE)
    update fun s => { s with ecnState := .idle }
  else do
    update fun s => { s with ecnState := .disabled }
    sendEmptyPacket app (SYN ||| ACK)

def processSynSent (seg : Segment) : Program Unit := do
  let s ← socket
  let flags := seg.flags.core
  if flags = {} then do
    becomeEstablished
    update fun s => { s with delAckCount := s.delAckMaxCount }
    receivedData app seg
  else if flags.ack && !flags.syn then pure ()
  else if flags.syn && !flags.ack then do
    setState .synRcvd
    update fun s => { s with synCount := s.synRetries }
    setNextRxSequence (seg.seq + 1)
    sendSynAck app flags
  else if (flags.syn || flags.ack) && s.nextTxSequence + 1 = seg.ack then do
    becomeEstablished
    setNextRxSequence (seg.seq + 1)
    startSending
    sendEmptyPacket app ACK
    update fun s =>
      { s with
        ecnState :=
          if s.useEcn ≠ .off ∧ flags.ece ∧ flags.cwr = false then .idle else .disabled }
    let s ← socket
    let _ ← sendPendingData app s.connected
    update fun s => { s with delAckCount := s.delAckMaxCount }
  else do
    when (!flags.rst) (sendRST app)
    closeAndNotify app

def processSynRcvd (seg : Segment) : Program Unit := do
  let s ← socket
  let flags := seg.flags.control
  if flags = {} ∨ (flags = ACK ∧ s.nextTxSequence + 1 = seg.ack) then do
    becomeEstablished
    startSending
    update fun s => { s with delAckCount := s.delAckMaxCount }
    app .newConnectionCreated
    receivedAck app seg
    let s ← socket
    when (0 < s.getTxAvailable) (app .send)
  else if flags = SYN then do
    setNextRxSequence (seg.seq + 1)
    sendSynAck app seg.flags
  else if flags = FIN ||| ACK then
    when (seg.seq = s.rxBuffer.nextRxSeq) do
      startSendingConnected
      app .newConnectionCreated
      peerClose app seg
  else abort app flags

/-- Whether `seg` acknowledges the FIN that was sent, as `ProcessWait` tests it. -/
def acksFin (s : TcpSocketBase) (seg : Segment) : Bool :=
  s.txBuffer.size = 0 && seg.ack = s.highTxMark + 1

/-- The end of `ProcessWait`: the peer's FIN has been reached. -/
def finishWait (seg : Segment) : Program Unit := do
  let s ← socket
  when ((s.state = .finWait1 ∨ s.state = .finWait2) ∧ s.rxBuffer.finished) do
    if s.state = .finWait1 then do
      setState .closing
      let s ← socket
      when (s.acksFin seg) (timeWait app)
    else timeWait app
    sendEmptyPacket app ACK
    let s ← socket
    when (!s.shutdownRecv) (app .dataRecv)

def processWait (seg : Segment) : Program Unit := do
  let flags := seg.flags.control
  if seg.payload ≠ [] ∧ flags.ack = false then do
    receivedData app seg
    finishWait app seg
  else if flags = ACK then do
    receivedAck app seg
    let s ← socket
    when (s.state = .finWait1 ∧ s.acksFin seg) (setState .finWait2)
    finishWait app seg
  else if flags = FIN ∨ flags = FIN ||| ACK then do
    when flags.ack (receivedAck app seg)
    setFinSequence seg.seq
    finishWait app seg
  else if flags = SYN ∨ flags = SYN ||| ACK then pure ()
  else abort app flags

def processClosing (seg : Segment) : Program Unit := do
  let s ← socket
  let flags := seg.flags.core
  if flags = ACK then when (seg.seq = s.rxBuffer.nextRxSeq) (timeWait app)
  else do
    if flags = FIN ∨ flags = FIN ||| ACK then sendEmptyPacket app ACK
    else when (flags ≠ RST) (sendRST app)
    closeAndNotify app

def processLastAck (seg : Segment) : Program Unit := do
  let s ← socket
  let flags := seg.flags.core
  if flags = {} then receivedData app seg
  else if flags = ACK then when (seg.seq = s.rxBuffer.nextRxSeq) (closeAndNotify app)
  else if flags = FIN then sendEmptyPacket app (FIN ||| ACK)
  else if flags = FIN ||| ACK ∨ flags = RST then closeAndNotify app
  else do
    sendRST app
    closeAndNotify app

/-- A socket that is closed answers anything but a reset. -/
def processClosed (seg : Segment) : Program Unit := do
  when (seg.flags.core ≠ RST) do
    let s ← socket
    let window ← advertisedWindowSize true
    log (.sent
      { flags := RST
        seq := s.nextTxSequence
        ack := s.rxBuffer.nextRxSeq
        window := window
        windowScale := none
        sackPermitted := false
        timestamp := s.timestampEnabled
        sack := []
        payload := [] })

def updateWindowSize (seg : Segment) (s : TcpSocketBase) : TcpSocketBase :=
  let receivedWindow := seg.window.setWidth 32 <<< s.sndWindShift.toNat
  if s.state.ctorIdx < TcpStates.established.ctorIdx then { s with rWnd := receivedWindow }
  else
    let larger := seg.ack = s.highRxAckMark ∧ s.rWnd < receivedWindow
    let newAck := gt seg.ack s.highRxAckMark
    let newData := gt seg.seq s.highRxMark
    { s with
      highRxAckMark := if newAck then seg.ack else s.highRxAckMark
      highRxMark := if newData then seg.seq else s.highRxMark
      rWnd := if larger ∨ newAck ∨ newData then receivedWindow else s.rWnd }

/-- The options of a SYN. -/
def readSyn (seg : Segment) (s : TcpSocketBase) : TcpSocketBase :=
  let scale := seg.windowScale.filter fun _ => s.winScalingEnabled
  let sack := seg.sackPermitted && s.sackEnabled
  { s with
    rWnd := seg.window.setWidth 32
    sndWindShift := (scale.map fun shift => if 14 < shift then 14 else shift).getD s.sndWindShift
    winScalingEnabled := scale.isSome
    sackEnabled := sack
    txBuffer := if sack then s.txBuffer else { s.txBuffer with sackEnabled := false }
    timestampEnabled := seg.timestamp && s.timestampEnabled
    cWnd := s.initialCWnd * s.segmentSize
    highRxAckMark := if seg.flags.ack then seg.ack else s.highRxAckMark }

def readHeader (seg : Segment) (s : TcpSocketBase) : TcpSocketBase :=
  if seg.flags.syn then s.readSyn seg
  else if seg.flags.ack then s.updateWindowSize seg
  else s

/-- With a window of zero the persist timer takes the place of the retransmission timer. -/
def enterPersist (s : TcpSocketBase) : TcpSocketBase :=
  if s.rWnd = 0 && !s.persistEvent then { s with retxEvent := none, persistEvent := true } else s

/-- The window has opened. -/
def leavePersist : Program Unit := do
  let s ← socket
  when (s.rWnd ≠ 0 ∧ s.persistEvent) do
    ensure s.connected
    update fun s => { s with persistEvent := false }
    let _ ← sendPendingData app s.connected

def processListen (seg : Segment) : Program Unit :=
  when (seg.flags.control = SYN) (app .connectionRequest)

def dispatch (seg : Segment) : Program Unit := do
  let s ← socket
  match s.state with
  | .established => processEstablished app seg
  | .listen => processListen app seg
  | .timeWait => pure ()
  | .closed => processClosed seg
  | .synSent => processSynSent app seg
  | .synRcvd => processSynRcvd app seg
  | .finWait1 | .finWait2 | .closeWait => processWait app seg
  | .closing => processClosing app seg
  | .lastAck => processLastAck app seg

def doForwardUp (seg : Segment) : Program Unit := do
  log (.received seg)
  update fun s =>
    if s.state = .established && !seg.flags.rst && seg.flags.cwr && s.ecnState ≠ .ceRcvd then
      { s with ecnState := .idle }
    else s
  let s ← socket
  -- a segment without the time stamp that was agreed on is not looked at
  when (seg.flags.syn ∨ seg.flags.ack = false ∨ s.timestampEnabled = false ∨ seg.timestamp) do
    update (readHeader seg)
    update enterPersist
    dispatch app seg
    leavePersist app

def receiveEcn (ecn : IpEcn) (seq : SequenceNumber 32) : Program Unit := do
  let s ← socket
  if ecn = .ce ∧ lt s.ecnCESeq seq then do
    update fun s => { s with ecnCESeq := seq, ecnState := .ceRcvd }
    congestion
  else when (ecn ≠ .notEct) congestion

/-- `ForwardUp`, which is the callback of the end point. -/
def forwardUp (ecn : IpEcn) (seg : Segment) : Program Unit := do
  let s ← socket
  when s.endPoint do
    if seg.payload ≠ [] && s.outOfRange seg.seq (seg.seq + seg.size) then sendEmptyPacket app ACK
    else do
      receiveEcn ecn seg.seq
      doForwardUp app seg

/-- `CompleteFork`, on the copy that `Fork` makes of a listening socket. -/
def completeFork (seg : Segment) : Program Unit := do
  let s ← socket
  when (s.state = .listen) do
    update fun s => { s.fork with endPoint := true }
    openConnection .synRcvd
    update fun s => { s with synCount := s.synRetries, dataRetrCount := s.dataRetries }
    setNextRxSequence (seg.seq + 1)
    sendSynAck app seg.flags

/-- The events. After `fork` the socket of the run is the new one. -/
inductive Event where
  | call (c : Call)
  | forwardUp (ecn : IpEcn) (seg : Segment)
  | fork (seg : Segment)
  | retxEvent
  | lastAckEvent
  | delAckEvent
  | persistEvent
  | timewaitEvent
  | sendPendingDataEvent
  | pacingTimer

/-- A timer that is pending expires, and its function is run. -/
def expire (pending : Bool) (clear : TcpSocketBase → TcpSocketBase) (run : Program Unit) :
    Program Unit :=
  when pending do
    update clear
    run

def perform : Event → Program Unit
  | .call c => call app c
  | .forwardUp ecn seg => forwardUp app ecn seg
  | .fork seg => completeFork app seg
  | .retxEvent => do
    let s ← socket
    match s.retxEvent with
    | none => pure ()
    | some ev => do
      update fun s => { s with retxEvent := none }
      match ev with
      | .reTxTimeout => reTxTimeout app
      | .sendEmptyPacket flags => sendEmptyPacket app flags
  | .lastAckEvent => do
    let s ← socket
    expire s.lastAckEvent (fun s => { s with lastAckEvent := false }) (lastAckTimeout app)
  | .delAckEvent => do
    let s ← socket
    expire s.delAckEvent (fun s => { s with delAckEvent := false }) (delAckTimeout app)
  | .persistEvent => do
    let s ← socket
    expire s.persistEvent (fun s => { s with persistEvent := false }) persistTimeout
  | .timewaitEvent => do
    let s ← socket
    expire s.timewaitEvent (fun s => { s with timewaitEvent := false }) (closeAndNotify app)
  | .sendPendingDataEvent => do
    let s ← socket
    match s.sendPendingDataEvent with
    | none => pure ()
    | some withAck => do
      update fun s => { s with sendPendingDataEvent := none }
      let _ ← sendPendingData app withAck
  | .pacingTimer => do
    let s ← socket
    expire s.pacingTimer (fun s => { s with pacingTimer := false }) do
      let s ← socket
      let _ ← sendPendingData app s.connected

/-- The calls that the application makes in one callback. -/
def nextAnswer : Program (List Call) := fun m =>
  match m.answers with
  | [] => .ok [] m
  | calls :: answers => .ok calls { m with answers := answers }

def callAll (app : Callback → Program Unit) : List Call → Program Unit
  | [] => pure ()
  | c :: calls => do
    call app c
    callAll app calls

/-- An application that calls the socket out of its callbacks, with `depth` callbacks within one
another at most. -/
def application : Nat → Callback → Program Unit
  | 0, _ => pure ()
  | depth + 1, _ => do
    let calls ← nextAnswer
    callAll (application depth) calls

/-- An event, with the answers of the environment while it is processed. -/
structure Input where
  event : Event
  now : Int
  answers : List (List Call)
  windows : List (BitVec 32)
  rounds : Nat
  depth : Nat

def Machine.feed (m : Machine) (i : Input) : Machine :=
  { m with now := i.now, answers := i.answers, windows := i.windows, rounds := i.rounds }

def step (i : Input) (m : Machine) : EStateM.Result Failure Machine Unit :=
  perform (application i.depth) i.event (Machine.feed m i)

def Machine.start (a : Attributes) : Machine where
  socket := .new a
  trace := []
  now := 0
  answers := []
  windows := []
  rounds := 0

/-- The states of a socket between two events. -/
inductive Reaches (a : Attributes) : Machine → Prop where
  | start : Reaches a (Machine.start a)
  | step {m m' : Machine} (i : Input) (h : Reaches a m) (hstep : step i m = .ok () m') :
    Reaches a m'

/-- The same, with the state in which the program stops. -/
def Seen (a : Attributes) (m' : Machine) : Prop :=
  ∃ m, Reaches a m ∧ (m' = m ∨ ∃ i f, step i m = .error f m')

end CudaNs3.Tcp.TcpSocketBase
