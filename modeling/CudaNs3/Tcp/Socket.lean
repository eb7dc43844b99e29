import CudaNs3.Lib.Programs
import CudaNs3.Tcp.RxBuffer

/-!
# The state of `TcpSocketBase`

The fields of a socket and of its `TcpSocketState`, and the programs that read and change them.
What the source leaves to other objects is an answer of the environment: the congestion window
after each call of the congestion control, and the calls that the application makes out of a
callback. Times are left out; an event is pending or not.
-/

namespace CudaNs3.Tcp

open SequenceNumber TcpTxBuffer
set_option autoImplicit false

/-- The flags of a header, one bit each. -/
structure Flags where
  fin : Bool := false
  syn : Bool := false
  rst : Bool := false
  psh : Bool := false
  ack : Bool := false
  urg : Bool := false
  ece : Bool := false
  cwr : Bool := false
  deriving DecidableEq

namespace Flags

abbrev FIN : Flags := { fin := true }
abbrev SYN : Flags := { syn := true }
abbrev RST : Flags := { rst := true }
abbrev ACK : Flags := { ack := true }
abbrev ECE : Flags := { ece := true }
abbrev CWR : Flags := { cwr := true }

instance : OrOp Flags where
  or a b :=
    { fin := a.fin || b.fin, syn := a.syn || b.syn, rst := a.rst || b.rst, psh := a.psh || b.psh,
      ack := a.ack || b.ack, urg := a.urg || b.urg, ece := a.ece || b.ece, cwr := a.cwr || b.cwr }

/-- `& ~(PSH | URG)`. -/
def core (f : Flags) : Flags := { f with psh := false, urg := false }

/-- `& ~(PSH | URG | CWR | ECE)`. -/
def control (f : Flags) : Flags := { f.core with ece := false, cwr := false }

end Flags

/-- The header fields that the socket reads, and the payload. There is an entry in `sack` for each
SACK option. -/
structure Segment where
  flags : Flags
  seq : SequenceNumber 32
  ack : SequenceNumber 32
  window : BitVec 16
  windowScale : Option (BitVec 8)
  sackPermitted : Bool
  timestamp : Bool
  sack : List (List SackBlock)
  payload : List UInt8
  deriving DecidableEq

namespace Segment

/-- `p->GetSize()`. -/
def size (seg : Segment) : BitVec 32 := BitVec.ofNat 32 seg.payload.length

end Segment

inductive TcpStates where
  | closed
  | listen
  | synSent
  | synRcvd
  | established
  | closeWait
  | lastAck
  | finWait1
  | finWait2
  | closing
  | timeWait
  deriving DecidableEq

inductive TcpCongState where
  | caOpen
  | caDisorder
  | caCwr
  | caRecovery
  | caLoss
  deriving DecidableEq

inductive EcnState where
  | disabled
  | idle
  | ceRcvd
  | sendingEce
  | eceRcvd
  | cwrSent
  deriving DecidableEq

inductive UseEcn where
  | off
  | on
  | acceptOnly
  deriving DecidableEq

/-- What the IP header says. -/
inductive IpEcn where
  | notEct
  | ect
  | ce
  deriving DecidableEq

inductive SocketErrno where
  | notError
  | msgSize
  | shutdown
  | notConn
  | inval
  | addrNotAvail
  | noRouteToHost
  deriving DecidableEq

/-- The two functions that are scheduled as `m_retxEvent`. -/
inductive RetxEvent where
  | reTxTimeout
  | sendEmptyPacket (flags : Flags)
  deriving DecidableEq

/-- `endPoint` is whether one of the two end points is there. `sendPendingDataEvent` keeps the
argument of the scheduled call. -/
structure TcpSocketBase where
  state : TcpStates
  endPoint : Bool
  txBuffer : TcpTxBuffer
  rxBuffer : TcpRxBuffer
  nextTxSequence : SequenceNumber 32
  highTxMark : SequenceNumber 32
  highRxMark : SequenceNumber 32
  highRxAckMark : SequenceNumber 32
  highTxAck : SequenceNumber 32
  rWnd : BitVec 32
  advWnd : BitVec 32
  maxWinSize : BitVec 16
  rcvWindShift : BitVec 8
  sndWindShift : BitVec 8
  winScalingEnabled : Bool
  sackEnabled : Bool
  timestampEnabled : Bool
  closeNotified : Bool
  closeOnEmpty : Bool
  shutdownSend : Bool
  shutdownRecv : Bool
  connected : Bool
  errno : SocketErrno
  synCount : BitVec 32
  synRetries : BitVec 32
  dataRetrCount : BitVec 32
  dataRetries : BitVec 32
  delAckCount : BitVec 32
  delAckMaxCount : BitVec 32
  noDelay : Bool
  limitedTx : Bool
  retxEvent : Option RetxEvent
  lastAckEvent : Bool
  delAckEvent : Bool
  persistEvent : Bool
  timewaitEvent : Bool
  sendPendingDataEvent : Option Bool
  pacingTimer : Bool
  cWnd : BitVec 32
  initialCWnd : BitVec 32
  segmentSize : BitVec 32
  congState : TcpCongState
  hasCongControl : Bool
  bytesInFlight : BitVec 32
  bytesAckedNotProcessed : BitVec 32
  dupAckCount : BitVec 32
  retxThresh : BitVec 32
  recover : SequenceNumber 32
  recoverActive : Bool
  isFirstPartialAck : Bool
  pacing : Bool
  paceInitialWindow : Bool
  useEcn : UseEcn
  ecnState : EcnState
  ecnEchoSeq : SequenceNumber 32
  ecnCESeq : SequenceNumber 32
  ecnCWRSeq : SequenceNumber 32
  deriving DecidableEq

/-- The attributes of a socket. -/
structure Attributes where
  sndBufSize : BitVec 32
  rcvBufSize : BitVec 32
  segmentSize : BitVec 32
  initialCwnd : BitVec 32
  connCount : BitVec 32
  dataRetries : BitVec 32
  delAckCount : BitVec 32
  tcpNoDelay : Bool
  windowScaling : Bool
  sack : Bool
  timestamp : Bool
  limitedTransmit : Bool
  retxThresh : BitVec 32
  maxWindowSize : BitVec 16
  enablePacing : Bool
  paceInitialWindow : Bool
  useEcn : UseEcn
  hasCongControl : Bool

namespace TcpSocketBase

def new (a : Attributes) : TcpSocketBase where
  state := .closed
  endPoint := false
  txBuffer := .new 0 a.sndBufSize a.retxThresh a.sack
  rxBuffer := .new 0 a.rcvBufSize
  nextTxSequence := 0
  highTxMark := 0
  highRxMark := 0
  highRxAckMark := 0
  highTxAck := 0
  rWnd := 0
  advWnd := 0
  maxWinSize := a.maxWindowSize
  rcvWindShift := 0
  sndWindShift := 0
  winScalingEnabled := a.windowScaling
  sackEnabled := a.sack
  timestampEnabled := a.timestamp
  closeNotified := false
  closeOnEmpty := false
  shutdownSend := false
  shutdownRecv := false
  connected := false
  errno := .notError
  synCount := a.connCount
  synRetries := a.connCount
  dataRetrCount := a.dataRetries
  dataRetries := a.dataRetries
  delAckCount := 0
  delAckMaxCount := a.delAckCount
  noDelay := a.tcpNoDelay
  limitedTx := a.limitedTransmit
  retxEvent := none
  lastAckEvent := false
  delAckEvent := false
  persistEvent := false
  timewaitEvent := false
  sendPendingDataEvent := none
  pacingTimer := false
  cWnd := 0
  initialCWnd := a.initialCwnd
  segmentSize := a.segmentSize
  congState := .caOpen
  hasCongControl := a.hasCongControl
  bytesInFlight := 0
  bytesAckedNotProcessed := 0
  dupAckCount := 0
  retxThresh := a.retxThresh
  recover := 0
  recoverActive := false
  isFirstPartialAck := true
  pacing := a.enablePacing
  paceInitialWindow := a.paceInitialWindow
  useEcn := a.useEcn
  ecnState := .disabled
  ecnEchoSeq := 0
  ecnCESeq := 0
  ecnCWRSeq := 0

/-- `CancelAllTimers`. -/
def withoutTimers (s : TcpSocketBase) : TcpSocketBase :=
  { s with
    retxEvent := none
    persistEvent := false
    delAckEvent := false
    lastAckEvent := false
    timewaitEvent := false
    sendPendingDataEvent := none
    pacingTimer := false }

/-- `Fork`: what the copy constructor takes over. -/
def fork (s : TcpSocketBase) : TcpSocketBase :=
  { s.withoutTimers with
    endPoint := false
    highTxAck := 0
    advWnd := 0
    delAckCount := 0 }

def getTxAvailable (s : TcpSocketBase) : BitVec 32 := s.txBuffer.available

def unAckDataCount (s : TcpSocketBase) : BitVec 32 := distance s.highTxMark s.txBuffer.firstByteSeq

def isPacingEnabled (s : TcpSocketBase) : Bool :=
  s.pacing && (s.paceInitialWindow || decide (s.initialCWnd * s.segmentSize < s.highTxMark))

def outOfRange (s : TcpSocketBase) (head tail : SequenceNumber 32) : Bool :=
  match s.state with
  | .listen | .synSent | .synRcvd => false
  | .lastAck | .closing | .closeWait => s.rxBuffer.nextRxSeq ≠ head
  | _ => lt tail s.rxBuffer.nextRxSeq || le s.rxBuffer.maxRxSequence head

end TcpSocketBase

/-- What the application can do. The arguments of `bind` and `connect` are what the other objects of
the node answer: whether there is an end point to allocate, and a route. -/
inductive Call where
  | bind (allocated : Bool)
  | connect (allocated routed : Bool)
  | listen
  | send (p : Packet)
  | recv (maxSize : BitVec 32)
  | shutdownSend
  | shutdownRecv
  | close

inductive Callback where
  | connectionRequest
  | connectionFailed
  | newConnectionCreated
  | normalClose
  | errorClose
  | send
  | dataRecv
  deriving DecidableEq

/-- What can be seen of a socket: its trace sources, what it hands to the network and to the
application, and the functions that are logged. Bytes that are refused have been put into the send
buffer all the same. -/
inductive Happening where
  | state (new : TcpStates)
  | received (seg : Segment)
  | sent (seg : Segment)
  | accepted (bytes : List UInt8)
  | refused (bytes : List UInt8)
  | delivered (bytes : List UInt8)
  | bound
  | opening
  | handshake
  | synchronized (seq : SequenceNumber 32)
  | acknowledged (ack : SequenceNumber 32)
  | dataPacket (seq : SequenceNumber 32) (maxSize size : BitVec 32) (isRetransmission : Bool)
  | sendPendingData
  | peerClose
  | gaveUp
  deriving DecidableEq

/-- A happening, with the socket just before it. -/
structure Entry where
  socket : TcpSocketBase
  happening : Happening

/-- The socket, what was seen of it so far with the latest first, and the answers of the
environment to come. `rounds` bounds a loop. -/
structure Machine where
  socket : TcpSocketBase
  trace : List Entry
  now : Int
  answers : List (List Call)
  windows : List (BitVec 32)
  rounds : Nat

/-- Why a program stops: a failed assertion, a null pointer that is used, or a loop that was not
through within the given number of rounds. -/
inductive Failure where
  | assertion
  | null
  | endless

abbrev Program (α : Type) := EStateM Failure Machine α

namespace TcpSocketBase

def socket : Program TcpSocketBase := fun m => .ok m.socket m

def update (f : TcpSocketBase → TcpSocketBase) : Program Unit := fun m =>
  .ok () { m with socket := f m.socket }

def log (h : Happening) : Program Unit := fun m =>
  .ok () { m with trace := ⟨m.socket, h⟩ :: m.trace }

def fail {α : Type} (f : Failure) : Program α := throw f

/-- `NS_ASSERT`. -/
def ensure (c : Prop) [Decidable c] : Program Unit := if c then pure () else fail .assertion

/-- A function of one of the buffers, which may stop the program itself. -/
def lift {α : Type} : Option α → Program α
  | some a => pure a
  | none => fail .assertion

/-- An assignment to `m_state`, which is a trace source. -/
def setState (new : TcpStates) : Program Unit := do
  log (.state new)
  update fun s => { s with state := new }

/-- A call of the congestion control or of the recovery algorithm. -/
def congestion : Program Unit := fun m =>
  match m.windows with
  | [] => .ok () m
  | w :: ws => .ok () { m with socket := { m.socket with cWnd := w }, windows := ws }

def setTxBuffer (b : TcpTxBuffer) : Program Unit := update fun s => { s with txBuffer := b }

/-- A change of the scoreboard, which may fail. -/
def updateTxBuffer (f : TcpTxBuffer → Option TcpTxBuffer) : Program Unit := do
  let s ← socket
  let b ← lift (f s.txBuffer)
  setTxBuffer b

def setRxBuffer (b : TcpRxBuffer) : Program Unit := update fun s => { s with rxBuffer := b }

def setNextTxSequence (seq : SequenceNumber 32) : Program Unit :=
  update fun s => { s with nextTxSequence := seq }

def setCongState (c : TcpCongState) : Program Unit := update fun s => { s with congState := c }

end TcpSocketBase

namespace TcpTxBuffer

/-- `SetHeadSequence`, which must not be called when something was sent. -/
def setHeadSequence (s : TcpTxBuffer) (seq : SequenceNumber 32) : Option TcpTxBuffer :=
  if s.sentList = [] then some { s with firstByteSeq := seq, highestSack := (none, 0) } else none

def isLostFrom (seq : SequenceNumber 32) : SequenceNumber 32 → List TcpTxItem → Bool
  | _, [] => false
  | begin, it :: rest =>
    if ge begin seq && it.lost then true
    else if ge begin seq && it.sacked then false
    else isLostFrom seq (begin + it.size) rest

def isLost (s : TcpTxBuffer) (seq : SequenceNumber 32) : Bool :=
  if ge seq s.highestSack.2 then false else isLostFrom seq s.firstByteSeq s.sentList

def isRetransmittedDataAcked (s : TcpTxBuffer) (ack : SequenceNumber 32) : Bool :=
  s.sentList.any fun it => it.startSeq + it.size = ack && !it.sacked && it.retrans

/-- The loop of `NextSeg`: the first lost item or, as the third rule has it, an item that may be
sent again. That one is replaced as long as its number is zero. -/
def nextLost (isRecovery : Bool) :
    SequenceNumber 32 → Option (SequenceNumber 32) → List TcpTxItem →
      SequenceNumber 32 ⊕ Option (SequenceNumber 32)
  | _, rule3, [] => .inr rule3
  | begin, rule3, it :: rest =>
    if !it.retrans && !it.sacked then
      if it.lost then .inl begin
      else
        nextLost isRecovery (begin + it.size)
          (if rule3.getD 0 = 0 && isRecovery then some begin else rule3) rest
    else nextLost isRecovery (begin + it.size) rule3 rest

/-- `NextSeg`, with the range to send. -/
def nextSeg (s : TcpTxBuffer) (segmentSize rWnd : BitVec 32) (isRecovery : Bool) :
    Option (SequenceNumber 32 × SequenceNumber 32) :=
  match nextLost isRecovery s.firstByteSeq none s.sentList with
  | .inl seq => some (seq, seq + segmentSize)
  | .inr rule3 =>
    if 0 < s.sizeFromSequence (s.firstByteSeq + s.sentSize) then
      if s.sentSize ≤ rWnd then
        let seq := s.firstByteSeq + s.sentSize
        some (seq, seq + stdMin segmentSize (rWnd - s.sentSize))
      else none
    else rule3.map fun seq => (seq, seq + segmentSize)

/-- `BytesInFlight`, with its assertion. -/
def bytesInFlight (s : TcpTxBuffer) : Option (BitVec 32) :=
  let leftOut := s.sackedOut + s.lostOut
  if leftOut ≤ s.sentSize then some (s.sentSize - leftOut + s.retrans) else none

end TcpTxBuffer

end CudaNs3.Tcp
