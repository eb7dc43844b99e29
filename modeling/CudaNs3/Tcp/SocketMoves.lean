import CudaNs3.Tcp.SocketReceiving
import CudaNs3.Tcp.TxContent
import Mathlib.Logic.Relation

/-!
# The moves of a socket

What the functions of a socket can do to its state, to its buffers, to its timers and to the trace,
in moves that do not depend on how the functions call one another. A guard is what the function
has tested, or what its caller has. Everything that no guard and no later result asks for changes
freely in a calm move.
-/

namespace CudaNs3.Tcp

open SequenceNumber TcpTxBuffer
set_option autoImplicit false

structure Snapshot where
  socket : TcpSocketBase
  trace : List Entry

def Machine.snapshot (m : Machine) : Snapshot := ⟨m.socket, m.trace⟩

/-- The fields that the moves speak of are the same; the send buffer may be rescored. -/
structure Calm (s t : TcpSocketBase) : Prop where
  state : t.state = s.state
  endPoint : t.endPoint = s.endPoint
  rxBuffer : t.rxBuffer = s.rxBuffer
  highTxMark : t.highTxMark = s.highTxMark
  retxEvent : t.retxEvent = s.retxEvent
  persistEvent : t.persistEvent = s.persistEvent
  timewaitEvent : t.timewaitEvent = s.timewaitEvent
  noDelay : t.noDelay = s.noDelay
  segmentSize : t.segmentSize = s.segmentSize
  rWnd : t.rWnd = s.rWnd
  highRxAckMark : t.highRxAckMark = s.highRxAckMark
  sndWindShift : t.sndWindShift = s.sndWindShift
  rcvWindShift : t.rcvWindShift = s.rcvWindShift
  winScalingEnabled : t.winScalingEnabled = s.winScalingEnabled
  maxWinSize : t.maxWinSize = s.maxWinSize
  txBuffer : Rescored s.txBuffer t.txBuffer

namespace Calm
variable {s t u : TcpSocketBase}

theorem refl (s : TcpSocketBase) : Calm s s :=
  ⟨rfl, rfl, rfl, rfl, rfl, rfl, rfl, rfl, rfl, rfl, rfl, rfl, rfl, rfl, rfl, .refl _⟩

theorem trans (h : Calm s t) (h' : Calm t u) : Calm s u where
  state := h'.state.trans h.state
  endPoint := h'.endPoint.trans h.endPoint
  rxBuffer := h'.rxBuffer.trans h.rxBuffer
  highTxMark := h'.highTxMark.trans h.highTxMark
  retxEvent := h'.retxEvent.trans h.retxEvent
  persistEvent := h'.persistEvent.trans h.persistEvent
  timewaitEvent := h'.timewaitEvent.trans h.timewaitEvent
  noDelay := h'.noDelay.trans h.noDelay
  segmentSize := h'.segmentSize.trans h.segmentSize
  rWnd := h'.rWnd.trans h.rWnd
  highRxAckMark := h'.highRxAckMark.trans h.highRxAckMark
  sndWindShift := h'.sndWindShift.trans h.sndWindShift
  rcvWindShift := h'.rcvWindShift.trans h.rcvWindShift
  winScalingEnabled := h'.winScalingEnabled.trans h.winScalingEnabled
  maxWinSize := h'.maxWinSize.trans h.maxWinSize
  txBuffer := h.txBuffer.trans h'.txBuffer

/-- The fields of a calm move, where the send buffer is the same as well. -/
def watched (s : TcpSocketBase) :=
  (s.state, s.endPoint, s.rxBuffer, s.highTxMark, s.retxEvent, s.persistEvent, s.timewaitEvent,
    s.noDelay, s.segmentSize, s.rWnd, s.highRxAckMark, s.sndWindShift, s.rcvWindShift,
    s.winScalingEnabled, s.maxWinSize, s.txBuffer)

theorem of_watched (h : watched t = watched s) : Calm s t := by
  simp only [watched, Prod.mk.injEq] at h
  obtain ⟨hstate, hend, hrx, hmark, hretx, hpersist, hwait, hdelay, hsize, hwnd, hack, hsnd, hrcv,
    henabled, hmax, htx⟩ := h
  exact ⟨hstate, hend, hrx, hmark, hretx, hpersist, hwait, hdelay, hsize, hwnd, hack, hsnd, hrcv,
    henabled, hmax, htx ▸ .refl _⟩

theorem rescored {b : TcpTxBuffer} (h : Rescored s.txBuffer b) : Calm s { s with txBuffer := b } :=
  ⟨rfl, rfl, rfl, rfl, rfl, rfl, rfl, rfl, rfl, rfl, rfl, rfl, rfl, rfl, rfl, h⟩

end Calm

/-- Happenings that no state goes with. -/
def Happening.note : Happening → Bool
  | .gaveUp | .sendPendingData => true
  | .delivered bytes => bytes = []
  | _ => false

/-- A reset went one way or the other, or a retry counter ran out. -/
def Happening.aborts : Happening → Bool
  | .sent seg | .received seg => seg.flags.rst
  | .gaveUp => true
  | _ => false

def Aborted (trace : List Entry) : Prop := ∃ e ∈ trace, e.happening.aborts

def Happening.isReceived : Happening → Bool
  | .received _ => true
  | _ => false

/-- The last segment that was received, with the socket before it. -/
def Current (trace : List Entry) (s₀ : TcpSocketBase) (seg : Segment) : Prop :=
  (trace.find? fun e => e.happening.isReceived) = some ⟨s₀, .received seg⟩

namespace TcpSocketBase

/-- The states that `CloseAndNotify` is called in without a reset. -/
def ending (s : TcpSocketBase) : Bool :=
  match s.state with
  | .closing | .lastAck | .timeWait | .listen | .closed | .synSent => true
  | _ => false

/-- `DeallocateEndPoint`, if there is one. -/
def deallocated (s : TcpSocketBase) : TcpSocketBase :=
  if s.endPoint then { s.withoutTimers with endPoint := false } else s

/-- The state that a FIN leads to. -/
def finLeads : TcpStates → TcpStates → Bool
  | .synRcvd, .finWait1 | .established, .finWait1 | .closeWait, .lastAck => true
  | _, _ => false

def marked (sent : SequenceNumber 32) (s : TcpSocketBase) : TcpSocketBase :=
  { s with highTxMark := if lt sent s.highTxMark then s.highTxMark else sent }

/-- The time stamp is there if it was agreed on. -/
def reads (s : TcpSocketBase) (seg : Segment) : Prop :=
  seg.flags.syn ∨ seg.flags.ack = false ∨ s.timestampEnabled = false ∨ seg.timestamp

instance (s : TcpSocketBase) (seg : Segment) : Decidable (s.reads seg) :=
  inferInstanceAs (Decidable (_ ∨ _ ∨ _ ∨ _))

/-- The socket once the header of a segment has been read. -/
def heard (seg : Segment) (e : EcnState) (s : TcpSocketBase) : TcpSocketBase :=
  if s.reads seg then readHeader seg { s with ecnState := e } else { s with ecnState := e }

/-- The states in which the payload and the FIN of a segment are looked at. -/
def takesData (s : TcpSocketBase) (seg : Segment) : Bool :=
  match s.state with
  | .closed | .listen | .timeWait => false
  | .synSent => seg.flags.core = {}
  | _ => true

/-- What makes `ReceivedData` or `SetFinSequence` run on a segment: a payload, a FIN, or no flags. -/
def carries (seg : Segment) : Prop :=
  seg.payload ≠ [] ∨ seg.flags.fin ∨ seg.flags.control = {}

instance (seg : Segment) : Decidable (carries seg) := inferInstanceAs (Decidable (_ ∨ _ ∨ _))

/-- The states of `ProcessWait`. -/
def waits (s : TcpSocketBase) : Bool :=
  match s.state with
  | .finWait1 | .finWait2 | .closeWait => true
  | _ => false

/-- A handshake is going on. -/
def opens (s : TcpSocketBase) : Bool :=
  match s.state with
  | .synSent | .synRcvd => true
  | _ => false

/-- Where a range that is sent comes from: unsent data within the window, or a sent item. -/
def Offers (s : TcpSocketBase) (seq : SequenceNumber 32) (n : BitVec 32) : Prop :=
  (seq = s.txBuffer.firstByteSeq + s.txBuffer.sentSize ∧ s.txBuffer.sentSize ≤ s.rWnd ∧
      n ≤ s.rWnd - s.txBuffer.sentSize) ∨
    ∃ pre it post, s.txBuffer.sentList = pre ++ it :: post ∧
      seq = at32 s.txBuffer.firstByteSeq (bytes every pre)

/-- The head of a buffer that has nothing to offer. -/
def Dry (s : TcpSocketBase) (seq : SequenceNumber 32) : Prop :=
  s.txBuffer.sentList = [] ∧ seq = s.txBuffer.firstByteSeq ∧
    (0 < s.txBuffer.sizeFromSequence (s.txBuffer.firstByteSeq + s.txBuffer.sentSize) →
      ¬ s.txBuffer.sentSize ≤ s.rWnd)

/-- What `AdvertisedWindowSize` makes of a window. -/
def advertised (s : TcpSocketBase) (scale : Bool) (w : BitVec 32) : BitVec 16 :=
  let w := if scale then w >>> s.rcvWindShift.toNat else w
  if s.maxWinSize.setWidth 32 < w then s.maxWinSize else w.setWidth 16

/-- The window in a segment is that of the socket, and the scale is set before a SYN leaves. -/
structure Announces (s : TcpSocketBase) (syn : Bool) (window : BitVec 16) : Prop where
  window : ∃ w, s.receiveWindow = some w ∧ window = s.advertised (!syn) w
  shift : syn → s.winScalingEnabled → s.rcvWindShift = s.calculateWScale

/-- The same of a segment, with the option. -/
structure Advertises (s : TcpSocketBase) (seg : Segment) : Prop where
  announces : s.Announces seg.flags.syn seg.window
  scale : seg.windowScale = if seg.flags.syn && s.winScalingEnabled then some s.rcvWindShift else none

/-- Where a FIN is recorded. -/
def Ends (s₀ s : TcpSocketBase) (seg : Segment) (seq : SequenceNumber 32) : Prop :=
  (seq = seg.seq + seg.size ∧ lt seg.seq s.rxBuffer.nextRxSeq = false ∧
      (seg.flags.fin ∨ s.rxBuffer.finished)) ∨
    (seq = seg.seq ∧ seg.flags.fin ∧ s₀.waits ∧
      (seg.payload ≠ [] → seg.flags.control = Flags.FIN ||| Flags.ACK))

end TcpSocketBase

open TcpSocketBase

/-- The segment that is being processed. -/
structure Processed (trace : List Entry) (s₀ : TcpSocketBase) (seg : Segment) : Prop where
  current : Current trace s₀ seg
  reads : s₀.reads seg

/-- What a call of the application can do. -/
inductive CallMove : Snapshot → Snapshot → Prop where
  | calm {s t tr} (h : Calm s t) : CallMove ⟨s, tr⟩ ⟨t, tr⟩
  | noted {s tr h} (hh : Happening.note h) : CallMove ⟨s, tr⟩ ⟨s, ⟨s, h⟩ :: tr⟩
  | queued {s tr p h} (state : s.state = .established ∨ s.state = .synSent ∨ s.state = .closeWait)
    (fits : (s.txBuffer.add p).2) (hh : h = .accepted p.bytes ∨ h = .refused p.bytes) :
    CallMove ⟨s, tr⟩
      ⟨{ s with txBuffer := (s.txBuffer.add p).1 },
        ⟨{ s with txBuffer := (s.txBuffer.add p).1 }, h⟩ :: tr⟩
  | extracted {s tr n b bytes} (h : s.rxBuffer.extract n = some (b, bytes)) :
    CallMove ⟨s, tr⟩ ⟨{ s with rxBuffer := b }, ⟨{ s with rxBuffer := b }, .delivered bytes⟩ :: tr⟩
  | scaled {s tr} (enabled : s.winScalingEnabled) :
    CallMove ⟨s, tr⟩ ⟨{ s with rcvWindShift := s.calculateWScale }, tr⟩
  | control {s tr seg} (fin : seg.flags.fin = false) (empty : seg.payload = [])
    (window : s.Advertises seg) :
    CallMove ⟨s, tr⟩ ⟨s, ⟨s, .sent seg⟩ :: tr⟩
  | armed {s tr} {flags : Flags} (syn : flags.syn) (fin : flags.fin = false) :
    CallMove ⟨s, tr⟩ ⟨{ s with retxEvent := s.retxEvent.or (some (.sendEmptyPacket flags)) }, tr⟩
  | fin {s t tr seg st} (leads : finLeads s.state st) (fin : seg.flags.fin) (empty : seg.payload = [])
    (seq : seg.seq = s.nextTxSequence) (window : s.Advertises seg)
    (ht : t = { s with retxEvent := s.retxEvent.or (some (.sendEmptyPacket seg.flags)) }) :
    CallMove ⟨s, tr⟩ ⟨{ t with state := st }, ⟨t, .state st⟩ :: ⟨s, .sent seg⟩ :: tr⟩
  | unsent {s w tr st} (leads : finLeads s.state st) (hw : w.state = s.state) :
    CallMove ⟨s, tr⟩ ⟨{ s with state := st }, ⟨w, .state st⟩ :: tr⟩
  | closed {s tr} (state : s.state ≠ .timeWait) (ending : Aborted tr ∨ s.ending) :
    CallMove ⟨s, tr⟩ ⟨{ s with state := .closed }, ⟨s, .state .closed⟩ :: tr⟩
  | deallocated {s tr} : CallMove ⟨s, tr⟩ ⟨s.deallocated, tr⟩
  | bound {s tr allocated} : CallMove ⟨s, tr⟩ ⟨{ s with endPoint := allocated }, ⟨s, .bound⟩ :: tr⟩
  | opening {s tr} (state : s.state ≠ .timeWait) :
    CallMove ⟨s, tr⟩ ⟨{ s with state := .synSent }, ⟨s, .state .synSent⟩ :: ⟨s, .opening⟩ :: tr⟩
  | listen {s tr} (state : s.state = .closed) :
    CallMove ⟨s, tr⟩ ⟨{ s with state := .listen }, ⟨s, .state .listen⟩ :: tr⟩

/-- What a segment or a timer can do besides, as long as no timer is lost. -/
inductive BasicMove : Snapshot → Snapshot → Prop where
  | call {r r'} (h : CallMove r r') : BasicMove r r'
  | copied {s tr now n seq item b} (offers : s.Offers seq n ∨ s.Dry seq)
    (copied : s.txBuffer.copyFromSequence now n seq = some (b, some item)) :
    BasicMove ⟨s, tr⟩
      ⟨{ s with txBuffer := b },
        ⟨{ s with txBuffer := b }, .dataPacket seq n item.size item.retrans⟩ :: tr⟩
  | data {s u tr now n seg} {item : TcpTxItem} {b₀ b : TcpTxBuffer}
    (copied : b₀.copyFromSequence now n seg.seq = some (b, some item))
    (rescored : Rescored b s.txBuffer) (payload : seg.payload = item.packet)
    (plain : seg.flags.syn = false ∧ seg.flags.rst = false)
    (calm : Calm { s with retxEvent := s.retxEvent.or (some .reTxTimeout) } u)
    (last : seg.flags.fin → u.txBuffer.sizeFromSequence (seg.seq + seg.size) = 0 ∧
      s.state ≠ .established ∧ s.state ≠ .closeWait)
    (window : u.Advertises seg) :
    BasicMove ⟨s, tr⟩ ⟨marked (seg.seq + seg.size) u, ⟨u, .sent seg⟩ :: tr⟩
  | probe {s t tr now item b seg}
    (copied : s.txBuffer.copyFromSequence now 1 seg.seq = some (b, some item))
    (payload : seg.payload = item.packet) (flags : seg.flags = {})
    (calm : Calm { s with txBuffer := b.resetLastSegmentSent } t) (window : t.Advertises seg) :
    BasicMove ⟨s, tr⟩ ⟨{ t with persistEvent := true }, ⟨t, .sent seg⟩ :: tr⟩
  | acknowledged {s tr s₀ seg now b} (heard : Processed tr s₀ seg) (ack : seg.flags.ack)
    (opened : s₀.opens → seg.ack = s.txBuffer.firstByteSeq)
    (h : s.txBuffer.discardUpTo now seg.ack = some b) :
    BasicMove ⟨s, tr⟩ ⟨{ s with txBuffer := b }, ⟨s, .acknowledged seg.ack⟩ :: tr⟩
  | rearmed {s tr} : BasicMove ⟨s, tr⟩ ⟨{ s with retxEvent := some .reTxTimeout }, tr⟩
  | disarmed {s tr} (empty : s.txBuffer.size = 0) : BasicMove ⟨s, tr⟩ ⟨{ s with retxEvent := none }, tr⟩
  | persisted {s tr} :
    BasicMove ⟨s, tr⟩ ⟨{ s with retxEvent := none, persistEvent := true }, tr⟩
  | established {s tr} (state : s.state = .synSent ∨ s.state = .synRcvd) :
    BasicMove ⟨s, tr⟩
      ⟨{ s with state := .established, retxEvent := none }, ⟨s, .state .established⟩ :: tr⟩
  | answered {s tr} (state : s.state = .synRcvd) : BasicMove ⟨s, tr⟩ ⟨{ s with retxEvent := none }, tr⟩
  | handshake {s tr s₀ seg b} (heard : Processed tr s₀ seg) (opens : s₀.opens)
    (head : s.txBuffer.setHeadSequence (s.nextTxSequence + 1) = some b) :
    BasicMove ⟨s, tr⟩
      ⟨{ s with
          nextTxSequence := s.nextTxSequence + 1
          highTxMark := s.nextTxSequence + 1
          txBuffer := b },
        ⟨s, .handshake⟩ :: tr⟩
  | synRcvd {s tr} (state : s.state = .synSent) :
    BasicMove ⟨s, tr⟩ ⟨{ s with state := .synRcvd }, ⟨s, .state .synRcvd⟩ :: tr⟩
  | peerClosed {s tr} : BasicMove ⟨s, tr⟩ ⟨s, ⟨s, .peerClose⟩ :: tr⟩
  | closeWait {s tr}
    (state : s.state = .established ∨ s.state = .synRcvd ∨ s.state = .finWait1 ∨ s.state = .finWait2) :
    BasicMove ⟨s, ⟨s, .peerClose⟩ :: tr⟩
      ⟨{ s with state := .closeWait }, ⟨s, .state .closeWait⟩ :: ⟨s, .peerClose⟩ :: tr⟩
  | closing {s tr} (state : s.state = .finWait1) :
    BasicMove ⟨s, tr⟩ ⟨{ s with state := .closing }, ⟨s, .state .closing⟩ :: tr⟩
  | finWait2 {s tr s₀ seg} (state : s.state = .finWait1) (heard : Processed tr s₀ seg)
    (ack : seg.flags.ack) (acks : s.acksFin seg) :
    BasicMove ⟨s, tr⟩ ⟨{ s with state := .finWait2 }, ⟨s, .state .finWait2⟩ :: tr⟩
  | timeWait {s tr} (state : s.state = .finWait2 ∨ s.state = .closing) :
    BasicMove ⟨s, tr⟩
      ⟨{ s with state := .timeWait }.withoutTimers, ⟨s, .state .timeWait⟩ :: tr⟩
  | awaited {s tr} (state : s.state = .timeWait) :
    BasicMove ⟨s, tr⟩ ⟨{ s with timewaitEvent := true }, tr⟩
  | expired {s tr} : BasicMove ⟨s, tr⟩ ⟨{ s with timewaitEvent := false }, tr⟩
  | closed {s tr} (ending : Aborted tr ∨ s.ending) :
    BasicMove ⟨s, tr⟩ ⟨{ s with state := .closed }, ⟨s, .state .closed⟩ :: tr⟩
  | finAgain {s tr seg} (state : s.state = .finWait1 ∨ s.state = .closing ∨ s.state = .lastAck)
    (fin : seg.flags.fin) (empty : seg.payload = []) (seq : seg.seq = s.nextTxSequence)
    (window : s.Advertises seg) :
    BasicMove ⟨s, tr⟩
      ⟨{ s with retxEvent := s.retxEvent.or (some (.sendEmptyPacket seg.flags)) },
        ⟨s, .sent seg⟩ :: tr⟩
  | fork {s f tr} (state : s.state = .listen) (hf : f = { s.fork with endPoint := true }) :
    BasicMove ⟨s, tr⟩
      ⟨{ f with state := .synRcvd }, ⟨f, .state .synRcvd⟩ :: ⟨f, .opening⟩ :: tr⟩
  | rxAdded {s tr s₀ seg b added} (heard : Processed tr s₀ seg) (takes : s₀.takesData seg)
    (carries : carries seg) (h : s.rxBuffer.add seg.seq seg.payload = some (b, added)) :
    BasicMove ⟨s, tr⟩ ⟨{ s with rxBuffer := b }, tr⟩
  | rxFin {s tr s₀ seg seq} (heard : Processed tr s₀ seg) (takes : s₀.takesData seg)
    (carries : carries seg) (ends : Ends s₀ s seg seq) :
    BasicMove ⟨s, tr⟩ ⟨{ s with rxBuffer := s.rxBuffer.setFinSequence seq }, tr⟩
  | rxNext {s tr seq} :
    BasicMove ⟨s, tr⟩
      ⟨{ s with rxBuffer := { s.rxBuffer with nextRxSeq := seq } }, ⟨s, .synchronized seq⟩ :: tr⟩

/-- A timer is dropped, and the scoreboard is set back. -/
structure Silenced (s t : TcpSocketBase) : Prop where
  calm : Calm s { t with retxEvent := s.retxEvent, persistEvent := s.persistEvent }
  retxEvent : t.retxEvent = s.retxEvent ∨ t.retxEvent = none
  persistEvent : t.persistEvent = s.persistEvent ∨ t.persistEvent = false

/-- What a timer can do. -/
inductive Move : Snapshot → Snapshot → Prop where
  | basic {r r'} (h : BasicMove r r') : Move r r'
  | silenced {s t tr} (h : Silenced s t) : Move ⟨s, tr⟩ ⟨t, tr⟩
  | resent {s t tr seg ev} (calm : Calm s t) (empty : seg.payload = []) (window : t.Advertises seg) :
    Move ⟨s, tr⟩ ⟨{ t with retxEvent := t.retxEvent.or ev }, ⟨t, .sent seg⟩ :: tr⟩
  | closed {s tr} : Move ⟨s, tr⟩ ⟨{ s with state := .closed }, ⟨s, .state .closed⟩ :: tr⟩

/-- The segment that arrives with an event. -/
def TcpSocketBase.Event.segment : Event → Option Segment
  | .forwardUp _ seg => some seg
  | _ => none

/-- What an event can do to a socket that was `s₀` before. -/
inductive EventMove (e : Event) (s₀ : TcpSocketBase) : Snapshot → Snapshot → Prop where
  | move {r r'} (h : Move r r') : EventMove e s₀ r r'
  | received {s tr seg mark} (arrives : e.segment = some seg) (calm : Calm s₀ s) :
    EventMove e s₀ ⟨s, tr⟩ ⟨s.heard seg mark, ⟨s, .received seg⟩ :: tr⟩

end CudaNs3.Tcp
