import CudaNs3.Lib.Agenda
import CudaNs3.Lib.Words
import Mathlib.Data.BitVec
import Mathlib.Logic.Function.Basic

/-!
# The bridged point-to-point device and its channel

Two devices attached to one channel, and the events they schedule. A device sends one frame at
a time and queues the others; the channel hands a copy of a frame to the other device when the
transmission and its delay are over.
-/

namespace CudaNs3.Device.BridgedP2P

set_option autoImplicit false

abbrev Mac48Address := BitVec 48

namespace Mac48Address

def getBroadcast : Mac48Address := 0xffffffffffff

def isBroadcast (a : Mac48Address) : Bool := a = getBroadcast

/-- The lowest bit of the first byte. -/
def isGroup (a : Mac48Address) : Bool := a.getLsbD 40

end Mac48Address

structure EthernetHeader where
  destination : Mac48Address
  source : Mac48Address
  lengthType : BitVec 16
deriving DecidableEq

namespace EthernetHeader
open Words

def serialize (h : EthernetHeader) : List UInt8 :=
  toBytes 6 h.destination.toNat ++ toBytes 6 h.source.toNat ++ toBytes 2 h.lengthType.toNat

/-- `none` when the packet is shorter than the header. -/
def deserialize (b : List UInt8) : Option EthernetHeader := do
  let destination ← readWord b 0 6
  let source ← readWord b 6 6
  let lengthType ← readWord b 12 2
  pure ⟨.ofNat 48 destination, .ofNat 48 source, .ofNat 16 lengthType⟩

def size : Nat := 14

end EthernetHeader

namespace EthernetTrailer
open Words

def size : Nat := 4

/-- `WriteU32` puts the least significant byte first. -/
def serialize (fcs : BitVec 32) : List UInt8 := (toBytes 4 fcs.toNat).reverse

def deserialize (b : List UInt8) : BitVec 32 := .ofNat 32 (ofBytes b.reverse)

end EthernetTrailer

inductive Side where
  | first
  | second
deriving DecidableEq

def Side.other : Side → Side
  | .first => .second
  | .second => .first

inductive QueueLimit where
  | packets (n : Nat)
  | bytes (n : Nat)
deriving DecidableEq

structure DropTailQueue where
  maxSize : QueueLimit
  packets : List (List UInt8) := []
deriving DecidableEq

namespace DropTailQueue

def nBytes (q : DropTailQueue) : Nat := (q.packets.map List.length).sum

/-- The queue with the item would be larger than its limit. -/
def isFullFor (q : DropTailQueue) (p : List UInt8) : Bool :=
  match q.maxSize with
  | .packets n => n < q.packets.length + 1
  | .bytes n => n < q.nBytes + p.length

def enqueue (q : DropTailQueue) (p : List UInt8) : Option DropTailQueue :=
  if q.isFullFor p then none else some { q with packets := q.packets ++ [p] }

def dequeue (q : DropTailQueue) : Option (List UInt8 × DropTailQueue) :=
  match q.packets with
  | [] => none
  | p :: packets => some (p, { q with packets := packets })

end DropTailQueue

inductive TxMachineState where
  | ready
  | busy
deriving DecidableEq

structure NetDevice where
  txMachineState : TxMachineState := .ready
  currentPkt : Option (List UInt8) := none
  queue : DropTailQueue
  linkUp : Bool := false
deriving DecidableEq

inductive PacketType where
  | host
  | broadcast
  | multicast
  | otherHost
deriving DecidableEq

/-- A call of the promiscuous callback or of the receive callback. -/
inductive Upcall where
  | promiscuous (payload : List UInt8) (protocol : BitVec 16) (source destination : Mac48Address)
      (packetType : PacketType)
  | receive (payload : List UInt8) (protocol : BitVec 16) (sender : Mac48Address)
deriving DecidableEq

/-- The attributes of both devices and of the channel, and `CalculateBytesTxTime` of the data
rates; `promiscuous` says whether the promiscuous callback is set. -/
structure Link where
  address : Side → Mac48Address
  txTime : Side → Nat → Nat
  interframeGap : Side → Nat
  promiscuous : Side → Bool
  delay : Nat
  checksumEnabled : Bool
  crc32Calculate : List UInt8 → BitVec 32

inductive Action where
  | transmitComplete (d : Side)
  | receive (d : Side) (packet : List UInt8)
deriving DecidableEq

structure Event where
  ts : Nat
  action : Action
deriving DecidableEq

/-- What a caller of `SendFrom` hands over. -/
structure Frame where
  payload : List UInt8
  protocol : BitVec 16
  source : Mac48Address
  destination : Mac48Address
deriving DecidableEq

/-- The simulation. The last three fields record the frames `SendFrom` accepted, the transmissions
begun, and the calls made by each reception. -/
structure State where
  now : Nat := 0
  events : List Event := []
  device : Side → NetDevice
  accepted : Side → List Frame := fun _ => []
  begun : Side → List (Nat × List UInt8) := fun _ => []
  received : Side → List (Nat × List Upcall) := fun _ => []

namespace State

def setDevice (s : State) (d : Side) (device : NetDevice) : State :=
  { s with device := Function.update s.device d device }

def schedule (s : State) (delay : Nat) (action : Action) : State :=
  { s with events := Agenda.schedule Event.ts ⟨s.now + delay, action⟩ s.events }

variable (link : Link)

/-- `AddHeader`: the header in front, and the trailer with the checksum of both. -/
def addHeader (f : Frame) : List UInt8 :=
  let packet := (EthernetHeader.mk f.destination f.source f.protocol).serialize ++ f.payload
  let fcs := if link.checksumEnabled then link.crc32Calculate packet else 0
  packet ++ EthernetTrailer.serialize fcs

/-- The transmission of a packet; `none` when the device is not READY. -/
def transmitStart (s : State) (d : Side) (packet : List UInt8) : Option State :=
  let device := s.device d
  if device.txMachineState = .ready then
    let txTime := link.txTime d packet.length
    let s := s.setDevice d { device with txMachineState := .busy, currentPkt := some packet }
    let s := { s with begun := Function.update s.begun d (s.begun d ++ [(s.now, packet)]) }
    let s := s.schedule (txTime + link.interframeGap d) (.transmitComplete d)
    some (s.schedule (txTime + link.delay) (.receive d.other packet))
  else none

def transmitComplete (s : State) (d : Side) : Option State :=
  let device := s.device d
  if device.txMachineState = .busy ∧ device.currentPkt ≠ none then
    let device := { device with txMachineState := .ready, currentPkt := none }
    match device.queue.dequeue with
    | none => some (s.setDevice d device)
    | some (packet, queue) =>
      (s.setDevice d { device with queue := queue }).transmitStart link d packet
  else none

def packetType (link : Link) (d : Side) (h : EthernetHeader) : PacketType :=
  if h.destination.isBroadcast then .broadcast
  else if h.destination.isGroup then .multicast
  else if h.destination = link.address d then .host
  else .otherHost

/-- What a reception passes up; `none` when the packet is too short to be read. The receive
callback gets the address of the device at the other end as the sender. -/
def upcalls (link : Link) (d : Side) (packet : List UInt8) : Option (List Upcall) :=
  if packet.length < EthernetTrailer.size then none
  else
    let fcs := EthernetTrailer.deserialize (packet.drop (packet.length - EthernetTrailer.size))
    let packet := packet.take (packet.length - EthernetTrailer.size)
    if link.checksumEnabled ∧ fcs ≠ link.crc32Calculate packet then some []
    else
      (EthernetHeader.deserialize packet).map fun header =>
        let packet := packet.drop EthernetHeader.size
        let protocol := header.lengthType
        let promiscuous := .promiscuous packet protocol header.source header.destination
          (packetType link d header)
        (if link.promiscuous d then [promiscuous] else []) ++
          [.receive packet protocol (link.address d.other)]

def receive (s : State) (d : Side) (packet : List UInt8) : Option State :=
  (upcalls link d packet).map fun calls =>
    { s with received := Function.update s.received d (s.received d ++ [(s.now, calls)]) }

/-- `none` when an assertion fails; a frame that does not fit into the queue is dropped. -/
def sendFrom (s : State) (d : Side) (f : Frame) : Option (State × Bool) :=
  let device := s.device d
  if device.linkUp then
    match device.queue.enqueue (addHeader link f) with
    | none => some (s, false)
    | some queue =>
      let s := { s with accepted := Function.update s.accepted d (s.accepted d ++ [f]) }
      if device.txMachineState = .ready then
        queue.dequeue.bind fun (packet, queue) =>
          ((s.setDevice d { device with queue := queue }).transmitStart link d packet).map
            fun s => (s, true)
      else some (s.setDevice d { device with queue := queue }, true)
  else none

def send (s : State) (d : Side) (payload : List UInt8) (destination : Mac48Address)
    (protocol : BitVec 16) : Option (State × Bool) :=
  s.sendFrom link d ⟨payload, protocol, link.address d, destination⟩

def call (s : State) : Action → Option State
  | .transmitComplete d => s.transmitComplete link d
  | .receive d packet => s.receive link d packet

inductive Happening where
  | send (d : Side) (payload : List UInt8) (destination : Mac48Address) (protocol : BitVec 16)
  | sendFrom (d : Side) (f : Frame)
  | wait (ts : Nat)
  | event

/-- One happening; the simulator calls the first event of those pending. -/
def step (s : State) : Happening → Option State
  | .send d payload destination protocol =>
    (s.send link d payload destination protocol).map Prod.fst
  | .sendFrom d f => (s.sendFrom link d f).map Prod.fst
  | .wait ts => some { s with now := ts }
  | .event =>
    match s.events with
    | [] => some s
    | e :: events => { s with now := e.ts, events := events }.call link e.action

/-- Time passes until the next event at most. -/
def Occurs (s : State) : Happening → Prop
  | .wait ts => s.now ≤ ts ∧ ∀ e ∈ s.events, ts ≤ e.ts
  | .event => s.events ≠ []
  | _ => True

instance (s : State) : (i : Happening) → Decidable (s.Occurs i)
  | .wait ts => inferInstanceAs (Decidable (s.now ≤ ts ∧ ∀ e ∈ s.events, ts ≤ e.ts))
  | .event => inferInstanceAs (Decidable (s.events ≠ []))
  | .send .. | .sendFrom .. => .isTrue trivial

/-- Both devices are attached, with empty queues of the given limits. -/
def start (limit : Side → QueueLimit) : State where
  device d := { queue := { maxSize := limit d }, linkUp := true }

end State
end CudaNs3.Device.BridgedP2P
