import CudaNs3.Device.Topology
import CudaNs3.Elp.Event
import Mathlib.Logic.Function.Basic
import Mathlib.Tactic.Simps.Basic

/-!
# What the handlers write, and the handlers

A handler is one atomic step on the state: it returns the state after it and what it passed
to `d_insert`, in order. It returns `none` where the code spins or uses a null pointer.
-/

namespace CudaNs3.Device

open Elp
set_option autoImplicit false

/-- `m_txMachineState` and the packets between front and rear. -/
structure Transmitter where
  busy : Bool
  queue : List Nat
  deriving DecidableEq

/-- `packet` is `d_threadBuffer`, indexed like it; `tx` by device, `learned` by bridge, `sent`
and `totalTx` by client, `rxAvailable` and `deliveryQueue` by socket, `received` by server. -/
structure Net where
  packet : Nat → CudaPacket
  tx : Nat → Transmitter
  learned : Nat → List (MACAddress × Nat)
  sent : Nat → Nat
  totalTx : Nat → UInt64
  rxAvailable : Nat → UInt32
  deliveryQueue : Nat → List Nat
  received : Nat → Nat

abbrev Fired := Net × List EventArgs

namespace Net

def start : Net where
  packet _ := .free
  tx _ := ⟨false, []⟩
  learned _ := []
  sent _ := 0
  totalTx _ := 0
  rxAvailable _ := 0
  deliveryQueue _ := []
  received _ := 0

@[simps] def setPacket (s : Net) (p : Nat) (pk : CudaPacket) : Net :=
  { s with packet := Function.update s.packet p pk }

@[simps] def setTx (s : Net) (d : Nat) (t : Transmitter) : Net :=
  { s with tx := Function.update s.tx d t }

@[simps] def setLearned (s : Net) (b : Nat) (table : List (MACAddress × Nat)) : Net :=
  { s with learned := Function.update s.learned b table }

@[simps] def setSent (s : Net) (c n : Nat) (totalTx : UInt64) : Net :=
  { s with
    sent := Function.update s.sent c n
    totalTx := Function.update s.totalTx c totalTx }

@[simps] def setSocket (s : Net) (k : Nat) (rxAvailable : UInt32) (queue : List Nat) : Net :=
  { s with
    rxAvailable := Function.update s.rxAvailable k rxAvailable
    deliveryQueue := Function.update s.deliveryQueue k queue }

@[simps] def setReceived (s : Net) (v n : Nat) : Net :=
  { s with received := Function.update s.received v n }

def release (s : Net) (p : Nat) : Net := s.setPacket p (s.packet p).release

/-- `EnqueuePacket`; `none` when the queue is full. -/
def enqueuePacket (s : Net) (d p : Nat) : Option Net :=
  if queueSize ≤ (s.tx d).queue.length then none
  else some (s.setTx d { s.tx d with queue := (s.tx d).queue ++ [p] })

def enqueueOrRelease (s : Net) (d p : Nat) : Net := (s.enqueuePacket d p).getD (s.release p)

/-- A packet that is not ready is taken off the queue and dropped. -/
def dequeuePacket (s : Net) (d : Nat) : Net × Option Nat :=
  match (s.tx d).queue with
  | [] => (s, none)
  | p :: rest =>
    (s.setTx d { s.tx d with queue := rest }, if (s.packet p).ready then some p else none)

/-- The claiming loop of `ELP_Send`, `none` if it spins. -/
def claim (s : Net) (tid : Nat) : Option Nat :=
  ((List.range maxPacketPerThread).map (tid * maxPacketPerThread + ·)).find? fun p =>
    !(s.packet p).ready

end Net

def CudaP2PChannel.transmitStart (topo : Topology) (p src txTime ts : Nat) : List EventArgs :=
  let c := topo.channelOf src
  if c.initialized = false then []
  else [⟨c.getDstDev src, ts + txTime + c.delay, c.context src, .receive,
    topo.receiveLookahead src, some p⟩]

namespace CudaNetDevice
variable (topo : Topology)

def transmitStart (s : Net) (d p ts : Nat) : Fired :=
  let dev := topo.device d
  if (s.tx d).busy then (s.enqueueOrRelease d p, [])
  else
    let interval := txTime (s.packet p).size dev.bps
    (s.setTx d { s.tx d with busy := true },
      ⟨d, ts + interval, dev.nodeId, .transmitComplete, dev.lookahead, none⟩ ::
        CudaP2PChannel.transmitStart topo p d interval ts)

def sendFrom (s : Net) (d p : Nat) (src dst : MACAddress) (ts : Nat) : Fired :=
  let s := s.setPacket p ((s.packet p).addLinkHeader src dst)
  if (s.tx d).busy then (s.enqueueOrRelease d p, []) else transmitStart topo s d p ts

def dTransmitComplete (s : Net) (d ts : Nat) : Fired :=
  if (s.tx d).busy = false then (s, [])
  else
    match (s.setTx d { s.tx d with busy := false }).dequeuePacket d with
    | (s, none) => (s, [])
    | (s, some p) => transmitStart topo s d p ts

end CudaNetDevice

namespace CudaBridgeNetDevice

/-- `Learn`, on the table of the bridge. -/
def learn (b : CudaBridgeNetDevice) (table : List (MACAddress × Nat)) (source : MACAddress)
    (port : Nat) : List (MACAddress × Nat) :=
  if b.enableLearning = false then table
  else if maxMacEntries ≤ table.length then table
  else
    match table.findIdx? fun entry => entry.1 = source with
    | some i => table.set i (source, port)
    | none => table ++ [(source, port)]

def getLearnedState (table : List (MACAddress × Nat)) (source : MACAddress) : Option Nat :=
  (table.find? fun entry => entry.1 = source).map Prod.snd

variable (topo : Topology)

/-- `SendFrom` on one port after the other, with the same packet. -/
def flood (s : Net) (p : Nat) (src dst : MACAddress) (ts : Nat) : List Nat → Fired
  | [] => (s, [])
  | d :: ports =>
    let (s, out) := CudaNetDevice.sendFrom topo s d p src dst ts
    let (s, rest) := flood s p src dst ts ports
    (s, out ++ rest)

def forwardUnicast (s : Net) (b incomingPort p : Nat) (src dst : MACAddress) (ts : Nat) : Fired :=
  let s := s.setLearned b (learn (topo.bridge b) (s.learned b) src incomingPort)
  match getLearnedState (s.learned b) dst with
  | some outgoingPort => CudaNetDevice.sendFrom topo s outgoingPort p src dst ts
  | none => flood topo s p src dst ts ((topo.bridge b).ports.filter (· ≠ incomingPort))

end CudaBridgeNetDevice

/-- `d_NeedsArp` is always true: without an entry for the destination nothing is sent. -/
def CudaIpv4Interface.optimizeSend (topo : Topology) (itf : CudaIpv4Interface) (s : Net) (p : Nat)
    (destination : UInt32) (ts : Nat) : Fired :=
  match itf.lookup destination with
  | none => (s, [])
  | some mac =>
    CudaNetDevice.sendFrom topo s itf.device p (topo.device itf.device).macAddress mac ts

def CudaIpv4L3Protocol.optimizeSend (topo : Topology) (stack : Nat) (s : Net) (p : Nat)
    (destination : UInt32) (ts : Nat) : Fired :=
  match topo.outInterface stack destination with
  | none => (s, [])
  | some itf => itf.optimizeSend topo s p destination ts

def CudaUdpL4Protocol.optimizeSend (topo : Topology) (stack : Nat) (s : Net) (p : Nat) (l : Locals)
    (saddr daddr : UInt32) (sport dport : UInt16) (ts : Nat) : Fired :=
  let pk := s.packet p
  CudaIpv4L3Protocol.optimizeSend topo stack
    (s.setPacket p (pk.addHeader (combinedIpUdpHeaders l pk.size saddr daddr sport dport)))
    p daddr ts

namespace CudaSocket
variable (topo : Topology)

/-- With what is returned. `OptimizeSend` has no return statement. -/
def doSendTo (k : Nat) (s : Net) (p : Nat) (dest : UInt32) (port : UInt16) (l : Locals) (ts : Nat) :
    Fired × Int :=
  let socket := topo.socket k
  if socket.bound = false then ((s, []), -1)
  else if maxIpv4UdpDatagramSize < (s.packet p).size then ((s, []), -1)
  else if socket.shutdownSend then ((s, []), -1)
  else (CudaUdpL4Protocol.optimizeSend topo socket.udp s p l 0 dest 0 port ts, l.result)

def send (k : Nat) (s : Net) (p : Nat) (l : Locals) (ts : Nat) : Fired × Int :=
  doSendTo topo k s p (topo.socket k).defaultAddress (topo.socket k).defaultPort l ts

/-- `CudaRecv`, the packet fetched if any. -/
def cudaRecv (k : Nat) (s : Net) (maxSize : Nat) : Net × Option Nat :=
  match s.deliveryQueue k with
  | [] => (s, none)
  | q :: rest =>
    if (s.packet q).size < maxSize then
      (s.setSocket k (s.rxAvailable k - .ofNat (s.packet q).size) rest, some q)
    else (s.setSocket k (s.rxAvailable k) rest, none)

def handleRead (k server : Nat) (s : Net) : Net :=
  match cudaRecv k s uint32Max with
  | (s, none) => s
  | (s, some q) =>
    (if 0 < (s.packet q).size then s.setReceived server (s.received server + 1) else s).release q

def forwardPacket (k : Nat) (s : Net) (p : Nat) : Option Net :=
  let socket := topo.socket k
  let size : UInt32 := .ofNat (s.packet p).size
  if socket.shutdownRecv then some s
  else if (s.rxAvailable k + size).toNat ≤ socket.rcvBufSize then
    if deliveryQueueCapacity ≤ (s.deliveryQueue k).length then some (s.release p)
    else
      let s := s.setSocket k (s.rxAvailable k + size) (s.deliveryQueue k ++ [p])
      socket.server.map fun server => handleRead k server s
  else some s

end CudaSocket

namespace CudaIpv4L3Protocol
variable (topo : Topology)

/-- `d_LocalDeliver` and `CudaUdpL4Protocol::Receive`. -/
def dLocalDeliver (stack : Nat) (s : Net) (p : Nat) : Option Net :=
  (topo.stack stack).endPointSocket.bind fun k =>
    CudaSocket.forwardPacket topo k (s.setPacket p (s.packet p).stripIpUdpHeaders) p

def dReceive (stack : Nat) (s : Net) (device p : Nat) : Option Net :=
  let l3 := topo.stack stack
  match (l3.getInterfaceForDevice device).bind l3.getInterface with
  | none => none
  | some itf => if itf.isUp = false then some s else dLocalDeliver topo stack s p

end CudaIpv4L3Protocol

def CudaNetDevice.dReceive (topo : Topology) (s : Net) (d p : Nat) (l : Locals) (ts : Nat) :
    Option Fired :=
  if (s.packet p).ready = false then some (s, [])
  else
    let (pk, dst, src) := (s.packet p).stripLinkHeader l
    let s := s.setPacket p pk
    match (topo.device d).bridge with
    | some b => some (CudaBridgeNetDevice.forwardUnicast topo s b d p src dst ts)
    | none => (CudaIpv4L3Protocol.dReceive topo (topo.device d).ipv4 s d p).map fun s => (s, [])

def CudaUdpClient.elpSend (topo : Topology) (s : Net) (c tid : Nat) (l : Locals) (ts : Nat) :
    Option Fired :=
  let client := topo.client c
  if client.stop then some (s, [])
  else if client.count ≤ s.sent c then some (s, [])
  else
    (s.claim tid).map fun p =>
      let s := s.setPacket p ({ s.packet p with ready := true }.construct.setSize client.size)
      let ((s, out), r) := CudaSocket.send topo client.socket s p l ts
      let s :=
        if 0 ≤ r then s.setSent c (s.sent c + 1) (s.totalTx c + .ofNat (s.packet p).size) else s
      (s, out ++ [⟨c, ts + client.interval, client.nodeId, .send, client.lookahead, none⟩])

/-- An event with the thread that executes it and what that thread's locals happen to hold. -/
structure Task where
  ev : EventArgs
  tid : Nat
  locals : Locals
  deriving DecidableEq

/-- The first send of a client of `Topology.twoHosts 2000`, on the thread of the same number. -/
def Task.firstSend (c : Nat) : Task := ⟨⟨c, 0, 0, .send, 3024, none⟩, c, .zero⟩

def cudaProcessOneEvent (topo : Topology) (s : Net) (w : Task) : Option Fired :=
  match w.ev.type with
  | .send => CudaUdpClient.elpSend topo s w.ev.obj w.tid w.locals w.ev.ts
  | .transmitComplete => some (CudaNetDevice.dTransmitComplete topo s w.ev.obj w.ev.ts)
  | .receive =>
    w.ev.payload.bind fun p => CudaNetDevice.dReceive topo s w.ev.obj p w.locals w.ev.ts

end CudaNs3.Device
