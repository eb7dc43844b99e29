import CudaNs3.Device.Packet

/-!
# What the handlers only read

Devices, channels, bridges, protocol stacks, sockets and clients as they are set up before
a kernel runs. Objects are named by numbers; what the handlers write is in `Net`.
-/

namespace CudaNs3.Device

set_option autoImplicit false

def queueSize : Nat := 2048
def maxPacketPerThread : Nat := 16
def maxMacEntries : Nat := 16
def deliveryQueueCapacity : Nat := 1024
def maxIpv4UdpDatagramSize : Nat := 65507
def uint32Max : Nat := 0xFFFFFFFF
def noLookahead : Nat := 0xFFFFFFFFFFFFFFFF

/-- Nanoseconds to send `size` bytes, an exact quotient rounded down. -/
def txTime (size bps : Nat) : Nat := size * 8 * 1000000000 / bps

/-- `bridge` is set where `m_rxCB_enable` is; `ipv4` is the stack of the node. -/
structure CudaNetDevice where
  macAddress : MACAddress
  mtu : Nat
  bps : Nat
  bps_pos : 0 < bps
  channel : Nat
  nodeId : Nat
  bridge : Option Nat
  ipv4 : Nat
  lookahead : Nat

/-- Two devices attached; `initialized` is false while a link is `INITIALIZING`. -/
structure CudaP2PChannel where
  src₀ : Nat
  src₁ : Nat
  delay : Nat
  initialized : Bool
  nodeId : Nat
  dstNodeId : Nat

structure CudaBridgeNetDevice where
  ports : List Nat
  enableLearning : Bool

structure RouteEntry where
  network : UInt32
  netmask : UInt32
  netdevIndex : Nat
  priority : Nat

structure CudaIpv4Interface where
  device : Nat
  isUp : Bool
  arp : List (UInt32 × MACAddress)

/-- `CudaIpv4L3Protocol` with its `CudaUdpL4Protocol`, of which only the socket of the first
endpoint is used on reception. -/
structure CudaIpv4L3Protocol where
  routes : List RouteEntry
  interfaces : List CudaIpv4Interface
  endPointSocket : Option Nat

/-- `bound` says that `m_endPoint` is not null, `udp` names the stack. -/
structure CudaSocket where
  bound : Bool
  udp : Nat
  defaultAddress : UInt32
  defaultPort : UInt16
  shutdownSend : Bool
  shutdownRecv : Bool
  rcvBufSize : Nat
  server : Option Nat

/-- `interval` is `d_interval`, a whole number of nanoseconds. -/
structure CudaUdpClient where
  stop : Bool
  count : Nat
  size : Nat
  interval : Nat
  socket : Nat
  nodeId : Nat
  lookahead : Nat

structure Topology where
  device : Nat → CudaNetDevice
  channel : Nat → CudaP2PChannel
  bridge : Nat → CudaBridgeNetDevice
  stack : Nat → CudaIpv4L3Protocol
  socket : Nat → CudaSocket
  client : Nat → CudaUdpClient

def prefixLength (netmask : UInt32) : Nat :=
  ((List.range 32).takeWhile fun i => (netmask >>> (.ofNat (31 - i))) &&& 1 = 1).length

/-- One round of the loop of `LookupRoute`; the best match is kept with its prefix length. -/
def RouteEntry.better (destIp : UInt32) (best : Option (Nat × RouteEntry)) (r : RouteEntry) :
    Option (Nat × RouteEntry) :=
  if destIp &&& r.netmask = r.network then
    match best with
    | none => some (prefixLength r.netmask, r)
    | some (len, b) =>
      if len < prefixLength r.netmask ∨
          (prefixLength r.netmask = len ∧ b.priority < r.priority) then
        some (prefixLength r.netmask, r)
      else best
  else best

namespace CudaIpv4L3Protocol

def lookupRoute (l3 : CudaIpv4L3Protocol) (destIp : UInt32) : Option Nat :=
  (l3.routes.foldl (RouteEntry.better destIp) none).map fun best => best.2.netdevIndex

def getInterface (l3 : CudaIpv4L3Protocol) (i : Nat) : Option CudaIpv4Interface := l3.interfaces[i]?

def getInterfaceForDevice (l3 : CudaIpv4L3Protocol) (device : Nat) : Option Nat :=
  l3.interfaces.findIdx? fun itf => itf.device = device

end CudaIpv4L3Protocol

def CudaIpv4Interface.lookup (itf : CudaIpv4Interface) (ip : UInt32) : Option MACAddress :=
  (itf.arp.find? fun entry => entry.1 = ip).map Prod.snd

namespace CudaP2PChannel

/-- `m_link[wire].m_src` and `m_link[wire].m_dst` of the wire that `src` sends on. -/
def wireSrc (c : CudaP2PChannel) (src : Nat) : Nat := if src = c.src₀ then c.src₀ else c.src₁

def getDstDev (c : CudaP2PChannel) (src : Nat) : Nat := if src = c.src₀ then c.src₁ else c.src₀

def context (c : CudaP2PChannel) (src : Nat) : Nat := if src = c.src₀ then c.dstNodeId else c.nodeId

end CudaP2PChannel

namespace Topology
variable (topo : Topology)

def channelOf (d : Nat) : CudaP2PChannel := topo.channel (topo.device d).channel

def isPortInBridge (d : Nat) : Bool := (topo.device d).bridge.isSome

def receiveLookahead (src : Nat) : Nat :=
  let c := topo.channelOf src
  let source := topo.device (c.wireSrc src)
  if topo.isPortInBridge (c.getDstDev src) then txTime source.mtu source.bps + c.delay
  else noLookahead

/-- The interface `CudaIpv4L3Protocol::OptimizeSend` sends through, unless it returns before. -/
def outInterface (stack : Nat) (destination : UInt32) : Option CudaIpv4Interface :=
  let l3 := topo.stack stack
  match l3.getInterface ((l3.lookupRoute destination).getD 0) with
  | none => none
  | some itf =>
    if itf.isUp = false then none
    else if l3.getInterfaceForDevice itf.device = none then none
    else some itf

/-- Hosts 0 and 1 joined by one channel at 8 Gbit/s, a byte each nanosecond. The clients are
on host 0 and send 1024 bytes to the address 1. -/
def twoHosts (delay : Nat) : Topology where
  device d :=
    { macAddress := .zero
      mtu := 1500
      bps := 8000000000
      bps_pos := by decide
      channel := 0
      nodeId := d
      bridge := none
      ipv4 := d
      lookahead := delay + 1500 }
  channel _ := ⟨0, 1, delay, true, 0, 1⟩
  bridge _ := ⟨[], true⟩
  stack n := ⟨[⟨0, 0, 0, 0⟩], [⟨n, true, [(1, .zero)]⟩], some 2⟩
  socket _ := ⟨true, 0, 1, 9, false, false, 262144, some 0⟩
  client c := ⟨false, 4096, 1024, 1000000, c, 0, delay + 1024⟩

end Topology

end CudaNs3.Device
