import Mathlib.Data.BitVec
import Mathlib.Data.List.Basic

/-!
# The RIP routing table

The table of `Rip`, a list of pairs of a route and the event that is to invalidate or to delete
it. Routes are objects at addresses of their own, and the events of the simulator refer to
them by address. The metric of a route is 8 bits wide; a metric of `linkDown` means that the
network cannot be reached.
-/

namespace CudaNs3.Internet

set_option autoImplicit false

abbrev Ipv4Address := BitVec 32

abbrev Ipv4Mask := BitVec 32

namespace Ipv4Address

def isLocalhost (a : Ipv4Address) : Bool := a = 0x7f000001

def isBroadcast (a : Ipv4Address) : Bool := a = 0xffffffff

def isMulticast (a : Ipv4Address) : Bool := 0xe0000000 ≤ a ∧ a ≤ (0xefffffff : BitVec 32)

def combineMask (a : Ipv4Address) (mask : Ipv4Mask) : Ipv4Address := a &&& mask

end Ipv4Address

inductive InterfaceAddressScope where
  | host
  | link
  | global
deriving DecidableEq

structure Ipv4InterfaceAddress where
  localAddress : Ipv4Address
  mask : Ipv4Mask
  scope : InterfaceAddressScope
deriving DecidableEq

namespace Ipv4InterfaceAddress

/-- The constructor: only the loopback address has host scope. -/
def construct (a : Ipv4Address) (mask : Ipv4Mask) : Ipv4InterfaceAddress :=
  ⟨a, mask, if a = 0x7f000001 then .host else .global⟩

def networkAddress (a : Ipv4InterfaceAddress) : Ipv4Address := a.localAddress.combineMask a.mask

end Ipv4InterfaceAddress

structure RipRte where
  network : Ipv4Address
  subnetMask : Ipv4Mask
  tag : BitVec 16
  metric : Nat
deriving DecidableEq

inductive RouteStatus where
  | ripValid
  | ripInvalid
deriving DecidableEq

structure RipRoutingTableEntry where
  destNetwork : Ipv4Address
  destNetworkMask : Ipv4Mask
  gateway : Ipv4Address
  interface : Nat
  tag : BitVec 16 := 0
  metric : Nat := 0
  status : RouteStatus := .ripInvalid
  changed : Bool := false
deriving DecidableEq

namespace RipRoutingTableEntry

def setRouteTag (e : RipRoutingTableEntry) (tag : BitVec 16) : RipRoutingTableEntry :=
  if e.tag ≠ tag then { e with tag := tag, changed := true } else e

def setRouteMetric (e : RipRoutingTableEntry) (metric : Nat) : RipRoutingTableEntry :=
  if e.metric ≠ metric % 256 then { e with metric := metric % 256, changed := true } else e

def setRouteStatus (e : RipRoutingTableEntry) (status : RouteStatus) : RipRoutingTableEntry :=
  if e.status ≠ status then { e with status := status, changed := true } else e

def setRouteChanged (e : RipRoutingTableEntry) (changed : Bool) : RipRoutingTableEntry :=
  { e with changed := changed }

/-- The setters put the value in and mark the route when it is another one. -/
theorem setRouteMetric_eq (e : RipRoutingTableEntry) (metric : Nat) :
    e.setRouteMetric metric =
      { e with metric := metric % 256, changed := e.changed || e.metric ≠ metric % 256 } := by
  unfold setRouteMetric
  by_cases h : e.metric = metric % 256
  · simp [← h]
  · simp [h]

theorem setRouteStatus_eq (e : RipRoutingTableEntry) (status : RouteStatus) :
    e.setRouteStatus status =
      { e with status := status, changed := e.changed || e.status ≠ status } := by
  unfold setRouteStatus
  by_cases h : e.status = status
  · simp [← h]
  · simp [h]

theorem setRouteTag_eq (e : RipRoutingTableEntry) (tag : BitVec 16) :
    e.setRouteTag tag = { e with tag := tag, changed := e.changed || e.tag ≠ tag } := by
  unfold setRouteTag
  by_cases h : e.tag = tag
  · simp [← h]
  · simp [h]

/-- The route leads to the given network. -/
def leadsTo (e : RipRoutingTableEntry) (network : Ipv4Address) (mask : Ipv4Mask) : Bool :=
  e.destNetwork = network && e.destNetworkMask = mask

end RipRoutingTableEntry

/-- What a pending event of the table calls, with the route as its argument. -/
inductive RouteCall where
  | invalidateRoute
  | deleteRoute
deriving DecidableEq

structure RouteEvent where
  uid : Nat
  ts : Nat
  call : RouteCall
  target : Nat
deriving DecidableEq

/-- A pair of the table: the route, at its address, and its `EventId`. -/
structure Route where
  ptr : Nat
  entry : RipRoutingTableEntry
  event : Option Nat := none
deriving DecidableEq

inductive SplitHorizonType where
  | noSplitHorizon
  | splitHorizon
  | poisonReverse
deriving DecidableEq

/-- The configuration; `linkDown` is a metric that a route can hold, and more than that of a local
network. -/
structure RipAttributes where
  linkDown : Nat
  timeoutDelay : Nat
  garbageCollectionDelay : Nat
  splitHorizonStrategy : SplitHorizonType
  interfaceExclusions : Nat → Bool
  interfaceMetrics : Nat → Option Nat
  one_lt_linkDown : 1 < linkDown
  linkDown_lt : linkDown < 256

/-- The defaults. -/
def RipAttributes.usual : RipAttributes where
  linkDown := 16
  timeoutDelay := 180
  garbageCollectionDelay := 120
  splitHorizonStrategy := .poisonReverse
  interfaceExclusions := fun _ => false
  interfaceMetrics := fun _ => none
  one_lt_linkDown := by decide
  linkDown_lt := by decide

/-- The state; addresses and event numbers below the last two fields have been given out. -/
structure Rip where
  attributes : RipAttributes
  routes : List Route := []
  events : List RouteEvent := []
  nextTriggeredUpdate : Bool := false
  nextPtr : Nat := 0
  nextUid : Nat := 0

namespace Rip

def linkDown (s : Rip) : Nat := s.attributes.linkDown

def excluded (s : Rip) (interface : Nat) : Bool := s.attributes.interfaceExclusions interface

def interfaceMetric (s : Rip) (interface : Nat) : Nat :=
  (s.attributes.interfaceMetrics interface).getD 1

def findRoute (s : Rip) (ptr : Nat) : Option Route := s.routes.find? (·.ptr = ptr)

/-- The event an `EventId` stands for, as long as it has not expired. -/
def pendingEvent (s : Rip) (event : Option Nat) : Option RouteEvent :=
  s.events.find? (fun e => event = some e.uid)

def cancel (s : Rip) (event : Option Nat) : Rip :=
  { s with events := s.events.filter fun e => event ≠ some e.uid }

def getDelayLeft (s : Rip) (now : Nat) (event : Option Nat) : Nat :=
  match s.pendingEvent event with
  | some e => e.ts - now
  | none => 0

/-- A pending triggered update is not scheduled again. -/
def sendTriggeredRouteUpdate (s : Rip) : Rip := { s with nextTriggeredUpdate := true }

def addNetworkRouteTo (s : Rip) (network : Ipv4Address) (mask : Ipv4Mask) (interface : Nat) : Rip :=
  let route : RipRoutingTableEntry :=
    { destNetwork := network, destNetworkMask := mask, gateway := 0, interface := interface }
  let route := ((route.setRouteMetric 1).setRouteStatus .ripValid).setRouteChanged true
  { s with routes := s.routes ++ [{ ptr := s.nextPtr, entry := route }], nextPtr := s.nextPtr + 1 }

/-- Put a route into the place of another, with a new event instead of its old one. -/
def reissue (s : Rip) (r : Route) (ptr : Nat) (entry : RipRoutingTableEntry) (ts : Nat)
    (call : RouteCall) : Rip :=
  { s.cancel r.event with
    routes := s.routes.map fun x => if x.ptr = r.ptr then ⟨ptr, entry, some s.nextUid⟩ else x
    events := (s.cancel r.event).events ++ [⟨s.nextUid, ts, call, ptr⟩]
    nextUid := s.nextUid + 1 }

/-- `none` is the abort when the route is not found. -/
def invalidateRoute (s : Rip) (now ptr : Nat) : Option Rip :=
  (s.findRoute ptr).map fun r =>
    let entry := ((r.entry.setRouteStatus .ripInvalid).setRouteMetric s.linkDown).setRouteChanged true
    s.reissue r ptr entry (now + s.attributes.garbageCollectionDelay) .deleteRoute

def deleteRoute (s : Rip) (ptr : Nat) : Option Rip :=
  (s.findRoute ptr).map fun _ => { s with routes := s.routes.eraseP (·.ptr = ptr) }

/-- Invalidate routes one after the other. -/
def invalidateRoutes (s : Rip) (now : Nat) : List Nat → Option Rip
  | [] => some s
  | ptr :: ptrs => (s.invalidateRoute now ptr).bind fun s => s.invalidateRoutes now ptrs

/-! ## Interfaces and addresses -/

def addNetworkRoutes (s : Rip) (interface : Nat) : List Ipv4InterfaceAddress → Rip
  | [] => s
  | a :: addresses =>
    if a.scope = .global then
      (s.addNetworkRouteTo a.networkAddress a.mask interface).addNetworkRoutes interface addresses
    else s.addNetworkRoutes interface addresses

/-- The addresses are those of the interface; sockets are not part of the table. -/
def notifyInterfaceUp (s : Rip) (interface : Nat) (loopback initialized : Bool)
    (addresses : List Ipv4InterfaceAddress) : Rip :=
  if loopback then s
  else
    let s := s.addNetworkRoutes interface addresses
    if initialized && addresses.any (·.scope = .global) then s.sendTriggeredRouteUpdate else s

def notifyInterfaceDown (s : Rip) (now interface : Nat) : Option Rip :=
  let ptrs := (s.routes.filter (·.entry.interface = interface)).map (·.ptr)
  (s.invalidateRoutes now ptrs).map fun s =>
    if s.excluded interface then s else s.sendTriggeredRouteUpdate

def notifyAddAddress (s : Rip) (interface : Nat) (isUp : Bool) (a : Ipv4InterfaceAddress) : Rip :=
  if !isUp || s.excluded interface then s
  else
    let s := if a.scope = .global then s.addNetworkRouteTo a.networkAddress a.mask interface else s
    s.sendTriggeredRouteUpdate

def notifyRemoveAddress (s : Rip) (now interface : Nat) (isUp : Bool) (a : Ipv4InterfaceAddress) :
    Option Rip :=
  if !isUp || a.scope ≠ .global then some s
  else
    let ptrs := (s.routes.filter fun r => r.entry.interface = interface &&
      r.entry.leadsTo a.networkAddress a.mask).map (·.ptr)
    (s.invalidateRoutes now ptrs).map fun s =>
      if s.excluded interface then s else s.sendTriggeredRouteUpdate

/-! ## Responses -/

/-- What an RTE does to a route to the same network. -/
inductive Revision where
  | keep
  | renew (replace : Bool) (entry : RipRoutingTableEntry) (changed : Bool)
  | invalidate

def newRoute (rte : RipRte) (sender : Ipv4Address) (interface : Nat) : RipRoutingTableEntry where
  destNetwork := rte.network.combineMask rte.subnetMask
  destNetworkMask := rte.subnetMask
  gateway := sender
  interface := interface

def updated (e : RipRoutingTableEntry) (metric : Nat) (tag : BitVec 16) : RipRoutingTableEntry :=
  (((e.setRouteMetric metric).setRouteStatus .ripValid).setRouteTag tag).setRouteChanged true

def revise (a : RipAttributes) (rte : RipRte) (metric : Nat) (sender : Ipv4Address)
    (interface delayLeft : Nat) (e : RipRoutingTableEntry) : Revision :=
  if metric < e.metric then
    if sender ≠ e.gateway then .renew true (updated (newRoute rte sender interface) metric rte.tag) true
    else .renew false (updated e metric rte.tag) true
  else if metric = e.metric then
    if sender = e.gateway then .renew false e false
    else if delayLeft < a.timeoutDelay / 2 then
      .renew true (updated (newRoute rte sender interface) metric rte.tag) true
    else .keep
  else if sender = e.gateway then
    if metric < a.linkDown then .renew false (updated e metric rte.tag) true else .invalidate
  else .keep

/-- The state after the revision, and whether it is to be announced. -/
def applyRevision (s : Rip) (now : Nat) (r : Route) : Revision → Option (Rip × Bool)
  | .keep => some (s, false)
  | .renew false entry changed =>
    some (s.reissue r r.ptr entry (now + s.attributes.timeoutDelay) .invalidateRoute, changed)
  | .renew true entry changed =>
    let t := s.reissue r s.nextPtr entry (now + s.attributes.timeoutDelay) .invalidateRoute
    some ({ t with nextPtr := s.nextPtr + 1 }, changed)
  | .invalidate => ((s.cancel r.event).invalidateRoute now r.ptr).map fun s => (s, true)

/-- The metric of an RTE plus that of the interface it came in by, at most infinity. -/
def rteMetric (s : Rip) (rte : RipRte) (interface : Nat) : Nat :=
  min (rte.metric + s.interfaceMetric interface) s.linkDown

/-- The loop over the routes: the state, whether a route was found, whether one changed. -/
def scanRoutes (now : Nat) (rte : RipRte) (metric : Nat) (sender : Ipv4Address) (interface : Nat) :
    List Nat → Rip × Bool × Bool → Option (Rip × Bool × Bool)
  | [], acc => some acc
  | ptr :: ptrs, (s, found, changed) =>
    match s.findRoute ptr with
    | none => scanRoutes now rte metric sender interface ptrs (s, found, changed)
    | some r =>
      if r.entry.leadsTo (rte.network.combineMask rte.subnetMask) rte.subnetMask then
        let left := s.getDelayLeft now r.event
        (s.applyRevision now r (revise s.attributes rte metric sender interface left r.entry)).bind
          fun t => scanRoutes now rte metric sender interface ptrs (t.1, true, changed || t.2)
      else scanRoutes now rte metric sender interface ptrs (s, found, changed)

/-- A route to a network not in the table, at its front. -/
def addRoute (s : Rip) (now : Nat) (rte : RipRte) (metric : Nat) (sender : Ipv4Address)
    (interface : Nat) : Rip :=
  let route := (((newRoute rte sender interface).setRouteMetric metric).setRouteStatus
    .ripValid).setRouteChanged true
  { s with
    routes := ⟨s.nextPtr, route, some s.nextUid⟩ :: s.routes
    events := s.events ++
      [⟨s.nextUid, now + s.attributes.timeoutDelay, .invalidateRoute, s.nextPtr⟩]
    nextPtr := s.nextPtr + 1
    nextUid := s.nextUid + 1 }

def processRte (s : Rip) (now : Nat) (sender : Ipv4Address) (interface : Nat) (rte : RipRte) :
    Option (Rip × Bool) :=
  let metric := s.rteMetric rte interface
  (scanRoutes now rte metric sender interface (s.routes.map (·.ptr)) (s, false, false)).map
    fun (s, found, changed) =>
      if !found && metric ≠ s.linkDown then (s.addRoute now rte metric sender interface, true)
      else (s, changed)

def processRtes (now : Nat) (sender : Ipv4Address) (interface : Nat) :
    List RipRte → Rip × Bool → Option (Rip × Bool)
  | [], acc => some acc
  | rte :: rtes, (s, changed) =>
    (s.processRte now sender interface rte).bind fun t =>
      processRtes now sender interface rtes (t.1, changed || t.2)

/-- The check of a whole response before any of it is processed. -/
def wellFormed (s : Rip) (rtes : List RipRte) : Bool :=
  rtes.all fun rte => rte.metric ≠ 0 && rte.metric ≤ s.linkDown && !rte.network.isLocalhost &&
    !rte.network.isBroadcast && !rte.network.isMulticast

def handleResponses (s : Rip) (now : Nat) (rtes : List RipRte) (sender : Ipv4Address)
    (interface : Nat) : Option Rip :=
  if s.excluded interface then some s
  else if s.wellFormed rtes then
    (processRtes now sender interface rtes (s, false)).map fun (s, changed) =>
      if changed then s.sendTriggeredRouteUpdate else s
  else some s

/-! ## Updates -/

/-- A sending socket: its interface with MTU and addresses, and the address it is bound to. -/
structure SendingSocket where
  interface : Nat
  localAddress : Ipv4Address
  mtu : Nat
  addresses : List Ipv4InterfaceAddress

/-- The number of RTEs that fit; the difference is one of unsigned numbers. -/
def maxRte (mtu : Nat) : Nat := (mtu + 2 ^ 32 - (20 + 8 + 4)) % 2 ^ 32 / 20 % 2 ^ 16

/-- The RTE of a route, poisoned when it is sent to where the route leads. -/
def toRte (s : Rip) (interface : Nat) (e : RipRoutingTableEntry) : RipRte where
  network := e.destNetwork
  subnetMask := e.destNetworkMask
  tag := e.tag
  metric :=
    if s.attributes.splitHorizonStrategy = .poisonReverse && e.interface = interface then s.linkDown
    else e.metric

def isAnnounced (s : Rip) (interface : Nat) (e : RipRoutingTableEntry) : Bool :=
  s.attributes.splitHorizonStrategy ≠ .splitHorizon || e.interface ≠ interface

def isGlobalOrDefault (interface : Nat) (e : RipRoutingTableEntry) : Bool :=
  (Ipv4InterfaceAddress.construct e.destNetwork e.destNetworkMask).scope = .global ||
    (e.destNetwork = 0 && e.destNetworkMask = 0 && e.interface ≠ interface)

/-- The RTEs in the headers they are sent in: one is full when it has `limit` of them. -/
def fillHeaders (limit : Nat) : List (Option RipRte) → List RipRte → List (List RipRte)
  | [], header => if header.length % 2 ^ 16 > 0 then [header] else []
  | rte :: rtes, header =>
    let header := header ++ rte.toList
    if header.length % 2 ^ 16 = limit then header :: fillHeaders limit rtes []
    else fillHeaders limit rtes header

/-- What a route update says of a route at a socket. -/
def updateRte (s : Rip) (periodic : Bool) (socket : SendingSocket) (e : RipRoutingTableEntry) :
    Option RipRte :=
  let sameNetwork := socket.addresses.any fun a => a.networkAddress = e.destNetwork
  if isGlobalOrDefault socket.interface e && (periodic || e.changed) && !sameNetwork &&
      s.isAnnounced socket.interface e then some (s.toRte socket.interface e)
  else none

def updatesAt (s : Rip) (periodic : Bool) (socket : SendingSocket) : List (List RipRte) :=
  if s.excluded socket.interface then []
  else fillHeaders (maxRte socket.mtu) (s.routes.map fun r => s.updateRte periodic socket r.entry) []

/-- The responses sent, each with the socket it is sent from, and the routes marked as sent. -/
def doSendRouteUpdate (s : Rip) (periodic : Bool) (sockets : List SendingSocket) :
    Rip × List (SendingSocket × List RipRte) :=
  ({ s with routes := s.routes.map fun r => { r with entry := r.entry.setRouteChanged false } },
    sockets.flatMap fun socket => (s.updatesAt periodic socket).map fun rtes => (socket, rtes))

/-- The update that a change triggered, once its delay is over. -/
def triggeredUpdate (s : Rip) (sockets : List SendingSocket) :
    Rip × List (SendingSocket × List RipRte) :=
  { s with nextTriggeredUpdate := false }.doSendRouteUpdate false sockets

/-- A periodic update, which makes a pending triggered one unnecessary. -/
def sendUnsolicitedRouteUpdate (s : Rip) (sockets : List SendingSocket) :
    Rip × List (SendingSocket × List RipRte) :=
  { s with nextTriggeredUpdate := false }.doSendRouteUpdate true sockets

/-! ## Timers -/

/-- The simulator calls a pending event of the table. -/
def fire (s : Rip) (now : Nat) (e : RouteEvent) : Option Rip :=
  let s := s.cancel (some e.uid)
  match e.call with
  | .invalidateRoute => s.invalidateRoute now e.target
  | .deleteRoute => s.deleteRoute e.target

end Rip
end CudaNs3.Internet
