import Mathlib.Logic.Function.Basic
import CudaNs3.Internet.RipTable

/-!
# A network of RIP routers

Routers with interfaces on links, the requests and responses they send each other, and their
timers. A message that was sent is kept, and may reach every interface it is meant for at any
time, any number of times or never.
-/

namespace CudaNs3.Internet

set_option autoImplicit false

namespace Rip

/-- What the answer to a request is: the whole table in several responses, from the socket of the
interface, or one response for the routes asked for. -/
inductive Answer where
  | nothing
  | fullTable (responses : List (List RipRte))
  | routes (rtes : List RipRte)

/-- What the full table says of a route. -/
def tableRte (s : Rip) (interface : Nat) (e : RipRoutingTableEntry) : Option RipRte :=
  if isGlobalOrDefault interface e && e.status = .ripValid && s.isAnnounced interface e then
    some (s.toRte interface e)
  else none

/-- The RTE of a request with the metric of the first valid route to its address; the results of
`CombineMask` are not used. -/
def answerRte (s : Rip) (rte : RipRte) : RipRte :=
  let route := s.routes.find? fun r =>
    (Ipv4InterfaceAddress.construct r.entry.destNetwork r.entry.destNetworkMask).scope = .global &&
      r.entry.status = .ripValid && rte.network = r.entry.destNetwork
  match route with
  | some r => { rte with metric := r.entry.metric, tag := r.entry.tag }
  | none => { rte with metric := s.linkDown, tag := 0 }

def isFullRequest (s : Rip) (rte : RipRte) : Bool :=
  rte.network = 0 && rte.subnetMask = 0 && rte.metric = s.linkDown

def handleRequests (s : Rip) (rtes : List RipRte) (interface mtu : Nat) : Answer :=
  match rtes with
  | [] => .nothing
  | [rte] =>
    if s.isFullRequest rte && !s.excluded interface then
      .fullTable (fillHeaders (maxRte mtu) (s.routes.map fun r => s.tableRte interface r.entry) [])
    else .nothing
  | rtes => .routes (rtes.map s.answerRte)

/-- The RTE of `SendRouteRequest`. -/
def fullRequest (s : Rip) : RipRte := ⟨0, 0, 0, s.linkDown⟩

end Rip

/-- `RIP_ALL_NODE`, which the receiving socket for multicast is bound to. -/
def ripAllNode : Ipv4Address := 0xe0000009

/-- Routers, their interfaces other than loopback, what these are attached to, and the sockets
that updates are sent from. Interfaces add a cost, and addresses belong to one router. -/
structure Topology (Router Link : Type) where
  attributes : Router → RipAttributes
  interfaces : Router → List Nat
  link : Router → Nat → Link
  addresses : Router → Nat → List Ipv4InterfaceAddress
  sockets : Router → List Rip.SendingSocket
  metric_pos : ∀ r i m, (attributes r).interfaceMetrics i = some m → 1 ≤ m
  sockets_own : ∀ r, ∀ k ∈ sockets r, k.interface ∈ interfaces r ∧
    ∃ a ∈ addresses r k.interface, a.localAddress = k.localAddress
  address_unique : ∀ r r', ∀ i ∈ interfaces r, ∀ i' ∈ interfaces r', ∀ a ∈ addresses r i,
    ∀ a' ∈ addresses r' i', a.localAddress = a'.localAddress → r = r'

structure RipMessage (Router : Type) where
  router : Router
  interface : Nat
  sender : Ipv4Address
  destination : Option Ipv4Address
  isRequest : Bool
  rtes : List RipRte
deriving DecidableEq

structure RipNetwork (Router : Type) where
  router : Router → Rip
  messages : List (RipMessage Router) := []

inductive RipHappening (Router : Type) where
  | triggeredUpdate (r : Router)
  | unsolicitedUpdate (r : Router)
  | sendRouteRequest (r : Router)
  | receive (m : RipMessage Router) (r : Router) (interface : Nat) (now : Nat)
  | fire (r : Router) (e : RouteEvent) (now : Nat)

namespace RipNetwork
variable {Router Link : Type} [DecidableEq Router] (t : Topology Router Link)

/-- The address is one of the router's own. -/
def hasAddress (t : Topology Router Link) (r : Router) (a : Ipv4Address) : Bool :=
  (t.interfaces r).any fun i => (t.addresses r i).any (·.localAddress = a)

/-- The responses of an update as messages to all RIP routers. -/
def updateMessages (r : Router) (sent : List (Rip.SendingSocket × List RipRte)) :
    List (RipMessage Router) :=
  sent.map fun (socket, rtes) => ⟨r, socket.interface, socket.localAddress, none, false, rtes⟩

/-- The last socket of the interface answers a request for the whole table, and `none` says that
there is none; the routes asked for are answered by the receiving socket. -/
def answerMessages (r : Router) (m : RipMessage Router) (interface : Nat) :
    Rip.Answer → Option (List (RipMessage Router))
  | .nothing => some []
  | .fullTable responses =>
    ((t.sockets r).reverse.find? (·.interface = interface)).map fun socket =>
      responses.map fun rtes => ⟨r, interface, socket.localAddress, some m.sender, false, rtes⟩
  | .routes rtes => some [⟨r, interface, ripAllNode, some m.sender, false, rtes⟩]

def mtuOf (r : Router) (interface : Nat) : Nat :=
  (((t.sockets r).find? (·.interface = interface)).map Rip.SendingSocket.mtu).getD 0

/-- `Receive`: a router ignores what it sent itself. -/
def receive (s : RipNetwork Router) (m : RipMessage Router) (r : Router) (interface now : Nat) :
    Option (RipNetwork Router) :=
  if hasAddress t r m.sender then some s
  else if m.isRequest then
    let answer := (s.router r).handleRequests m.rtes interface (mtuOf t r interface)
    (answerMessages t r m interface answer).map fun answers =>
      { s with messages := s.messages ++ answers }
  else
    ((s.router r).handleResponses now m.rtes m.sender interface).map fun table =>
      { s with router := Function.update s.router r table }

def sendRouteRequest (s : RipNetwork Router) (r : Router) : List (RipMessage Router) :=
  ((t.sockets r).filter fun k => !(s.router r).excluded k.interface).map fun k =>
    ⟨r, k.interface, k.localAddress, none, true, [(s.router r).fullRequest]⟩

def step (s : RipNetwork Router) : RipHappening Router → Option (RipNetwork Router)
  | .triggeredUpdate r =>
    let (table, sent) := (s.router r).triggeredUpdate (t.sockets r)
    some ⟨Function.update s.router r table, s.messages ++ updateMessages r sent⟩
  | .unsolicitedUpdate r =>
    let (table, sent) := (s.router r).sendUnsolicitedRouteUpdate (t.sockets r)
    some ⟨Function.update s.router r table, s.messages ++ updateMessages r sent⟩
  | .sendRouteRequest r => some { s with messages := s.messages ++ sendRouteRequest t s r }
  | .receive m r interface now => s.receive t m r interface now
  | .fire r e now =>
    ((s.router r).fire now e).map fun table => { s with router := Function.update s.router r table }

/-- A message reaches the interfaces of its link, or those with the address it is sent to; a
timer fires while it is pending. -/
def Occurs (s : RipNetwork Router) : RipHappening Router → Prop
  | .receive m r interface _ => m ∈ s.messages ∧ interface ∈ t.interfaces r ∧
      t.link r interface = t.link m.router m.interface ∧
      m.destination.all fun a => (t.addresses r interface).any (·.localAddress = a)
  | .fire r e _ => e ∈ (s.router r).events
  | _ => True

instance [DecidableEq Link] (s : RipNetwork Router) :
    (i : RipHappening Router) → Decidable (Occurs t s i)
  | .receive m r interface _ => inferInstanceAs (Decidable (m ∈ s.messages ∧
      interface ∈ t.interfaces r ∧ t.link r interface = t.link m.router m.interface ∧
      m.destination.all fun a => (t.addresses r interface).any (·.localAddress = a)))
  | .fire r e _ => inferInstanceAs (Decidable (e ∈ (s.router r).events))
  | .triggeredUpdate _ | .unsolicitedUpdate _ | .sendRouteRequest _ => .isTrue trivial

/-- Every interface has come up with its addresses, and nothing has been sent. -/
def start : RipNetwork Router where
  router r := (t.interfaces r).foldl
    (fun s i => s.notifyInterfaceUp i false false (t.addresses r i))
    { attributes := t.attributes r }

end RipNetwork
end CudaNs3.Internet
