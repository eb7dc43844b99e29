import CudaNs3.Internet.Ipv6Header
import Mathlib.Logic.Function.Basic

/-!
# The neighbour cache and its messages

The entries of one `NdiscCache`, with the timer and the queue of each, and what the handlers of
`Icmpv6L4Protocol` do to them. The entry of an address is kept together with the packets that
were passed to the queueing `Lookup` for it, and with those that went out or were discarded.
`none` is a call that does not return: it removes the first packet of an empty queue, or reads
an option over and over.
-/

namespace CudaNs3.Internet

set_option autoImplicit false

inductive NdiscCacheEntryState where
  | incomplete
  | reachable
  | stale
  | delay
  | probe
  | permanent
  | staticAutogenerated
deriving DecidableEq

inductive NudFunction where
  | reachableTimeout
  | retransmitTimeout
  | delayTimeout
  | probeTimeout
deriving DecidableEq

/-- The timer: its function and delay, and the time it expires at while it is running. -/
structure NudTimer where
  function : Option NudFunction := none
  delay : Nat := 0
  expires : Option Nat := none
deriving DecidableEq

/-- The attributes of the protocol and of the cache. -/
structure NdiscAttributes where
  unresQlen : Nat
  maxMulticastSolicit : Nat
  maxUnicastSolicit : Nat
  reachableTime : Nat
  retransmissionTime : Nat
  delayFirstProbe : Nat

/-- The interface at a given time: its own addresses, their number, and whether
`GetAddressMatchingDestination` finds one. -/
structure NdiscInterface where
  isOwn : Nat → Ipv6Address → Bool
  nAddresses : Nat → Nat
  hasMatching : Nat → Ipv6Address → Bool

structure NdiscEntry (Mac Packet : Type) where
  state : NdiscCacheEntryState
  macAddress : Option Mac := none
  router : Bool := false
  waiting : List Packet := []
  nudTimer : NudTimer := {}
  nsRetransmit : Nat := 0
deriving DecidableEq

namespace NdiscEntry
variable {Mac Packet : Type} (a : NdiscAttributes) (e : NdiscEntry Mac Packet) (now : Nat)

/-- A running timer is cancelled before it is scheduled anew. -/
def startTimer (function : NudFunction) (delay : Nat) : NdiscEntry Mac Packet :=
  { e with nudTimer := ⟨some function, delay, some (now + delay)⟩ }

def startReachableTimer : NdiscEntry Mac Packet :=
  e.startTimer now .reachableTimeout a.reachableTime

def startProbeTimer : NdiscEntry Mac Packet :=
  e.startTimer now .probeTimeout a.retransmissionTime

def startDelayTimer : NdiscEntry Mac Packet := e.startTimer now .delayTimeout a.delayFirstProbe

def startRetransmitTimer : NdiscEntry Mac Packet :=
  e.startTimer now .retransmitTimeout a.retransmissionTime

def updateReachableTimer : NdiscEntry Mac Packet :=
  if e.state = .reachable then
    { e with nudTimer := { e.nudTimer with expires := some (now + e.nudTimer.delay) } }
  else e

def stopNudTimer : NdiscEntry Mac Packet :=
  { e with nudTimer := { e.nudTimer with expires := none }, nsRetransmit := 0 }

def setMacAddress (mac : Mac) : NdiscEntry Mac Packet := { e with macAddress := some mac }

def setRouter (router : Bool) : NdiscEntry Mac Packet := { e with router := router }

def markReachable (mac : Mac) : NdiscEntry Mac Packet :=
  { e with state := .reachable, macAddress := some mac }

def markStale : NdiscEntry Mac Packet := { e with state := .stale }

def markDelay : NdiscEntry Mac Packet := { e with state := .delay }

def markProbe : NdiscEntry Mac Packet := { e with state := .probe }

def clearWaitingPacket : NdiscEntry Mac Packet := { e with waiting := [] }

end NdiscEntry

/-- The entry of an address, if there is one, and what became of the packets passed for it. -/
structure Neighbor (Mac Packet : Type) where
  entry : Option (NdiscEntry Mac Packet) := none
  passed : List Packet := []
  out : List Packet := []
  discarded : List Packet := []
deriving DecidableEq

namespace Neighbor
variable {Mac Packet : Type} (a : NdiscAttributes) (i : NdiscInterface) (now : Nat)
  (n : Neighbor Mac Packet)

def set (e : NdiscEntry Mac Packet) : Neighbor Mac Packet := { n with entry := some e }

/-- The packets that wait are dropped with the entry. -/
def remove : Neighbor Mac Packet :=
  match n.entry with
  | some e => { n with entry := none, discarded := n.discarded ++ e.waiting }
  | none => n

/-- A full queue loses its first packet. -/
def addWaitingPacket (e : NdiscEntry Mac Packet) (p : Packet) : Option (Neighbor Mac Packet) :=
  if a.unresQlen ≤ e.waiting.length then
    match e.waiting with
    | [] => none
    | first :: waiting =>
      some { n with entry := some { e with waiting := waiting ++ [p] },
                    discarded := n.discarded ++ [first] }
  else some (n.set { e with waiting := e.waiting ++ [p] })

/-- `Lookup` with a packet, and whether the address is known; if not, the packet waits. -/
def lookupPacket (dst : Ipv6Address) (p : Packet) : Option (Neighbor Mac Packet × Bool) :=
  match n.entry with
  | some e =>
    match e.state with
    | .reachable | .delay | .permanent | .staticAutogenerated => some (n, true)
    | .stale => some (n.set (e.startDelayTimer a now).markDelay, true)
    | .incomplete | .probe => (n.addWaitingPacket a e p).map fun n => (n, false)
  | none =>
    let entry : NdiscEntry Mac Packet := { state := .incomplete, waiting := [p] }
    if !dst.isLinkLocal && i.nAddresses now = 1 then some ((n.set entry).remove, false)
    else some (n.set (entry.startRetransmitTimer a now), false)

/-- A packet goes out. -/
def send (p : Packet) : Neighbor Mac Packet := { n with out := n.out ++ [p] }

/-- `Lookup` without a packet. -/
def lookup : Neighbor Mac Packet :=
  match n.entry with
  | some e => if e.state = .stale then n.set (e.startDelayTimer a now).markDelay else n
  | none => n

variable [DecidableEq Mac]

/-- An entry of the address with another link-layer address becomes STALE, by the message of a
node that is not a router or by a solicitation. -/
def markStaleBy (mac : Mac) : Neighbor Mac Packet :=
  match n.entry with
  | some e => if e.macAddress ≠ some mac then n.set (e.setMacAddress mac).markStale else n
  | none => n.set { state := .stale, macAddress := some mac }

/-- There is an address to send a solicitation from; the entry of `::` needs none. -/
def hasSource (dst : Ipv6Address) : Bool := dst.isLinkLocal || dst.isAny || i.hasMatching now dst

def functionReachableTimeout (e : NdiscEntry Mac Packet) : Neighbor Mac Packet := n.set e.markStale

def functionDelayTimeout (dst : Ipv6Address) (e : NdiscEntry Mac Packet) : Neighbor Mac Packet :=
  let e := e.markProbe
  if !hasSource i now dst then (n.set e).remove
  else if dst.isAny then n.set e
  else n.set ({ e with nsRetransmit := 1 }.startProbeTimer a now)

def functionProbeTimeout (dst : Ipv6Address) (e : NdiscEntry Mac Packet) : Neighbor Mac Packet :=
  if e.nsRetransmit < a.maxUnicastSolicit then
    let e := { e with nsRetransmit := e.nsRetransmit + 1 }
    if !hasSource i now dst then (n.set e).remove
    else if dst.isAny then n.set e
    else n.set (e.startProbeTimer a now)
  else (n.set e).remove

end Neighbor

/-- The options of a message, in their order; an option that is not known ends the search. -/
inductive NdOption (Mac : Type) where
  | sourceLinkLayer (mac : Mac)
  | targetLinkLayer (mac : Mac)
  | prefixInformation
  | mtu
  | unknown
deriving DecidableEq

/-- The cache, as a map from addresses. -/
abbrev NdiscCache (Mac Packet : Type) := Ipv6Address → Neighbor Mac Packet

namespace NdiscCache
variable {Mac Packet : Type} (a : NdiscAttributes) (i : NdiscInterface)
  (s : NdiscCache Mac Packet) (now : Nat)

def update (dst : Ipv6Address) (n : Neighbor Mac Packet) : NdiscCache Mac Packet :=
  Function.update s dst n

def setEntry (dst : Ipv6Address) (e : NdiscEntry Mac Packet) : NdiscCache Mac Packet :=
  s.update dst ((s dst).set e)

/-- A packet is passed to the queueing `Lookup`, and handed back when the address is known. -/
def pass (dst : Ipv6Address) (p : Packet) : Option (NdiscCache Mac Packet) :=
  let n : Neighbor Mac Packet := { s dst with passed := (s dst).passed ++ [p] }
  (n.lookupPacket a i now dst p).map fun (n, found) => s.update dst (if found then n.send p else n)

/-- `Ipv6Interface::Send` of a packet that waited for `target`: an own or a multicast address is
not looked up. -/
def interfaceSend (target dst : Ipv6Address) (p : Packet) : Option (NdiscCache Mac Packet) :=
  if i.isOwn now dst || dst.isMulticast then some (s.update target ((s target).send p))
  else
    ((s dst).lookupPacket a i now dst p).map fun (n, found) =>
      let s := s.update dst n
      if found then s.update target ((s target).send p) else s

def sendAll (target dst : Ipv6Address) :
    List Packet → NdiscCache Mac Packet → Option (NdiscCache Mac Packet)
  | [], s => some s
  | p :: packets, s =>
    (interfaceSend a i s now target dst p).bind fun s => sendAll target dst packets s

/-- What is done to an entry that is found after the packets have been sent. -/
def clearWaiting (dst : Ipv6Address) : NdiscCache Mac Packet :=
  match (s dst).entry with
  | some e => s.setEntry dst e.clearWaitingPacket
  | none => s

variable [DecidableEq Mac]

def receiveLLA (src : Ipv6Address) (mac : Mac) : Option (NdiscCache Mac Packet) :=
  match (s src).entry with
  | none =>
    let e : NdiscEntry Mac Packet := { state := .reachable, macAddress := some mac, router := true }
    some (s.setEntry src (e.startReachableTimer a now))
  | some e =>
    let reachable := (e.stopNudTimer.markReachable mac).startReachableTimer a now
    let stale := ((e.setMacAddress mac).markStale).setRouter true
    match e.state with
    | .incomplete =>
      ((s.setEntry src reachable).sendAll a i now src src e.waiting).map fun s => s.clearWaiting src
    | .stale | .delay =>
      if e.macAddress ≠ some mac then some (s.setEntry src stale)
      else some (s.setEntry src reachable)
    | .probe =>
      if e.macAddress ≠ some mac then some (s.setEntry src stale)
      else
        -- the timer is started after the packets have been sent, and these stay in the queue
        ((s.setEntry src (e.stopNudTimer.markReachable mac)).sendAll a i now src src e.waiting).map
          fun s =>
            match (s src).entry with
            | some e => s.setEntry src (e.startReachableTimer a now)
            | none => s
    | .reachable =>
      let e := if e.macAddress ≠ some mac then stale else e
      some (s.setEntry src (e.startReachableTimer a now))
    | .permanent | .staticAutogenerated =>
      if e.macAddress ≠ some mac then some (s.setEntry src stale) else some s

/-- The loop over the options of an RA; a second MTU or link-layer address is never passed. -/
def handleRA (src : Ipv6Address) :
    List (NdOption Mac) → Bool → Bool → NdiscCache Mac Packet → Option (NdiscCache Mac Packet)
  | .prefixInformation :: options, hasMtu, hasLla, s => handleRA src options hasMtu hasLla s
  | .mtu :: options, hasMtu, hasLla, s => if hasMtu then none else handleRA src options true hasLla s
  | .sourceLinkLayer mac :: options, hasMtu, hasLla, s =>
    if hasLla then none
    else (receiveLLA a i s now src mac).bind fun s => handleRA src options hasMtu true s
  | _, _, _, s => some s

def handleRS (src : Ipv6Address) (options : List (NdOption Mac)) : NdiscCache Mac Packet :=
  match options with
  | .sourceLinkLayer mac :: _ => if src.isAny then s else s.update src ((s src).markStaleBy mac)
  | _ => s

/-- The loop over the options of an NS, which ends with the packet or at an option it does not
know; `none` is a second source link-layer address, which is never passed. -/
def sourceOption : List (NdOption Mac) → Option Mac → Option (Option Mac)
  | .sourceLinkLayer mac :: options, none => sourceOption options (some mac)
  | .sourceLinkLayer _ :: _, some _ => none
  | _, mac => some mac

/-- `probe` says that the packet is the node's own DAD probe. -/
def handleNS (src target : Ipv6Address) (probe : Bool) (options : List (NdOption Mac)) :
    Option (NdiscCache Mac Packet) :=
  if !i.isOwn now target || probe then some s
  else
    (sourceOption options none).map fun mac =>
      match mac with
      | some mac => if src.isAny then s else s.update src ((s src).markStaleBy mac)
      | none => s

/-- Where the advertisement is taken, its address is set before it is compared with that of the
entry, so that the comparison never makes the entry STALE. -/
def handleNA (src target : Ipv6Address) (flagR flagS flagO : Bool) (options : List (NdOption Mac)) :
    Option (NdiscCache Mac Packet) :=
  match (s target).entry, options with
  | some e, .targetLinkLayer mac :: _ =>
    let e := e.stopNudTimer
    let taken := flagO || e.macAddress = some mac
    match e.state with
    | .incomplete =>
      let e := if flagR then e.setRouter true else e
      if flagS then
        ((s.setEntry target ((e.markReachable mac).startReachableTimer a now)).sendAll a i now
          target src e.waiting).map fun s => s.clearWaiting target
      else some (s.setEntry target (e.setMacAddress mac).markStale)
    | .reachable =>
      if !taken then some (s.setEntry target e.markStale)
      else
        let e := e.setMacAddress mac
        let e := if flagS then e.startReachableTimer a now else e
        some (s.setEntry target (e.setRouter flagR))
    | .stale | .delay =>
      if taken then
        let e := e.setMacAddress mac
        let e := if flagS then (e.markReachable mac).startReachableTimer a now else e
        some (s.setEntry target (e.setRouter flagR))
      else some (s.setEntry target e)
    | .probe =>
      if taken then
        let e := e.setMacAddress mac
        if flagS then
          ((s.setEntry target (e.markReachable mac)).sendAll a i now target src e.waiting).map fun s =>
            match (s target).entry with
            | some e =>
              s.setEntry target ((e.clearWaitingPacket.startReachableTimer a now).setRouter flagR)
            | none => s
        else some (s.setEntry target (e.setRouter flagR))
      else some (s.setEntry target e)
    | .permanent | .staticAutogenerated =>
      if taken then some (s.setEntry target ((e.setMacAddress mac).setRouter flagR))
      else some (s.setEntry target e)
  | _, _ => some s

/-- An existing entry is not made a router. -/
def handleRedirection (target destination : Ipv6Address) (options : List (NdOption Mac)) :
    NdiscCache Mac Packet :=
  match options with
  | .targetLinkLayer mac :: _ =>
    match (s target).entry with
    | none => s.setEntry target
        { state := .stale, macAddress := some mac, router := target ≠ destination }
    | some e =>
      if e.macAddress ≠ some mac then s.setEntry target (e.setMacAddress mac).markStale else s
  | _ => s

/-- The node tells of the first packet that its destination is unreachable; the message may be
passed to `Lookup` itself. -/
def functionRetransmitTimeout (dst : Ipv6Address) (e : NdiscEntry Mac Packet)
    (error : Option (Ipv6Address × Packet)) : Option (NdiscCache Mac Packet) :=
  if !Neighbor.hasSource i now dst then some (s.update dst ((s dst).set e).remove)
  else if e.nsRetransmit < a.maxMulticastSolicit then
    some (s.setEntry dst ({ e with nsRetransmit := e.nsRetransmit + 1 }.startRetransmitTimer a now))
  else if e.waiting = [] then none
  else
    let s := s.setEntry dst e
    let told := match error with
      | some (source, p) => s.pass a i now source p
      | none => some s
    told.map fun s => s.update dst (s dst).remove

/-- The timer of the entry expires. -/
def timeout (dst : Ipv6Address) (error : Option (Ipv6Address × Packet)) :
    Option (NdiscCache Mac Packet) :=
  match (s dst).entry with
  | none => some s
  | some e =>
    let e := { e with nudTimer := { e.nudTimer with expires := none } }
    match e.nudTimer.function with
    | some .reachableTimeout => some (s.update dst ((s dst).functionReachableTimeout e))
    | some .retransmitTimeout => functionRetransmitTimeout a i s now dst e error
    | some .delayTimeout => some (s.update dst ((s dst).functionDelayTimeout a i now dst e))
    | some .probeTimeout => some (s.update dst ((s dst).functionProbeTimeout a i now dst e))
    | none => some s

/-- A packet has come from a neighbour. -/
def confirm (src : Ipv6Address) : NdiscCache Mac Packet :=
  match (s src).entry with
  | some e => s.setEntry src (e.updateReachableTimer now)
  | none => s

inductive Happening (Mac Packet : Type) where
  | lookup (dst : Ipv6Address)
  | pass (dst : Ipv6Address) (p : Packet)
  | solicitation (src target : Ipv6Address) (probe : Bool) (options : List (NdOption Mac))
  | advertisement (src target : Ipv6Address) (flagR flagS flagO : Bool)
      (options : List (NdOption Mac))
  | routerSolicitation (src : Ipv6Address) (options : List (NdOption Mac))
  | routerAdvertisement (src : Ipv6Address) (options : List (NdOption Mac))
  | redirection (target destination : Ipv6Address) (options : List (NdOption Mac))
  | confirm (src : Ipv6Address)
  | timeout (dst : Ipv6Address) (error : Option (Ipv6Address × Packet))

/-- One happening, at its time. -/
def step : NdiscCache Mac Packet → Nat × Happening Mac Packet → Option (NdiscCache Mac Packet)
  | s, (now, .lookup dst) => some (s.update dst ((s dst).lookup a now))
  | s, (now, .pass dst p) => s.pass a i now dst p
  | s, (now, .solicitation src target probe options) => s.handleNS i now src target probe options
  | s, (now, .advertisement src target flagR flagS flagO options) =>
    s.handleNA a i now src target flagR flagS flagO options
  | s, (_, .routerSolicitation src options) => some (s.handleRS src options)
  | s, (now, .routerAdvertisement src options) => handleRA a i now src options false false s
  | s, (_, .redirection target destination options) =>
    some (s.handleRedirection target destination options)
  | s, (now, .confirm src) => some (s.confirm now src)
  | s, (now, .timeout dst error) => s.timeout a i now dst error

/-- A timer expires at its time. -/
def Occurs (s : NdiscCache Mac Packet) : Nat × Happening Mac Packet → Prop
  | (now, .timeout dst _) => ∃ e ∈ (s dst).entry, e.nudTimer.expires = some now
  | _ => True

/-- At the start there may be entries that were put in by hand or generated. -/
def start (permanent generated : Ipv6Address → Option Mac) : NdiscCache Mac Packet := fun dst =>
  { entry :=
      match permanent dst, generated dst with
      | some mac, _ => some { state := .permanent, macAddress := some mac }
      | none, some mac => some { state := .staticAutogenerated, macAddress := some mac }
      | none, none => none }

end NdiscCache
end CudaNs3.Internet
