import CudaNs3.Internet.RipTable
import CudaNs3.Lib.Bindings

/-!
# ARP

`ArpL3Protocol` and its one `ArpCache`. A packet stands for itself and its IPv4 header. An entry
also keeps what became of the packets that were passed to `Lookup` for its address, and how many
requests were sent for it since its state last changed. `none` is a call that does not return:
a fatal error, a failed assertion, or a loop that goes on.
-/

namespace CudaNs3.Internet

set_option autoImplicit false

/-- The attributes of the cache. -/
structure ArpAttributes where
  aliveTimeout : Nat
  deadTimeout : Nat
  waitReplyTimeout : Nat
  maxRetries : Nat
  pendingQueueSize : Nat

inductive ArpEntryState where
  | alive
  | waitReply
  | dead
  | permanent
  | staticAutogenerated
deriving DecidableEq

structure ArpEntry (Mac Packet : Type) where
  ipv4Address : Ipv4Address
  state : ArpEntryState := .alive
  lastSeen : Nat := 0
  macAddress : Option Mac := none
  pending : List Packet := []
  retries : Nat := 0
  passed : List Packet := []
  resolved : List Packet := []
  sent : List Packet := []
  dropped : List Packet := []
  requested : Nat := 0
deriving DecidableEq

namespace ArpEntry
variable {Mac Packet : Type} (a : ArpAttributes) (now : Nat) (e : ArpEntry Mac Packet)

def isDead : Bool := e.state = .dead

def isAlive : Bool := e.state = .alive

def isWaitReply : Bool := e.state = .waitReply

def isPermanent : Bool := e.state = .permanent

def isAutoGenerated : Bool := e.state = .staticAutogenerated

def clearRetries : ArpEntry Mac Packet := { e with retries := 0 }

def updateSeen : ArpEntry Mac Packet := { e with lastSeen := now }

def markDead : Option (ArpEntry Mac Packet) :=
  if e.state = .alive ∨ e.state = .waitReply ∨ e.state = .dead then
    some ({ e with state := .dead, requested := 0 }.clearRetries.updateSeen now)
  else none

def markAlive (macAddress : Mac) : Option (ArpEntry Mac Packet) :=
  if e.state = .waitReply then
    some ({ e with macAddress := some macAddress, state := .alive, requested := 0
      }.clearRetries.updateSeen now)
  else none

/-- Whether there is room for one more packet. -/
def updateWaitReply (waiting : Packet) : Option (ArpEntry Mac Packet × Bool) :=
  if e.state = .waitReply then
    if a.pendingQueueSize ≤ e.pending.length then some (e, false)
    else some ({ e with pending := e.pending ++ [waiting] }, true)
  else none

/-- The timer of the cache is started in addition. -/
def markWaitReply (waiting : Packet) : Option (ArpEntry Mac Packet) :=
  if (e.state = .alive ∨ e.state = .dead) ∧ e.pending.isEmpty then
    some ({ e with state := .waitReply, pending := e.pending ++ [waiting], requested := 0
      }.updateSeen now)
  else none

/-- `none` is the largest time there is. -/
def getTimeout : Option Nat :=
  match e.state with
  | .waitReply => some a.waitReplyTimeout
  | .dead => some a.deadTimeout
  | .alive => some a.aliveTimeout
  | .permanent => none
  | .staticAutogenerated => none

def isExpired : Bool :=
  match e.getTimeout a with
  | some timeout => timeout < now - e.lastSeen
  | none => false

def dequeuePending : Option Packet × ArpEntry Mac Packet :=
  match e.pending with
  | [] => (none, e)
  | p :: pending => (some p, { e with pending := pending })

def incrementRetries : ArpEntry Mac Packet := { e with retries := e.retries + 1 }.updateSeen now

/-- A packet goes to the drop trace. -/
def drop (p : Packet) : ArpEntry Mac Packet := { e with dropped := e.dropped ++ [p] }

/-- The loop of `HandleWaitReplyTimeout` over the queue. -/
def dropPending : ArpEntry Mac Packet := { e with pending := [], dropped := e.dropped ++ e.pending }

/-- A packet was passed to `Lookup`, and perhaps reported resolved. -/
def note (p : Packet) (found : Bool) : ArpEntry Mac Packet :=
  { e with
    passed := e.passed ++ [p]
    resolved := if found then e.resolved ++ [p] else e.resolved }

/-- What `HandleWaitReplyTimeout` does to one entry, and whether the timer is to run again. -/
def waitReplyTimeout : Option (ArpEntry Mac Packet × Bool) :=
  if e.isWaitReply then
    if e.retries < a.maxRetries then
      some ({ e with requested := e.requested + 1 }.incrementRetries now, true)
    else do
      let e ← e.markDead now
      some (e.clearRetries.dropPending, false)
  else some (e, false)

/-- The loop of `HandleWaitReplyTimeout` over the cache. -/
def waitReplyLoop : List (ArpEntry Mac Packet) → Option (List (ArpEntry Mac Packet) × Bool)
  | [] => some ([], false)
  | e :: rest => do
    let (e, restart) ← e.waitReplyTimeout a now
    let (rest, restartRest) ← waitReplyLoop rest
    some (e :: rest, restart || restartRest)

end ArpEntry

structure ArpHeader (Mac : Type) where
  type : BitVec 16
  macSource : Mac
  ipv4Source : Ipv4Address
  macDest : Mac
  ipv4Dest : Ipv4Address
deriving DecidableEq

namespace ArpHeader
variable {Mac : Type} (h : ArpHeader Mac)

def isRequest : Bool := h.type = 1

def isReply : Bool := h.type = 2

end ArpHeader

/-- The interface of the cache, which is up and has a device that needs ARP; its local addresses
come with their masks. -/
structure ArpInterface (Mac : Type) where
  addresses : List (Ipv4Address × Ipv4Mask)
  hardwareAddress : Mac

def Ipv4Address.isSubnetDirectedBroadcast (a : Ipv4Address) (mask : Ipv4Mask) : Bool :=
  if mask = 0xffffffff then false else a ||| ~~~mask = a

/-- `Ipv4Interface::Send` has no need to look this destination up. -/
def ArpInterface.sendsDirectly {Mac : Type} (i : ArpInterface Mac) (dest : Ipv4Address) : Bool :=
  i.addresses.any (fun addr => dest = addr.1) || dest.isBroadcast || dest.isMulticast ||
    i.addresses.any fun addr => dest.isSubnetDirectedBroadcast addr.2

/-- The protocol with its cache. The time of the wait-reply event is in `waitReplyTimer` while it
is pending, and `scheduled` has the requests that are to be sent after their jitter. -/
structure ArpL3Protocol (Mac Packet : Type) where
  now : Nat := 0
  arpCache : List (ArpEntry Mac Packet) := []
  waitReplyTimer : Option Nat := none
  scheduled : List (Nat × Ipv4Address) := []
  replies : List (ArpHeader Mac) := []
  dropTrace : List (ArpHeader Mac) := []

inductive ArpStep (Mac Packet : Type) where
  | lookup (packet : Packet) (destination : Ipv4Address) (jitter : Nat)
  | receive (i : ArpInterface Mac) (arp : Option (ArpHeader Mac)) (jitter : Nat)
  | sendArpRequest (dest : Ipv4Address)
  | waitReplyTimeout
  | advance (time : Nat)

namespace ArpL3Protocol
section
variable {Mac Packet : Type} (a : ArpAttributes) (i : ArpInterface Mac)
  (s : ArpL3Protocol Mac Packet)

/-- `ArpCache::Lookup` -/
def find (dest : Ipv4Address) : Option (ArpEntry Mac Packet) :=
  Bindings.get ArpEntry.ipv4Address s.arpCache dest

def put (e : ArpEntry Mac Packet) : ArpL3Protocol Mac Packet :=
  { s with arpCache := Bindings.put ArpEntry.ipv4Address s.arpCache e }

def startWaitReplyTimer : ArpL3Protocol Mac Packet :=
  match s.waitReplyTimer with
  | some _ => s
  | none => { s with waitReplyTimer := some (s.now + a.waitReplyTimeout) }

def markWaitReply (e : ArpEntry Mac Packet) (waiting : Packet) :
    Option (ArpL3Protocol Mac Packet) :=
  (e.markWaitReply s.now waiting).map fun e => (s.put e).startWaitReplyTimer a

/-- `SendArpRequest` is scheduled for the time after the jitter. -/
def schedule (jitter : Nat) (dest : Ipv4Address) : ArpL3Protocol Mac Packet :=
  { s with scheduled := s.scheduled ++ [(s.now + jitter, dest)] }

/-- The result, and the hardware destination. -/
def lookup (packet : Packet) (destination : Ipv4Address) (jitter : Nat) :
    Option (ArpL3Protocol Mac Packet × Bool × Option Mac) :=
  match s.find destination with
  | some entry =>
    if entry.isExpired a s.now then
      if entry.isDead then do
        let s ← s.markWaitReply a entry packet
        some (s.schedule jitter destination, false, none)
      else if entry.isAlive then do
        let s ← s.markWaitReply a entry packet
        some (s.schedule jitter destination, false, none)
      else none
    else if entry.isDead then some (s.put (entry.drop packet), false, none)
    else if entry.isAlive then some (s, true, entry.macAddress)
    else if entry.isWaitReply then do
      let (entry, hasRoom) ← entry.updateWaitReply a packet
      some (s.put (if hasRoom then entry else entry.drop packet), false, none)
    else if entry.isPermanent || entry.isAutoGenerated then some (s, true, entry.macAddress)
    else some (s, false, none)
  | none => do
    let s ← s.markWaitReply a { ipv4Address := destination } packet
    some (s.schedule jitter destination, false, none)

/-- A packet is passed to `Lookup`, and the entry of the destination keeps a note of it. -/
def pass (packet : Packet) (destination : Ipv4Address) (jitter : Nat) :
    Option (ArpL3Protocol Mac Packet) := do
  let (s, found, _) ← s.lookup a packet destination jitter
  let e ← s.find destination
  some (s.put (e.note packet found))

/-- A packet is handed to the traffic control layer, for `dest`. -/
def send (packet : Packet) (dest : Ipv4Address) : Option (ArpL3Protocol Mac Packet) :=
  (s.find dest).map fun e => s.put { e with sent := e.sent ++ [packet] }

/-- `Ipv4Interface::Send` of a packet that was pending; it may look the destination up again. -/
def interfaceSend (packet : Packet) (dest : Ipv4Address) (jitter : Nat) :
    Option (ArpL3Protocol Mac Packet) :=
  if i.sendsDirectly dest then s.send packet dest
  else do
    let (s, found, _) ← s.lookup a packet dest jitter
    if found then s.send packet dest else some s

/-- The loop of `Receive` over the queue of an entry, for at most `n` turns. -/
def sendPending (dest : Ipv4Address) (jitter : Nat) :
    (n : Nat) → ArpL3Protocol Mac Packet → Option (ArpL3Protocol Mac Packet)
  | 0, _ => none
  | n + 1, s => do
    let e ← s.find dest
    match e.dequeuePending with
    | (none, _) => some s
    | (some packet, e) => do
      let s ← (s.put e).interfaceSend a i packet dest jitter
      sendPending dest jitter n s

/-- The reply goes from the address that was asked for to the one that asked. -/
def sendArpReply (arp : ArpHeader Mac) : ArpL3Protocol Mac Packet :=
  let reply := ⟨2, i.hardwareAddress, arp.ipv4Dest, arp.macSource, arp.ipv4Source⟩
  { s with replies := s.replies ++ [reply] }

def receiveReply (arp : ArpHeader Mac) (jitter : Nat) : Option (ArpL3Protocol Mac Packet) :=
  match s.find arp.ipv4Source with
  | some entry =>
    if entry.isWaitReply then do
      let entry ← entry.markAlive s.now arp.macSource
      -- a packet that is sent does not come back into the queue
      sendPending a i arp.ipv4Source jitter (entry.pending.length + 1) (s.put entry)
    else some { s with dropTrace := s.dropTrace ++ [arp] }
  | none => some { s with dropTrace := s.dropTrace ++ [arp] }

def sendArpRequest (dest : Ipv4Address) : ArpL3Protocol Mac Packet :=
  match s.find dest with
  | some e => s.put { e with requested := e.requested + 1 }
  | none => s

def handleWaitReplyTimeout : Option (ArpL3Protocol Mac Packet) := do
  let (arpCache, restartWaitReplyTimer) ← ArpEntry.waitReplyLoop a s.now s.arpCache
  some { s with
    arpCache := arpCache
    waitReplyTimer :=
      if restartWaitReplyTimer then some (s.now + a.waitReplyTimeout) else s.waitReplyTimer }

variable [DecidableEq Mac]

/-- The loop of `Receive` over the addresses of the interface. -/
def receiveAt (arp : ArpHeader Mac) (jitter : Nat) :
    List (Ipv4Address × Ipv4Mask) → Option (ArpL3Protocol Mac Packet)
  | [] => some s
  | addr :: rest =>
    if arp.isRequest && arp.ipv4Dest = addr.1 then some (s.sendArpReply i arp)
    else if arp.isReply && arp.ipv4Dest = addr.1 && arp.macDest = i.hardwareAddress then
      s.receiveReply a i arp jitter
    else receiveAt arp jitter rest

/-- `none` for a header that cannot be read. -/
def receive (arp : Option (ArpHeader Mac)) (jitter : Nat) : Option (ArpL3Protocol Mac Packet) :=
  match arp with
  | some arp => s.receiveAt a i arp jitter i.addresses
  | none => some s

end

variable {Mac Packet : Type}

/-- An event that is handled is not pending any more. -/
def step [DecidableEq Mac] (a : ArpAttributes) (s : ArpL3Protocol Mac Packet) :
    ArpStep Mac Packet → Option (ArpL3Protocol Mac Packet)
  | .lookup packet destination jitter => s.pass a packet destination jitter
  | .receive i arp jitter => s.receive a i arp jitter
  | .sendArpRequest dest =>
    some ({ s with scheduled := s.scheduled.erase (s.now, dest) }.sendArpRequest dest)
  | .waitReplyTimeout => { s with waitReplyTimer := none }.handleWaitReplyTimeout a
  | .advance time => some { s with now := time }

/-- Time passes up to the next event, and an event is handled at its time. -/
def Occurs (s : ArpL3Protocol Mac Packet) : ArpStep Mac Packet → Prop
  | .lookup _ _ _ => True
  | .receive _ _ _ => True
  | .sendArpRequest dest => (s.now, dest) ∈ s.scheduled
  | .waitReplyTimeout => s.waitReplyTimer = some s.now
  | .advance time =>
    s.now ≤ time ∧ (∀ t ∈ s.waitReplyTimer, time ≤ t) ∧ ∀ r ∈ s.scheduled, time ≤ r.1

instance (s : ArpL3Protocol Mac Packet) : (i : ArpStep Mac Packet) → Decidable (s.Occurs i)
  | .lookup _ _ _ => .isTrue trivial
  | .receive _ _ _ => .isTrue trivial
  | .sendArpRequest dest => inferInstanceAs (Decidable ((s.now, dest) ∈ s.scheduled))
  | .waitReplyTimeout => inferInstanceAs (Decidable (s.waitReplyTimer = some s.now))
  | .advance time => inferInstanceAs (Decidable
      (s.now ≤ time ∧ (∀ t ∈ s.waitReplyTimer, time ≤ t) ∧ ∀ r ∈ s.scheduled, time ≤ r.1))

end ArpL3Protocol

end CudaNs3.Internet
