import CudaNs3.Device.Net

/-!
# What the calls of a handler come to

Every handler that passes a packet on hands it to `SendFrom` on a list of devices, which
the topology and the learning table determine. The lemmas here reduce the call chains of
`ELP_Send`, `D_TransmitComplete` and `d_Receive` to that.
-/

namespace CudaNs3.Device

open Elp
set_option autoImplicit false

def Topology.transmission (topo : Topology) (d p size ts : Nat) : List EventArgs :=
  let dev := topo.device d
  ⟨d, ts + txTime size dev.bps, dev.nodeId, .transmitComplete, dev.lookahead, none⟩ ::
    CudaP2PChannel.transmitStart topo p d (txTime size dev.bps) ts

/-- The device and the destination address that a socket's packets reach `SendFrom` with, if
no function on the way returns before. -/
def Topology.egress (topo : Topology) (k : Nat) : Option (Nat × MACAddress) :=
  let socket := topo.socket k
  if socket.bound = false ∨ socket.shutdownSend = true then none
  else
    (topo.outInterface socket.udp socket.defaultAddress).bind fun itf =>
      (itf.lookup socket.defaultAddress).map fun mac => (itf.device, mac)

/-- The learning table with the sender of a packet in it, and the ports `ForwardUnicast`
sends the packet to. -/
def Net.learnt (s : Net) (topo : Topology) (b incomingPort : Nat) (src : MACAddress) :
    List (MACAddress × Nat) :=
  (topo.bridge b).learn (s.learned b) src incomingPort

def Net.outPorts (s : Net) (topo : Topology) (b incomingPort : Nat) (src dst : MACAddress) :
    List Nat :=
  match CudaBridgeNetDevice.getLearnedState (s.learnt topo b incomingPort src) dst with
  | some outgoingPort => [outgoingPort]
  | none => (topo.bridge b).ports.filter (· ≠ incomingPort)

section Device
open CudaNetDevice
variable (topo : Topology) {s : Net} {d : Nat} (p : Nat) (src dst : MACAddress) (ts : Nat)

theorem sendFrom_ready (h : (s.tx d).busy = false) :
    sendFrom topo s d p src dst ts =
      ((s.setPacket p ((s.packet p).addLinkHeader src dst)).setTx d ⟨true, (s.tx d).queue⟩,
        topo.transmission d p (s.packet p).size ts) := by
  simp [sendFrom, transmitStart, Topology.transmission, h]

theorem sendFrom_room (h : (s.tx d).busy = true) (hroom : (s.tx d).queue.length < queueSize) :
    sendFrom topo s d p src dst ts =
      ((s.setPacket p ((s.packet p).addLinkHeader src dst)).setTx d
        ⟨true, (s.tx d).queue ++ [p]⟩, []) := by
  simp [sendFrom, Net.enqueueOrRelease, Net.enqueuePacket, h, Nat.not_le.mpr hroom]

theorem sendFrom_full (h : (s.tx d).busy = true) (hfull : queueSize ≤ (s.tx d).queue.length) :
    sendFrom topo s d p src dst ts =
      ((s.setPacket p ((s.packet p).addLinkHeader src dst)).release p, []) := by
  simp [sendFrom, Net.enqueueOrRelease, Net.enqueuePacket, h, hfull]

theorem sendFrom_size (s : Net) (d : Nat) :
    ((sendFrom topo s d p src dst ts).1.packet p).size = (s.packet p).size := by
  by_cases h : (s.tx d).busy = false
  · simp [sendFrom_ready topo p src dst ts h]
  · have hbusy : (s.tx d).busy = true := by simpa using h
    by_cases hfull : queueSize ≤ (s.tx d).queue.length
    · simp [sendFrom_full topo p src dst ts hbusy hfull, Net.release, CudaPacket.release]
    · simp [sendFrom_room topo p src dst ts hbusy (Nat.not_le.mp hfull)]

theorem dTransmitComplete_ready (h : (s.tx d).busy = false) :
    dTransmitComplete topo s d ts = (s, []) := by simp [dTransmitComplete, h]

theorem dTransmitComplete_nil (h : (s.tx d).busy = true) (hq : (s.tx d).queue = []) :
    dTransmitComplete topo s d ts = (s.setTx d ⟨false, []⟩, []) := by
  simp [dTransmitComplete, Net.dequeuePacket, h, hq]

variable {p} {rest : List Nat}

theorem dTransmitComplete_next (h : (s.tx d).busy = true) (hq : (s.tx d).queue = p :: rest)
    (hp : (s.packet p).ready = true) :
    dTransmitComplete topo s d ts =
      (s.setTx d ⟨true, rest⟩, topo.transmission d p (s.packet p).size ts) := by
  simp [dTransmitComplete, transmitStart, Topology.transmission, Net.dequeuePacket, Net.setTx,
    h, hq, hp]

theorem dTransmitComplete_drop (h : (s.tx d).busy = true) (hq : (s.tx d).queue = p :: rest)
    (hp : (s.packet p).ready = false) :
    dTransmitComplete topo s d ts = (s.setTx d ⟨false, rest⟩, []) := by
  simp [dTransmitComplete, Net.dequeuePacket, Net.setTx, h, hq, hp]

end Device

section Bridge
open CudaBridgeNetDevice
variable (topo : Topology) (s : Net) (p : Nat) (src dst : MACAddress) (ts : Nat)

theorem flood_cons (d : Nat) (ports : List Nat) :
    flood topo s p src dst ts (d :: ports) =
      ((flood topo (CudaNetDevice.sendFrom topo s d p src dst ts).1 p src dst ts ports).1,
        (CudaNetDevice.sendFrom topo s d p src dst ts).2 ++
          (flood topo (CudaNetDevice.sendFrom topo s d p src dst ts).1 p src dst ts ports).2) :=
  rfl

theorem flood_singleton (d : Nat) :
    flood topo s p src dst ts [d] = CudaNetDevice.sendFrom topo s d p src dst ts := by
  simp [flood]

theorem forwardUnicast_eq (b incomingPort : Nat) :
    forwardUnicast topo s b incomingPort p src dst ts =
      flood topo (s.setLearned b (s.learnt topo b incomingPort src)) p src dst ts
        (s.outPorts topo b incomingPort src dst) := by
  unfold forwardUnicast Net.outPorts
  simp only [Net.setLearned_learned, Function.update_self]
  change (match getLearnedState (s.learnt topo b incomingPort src) dst with
    | some outgoingPort => _
    | none => _) = _
  cases getLearnedState (s.learnt topo b incomingPort src) dst with
  | none => rfl
  | some outgoingPort => exact (flood_singleton topo _ p src dst ts outgoingPort).symm

end Bridge

def Topology.emit (topo : Topology) (k : Nat) (s : Net) (p ts : Nat) : Fired :=
  match topo.egress k with
  | none => (s, [])
  | some (d, mac) => CudaNetDevice.sendFrom topo s d p (topo.device d).macAddress mac ts

theorem Topology.emit_size (topo : Topology) (k : Nat) (s : Net) (p ts : Nat) :
    ((topo.emit k s p ts).1.packet p).size = (s.packet p).size := by
  unfold emit
  cases topo.egress k with
  | none => rfl
  | some e => exact sendFrom_size topo p _ e.2 ts s e.1

/-- The packet that reaches `SendFrom` at the egress of a socket, and the result of `Send`. -/
def CudaSocket.outgoing (topo : Topology) (k : Nat) (l : Locals) (pk : CudaPacket) :
    CudaPacket × Int :=
  let socket := topo.socket k
  if socket.bound = false ∨ socket.shutdownSend = true then (pk, -1)
  else
    (pk.addHeader (combinedIpUdpHeaders l pk.size 0 socket.defaultAddress 0 socket.defaultPort),
      l.result)

theorem CudaSocket.outgoing_fst (topo : Topology) (k : Nat) (l : Locals) (pk : CudaPacket) :
    (outgoing topo k l pk).1.ready = pk.ready ∧ (outgoing topo k l pk).1.size = pk.size := by
  unfold outgoing
  simp only
  split
  · exact ⟨rfl, rfl⟩
  · exact ⟨CudaPacket.addHeader_ready _ _, CudaPacket.addHeader_size _ _⟩

theorem CudaSocket.send_eq (topo : Topology) (k : Nat) (s : Net) (p : Nat) (l : Locals) (ts : Nat) :
    send topo k s p l ts =
      (topo.emit k (s.setPacket p (outgoing topo k l (s.packet p)).1) p ts,
        (outgoing topo k l (s.packet p)).2) := by
  have hsame : s.setPacket p (s.packet p) = s := by simp [Net.setPacket]
  have hsize : ¬ maxIpv4UdpDatagramSize < (s.packet p).size :=
    Nat.not_lt.mpr (Nat.le_trans (s.packet p).size_le (by decide))
  unfold send doSendTo Topology.emit Topology.egress outgoing
  by_cases hbound : (topo.socket k).bound = false
  · simp [hbound, hsame]
  by_cases hshut : (topo.socket k).shutdownSend = true
  · simp [hbound, hshut, hsize, hsame]
  simp only [hbound, hshut, hsize, if_false, CudaUdpL4Protocol.optimizeSend,
    CudaIpv4L3Protocol.optimizeSend]
  cases topo.outInterface (topo.socket k).udp (topo.socket k).defaultAddress with
  | none => rfl
  | some itf =>
    simp only [CudaIpv4Interface.optimizeSend, Option.bind_some]
    cases itf.lookup (topo.socket k).defaultAddress <;> rfl

theorem dReceive_notReady {s : Net} {p : Nat} (h : (s.packet p).ready = false) (topo : Topology)
    (d : Nat) (l : Locals) (ts : Nat) : CudaNetDevice.dReceive topo s d p l ts = some (s, []) := by
  simp [CudaNetDevice.dReceive, h]

theorem dReceive_bridge {topo : Topology} {s : Net} {p d b : Nat} {l : Locals} {pk : CudaPacket}
    {src dst : MACAddress} (h : (s.packet p).ready = true)
    (hb : (topo.device d).bridge = some b) (hpk : (s.packet p).stripLinkHeader l = (pk, dst, src))
    (ts : Nat) :
    CudaNetDevice.dReceive topo s d p l ts =
      some (CudaBridgeNetDevice.flood topo
        ((s.setPacket p pk).setLearned b (s.learnt topo b d src)) p src dst ts
        (s.outPorts topo b d src dst)) := by
  simp only [CudaNetDevice.dReceive, h, hb, hpk, Bool.true_eq_false, if_false, forwardUnicast_eq]
  rfl

theorem dReceive_host {topo : Topology} {s : Net} {p d : Nat} (h : (s.packet p).ready = true)
    (hb : (topo.device d).bridge = none) (l : Locals) (ts : Nat) :
    CudaNetDevice.dReceive topo s d p l ts =
      (CudaIpv4L3Protocol.dReceive topo (topo.device d).ipv4
        (s.setPacket p ((s.packet p).stripLinkHeader l).1) d p).map fun s => (s, []) := by
  simp [CudaNetDevice.dReceive, h, hb]

theorem dReceive_delivered {topo : Topology} {s : Net} {p d k : Nat} {itf : CudaIpv4Interface}
    (h : (s.packet p).ready = true) (hb : (topo.device d).bridge = none)
    (hitf : ((topo.stack (topo.device d).ipv4).getInterfaceForDevice d).bind
      (topo.stack (topo.device d).ipv4).getInterface = some itf)
    (hup : itf.isUp = true) (hk : (topo.stack (topo.device d).ipv4).endPointSocket = some k)
    (l : Locals) (ts : Nat) :
    CudaNetDevice.dReceive topo s d p l ts =
      (CudaSocket.forwardPacket topo k
        (s.setPacket p ((s.packet p).stripLinkHeader l).1.stripIpUdpHeaders) p).map
          fun s => (s, []) := by
  rw [dReceive_host h hb]
  simp [CudaIpv4L3Protocol.dReceive, CudaIpv4L3Protocol.dLocalDeliver, hitf, hup, hk, Net.setPacket]

section Socket
variable {topo : Topology} {s : Net} {k : Nat}

theorem handleRead_nil (h : s.deliveryQueue k = []) (v : Nat) :
    CudaSocket.handleRead k v s = s := by simp [CudaSocket.handleRead, CudaSocket.cudaRecv, h]

theorem handleRead_cons {q : Nat} {rest : List Nat} (h : s.deliveryQueue k = q :: rest) (v : Nat) :
    CudaSocket.handleRead k v s =
      ((s.setSocket k (s.rxAvailable k - .ofNat (s.packet q).size) rest).setReceived v
        (s.received v + if 0 < (s.packet q).size then 1 else 0)).release q := by
  have hsize : (s.packet q).size < uint32Max := Nat.lt_of_le_of_lt (s.packet q).size_le (by decide)
  by_cases hpos : 0 < (s.packet q).size
  · simp [CudaSocket.handleRead, CudaSocket.cudaRecv, h, hsize, hpos]
  · simp [CudaSocket.handleRead, CudaSocket.cudaRecv, h, hsize, hpos, Net.setReceived,
      Net.setSocket]

/-- The packet fits in the receive buffer of a socket that takes packets. -/
def Net.Accepts (s : Net) (topo : Topology) (k p : Nat) : Prop :=
  (topo.socket k).shutdownRecv = false ∧
    (s.rxAvailable k + .ofNat (s.packet p).size).toNat ≤ (topo.socket k).rcvBufSize

theorem forwardPacket_refused {p : Nat} (h : ¬ s.Accepts topo k p) :
    CudaSocket.forwardPacket topo k s p = some s := by
  unfold CudaSocket.forwardPacket
  by_cases hshut : (topo.socket k).shutdownRecv = true
  · simp only [hshut, if_true]
  · have hopen : (topo.socket k).shutdownRecv = false := by simpa using hshut
    simp only [hopen, Bool.false_eq_true, if_false, if_neg fun hfits => h ⟨hopen, hfits⟩]

theorem forwardPacket_full {p : Nat} (h : s.Accepts topo k p)
    (hfull : deliveryQueueCapacity ≤ (s.deliveryQueue k).length) :
    CudaSocket.forwardPacket topo k s p = some (s.release p) := by
  obtain ⟨hopen, hfits⟩ := h
  simp only [CudaSocket.forwardPacket, hopen, Bool.false_eq_true, if_false, if_pos hfits,
    if_pos hfull]

theorem forwardPacket_room {p : Nat} (h : s.Accepts topo k p)
    (hroom : (s.deliveryQueue k).length < deliveryQueueCapacity) :
    CudaSocket.forwardPacket topo k s p =
      (topo.socket k).server.map fun v => CudaSocket.handleRead k v
        (s.setSocket k (s.rxAvailable k + .ofNat (s.packet p).size)
          (s.deliveryQueue k ++ [p])) := by
  obtain ⟨hopen, hfits⟩ := h
  simp only [CudaSocket.forwardPacket, hopen, Bool.false_eq_true, if_false, if_pos hfits,
    if_neg (Nat.not_le.mpr hroom)]

theorem forwardPacket_served {p q v : Nat} {rest : List Nat} (h : s.Accepts topo k p)
    (hroom : (s.deliveryQueue k).length < deliveryQueueCapacity)
    (hv : (topo.socket k).server = some v) (hq : s.deliveryQueue k ++ [p] = q :: rest) :
    CudaSocket.forwardPacket topo k s p =
      some (((s.setSocket k
        (s.rxAvailable k + .ofNat (s.packet p).size - .ofNat (s.packet q).size) rest).setReceived v
          (s.received v + if 0 < (s.packet q).size then 1 else 0)).release q) := by
  have hset (rx rx' : UInt32) (l l' : List Nat) :
      (s.setSocket k rx l).setSocket k rx' l' = s.setSocket k rx' l' := by simp [Net.setSocket]
  have hqueue : (s.setSocket k (s.rxAvailable k + .ofNat (s.packet p).size)
      (q :: rest)).deliveryQueue k = q :: rest := by simp
  rw [forwardPacket_room h hroom, hv, Option.map_some, hq, handleRead_cons hqueue, hset]
  simp

end Socket

/-- The size of a packet of a client: `SetSize` refuses what exceeds the capacity. -/
def CudaUdpClient.packetSize (client : CudaUdpClient) : Nat :=
  if maxPacketSize < client.size then 0 else client.size

def CudaUdpClient.next (client : CudaUdpClient) (c ts : Nat) : EventArgs :=
  ⟨c, ts + client.interval, client.nodeId, .send, client.lookahead, none⟩

def Net.Sending (s : Net) (topo : Topology) (c : Nat) : Prop :=
  (topo.client c).stop = false ∧ s.sent c < (topo.client c).count

theorem elpSend_idle {topo : Topology} {s : Net} {c : Nat} (h : ¬ s.Sending topo c) (tid : Nat)
    (l : Locals) (ts : Nat) : CudaUdpClient.elpSend topo s c tid l ts = some (s, []) := by
  unfold CudaUdpClient.elpSend
  by_cases hstop : (topo.client c).stop = true
  · simp [hstop]
  · have hcount : (topo.client c).count ≤ s.sent c :=
      Nat.not_lt.mp fun hlt => h ⟨by simpa using hstop, hlt⟩
    simp [hstop, hcount]

def CudaUdpClient.outgoing (topo : Topology) (client : CudaUdpClient) (l : Locals)
    (pk : CudaPacket) : CudaPacket × Int :=
  CudaSocket.outgoing topo client.socket l ({ pk with ready := true }.construct.setSize client.size)

theorem CudaUdpClient.outgoing_fst (topo : Topology) (client : CudaUdpClient) (l : Locals)
    (pk : CudaPacket) :
    (client.outgoing topo l pk).1.ready = true ∧
      (client.outgoing topo l pk).1.size = client.packetSize := by
  obtain ⟨hready, hsize⟩ := CudaSocket.outgoing_fst topo client.socket l
    ({ pk with ready := true }.construct.setSize client.size)
  refine ⟨hready.trans (by simp), hsize.trans ?_⟩
  simp only [CudaPacket.setSize, CudaUdpClient.packetSize]
  split <;> rfl

theorem elpSend_eq {topo : Topology} {s : Net} {c tid p : Nat} (h : s.Sending topo c)
    (hp : s.claim tid = some p) (l : Locals) (ts : Nat) :
    let client := topo.client c
    let r := client.outgoing topo l (s.packet p)
    let sent := topo.emit client.socket (s.setPacket p r.1) p ts
    CudaUdpClient.elpSend topo s c tid l ts =
      some (sent.1.setSent c (sent.1.sent c + if 0 ≤ r.2 then 1 else 0)
          (sent.1.totalTx c + if 0 ≤ r.2 then .ofNat client.packetSize else 0),
        sent.2 ++ [client.next c ts]) := by
  intro client r sent
  obtain ⟨hstop, hcount⟩ := h
  have hsize : (sent.1.packet p).size = client.packetSize := by
    rw [Topology.emit_size, Net.setPacket_packet, Function.update_self]
    exact (client.outgoing_fst topo l (s.packet p)).2
  have hset (pk₁ pk₂ : CudaPacket) : (s.setPacket p pk₁).setPacket p pk₂ = s.setPacket p pk₂ := by
    simp [Net.setPacket]
  have hsame (t : Net) : t.setSent c (t.sent c + 0) (t.totalTx c + 0) = t := by
    simp [Net.setSent]
  simp only [CudaUdpClient.elpSend, hstop, Bool.false_eq_true, if_false, Nat.not_le.mpr hcount, hp,
    Option.map_some, CudaSocket.send_eq, hset, Net.setPacket_packet, Function.update_self]
  refine congrArg (fun t => some (t, sent.2 ++ [client.next c ts])) ?_
  by_cases hr : 0 ≤ r.2
  · rw [if_pos hr, if_pos hr, ← hsize]
    exact if_pos hr
  · rw [if_neg hr, if_neg hr, hsame]
    exact if_neg hr

theorem elpSend_sending {topo : Topology} {s s' : Net} {c tid ts : Nat} {l : Locals}
    {out : List EventArgs} (h : s.Sending topo c)
    (hout : CudaUdpClient.elpSend topo s c tid l ts = some (s', out)) :
    ∃ p pk n total, s.claim tid = some p ∧ pk.ready = true ∧ pk.size = (topo.client c).packetSize ∧
      s' = (topo.emit (topo.client c).socket (s.setPacket p pk) p ts).1.setSent c n total ∧
      out = (topo.emit (topo.client c).socket (s.setPacket p pk) p ts).2 ++
        [(topo.client c).next c ts] := by
  cases hp : s.claim tid with
  | none => simp [CudaUdpClient.elpSend, h.1, Nat.not_le.mpr h.2, hp] at hout
  | some p =>
    rw [elpSend_eq h hp l ts] at hout
    obtain ⟨rfl, rfl⟩ := Prod.mk.inj (Option.some.inj hout)
    obtain ⟨hready, hsize⟩ := (topo.client c).outgoing_fst topo l (s.packet p)
    exact ⟨p, _, _, _, rfl, hready, hsize, rfl, rfl⟩

end CudaNs3.Device
