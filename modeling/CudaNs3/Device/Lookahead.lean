import CudaNs3.Device.Calls

/-!
# Handlers and the lookahead they were scheduled with

Where the three lookaheads come from, and when a handler inserts nothing before the end of
its own. A device that starts to transmit inserts its transmit-complete after the
transmission time alone, while every computed lookahead has a channel delay in it.
-/

namespace CudaNs3.Device

open Elp
set_option autoImplicit false

section Computed
variable (topo : Topology)

/-- `CudaP2PHelper::Install`: the MTU is that of the first device on both sides. -/
def Topology.installLookahead (d : Nat) : Nat :=
  let c := topo.channelOf d
  c.delay + txTime (topo.device c.src₀).mtu (topo.device d).bps

/-- The device `CalculateLookAhead` reads the route for. It is set to the same lookahead. -/
def Topology.routeDevice (c : Nat) : Option Nat :=
  let socket := topo.socket (topo.client c).socket
  let l3 := topo.stack socket.udp
  ((l3.lookupRoute socket.defaultAddress).bind l3.getInterface).map CudaIpv4Interface.device

/-- `CalculateLookAhead`; `table` is `lookaheadTable`, the delays `Install` has put there. -/
def Topology.calculateLookAhead (table : Nat → Nat → Nat) (c : Nat) : Option Nat :=
  (topo.routeDevice c).map fun dev =>
    let dst := (topo.channelOf dev).getDstDev dev
    table (topo.client c).nodeId (topo.device dst).nodeId +
      txTime (topo.client c).size (topo.device dev).bps

inductive Topology.Computed (table : Nat → Nat → Nat) : EventType → Nat → Nat → Prop where
  | client {c L : Nat} : topo.calculateLookAhead table c = some L → Computed table .send c L
  | device {c d L : Nat} : topo.calculateLookAhead table c = some L →
      topo.routeDevice c = some d → Computed table .transmitComplete d L
  | install (d : Nat) : Computed table .transmitComplete d (topo.installLookahead d)
  | wire (src : Nat) :
      Computed table .receive ((topo.channelOf src).getDstDev src) (topo.receiveLookahead src)

theorem txTime_mono {m n : Nat} (h : m ≤ n) (bps : Nat) : txTime m bps ≤ txTime n bps := by
  apply Nat.div_le_div_right
  omega

variable {topo}

/-- No packet up to the MTU takes the lookahead that `Install` gives a device with a delay. -/
theorem txTime_lt_installLookahead {d size : Nat} (hdelay : 0 < (topo.channelOf d).delay)
    (hsize : size ≤ (topo.device (topo.channelOf d).src₀).mtu) :
    txTime size (topo.device d).bps < topo.installLookahead d := by
  have hmono := txTime_mono hsize (topo.device d).bps
  simp only [Topology.installLookahead]
  omega

/-- Nor does a client's packet take the lookahead `CalculateLookAhead` gives the client. -/
theorem txTime_lt_calculateLookAhead {table : Nat → Nat → Nat} {c d L : Nat}
    (hd : topo.routeDevice c = some d) (hL : topo.calculateLookAhead table c = some L)
    (hdelay : 0 < table (topo.client c).nodeId
      (topo.device ((topo.channelOf d).getDstDev d)).nodeId) :
    txTime (topo.client c).size (topo.device d).bps < L := by
  simp only [Topology.calculateLookAhead, hd, Option.map_some, Option.some.injEq] at hL
  omega

end Computed

/-- If the device is free to transmit the bytes, that takes the lookahead at least. -/
def Topology.Covers (topo : Topology) (s : Net) (lookahead size d : Nat) : Prop :=
  (s.tx d).busy = false → lookahead ≤ txTime size (topo.device d).bps

/-- Each transmission the handler starts, and the interval of a client, take the lookahead of
the event at least. -/
def Net.LongEnough (s : Net) (topo : Topology) (w : Task) : Prop :=
  match w.ev.type with
  | .send =>
    s.Sending topo w.ev.obj →
      w.ev.lookahead ≤ (topo.client w.ev.obj).interval ∧
      ∀ d mac, topo.egress (topo.client w.ev.obj).socket = some (d, mac) →
        topo.Covers s w.ev.lookahead (topo.client w.ev.obj).packetSize d
  | .transmitComplete =>
    ∀ p rest, (s.tx w.ev.obj).busy = true → (s.tx w.ev.obj).queue = p :: rest →
      (s.packet p).ready = true →
      w.ev.lookahead ≤ txTime (s.packet p).size (topo.device w.ev.obj).bps
  | .receive =>
    ∀ p b, w.ev.payload = some p → (s.packet p).ready = true →
      (topo.device w.ev.obj).bridge = some b →
      ∀ d ∈ s.outPorts topo b w.ev.obj ((s.packet p).stripLinkHeader w.locals).2.2
          ((s.packet p).stripLinkHeader w.locals).2.1,
        topo.Covers s w.ev.lookahead (s.packet p).size d

section Due
variable (topo : Topology) (s : Net) (p : Nat) (src dst : MACAddress) (ts L : Nat)

theorem transmission_due (d size : Nat) :
    (∀ a ∈ topo.transmission d p size ts, ts + L ≤ a.ts) ↔
      L ≤ txTime size (topo.device d).bps := by
  simp only [Topology.transmission, CudaP2PChannel.transmitStart]
  split
  · simp
  · simp only [List.mem_cons, List.not_mem_nil, or_false, forall_eq_or_imp, forall_eq]
    omega

theorem sendFrom_due (d : Nat) :
    (∀ a ∈ (CudaNetDevice.sendFrom topo s d p src dst ts).2, ts + L ≤ a.ts) ↔
      topo.Covers s L (s.packet p).size d := by
  unfold Topology.Covers
  by_cases h : (s.tx d).busy = false
  · rw [sendFrom_ready topo p src dst ts h, transmission_due]
    simp [h]
  · have hbusy : (s.tx d).busy = true := by simpa using h
    by_cases hfull : queueSize ≤ (s.tx d).queue.length
    · simp [sendFrom_full topo p src dst ts hbusy hfull, h]
    · simp [sendFrom_room topo p src dst ts hbusy (Nat.not_le.mp hfull), h]

theorem sendFrom_busy (d e : Nat) :
    ((CudaNetDevice.sendFrom topo s d p src dst ts).1.tx e).busy =
      if e = d then true else (s.tx e).busy := by
  by_cases h : (s.tx d).busy = false
  · rw [sendFrom_ready topo p src dst ts h]
    by_cases he : e = d
    · subst he
      simp
    · simp [he]
  · have hbusy : (s.tx d).busy = true := by simpa using h
    by_cases hfull : queueSize ≤ (s.tx d).queue.length
    · rw [sendFrom_full topo p src dst ts hbusy hfull]
      by_cases he : e = d
      · subst he
        simp [Net.release, hbusy]
      · simp [Net.release, he]
    · rw [sendFrom_room topo p src dst ts hbusy (Nat.not_le.mp hfull)]
      by_cases he : e = d
      · subst he
        simp
      · simp [he]

variable {s} in
theorem flood_due (ports : List Nat) :
    (∀ a ∈ (CudaBridgeNetDevice.flood topo s p src dst ts ports).2, ts + L ≤ a.ts) ↔
      ∀ d ∈ ports, topo.Covers s L (s.packet p).size d := by
  induction ports generalizing s with
  | nil => simp [CudaBridgeNetDevice.flood]
  | cons d ports ih =>
    simp only [flood_cons, List.mem_append, or_imp, forall_and, List.forall_mem_cons, sendFrom_due,
      ih, sendFrom_size]
    refine and_congr_right fun hd => forall₂_congr fun e _ => ?_
    simp only [Topology.Covers, sendFrom_busy]
    by_cases he : e = d
    · subst he
      simp only [if_true, Bool.true_eq_false, false_imp_iff, true_iff]
      exact hd
    · rw [if_neg he]

theorem emit_due (k : Nat) :
    (∀ a ∈ (topo.emit k s p ts).2, ts + L ≤ a.ts) ↔
      ∀ d mac, topo.egress k = some (d, mac) → topo.Covers s L (s.packet p).size d := by
  unfold Topology.emit
  cases topo.egress k with
  | none => simp
  | some e =>
    obtain ⟨d, mac⟩ := e
    simp [sendFrom_due]

end Due

section Handlers
variable {topo : Topology} {s s' : Net} {ts L : Nat} {l : Locals} {out : List EventArgs}

theorem elpSend_due {c tid : Nat}
    (h : CudaUdpClient.elpSend topo s c tid l ts = some (s', out)) :
    (∀ a ∈ out, ts + L ≤ a.ts) ↔
      (s.Sending topo c → L ≤ (topo.client c).interval ∧
        ∀ d mac, topo.egress (topo.client c).socket = some (d, mac) →
          topo.Covers s L (topo.client c).packetSize d) := by
  by_cases hsend : s.Sending topo c
  · obtain ⟨p, pk, n, total, _, _, hsize, _, rfl⟩ := elpSend_sending hsend h
    have hnext : (∀ a ∈ [(topo.client c).next c ts], ts + L ≤ a.ts) ↔
        L ≤ (topo.client c).interval := by
      simp [CudaUdpClient.next]
    simp only [List.mem_append, or_imp, forall_and, hnext, emit_due, Net.setPacket_packet,
      Function.update_self, hsize, hsend, true_imp_iff]
    exact and_comm
  · rw [elpSend_idle hsend] at h
    obtain ⟨rfl, rfl⟩ := Prod.mk.inj (Option.some.inj h)
    simp [hsend]

theorem dTransmitComplete_due (topo : Topology) (s : Net) (d : Nat) :
    (∀ a ∈ (CudaNetDevice.dTransmitComplete topo s d ts).2, ts + L ≤ a.ts) ↔
      ∀ p rest, (s.tx d).busy = true → (s.tx d).queue = p :: rest → (s.packet p).ready = true →
        L ≤ txTime (s.packet p).size (topo.device d).bps := by
  cases hbusy : (s.tx d).busy with
  | false => simp [dTransmitComplete_ready topo ts hbusy]
  | true =>
    cases hq : (s.tx d).queue with
    | nil => simp [dTransmitComplete_nil topo ts hbusy hq]
    | cons p rest =>
      cases hp : (s.packet p).ready with
      | false => simp [dTransmitComplete_drop topo ts hbusy hq hp, hp]
      | true => simp [dTransmitComplete_next topo ts hbusy hq hp, transmission_due, hp]

theorem dReceive_due {d p : Nat} (h : CudaNetDevice.dReceive topo s d p l ts = some (s', out)) :
    (∀ a ∈ out, ts + L ≤ a.ts) ↔
      ∀ b, (s.packet p).ready = true → (topo.device d).bridge = some b →
        ∀ e ∈ s.outPorts topo b d ((s.packet p).stripLinkHeader l).2.2
            ((s.packet p).stripLinkHeader l).2.1,
          topo.Covers s L (s.packet p).size e := by
  cases hready : (s.packet p).ready with
  | false =>
    rw [dReceive_notReady hready] at h
    obtain ⟨rfl, rfl⟩ := Prod.mk.inj (Option.some.inj h)
    simp
  | true =>
    cases hb : (topo.device d).bridge with
    | none =>
      rw [dReceive_host hready hb] at h
      obtain ⟨_, _, heq⟩ := Option.map_eq_some_iff.mp h
      obtain ⟨_, rfl⟩ := Prod.mk.inj heq
      simp
    | some b =>
      rcases hpk : (s.packet p).stripLinkHeader l with ⟨pk, dst, src⟩
      rw [dReceive_bridge hready hb hpk] at h
      obtain ⟨_, rfl⟩ := Prod.mk.inj (Option.some.inj h)
      have hsize : pk.size = (s.packet p).size := by
        rw [← CudaPacket.stripLinkHeader_size (s.packet p) l, hpk]
      simp only [flood_due, Net.setLearned_packet, Net.setPacket_packet, Function.update_self,
        hsize, Option.some.injEq, forall_eq', true_imp_iff]
      exact Iff.rfl

end Handlers

def plainSend : Task := ⟨⟨0, 0, 0, .send, 1024, none⟩, 0, .zero⟩

end CudaNs3.Device
