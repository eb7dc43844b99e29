import CudaNs3.Device.Calls
import CudaNs3.Lib.Custody
import CudaNs3.Lib.Transition
import Mathlib.Algebra.Order.Group.Multiset

/-!
# Ownership in the packet pool

Handler after handler, each taking one pending event and adding what it inserts. A slot of
the pool is owned by the one pending receive event, transmit queue or delivery queue that
refers to it. Many paths through the stack drop a packet without releasing it, and a flood
hands one packet to several ports; ownership is kept by the handlers that take no such path.
-/

namespace CudaNs3.Device

open Elp Custody Transition
set_option autoImplicit false

inductive Site where
  | pending
  | queue (d : Nat)
  | delivery (k : Nat)
  deriving DecidableEq

structure Pool where
  net : Net
  pending : Multiset EventArgs

namespace Pool

def refersTo (p : Nat) (a : EventArgs) : Bool := a.type = .receive ∧ a.payload = some p

/-- How many live references to a slot there are at a site. -/
def holds (x : Pool) : Site → Nat → Nat
  | .pending, p => x.pending.countP fun a => refersTo p a
  | .queue d, p => (x.net.tx d).queue.count p
  | .delivery k, p => (x.net.deliveryQueue k).count p

def live (x : Pool) (p : Nat) : Bool := (x.net.packet p).ready

def Owned (x : Pool) : Prop := Custody.Owned x.live x.holds

def after (pending : Multiset EventArgs) (r : Fired) : Pool :=
  ⟨r.1, pending + (r.2 : Multiset EventArgs)⟩

theorem holds_cons {s : Net} {pending : Multiset EventArgs} {a : EventArgs} {p : Nat}
    (ha : refersTo p a = false) (site : Site) :
    holds ⟨s, a ::ₘ pending⟩ site p = holds ⟨s, pending⟩ site p := by
  cases site with
  | pending => simp [holds, ha]
  | queue d => rfl
  | delivery k => rfl

end Pool

theorem count_cons_eq (q : Nat) (queue : List Nat) (p : Nat) :
    (q :: queue).count p = queue.count p + if p = q then 1 else 0 := by
  by_cases h : p = q
  · simp [h]
  · simp [h, Ne.symm h]

/-- Where a packet is after a `SendFrom`: in one more place, back in the pool, or nowhere. -/
inductive Fate where
  | kept (site : Site)
  | released
  | lost
  deriving DecidableEq

def Fate.isKept : Fate → Bool
  | .kept _ => true
  | _ => false

theorem Fate.count_kept_of_none {fates : List Fate} (h : fates.countP Fate.isKept = 0)
    (site : Site) : fates.count (.kept site) = 0 := by
  apply List.count_eq_zero_of_not_mem
  intro hmem
  exact List.countP_eq_zero.mp h _ hmem rfl

theorem Fate.sole_of_countP {fates : List Fate} (h : fates.countP Fate.isKept = 1) :
    Sole fun site => fates.count (.kept site) := by
  induction fates with
  | nil => simp at h
  | cons f fates ih =>
    cases f with
    | kept site =>
      have hrest : fates.countP Fate.isKept = 0 := by
        rw [List.countP_cons_of_pos rfl] at h
        omega
      refine ⟨site, ?_, fun other hne => ?_⟩
      · simp [Fate.count_kept_of_none hrest]
      · simp [Fate.count_kept_of_none hrest, Ne.symm hne]
    | released | lost =>
      rw [List.countP_cons_of_neg (by decide)] at h
      simpa using ih h

def Topology.fate (topo : Topology) (s : Net) (d : Nat) : Fate :=
  if (s.tx d).busy = false then
    if (topo.channelOf d).initialized then .kept .pending else .lost
  else if queueSize ≤ (s.tx d).queue.length then .released
  else .kept (.queue d)

/-- The transmitter of the device once the packet has been handed to it. -/
def Net.loaded (s : Net) (d p : Nat) : Net :=
  if (s.tx d).busy = false then s.setTx d ⟨true, (s.tx d).queue⟩
  else if queueSize ≤ (s.tx d).queue.length then s
  else s.setTx d ⟨true, (s.tx d).queue ++ [p]⟩

/-- What becomes of the packet at each of the devices that it is handed to in turn. -/
def Topology.fates (topo : Topology) (p : Nat) : Net → List Nat → List Fate
  | _, [] => []
  | s, d :: ports => topo.fate s d :: fates topo p (s.loaded d p) ports

/-- Of the devices that a packet is handed to one takes it and none releases it, or none takes
it and one does release it. -/
def Topology.Settles (topo : Topology) (s : Net) (p : Nat) (ports : List Nat) : Prop :=
  let fates := topo.fates p s ports
  fates.countP Fate.isKept = 1 ∧ .released ∉ fates ∨
    fates.countP Fate.isKept = 0 ∧ .released ∈ fates

theorem Topology.fates_congr (topo : Topology) {s t : Net} (h : s.tx = t.tx) (p : Nat)
    (ports : List Nat) : topo.fates p s ports = topo.fates p t ports := by
  induction ports generalizing s t with
  | nil => rfl
  | cons d ports ih =>
    have hfate : topo.fate s d = topo.fate t d := by simp only [fate, h]
    have hloaded : (s.loaded d p).tx = (t.loaded d p).tx := by
      simp only [Net.loaded, h]
      split
      · simp only [Net.setTx, h]
      · split
        · exact h
        · simp only [Net.setTx, h]
    simp only [fates, hfate, ih hloaded]

theorem Topology.Settles.congr {topo : Topology} {s t : Net} {p : Nat} {ports : List Nat}
    (h : topo.Settles s p ports) (htx : s.tx = t.tx) : topo.Settles t p ports := by
  unfold Topology.Settles at h ⊢
  rwa [← topo.fates_congr htx p ports]

section SendFrom
variable (topo : Topology) (s : Net) (d p : Nat) (src dst : MACAddress) (ts : Nat)

theorem countP_transmission (size q : Nat) :
    (topo.transmission d p size ts).countP (Pool.refersTo q) =
      if q = p ∧ (topo.channelOf d).initialized then 1 else 0 := by
  simp only [Topology.transmission, CudaP2PChannel.transmitStart]
  cases (topo.channelOf d).initialized
  · simp [Pool.refersTo]
  · simp [Pool.refersTo, List.countP_cons, eq_comm]

theorem sendFrom_holds (pending : Multiset EventArgs) (site : Site) (q : Nat) :
    (Pool.after pending (CudaNetDevice.sendFrom topo s d p src dst ts)).holds site q =
      Pool.holds ⟨s, pending⟩ site q + if q = p ∧ topo.fate s d = .kept site then 1 else 0 := by
  unfold Topology.fate Pool.after
  by_cases h : (s.tx d).busy = false
  · rw [sendFrom_ready topo p src dst ts h]
    cases hinit : (topo.channelOf d).initialized <;> cases site with
    | pending => simp [Pool.holds, h, countP_transmission, hinit]
    | queue e =>
      by_cases he : e = d
      · subst he
        simp [Pool.holds, h]
      · simp [Pool.holds, h, he]
    | delivery k => simp [Pool.holds, h]
  · have hbusy : (s.tx d).busy = true := by simpa using h
    by_cases hfull : queueSize ≤ (s.tx d).queue.length
    · rw [sendFrom_full topo p src dst ts hbusy hfull]
      cases site <;> simp [Pool.holds, h, hfull, Net.release]
    · rw [sendFrom_room topo p src dst ts hbusy (Nat.not_le.mp hfull)]
      cases site with
      | pending => simp [Pool.holds, h, hfull]
      | queue e =>
        by_cases he : e = d
        · subst he
          simp [Pool.holds, h, hfull, count_cons_eq]
        · simp [Pool.holds, h, hfull, he, Ne.symm he]
      | delivery k => simp [Pool.holds, h, hfull]

theorem sendFrom_live (q : Nat) :
    ((CudaNetDevice.sendFrom topo s d p src dst ts).1.packet q).ready =
      ((s.packet q).ready && !(q = p && topo.fate s d = .released)) := by
  unfold Topology.fate
  by_cases h : (s.tx d).busy = false
  · rw [sendFrom_ready topo p src dst ts h]
    by_cases hq : q = p
    · subst hq
      cases hinit : (topo.channelOf d).initialized <;> simp [h]
    · simp [hq]
  · have hbusy : (s.tx d).busy = true := by simpa using h
    by_cases hfull : queueSize ≤ (s.tx d).queue.length
    · rw [sendFrom_full topo p src dst ts hbusy hfull]
      by_cases hq : q = p
      · subst hq
        simp [h, hfull, Net.release, CudaPacket.release]
      · simp [hq, Net.release]
    · rw [sendFrom_room topo p src dst ts hbusy (Nat.not_le.mp hfull)]
      by_cases hq : q = p
      · subst hq
        simp [h, hfull]
      · simp [hq]

theorem sendFrom_tx : (CudaNetDevice.sendFrom topo s d p src dst ts).1.tx = (s.loaded d p).tx := by
  unfold Net.loaded
  by_cases h : (s.tx d).busy = false
  · rw [sendFrom_ready topo p src dst ts h, if_pos h]
    rfl
  · have hbusy : (s.tx d).busy = true := by simpa using h
    rw [if_neg h]
    by_cases hfull : queueSize ≤ (s.tx d).queue.length
    · rw [sendFrom_full topo p src dst ts hbusy hfull, if_pos hfull]
      rfl
    · rw [sendFrom_room topo p src dst ts hbusy (Nat.not_le.mp hfull), if_neg hfull]
      rfl

theorem flood_holds (ports : List Nat) (pending : Multiset EventArgs) (site : Site) (q : Nat) :
    (Pool.after pending (CudaBridgeNetDevice.flood topo s p src dst ts ports)).holds site q =
      Pool.holds ⟨s, pending⟩ site q +
        if q = p then (topo.fates p s ports).count (.kept site) else 0 := by
  induction ports generalizing s pending with
  | nil => simp [CudaBridgeNetDevice.flood, Pool.after, Topology.fates]
  | cons d ports ih =>
    have hfates := topo.fates_congr (sendFrom_tx topo s d p src dst ts) p ports
    have hstep := sendFrom_holds topo s d p src dst ts pending site q
    have hrest := ih (CudaNetDevice.sendFrom topo s d p src dst ts).1
      (pending + (CudaNetDevice.sendFrom topo s d p src dst ts).2)
    rw [hfates] at hrest
    rw [flood_cons, Topology.fates, List.count_cons]
    simp only [Pool.after, ← Multiset.coe_add, ← add_assoc] at hstep hrest ⊢
    rw [hrest, hstep]
    by_cases hq : q = p
    · simp only [hq, if_true, true_and, beq_iff_eq]
      omega
    · simp [hq]

theorem flood_live (ports : List Nat) (q : Nat) :
    ((CudaBridgeNetDevice.flood topo s p src dst ts ports).1.packet q).ready =
      ((s.packet q).ready && !(q = p && .released ∈ topo.fates p s ports)) := by
  induction ports generalizing s with
  | nil => simp [CudaBridgeNetDevice.flood, Topology.fates]
  | cons d ports ih =>
    have hfates := topo.fates_congr (sendFrom_tx topo s d p src dst ts) p ports
    rw [flood_cons]
    simp only
    rw [ih, hfates, sendFrom_live, Topology.fates]
    by_cases hq : q = p
    · simp [hq, eq_comm, Bool.and_assoc]
    · simp [hq]

variable {s p} in
theorem flood_settle {ports : List Nat} {pending : Multiset EventArgs}
    (h : InHand p (Pool.live ⟨s, pending⟩) (Pool.holds ⟨s, pending⟩))
    (hready : (s.packet p).ready = true) (hsettles : topo.Settles s p ports) :
    (Pool.after pending (CudaBridgeNetDevice.flood topo s p src dst ts ports)).Owned := by
  have hholds := flood_holds topo s p src dst ts ports pending
  have hlive := flood_live topo s p src dst ts ports
  have hp (site : Site) :
      (Pool.after pending (CudaBridgeNetDevice.flood topo s p src dst ts ports)).holds site p =
        (topo.fates p s ports).count (.kept site) := by
    rw [hholds, h.nobody, if_pos rfl, Nat.zero_add]
  refine h.settle ?_ (fun q hq => ?_) fun site q hq => ?_
  · rcases hsettles with ⟨hone, hnone⟩ | ⟨hzero, hsome⟩
    · refine ⟨fun _ => ?_, fun hfree => ?_⟩
      · simpa only [hp] using Fate.sole_of_countP hone
      · simp [Pool.live, Pool.after, hlive, hready, hnone] at hfree
    · refine ⟨fun htrue => ?_, fun _ site => (hp site).trans (Fate.count_kept_of_none hzero site)⟩
      simp [Pool.live, Pool.after, hlive, hsome] at htrue
  · simp [Pool.live, Pool.after, hlive, hq]
  · simp [hholds, hq]

end SendFrom

/-- The packet is put in the delivery queue, or released because that is full. -/
def Topology.Delivers (topo : Topology) (s : Net) (d p : Nat) : Prop :=
  let l3 := topo.stack (topo.device d).ipv4
  ∀ itf, (l3.getInterfaceForDevice d).bind l3.getInterface = some itf →
    itf.isUp = true ∧ ∀ k, l3.endPointSocket = some k → s.Accepts topo k p

/-- The handler takes no path that leaves the packet without an owner or with two. -/
def Net.Clean (s : Net) (topo : Topology) (w : Task) : Prop :=
  match w.ev.type with
  | .send =>
    s.Sending topo w.ev.obj →
      ∀ p, s.claim w.tid = some p →
        topo.Settles s p ((topo.egress (topo.client w.ev.obj).socket).toList.map Prod.fst)
  | .transmitComplete =>
    (s.tx w.ev.obj).busy = true → (s.tx w.ev.obj).queue ≠ [] →
      (topo.channelOf w.ev.obj).initialized = true
  | .receive =>
    ∀ p, w.ev.payload = some p →
      match (topo.device w.ev.obj).bridge with
      | some b =>
        topo.Settles s p (s.outPorts topo b w.ev.obj ((s.packet p).stripLinkHeader w.locals).2.2
          ((s.packet p).stripLinkHeader w.locals).2.1)
      | none => topo.Delivers s w.ev.obj p

section Handlers
variable {topo : Topology} {s s' : Net} {pending : Multiset EventArgs} {ts : Nat} {l : Locals}
  {out : List EventArgs}

theorem Pool.Owned.of_cons {a : EventArgs} (h : Pool.Owned ⟨s, a ::ₘ pending⟩)
    (ha : ∀ p, Pool.refersTo p a = false) : Pool.Owned ⟨s, pending⟩ :=
  Custody.Owned.congr h (fun _ => rfl) fun site p => (Pool.holds_cons (ha p) site).symm

theorem Pool.Owned.cons {a : EventArgs} (h : Pool.Owned ⟨s, pending⟩)
    (ha : ∀ p, Pool.refersTo p a = false) : Pool.Owned ⟨s, a ::ₘ pending⟩ :=
  Custody.Owned.congr h (fun _ => rfl) fun site p => Pool.holds_cons (ha p) site

theorem claim_free {tid p : Nat} (h : s.claim tid = some p) : (s.packet p).ready = false := by
  simpa using List.find?_some h

theorem elpSend_owned {c tid : Nat} (h : Pool.Owned ⟨s, pending⟩)
    (hout : CudaUdpClient.elpSend topo s c tid l ts = some (s', out))
    (hclean : s.Sending topo c → ∀ p, s.claim tid = some p →
      topo.Settles s p ((topo.egress (topo.client c).socket).toList.map Prod.fst)) :
    (Pool.after pending (s', out)).Owned := by
  by_cases hsend : s.Sending topo c
  · obtain ⟨p, pk, n, total, hp, hready, _, rfl, rfl⟩ := elpSend_sending hsend hout
    have hhand : InHand p (Pool.live ⟨s.setPacket p pk, pending⟩)
        (Pool.holds ⟨s.setPacket p pk, pending⟩) :=
      Custody.Owned.claim h (claim_free hp) (fun q hq => by simp [Pool.live, hq]) fun _ _ => rfl
    have hemit : (Pool.after pending
        (topo.emit (topo.client c).socket (s.setPacket p pk) p ts)).Owned := by
      unfold Topology.emit
      have hsettles := hclean hsend p hp
      cases hegress : topo.egress (topo.client c).socket with
      | none => simp [hegress, Topology.Settles, Topology.fates] at hsettles
      | some e =>
        obtain ⟨d, mac⟩ := e
        rw [hegress] at hsettles
        simp only
        rw [← flood_singleton]
        exact flood_settle topo _ mac ts hhand (by simpa using hready) (hsettles.congr rfl)
    have hnot (q : Nat) : Pool.refersTo q ((topo.client c).next c ts) = false := rfl
    refine Custody.Owned.congr hemit (fun _ => rfl) fun site q => ?_
    cases site with
    | pending => simp [Pool.holds, Pool.after, hnot]
    | queue d => rfl
    | delivery k => rfl
  · rw [elpSend_idle hsend] at hout
    obtain ⟨rfl, rfl⟩ := Prod.mk.inj (Option.some.inj hout)
    simpa [Pool.after] using h

theorem dTransmitComplete_owned {d : Nat} (h : Pool.Owned ⟨s, pending⟩)
    (hclean : (s.tx d).busy = true → (s.tx d).queue ≠ [] →
      (topo.channelOf d).initialized = true) :
    (Pool.after pending (CudaNetDevice.dTransmitComplete topo s d ts)).Owned := by
  cases hbusy : (s.tx d).busy with
  | false =>
    rw [dTransmitComplete_ready topo ts hbusy]
    simpa [Pool.after] using h
  | true =>
    cases hq : (s.tx d).queue with
    | nil =>
      rw [dTransmitComplete_nil topo ts hbusy hq]
      refine Custody.Owned.congr h (fun _ => rfl) fun site p => ?_
      cases site with
      | pending => simp [Pool.holds, Pool.after]
      | queue e =>
        by_cases he : e = d
        · subst he
          simp [Pool.holds, Pool.after, hq]
        · simp [Pool.holds, Pool.after, he]
      | delivery k => rfl
    | cons p rest =>
      have hlive : Pool.live ⟨s, pending⟩ p = true :=
        Custody.Owned.live_of_held h (i := Site.queue d) (by simp [Pool.holds, hq])
      have hready : (s.packet p).ready = true := hlive
      have hhand : InHand p (Pool.live ⟨s.setTx d ⟨true, rest⟩, pending⟩)
          (Pool.holds ⟨s.setTx d ⟨true, rest⟩, pending⟩) := by
        refine Custody.Owned.take h (i := .queue d) (fun _ _ => rfl) fun site q => ?_
        cases site with
        | pending => simp [Pool.holds]
        | queue e =>
          by_cases he : e = d
          · subst he
            simp [Pool.holds, hq, count_cons_eq]
          · simp [Pool.holds, he]
        | delivery k => simp [Pool.holds]
      have hinit := hclean hbusy (by simp [hq])
      rw [dTransmitComplete_next topo ts hbusy hq hready]
      refine hhand.place (i := .pending) hready (fun _ _ => rfl) fun site q => ?_
      cases site with
      | pending => simp [Pool.holds, Pool.after, countP_transmission, hinit]
      | queue e => simp [Pool.holds, Pool.after]
      | delivery k => simp [Pool.holds, Pool.after]

theorem release_owned {p : Nat} (h : InHand p (Pool.live ⟨s, pending⟩) (Pool.holds ⟨s, pending⟩)) :
    Pool.Owned ⟨s.release p, pending⟩ := by
  have hlive : Pool.live ⟨s.release p, pending⟩ p = false := by
    simp [Pool.live, Net.release, CudaPacket.release]
  refine h.settle ⟨fun htrue => ?_, fun _ => h.nobody⟩ (fun q hq => ?_) fun _ _ _ => rfl
  · rw [hlive] at htrue
    exact absurd htrue Bool.false_ne_true
  · simp [Pool.live, Net.release, hq]

theorem handleRead_owned (h : Pool.Owned ⟨s, pending⟩) (k v : Nat) :
    Pool.Owned ⟨CudaSocket.handleRead k v s, pending⟩ := by
  cases hq : s.deliveryQueue k with
  | nil => rwa [handleRead_nil hq]
  | cons q rest =>
    rw [handleRead_cons hq]
    refine release_owned (Custody.Owned.take h (i := Site.delivery k) (fun _ _ => rfl) ?_)
    intro site p
    cases site with
    | pending => simp [Pool.holds]
    | queue d => simp [Pool.holds]
    | delivery e =>
      by_cases he : e = k
      · subst he
        simp [Pool.holds, hq, count_cons_eq]
      · simp [Pool.holds, he]

theorem forwardPacket_owned {k p : Nat}
    (h : InHand p (Pool.live ⟨s, pending⟩) (Pool.holds ⟨s, pending⟩))
    (hready : (s.packet p).ready = true) (haccepts : s.Accepts topo k p)
    (hout : CudaSocket.forwardPacket topo k s p = some s') : Pool.Owned ⟨s', pending⟩ := by
  by_cases hfull : deliveryQueueCapacity ≤ (s.deliveryQueue k).length
  · rw [forwardPacket_full haccepts hfull] at hout
    obtain rfl := Option.some.inj hout
    exact release_owned h
  · rw [forwardPacket_room haccepts (Nat.not_le.mp hfull)] at hout
    obtain ⟨v, _, rfl⟩ := Option.map_eq_some_iff.mp hout
    apply handleRead_owned
    -- the packet is in the delivery queue until the server fetches the oldest one
    refine h.place (i := .delivery k) hready (fun _ _ => rfl) fun site q => ?_
    cases site with
    | pending => simp [Pool.holds]
    | queue d => simp [Pool.holds]
    | delivery e =>
      by_cases he : e = k
      · subst he
        simp [Pool.holds, count_cons_eq]
      · simp [Pool.holds, he]

theorem dReceive_owned {a : EventArgs} {p : Nat} (ha : a.type = .receive)
    (hp : a.payload = some p) (h : Pool.Owned ⟨s, a ::ₘ pending⟩)
    (hclean : match (topo.device a.obj).bridge with
      | some b =>
        topo.Settles s p (s.outPorts topo b a.obj ((s.packet p).stripLinkHeader l).2.2
          ((s.packet p).stripLinkHeader l).2.1)
      | none => topo.Delivers s a.obj p)
    (hout : CudaNetDevice.dReceive topo s a.obj p l ts = some (s', out)) :
    (Pool.after pending (s', out)).Owned := by
  have hrefers (q : Nat) : Pool.refersTo q a = true ↔ q = p := by
    simp [Pool.refersTo, ha, hp, eq_comm]
  have hlive : Pool.live ⟨s, a ::ₘ pending⟩ p = true := by
    apply Custody.Owned.live_of_held h (i := Site.pending)
    simp [Pool.holds, hrefers]
  have hready : (s.packet p).ready = true := hlive
  have hhand (pk : CudaPacket) : InHand p (Pool.live ⟨s.setPacket p pk, pending⟩)
      (Pool.holds ⟨s.setPacket p pk, pending⟩) := by
    refine Custody.Owned.take h (i := Site.pending) (fun q hq => ?_) fun site q => ?_
    · simp [Pool.live, hq]
    · cases site with
      | pending => simp [Pool.holds, Multiset.countP_cons, hrefers]
      | queue d => simp [Pool.holds]
      | delivery k => simp [Pool.holds]
  cases hb : (topo.device a.obj).bridge with
  | some b =>
    rcases hpk : (s.packet p).stripLinkHeader l with ⟨pk, dst, src⟩
    have hpkr : pk.ready = true := by
      have := CudaPacket.stripLinkHeader_ready (s.packet p) l
      rwa [hpk, hready] at this
    rw [dReceive_bridge hready hb hpk] at hout
    simp only [hb, hpk] at hclean
    obtain hout := Option.some.inj hout
    rw [← hout]
    exact flood_settle topo src dst ts ((hhand pk).congr (fun _ _ => rfl) fun site _ => by
      cases site <;> rfl) (by simpa using hpkr) (hclean.congr rfl)
  | none =>
    rw [hb] at hclean
    let l3 := topo.stack (topo.device a.obj).ipv4
    cases hitf : (l3.getInterfaceForDevice a.obj).bind l3.getInterface with
    | none =>
      rw [dReceive_host hready hb] at hout
      simp [CudaIpv4L3Protocol.dReceive, hitf, l3] at hout
    | some itf =>
      obtain ⟨hup, haccepts⟩ := hclean itf hitf
      cases hk : l3.endPointSocket with
      | none =>
        rw [dReceive_host hready hb] at hout
        simp [CudaIpv4L3Protocol.dReceive, CudaIpv4L3Protocol.dLocalDeliver, hitf, hup, hk,
          l3] at hout
      | some k =>
        rw [dReceive_delivered hready hb hitf hup hk] at hout
        obtain ⟨t, ht, heq⟩ := Option.map_eq_some_iff.mp hout
        obtain ⟨rfl, rfl⟩ := Prod.mk.inj heq
        have howned : Pool.Owned ⟨t, pending⟩ :=
          forwardPacket_owned (hhand _) (by simpa using hready)
            (by simpa [Net.Accepts] using haccepts k hk) ht
        simpa [Pool.after] using howned

end Handlers

/-- The handler of the pending event `w.ev` runs, with the configuration as it is then, or
the host schedules an event, which is never a receive. -/
inductive Pool.Step (Allowed : Topology → Net → Task → Prop) : Pool → Pool → Prop
  | handle {topo : Topology} {s : Net} {w : Task} {pending : Multiset EventArgs} {r : Fired} :
      Allowed topo s w → cudaProcessOneEvent topo s w = some r →
      Step Allowed ⟨s, w.ev ::ₘ pending⟩ (.after pending r)
  | schedule {s : Net} {pending : Multiset EventArgs} {a : EventArgs} :
      a.type ≠ .receive → Step Allowed ⟨s, pending⟩ ⟨s, a ::ₘ pending⟩

theorem refersTo_of_ne {a : EventArgs} (h : a.type ≠ .receive) (p : Nat) :
    Pool.refersTo p a = false := by simp [Pool.refersTo, h]

theorem owned_step {x y : Pool} (h : x.Owned)
    (hstep : Pool.Step (fun topo s w => s.Clean topo w) x y) : y.Owned := by
  cases hstep with
  | @handle topo s w pending r hclean hrun =>
    obtain ⟨s', out⟩ := r
    unfold cudaProcessOneEvent at hrun
    unfold Net.Clean at hclean
    cases htype : w.ev.type with
    | send =>
      simp only [htype] at hrun hclean
      exact elpSend_owned (h.of_cons (refersTo_of_ne (by simp [htype]))) hrun hclean
    | transmitComplete =>
      simp only [htype, Option.some.injEq] at hrun hclean
      rw [← hrun]
      exact dTransmitComplete_owned (h.of_cons (refersTo_of_ne (by simp [htype]))) hclean
    | receive =>
      simp only [htype, Option.bind_eq_some_iff] at hrun hclean
      obtain ⟨p, hp, hrun⟩ := hrun
      exact dReceive_owned htype hp h (hclean p hp) hrun
  | schedule htype => exact h.cons (refersTo_of_ne htype)

theorem elpSend_spins {topo : Topology} {s : Net} {c tid : Nat} {l : Locals} {ts : Nat}
    (h : CudaUdpClient.elpSend topo s c tid l ts = none) :
    ∀ i < maxPacketPerThread, (s.packet (tid * maxPacketPerThread + i)).ready = true := by
  by_cases hsend : s.Sending topo c
  · have hclaim : s.claim tid = none := by
      obtain ⟨hstop, hcount⟩ := hsend
      simpa [CudaUdpClient.elpSend, hstop, Nat.not_le.mpr hcount] using h
    intro i hi
    have hslot := List.find?_eq_none.mp hclaim (tid * maxPacketPerThread + i)
      (List.mem_map.mpr ⟨i, List.mem_range.mpr hi, rfl⟩)
    simpa using hslot
  · rw [elpSend_idle hsend] at h
    contradiction

def Pool.start : Pool := ⟨.start, 0⟩

theorem owned_start : Pool.start.Owned := by
  intro p
  refine ⟨fun hlive => ?_, fun _ site => ?_⟩
  · exact absurd hlive Bool.false_ne_true
  · cases site <;> rfl

abbrev Pool.CleanRun : Pool → Pool → Prop :=
  Relation.ReflTransGen (Pool.Step fun topo s w => s.Clean topo w)

theorem owned_run {x : Pool} (h : Pool.CleanRun .start x) : x.Owned :=
  run_invariant (P := Pool.Owned) (fun _ _ hx => owned_step hx) owned_start h

/-- As long as the handlers are clean, a slot is in use exactly if there is one reference to
it, there is none to a free slot, and the claiming loop spins on slots that are all referred to. -/
theorem slots_conserved {x : Pool} (h : Pool.CleanRun .start x) :
    (∀ p, (x.live p = true ↔ Sole fun site => x.holds site p) ∧
      (x.live p = false → ∀ site, x.holds site p = 0)) ∧
    ∀ topo w, w.ev.type = .send → cudaProcessOneEvent topo x.net w = none →
      ∀ i < maxPacketPerThread, Sole fun site => x.holds site (w.tid * maxPacketPerThread + i) := by
  have howned := owned_run h
  refine ⟨fun p => ⟨(howned p).live_iff, (howned p).free⟩, fun topo w htype hspin i hi => ?_⟩
  apply (howned _).sole
  simp only [cudaProcessOneEvent, htype] at hspin
  exact elpSend_spins hspin i hi

theorem slots_conserved_after_send :
    ∃ x : Pool, Pool.CleanRun .start x ∧ x.live 0 = true ∧ Sole fun site => x.holds site 0 := by
  have hrun : ∃ s' out, cudaProcessOneEvent (.twoHosts 2000) .start (.firstSend 0) =
      some (s', out) ∧
      (s'.packet 0).ready = true := ⟨_, _, rfl, rfl⟩
  obtain ⟨s', out, hrun, hready⟩ := hrun
  have hclean : Net.start.Clean (.twoHosts 2000) (.firstSend 0) := by
    intro _ p _
    have hkept : Fate.released ∉ [Fate.kept .pending] := by decide
    exact .inl ⟨rfl, hkept⟩
  have hsteps : Pool.CleanRun .start (.after 0 (s', out)) :=
    .tail (.single (.schedule (by decide))) (.handle hclean hrun)
  exact ⟨_, hsteps, hready, ((slots_conserved hsteps).1 0).1.mp hready⟩

def Topology.unresolved : Topology :=
  { Topology.twoHosts 2000 with stack n := ⟨[⟨0, 0, 0, 0⟩], [⟨n, true, []⟩], some 2⟩ }

/-- The packet of a send without an ARP entry stays in use and is referred to by nobody. -/
theorem unresolved_send_leaks :
    ∃ x : Pool, Relation.ReflTransGen (Pool.Step fun _ _ _ => True) .start x ∧
      x.live 0 = true ∧ ∀ site, x.holds site 0 = 0 := by
  have hrun : ∃ s' out, cudaProcessOneEvent .unresolved .start (.firstSend 0) = some (s', out) ∧
      (s'.packet 0).ready = true ∧ ∀ site, (Pool.after 0 (s', out)).holds site 0 = 0 := by
    refine ⟨_, _, rfl, rfl, fun site => ?_⟩
    cases site <;> rfl
  obtain ⟨s', out, hrun, hready, hholds⟩ := hrun
  exact ⟨_, .tail (.single (.schedule (by decide))) (.handle trivial hrun), hready, hholds⟩

end CudaNs3.Device
