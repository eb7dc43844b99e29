import Mathlib.Data.List.Basic
import CudaNs3.Lib.DistanceVectors
import CudaNs3.Lib.Transition
import CudaNs3.Internet.RipNetwork

/-!
# Metrics and distances in a network of RIP routers

A router has a route to a network only where a path shorter than infinity leads there, and the
metric of the route is at least the cost of this path. The same holds of what a router sends,
at any later time. A route whose metric is the distance leads to a router closer to the network.
-/

namespace CudaNs3.Internet

set_option autoImplicit false

namespace Rip

/-! ## What holds of every route of a table -/

section Holds
variable {P : RipRoutingTableEntry → Prop} {s t : Rip} {now ptr : Nat}

def Holds (P : RipRoutingTableEntry → Prop) (s : Rip) : Prop := ∀ x ∈ s.routes, P x.entry

/-- The route as it is when it has become invalid. -/
def lost (down : Nat) (e : RipRoutingTableEntry) : RipRoutingTableEntry :=
  { e with status := .ripInvalid, metric := down, changed := true }

/-- One table comes from another by steps that keep what holds of every route. -/
structure Keeps (P : RipRoutingTableEntry → Prop) (s t : Rip) : Prop where
  attributes : t.attributes = s.attributes
  holds : s.Holds P → t.Holds P

theorem Keeps.refl (P : RipRoutingTableEntry → Prop) (s : Rip) : Keeps P s s := ⟨rfl, id⟩

theorem Keeps.trans {u : Rip} (h : Keeps P s t) (h' : Keeps P t u) : Keeps P s u :=
  ⟨h'.attributes.trans h.attributes, fun hs => h'.holds (h.holds hs)⟩

theorem Keeps.linkDown (h : Keeps P s t) : t.linkDown = s.linkDown := by
  rw [Rip.linkDown, Rip.linkDown, h.attributes]

theorem holds_reissue {entry : RipRoutingTableEntry} (h : s.Holds P) (hentry : P entry) (r : Route)
    (ts : Nat) (call : RouteCall) : (s.reissue r ptr entry ts call).Holds P := by
  intro x hx
  obtain ⟨y, hy, rfl⟩ := List.mem_map.mp hx
  split
  · exact hentry
  · exact h y hy

theorem findRoute_mem {r : Route} (h : s.findRoute ptr = some r) : r ∈ s.routes :=
  List.mem_of_find?_eq_some h

theorem invalidateRoute_keeps (hlost : ∀ e, P e → P (lost s.linkDown e))
    (h : s.invalidateRoute now ptr = some t) : Keeps P s t := by
  obtain ⟨r, hr, rfl⟩ := Option.map_eq_some_iff.mp h
  have hmod : s.linkDown % 256 = s.linkDown := Nat.mod_eq_of_lt s.attributes.linkDown_lt
  refine ⟨rfl, fun hs => holds_reissue hs ?_ r _ _⟩
  rw [RipRoutingTableEntry.setRouteStatus_eq, RipRoutingTableEntry.setRouteMetric_eq,
    RipRoutingTableEntry.setRouteChanged, hmod]
  exact hlost r.entry (hs r (findRoute_mem hr))

theorem fire_keeps {e : RouteEvent} (hlost : ∀ e, P e → P (lost s.linkDown e))
    (h : s.fire now e = some t) : Keeps P s t := by
  have hcancel : Keeps P s (s.cancel (some e.uid)) := ⟨rfl, id⟩
  unfold fire at h
  cases hcall : e.call with
  | invalidateRoute =>
    rw [hcall] at h
    exact hcancel.trans (invalidateRoute_keeps hlost h)
  | deleteRoute =>
    rw [hcall] at h
    obtain ⟨r, hr, rfl⟩ := Option.map_eq_some_iff.mp h
    exact ⟨rfl, fun hs x hx => hs x (List.mem_of_mem_eraseP hx)⟩

theorem doSendRouteUpdate_keeps (hmark : ∀ e, P e → P (e.setRouteChanged false)) (periodic : Bool)
    (sockets : List SendingSocket) : Keeps P s (s.doSendRouteUpdate periodic sockets).1 := by
  refine ⟨rfl, ?_⟩
  intro hs x hx
  obtain ⟨y, hy, rfl⟩ := List.mem_map.mp hx
  exact hmark y.entry (hs y hy)

theorem addNetworkRoutes_keeps {interface : Nat} {addresses : List Ipv4InterfaceAddress}
    (hlocal : ∀ a ∈ addresses, a.scope = .global →
      P { destNetwork := a.networkAddress, destNetworkMask := a.mask, gateway := 0,
          interface := interface, metric := 1, status := .ripValid, changed := true }) :
    Keeps P s (s.addNetworkRoutes interface addresses) := by
  induction addresses generalizing s with
  | nil => exact Keeps.refl P s
  | cons a addresses ih =>
    obtain ⟨ha, hrest⟩ := List.forall_mem_cons.mp hlocal
    rw [addNetworkRoutes]
    split
    · rename_i hscope
      have hadd : Keeps P s (s.addNetworkRouteTo a.networkAddress a.mask interface) := by
        refine ⟨rfl, ?_⟩
        intro hs x hx
        rcases List.mem_append.mp hx with hx | hx
        · exact hs x hx
        · obtain rfl := List.mem_singleton.mp hx
          rw [RipRoutingTableEntry.setRouteStatus_eq, RipRoutingTableEntry.setRouteMetric_eq]
          exact ha hscope
      exact hadd.trans (ih hrest)
    · exact ih hrest

/-- What a response does to the routes: a revision of a route to its network, or a new one. -/
structure Admits (P : RipRoutingTableEntry → Prop) (s : Rip) (rte : RipRte) (metric : Nat)
    (sender : Ipv4Address) (interface : Nat) : Prop where
  lost : ∀ e, P e → P (lost s.linkDown e)
  revised : ∀ e, P e → e.leadsTo (rte.network.combineMask rte.subnetMask) rte.subnetMask = true →
    ∀ left replace entry changed,
      revise s.attributes rte metric sender interface left e = .renew replace entry changed → P entry
  new : metric ≠ s.linkDown →
    P ((((newRoute rte sender interface).setRouteMetric metric).setRouteStatus
      .ripValid).setRouteChanged true)

variable {rte : RipRte} {metric interface : Nat} {sender : Ipv4Address}

theorem Admits.congr (h : Admits P s rte metric sender interface)
    (ha : t.attributes = s.attributes) : Admits P t rte metric sender interface := by
  have hdown : t.linkDown = s.linkDown := by rw [linkDown, linkDown, ha]
  constructor
  · rw [hdown]
    exact h.lost
  · rw [ha]
    exact h.revised
  · rw [hdown]
    exact h.new

theorem applyRevision_keeps {r : Route} {left : Nat} {u : Rip × Bool} (hr : r ∈ s.routes)
    (hmatch : r.entry.leadsTo (rte.network.combineMask rte.subnetMask) rte.subnetMask = true)
    (ha : Admits P s rte metric sender interface)
    (h : s.applyRevision now r (revise s.attributes rte metric sender interface left r.entry) =
      some u) : Keeps P s u.1 := by
  cases hrev : revise s.attributes rte metric sender interface left r.entry with
  | keep =>
    rw [hrev] at h
    obtain rfl := Option.some.inj h
    exact Keeps.refl P s
  | renew replace entry changed =>
    rw [hrev] at h
    have hentry (hs : s.Holds P) : P entry :=
      ha.revised r.entry (hs r hr) hmatch left replace entry changed hrev
    cases replace with
    | false =>
      obtain rfl := Option.some.inj h
      exact ⟨rfl, fun hs => holds_reissue hs (hentry hs) r (now + s.attributes.timeoutDelay)
        .invalidateRoute⟩
    | true =>
      obtain rfl := Option.some.inj h
      exact ⟨rfl, fun hs => holds_reissue hs (hentry hs) r (now + s.attributes.timeoutDelay)
        .invalidateRoute⟩
  | invalidate =>
    rw [hrev] at h
    obtain ⟨v, hv, rfl⟩ := Option.map_eq_some_iff.mp h
    have hcancel : Keeps P s (s.cancel r.event) := ⟨rfl, id⟩
    exact hcancel.trans (invalidateRoute_keeps ha.lost hv)

theorem scanRoutes_keeps {ptrs : List Nat} {found changed : Bool} {u : Rip × Bool × Bool}
    (ha : Admits P s rte metric sender interface)
    (h : scanRoutes now rte metric sender interface ptrs (s, found, changed) = some u) :
    Keeps P s u.1 := by
  induction ptrs generalizing s found changed with
  | nil =>
    obtain rfl := Option.some.inj h
    exact Keeps.refl P s
  | cons p ptrs ih =>
    rw [scanRoutes] at h
    cases hf : s.findRoute p with
    | none =>
      rw [hf] at h
      exact ih ha h
    | some r =>
      rw [hf] at h
      dsimp only at h
      split at h
      · rename_i hmatch
        obtain ⟨v, hv, hrest⟩ := Option.bind_eq_some_iff.mp h
        have hkeeps := applyRevision_keeps (findRoute_mem hf) hmatch ha hv
        exact hkeeps.trans (ih (ha.congr hkeeps.attributes) hrest)
      · exact ih ha h

theorem processRte_keeps {u : Rip × Bool}
    (ha : Admits P s rte (s.rteMetric rte interface) sender interface)
    (h : s.processRte now sender interface rte = some u) : Keeps P s u.1 := by
  obtain ⟨v, hv, rfl⟩ := Option.map_eq_some_iff.mp h
  have hkeeps := scanRoutes_keeps ha hv
  dsimp only
  split
  · rename_i hnew
    rw [Bool.and_eq_true, decide_eq_true_eq, hkeeps.linkDown] at hnew
    refine ⟨hkeeps.attributes, ?_⟩
    intro hs x hx
    rcases List.mem_cons.mp hx with rfl | hx
    · exact ha.new hnew.2
    · exact hkeeps.holds hs x hx
  · exact hkeeps

theorem handleResponses_keeps {rtes : List RipRte}
    (ha : ∀ rte ∈ rtes, Admits P s rte (s.rteMetric rte interface) sender interface)
    (h : s.handleResponses now rtes sender interface = some t) : Keeps P s t := by
  have hall : ∀ (rtes : List RipRte) (u v : Rip × Bool), u.1.attributes = s.attributes →
      (∀ rte ∈ rtes, Admits P s rte (s.rteMetric rte interface) sender interface) →
      processRtes now sender interface rtes u = some v → Keeps P u.1 v.1 := by
    intro rtes
    induction rtes with
    | nil =>
      intro u v _ _ hv
      obtain rfl := Option.some.inj hv
      exact Keeps.refl P _
    | cons rte rtes ih =>
      intro u v hattr ha hv
      obtain ⟨w, hw, hrest⟩ := Option.bind_eq_some_iff.mp hv
      have hmetric : u.1.rteMetric rte interface = s.rteMetric rte interface := by
        rw [rteMetric, rteMetric, interfaceMetric, interfaceMetric, linkDown, linkDown, hattr]
      have hrte := (ha rte List.mem_cons_self).congr hattr
      rw [← hmetric] at hrte
      have hkeeps := processRte_keeps hrte hw
      exact hkeeps.trans (ih (w.1, u.2 || w.2) v (hkeeps.attributes.trans hattr)
        (fun x hx => ha x (List.mem_cons_of_mem rte hx)) hrest)
  unfold handleResponses at h
  split at h
  · obtain rfl := Option.some.inj h
    exact Keeps.refl P s
  split at h
  · obtain ⟨v, hv, rfl⟩ := Option.map_eq_some_iff.mp h
    have hkeeps := hall rtes (s, false) v rfl ha hv
    dsimp only
    split
    · exact ⟨hkeeps.attributes, hkeeps.holds⟩
    · exact hkeeps
  · obtain rfl := Option.some.inj h
    exact Keeps.refl P s

end Holds

/-! ## What is sent -/

theorem mem_fillHeaders {limit : Nat} {rtes : List (Option RipRte)} {header header' : List RipRte}
    {rte : RipRte} (hheader : header ∈ fillHeaders limit rtes header') (hrte : rte ∈ header) :
    some rte ∈ rtes ∨ rte ∈ header' := by
  induction rtes generalizing header' with
  | nil =>
    rw [fillHeaders] at hheader
    split at hheader
    · rw [List.mem_singleton.mp hheader] at hrte
      exact Or.inr hrte
    · cases hheader
  | cons o rtes ih =>
    rw [fillHeaders] at hheader
    have hstep : rte ∈ header' ++ o.toList → some rte ∈ o :: rtes ∨ rte ∈ header' := by
      intro h
      rcases List.mem_append.mp h with h | h
      · exact Or.inr h
      · exact Or.inl (List.mem_cons.mpr (Or.inl (Option.mem_toList.mp h).symm))
    split at hheader
    · rcases List.mem_cons.mp hheader with rfl | hheader
      · exact hstep hrte
      · rcases ih hheader with h | h
        · exact Or.inl (List.mem_cons_of_mem o h)
        · cases h
    · rcases ih hheader with h | h
      · exact Or.inl (List.mem_cons_of_mem o h)
      · exact hstep h

end Rip
namespace RipNetwork
open Rip DistanceVector
variable {Router Link : Type} (t : Topology Router Link)

/-! ## The real distances -/

abbrev Destination := Ipv4Address × Ipv4Mask

/-- The router has an address in the network. -/
def own (r : Router) (n : Destination) : Prop :=
  ∃ i ∈ t.interfaces r, ∃ a ∈ t.addresses r i,
    a.scope = .global ∧ (a.networkAddress, a.mask) = n

/-- The routers have interfaces on one link; the metric is that of the first one's interface. -/
def hop (r r' : Router) (d : Nat) : Prop :=
  ∃ i ∈ t.interfaces r, ∃ i' ∈ t.interfaces r', t.link r i = t.link r' i' ∧
    d = ((t.attributes r).interfaceMetrics i).getD 1

/-- Where a route leads. -/
def destination (e : RipRoutingTableEntry) : Destination := (e.destNetwork, e.destNetworkMask)

def rteDestination (rte : RipRte) : Destination := (rte.network, rte.subnetMask)

def linkDown (r : Router) : Nat := (t.attributes r).linkDown

/-- A path bears the route out, and it leads towards the network when its metric is finite. -/
structure Sound (r : Router) (e : RipRoutingTableEntry) : Prop where
  network : e.destNetwork.combineMask e.destNetworkMask = e.destNetwork
  path : ∃ c, Path (own t) (hop t) r (destination e) c ∧ c < linkDown t r ∧ c ≤ e.metric
  closer : e.metric < linkDown t r → e.gateway ≠ 0 → ∀ r', hasAddress t r' e.gateway = true →
    ∃ c, Path (own t) (hop t) r' (destination e) c ∧ c < e.metric

/-- What a router may send of a network. -/
structure SoundRte (r : Router) (rte : RipRte) : Prop where
  network : rte.network.combineMask rte.subnetMask = rte.network
  path : ∃ c, Path (own t) (hop t) r (rteDestination rte) c ∧ c ≤ rte.metric

structure SoundMessage (m : RipMessage Router) : Prop where
  interface : m.interface ∈ t.interfaces m.router
  sender : hasAddress t m.router m.sender = true
  request : m.isRequest = true → ∃ metric, m.rtes = [⟨0, 0, 0, metric⟩]
  response : m.isRequest = false → ∀ rte ∈ m.rtes, SoundRte t m.router rte

structure Inv (s : RipNetwork Router) : Prop where
  attributes : ∀ r, (s.router r).attributes = t.attributes r
  routes : ∀ r, (s.router r).Holds (Sound t r)
  messages : ∀ m ∈ s.messages, SoundMessage t m

variable {t} {s : RipNetwork Router} {r r' : Router} {e : RipRoutingTableEntry} {rte : RipRte}

theorem Sound.of_eq {e' : RipRoutingTableEntry} (h : Sound t r e)
    (hdest : destination e' = destination e) (hgateway : e'.gateway = e.gateway)
    (hmetric : e'.metric = e.metric) : Sound t r e' := by
  obtain ⟨hnet, hmask⟩ := Prod.mk.inj hdest
  constructor
  · rw [hnet, hmask]
    exact h.network
  · rw [hdest, hmetric]
    exact h.path
  · rw [hdest, hmetric, hgateway]
    exact h.closer

/-- A route that is lost is at infinity, which is more than any distance. -/
theorem Sound.lost (h : Sound t r e) : Sound t r (Rip.lost (linkDown t r) e) := by
  obtain ⟨c, hpath, hlt, -⟩ := h.path
  exact ⟨h.network, ⟨c, hpath, hlt, hlt.le⟩, fun hfin => absurd hfin (Nat.lt_irrefl _)⟩

theorem eq_of_hasAddress {a : Ipv4Address} (h : hasAddress t r a = true)
    (h' : hasAddress t r' a = true) : r = r' := by
  obtain ⟨i, hi, ha⟩ := List.any_eq_true.mp h
  obtain ⟨b, hb, heq⟩ := List.any_eq_true.mp ha
  obtain ⟨i', hi', ha'⟩ := List.any_eq_true.mp h'
  obtain ⟨b', hb', heq'⟩ := List.any_eq_true.mp ha'
  apply t.address_unique r r' i hi i' hi' b hb b' hb'
  rw [of_decide_eq_true heq, of_decide_eq_true heq']

theorem one_le_interfaceMetric (t : Topology Router Link) (r : Router) (i : Nat) :
    1 ≤ ((t.attributes r).interfaceMetrics i).getD 1 := by
  cases h : (t.attributes r).interfaceMetrics i with
  | none => exact le_refl 1
  | some m => exact t.metric_pos r i m h

/-- A network of the router itself. -/
theorem sound_local (t : Topology Router Link) {i : Nat} {a : Ipv4InterfaceAddress}
    (hi : i ∈ t.interfaces r) (ha : a ∈ t.addresses r i) (hscope : a.scope = .global) :
    Sound t r { destNetwork := a.networkAddress, destNetworkMask := a.mask, gateway := 0,
                interface := i, metric := 1, status := .ripValid, changed := true } := by
  constructor
  · change a.localAddress &&& a.mask &&& a.mask = a.localAddress &&& a.mask
    rw [BitVec.and_assoc, BitVec.and_self]
  · exact ⟨1, Path.own ⟨i, hi, a, ha, hscope, rfl⟩, (t.attributes r).one_lt_linkDown, le_refl 1⟩
  · exact fun _ hgateway => absurd rfl hgateway

section Response
variable {m : RipMessage Router} {interface metric : Nat}

/-- The finite metric of an RTE that a neighbour sent, plus that of the interface, is sound. -/
theorem SoundMessage.sound (hm : SoundMessage t m) (hresponse : m.isRequest = false)
    (hrte : rte ∈ m.rtes) (hinterface : interface ∈ t.interfaces r)
    (hlink : t.link r interface = t.link m.router m.interface)
    (hmetric : metric = rte.metric + ((t.attributes r).interfaceMetrics interface).getD 1)
    (hlt : metric < linkDown t r)
    (hdest : destination e = (rte.network.combineMask rte.subnetMask, rte.subnetMask))
    (hgateway : e.gateway = m.sender) (hentry : e.metric = metric) : Sound t r e := by
  obtain ⟨hnetwork, c, hpath, hle⟩ := hm.response hresponse rte hrte
  have hone := one_le_interfaceMetric t r interface
  rw [hnetwork] at hdest
  obtain ⟨hnet, hmask⟩ := Prod.mk.inj hdest
  have hhop : hop t r m.router (((t.attributes r).interfaceMetrics interface).getD 1) :=
    ⟨interface, hinterface, m.interface, hm.interface, hlink, rfl⟩
  constructor
  · rw [hnet, hmask]
    exact hnetwork
  · rw [hdest]
    exact ⟨_, Path.hop hhop hpath, by omega, by omega⟩
  · intro _ _ r' haddress
    rw [hgateway] at haddress
    rw [← eq_of_hasAddress hm.sender haddress, hdest]
    exact ⟨c, hpath, by omega⟩

/-- The metric is infinite, and a path to the network is known from an older route. -/
theorem Sound.infinite {e' : RipRoutingTableEntry} (h : Sound t r e)
    (hdest : destination e' = destination e) (hmetric : e'.metric = linkDown t r) :
    Sound t r e' := by
  have hlost := h.lost
  obtain ⟨hnet, hmask⟩ := Prod.mk.inj hdest
  constructor
  · rw [hnet, hmask]
    exact h.network
  · rw [hdest, hmetric]
    exact hlost.path
  · intro hfin
    exact absurd (hmetric ▸ hfin) (Nat.lt_irrefl _)

theorem Inv.admits (h : Inv t s) (hm : m ∈ s.messages) (hresponse : m.isRequest = false)
    (hrte : rte ∈ m.rtes) (hinterface : interface ∈ t.interfaces r)
    (hlink : t.link r interface = t.link m.router m.interface) :
    Admits (Sound t r) (s.router r) rte ((s.router r).rteMetric rte interface) m.sender
      interface := by
  have hdown : (s.router r).linkDown = linkDown t r := by
    rw [Rip.linkDown, h.attributes]
    rfl
  have hmetric : (s.router r).rteMetric rte interface =
      min (rte.metric + ((t.attributes r).interfaceMetrics interface).getD 1) (linkDown t r) := by
    rw [rteMetric, hdown, interfaceMetric, h.attributes]
  set metric := (s.router r).rteMetric rte interface with hset
  have hle : metric ≤ linkDown t r := hmetric ▸ Nat.min_le_right _ _
  have hmod : metric % 256 = metric :=
    Nat.mod_eq_of_lt (lt_of_le_of_lt hle (t.attributes r).linkDown_lt)
  have hfinite (e : RipRoutingTableEntry) (hlt : metric < linkDown t r)
      (hdest : destination e = (rte.network.combineMask rte.subnetMask, rte.subnetMask))
      (hgateway : e.gateway = m.sender) (hentry : e.metric = metric) : Sound t r e :=
    (h.messages m hm).sound hresponse hrte hinterface hlink (by omega) hlt hdest hgateway hentry
  have hupdated (e : RipRoutingTableEntry) : (updated e metric rte.tag).metric = metric ∧
      destination (updated e metric rte.tag) = destination e ∧
      (updated e metric rte.tag).gateway = e.gateway := by
    rw [updated, RipRoutingTableEntry.setRouteMetric_eq, RipRoutingTableEntry.setRouteStatus_eq,
      RipRoutingTableEntry.setRouteTag_eq, RipRoutingTableEntry.setRouteChanged, hmod]
    exact ⟨rfl, rfl, rfl⟩
  refine ⟨?_, ?_, ?_⟩
  · intro e he
    rw [hdown]
    exact he.lost
  · intro e he hmatch left replace entry changed hrev
    rw [RipRoutingTableEntry.leadsTo, Bool.and_eq_true, decide_eq_true_eq,
      decide_eq_true_eq] at hmatch
    have hdest : destination e = (rte.network.combineMask rte.subnetMask, rte.subnetMask) :=
      Prod.ext hmatch.1 hmatch.2
    -- the route is taken over from the sender, or it was the sender's already
    have htaken (e' : RipRoutingTableEntry) (hd : destination e' = destination e)
        (hg : e'.gateway = m.sender) : Sound t r (updated e' metric rte.tag) := by
      obtain ⟨hum, hud, hug⟩ := hupdated e'
      rcases hle.lt_or_eq with hlt | heq
      · exact hfinite _ hlt (hud.trans (hd.trans hdest)) (hug.trans hg) hum
      · exact he.infinite (hud.trans hd) (hum.trans heq)
    have hnew : Sound t r (updated (newRoute rte m.sender interface) metric rte.tag) :=
      htaken _ hdest.symm rfl
    unfold revise at hrev
    split at hrev
    · split at hrev
      · cases hrev
        exact hnew
      · rename_i hsender
        cases hrev
        exact htaken e rfl (not_not.mp hsender).symm
    · split at hrev
      · split at hrev
        · cases hrev
          exact he
        · split at hrev
          · cases hrev
            exact hnew
          · cases hrev
      · split at hrev
        · rename_i hsender
          split at hrev
          · cases hrev
            exact htaken e rfl hsender.symm
          · cases hrev
        · cases hrev
  · intro hne
    rw [RipRoutingTableEntry.setRouteMetric_eq, RipRoutingTableEntry.setRouteStatus_eq,
      RipRoutingTableEntry.setRouteChanged, hmod]
    rw [hdown] at hne
    exact hfinite _ (lt_of_le_of_ne hle hne) rfl rfl rfl

end Response

section Sent
variable {m : RipMessage Router}

theorem Sound.toRte (h : Sound t r e) (hattr : (s.router r).attributes = t.attributes r)
    (interface : Nat) : SoundRte t r ((s.router r).toRte interface e) := by
  obtain ⟨c, hpath, hlt, hle⟩ := h.path
  refine ⟨h.network, c, hpath, ?_⟩
  unfold Rip.toRte
  dsimp only
  split
  · rw [Rip.linkDown, hattr]
    exact hlt.le
  · exact hle

/-- The messages of an update name routes of the table only. -/
theorem Inv.update_messages (h : Inv t s) (r : Router) (periodic : Bool)
    (hm : m ∈ updateMessages r ((s.router r).doSendRouteUpdate periodic (t.sockets r)).2) :
    SoundMessage t m := by
  obtain ⟨⟨socket, rtes⟩, hin, rfl⟩ := List.mem_map.mp hm
  obtain ⟨socket', hsocket, hsent⟩ := List.mem_flatMap.mp hin
  obtain ⟨rtes', hrtes, heq⟩ := List.mem_map.mp hsent
  obtain ⟨rfl, rfl⟩ := Prod.mk.inj heq
  obtain ⟨hinterface, a, ha, haddress⟩ := t.sockets_own r socket' hsocket
  refine ⟨hinterface, ?_, nofun, ?_⟩
  · exact List.any_eq_true.mpr ⟨_, hinterface, List.any_eq_true.mpr ⟨a, ha, decide_eq_true haddress⟩⟩
  · intro _ rte hrte
    unfold Rip.updatesAt at hrtes
    split at hrtes
    · cases hrtes
    rcases mem_fillHeaders hrtes hrte with hsome | hnone
    · obtain ⟨x, hx, hxrte⟩ := List.mem_map.mp hsome
      unfold Rip.updateRte at hxrte
      dsimp only at hxrte
      split at hxrte
      · rw [← Option.some.inj hxrte]
        exact (h.routes r x hx).toRte (h.attributes r) _
      · cases hxrte
    · cases hnone

theorem Inv.table_messages (h : Inv t s) {interface : Nat} {responses : List (List RipRte)}
    {answers : List (RipMessage Router)} (hinterface : interface ∈ t.interfaces r) (limit : Nat)
    (hresponses : responses = fillHeaders limit
      ((s.router r).routes.map fun x => (s.router r).tableRte interface x.entry) [])
    (hanswers : answerMessages t r m interface (.fullTable responses) = some answers) :
    ∀ a ∈ answers, SoundMessage t a := by
  obtain ⟨socket, hfound, rfl⟩ := Option.map_eq_some_iff.mp hanswers
  have hsocket := List.mem_reverse.mp (List.mem_of_find?_eq_some hfound)
  obtain ⟨hown, b, hb, haddress⟩ := t.sockets_own r socket hsocket
  intro a ha
  obtain ⟨rtes, hrtes, rfl⟩ := List.mem_map.mp ha
  refine ⟨hinterface, ?_, nofun, ?_⟩
  · exact List.any_eq_true.mpr ⟨_, hown, List.any_eq_true.mpr ⟨b, hb, decide_eq_true haddress⟩⟩
  · intro _ rte hrte
    rw [hresponses] at hrtes
    rcases mem_fillHeaders hrtes hrte with hsome | hnone
    · obtain ⟨x, hx, hxrte⟩ := List.mem_map.mp hsome
      unfold tableRte at hxrte
      split at hxrte
      · rw [← Option.some.inj hxrte]
        exact (h.routes r x hx).toRte (h.attributes r) _
      · cases hxrte
    · cases hnone

/-- A router only asks for whole tables, so that it is only sent whole tables. -/
theorem Inv.answers (h : Inv t s) (hm : m ∈ s.messages) (hrequest : m.isRequest = true)
    {interface mtu : Nat} {answers : List (RipMessage Router)}
    (hinterface : interface ∈ t.interfaces r)
    (hanswers : answerMessages t r m interface
      ((s.router r).handleRequests m.rtes interface mtu) = some answers) :
    ∀ a ∈ answers, SoundMessage t a := by
  obtain ⟨metric, hrtes⟩ := (h.messages m hm).request hrequest
  rw [hrtes, handleRequests] at hanswers
  split at hanswers
  · exact h.table_messages hinterface (maxRte mtu) rfl hanswers
  · obtain rfl := Option.some.inj hanswers
    exact nofun

theorem Inv.sent (h : Inv t s) {messages : List (RipMessage Router)}
    (hsent : ∀ m ∈ messages, SoundMessage t m) :
    Inv t { s with messages := s.messages ++ messages } := by
  refine ⟨h.attributes, h.routes, ?_⟩
  intro m hm
  rcases List.mem_append.mp hm with hm | hm
  · exact h.messages m hm
  · exact hsent m hm

end Sent

/-! ## Next hops -/

/-- A valid route of the first router whose metric is the distance has the second as next hop. -/
def NextHop (t : Topology Router Link) (s : RipNetwork Router) (n : Destination)
    (r r' : Router) : Prop :=
  ∃ x ∈ (s.router r).routes, x.entry.status = .ripValid ∧ destination x.entry = n ∧
    Shortest (own t) (hop t) r n x.entry.metric ∧ x.entry.gateway ≠ 0 ∧
      hasAddress t r' x.entry.gateway = true

theorem Inv.closer (h : Inv t s) (n : Destination) (r r' : Router) (hnext : NextHop t s n r r') :
    ∃ c c', Shortest (own t) (hop t) r n c ∧ Shortest (own t) (hop t) r' n c' ∧ c' < c := by
  obtain ⟨x, hx, -, rfl, hshort, hgateway, haddress⟩ := hnext
  have hsound := h.routes r x hx
  obtain ⟨c₀, hpath, hlt, -⟩ := hsound.path
  have hfinite : x.entry.metric < linkDown t r := lt_of_le_of_lt (hshort.2 hpath) hlt
  obtain ⟨c, hpath', hcloser⟩ := hsound.closer hfinite hgateway r' haddress
  obtain ⟨c', hshort', hle⟩ := hpath'.exists_shortest
  exact ⟨_, c', hshort, hshort', lt_of_le_of_lt hle hcloser⟩

/-! ## Runs -/

variable [DecidableEq Router]

theorem Inv.update (h : Inv t s) (r : Router) {table : Rip} {messages : List (RipMessage Router)}
    (hkeeps : Keeps (Sound t r) (s.router r) table) (hsent : ∀ m ∈ messages, SoundMessage t m) :
    Inv t ⟨Function.update s.router r table, s.messages ++ messages⟩ := by
  constructor
  · intro r'
    dsimp only
    by_cases heq : r' = r
    · subst heq
      rw [Function.update_self, hkeeps.attributes]
      exact h.attributes r'
    · rw [Function.update_of_ne heq]
      exact h.attributes r'
  · intro r'
    dsimp only
    by_cases heq : r' = r
    · subst heq
      rw [Function.update_self]
      exact hkeeps.holds (h.routes r')
    · rw [Function.update_of_ne heq]
      exact h.routes r'
  · intro m hm
    rcases List.mem_append.mp hm with hm | hm
    · exact h.messages m hm
    · exact hsent m hm

theorem Inv.update_table (h : Inv t s) (r : Router) {table : Rip}
    (hkeeps : Keeps (Sound t r) (s.router r) table) :
    Inv t { s with router := Function.update s.router r table } := by
  have hnone : ∀ m ∈ ([] : List (RipMessage Router)), SoundMessage t m := nofun
  have hupdate := h.update r hkeeps hnone
  rw [List.append_nil] at hupdate
  exact hupdate

theorem Inv.step {u : RipNetwork Router} (h : Inv t s) (i : RipHappening Router)
    (hoccurs : Occurs t s i) (hstep : s.step t i = some u) : Inv t u := by
  have hdown (r : Router) : (s.router r).linkDown = linkDown t r := by
    rw [Rip.linkDown, h.attributes]
    rfl
  have hmark (r : Router) (e : RipRoutingTableEntry) (he : Sound t r e) :
      Sound t r (e.setRouteChanged false) := he.of_eq rfl rfl rfl
  have hquiet (r : Router) : Keeps (Sound t r) (s.router r)
      { s.router r with nextTriggeredUpdate := false } := ⟨rfl, id⟩
  cases i with
  | triggeredUpdate r =>
    obtain rfl := Option.some.inj hstep
    apply h.update r ((hquiet r).trans (doSendRouteUpdate_keeps (hmark r) false (t.sockets r)))
    exact fun m hm => h.update_messages r false hm
  | unsolicitedUpdate r =>
    obtain rfl := Option.some.inj hstep
    apply h.update r ((hquiet r).trans (doSendRouteUpdate_keeps (hmark r) true (t.sockets r)))
    exact fun m hm => h.update_messages r true hm
  | sendRouteRequest r =>
    obtain rfl := Option.some.inj hstep
    apply h.sent
    intro m hm
    obtain ⟨socket, hsocket, rfl⟩ := List.mem_map.mp hm
    obtain ⟨hinterface, a, ha, haddress⟩ := t.sockets_own r socket (List.mem_of_mem_filter hsocket)
    refine ⟨hinterface, ?_, fun _ => ⟨_, rfl⟩, nofun⟩
    exact List.any_eq_true.mpr ⟨_, hinterface, List.any_eq_true.mpr ⟨a, ha, decide_eq_true haddress⟩⟩
  | receive m r interface now =>
    obtain ⟨hm, hinterface, hlink, -⟩ := hoccurs
    unfold RipNetwork.step receive at hstep
    dsimp only at hstep
    split at hstep
    · obtain rfl := Option.some.inj hstep
      exact h
    split at hstep
    · rename_i hrequest
      obtain ⟨answers, hanswers, rfl⟩ := Option.map_eq_some_iff.mp hstep
      exact h.sent (h.answers hm hrequest hinterface hanswers)
    · rename_i hresponse
      obtain ⟨table, htable, rfl⟩ := Option.map_eq_some_iff.mp hstep
      apply h.update_table r
      apply handleResponses_keeps _ htable
      intro rte hrte
      exact h.admits hm (eq_false_of_ne_true hresponse) hrte hinterface hlink
  | fire r e now =>
    obtain ⟨table, htable, rfl⟩ := Option.map_eq_some_iff.mp hstep
    apply h.update_table r
    apply fire_keeps _ htable
    intro e he
    rw [hdown]
    exact he.lost

omit [DecidableEq Router] in
theorem Inv.start (t : Topology Router Link) : Inv t (start t) := by
  have hup (r : Router) (is : List Nat) (u : Rip) (his : ∀ i ∈ is, i ∈ t.interfaces r) :
      Keeps (Sound t r) u
        (is.foldl (fun u i => u.notifyInterfaceUp i false false (t.addresses r i)) u) := by
    induction is generalizing u with
    | nil => exact Keeps.refl _ u
    | cons i is ih =>
      obtain ⟨hi, hrest⟩ := List.forall_mem_cons.mp his
      have hadd : Keeps (Sound t r) u (u.notifyInterfaceUp i false false (t.addresses r i)) :=
        addNetworkRoutes_keeps fun a ha hscope => sound_local t hi ha hscope
      exact hadd.trans (ih _ hrest)
  have hall (r : Router) := hup r (t.interfaces r) { attributes := t.attributes r } fun _ hi => hi
  exact ⟨fun r => (hall r).attributes, fun r => (hall r).holds nofun, nofun⟩

/-- In every state that is reached no metric undercuts the distance, and following next hops of
routes whose metrics are the distances never loops. -/
theorem never_undercuts (t : Topology Router Link) (run : List (RipHappening Router))
    (s : RipNetwork Router) (h : Transition.Along (RipNetwork.step t) (Occurs t) (start t) run)
    (hexec : Transition.exec (RipNetwork.step t) (start t) run = some s) :
    (∀ r, ∀ x ∈ (s.router r).routes, x.entry.status = .ripValid →
      ∃ c, Shortest (own t) (hop t) r (destination x.entry) c ∧ c ≤ x.entry.metric) ∧
    (∀ m ∈ s.messages, m.isRequest = false → ∀ rte ∈ m.rtes,
      ∃ c, Shortest (own t) (hop t) m.router (rteDestination rte) c ∧ c ≤ rte.metric) ∧
    ∀ n r, ¬ Relation.TransGen (NextHop t s n) r r := by
  have hinv : Inv t s := Transition.along_invariant
    (fun s i u hs hi hstep => hs.step i hi hstep) (Inv.start t) h hexec
  refine ⟨?_, ?_, ?_⟩
  · intro r x hx _
    obtain ⟨c, hpath, -, hle⟩ := (hinv.routes r x hx).path
    obtain ⟨d, hshort, hd⟩ := hpath.exists_shortest
    exact ⟨d, hshort, hd.trans hle⟩
  · intro m hm hresponse rte hrte
    obtain ⟨c, hpath, hle⟩ := ((hinv.messages m hm).response hresponse rte hrte).path
    obtain ⟨d, hshort, hd⟩ := hpath.exists_shortest
    exact ⟨d, hshort, hd.trans hle⟩
  · intro n
    exact no_loop (hinv.closer n)

/-- Two routers on 10.2.0.0/16; the first one is on 10.1.0.0/16 too. -/
def line : Topology Bool Nat where
  attributes _ := .usual
  interfaces r := if r then [1] else [1, 2]
  link r i := if r then 2 else i
  addresses r i :=
    if r then [.construct 0x0a020002 0xffff0000]
    else if i = 1 then [.construct 0x0a010001 0xffff0000]
    else [.construct 0x0a020001 0xffff0000]
  sockets r :=
    if r then [⟨1, 0x0a020002, 1500, [.construct 0x0a020002 0xffff0000]⟩]
    else [⟨2, 0x0a020001, 1500, [.construct 0x0a020001 0xffff0000]⟩]
  metric_pos := nofun
  sockets_own := by decide +kernel
  address_unique := by decide +kernel

def announcement : RipMessage Bool :=
  ⟨false, 2, 0x0a020001, none, false, [⟨0x0a010000, 0xffff0000, 0, 1⟩]⟩

/-- The second router hears of 10.1.0.0/16 twice, and loses the route. -/
def lineRun : List (RipHappening Bool) :=
  [.unsolicitedUpdate false, .receive announcement true 1 1, .receive announcement true 1 5,
    .unsolicitedUpdate true, .fire true ⟨1, 185, .invalidateRoute, 1⟩ 185]

theorem never_undercuts_line : ∃ s,
    Transition.exec (RipNetwork.step line) (start line) lineRun = some s ∧
    (∀ r, ∀ x ∈ (s.router r).routes, x.entry.status = .ripValid →
      ∃ c, Shortest (own line) (hop line) r (destination x.entry) c ∧ c ≤ x.entry.metric) ∧
    (∀ m ∈ s.messages, m.isRequest = false → ∀ rte ∈ m.rtes,
      ∃ c, Shortest (own line) (hop line) m.router (rteDestination rte) c ∧ c ≤ rte.metric) ∧
    ∀ n r, ¬ Relation.TransGen (NextHop line s n) r r := by
  have hsome : (Transition.exec (RipNetwork.step line) (start line) lineRun).isSome = true := by
    decide +kernel
  obtain ⟨s, hs⟩ := Option.isSome_iff_exists.mp hsome
  exact ⟨s, hs, never_undercuts line lineRun s (by decide +kernel) hs⟩

end RipNetwork

end CudaNs3.Internet
