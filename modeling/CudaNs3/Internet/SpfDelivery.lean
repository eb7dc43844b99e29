import CudaNs3.Internet.SpfRoutes

/-!
# Delivery by the routes of all routers

Every router of a network of wires calculates its routes from the same database. A hop then leaves
on a cheapest path, and so what is left of the distance falls with each hop: a packet for the
address of a router arrives there, whatever the routers draw among routes of the same cost.
-/

namespace CudaNs3.Internet

set_option autoImplicit false

universe u

/-! ### Hops -/

/-- However the hops are taken, they end at the goal. -/
inductive Arrives {α : Type} (hop : α → α → Prop) (goal : α) : α → Prop where
  | here : Arrives hop goal goal
  | step {x : α} : (∃ y, hop x y) → (∀ y, hop x y → Arrives hop goal y) → Arrives hop goal x

namespace GlobalRouteManagerImpl

variable {db : GlobalRouteManagerLSDB} {ctx : SpfContext}

/-- The first hop of a path, and what is left of it. -/
theorem Leaves.hop {x : Ipv4Address} {d : Nat} {i : Int} (h : Leaves db ctx x d i) :
    ∃ r ∈ db.database, r.linkStateId = ctx.root ∧ ∃ l ∈ r.linkRecords,
      l.linkType ≠ .stubNetwork ∧ ∃ w ∈ db.database, w.linkStateId = l.linkId ∧
      i = outgoing ctx l w ∧ ∃ e, ShortestPaths.Path (Edge db) w.linkStateId x e ∧
        d = l.metric.toNat + e := by
  induction h with
  | @first r w l hr hid _ hl hstub hw hlink =>
    exact ⟨r, hr, hid, l, hl, hstub, w, hw, hlink, rfl, 0, .root, rfl⟩
  | next _ hedge ih =>
    obtain ⟨r, hr, hid, l, hl, hstub, w, hw, hlink, hi, e, he, rfl⟩ := ih
    exact ⟨r, hr, hid, l, hl, hstub, w, hw, hlink, hi, _, he.snoc hedge, Nat.add_assoc _ _ _⟩

/-- What a node brings to the calculation and to the lookup. -/
structure RouterNode (Device : Type u) where
  findOutgoingInterfaceId : Ipv4Address → Ipv4Mask → Int
  address : Ipv4Address → Nat
  asserts : Bool
  randomEcmpRouting : Bool
  ipv4 : Ipv4 Device

variable {Device : Type u} [DecidableEq Device] {node : Ipv4Address → RouterNode Device}

/-- The calculation for the router `x`. -/
def context (node : Ipv4Address → RouterNode Device) (x : Ipv4Address) : SpfContext where
  root := x
  findOutgoingInterfaceId := (node x).findOutgoingInterfaceId
  address := (node x).address
  asserts := (node x).asserts

/-- A router sends a packet for `dest` to the other end of one of its records. -/
def Forwards (db : GlobalRouteManagerLSDB) (node : Ipv4Address → RouterNode Device)
    (dest : Ipv4Address) (x y : GlobalRoutingLSA) : Prop :=
  ∃ gr draw route,
    spfCalculate db (context node x.linkStateId)
      { randomEcmpRouting := (node x.linkStateId).randomEcmpRouting } = some gr ∧
    gr.lookupGlobal (node x.linkStateId).ipv4 draw dest none = some (some route) ∧
    y ∈ db.database ∧ ∃ l ∈ x.linkRecords, l.linkType ≠ .stubNetwork ∧ y.linkStateId = l.linkId ∧
      route.outputDevice = (node x.linkStateId).ipv4.getNetDevice
        (outgoing (context node x.linkStateId) l y).toNat

/-- Routers only, and a record that is no stub costs something. -/
structure Metered (db : GlobalRouteManagerLSDB) : Prop where
  routers : ∀ x ∈ db.database, x.lsType = .routerLSA
  positive : ∀ x ∈ db.database, ∀ l ∈ x.linkRecords, l.linkType ≠ .stubNetwork →
    0 < l.metric.toNat

/-- The records of a router have interfaces and devices of their own. -/
structure Wired (db : GlobalRouteManagerLSDB) (node : Ipv4Address → RouterNode Device) : Prop extends
    Metered db where
  found : ∀ x ∈ db.database, InterfacesFound db (context node x.linkStateId)
  apart : ∀ x ∈ db.database, ∀ l ∈ x.linkRecords, ∀ l' ∈ x.linkRecords,
    l.linkType ≠ .stubNetwork → l'.linkType ≠ .stubNetwork →
    ∀ w ∈ db.database, ∀ w' ∈ db.database, w.linkStateId = l.linkId → w'.linkStateId = l'.linkId →
    (node x.linkStateId).ipv4.getNetDevice (outgoing (context node x.linkStateId) l w).toNat =
      (node x.linkStateId).ipv4.getNetDevice (outgoing (context node x.linkStateId) l' w').toNat →
    l.linkId = l'.linkId

/-- A record of one router only has the address. -/
def OwnAddress (db : GlobalRouteManagerLSDB) (u : GlobalRoutingLSA) (dest : Ipv4Address) : Prop :=
  (∃ lr ∈ u.linkRecords, lr.linkType = .pointToPoint ∧ lr.linkData = dest) ∧
    ∀ w ∈ db.database, ∀ lr ∈ w.linkRecords, lr.linkType = .pointToPoint → lr.linkData = dest → w = u

/-- A table sends on the cheapest paths from `x` to `u`: to the other end of a record of `x`. -/
def SendsOn (db : GlobalRouteManagerLSDB) (node : Ipv4Address → RouterNode Device)
    (x u : GlobalRoutingLSA) (d : Nat) (dest : Ipv4Address) (gr : Ipv4GlobalRouting) : Prop :=
  ∀ draw, ∃ route,
    gr.lookupGlobal (node x.linkStateId).ipv4 draw dest none = some (some route) ∧
    ∃ l ∈ x.linkRecords, l.linkType ≠ .stubNetwork ∧ ∃ y ∈ db.database, y.linkStateId = l.linkId ∧
      route.outputDevice = (node x.linkStateId).ipv4.getNetDevice
        (outgoing (context node x.linkStateId) l y).toNat ∧
      ∃ e, ShortestPaths.Path (Edge db) y.linkStateId u.linkStateId e ∧ d = l.metric.toNat + e

/-- A default route by the only record that is no stub. -/
theorem default_sendsOn {x u : GlobalRoutingLSA} {d : Nat} {dest : Ipv4Address}
    {gr gr' : Ipv4GlobalRouting} {t lr : GlobalRoutingLinkRecord} (hwired : Wired db node)
    (hx : x ∈ db.database)
    (honly : ∀ l ∈ x.linkRecords, l.linkType ≠ .stubNetwork → l = t)
    (hsends : SendsOn db node x u d dest gr) (hhosts : gr'.hostRoutes = [])
    (hnetworks : gr'.networkRoutes = [defaultRoute (context node x.linkStateId) t lr]) :
    SendsOn db node x u d dest gr' := by
  intro draw
  obtain ⟨-, -, l, hl, hstub, y, hy, hlink, -, hleft⟩ := hsends draw
  obtain rfl := honly l hl hstub
  have hout : outgoing (context node x.linkStateId) l y =
      (context node x.linkStateId).findOutgoingInterfaceId l.linkData .getOnes := by
    rw [outgoing, hwired.routers y hy]
    rfl
  have hfound := hwired.found x hx x hx rfl l hl hstub y hy hlink
  have hinterface : (defaultRoute (context node x.linkStateId) l lr).interface =
      (outgoing (context node x.linkStateId) l y).toNat := by
    rw [hout] at hfound ⊢
    exact if_pos hfound
  have hhost : gr'.hostMatches (node x.linkStateId).ipv4 dest none = [] := by
    rw [Ipv4GlobalRouting.hostMatches, hhosts]
    rfl
  have hmatch : gr'.networkMatches (node x.linkStateId).ipv4 dest none = gr'.networkRoutes := by
    rw [Ipv4GlobalRouting.networkMatches, hnetworks]
    simp [Ipv4RoutingTableEntry.isMatch, Ipv4Mask.isMatch, Ipv4Mask.getZero, Ipv4.onDevice,
      defaultRoute, Ipv4RoutingTableEntry.createNetworkRouteTo]
  have hsome : gr'.networkMatches (node x.linkStateId).ipv4 dest none ≠ [] := by
    rw [hmatch, hnetworks]
    exact List.cons_ne_nil _ _
  obtain ⟨e, he, hpick⟩ := (Ipv4GlobalRouting.pickedInClass draw).network hhost hsome
  rw [hmatch, hnetworks, List.mem_singleton] at he
  refine ⟨Ipv4GlobalRouting.routeOf (node x.linkStateId).ipv4 e, ?_, l, hl, hstub, y, hy, hlink, ?_,
    hleft⟩
  · rw [Ipv4GlobalRouting.lookupGlobal, hhosts, hpick]
    rfl
  · rw [he, Ipv4GlobalRouting.routeOf, hinterface]

section Delivery

variable (hwf : WellFormed db) (hsize : db.database.length ≤ 65537) (hwired : Wired db node)
include hwf hsize hwired

theorem spfIntraRoutes_sendsOn {x : GlobalRoutingLSA} (hx : x ∈ db.database) (ecmp : Bool) :
    ∃ gr, spfIntraRoutes db (context node x.linkStateId) { randomEcmpRouting := ecmp } = some gr ∧
      ∀ u ∈ db.database, x ≠ u → ∀ d,
        ShortestPaths.Shortest (Edge db) x.linkStateId u.linkStateId d →
        ∀ dest, OwnAddress db u dest → SendsOn db node x u d dest gr := by
  have hroot : ∃ r ∈ db.database, r.linkStateId = (context node x.linkStateId).root ∧
      r.lsType = .routerLSA := ⟨x, hx, rfl, hwired.routers x hx⟩
  obtain ⟨gr, hgr, hfilled⟩ := spfIntraRoutes_filled hwf hsize (.inr hwired.routers) hroot
    (hwired.found x hx) ecmp
  refine ⟨gr, hgr, ?_⟩
  rintro u hu hne d hd dest ⟨⟨lr, hlr, hp2p, rfl⟩, honly⟩ draw
  have hother : u.linkStateId ≠ x.linkStateId :=
    fun heq => hne (GlobalRouteManagerLSDB.eq_of_linkStateId hx hu heq.symm)
  obtain ⟨route, i, hlookup, -, hdevice, w, hw, lr', hlr', hp2p', hsame, d', hd', hleaves⟩ :=
    hfilled.sendsCheaply (node x.linkStateId).ipv4 draw u hu (hwired.routers u hu) hother d hd.1
      lr hlr hp2p
  obtain rfl := honly w hw lr' hlr' hp2p' hsame
  obtain rfl := hd.eq hd'
  obtain ⟨r, hr, hid, l, hl, hstub, y, hy, hlink, hi, e, he, hcost⟩ := hleaves.hop
  obtain rfl := GlobalRouteManagerLSDB.eq_of_linkStateId hr hx hid
  rw [← Int.toNat_natCast i, hi] at hdevice
  exact ⟨route, hlookup, l, hl, hstub, y, hy, hlink, hdevice, e, he, hcost⟩

theorem spfCalculate_sendsOn {x : GlobalRoutingLSA} (hx : x ∈ db.database) (ecmp : Bool) :
    ∃ gr, spfCalculate db (context node x.linkStateId) { randomEcmpRouting := ecmp } = some gr ∧
      ∀ u ∈ db.database, x ≠ u → ∀ d,
        ShortestPaths.Shortest (Edge db) x.linkStateId u.linkStateId d →
        ∀ dest, OwnAddress db u dest → SendsOn db node x u d dest gr := by
  obtain ⟨gr, hgr, hsends⟩ := spfIntraRoutes_sendsOn hwf hsize hwired hx ecmp
  unfold spfCalculate
  obtain hstub | ⟨hstub, hnone⟩ | ⟨t, lr, hstub, honly⟩ := checkForStubNode_cases
    (context node x.linkStateId) { randomEcmpRouting := ecmp } hwf hx rfl (hwired.routers x hx)
  · rw [hstub]
    exact ⟨gr, hgr, hsends⟩
  · rw [hstub]
    refine ⟨_, rfl, ?_⟩
    intro u hu hne d hd dest hown draw
    -- no other router can be reached
    obtain ⟨-, -, l, hl, hl', -⟩ := hsends u hu hne d hd dest hown draw
    exact absurd (hnone l hl) hl'
  · rw [hstub]
    refine ⟨_, rfl, ?_⟩
    intro u hu hne d hd dest hown
    exact default_sendsOn hwired hx honly (hsends u hu hne d hd dest hown) rfl rfl

/-- The next router is nearer to the address, by the record that leads to it. -/
theorem forwards_nearer {u x : GlobalRoutingLSA} {dest : Ipv4Address} (hu : u ∈ db.database)
    (hx : x ∈ db.database) (hown : OwnAddress db u dest) (hne : x ≠ u) {d : Nat}
    (hd : ShortestPaths.Shortest (Edge db) x.linkStateId u.linkStateId d) :
    (∃ y, Forwards db node dest x y) ∧ ∀ y, Forwards db node dest x y → y ∈ db.database ∧
      ∃ e < d, ShortestPaths.Shortest (Edge db) y.linkStateId u.linkStateId e := by
  obtain ⟨gr, hgr, hsends⟩ := spfCalculate_sendsOn hwf hsize hwired hx
    (node x.linkStateId).randomEcmpRouting
  have hsends := hsends u hu hne d hd dest hown
  constructor
  · obtain ⟨route, hlookup, l, hl, hstub, y, hy, hlink, hdevice, -⟩ := hsends fun _ => 0
    exact ⟨y, gr, _, route, hgr, hlookup, hy, l, hl, hstub, hlink, hdevice⟩
  · rintro y ⟨gr', draw, route, hgr', hlookup, hy, l, hl, hstub, hlink, hdevice⟩
    obtain rfl := Option.some.inj (hgr.symm.trans hgr')
    obtain ⟨route', hlookup', l', hl', hstub', y', hy', hlink', hdevice', e, he, rfl⟩ := hsends draw
    -- the device of the route leads to one router only
    obtain rfl := Option.some.inj (Option.some.inj (hlookup.symm.trans hlookup'))
    have hids := hwired.apart x hx l hl l' hl' hstub hstub' y hy y' hy' hlink hlink'
      (hdevice.symm.trans hdevice')
    have heq : y.linkStateId = y'.linkStateId := hlink.trans (hids.trans hlink'.symm)
    obtain rfl := GlobalRouteManagerLSDB.eq_of_linkStateId hy hy' heq
    have hmetric := hwired.positive x hx l' hl' hstub'
    obtain ⟨e', he', hle⟩ := he.exists_shortest
    exact ⟨hy, e', by omega, he'⟩

/-- Every packet for the address of a router arrives, from wherever the router can be reached. -/
theorem forwards_arrives {u x : GlobalRoutingLSA} {dest : Ipv4Address} {c : Nat}
    (hu : u ∈ db.database) (hx : x ∈ db.database) (hown : OwnAddress db u dest)
    (hpath : ShortestPaths.Path (Edge db) x.linkStateId u.linkStateId c) :
    Arrives (Forwards db node dest) u x := by
  obtain ⟨d, hd, -⟩ := hpath.exists_shortest
  clear hpath
  induction d using Nat.strong_induction_on generalizing x with
  | h d ih =>
    by_cases heq : x = u
    · exact heq ▸ .here
    · obtain ⟨hsome, hall⟩ := forwards_nearer hwf hsize hwired hu hx hown heq hd
      refine .step hsome ?_
      intro y hforwards
      obtain ⟨hy, e, he, hnear⟩ := hall y hforwards
      exact ih e he hy hnear

end Delivery

namespace Sample

def wire (other data : Ipv4Address) (metric : BitVec 16) : GlobalRoutingLinkRecord :=
  ⟨other, data, .pointToPoint, metric⟩

def corner (id : Ipv4Address) (linkRecords : List GlobalRoutingLinkRecord) : GlobalRoutingLSA :=
  { lsType := .routerLSA, linkStateId := id, linkRecords }

def third : GlobalRoutingLSA := corner 3 [wire 1 31 5, wire 2 32 1]

def fourth : GlobalRoutingLSA := corner 4 [wire 1 41 1]

/-- A triangle of routers, of which the first and the third are nearer to each other by way of the
second, and a router that is only next to the first. -/
def wires : GlobalRouteManagerLSDB where
  database :=
    [corner 1 [wire 2 12 1, wire 3 13 5, wire 4 14 1], corner 2 [wire 1 21 1, wire 3 23 1], third,
      fourth]
  extdatabase := []
  sorted := by decide
  internal := by decide

/-- Interfaces and devices have the numbers of the addresses. -/
def byAddress : RouterNode Nat where
  findOutgoingInterfaceId addr _ := addr.toNat
  address id := id.toNat
  asserts := true
  randomEcmpRouting := true
  ipv4 := ⟨id, id, fun _ => 0, fun _ _ => 0⟩

theorem routers_wires : ∀ x ∈ wires.database, x.lsType = .routerLSA := by decide

theorem wellFormed_wires : WellFormed wires where
  transit := by decide +kernel
  attached := by
    intro v hv hnetwork
    rw [routers_wires v hv] at hnetwork
    cases hnetwork

theorem wired_wires : Wired wires fun _ => byAddress where
  routers := routers_wires
  positive := by decide +kernel
  found := by
    intro x _ r _ _ l _ _ w hw _
    rw [outgoing, routers_wires w hw]
    exact Int.natCast_nonneg _
  apart := by decide +kernel

theorem forwards_arrives_wires : Arrives (Forwards wires (fun _ => byAddress) 32) third fourth := by
  have hthird : third ∈ wires.database := by decide
  have hfourth : fourth ∈ wires.database := by decide
  have hone : corner 1 [wire 2 12 1, wire 3 13 5, wire 4 14 1] ∈ wires.database :=
    List.mem_cons_self
  have hout : Edge wires fourth.linkStateId 1 1 :=
    .link (l := wire 1 41 1) hfourth rfl (by decide) (by decide) hone rfl
  have hin : Edge wires 1 third.linkStateId 5 :=
    .link (l := wire 3 13 5) hone rfl (by decide) (by decide) hthird rfl
  have hown : OwnAddress wires third 32 :=
    ⟨⟨wire 2 32 1, by decide, rfl, rfl⟩, by decide +kernel⟩
  exact forwards_arrives wellFormed_wires (by decide) wired_wires hthird hfourth hown
    ((ShortestPaths.Path.root.snoc hout).snoc hin)

end Sample

end GlobalRouteManagerImpl

end CudaNs3.Internet
