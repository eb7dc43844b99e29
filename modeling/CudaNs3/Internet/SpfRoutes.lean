import CudaNs3.Internet.GlobalRouting
import CudaNs3.Internet.SpfDistances

/-!
# The routes of the tree

Every vertex of the tree but the root gives the global routing table of the root a route for each
of its exits: to the addresses of a router at the ends of its wires, or to a network. A lookup of
such an address therefore ends on an interface by which a cheapest path leaves.
-/

namespace CudaNs3.Internet

set_option autoImplicit false

universe u

namespace GlobalRouteManagerImpl

/-- An interface that was not found gives no route. -/
def spfIntraAddRouter (gr : Ipv4GlobalRouting) (v : SPFVertex) : Ipv4GlobalRouting :=
  v.lsa.linkRecords.foldl (fun gr lr =>
    if lr.linkType ≠ .pointToPoint then gr
    else v.ecmpRootExits.foldl (fun gr exit =>
      if 0 ≤ exit.2 then
        gr.addHostRoute (.createHostRouteTo lr.linkData exit.1 exit.2.toNat)
      else gr) gr) gr

def spfIntraAddTransit (gr : Ipv4GlobalRouting) (v : SPFVertex) : Ipv4GlobalRouting :=
  let tempmask := v.lsa.networkLSANetworkMask
  let tempip := v.lsa.linkStateId.combineMask tempmask
  v.ecmpRootExits.foldl (fun gr exit =>
    if 0 ≤ exit.2 then
      gr.addNetworkRoute (.createNetworkRouteTo tempip tempmask exit.1 exit.2.toNat)
    else gr) gr

def spfIntraAdd (gr : Ipv4GlobalRouting) (v : SPFVertex) : Ipv4GlobalRouting :=
  match v.vertexType with
  | .router => spfIntraAddRouter gr v
  | .network => spfIntraAddTransit gr v

/-- The first stage of `SPFCalculate`, which adds the routes of a vertex when it is settled. The
second one adds network and external routes only. -/
def spfIntraRoutes (db : GlobalRouteManagerLSDB) (ctx : SpfContext) (gr : Ipv4GlobalRouting) :
    Option Ipv4GlobalRouting := do
  let tree ← spfTree db ctx
  some (tree.tail.foldl spfIntraAdd gr)

/-- The default route by a wire. An interface that was not found is `-1`, and the largest number
in a route. -/
def defaultRoute (ctx : SpfContext) (transitLink lr : GlobalRoutingLinkRecord) :
    Ipv4RoutingTableEntry :=
  let outIf := ctx.findOutgoingInterfaceId transitLink.linkData .getOnes
  .createNetworkRouteTo 0 .getZero lr.linkData (if 0 ≤ outIf then outIf.toNat else 0xffffffff)

/-- A router with one wire and no network gets a default route; `true` when there is nothing more to
calculate. -/
def checkForStubNode (db : GlobalRouteManagerLSDB) (ctx : SpfContext) (gr : Ipv4GlobalRouting) :
    Option (Bool × Ipv4GlobalRouting) := do
  let rlsa ← db.getLSA ctx.root
  match rlsa.linkRecords.filter fun l =>
      l.linkType = .transitNetwork ∨ l.linkType = .pointToPoint with
  | [] => some (true, gr)
  | [transitLink] =>
    if transitLink.linkType = .transitNetwork then some (false, gr)
    else do
      let w ← db.getLSA transitLink.linkId
      match w.linkRecords.find? fun lr =>
          lr.linkType = .pointToPoint ∧ lr.linkId = rlsa.linkStateId with
      | none => some (false, gr)
      | some lr => some (true, gr.addNetworkRoute (defaultRoute ctx transitLink lr))
  | _ => some (false, gr)

/-- `SPFCalculate` up to its second stage. -/
def spfCalculate (db : GlobalRouteManagerLSDB) (ctx : SpfContext) (gr : Ipv4GlobalRouting) :
    Option Ipv4GlobalRouting := do
  let (stub, gr) ← checkForStubNode db ctx gr
  if stub then some gr else spfIntraRoutes db ctx gr

variable {db : GlobalRouteManagerLSDB} {ctx : SpfContext} {gr : Ipv4GlobalRouting}
variable {v : SPFVertex} {s : SpfState} {route : Ipv4RoutingTableEntry}

/-! ### What is added -/

theorem mem_foldl {σ β α : Type} {f : σ → β → σ} (routes : σ → List α) {adds : β → Prop}
    {x : α} (hstep : ∀ s b, x ∈ routes (f s b) ↔ x ∈ routes s ∨ adds b) (bs : List β) (s : σ) :
    x ∈ routes (bs.foldl f s) ↔ x ∈ routes s ∨ ∃ b ∈ bs, adds b := by
  induction bs generalizing s with
  | nil => simp
  | cons b bs ih =>
    rw [List.foldl_cons, ih, hstep, or_assoc]
    simp only [List.mem_cons, exists_eq_or_imp]

/-- The routes to a router. -/
def HostRouteOf (v : SPFVertex) (route : Ipv4RoutingTableEntry) : Prop :=
  ∃ lr ∈ v.lsa.linkRecords, lr.linkType = .pointToPoint ∧ ∃ exit ∈ v.ecmpRootExits,
    0 ≤ exit.2 ∧ route = .createHostRouteTo lr.linkData exit.1 exit.2.toNat

theorem mem_addHostRoute {e : Ipv4RoutingTableEntry} :
    route ∈ (gr.addHostRoute e).hostRoutes ↔ route ∈ gr.hostRoutes ∨ route = e := by
  rw [Ipv4GlobalRouting.addHostRoute, List.mem_append, List.mem_singleton]

theorem mem_spfIntraAddRouter :
    route ∈ (spfIntraAddRouter gr v).hostRoutes ↔ route ∈ gr.hostRoutes ∨ HostRouteOf v route := by
  apply mem_foldl Ipv4GlobalRouting.hostRoutes
  intro gr lr
  by_cases hlr : lr.linkType = .pointToPoint
  · rw [if_neg (not_not.mpr hlr), and_iff_right hlr]
    apply mem_foldl Ipv4GlobalRouting.hostRoutes
    intro gr exit
    by_cases hexit : 0 ≤ exit.2
    · rw [if_pos hexit, and_iff_right hexit, mem_addHostRoute]
    · simp [hexit]
  · simp [hlr]

theorem hostRoutes_spfIntraAddTransit : (spfIntraAddTransit gr v).hostRoutes = gr.hostRoutes := by
  unfold spfIntraAddTransit
  generalize v.ecmpRootExits = exits
  induction exits generalizing gr with
  | nil => rfl
  | cons exit exits ih =>
    rw [List.foldl_cons, ih]
    split_ifs <;> rfl

theorem mem_spfIntraAdd : route ∈ (spfIntraAdd gr v).hostRoutes ↔
    route ∈ gr.hostRoutes ∨ v.vertexType = .router ∧ HostRouteOf v route := by
  unfold spfIntraAdd
  cases v.vertexType with
  | router => simp [mem_spfIntraAddRouter]
  | network => simp [hostRoutes_spfIntraAddTransit]

/-! ### The lookup -/

theorem spfLoop_cons {fuel : Nat} {tree : List SPFVertex} (h : spfLoop db ctx fuel v s = some tree) :
    ∃ rest, tree = v :: rest := by
  cases fuel with
  | zero => cases h
  | succ fuel =>
    unfold spfLoop at h
    obtain ⟨s', -, h⟩ := Option.bind_eq_some_iff.mp h
    split at h
    · exact ⟨[], (Option.some.inj h).symm⟩
    · obtain ⟨rest, -, h⟩ := Option.bind_eq_some_iff.mp h
      exact ⟨rest, (Option.some.inj h).symm⟩

/-- The root comes first. -/
theorem spfTree_cons {tree : List SPFVertex} (h : spfTree db ctx = some tree) :
    ∃ v rest, tree = v :: rest ∧ v.vertexId = ctx.root := by
  obtain ⟨lsa, hlsa, h⟩ := Option.bind_eq_some_iff.mp h
  obtain ⟨rest, hrest⟩ := spfLoop_cons h
  exact ⟨_, rest, hrest, (GlobalRouteManagerLSDB.getLSA_eq_some.mp hlsa).2⟩

/-- The interfaces of the root are found for all of its records. -/
def InterfacesFound (db : GlobalRouteManagerLSDB) (ctx : SpfContext) : Prop :=
  ∀ r ∈ db.database, r.linkStateId = ctx.root → ∀ l ∈ r.linkRecords, l.linkType ≠ .stubNetwork →
    ∀ w ∈ db.database, w.linkStateId = l.linkId → 0 ≤ outgoing ctx l w

theorem Leaves.found (hfound : InterfacesFound db ctx) {x : Ipv4Address} {d : Nat} {i : Int}
    (h : Leaves db ctx x d i) : 0 ≤ i := by
  induction h with
  | first hr hid _ hl hstub hw hlink => exact hfound _ hr hid _ hl hstub _ hw hlink
  | next _ _ ih => exact ih

/-- A router with no record that is no stub, or with one that is a wire, has its routes then; all
others go on with the table as it is. -/
theorem checkForStubNode_cases (ctx : SpfContext) (gr : Ipv4GlobalRouting) (hwf : WellFormed db)
    {x : GlobalRoutingLSA} (hx : x ∈ db.database) (hid : x.linkStateId = ctx.root)
    (hrouter : x.lsType = .routerLSA) :
    checkForStubNode db ctx gr = some (false, gr) ∨
    (checkForStubNode db ctx gr = some (true, gr) ∧
      ∀ l ∈ x.linkRecords, l.linkType = .stubNetwork) ∨
    ∃ t lr, checkForStubNode db ctx gr = some (true, gr.addNetworkRoute (defaultRoute ctx t lr)) ∧
      ∀ l ∈ x.linkRecords, l.linkType ≠ .stubNetwork → l = t := by
  have hget : db.getLSA ctx.root = some x := GlobalRouteManagerLSDB.getLSA_eq_some.mpr ⟨hx, hid⟩
  have hmem : ∀ l ∈ x.linkRecords, l.linkType ≠ .stubNetwork → l ∈ x.linkRecords.filter fun l =>
      l.linkType = .transitNetwork ∨ l.linkType = .pointToPoint := by
    intro l hl hstub
    have htype := (hwf.transit x hx hrouter l hl hstub).1
    exact List.mem_filter.mpr ⟨hl, decide_eq_true htype.symm⟩
  unfold checkForStubNode
  rw [hget]
  rcases hrecords : x.linkRecords.filter fun l =>
      l.linkType = .transitNetwork ∨ l.linkType = .pointToPoint with _ | ⟨t, _ | ⟨t', ts⟩⟩
  · refine .inr (.inl ⟨by simp only [Option.bind_eq_bind, Option.bind_some, hrecords], ?_⟩)
    intro l hl
    by_contra hstub
    have := hmem l hl hstub
    rw [hrecords] at this
    cases this
  · have ht : t ∈ x.linkRecords.filter fun l =>
        l.linkType = .transitNetwork ∨ l.linkType = .pointToPoint := hrecords ▸ List.mem_cons_self
    obtain ⟨ht, htype⟩ := List.mem_filter.mp ht
    simp only [Option.bind_eq_bind, Option.bind_some, hrecords]
    by_cases htransit : t.linkType = .transitNetwork
    · exact .inl (if_pos htransit)
    · have hp2p : t.linkType = .pointToPoint := (of_decide_eq_true htype).resolve_left htransit
      have hstub : t.linkType ≠ .stubNetwork := by rw [hp2p]; decide
      obtain ⟨-, w, hw, hlink, -⟩ := hwf.transit x hx hrouter t ht hstub
      have hgetw : db.getLSA t.linkId = some w :=
        GlobalRouteManagerLSDB.getLSA_eq_some.mpr ⟨hw, hlink⟩
      simp only [if_neg htransit, hgetw, Option.bind_some]
      cases w.linkRecords.find? fun lr =>
          lr.linkType = .pointToPoint ∧ lr.linkId = x.linkStateId with
      | none => exact .inl rfl
      | some lr =>
        refine .inr (.inr ⟨t, lr, rfl, ?_⟩)
        intro l hl hstub
        have := hmem l hl hstub
        rw [hrecords] at this
        exact List.mem_singleton.mp this
  · exact .inl (by simp only [Option.bind_eq_bind, Option.bind_some, hrecords])

/-- A packet for an address of another router is sent by a route to that address, by which a
cheapest path to a router with that address leaves. -/
def SendsCheaply (Device : Type u) [DecidableEq Device] (db : GlobalRouteManagerLSDB)
    (ctx : SpfContext) (gr : Ipv4GlobalRouting) : Prop :=
  ∀ (ipv4 : Ipv4 Device) (draw : (max : Nat) → Fin (max + 1)),
    ∀ lsa ∈ db.database, lsa.lsType = .routerLSA → lsa.linkStateId ≠ ctx.root →
    ∀ c, ShortestPaths.Path (Edge db) ctx.root lsa.linkStateId c →
    ∀ lr ∈ lsa.linkRecords, lr.linkType = .pointToPoint →
      ∃ route i, gr.lookupGlobal ipv4 draw lr.linkData none = some (some route) ∧
        route.destination = lr.linkData ∧ route.outputDevice = ipv4.getNetDevice i ∧
        ∃ w ∈ db.database, ∃ lr' ∈ w.linkRecords, lr'.linkType = .pointToPoint ∧
          lr'.linkData = lr.linkData ∧ ∃ d : Nat,
            ShortestPaths.Shortest (Edge db) ctx.root w.linkStateId d ∧
            Leaves db ctx w.linkStateId d i

/-- The host routes of a table go to the addresses of all other routers, on cheapest paths. -/
structure Filled (db : GlobalRouteManagerLSDB) (ctx : SpfContext) (gr : Ipv4GlobalRouting) :
    Prop where
  hosts : gr.HostsOnly
  cheap : ∀ route ∈ gr.hostRoutes, ∃ w ∈ db.database, ∃ lr ∈ w.linkRecords,
    lr.linkType = .pointToPoint ∧ lr.linkData = route.dest ∧ ∃ d : Nat,
      ShortestPaths.Shortest (Edge db) ctx.root w.linkStateId d ∧
      Leaves db ctx w.linkStateId d route.interface
  served : ∀ lsa ∈ db.database, lsa.lsType = .routerLSA → lsa.linkStateId ≠ ctx.root →
    ∀ c, ShortestPaths.Path (Edge db) ctx.root lsa.linkStateId c →
    ∀ lr ∈ lsa.linkRecords, lr.linkType = .pointToPoint →
      ∃ route ∈ gr.hostRoutes, route.dest = lr.linkData

theorem Filled.of_hostRoutes {gr' : Ipv4GlobalRouting} (h : Filled db ctx gr)
    (hsame : gr'.hostRoutes = gr.hostRoutes) : Filled db ctx gr' where
  hosts := by
    unfold Ipv4GlobalRouting.HostsOnly
    rw [hsame]
    exact h.hosts
  cheap := hsame ▸ h.cheap
  served := hsame ▸ h.served

/-- Whichever host route is picked, some router with the address gave it. -/
theorem Filled.sendsCheaply {Device : Type u} [DecidableEq Device] (h : Filled db ctx gr) :
    SendsCheaply Device db ctx gr := by
  intro ipv4 draw lsa hlsa hrouter hne c hpath lr hlr hp2p
  obtain ⟨route, hroute, hdest⟩ := h.served lsa hlsa hrouter hne c hpath lr hlr hp2p
  have hmatch : gr.hostMatches ipv4 lr.linkData none ≠ [] := by
    apply List.ne_nil_of_mem (a := route)
    apply List.mem_filter.mpr
    exact ⟨hroute, Bool.and_eq_true_iff.mpr ⟨decide_eq_true hdest, rfl⟩⟩
  obtain ⟨e, he, hpick⟩ := (Ipv4GlobalRouting.pickedInClass draw).host hmatch
  obtain ⟨he, hdest⟩ := List.mem_filter.mp he
  have hdest : e.dest = lr.linkData := of_decide_eq_true (Bool.and_eq_true_iff.mp hdest).1
  have hhosts : gr.hostRoutes.all (·.isHost) = true := List.all_eq_true.mpr h.hosts
  refine ⟨Ipv4GlobalRouting.routeOf ipv4 e, e.interface, ?_, hdest, rfl, ?_⟩
  · rw [Ipv4GlobalRouting.lookupGlobal, if_pos hhosts, hpick]
    rfl
  · exact hdest ▸ h.cheap e he

section Routes

variable (hwf : WellFormed db) (hsize : db.database.length ≤ 65537)
  (hprofile : ctx.asserts = false ∨ ∀ lsa ∈ db.database, lsa.lsType = .routerLSA)
  (hroot : ∃ r ∈ db.database, r.linkStateId = ctx.root ∧ r.lsType = .routerLSA)
  (hfound : InterfacesFound db ctx) (ecmp : Bool)
include hwf hsize hprofile hroot hfound

theorem spfIntraRoutes_filled :
    ∃ gr, spfIntraRoutes db ctx { randomEcmpRouting := ecmp } = some gr ∧ Filled db ctx gr := by
  obtain ⟨tree, htree, hshortest, hknown⟩ := spfTree_some hwf hsize hprofile hroot
  obtain ⟨v, rest, rfl, hv⟩ := spfTree_cons htree
  refine ⟨_, by rw [spfIntraRoutes, htree]; rfl, ?_⟩
  rw [List.tail_cons]
  generalize hgr : rest.foldl spfIntraAdd { randomEcmpRouting := ecmp } = gr
  have hmem : ∀ route, route ∈ gr.hostRoutes ↔
      ∃ w ∈ rest, w.vertexType = .router ∧ HostRouteOf w route := by
    intro route
    have hstep : ∀ gr w, route ∈ (spfIntraAdd gr w).hostRoutes ↔
        route ∈ gr.hostRoutes ∨ w.vertexType = .router ∧ HostRouteOf w route :=
      fun _ _ => mem_spfIntraAdd
    rw [← hgr, mem_foldl Ipv4GlobalRouting.hostRoutes hstep]
    exact or_iff_right List.not_mem_nil
  have hrouted : ∀ w ∈ rest, w.lsa ∈ db.database ∧ Routed db ctx w := by
    intro w hw
    obtain ⟨hlsa, hw'⟩ := hknown w (List.mem_cons_of_mem v hw)
    have hother : w.vertexId ≠ ctx.root := by
      intro heq
      have hnot := (List.nodup_cons.mp hshortest.distinct).1
      exact hnot (hv.trans heq.symm ▸ List.mem_map_of_mem hw)
    exact ⟨hlsa, hw'.resolve_left hother⟩
  refine ⟨?_, ?_, ?_⟩
  · intro route hroute
    obtain ⟨w, -, -, lr, -, -, exit, -, -, rfl⟩ := (hmem route).mp hroute
    rfl
  · intro route hroute
    obtain ⟨w, hw, -, lr, hlr, hp2p, exit, hexit, hnonneg, rfl⟩ := (hmem route).mp hroute
    obtain ⟨hwlsa, hexits⟩ := hrouted w hw
    refine ⟨w.lsa, hwlsa, lr, hlr, hp2p, rfl, w.distanceFromRoot.toNat, ?_, ?_⟩
    · exact (hshortest.shortest w.vertexId _).mp ⟨w, List.mem_cons_of_mem v hw, rfl, rfl⟩
    · rw [Ipv4RoutingTableEntry.createHostRouteTo, Int.toNat_of_nonneg hnonneg]
      exact hexits.leaves exit hexit
  · -- a router that can be reached is in the tree, and so it has an exit
    intro lsa hlsa hrouter hne c hpath lr hlr hp2p
    obtain ⟨d, hd, -⟩ := hpath.exists_shortest
    obtain ⟨u, hu, hid, -⟩ := (hshortest.shortest lsa.linkStateId d).mpr hd
    have hrest : u ∈ rest := by
      rcases List.mem_cons.mp hu with rfl | hu
      · exact absurd (hid.symm.trans hv) hne
      · exact hu
    obtain ⟨hulsa, hexits⟩ := hrouted u hrest
    obtain rfl := GlobalRouteManagerLSDB.eq_of_linkStateId hulsa hlsa hid
    obtain ⟨exit, exits, hcons⟩ := List.exists_cons_of_ne_nil hexits.exits
    have hexit : exit ∈ u.ecmpRootExits := hcons ▸ List.mem_cons_self
    have hnonneg := (hexits.leaves exit hexit).found hfound
    have htype : u.vertexType = .router := by simp [SPFVertex.vertexType, hrouter]
    exact ⟨_, (hmem _).mpr ⟨u, hrest, htype, lr, hlr, hp2p, exit, hexit, hnonneg, rfl⟩, rfl⟩

/-- The table that the calculation fills sends on cheapest paths, whatever other routes it gets. -/
theorem spfIntraRoutes_sendsCheaply (Device : Type u) [DecidableEq Device] :
    ∃ gr, spfIntraRoutes db ctx { randomEcmpRouting := ecmp } = some gr ∧
      ∀ gr', gr'.hostRoutes = gr.hostRoutes → SendsCheaply Device db ctx gr' := by
  obtain ⟨gr, hgr, hfilled⟩ := spfIntraRoutes_filled hwf hsize hprofile hroot hfound ecmp
  refine ⟨gr, hgr, ?_⟩
  intro gr' hsame
  exact (hfilled.of_hostRoutes hsame).sendsCheaply

end Routes

namespace Sample

theorem spfIntraRoutes_sendsCheaply_triangle :
    ∃ gr, spfIntraRoutes triangle fromFirst { randomEcmpRouting := true } = some gr ∧
      ∀ gr', gr'.hostRoutes = gr.hostRoutes → SendsCheaply Nat triangle fromFirst gr' := by
  apply spfIntraRoutes_sendsCheaply wellFormed_triangle (by simp [triangle]) (.inl rfl)
    ⟨router 1 101 2 3, List.mem_cons_self, rfl, rfl⟩
  intro r _ _ l _ _ w _ _
  have hfound : ∀ addr mask, 0 ≤ fromFirst.findOutgoingInterfaceId addr mask := by
    intro addr mask
    change 0 ≤ if addr = 101 then (1 : Int) else 2
    split_ifs
    · exact Int.one_nonneg
    · exact Int.zero_le_ofNat 2
  by_cases hnetwork : w.lsType = .networkLSA
  · rw [outgoing, if_pos hnetwork]
    exact hfound _ _
  · rw [outgoing, if_neg hnetwork]
    exact hfound _ _

end Sample

end GlobalRouteManagerImpl

end CudaNs3.Internet
