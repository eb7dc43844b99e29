import CudaNs3.Internet.SpfCalculate

/-!
# The calculation finds the distances

The database is a graph of routers and networks, with the metrics of the records of the routers
as costs; a network reaches its routers for nothing. The candidate queue and the tree hold the
labels of this graph while the records of the current vertex are looked at one by one, and so the
tree is in order of distance and has every vertex that can be reached at its distance.
-/

namespace CudaNs3.Internet

set_option autoImplicit false

namespace GlobalRoutingLSA

/-- The records of an advertisement that name a vertex. -/
def linksTo (lsa : GlobalRoutingLSA) (x : Ipv4Address) : List GlobalRoutingLinkRecord :=
  lsa.linkRecords.filter fun l => l.linkId = x

end GlobalRoutingLSA

namespace GlobalRouteManagerImpl

/-! ### The graph of a database -/

inductive Edge (db : GlobalRouteManagerLSDB) : Ipv4Address → Ipv4Address → Nat → Prop where
  | link {v w : GlobalRoutingLSA} {l : GlobalRoutingLinkRecord} :
      v ∈ db.database → v.lsType = .routerLSA → l ∈ v.linkRecords → l.linkType ≠ .stubNetwork →
      w ∈ db.database → w.linkStateId = l.linkId → Edge db v.linkStateId l.linkId l.metric.toNat
  | attached {v w : GlobalRoutingLSA} {a : Ipv4Address} :
      v ∈ db.database → v.lsType = .networkLSA → a ∈ v.attachedRouters →
      db.getLSAByLinkData a = some w → Edge db v.linkStateId w.linkStateId 0

/-- Records name vertices, which are linked back, and a router has at most two links into one
network. -/
structure WellFormed (db : GlobalRouteManagerLSDB) : Prop where
  transit : ∀ v ∈ db.database, v.lsType = .routerLSA → ∀ l ∈ v.linkRecords,
    l.linkType ≠ .stubNetwork → (l.linkType = .pointToPoint ∨ l.linkType = .transitNetwork) ∧
      ∃ w ∈ db.database, w.linkStateId = l.linkId ∧
        (w.lsType = .routerLSA → w.linksTo v.linkStateId ≠ [])
  attached : ∀ v ∈ db.database, v.lsType = .networkLSA → ∀ a ∈ v.attachedRouters,
    ∀ w ∈ db.getLSAByLinkData a, w.lsType = .routerLSA ∧ w.linksTo v.linkStateId ≠ [] ∧
      (w.linksTo v.linkStateId).length ≤ 2

variable {db : GlobalRouteManagerLSDB} {ctx : SpfContext} {v w : SPFVertex} {s : SpfState}
variable {l : Option GlobalRoutingLinkRecord} {wLsa : GlobalRoutingLSA} {distance : BitVec 32}
variable {tree : List SPFVertex} {x y : Ipv4Address} {c d : Nat}

/-- The interface by which the root sends to the other end of one of its records. -/
def outgoing (ctx : SpfContext) (l : GlobalRoutingLinkRecord) (lsa : GlobalRoutingLSA) : Int :=
  if lsa.lsType = .networkLSA then
    ctx.findOutgoingInterfaceId lsa.linkStateId lsa.networkLSANetworkMask
  else ctx.findOutgoingInterfaceId l.linkData .getOnes

/-- A path from the root with its cost, and the interface by which it leaves the root. -/
inductive Leaves (db : GlobalRouteManagerLSDB) (ctx : SpfContext) :
    Ipv4Address → Nat → Int → Prop where
  | first {r w : GlobalRoutingLSA} {l : GlobalRoutingLinkRecord} :
      r ∈ db.database → r.linkStateId = ctx.root → r.lsType = .routerLSA → l ∈ r.linkRecords →
      l.linkType ≠ .stubNetwork → w ∈ db.database → w.linkStateId = l.linkId →
      Leaves db ctx w.linkStateId l.metric.toNat (outgoing ctx l w)
  | next {x y : Ipv4Address} {d c : Nat} {i : Int} :
      Leaves db ctx x d i → Edge db x y c → Leaves db ctx y (d + c) i

theorem Leaves.path {i : Int} (h : Leaves db ctx x d i) :
    ShortestPaths.Path (Edge db) ctx.root x d := by
  induction h with
  | @first r w l hr hid hrouter hl hstub hw hlink =>
    have hedge : Edge db ctx.root w.linkStateId l.metric.toNat :=
      hid ▸ hlink ▸ .link hr hrouter hl hstub hw hlink
    exact Nat.zero_add l.metric.toNat ▸ ShortestPaths.Path.root.snoc hedge
  | next _ hedge ih => exact ih.snoc hedge

/-- Every exit leads out on a path to the vertex, at its distance. -/
structure Routed (db : GlobalRouteManagerLSDB) (ctx : SpfContext) (u : SPFVertex) : Prop where
  exits : u.ecmpRootExits ≠ []
  leaves : ∀ e ∈ u.ecmpRootExits, Leaves db ctx u.vertexId u.distanceFromRoot.toNat e.2

theorem Routed.merge (hv : Routed db ctx v) (hw : Routed db ctx w) (hid : v.vertexId = w.vertexId)
    (hd : v.distanceFromRoot = w.distanceFromRoot) :
    Routed db ctx ((v.mergeRootExitDirections w).mergeParent w ctx.address) where
  exits := SPFVertex.merged_ne_nil hv.exits
  leaves e he := by
    rcases SPFVertex.mem_of_mem_merged he with he | he
    · exact hv.leaves e he
    · have hleaves := hw.leaves e he
      rwa [← hid, ← hd] at hleaves

theorem edge_le (h : Edge db x y c) : c ≤ 65535 := by
  cases h with
  | @link _ _ l => have := l.metric.isLt; omega
  | attached => exact Nat.zero_le _

/-! ### Next hops -/

theorem spfGetNextLink_first : spfGetNextLink w v none = (w.lsa.linksTo v.vertexId)[0]? :=
  nextLinkFrom_first v.vertexId w.lsa.linkRecords

theorem spfGetNextLink_next (r : GlobalRoutingLinkRecord) :
    spfGetNextLink w v (some r) = (w.lsa.linksTo v.vertexId)[2]? :=
  nextLinkFrom_next v.vertexId w.lsa.linkRecords

/-- What a vertex is when it was reached from `v`. -/
structure ReachedFrom (ctx : SpfContext) (v : SPFVertex) (l : Option GlobalRoutingLinkRecord)
    (wLsa : GlobalRoutingLSA) (distance : BitVec 32) (w : SPFVertex) : Prop where
  lsa : w.lsa = wLsa
  distance : w.distanceFromRoot = distance
  parents : w.parents = [v.vertexId]
  exits : w.ecmpRootExits ≠ []
  first : v.vertexId = ctx.root → ∀ e ∈ w.ecmpRootExits, ∃ r, l = some r ∧ e.2 = outgoing ctx r wLsa
  next : v.vertexId ≠ ctx.root → ∀ e ∈ w.ecmpRootExits, ∃ e' ∈ v.ecmpRootExits, e'.2 = e.2

theorem ReachedFrom.routed (h : ReachedFrom ctx v l wLsa distance w)
    (hv : v.vertexId = ctx.root ∨ Routed db ctx v)
    (hfirst : ∀ r, l = some r → v.vertexId = ctx.root →
      Leaves db ctx wLsa.linkStateId distance.toNat (outgoing ctx r wLsa))
    (hedge : Edge db v.vertexId wLsa.linkStateId c)
    (hdist : distance.toNat = v.distanceFromRoot.toNat + c) : Routed db ctx w where
  exits := h.exits
  leaves e he := by
    have hid : w.vertexId = wLsa.linkStateId := congrArg GlobalRoutingLSA.linkStateId h.lsa
    rw [hid, h.distance]
    by_cases hroot : v.vertexId = ctx.root
    · obtain ⟨r, hr, heq⟩ := h.first hroot e he
      rw [heq]
      exact hfirst r hr hroot
    · obtain ⟨e', he', heq⟩ := h.next hroot e he
      rw [hdist, ← heq]
      exact ((hv.resolve_left hroot).leaves e' he').next hedge

/-- Two links back at most: only the first of them is looked at. -/
theorem exitsByNetwork_eq {asserts : Bool} {exit : NodeExit}
    (hexit : v.getRootExitDirection asserts = some exit)
    (htwo : (w.lsa.linksTo v.vertexId).length ≤ 2) (fuel : Nat) :
    exitsByNetwork asserts v (fuel + 2) none w =
      some ((w.lsa.linksTo v.vertexId).head?.elim w fun r =>
        w.setRootExitDirection (r.linkData, exit.2)) := by
  cases hlinks : w.lsa.linksTo v.vertexId with
  | nil =>
    have hfirst : spfGetNextLink w v none = none := by rw [spfGetNextLink_first, hlinks]; rfl
    simp [exitsByNetwork, hfirst]
  | cons r rs =>
    have hfirst : spfGetNextLink w v none = some r := by rw [spfGetNextLink_first, hlinks]; rfl
    have hnext : spfGetNextLink (w.setRootExitDirection (r.linkData, exit.2)) v (some r) = none := by
      rw [spfGetNextLink_next]
      exact List.getElem?_eq_none htwo
    simp [exitsByNetwork, hfirst, hexit, hnext]

/-- From a network next to the root one exit is found, if there are one or two links back. -/
theorem exitsByNetwork_some (hexits : v.ecmpRootExits ≠ []) (hback : w.lsa.linksTo v.vertexId ≠ [])
    (htwo : (w.lsa.linksTo v.vertexId).length ≤ 2) :
    ∃ e ∈ v.ecmpRootExits, ∃ nextHop,
      exitsByNetwork false v 2 none w = some (w.setRootExitDirection (nextHop, e.2)) := by
  obtain ⟨e, es, hes⟩ := List.exists_cons_of_ne_nil hexits
  obtain ⟨r, rs, hrs⟩ := List.exists_cons_of_ne_nil hback
  have hexit : v.getRootExitDirection false = some e := by
    simp [SPFVertex.getRootExitDirection, hes]
  refine ⟨e, hes ▸ List.mem_cons_self, r.linkData, ?_⟩
  rw [exitsByNetwork_eq hexit htwo 0, hrs]
  rfl

/-- With three links back the loop goes on for ever. -/
theorem exitsByNetwork_forever (asserts : Bool) (h : 2 < (w.lsa.linksTo v.vertexId).length)
    (fuel : Nat) (r : Option GlobalRoutingLinkRecord) :
    exitsByNetwork asserts v fuel r w = none := by
  induction fuel generalizing r w with
  | zero => rfl
  | succ fuel ih =>
    obtain ⟨r', hr'⟩ : ∃ r', spfGetNextLink w v r = some r' := by
      cases r with
      | none => exact ⟨_, spfGetNextLink_first.trans (List.getElem?_eq_getElem (by omega))⟩
      | some r => exact ⟨_, (spfGetNextLink_next r).trans (List.getElem?_eq_getElem h)⟩
    unfold exitsByNetwork
    rw [hr']
    cases v.getRootExitDirection asserts with
    | none => rfl
    | some exit =>
      exact ih (w := w.setRootExitDirection (r'.linkData, exit.2)) h (some r')

/-- The next hops off a network next to the root: the loop ends when at most two links lead back,
with the first of them as the only exit. -/
theorem exitsByNetwork_ends_iff {asserts : Bool} {exit : NodeExit}
    (hexit : v.getRootExitDirection asserts = some exit) :
    ((∃ fuel w', exitsByNetwork asserts v fuel none w = some w') ↔
      (w.lsa.linksTo v.vertexId).length ≤ 2) ∧
    ∀ fuel w', exitsByNetwork asserts v fuel none w = some w' →
      w' = (w.lsa.linksTo v.vertexId).head?.elim w fun r =>
        w.setRootExitDirection (r.linkData, exit.2) := by
  have htwo : ∀ {fuel w'}, exitsByNetwork asserts v fuel none w = some w' →
      (w.lsa.linksTo v.vertexId).length ≤ 2 := by
    intro fuel w' h
    by_contra hthree
    rw [exitsByNetwork_forever asserts (Nat.lt_of_not_le hthree)] at h
    cases h
  refine ⟨⟨fun ⟨_, _, h⟩ => htwo h, fun h => ⟨2, _, exitsByNetwork_eq hexit h 0⟩⟩, ?_⟩
  intro fuel w' h
  match fuel with
  | 0 => cases h
  | 1 =>
    -- one round is enough only when no link leads back
    cases hlinks : w.lsa.linksTo v.vertexId with
    | nil =>
      have hfirst : spfGetNextLink w v none = none := by rw [spfGetNextLink_first, hlinks]; rfl
      simp [exitsByNetwork, hfirst] at h
      exact h.symm
    | cons r rs =>
      have hfirst : spfGetNextLink w v none = some r := by rw [spfGetNextLink_first, hlinks]; rfl
      simp [exitsByNetwork, hfirst, hexit] at h
  | fuel + 2 =>
    rw [exitsByNetwork_eq hexit (htwo h)] at h
    exact (Option.some.inj h).symm

/-- A network next to the root, and a router that is attached to it three times. -/
theorem exitsByNetwork_ends_iff_three :
    let v : SPFVertex :=
      { lsa := { lsType := .networkLSA, linkStateId := 10 }, ecmpRootExits := [(0, 1)] }
    let link (data : Ipv4Address) : GlobalRoutingLinkRecord := ⟨10, data, .transitNetwork, 1⟩
    let w : SPFVertex :=
      { lsa := { lsType := .routerLSA, linkStateId := 2, linkRecords := [link 1, link 2, link 3] } }
    ¬ ∃ fuel w', exitsByNetwork true v fuel none w = some w' := by
  intro v link w hends
  have hexit : v.getRootExitDirection true = some (0, 1) := rfl
  exact absurd ((exitsByNetwork_ends_iff hexit).1.mp hends) (by decide)

/-- The links back of a vertex that the calculation needs to find a next hop. -/
structure LinkedBack (ctx : SpfContext) (v : SPFVertex) (l : Option GlobalRoutingLinkRecord)
    (lsa : GlobalRoutingLSA) : Prop where
  root : v.vertexId = ctx.root → l ≠ none ∧
    (lsa.lsType = .routerLSA → lsa.linksTo v.vertexId ≠ [])
  network : v.vertexType = .network → lsa.lsType = .routerLSA ∧ lsa.linksTo v.vertexId ≠ [] ∧
    (lsa.linksTo v.vertexId).length ≤ 2
  asserts : ctx.asserts = false ∨ v.vertexType = .router
  exits : v.vertexId = ctx.root ∨ v.ecmpRootExits ≠ []
  internal : lsa.lsType ≠ .asExternalLSAs

theorem spfNexthopCalculation_some (h : LinkedBack ctx v l w.lsa) (distance : BitVec 32) :
    ∃ w', spfNexthopCalculation ctx v w l distance = some w' ∧
      ReachedFrom ctx v l w.lsa distance w' := by
  unfold spfNexthopCalculation
  by_cases hroot : v.vertexId = ctx.root
  · obtain ⟨hl, hback⟩ := h.root hroot
    obtain ⟨l, rfl⟩ := Option.ne_none_iff_exists'.mp hl
    rw [if_pos hroot]
    cases htype : w.vertexType with
    | network =>
      have hnetwork : w.lsa.lsType = .networkLSA := by simpa [SPFVertex.vertexType] using htype
      refine ⟨_, rfl, rfl, rfl, rfl, List.cons_ne_nil _ _, ?_, absurd hroot⟩
      intro _ e he
      obtain rfl := List.mem_singleton.mp he
      exact ⟨l, rfl, (if_pos hnetwork).symm⟩
    | router =>
      have hnetwork : w.lsa.lsType ≠ .networkLSA := by simpa [SPFVertex.vertexType] using htype
      have hrouter : w.lsa.lsType = .routerLSA := by
        have := h.internal
        cases hlsa : w.lsa.lsType <;> simp_all
      obtain ⟨r, rs, hrs⟩ := List.exists_cons_of_ne_nil (hback hrouter)
      have hfirst : spfGetNextLink w v none = some r := by rw [spfGetNextLink_first, hrs]; rfl
      simp only [hfirst]
      refine ⟨_, rfl, rfl, rfl, rfl, List.cons_ne_nil _ _, ?_, absurd hroot⟩
      intro _ e he
      obtain rfl := List.mem_singleton.mp he
      exact ⟨l, rfl, (if_neg hnetwork).symm⟩
  · rw [if_neg hroot]
    have hexits := h.exits.resolve_left hroot
    cases htype : v.vertexType with
    | router =>
      exact ⟨_, rfl, rfl, rfl, rfl, hexits, fun hid => absurd hid hroot, fun _ e he => ⟨e, he, rfl⟩⟩
    | network =>
      obtain ⟨hrouter, hback, htwo⟩ := h.network htype
      have hasserts : ctx.asserts = false := h.asserts.resolve_right (by rw [htype]; decide)
      simp only [hasserts]
      split_ifs with hparent hbad
      · exact hbad.1.elim
      · obtain ⟨e, he, nextHop, hexit⟩ := exitsByNetwork_some hexits hback htwo
        rw [hexit]
        refine ⟨_, rfl, rfl, rfl, rfl, List.cons_ne_nil _ _, fun hid => absurd hid hroot, ?_⟩
        intro _ e' he'
        obtain rfl := List.mem_singleton.mp he'
        exact ⟨e, he, rfl⟩
      · obtain ⟨e, es, hes⟩ := List.exists_cons_of_ne_nil hexits
        simp only [SPFVertex.getRootExitDirection, hes, Bool.false_eq_true, false_and, if_false,
          List.head?_cons]
        refine ⟨_, rfl, rfl, rfl, rfl, List.cons_ne_nil _ _, fun hid => absurd hid hroot, ?_⟩
        intro _ e' he'
        obtain rfl := List.mem_singleton.mp he'
        exact ⟨e', hes ▸ List.mem_cons_self, rfl⟩

/-! ### One record -/

/-- A vertex of the list has that distance. -/
def At (l : List SPFVertex) (x : Ipv4Address) (d : Nat) : Prop :=
  ∃ v ∈ l, v.vertexId = x ∧ v.distanceFromRoot.toNat = d

/-- Some of the edges that leave the tree have been looked at. -/
structure Searching (db : GlobalRouteManagerLSDB) (ctx : SpfContext)
    (relaxed : Ipv4Address → Ipv4Address → Nat → Prop) (tree : List SPFVertex) (s : SpfState) :
    Prop where
  labels : ShortestPaths.Labels (Edge db) ctx.root relaxed (At tree) (At s.candidate)
  inTree : ∀ x, s.status x = .inSpfTree ↔ x ∈ tree.map SPFVertex.vertexId
  inQueue : ∀ x, s.status x = .candidate ↔ x ∈ s.candidate.map SPFVertex.vertexId
  distinct : Bindings.Distinct SPFVertex.vertexId s.candidate
  sorted : CandidateQueue.Sorted s.candidate
  known : ∀ u ∈ s.candidate, u.lsa ∈ db.database ∧ Routed db ctx u
  low : ∀ u ∈ s.candidate, u.distanceFromRoot.toNat ≤ 65535 * tree.length

/-- `v` was settled last. -/
structure Current (db : GlobalRouteManagerLSDB) (ctx : SpfContext) (tree : List SPFVertex)
    (v : SPFVertex) : Prop where
  mem : v ∈ tree
  last : ∀ u ∈ tree, u.distanceFromRoot.toNat ≤ v.distanceFromRoot.toNat
  known : v.lsa ∈ db.database
  routed : v.vertexId = ctx.root ∨ Routed db ctx v
  low : v.distanceFromRoot.toNat + 65535 ≤ 65535 * tree.length
  room : tree.length ≤ 65537

variable {relaxed : Ipv4Address → Ipv4Address → Nat → Prop}

theorem Searching.fresh (h : Searching db ctx relaxed tree s) (hx : s.status x ≠ .inSpfTree) :
    ¬ At tree x d := by
  rintro ⟨u, hu, rfl, -⟩
  exact hx ((h.inTree _).mpr (List.mem_map_of_mem hu))

/-- The vertex at the end of an edge of `v` has a label that is no worse than by this edge. -/
theorem Searching.relabel (h : Searching db ctx relaxed tree s) (hv : Current db ctx tree v)
    (hedge : Edge db v.vertexId w.vertexId c) (hnew : s.status w.vertexId ≠ .inSpfTree)
    (hle : w.distanceFromRoot.toNat ≤ v.distanceFromRoot.toNat + c)
    (hd : w.distanceFromRoot.toNat = v.distanceFromRoot.toNat + c ∨
      At s.candidate w.vertexId w.distanceFromRoot.toNat)
    (hleast : ∀ b, At s.candidate w.vertexId b → w.distanceFromRoot.toNat ≤ b)
    (hknown : w.lsa ∈ db.database ∧ Routed db ctx w)
    {s' : SpfState}
    (hmem : ∀ u, u ∈ s'.candidate ↔ u = w ∨ (u ∈ s.candidate ∧ u.vertexId ≠ w.vertexId))
    (hdistinct : Bindings.Distinct SPFVertex.vertexId s'.candidate)
    (hsorted : CandidateQueue.Sorted s'.candidate)
    (hstatus : ∀ x, s'.status x = if x = w.vertexId then .candidate else s.status x) :
    Searching db ctx
      (fun x y b => relaxed x y b ∨ (x = v.vertexId ∧ y = w.vertexId ∧ b = c)) tree s' where
  labels := by
    have hsettled : At tree v.vertexId v.distanceFromRoot.toNat := ⟨v, hv.mem, rfl, rfl⟩
    have hlast : ∀ {x b}, At tree x b → b ≤ v.distanceFromRoot.toNat := by
      rintro x b ⟨u, hu, -, rfl⟩
      exact hv.last u hu
    apply h.labels.relax_queued hsettled hlast hedge (h.fresh hnew) hle hd _ (hleast _)
    intro x b
    constructor
    · rintro ⟨u, hu, rfl, rfl⟩
      rcases (hmem u).mp hu with rfl | ⟨hu, hne⟩
      · exact .inr ⟨rfl, rfl⟩
      · exact .inl ⟨hne, u, hu, rfl, rfl⟩
    · rintro (⟨hne, u, hu, rfl, rfl⟩ | ⟨rfl, rfl⟩)
      · exact ⟨u, (hmem u).mpr (.inr ⟨hu, hne⟩), rfl, rfl⟩
      · exact ⟨w, (hmem w).mpr (.inl rfl), rfl, rfl⟩
  inTree x := by
    by_cases hx : x = w.vertexId
    · subst hx
      rw [hstatus, if_pos rfl, ← h.inTree]
      exact iff_of_false (by decide) hnew
    · rw [hstatus, if_neg hx, h.inTree]
  inQueue x := by
    rw [hstatus]
    simp only [List.mem_map, hmem]
    by_cases hx : x = w.vertexId
    · rw [if_pos hx]
      exact iff_of_true rfl ⟨w, .inl rfl, hx.symm⟩
    · rw [if_neg hx, h.inQueue, List.mem_map]
      constructor
      · rintro ⟨u, hu, rfl⟩
        exact ⟨u, .inr ⟨hu, hx⟩, rfl⟩
      · rintro ⟨u, rfl | ⟨hu, -⟩, rfl⟩
        · exact absurd rfl hx
        · exact ⟨u, hu, rfl⟩
  distinct := hdistinct
  sorted := hsorted
  known u hu := by
    rcases (hmem u).mp hu with rfl | ⟨hu, -⟩
    · exact hknown
    · exact h.known u hu
  low u hu := by
    rcases (hmem u).mp hu with rfl | ⟨hu, -⟩
    · have := edge_le hedge
      have := hv.low
      omega
    · exact h.low u hu

/-- A candidate is overwritten, with its own distance or a lower one. -/
theorem Searching.overwrite (h : Searching db ctx relaxed tree s) (hv : Current db ctx tree v)
    {cw : SPFVertex} (hcw : cw ∈ s.candidate) (hlsa : w.lsa = cw.lsa)
    (hrouted : Routed db ctx w) (hedge : Edge db v.vertexId cw.vertexId c)
    (hle : w.distanceFromRoot.toNat ≤ v.distanceFromRoot.toNat + c)
    (hd : w.distanceFromRoot.toNat = v.distanceFromRoot.toNat + c ∨
      w.distanceFromRoot = cw.distanceFromRoot)
    (hleast : w.distanceFromRoot.toNat ≤ cw.distanceFromRoot.toNat)
    {q : CandidateQueue} (hperm : q.Perm (CandidateQueue.update s.candidate w))
    (hsorted : CandidateQueue.Sorted q) :
    Searching db ctx (fun x y b => relaxed x y b ∨ (x = v.vertexId ∧ y = cw.vertexId ∧ b = c)) tree
      ⟨s.status, q⟩ := by
  have hid : cw.vertexId = w.vertexId := congrArg GlobalRoutingLSA.linkStateId hlsa.symm
  have hstatus : s.status w.vertexId = .candidate :=
    (h.inQueue _).mpr (hid ▸ List.mem_map_of_mem hcw)
  have honly : ∀ u ∈ s.candidate, u.vertexId = w.vertexId → u = cw := by
    intro u hu heq
    have hget := h.distinct.get_iff.mpr ⟨hu, heq⟩
    rw [h.distinct.get_iff.mpr ⟨hcw, hid⟩] at hget
    exact (Option.some.inj hget).symm
  rw [hid] at hedge ⊢
  apply h.relabel hv hedge (by rw [hstatus]; decide) hle
  · exact hd.imp_right fun heq => ⟨cw, hcw, hid, congrArg _ heq.symm⟩
  · rintro b ⟨u, hu, heq, rfl⟩
    exact honly u hu heq ▸ hleast
  · exact ⟨hlsa ▸ (h.known cw hcw).1, hrouted⟩
  · intro u
    exact hperm.mem_iff.trans h.distinct.mem_put
  · exact (hperm.map SPFVertex.vertexId).nodup_iff.mpr (h.distinct.put w)
  · exact hsorted
  · intro x
    by_cases hx : x = w.vertexId
    · rw [if_pos hx, hx, hstatus]
    · rw [if_neg hx]

/-- An edge that leads back into the tree. -/
theorem Searching.settled (h : Searching db ctx relaxed tree s) (hx : s.status y = .inSpfTree) :
    Searching db ctx (fun a b e => relaxed a b e ∨ (a = x ∧ b = y ∧ e = c)) tree s := by
  obtain ⟨u, hu, hid⟩ := List.mem_map.mp ((h.inTree y).mp hx)
  have hlabels := h.labels.relax_settled (v := x) (c := c) ⟨u, hu, hid, rfl⟩
  exact { h with labels := hlabels }

theorem Searching.distance_root (h : Searching db ctx relaxed tree s) (hv : v ∈ tree)
    (hid : v.vertexId = ctx.root) : v.distanceFromRoot.toNat = 0 :=
  (h.labels.shortest ⟨v, hv, hid, rfl⟩).eq ShortestPaths.shortest_root

/-- What `SPFNext` does with one edge. -/
theorem Searching.examine (h : Searching db ctx relaxed tree s) (hv : Current db ctx tree v)
    (hlinked : LinkedBack ctx v l wLsa) (hw : wLsa ∈ db.database)
    (hedge : Edge db v.vertexId wLsa.linkStateId c) (hby : distanceBy v l = some distance)
    (hdist : distance.toNat = v.distanceFromRoot.toNat + c)
    (hfirst : ∀ r, l = some r → v.vertexId = ctx.root →
      Leaves db ctx wLsa.linkStateId distance.toNat (outgoing ctx r wLsa)) :
    ∃ s', examine ctx v l wLsa s = some s' ∧ Searching db ctx
      (fun x y b => relaxed x y b ∨ (x = v.vertexId ∧ y = wLsa.linkStateId ∧ b = c)) tree s' := by
  unfold GlobalRouteManagerImpl.examine
  by_cases htree : s.status wLsa.linkStateId = .inSpfTree
  · rw [if_pos htree]
    exact ⟨s, rfl, h.settled htree⟩
  rw [if_neg htree, hby]
  cases hstatus : s.status wLsa.linkStateId with
  | inSpfTree => exact absurd hstatus htree
  | notExplored =>
    obtain ⟨w, hcalc, hreach⟩ := spfNexthopCalculation_some (w := { lsa := wLsa }) hlinked distance
    have hid : w.vertexId = wLsa.linkStateId := congrArg GlobalRoutingLSA.linkStateId hreach.lsa
    have hlabel : w.distanceFromRoot.toNat = v.distanceFromRoot.toNat + c := by
      rw [hreach.distance, hdist]
    have hnone : ∀ u ∈ s.candidate, u.vertexId ≠ wLsa.linkStateId := by
      intro u hu heq
      have := (h.inQueue wLsa.linkStateId).mpr (heq ▸ List.mem_map_of_mem hu)
      rw [hstatus] at this
      cases this
    have hrouted : Routed db ctx w := hreach.routed hv.routed hfirst hedge hdist
    simp only [Option.bind_eq_bind, Option.bind_some, hcalc]
    refine ⟨_, rfl, ?_⟩
    rw [← hid] at hedge htree hnone ⊢
    apply h.relabel hv hedge htree hlabel.le (.inl hlabel)
    · rintro b ⟨u, hu, heq, -⟩
      exact absurd heq (hnone u hu)
    · exact ⟨hreach.lsa ▸ hw, hrouted⟩
    · intro u
      rw [CandidateQueue.push_perm.mem_iff, List.mem_cons]
      exact or_congr_right (and_iff_left_of_imp (hnone u)).symm
    · apply (CandidateQueue.push_perm.map SPFVertex.vertexId).nodup_iff.mpr
      apply List.nodup_cons.mpr
      refine ⟨?_, h.distinct⟩
      intro hmem
      obtain ⟨u, hu, heq⟩ := List.mem_map.mp hmem
      exact hnone u hu heq
    · exact CandidateQueue.sorted_push h.sorted
    · exact fun _ => rfl
  | candidate =>
    obtain ⟨cw, hcw, hid⟩ := List.mem_map.mp ((h.inQueue _).mp hstatus)
    have hfind : CandidateQueue.find s.candidate wLsa.linkStateId = some cw :=
      h.distinct.get_iff.mpr ⟨hcw, hid⟩
    have hlsa : cw.lsa = wLsa :=
      GlobalRouteManagerLSDB.eq_of_linkStateId (h.known cw hcw).1 hw hid
    have hget : Bindings.get SPFVertex.vertexId s.candidate cw.vertexId = some cw :=
      h.distinct.get_iff.mpr ⟨hcw, rfl⟩
    simp only [Option.bind_eq_bind, Option.bind_some, hfind]
    have hrouted : ∀ {w}, ReachedFrom ctx v l wLsa distance w → Routed db ctx w :=
      fun hreach => hreach.routed hv.routed hfirst hedge hdist
    rw [← hid] at hedge ⊢
    split_ifs with hlt heq
    · refine ⟨s, rfl, ?_⟩
      have hself : (CandidateQueue.update s.candidate cw).map id = s.candidate.map id :=
        Bindings.map_put_of_get hget rfl
      rw [List.map_id, List.map_id] at hself
      have hle : cw.distanceFromRoot.toNat ≤ v.distanceFromRoot.toNat + c :=
        hdist ▸ (BitVec.le_of_lt hlt)
      exact h.overwrite hv hcw rfl (h.known cw hcw).2 hedge hle (.inr rfl) le_rfl
        (.of_eq hself.symm) h.sorted
    · obtain ⟨w, hcalc, hreach⟩ := spfNexthopCalculation_some (w := { lsa := wLsa }) hlinked distance
      rw [hcalc]
      refine ⟨_, rfl, ?_⟩
      have hlabel : cw.distanceFromRoot.toNat = v.distanceFromRoot.toNat + c := by rw [heq, hdist]
      have hwid : w.vertexId = wLsa.linkStateId := congrArg GlobalRoutingLSA.linkStateId hreach.lsa
      exact h.overwrite (w := (cw.mergeRootExitDirections w).mergeParent w ctx.address) hv hcw rfl
        ((h.known cw hcw).2.merge (hrouted hreach) (hid.trans hwid.symm)
          (heq.trans hreach.distance.symm))
        hedge hlabel.le (.inr rfl) le_rfl (.refl _)
        (CandidateQueue.sorted_update h.sorted hget rfl)
    · obtain ⟨w, hcalc, hreach⟩ := spfNexthopCalculation_some (w := cw) (hlsa ▸ hlinked) distance
      rw [hcalc]
      refine ⟨_, rfl, ?_⟩
      have hlabel : w.distanceFromRoot.toNat = v.distanceFromRoot.toNat + c := by
        rw [hreach.distance, hdist]
      have hlower : w.distanceFromRoot.toNat ≤ cw.distanceFromRoot.toNat :=
        hreach.distance ▸ BitVec.not_lt.mp hlt
      exact h.overwrite hv hcw hreach.lsa (hrouted (hlsa ▸ hreach)) hedge hlabel.le (.inl hlabel)
        hlower CandidateQueue.reorder_perm CandidateQueue.sorted_reorder

/-! ### All records of a vertex -/

theorem Searching.mono (h : Searching db ctx relaxed tree s)
    {relaxed' : Ipv4Address → Ipv4Address → Nat → Prop}
    (hsub : ∀ {x y b}, relaxed' x y b → relaxed x y b) : Searching db ctx relaxed' tree s :=
  { h with labels := h.labels.mono hsub }

theorem Searching.foldlM {β : Type} {f : SpfState → β → Option SpfState}
    {leads : β → Ipv4Address → Nat → Prop} {bs : List β}
    (hstep : ∀ b ∈ bs, ∀ relaxed s, Searching db ctx relaxed tree s → ∃ s', f s b = some s' ∧
      Searching db ctx (fun x y c => relaxed x y c ∨ (x = v.vertexId ∧ leads b y c)) tree s')
    (h : Searching db ctx relaxed tree s) :
    ∃ s', bs.foldlM f s = some s' ∧ Searching db ctx
      (fun x y c => relaxed x y c ∨ (x = v.vertexId ∧ ∃ b ∈ bs, leads b y c)) tree s' := by
  induction bs generalizing relaxed s with
  | nil =>
    refine ⟨s, rfl, h.mono ?_⟩
    rintro x y c (hr | ⟨-, b, hb, -⟩)
    · exact hr
    · cases hb
  | cons b bs ih =>
    obtain ⟨hb, hbs⟩ := List.forall_mem_cons.mp hstep
    obtain ⟨s', hs', h'⟩ := hb relaxed s h
    obtain ⟨s'', hs'', h''⟩ := ih hbs h'
    refine ⟨s'', ?_, h''.mono ?_⟩
    · rw [List.foldlM_cons, hs']
      exact hs''
    · rintro x y c (hr | ⟨hx, b', hb', hlead⟩)
      · exact .inl (.inl hr)
      · rcases List.mem_cons.mp hb' with rfl | hb'
        · exact .inl (.inr ⟨hx, hlead⟩)
        · exact .inr ⟨hx, b', hb', hlead⟩

/-- The edges that leave a router or a network are those of its advertisement. -/
theorem edge_inv {lsa : GlobalRoutingLSA} (hlsa : lsa ∈ db.database)
    (h : Edge db lsa.linkStateId y c) :
    (lsa.lsType = .routerLSA ∧ ∃ l ∈ lsa.linkRecords, l.linkType ≠ .stubNetwork ∧ y = l.linkId ∧
      c = l.metric.toNat) ∨
    (lsa.lsType = .networkLSA ∧ ∃ a ∈ lsa.attachedRouters, ∃ w, db.getLSAByLinkData a = some w ∧
      y = w.linkStateId ∧ c = 0) := by
  generalize hx : lsa.linkStateId = x at h
  cases h with
  | link hv htype hl hstub =>
    obtain rfl := GlobalRouteManagerLSDB.eq_of_linkStateId hlsa hv hx
    exact .inl ⟨htype, _, hl, hstub, rfl, rfl⟩
  | attached hv htype ha hw =>
    obtain rfl := GlobalRouteManagerLSDB.eq_of_linkStateId hlsa hv hx
    exact .inr ⟨htype, _, ha, _, hw, rfl, rfl⟩

theorem Current.distance_link (hv : Current db ctx tree v) (hrouter : v.lsa.lsType = .routerLSA)
    (l : GlobalRoutingLinkRecord) : ∃ distance, distanceBy v (some l) = some distance ∧
      distance.toNat = v.distanceFromRoot.toNat + l.metric.toNat := by
  refine ⟨v.distanceFromRoot + l.metric.setWidth 32, ?_, ?_⟩
  · rw [distanceBy, if_pos hrouter]
    rfl
  · have hlow := hv.low
    have hroom := hv.room
    have hmetric := l.metric.isLt
    have hwide : (l.metric.setWidth 32).toNat = l.metric.toNat :=
      BitVec.toNat_setWidth_of_le (by decide)
    rw [BitVec.toNat_add, hwide]
    exact Nat.mod_eq_of_lt (by omega)

section Next

variable (hwf : WellFormed db)
  (hprofile : ctx.asserts = false ∨ ∀ lsa ∈ db.database, lsa.lsType = .routerLSA)
  (hroot : ∀ lsa ∈ db.database, lsa.linkStateId = ctx.root → lsa.lsType = .routerLSA)
include hwf

theorem Searching.examineLink (h : Searching db ctx relaxed tree s) (hv : Current db ctx tree v)
    (hrouter : v.lsa.lsType = .routerLSA) {l : GlobalRoutingLinkRecord}
    (hl : l ∈ v.lsa.linkRecords) : ∃ s', examineLink db ctx v s l = some s' ∧ Searching db ctx
      (fun x y c => relaxed x y c ∨ (x = v.vertexId ∧ l.linkType ≠ .stubNetwork ∧ y = l.linkId ∧
        c = l.metric.toNat)) tree s' := by
  by_cases hstub : l.linkType = .stubNetwork
  · refine ⟨s, by rw [GlobalRouteManagerImpl.examineLink, hstub], h.mono ?_⟩
    rintro x y c (hr | ⟨-, hne, -⟩)
    · exact hr
    · exact absurd hstub hne
  obtain ⟨htype, wLsa, hw, hid, hback⟩ := hwf.transit v.lsa hv.known hrouter l hl hstub
  have hvtype : v.vertexType = .router := by simp [SPFVertex.vertexType, hrouter]
  have hlinked : LinkedBack ctx v (some l) wLsa :=
    { root := fun _ => ⟨Option.some_ne_none l, hback⟩
      network := fun hnetwork => by rw [hvtype] at hnetwork; cases hnetwork
      asserts := .inr hvtype
      exits := hv.routed.imp_right Routed.exits
      internal := db.internal wLsa hw }
  have hedge : Edge db v.vertexId wLsa.linkStateId l.metric.toNat :=
    hid ▸ Edge.link hv.known hrouter hl hstub hw hid
  obtain ⟨distance, hby, hdist⟩ := hv.distance_link hrouter l
  have hfirst : ∀ r, some l = some r → v.vertexId = ctx.root →
      Leaves db ctx wLsa.linkStateId distance.toNat (outgoing ctx r wLsa) := by
    rintro r hr heq
    obtain rfl := Option.some.inj hr
    rw [hdist, h.distance_root hv.mem heq, Nat.zero_add]
    exact .first hv.known heq hrouter hl hstub hw hid
  obtain ⟨s', hs', h'⟩ := h.examine hv hlinked hw hedge hby hdist hfirst
  refine ⟨s', ?_, h'.mono ?_⟩
  · have hget : db.getLSA l.linkId = some wLsa :=
      GlobalRouteManagerLSDB.getLSA_eq_some.mpr ⟨hw, hid⟩
    rcases htype with htype | htype <;> simp [GlobalRouteManagerImpl.examineLink, htype, hget, hs']
  · rintro x y c (hr | ⟨rfl, -, rfl, rfl⟩)
    · exact .inl hr
    · exact .inr ⟨rfl, hid.symm, rfl⟩

include hprofile hroot

theorem Searching.examineAttached (h : Searching db ctx relaxed tree s)
    (hv : Current db ctx tree v) (hnetwork : v.lsa.lsType = .networkLSA) {a : Ipv4Address}
    (ha : a ∈ v.lsa.attachedRouters) : ∃ s', examineAttached db ctx v s a = some s' ∧
      Searching db ctx (fun x y c => relaxed x y c ∨ (x = v.vertexId ∧
        ∃ w, db.getLSAByLinkData a = some w ∧ y = w.linkStateId ∧ c = 0)) tree s' := by
  unfold GlobalRouteManagerImpl.examineAttached
  cases hget : db.getLSAByLinkData a with
  | none =>
    refine ⟨s, rfl, h.mono ?_⟩
    rintro x y c (hr | ⟨-, w, hw, -⟩)
    · exact hr
    · cases hw
  | some wLsa =>
    have hw : wLsa ∈ db.database := List.mem_of_find?_eq_some hget
    have hback := hwf.attached v.lsa hv.known hnetwork a ha wLsa hget
    have hasserts : ctx.asserts = false := by
      refine hprofile.resolve_right ?_
      intro hall
      have := hall v.lsa hv.known
      rw [hnetwork] at this
      cases this
    have hlinked : LinkedBack ctx v none wLsa :=
      { root := fun hid => by
          have := hroot v.lsa hv.known hid
          rw [hnetwork] at this
          cases this
        network := fun _ => hback
        asserts := .inl hasserts
        exits := hv.routed.imp_right Routed.exits
        internal := db.internal wLsa hw }
    have hby : distanceBy v none = some v.distanceFromRoot := by
      simp [distanceBy, hnetwork]
    obtain ⟨s', hs', h'⟩ := h.examine hv hlinked hw (.attached hv.known hnetwork ha hget) hby rfl nofun
    refine ⟨s', hs', h'.mono ?_⟩
    rintro x y c (hr | ⟨rfl, w, hw', rfl, rfl⟩)
    · exact .inl hr
    · exact .inr ⟨rfl, congrArg _ (Option.some.inj hw').symm, rfl⟩

theorem Searching.spfNext (h : Searching db ctx relaxed tree s) (hv : Current db ctx tree v) :
    ∃ s', spfNext db ctx v s = some s' ∧ Searching db ctx
      (fun x y c => relaxed x y c ∨ (x = v.vertexId ∧ Edge db x y c)) tree s' := by
  have hinv := fun {y c} => edge_inv (y := y) (c := c) hv.known
  unfold GlobalRouteManagerImpl.spfNext
  by_cases hnetwork : v.lsa.lsType = .networkLSA
  · have htype : v.vertexType = .network := by simp [SPFVertex.vertexType, hnetwork]
    rw [htype]
    have hstep : ∀ a ∈ v.lsa.attachedRouters, ∀ relaxed s, Searching db ctx relaxed tree s → _ :=
      fun a ha _ _ h => h.examineAttached hwf hprofile hroot hv hnetwork ha
    obtain ⟨s', hs', h'⟩ := h.foldlM hstep
    refine ⟨s', hs', h'.mono ?_⟩
    rintro x y c (hr | ⟨rfl, hedge⟩)
    · exact .inl hr
    · rcases hinv hedge with ⟨hrouter, -⟩ | ⟨-, hlead⟩
      · rw [hnetwork] at hrouter
        cases hrouter
      · exact .inr ⟨rfl, hlead⟩
  · have hrouter : v.lsa.lsType = .routerLSA := by
      have := db.internal v.lsa hv.known
      cases htype : v.lsa.lsType <;> simp_all
    have htype : v.vertexType = .router := by simp [SPFVertex.vertexType, hrouter]
    rw [htype]
    have hstep : ∀ l ∈ v.lsa.linkRecords, ∀ relaxed s, Searching db ctx relaxed tree s → _ :=
      fun l hl _ _ h => h.examineLink hwf hv hrouter hl
    obtain ⟨s', hs', h'⟩ := h.foldlM hstep
    refine ⟨s', hs', h'.mono ?_⟩
    rintro x y c (hr | ⟨rfl, hedge⟩)
    · exact .inl hr
    · rcases hinv hedge with ⟨-, hlead⟩ | ⟨hnet, -⟩
      · exact .inr ⟨rfl, hlead⟩
      · exact absurd hnet hnetwork

/-! ### The main loop -/

/-- Everything that can be reached, in order of distance. -/
structure ShortestTree (db : GlobalRouteManagerLSDB) (ctx : SpfContext) (tree : List SPFVertex) :
    Prop where
  ordered : tree.Pairwise fun a b => a.distanceFromRoot ≤ b.distanceFromRoot
  distinct : Bindings.Distinct SPFVertex.vertexId tree
  shortest : ∀ x d, At tree x d ↔ ShortestPaths.Shortest (Edge db) ctx.root x d

/-- The part of the tree that is there, whose last vertex is `v`. -/
structure Grown (db : GlobalRouteManagerLSDB) (ctx : SpfContext) (done : List SPFVertex)
    (v : SPFVertex) : Prop where
  current : Current db ctx (done ++ [v]) v
  ordered : (done ++ [v]).Pairwise fun a b => a.distanceFromRoot ≤ b.distanceFromRoot
  distinct : Bindings.Distinct SPFVertex.vertexId (done ++ [v])
  known : ∀ u ∈ done ++ [v], u.lsa ∈ db.database ∧ (u.vertexId = ctx.root ∨ Routed db ctx u)

omit hwf hprofile hroot in
/-- There are no more vertices than advertisements. -/
theorem length_le_database {l : List SPFVertex} (hdistinct : Bindings.Distinct SPFVertex.vertexId l)
    (hknown : ∀ u ∈ l, u.lsa ∈ db.database) : l.length ≤ db.database.length := by
  have hsub : l.map SPFVertex.vertexId ⊆ db.database.map GlobalRoutingLSA.linkStateId := by
    intro x hx
    obtain ⟨u, hu, rfl⟩ := List.mem_map.mp hx
    exact List.mem_map_of_mem (hknown u hu)
  have hle := (hdistinct.subperm hsub).length_le
  rwa [List.length_map, List.length_map] at hle

omit hwf hprofile hroot in
theorem at_append_singleton (u : SPFVertex) :
    At (tree ++ [u]) = fun x d => At tree x d ∨ (x = u.vertexId ∧ d = u.distanceFromRoot.toNat) := by
  funext x d
  apply propext
  constructor
  · rintro ⟨a, ha, rfl, rfl⟩
    rcases List.mem_append.mp ha with ha | ha
    · exact .inl ⟨a, ha, rfl, rfl⟩
    · obtain rfl := List.mem_singleton.mp ha
      exact .inr ⟨rfl, rfl⟩
  · rintro (⟨a, ha, hx⟩ | ⟨rfl, rfl⟩)
    · exact ⟨a, List.mem_append_left _ ha, hx⟩
    · exact ⟨u, List.mem_append_right _ List.mem_cons_self, rfl, rfl⟩

omit hwf hprofile hroot in
theorem at_tail {u : SPFVertex} {q : CandidateQueue}
    (h : Bindings.Distinct SPFVertex.vertexId (u :: q)) :
    At q = fun x d => x ≠ u.vertexId ∧ At (u :: q) x d := by
  have hnot := (List.nodup_cons.mp h).1
  funext x d
  apply propext
  constructor
  · rintro ⟨a, ha, rfl, rfl⟩
    refine ⟨?_, a, List.mem_cons_of_mem u ha, rfl, rfl⟩
    intro heq
    exact hnot (heq ▸ List.mem_map_of_mem ha)
  · rintro ⟨hne, a, ha, rfl, rfl⟩
    rcases List.mem_cons.mp ha with rfl | ha
    · exact absurd rfl hne
    · exact ⟨a, ha, rfl, rfl⟩

omit hwf hprofile hroot in
/-- The first candidate is settled. -/
theorem Searching.settle {u : SPFVertex} {q : CandidateQueue} {status : Ipv4Address → SPFStatus}
    (h : Searching db ctx relaxed tree ⟨status, u :: q⟩)
    (hfull : ∀ {x y a b}, At tree x a → Edge db x y b → relaxed x y b)
    (hnone : ∀ {y b}, ¬ relaxed u.vertexId y b) :
    Searching db ctx relaxed (tree ++ [u])
      ⟨fun x => if x = u.vertexId then .inSpfTree else status x, q⟩ where
  labels := by
    have hu : At (u :: q) u.vertexId u.distanceFromRoot.toNat := ⟨u, List.mem_cons_self, rfl, rfl⟩
    have hleast : ∀ {y b}, At (u :: q) y b → u.distanceFromRoot.toNat ≤ b := by
      rintro y b ⟨a, ha, -, rfl⟩
      rcases List.mem_cons.mp ha with rfl | ha
      · exact le_rfl
      · exact (List.pairwise_cons.mp h.sorted).1 a ha
    rw [at_append_singleton, at_tail h.distinct]
    exact h.labels.settle hfull hu hleast hnone
  inTree x := by
    rw [List.map_append, List.mem_append, ← h.inTree x]
    by_cases hx : x = u.vertexId
    · simp [hx]
    · simp [hx]
  inQueue x := by
    have hqueue := h.inQueue x
    have hnot := (List.nodup_cons.mp h.distinct).1
    by_cases hx : x = u.vertexId
    · simpa [hx] using hnot
    · simpa [hx] using hqueue
  distinct := (List.nodup_cons.mp h.distinct).2
  sorted := (List.pairwise_cons.mp h.sorted).2
  known a ha := h.known a (List.mem_cons_of_mem u ha)
  low a ha := by
    have := h.low a (List.mem_cons_of_mem u ha)
    rw [List.length_append]
    omega

omit hwf hprofile hroot in
theorem Grown.settle {done : List SPFVertex} {u : SPFVertex} {q : CandidateQueue}
    {status : Ipv4Address → SPFStatus} (hg : Grown db ctx done v)
    (h : Searching db ctx relaxed (done ++ [v]) ⟨status, u :: q⟩)
    (hsize : db.database.length ≤ 65537) : Grown db ctx (done ++ [v]) u := by
  have hu : u ∈ u :: q := List.mem_cons_self
  obtain ⟨hknown, hrouted⟩ := h.known u hu
  have hlast : ∀ a ∈ done ++ [v], a.distanceFromRoot.toNat ≤ u.distanceFromRoot.toNat :=
    fun a ha => h.labels.ordered ⟨a, ha, rfl, rfl⟩ ⟨u, hu, rfl, rfl⟩
  have hall : ∀ a ∈ done ++ [v] ++ [u],
      a.lsa ∈ db.database ∧ (a.vertexId = ctx.root ∨ Routed db ctx a) := by
    intro a ha
    rcases List.mem_append.mp ha with ha | ha
    · exact hg.known a ha
    · exact List.mem_singleton.mp ha ▸ ⟨hknown, .inr hrouted⟩
  have hdistinct : Bindings.Distinct SPFVertex.vertexId (done ++ [v] ++ [u]) := by
    unfold Bindings.Distinct
    rw [List.map_append, List.map_singleton]
    refine List.nodup_append.mpr ⟨hg.distinct, List.nodup_singleton _, ?_⟩
    rintro x hx y hy rfl
    obtain rfl := List.mem_singleton.mp hy
    obtain ⟨a, ha, heq⟩ := List.mem_map.mp hx
    exact h.labels.fresh ⟨u, hu, rfl, rfl⟩ ⟨a, ha, heq, rfl⟩
  refine ⟨?_, ?_, hdistinct, hall⟩
  · refine ⟨List.mem_append_right _ List.mem_cons_self, ?_, hknown, .inr hrouted, ?_, ?_⟩
    · intro a ha
      rcases List.mem_append.mp ha with ha | ha
      · exact hlast a ha
      · exact List.mem_singleton.mp ha ▸ le_rfl
    · have := h.low u hu
      rw [List.length_append, List.length_singleton]
      omega
    · exact (length_le_database hdistinct fun a ha => (hall a ha).1).trans hsize
  · refine List.pairwise_append.mpr ⟨hg.ordered, List.pairwise_singleton _ _, ?_⟩
    intro a ha b hb
    obtain rfl := List.mem_singleton.mp hb
    exact hlast a ha

theorem spfLoop_some (hsize : db.database.length ≤ 65537) {fuel : Nat} {done : List SPFVertex}
    (hg : Grown db ctx done v)
    (h : Searching db ctx (fun x y c => x ∈ done.map SPFVertex.vertexId ∧ Edge db x y c)
      (done ++ [v]) s)
    (hfuel : db.database.length ≤ done.length + fuel) :
    ∃ rest, spfLoop db ctx fuel v s = some (v :: rest) ∧
      ShortestTree db ctx (done ++ v :: rest) ∧
      ∀ u ∈ done ++ v :: rest, u.lsa ∈ db.database ∧ (u.vertexId = ctx.root ∨ Routed db ctx u) := by
  induction fuel generalizing done v s with
  | zero =>
    have hle := length_le_database hg.distinct fun a ha => (hg.known a ha).1
    rw [List.length_append, List.length_singleton] at hle
    omega
  | succ fuel ih =>
    obtain ⟨⟨status, q⟩, hs', h'⟩ := h.spfNext hwf hprofile hroot hg.current
    have hfull : ∀ {x y a b}, At (done ++ [v]) x a → Edge db x y b →
        (x ∈ done.map SPFVertex.vertexId ∧ Edge db x y b) ∨ (x = v.vertexId ∧ Edge db x y b) := by
      rintro x y a b ⟨u, hu, rfl, -⟩ hedge
      rcases List.mem_append.mp hu with hu | hu
      · exact .inl ⟨List.mem_map_of_mem hu, hedge⟩
      · exact .inr ⟨congrArg _ (List.mem_singleton.mp hu), hedge⟩
    unfold spfLoop
    rw [hs']
    cases q with
    | nil =>
      refine ⟨[], rfl, ⟨hg.ordered, hg.distinct, ?_⟩, hg.known⟩
      intro x d
      apply h'.labels.settled_iff hfull
      rintro w b ⟨u, hu, -⟩
      cases hu
    | cons u q =>
      have hnone : ∀ {y b}, ¬ ((u.vertexId ∈ done.map SPFVertex.vertexId ∧ Edge db u.vertexId y b) ∨
          (u.vertexId = v.vertexId ∧ Edge db u.vertexId y b)) := by
        have hfresh : ∀ {d}, ¬ At (done ++ [v]) u.vertexId d :=
          h'.labels.fresh ⟨u, List.mem_cons_self, rfl, rfl⟩
        rintro y b (⟨hmem, -⟩ | ⟨heq, -⟩)
        · obtain ⟨a, ha, hid⟩ := List.mem_map.mp hmem
          exact hfresh ⟨a, List.mem_append_left _ ha, hid, rfl⟩
        · exact hfresh ⟨v, List.mem_append_right _ List.mem_cons_self, heq.symm, rfl⟩
      have hsub : ∀ {x y b}, (x ∈ (done ++ [v]).map SPFVertex.vertexId ∧ Edge db x y b) →
          (x ∈ done.map SPFVertex.vertexId ∧ Edge db x y b) ∨
            (x = v.vertexId ∧ Edge db x y b) := by
        rintro x y b ⟨hx, hedge⟩
        obtain ⟨a, ha, rfl⟩ := List.mem_map.mp hx
        exact hfull ⟨a, ha, rfl, rfl⟩ hedge
      have hnext := (h'.settle hfull hnone).mono hsub
      obtain ⟨rest, hrest, htree⟩ := ih (hg.settle h' hsize) hnext
        (by rw [List.length_append, List.length_singleton]; omega)
      refine ⟨u :: rest, ?_, ?_⟩
      · simp [hrest]
      · rwa [List.append_assoc] at htree

end Next

theorem grown_root {r : GlobalRoutingLSA} (hr : r ∈ db.database) (hid : r.linkStateId = ctx.root) :
    Grown db ctx [] { lsa := r, distanceFromRoot := 0 } where
  current :=
    { mem := List.mem_cons_self
      last := fun u hu => by rw [List.mem_singleton.mp hu]
      known := hr
      routed := .inl hid
      low := by simp
      room := by simp }
  ordered := List.pairwise_singleton _ _
  distinct := List.nodup_singleton _
  known u hu := by
    rw [List.mem_singleton.mp hu]
    exact ⟨hr, .inl hid⟩

theorem searching_root {r : GlobalRoutingLSA} (hid : r.linkStateId = ctx.root) :
    Searching db ctx (fun x y c => x ∈ [].map SPFVertex.vertexId ∧ Edge db x y c)
      ([] ++ [{ lsa := r, distanceFromRoot := 0 }])
      ⟨fun x => if x = ctx.root then .inSpfTree else .notExplored, []⟩ where
  labels := by
    have hroot : At ([] ++ [{ lsa := r, distanceFromRoot := 0 }]) =
        fun x d => x = ctx.root ∧ d = 0 := by
      funext x d
      apply propext
      constructor
      · rintro ⟨u, hu, rfl, rfl⟩
        obtain rfl := List.mem_singleton.mp hu
        exact ⟨hid, rfl⟩
      · rintro ⟨rfl, rfl⟩
        exact ⟨_, List.mem_cons_self, hid, rfl⟩
    have hnone : At [] = fun _ _ => False := by
      funext x d
      apply propext
      apply iff_of_false _ id
      rintro ⟨u, hu, -⟩
      cases hu
    rw [hroot, hnone]
    apply ShortestPaths.Labels.start.mono
    rintro x y c ⟨hx, -⟩
    cases hx
  inTree x := by
    by_cases hx : x = ctx.root
    · exact iff_of_true (if_pos hx) (List.mem_singleton.mpr (hx.trans hid.symm))
    · simpa [hx, SPFVertex.vertexId] using fun heq => hx (heq.trans hid)
  inQueue x := by
    by_cases hx : x = ctx.root <;> simp [hx]
  distinct := List.nodup_nil
  sorted := List.Pairwise.nil
  known u hu := by cases hu
  low u hu := by cases hu

section Tree

variable (hwf : WellFormed db) (hsize : db.database.length ≤ 65537)
  (hprofile : ctx.asserts = false ∨ ∀ lsa ∈ db.database, lsa.lsType = .routerLSA)
  (hroot : ∃ r ∈ db.database, r.linkStateId = ctx.root ∧ r.lsType = .routerLSA)
include hwf hsize hprofile hroot

theorem spfTree_some : ∃ tree, spfTree db ctx = some tree ∧ ShortestTree db ctx tree ∧
    ∀ u ∈ tree, u.lsa ∈ db.database ∧ (u.vertexId = ctx.root ∨ Routed db ctx u) := by
  obtain ⟨r, hr, hid, hrouter⟩ := hroot
  have hall : ∀ lsa ∈ db.database, lsa.linkStateId = ctx.root → lsa.lsType = .routerLSA := by
    intro lsa hlsa heq
    exact GlobalRouteManagerLSDB.eq_of_linkStateId hlsa hr (heq.trans hid.symm) ▸ hrouter
  have hget : db.getLSA ctx.root = some r := GlobalRouteManagerLSDB.getLSA_eq_some.mpr ⟨hr, hid⟩
  unfold spfTree
  rw [hget]
  obtain ⟨rest, hrest, htree⟩ := spfLoop_some hwf hprofile hall hsize (grown_root hr hid)
    (searching_root hid) (Nat.le_of_eq (Nat.zero_add _).symm)
  exact ⟨_, hrest, htree⟩

/-- The calculation ends, with all that the root can reach at the cost of a cheapest path, the
nearest first. A network next to another one may have two exits, which is an assertion. -/
theorem spfTree_shortest : ∃ tree, spfTree db ctx = some tree ∧ ShortestTree db ctx tree := by
  obtain ⟨tree, htree, hshortest, -⟩ := spfTree_some hwf hsize hprofile hroot
  exact ⟨tree, htree, hshortest⟩

/-- Every exit of a vertex is the first interface of a cheapest path. -/
theorem spfTree_exits : ∃ tree, spfTree db ctx = some tree ∧
    ∀ u ∈ tree, u.vertexId ≠ ctx.root → u.ecmpRootExits ≠ [] ∧ ∃ d,
      ShortestPaths.Shortest (Edge db) ctx.root u.vertexId d ∧
      ∀ e ∈ u.ecmpRootExits, Leaves db ctx u.vertexId d e.2 := by
  obtain ⟨tree, htree, hshortest, hrouted⟩ := spfTree_some hwf hsize hprofile hroot
  refine ⟨tree, htree, ?_⟩
  intro u hu hne
  have hexits := (hrouted u hu).2.resolve_left hne
  have hd := (hshortest.shortest u.vertexId _).mp ⟨u, hu, rfl, rfl⟩
  exact ⟨hexits.exits, _, hd, hexits.leaves⟩

end Tree

namespace Sample

/-- A router with a record for a network and one for the router at the other end of a wire. -/
def router (id data other : Ipv4Address) (metric : BitVec 16) : GlobalRoutingLSA where
  lsType := .routerLSA
  linkStateId := id
  linkRecords := [⟨10, data, .transitNetwork, metric⟩, ⟨other, data + 100, .pointToPoint, 20⟩]

def network : GlobalRoutingLSA where
  lsType := .networkLSA
  linkStateId := 10
  networkLSANetworkMask := 0xffffff00
  attachedRouters := [101, 102]

/-- Two routers, a network that both are attached to and a wire between them. -/
def triangle : GlobalRouteManagerLSDB where
  database := [router 1 101 2 3, router 2 102 1 4, network]
  extdatabase := []
  sorted := by decide
  internal := by decide

def fromFirst : SpfContext where
  root := 1
  findOutgoingInterfaceId addr _ := if addr = 101 then 1 else 2
  address id := id.toNat
  asserts := false

theorem wellFormed_triangle : WellFormed triangle where
  transit := by decide +kernel
  attached := by
    intro v hv hnetwork a ha w hw
    have hfirst : triangle.getLSAByLinkData 101 = some (router 1 101 2 3) := rfl
    have hsecond : triangle.getLSAByLinkData 102 = some (router 2 102 1 4) := rfl
    simp only [triangle, List.mem_cons, List.not_mem_nil, or_false] at hv
    rcases hv with rfl | rfl | rfl
    · cases hnetwork
    · cases hnetwork
    · simp only [network, List.mem_cons, List.not_mem_nil, or_false] at ha
      rcases ha with rfl | rfl
      · cases Option.some.inj (hfirst.symm.trans hw)
        decide
      · cases Option.some.inj (hsecond.symm.trans hw)
        decide

/-- The shortest paths from the first of the two routers. -/
theorem spfTree_shortest_triangle :
    ∃ tree, spfTree triangle fromFirst = some tree ∧ ShortestTree triangle fromFirst tree :=
  spfTree_shortest wellFormed_triangle (by simp [triangle]) (.inl rfl)
    ⟨router 1 101 2 3, List.mem_cons_self, rfl, rfl⟩

theorem spfTree_exits_triangle : ∃ tree, spfTree triangle fromFirst = some tree ∧
    ∀ u ∈ tree, u.vertexId ≠ 1 → u.ecmpRootExits ≠ [] ∧ ∃ d,
      ShortestPaths.Shortest (Edge triangle) 1 u.vertexId d ∧
      ∀ e ∈ u.ecmpRootExits, Leaves triangle fromFirst u.vertexId d e.2 :=
  spfTree_exits wellFormed_triangle (by simp [triangle]) (.inl rfl)
    ⟨router 1 101 2 3, List.mem_cons_self, rfl, rfl⟩

end Sample

end GlobalRouteManagerImpl

end CudaNs3.Internet
