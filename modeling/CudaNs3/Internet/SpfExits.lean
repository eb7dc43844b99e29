import CudaNs3.Internet.SpfDelivery

/-!
# All exits of the cheapest paths

Between routers whose records cost something, an edge to a vertex at the least distance is looked
at before the vertex is settled, and the exits of its start are merged into those of the vertex.
So a vertex has the exits of all cheapest paths to it, and by the distances no others.
-/

namespace CudaNs3.Internet

set_option autoImplicit false

namespace GlobalRouteManagerImpl

variable {db : GlobalRouteManagerLSDB} {ctx : SpfContext} {v w : SPFVertex} {s s' : SpfState}
variable {l : GlobalRoutingLinkRecord} {wLsa : GlobalRoutingLSA} {distance : BitVec 32}
variable {tree : List SPFVertex} {relaxed : Ipv4Address → Ipv4Address → Nat → Prop}

/-! ### What one record hands on -/

/-- `w` has the exit of the record of the root, or those of the vertex before it. -/
structure Hands (ctx : SpfContext) (v : SPFVertex) (l : GlobalRoutingLinkRecord) (w : SPFVertex) :
    Prop where
  first : v.vertexId = ctx.root → ∃ e ∈ w.ecmpRootExits, e.2 = outgoing ctx l w.lsa
  next : v.vertexId ≠ ctx.root → ∀ e ∈ v.ecmpRootExits, ∃ e' ∈ w.ecmpRootExits, e'.2 = e.2

theorem Hands.mono {w' : SPFVertex} (h : Hands ctx v l w) (hlsa : w.lsa = w'.lsa)
    (hsub : ∀ e ∈ w.ecmpRootExits, e ∈ w'.ecmpRootExits) : Hands ctx v l w' where
  first hroot := by
    obtain ⟨e, he, heq⟩ := h.first hroot
    exact ⟨e, hsub e he, hlsa ▸ heq⟩
  next hroot e he := by
    obtain ⟨e', he', heq⟩ := h.next hroot e he
    exact ⟨e', hsub e' he', heq⟩

theorem spfNexthopCalculation_hands {w' : SPFVertex} (hv : v.lsa.lsType = .routerLSA)
    (hw : w.lsa.lsType = .routerLSA)
    (h : spfNexthopCalculation ctx v w (some l) distance = some w') :
    w'.lsa = w.lsa ∧ w'.distanceFromRoot = distance ∧ Hands ctx v l w' := by
  have hvtype : v.vertexType = .router := by simp [SPFVertex.vertexType, hv]
  have hwtype : w.vertexType = .router := by simp [SPFVertex.vertexType, hw]
  have hnetwork : w.lsa.lsType ≠ .networkLSA := by rw [hw]; decide
  unfold spfNexthopCalculation at h
  by_cases hroot : v.vertexId = ctx.root
  · rw [if_pos hroot, hwtype] at h
    simp only [Option.bind_eq_bind, Option.bind_some] at h
    obtain ⟨r, -, h⟩ := Option.bind_eq_some_iff.mp h
    obtain rfl := Option.some.inj h
    refine ⟨rfl, rfl, fun _ => ⟨_, List.mem_singleton_self _, ?_⟩, absurd hroot⟩
    exact (if_neg hnetwork).symm
  · rw [if_neg hroot, hvtype] at h
    obtain rfl := Option.some.inj h
    exact ⟨rfl, rfl, fun hid => absurd hid hroot, fun _ e he => ⟨e, he, rfl⟩⟩

/-- A candidate is as it was, and then nearer if the record leads to it; or it has the distance
by way of the record, with the exits that are handed on and those it had at this distance. -/
theorem Searching.examine_result (h : Searching db ctx relaxed tree s)
    (hv : v.lsa.lsType = .routerLSA) (hw : wLsa ∈ db.database) (hrouter : wLsa.lsType = .routerLSA)
    (hby : distanceBy v (some l) = some distance)
    (hs : GlobalRouteManagerImpl.examine ctx v (some l) wLsa s = some s') {u : SPFVertex}
    (hu : u ∈ s'.candidate) :
    (u ∈ s.candidate ∧ (u.vertexId = wLsa.linkStateId →
      u.distanceFromRoot.toNat < distance.toNat)) ∨
    (u.vertexId = wLsa.linkStateId ∧ Hands ctx v l u ∧
      u.distanceFromRoot.toNat = distance.toNat ∧
      ∀ cw ∈ s.candidate, cw.vertexId = wLsa.linkStateId →
        distance.toNat < cw.distanceFromRoot.toNat ∨
        (cw.distanceFromRoot.toNat = distance.toNat ∧ cw.lsa = u.lsa ∧
          ∀ e ∈ cw.ecmpRootExits, e ∈ u.ecmpRootExits)) := by
  have hcandidate : ∀ a ∈ s.candidate, a.vertexId = wLsa.linkStateId →
      s.status wLsa.linkStateId = .candidate := by
    intro a ha hid
    exact (h.inQueue _).mpr (hid ▸ List.mem_map_of_mem ha)
  unfold GlobalRouteManagerImpl.examine at hs
  by_cases htree : s.status wLsa.linkStateId = .inSpfTree
  · rw [if_pos htree] at hs
    obtain rfl := Option.some.inj hs
    refine .inl ⟨hu, ?_⟩
    intro hid
    have := hcandidate u hu hid
    rw [htree] at this
    cases this
  rw [if_neg htree, hby] at hs
  simp only [Option.bind_eq_bind, Option.bind_some] at hs
  cases hstatus : s.status wLsa.linkStateId with
  | inSpfTree => exact absurd hstatus htree
  | notExplored =>
    have hnone : ∀ a ∈ s.candidate, a.vertexId ≠ wLsa.linkStateId := by
      intro a ha hid
      have := hcandidate a ha hid
      rw [hstatus] at this
      cases this
    rw [hstatus] at hs
    obtain ⟨w, hcalc, hs⟩ := Option.bind_eq_some_iff.mp hs
    obtain rfl := Option.some.inj hs
    obtain ⟨hlsa, hd, hhands⟩ := spfNexthopCalculation_hands (w := { lsa := wLsa }) hv hrouter hcalc
    rcases List.mem_cons.mp (CandidateQueue.push_perm.mem_iff.mp hu) with rfl | hu
    · refine .inr ⟨congrArg GlobalRoutingLSA.linkStateId hlsa, hhands, congrArg _ hd, ?_⟩
      intro cw hcw hid
      exact absurd hid (hnone cw hcw)
    · exact .inl ⟨hu, fun hid => absurd hid (hnone u hu)⟩
  | candidate =>
    rw [hstatus] at hs
    obtain ⟨cw, hfind, hs⟩ := Option.bind_eq_some_iff.mp hs
    obtain ⟨hcw, hid⟩ := h.distinct.get_iff.mp hfind
    have honly : ∀ a ∈ s.candidate, a.vertexId = wLsa.linkStateId → a = cw := by
      intro a ha heq
      have hget := h.distinct.get_iff.mpr ⟨ha, heq⟩
      exact Option.some.inj (hget.symm.trans hfind)
    have hlsa : cw.lsa = wLsa :=
      GlobalRouteManagerLSDB.eq_of_linkStateId (h.known cw hcw).1 hw hid
    split_ifs at hs with hlt heq
    · obtain rfl := Option.some.inj hs
      refine .inl ⟨hu, ?_⟩
      intro hid'
      rw [honly u hu hid']
      exact hlt
    · obtain ⟨w, hcalc, hs⟩ := Option.bind_eq_some_iff.mp hs
      obtain rfl := Option.some.inj hs
      obtain ⟨hwlsa, hd, hhands⟩ :=
        spfNexthopCalculation_hands (w := { lsa := wLsa }) hv hrouter hcalc
      rcases h.distinct.mem_put.mp hu with rfl | ⟨hu, hne⟩
      · refine .inr ⟨hid, ?_, congrArg _ heq, ?_⟩
        · exact hhands.mono (hwlsa.trans hlsa.symm) fun e he => SPFVertex.mem_merged (.inr he)
        · intro cw' hcw' hid'
          rw [honly cw' hcw' hid']
          exact .inr ⟨congrArg _ heq, rfl, fun e he => SPFVertex.mem_merged (.inl he)⟩
      · exact .inl ⟨hu, fun hid' => absurd (hid'.trans hid.symm) hne⟩
    · obtain ⟨w, hcalc, hs⟩ := Option.bind_eq_some_iff.mp hs
      obtain rfl := Option.some.inj hs
      obtain ⟨hwlsa, hd, hhands⟩ := spfNexthopCalculation_hands hv (hlsa ▸ hrouter) hcalc
      have hwid : w.vertexId = cw.vertexId := congrArg GlobalRoutingLSA.linkStateId hwlsa
      rcases h.distinct.mem_put.mp (CandidateQueue.reorder_perm.mem_iff.mp hu) with rfl | ⟨hu, hne⟩
      · refine .inr ⟨hwid.trans hid, hhands, congrArg _ hd, ?_⟩
        intro cw' hcw' hid'
        rw [honly cw' hcw' hid']
        have hle := BitVec.le_def.mp (BitVec.not_lt.mp hlt)
        exact .inl (Nat.lt_of_le_of_ne hle fun h => heq (BitVec.eq_of_toNat_eq h.symm))
      · exact .inl ⟨hu, fun hid' => absurd (hid'.trans (hid.symm.trans hwid.symm)) hne⟩

/-! ### All records -/

/-- The edges of the records that were looked at. -/
def Leading (looked : Ipv4Address → GlobalRoutingLinkRecord → Prop) (x y : Ipv4Address) (c : Nat) :
    Prop := ∃ l, looked x l ∧ y = l.linkId ∧ c = l.metric.toNat

variable {looked looked' : Ipv4Address → GlobalRoutingLinkRecord → Prop}

/-- Records on cheapest paths, as far as they are known, have handed on their exits. -/
structure Exhaustive (db : GlobalRouteManagerLSDB) (ctx : SpfContext)
    (looked : Ipv4Address → GlobalRoutingLinkRecord → Prop) (tree : List SPFVertex)
    (s : SpfState) : Prop where
  searching : Searching db ctx (Leading looked) tree s
  hands : ∀ v ∈ tree, ∀ l, looked v.vertexId l → ∀ w, w ∈ tree ∨ w ∈ s.candidate →
    w.vertexId = l.linkId → w.distanceFromRoot.toNat = v.distanceFromRoot.toNat + l.metric.toNat →
    Hands ctx v l w

theorem Exhaustive.mono (h : Exhaustive db ctx looked tree s)
    (hsub : ∀ {x l}, looked' x l → looked x l) : Exhaustive db ctx looked' tree s where
  searching := by
    apply h.searching.mono
    rintro x y b ⟨l, hl, hy, hb⟩
    exact ⟨l, hsub hl, hy, hb⟩
  hands v hv l hl := h.hands v hv l (hsub hl)

section Records

variable (hwf : WellFormed db) (hmetered : Metered db)
include hwf hmetered

theorem Exhaustive.examineLink (h : Exhaustive db ctx looked tree s) (hv : Current db ctx tree v)
    (hdistinct : Bindings.Distinct SPFVertex.vertexId tree) (hl : l ∈ v.lsa.linkRecords) :
    ∃ s', examineLink db ctx v s l = some s' ∧ Exhaustive db ctx
      (fun x l' => looked x l' ∨ (x = v.vertexId ∧ l' = l ∧ l.linkType ≠ .stubNetwork)) tree s' := by
  have hrouter := hmetered.routers v.lsa hv.known
  obtain ⟨s', hs', hsearch⟩ := h.searching.examineLink hwf hv hrouter hl
  refine ⟨s', hs', hsearch.mono ?_, ?_⟩
  · rintro x y c ⟨l', hl' | ⟨rfl, rfl, hstub⟩, rfl, rfl⟩
    · exact .inl ⟨l', hl', rfl, rfl⟩
    · exact .inr ⟨rfl, hstub, rfl, rfl⟩
  by_cases hstub : l.linkType = .stubNetwork
  · rw [GlobalRouteManagerImpl.examineLink, hstub] at hs'
    obtain rfl := Option.some.inj hs'
    rintro v' hv' l' (hlooked | ⟨-, -, hne⟩)
    · exact h.hands v' hv' l' hlooked
    · exact absurd hstub hne
  obtain ⟨htype, wLsa, hw, hlink, -⟩ := hwf.transit v.lsa hv.known hrouter l hl hstub
  have hget : db.getLSA l.linkId = some wLsa :=
    GlobalRouteManagerLSDB.getLSA_eq_some.mpr ⟨hw, hlink⟩
  have hexamine : examine ctx v (some l) wLsa s = some s' := by
    rcases htype with htype | htype <;>
      simpa [GlobalRouteManagerImpl.examineLink, htype, hget] using hs'
  obtain ⟨distance, hby, hdist⟩ := hv.distance_link hrouter l
  have hpositive := hmetered.positive v.lsa hv.known l hl hstub
  have hself : ∀ v' ∈ tree, v'.vertexId = v.vertexId → v' = v := by
    intro v' hv' hid
    have hget := hdistinct.get_iff.mpr ⟨hv', hid⟩
    exact Option.some.inj (hget.symm.trans (hdistinct.get_iff.mpr ⟨hv.mem, rfl⟩))
  intro v' hv' l' hlooked u hu hid hcost
  rcases hu with hu | hu
  · rcases hlooked with hlooked | ⟨hid', rfl, -⟩
    · exact h.hands v' hv' l' hlooked u (.inl hu) hid hcost
    · -- what was settled before is nearer than what the record leads to
      obtain rfl := hself v' hv' hid'
      have := hv.last u hu
      omega
  rcases h.searching.examine_result hrouter hw (hmetered.routers wLsa hw) hby hexamine hu with
    ⟨hu', hnear⟩ | ⟨huid, hhands, hd, hcw⟩
  · rcases hlooked with hlooked | ⟨hid', rfl, -⟩
    · exact h.hands v' hv' l' hlooked u (.inr hu') hid hcost
    · obtain rfl := hself v' hv' hid'
      have := hnear (hid.trans hlink.symm)
      omega
  · rcases hlooked with hlooked | ⟨hid', rfl, -⟩
    · have hsettled : At tree v'.vertexId v'.distanceFromRoot.toNat := ⟨v', hv', rfl, rfl⟩
      rcases h.searching.labels.covered hsettled ⟨l', hlooked, rfl, rfl⟩ with
        ⟨e, he⟩ | ⟨e, ⟨cw, hmem, hcwid, rfl⟩, hle⟩
      · have hqueued : At s'.candidate l'.linkId u.distanceFromRoot.toNat := ⟨u, hu, hid, rfl⟩
        exact absurd he (hsearch.labels.fresh hqueued)
      · rcases hcw cw hmem (hcwid.trans (hid.symm.trans huid)) with hlt | ⟨heq, hlsa, hsub⟩
        · omega
        · exact (h.hands v' hv' l' hlooked cw (.inr hmem) hcwid (by omega)).mono hlsa hsub
    · obtain rfl := hself v' hv' hid'
      exact hhands

theorem Exhaustive.records (hv : Current db ctx tree v)
    (hdistinct : Bindings.Distinct SPFVertex.vertexId tree) {ls : List GlobalRoutingLinkRecord}
    (hls : ∀ l ∈ ls, l ∈ v.lsa.linkRecords) (h : Exhaustive db ctx looked tree s) :
    ∃ s', ls.foldlM (GlobalRouteManagerImpl.examineLink db ctx v) s = some s' ∧
      Exhaustive db ctx (fun x l => looked x l ∨ (x = v.vertexId ∧ l ∈ ls ∧
        l.linkType ≠ .stubNetwork)) tree s' := by
  induction ls generalizing looked s with
  | nil =>
    refine ⟨s, rfl, h.mono ?_⟩
    rintro x l (hlooked | ⟨-, hl, -⟩)
    · exact hlooked
    · cases hl
  | cons l ls ih =>
    obtain ⟨hl, hls⟩ := List.forall_mem_cons.mp hls
    obtain ⟨s', hs', h'⟩ := h.examineLink hwf hmetered hv hdistinct hl
    obtain ⟨s'', hs'', h''⟩ := ih hls h'
    refine ⟨s'', ?_, h''.mono ?_⟩
    · rw [List.foldlM_cons, hs']
      exact hs''
    · rintro x l' (hlooked | ⟨hx, hl', hstub⟩)
      · exact .inl (.inl hlooked)
      · rcases List.mem_cons.mp hl' with rfl | hl'
        · exact .inl (.inr ⟨hx, rfl, hstub⟩)
        · exact .inr ⟨hx, hl', hstub⟩

end Records

/-! ### The main loop -/

/-- The records of the vertices in `done` that lead to vertices. -/
def Looked (done : List SPFVertex) (x : Ipv4Address) (l : GlobalRoutingLinkRecord) : Prop :=
  ∃ a ∈ done, a.vertexId = x ∧ l ∈ a.lsa.linkRecords ∧ l.linkType ≠ .stubNetwork

/-- Every record on a cheapest path has handed on its exits. -/
def HandedOn (ctx : SpfContext) (tree : List SPFVertex) : Prop :=
  ∀ a ∈ tree, ∀ l ∈ a.lsa.linkRecords, l.linkType ≠ .stubNetwork → ∀ w ∈ tree,
    w.vertexId = l.linkId →
    w.distanceFromRoot.toNat = a.distanceFromRoot.toNat + l.metric.toNat → Hands ctx a l w

theorem Exhaustive.settle {u : SPFVertex} {q : CandidateQueue} {status : Ipv4Address → SPFStatus}
    (h : Exhaustive db ctx looked tree ⟨status, u :: q⟩)
    (hfull : ∀ {x y a b}, At tree x a → Edge db x y b → Leading looked x y b)
    (hnone : ∀ {l}, ¬ looked u.vertexId l) : Exhaustive db ctx looked (tree ++ [u])
      ⟨fun x => if x = u.vertexId then .inSpfTree else status x, q⟩ where
  searching := by
    apply h.searching.settle hfull
    rintro y b ⟨l, hl, -⟩
    exact hnone hl
  hands a ha l hl w hw hid hcost := by
    rcases List.mem_append.mp ha with ha | ha
    · apply h.hands a ha l hl w _ hid hcost
      rcases hw with hw | hw
      · rcases List.mem_append.mp hw with hw | hw
        · exact .inl hw
        · exact .inr (List.mem_singleton.mp hw ▸ List.mem_cons_self)
      · exact .inr (List.mem_cons_of_mem u hw)
    · obtain rfl := List.mem_singleton.mp ha
      exact absurd hl hnone

theorem Leaves.pos (hmetered : Metered db) {x : Ipv4Address} {d : Nat} {i : Int}
    (h : Leaves db ctx x d i) : 0 < d := by
  induction h with
  | first hr _ _ hl hstub _ _ => exact hmetered.positive _ hr _ hl hstub
  | next _ _ ih => exact Nat.add_pos_left ih _

section Tree

variable (hwf : WellFormed db) (hsize : db.database.length ≤ 65537) (hmetered : Metered db)
include hwf hsize hmetered

theorem spfLoop_hands {fuel : Nat} {done out : List SPFVertex} (hg : Grown db ctx done v)
    (h : Exhaustive db ctx (Looked done) (done ++ [v]) s)
    (hs : spfLoop db ctx fuel v s = some out) :
    HandedOn ctx (done ++ out) := by
  induction fuel generalizing done v s out with
  | zero => cases hs
  | succ fuel ih =>
    have hrouter := hmetered.routers v.lsa hg.current.known
    have htype : v.vertexType = .router := by simp [SPFVertex.vertexType, hrouter]
    obtain ⟨⟨status, q⟩, hnext, h'⟩ :=
      h.records hwf hmetered hg.current hg.distinct fun _ hl => hl
    have hlooked : ∀ {x l}, Looked (done ++ [v]) x l →
        Looked done x l ∨ (x = v.vertexId ∧ l ∈ v.lsa.linkRecords ∧ l.linkType ≠ .stubNetwork) := by
      rintro x l ⟨a, ha, rfl, hl, hstub⟩
      rcases List.mem_append.mp ha with ha | ha
      · exact .inl ⟨a, ha, rfl, hl, hstub⟩
      · obtain rfl := List.mem_singleton.mp ha
        exact .inr ⟨rfl, hl, hstub⟩
    have h' := h'.mono hlooked
    have hnext : spfNext db ctx v s = some ⟨status, q⟩ := by
      unfold spfNext
      rw [htype]
      exact hnext
    unfold spfLoop at hs
    rw [hnext] at hs
    simp only [Option.bind_eq_bind, Option.bind_some] at hs
    cases q with
    | nil =>
      obtain rfl := Option.some.inj hs
      intro a ha l hl hstub w hw
      exact h'.hands a ha l ⟨a, ha, rfl, hl, hstub⟩ w (.inl hw)
    | cons u q =>
      obtain ⟨rest, hrest, hs⟩ := Option.bind_eq_some_iff.mp hs
      obtain rfl := Option.some.inj hs
      have hfull : ∀ {x y a b}, At (done ++ [v]) x a → Edge db x y b →
          Leading (Looked (done ++ [v])) x y b := by
        rintro x y a b ⟨w, hw, rfl, -⟩ hedge
        rcases edge_inv (hg.known w hw).1 hedge with ⟨-, l, hl, hstub, rfl, rfl⟩ | ⟨hnetwork, -⟩
        · exact ⟨l, ⟨w, hw, rfl, hl, hstub⟩, rfl, rfl⟩
        · rw [hmetered.routers w.lsa (hg.known w hw).1] at hnetwork
          cases hnetwork
      have hnone : ∀ {l}, ¬ Looked (done ++ [v]) u.vertexId l := by
        rintro l ⟨a, ha, hid, -⟩
        exact h'.searching.labels.fresh ⟨u, List.mem_cons_self, rfl, rfl⟩ ⟨a, ha, hid, rfl⟩
      have hrun := ih (hg.settle h'.searching hsize) (h'.settle hfull hnone) hrest
      rwa [List.append_assoc] at hrun

theorem spfTree_handedOn {r : GlobalRoutingLSA} (hr : r ∈ db.database)
    (hid : r.linkStateId = ctx.root) (htree : spfTree db ctx = some tree) : HandedOn ctx tree := by
  have hget : db.getLSA ctx.root = some r := GlobalRouteManagerLSDB.getLSA_eq_some.mpr ⟨hr, hid⟩
  unfold spfTree at htree
  rw [hget] at htree
  refine spfLoop_hands hwf hsize hmetered (grown_root hr hid) ⟨?_, ?_⟩ htree
  · apply (searching_root hid).mono
    rintro x y c ⟨l, ⟨a, ha, -⟩, -⟩
    cases ha
  · rintro a - l ⟨b, hb, -⟩
    cases hb

omit hwf hsize in
/-- The interface of a cheapest path has come down this path to its end. -/
theorem Leaves.exists_exit (hshortest : ShortestTree db ctx tree)
    (hknown : ∀ u ∈ tree, u.lsa ∈ db.database) (hhanded : HandedOn ctx tree) {x : Ipv4Address}
    {d : Nat} {i : Int} (h : Leaves db ctx x d i)
    (hd : ShortestPaths.Shortest (Edge db) ctx.root x d) {u : SPFVertex} (hu : u ∈ tree)
    (hux : u.vertexId = x) : ∃ e ∈ u.ecmpRootExits, e.2 = i := by
  have hudist := ((hshortest.shortest x _).mp ⟨u, hu, hux, rfl⟩).eq hd
  induction h generalizing u with
  | @first r w l hr hid _ hl hstub hw hlink =>
    obtain ⟨a, ha, haid, had⟩ := (hshortest.shortest ctx.root 0).mpr ShortestPaths.shortest_root
    have halsa : a.lsa = r :=
      GlobalRouteManagerLSDB.eq_of_linkStateId (hknown a ha) hr (haid.trans hid.symm)
    have hulsa : u.lsa = w := GlobalRouteManagerLSDB.eq_of_linkStateId (hknown u hu) hw hux
    have hhands := hhanded a ha l (halsa ▸ hl) hstub u hu (hux.trans hlink) (by omega)
    obtain ⟨e, he, heq⟩ := hhands.first haid
    exact ⟨e, he, hulsa ▸ heq⟩
  | @next x y d c i hx hedge ih =>
    -- the path without its last edge is a cheapest one, and not the empty one
    obtain ⟨d', hd', hle⟩ := hx.path.exists_shortest
    obtain rfl : d' = d := by
      have := hd.le (hd'.1.snoc hedge)
      omega
    obtain ⟨a, ha, rfl, had⟩ := (hshortest.shortest x d').mpr hd'
    have hne : a.vertexId ≠ ctx.root := by
      intro hroot
      rw [hroot] at hd'
      have hpos := hx.pos hmetered
      rw [hd'.eq ShortestPaths.shortest_root] at hpos
      exact absurd hpos (Nat.lt_irrefl 0)
    obtain ⟨e, he, hei⟩ := ih hd' ha rfl had
    rcases edge_inv (hknown a ha) hedge with ⟨-, l, hl, hstub, rfl, rfl⟩ | ⟨hnetwork, -⟩
    · have hhands := hhanded a ha l hl hstub u hu hux (by omega)
      obtain ⟨e', he', heq⟩ := hhands.next hne e he
      exact ⟨e', he', heq.trans hei⟩
    · rw [hmetered.routers a.lsa (hknown a ha)] at hnetwork
      cases hnetwork

/-- The exits of a vertex have the interfaces by which the cheapest paths to it leave, all of them
and no others. -/
theorem spfTree_all_exits (hroot : ∃ r ∈ db.database, r.linkStateId = ctx.root) :
    ∃ tree, spfTree db ctx = some tree ∧ ∀ u ∈ tree, u.vertexId ≠ ctx.root → ∃ d,
      ShortestPaths.Shortest (Edge db) ctx.root u.vertexId d ∧
      ∀ i, (∃ e ∈ u.ecmpRootExits, e.2 = i) ↔ Leaves db ctx u.vertexId d i := by
  obtain ⟨r, hr, hid⟩ := hroot
  obtain ⟨tree, htree, hshortest, hknown⟩ :=
    spfTree_some hwf hsize (.inr hmetered.routers) ⟨r, hr, hid, hmetered.routers r hr⟩
  have hhanded := spfTree_handedOn hwf hsize hmetered hr hid htree
  refine ⟨tree, htree, ?_⟩
  intro u hu hne
  have hd := (hshortest.shortest u.vertexId _).mp ⟨u, hu, rfl, rfl⟩
  refine ⟨_, hd, fun i => ⟨?_, ?_⟩⟩
  · rintro ⟨e, he, rfl⟩
    exact ((hknown u hu).2.resolve_left hne).leaves e he
  · intro hleaves
    exact hleaves.exists_exit hmetered hshortest (fun a ha => (hknown a ha).1) hhanded hd hu rfl

end Tree

namespace Sample

theorem spfTree_all_exits_wires :
    ∃ tree, spfTree wires (context (fun _ => byAddress) 1) = some tree ∧
      ∀ u ∈ tree, u.vertexId ≠ 1 → ∃ d, ShortestPaths.Shortest (Edge wires) 1 u.vertexId d ∧
        ∀ i, (∃ e ∈ u.ecmpRootExits, e.2 = i) ↔
          Leaves wires (context (fun _ => byAddress) 1) u.vertexId d i :=
  spfTree_all_exits wellFormed_wires (by decide) wired_wires.toMetered
    ⟨_, List.mem_cons_self, rfl⟩

end Sample

end GlobalRouteManagerImpl

end CudaNs3.Internet
