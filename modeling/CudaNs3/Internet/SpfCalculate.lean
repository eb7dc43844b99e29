import CudaNs3.Internet.SpfVertices
import CudaNs3.Lib.ShortestPaths

/-!
# The shortest path calculation

The main loop of `SPFCalculate`: the records of the vertex that was settled last are looked at,
which puts new vertices into the candidate queue or lowers the distances of old ones, and then
the first candidate is settled. The status of an advertisement tells whether its vertex is new, a
candidate or settled. With the distance come the ways out of the root that lead to the vertex.
-/

namespace CudaNs3.Internet

set_option autoImplicit false

/-- What the calculation asks of the node that it is made for, where the vertices are in memory,
and whether `NS_ASSERT` is compiled. -/
structure SpfContext where
  root : Ipv4Address
  /-- `-1` when there is no such interface -/
  findOutgoingInterfaceId : Ipv4Address → Ipv4Mask → Int
  address : Ipv4Address → Nat
  asserts : Bool

structure SpfState where
  status : Ipv4Address → SPFStatus
  candidate : CandidateQueue

namespace GlobalRouteManagerImpl

/-- The loop of `SPFGetNextLink` over the records of a vertex. -/
def nextLinkFrom (w : Ipv4Address) :
    (skip foundPrevLink : Bool) → List GlobalRoutingLinkRecord → Option GlobalRoutingLinkRecord
  | _, _, [] => none
  | skip, foundPrevLink, l :: rest =>
    if l.linkId = w then
      if !foundPrevLink then nextLinkFrom w skip true rest
      else if !skip then some l
      else nextLinkFrom w false foundPrevLink rest
    else nextLinkFrom w skip foundPrevLink rest

/-- Of the previous link only matters that there was one. -/
def spfGetNextLink (v w : SPFVertex) (prevLink : Option GlobalRoutingLinkRecord) :
    Option GlobalRoutingLinkRecord :=
  nextLinkFrom w.vertexId prevLink.isSome prevLink.isNone v.lsa.linkRecords

/-- The loop over the links of `w` that lead back to the network `v`; `none` when it is not over
after `fuel` rounds, or when the network has no exit. -/
def exitsByNetwork (asserts : Bool) (v : SPFVertex) :
    Nat → Option GlobalRoutingLinkRecord → SPFVertex → Option SPFVertex
  | 0, _, _ => none
  | fuel + 1, linkRemote, w =>
    match spfGetNextLink w v linkRemote with
    | none => some w
    | some linkRemote => do
      let exit ← v.getRootExitDirection asserts
      exitsByNetwork asserts v fuel (some linkRemote)
        (w.setRootExitDirection (linkRemote.linkData, exit.2))

/-- `SPFNexthopCalculation`, with `w` as it is left; `none` when an assertion fails, a null
pointer is followed or the loop does not end. After two rounds the loop has come back to where it
was. -/
def spfNexthopCalculation (ctx : SpfContext) (v w : SPFVertex) (l : Option GlobalRoutingLinkRecord)
    (distance : BitVec 32) : Option SPFVertex :=
  let reached (w : SPFVertex) := (w.setDistanceFromRoot distance).setParent v.vertexId
  if v.vertexId = ctx.root then
    match w.vertexType with
    | .router => do
      let l ← l
      let linkRemote ← spfGetNextLink w v none
      let outIf := ctx.findOutgoingInterfaceId l.linkData .getOnes
      some (reached (w.setRootExitDirection (linkRemote.linkData, outIf)))
    | .network =>
      let outIf := ctx.findOutgoingInterfaceId w.lsa.linkStateId w.lsa.networkLSANetworkMask
      some (reached (w.setRootExitDirection (0, outIf)))
  else
    match v.vertexType with
    | .network =>
      if v.parents.head? = some ctx.root then
        if ctx.asserts ∧ w.vertexType ≠ .router then none
        else (exitsByNetwork ctx.asserts v 2 none w).map reached
      else (v.getRootExitDirection ctx.asserts).map fun exit => reached (w.setRootExitDirection exit)
    | .router => some (reached (w.inheritAllRootExitDirections v))

/-- The distance by way of `v`. -/
def distanceBy (v : SPFVertex) (l : Option GlobalRoutingLinkRecord) : Option (BitVec 32) :=
  if v.lsa.lsType = .routerLSA then l.map fun l => v.distanceFromRoot + l.metric.setWidth 32
  else some v.distanceFromRoot

/-- What `SPFNext` does with the advertisement at the other end of a record of `v`. -/
def examine (ctx : SpfContext) (v : SPFVertex) (l : Option GlobalRoutingLinkRecord)
    (wLsa : GlobalRoutingLSA) (s : SpfState) : Option SpfState :=
  if s.status wLsa.linkStateId = .inSpfTree then some s
  else do
    let distance ← distanceBy v l
    match s.status wLsa.linkStateId with
    | .candidate => do
      let cw ← CandidateQueue.find s.candidate wLsa.linkStateId
      if cw.distanceFromRoot < distance then some s
      else if cw.distanceFromRoot = distance then do
        let w ← spfNexthopCalculation ctx v { lsa := wLsa } l distance
        some
          { s with
            candidate := CandidateQueue.update s.candidate
              ((cw.mergeRootExitDirections w).mergeParent w ctx.address) }
      else do
        let cw ← spfNexthopCalculation ctx v cw l distance
        some { s with candidate := CandidateQueue.reorder (CandidateQueue.update s.candidate cw) }
    | _ => do
      let w ← spfNexthopCalculation ctx v { lsa := wLsa } l distance
      some
        { status := fun x => if x = wLsa.linkStateId then .candidate else s.status x
          candidate := CandidateQueue.push w s.candidate }

/-- A record of a router; `none` when it names nothing or is of a type that is never used. -/
def examineLink (db : GlobalRouteManagerLSDB) (ctx : SpfContext) (v : SPFVertex) (s : SpfState)
    (l : GlobalRoutingLinkRecord) : Option SpfState :=
  match l.linkType with
  | .stubNetwork => some s
  | .pointToPoint | .transitNetwork => do
    let wLsa ← db.getLSA l.linkId
    examine ctx v (some l) wLsa s
  | _ => none

/-- A router that is attached to a network. -/
def examineAttached (db : GlobalRouteManagerLSDB) (ctx : SpfContext) (v : SPFVertex) (s : SpfState)
    (a : Ipv4Address) : Option SpfState :=
  match db.getLSAByLinkData a with
  | none => some s
  | some wLsa => examine ctx v none wLsa s

def spfNext (db : GlobalRouteManagerLSDB) (ctx : SpfContext) (v : SPFVertex) (s : SpfState) :
    Option SpfState :=
  match v.vertexType with
  | .router => v.lsa.linkRecords.foldlM (examineLink db ctx v) s
  | .network => v.lsa.attachedRouters.foldlM (examineAttached db ctx v) s

/-- The main loop: the vertices in the order in which they are settled, from `v` on. -/
def spfLoop (db : GlobalRouteManagerLSDB) (ctx : SpfContext) :
    Nat → SPFVertex → SpfState → Option (List SPFVertex)
  | 0, _, _ => none
  | fuel + 1, v, s => do
    let s ← spfNext db ctx v s
    match s.candidate with
    | [] => some [v]
    | u :: rest =>
      let s := { s with
        status := fun x => if x = u.vertexId then .inSpfTree else s.status x
        candidate := rest }
      let tree ← spfLoop db ctx fuel u s
      some (v :: tree)

/-- The shortest path tree of the root, which is no stub node; every round settles another
vertex. -/
def spfTree (db : GlobalRouteManagerLSDB) (ctx : SpfContext) : Option (List SPFVertex) := do
  let lsa ← db.getLSA ctx.root
  let status : Ipv4Address → SPFStatus := fun x => if x = ctx.root then .inSpfTree else .notExplored
  spfLoop db ctx db.database.length { lsa, distanceFromRoot := 0 } ⟨status, []⟩

/-! ### Links back to a vertex -/

theorem nextLinkFrom_first (w : Ipv4Address) (ls : List GlobalRoutingLinkRecord) :
    nextLinkFrom w false true ls = (ls.filter fun l => l.linkId = w)[0]? := by
  induction ls with
  | nil => rfl
  | cons l rest ih =>
    by_cases h : l.linkId = w
    · simp [nextLinkFrom, h]
    · simpa [nextLinkFrom, h] using ih

/-- With a link before it the third one is found, whichever link that was. -/
theorem nextLinkFrom_next (w : Ipv4Address) (ls : List GlobalRoutingLinkRecord) :
    nextLinkFrom w true false ls = (ls.filter fun l => l.linkId = w)[2]? := by
  have hskip : ∀ ls, nextLinkFrom w true true ls = (ls.filter fun l => l.linkId = w)[1]? := by
    intro ls
    induction ls with
    | nil => rfl
    | cons l rest ih =>
      by_cases h : l.linkId = w
      · simp [nextLinkFrom, h, nextLinkFrom_first]
      · simpa [nextLinkFrom, h] using ih
  induction ls with
  | nil => rfl
  | cons l rest ih =>
    by_cases h : l.linkId = w
    · simp [nextLinkFrom, h, hskip]
    · simpa [nextLinkFrom, h] using ih

end GlobalRouteManagerImpl

end CudaNs3.Internet
