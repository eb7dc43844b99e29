import CudaNs3.Internet.Ipv4Routes
import CudaNs3.Lib.Bindings
import Mathlib.Data.List.Sort

/-!
# Link states, vertices and the candidate queue

The database of `GlobalRouteManagerLSDB`, a map from link state ids to advertisements, the
vertices that the shortest path calculation makes of them, and the queue of the vertices that it
has not decided yet. The queue is in order of distance, networks before routers, and an entry
whose distance has changed is put in its place by sorting.
-/

namespace CudaNs3.Internet

set_option autoImplicit false

universe u

/-! ### Advertisements -/

inductive LinkType where
  | unknown
  | pointToPoint
  | transitNetwork
  | stubNetwork
  | virtualLink
deriving DecidableEq

structure GlobalRoutingLinkRecord where
  linkId : Ipv4Address
  linkData : Ipv4Address
  linkType : LinkType
  metric : BitVec 16
deriving DecidableEq

/-- The types that `DiscoverLSAs` makes; a summary is never made. -/
inductive LSType where
  | routerLSA
  | networkLSA
  | asExternalLSAs
deriving DecidableEq

structure GlobalRoutingLSA where
  lsType : LSType
  linkStateId : Ipv4Address
  linkRecords : List GlobalRoutingLinkRecord := []
  networkLSANetworkMask : Ipv4Mask := 0
  attachedRouters : List Ipv4Address := []
deriving DecidableEq

inductive SPFStatus where
  | notExplored
  | candidate
  | inSpfTree
deriving DecidableEq

/-- The map in the order of its keys, which are the link state ids. -/
structure GlobalRouteManagerLSDB where
  database : List GlobalRoutingLSA
  extdatabase : List GlobalRoutingLSA
  sorted : database.Pairwise fun a b => a.linkStateId < b.linkStateId
  internal : ∀ lsa ∈ database, lsa.lsType ≠ .asExternalLSAs

namespace GlobalRouteManagerLSDB

def empty : GlobalRouteManagerLSDB := ⟨[], [], .nil, nofun⟩

/-- `std::map::insert`, which leaves the map as it is when it has the key. -/
def insertKey (lsa : GlobalRoutingLSA) : List GlobalRoutingLSA → List GlobalRoutingLSA
  | [] => [lsa]
  | a :: l =>
    if lsa.linkStateId < a.linkStateId then lsa :: a :: l
    else if a.linkStateId < lsa.linkStateId then a :: insertKey lsa l
    else a :: l

theorem mem_of_mem_insertKey {lsa x : GlobalRoutingLSA} {l : List GlobalRoutingLSA}
    (h : x ∈ insertKey lsa l) : x = lsa ∨ x ∈ l := by
  induction l with
  | nil => exact .inl (List.mem_singleton.mp h)
  | cons a l ih =>
    unfold insertKey at h
    split_ifs at h
    · exact List.mem_cons.mp h
    · rcases List.mem_cons.mp h with rfl | h
      · exact .inr List.mem_cons_self
      · exact (ih h).imp_right (List.mem_cons_of_mem a)
    · exact .inr h

theorem sorted_insertKey {lsa : GlobalRoutingLSA} {l : List GlobalRoutingLSA}
    (h : l.Pairwise fun a b => a.linkStateId < b.linkStateId) :
    (insertKey lsa l).Pairwise fun a b => a.linkStateId < b.linkStateId := by
  induction l with
  | nil => exact List.pairwise_singleton _ _
  | cons a l ih =>
    obtain ⟨hhead, htail⟩ := List.pairwise_cons.mp h
    unfold insertKey
    split_ifs with hlt hgt
    · apply List.pairwise_cons.mpr
      refine ⟨List.forall_mem_cons.mpr ⟨hlt, ?_⟩, h⟩
      intro b hb
      exact BitVec.lt_trans hlt (hhead b hb)
    · apply List.pairwise_cons.mpr
      refine ⟨?_, ih htail⟩
      intro b hb
      rcases mem_of_mem_insertKey hb with rfl | hb
      · exact hgt
      · exact hhead b hb
    · exact h

/-- `Insert`, as `BuildGlobalRoutingDatabase` calls it: the key is the link state id. -/
def insert (db : GlobalRouteManagerLSDB) (lsa : GlobalRoutingLSA) : GlobalRouteManagerLSDB :=
  if h : lsa.lsType = .asExternalLSAs then { db with extdatabase := db.extdatabase ++ [lsa] }
  else
    { db with
      database := insertKey lsa db.database
      sorted := sorted_insertKey db.sorted
      internal := by
        intro x hx
        rcases mem_of_mem_insertKey hx with rfl | hx
        · exact h
        · exact db.internal x hx }

def getLSA (db : GlobalRouteManagerLSDB) (addr : Ipv4Address) : Option GlobalRoutingLSA :=
  Bindings.get GlobalRoutingLSA.linkStateId db.database addr

/-- The first advertisement with a transit record of that link data. -/
def getLSAByLinkData (db : GlobalRouteManagerLSDB) (addr : Ipv4Address) : Option GlobalRoutingLSA :=
  db.database.find? fun lsa =>
    lsa.linkRecords.any fun lr => lr.linkType = .transitNetwork ∧ lr.linkData = addr

variable {db : GlobalRouteManagerLSDB} {lsa lsa' : GlobalRoutingLSA} {addr : Ipv4Address}

theorem distinct (db : GlobalRouteManagerLSDB) :
    Bindings.Distinct GlobalRoutingLSA.linkStateId db.database :=
  List.pairwise_map.mpr (db.sorted.imp BitVec.ne_of_lt)

theorem getLSA_eq_some : db.getLSA addr = some lsa ↔ lsa ∈ db.database ∧ lsa.linkStateId = addr :=
  db.distinct.get_iff

theorem eq_of_linkStateId (h : lsa ∈ db.database) (h' : lsa' ∈ db.database)
    (heq : lsa.linkStateId = lsa'.linkStateId) : lsa = lsa' := by
  have hlsa := getLSA_eq_some.mpr ⟨h, heq⟩
  rw [getLSA_eq_some.mpr ⟨h', rfl⟩] at hlsa
  exact (Option.some.inj hlsa).symm

theorem get_insertKey {l : List GlobalRoutingLSA}
    (h : l.Pairwise fun a b => a.linkStateId < b.linkStateId) :
    Bindings.get GlobalRoutingLSA.linkStateId (insertKey lsa l) addr =
      (Bindings.get GlobalRoutingLSA.linkStateId l addr).or
        (if lsa.linkStateId = addr then some lsa else none) := by
  induction l with
  | nil => rw [insertKey, Bindings.get_cons, Bindings.get_nil, Option.none_or]
  | cons a l ih =>
    obtain ⟨hhead, htail⟩ := List.pairwise_cons.mp h
    unfold insertKey
    by_cases hlt : lsa.linkStateId < a.linkStateId
    · rw [if_pos hlt, Bindings.get_cons]
      by_cases haddr : lsa.linkStateId = addr
      · -- a key before all others is not there yet
        have hnone : Bindings.get GlobalRoutingLSA.linkStateId (a :: l) addr = none := by
          rw [Bindings.get_eq_none_iff]
          intro b hb heq
          rcases List.mem_cons.mp hb with rfl | hb
          · exact BitVec.ne_of_lt hlt (haddr.trans heq.symm)
          · exact BitVec.ne_of_lt (BitVec.lt_trans hlt (hhead b hb)) (haddr.trans heq.symm)
        rw [if_pos haddr, hnone, Option.none_or, if_pos haddr]
      · rw [if_neg haddr, if_neg haddr, Option.or_none]
    rw [if_neg hlt]
    by_cases hgt : a.linkStateId < lsa.linkStateId
    · rw [if_pos hgt, Bindings.get_cons, Bindings.get_cons, ih htail]
      by_cases ha : a.linkStateId = addr
      · rw [if_pos ha, if_pos ha, Option.some_or]
      · rw [if_neg ha, if_neg ha]
    · have heq : a.linkStateId = lsa.linkStateId :=
        BitVec.le_antisymm (BitVec.not_lt.mp hlt) (BitVec.not_lt.mp hgt)
      rw [if_neg hgt, Bindings.get_cons, ← heq]
      by_cases ha : a.linkStateId = addr
      · rw [if_pos ha, Option.some_or]
      · rw [if_neg ha, if_neg ha, Option.or_none]

theorem getLSA_insert (db : GlobalRouteManagerLSDB) (lsa : GlobalRoutingLSA) (addr : Ipv4Address) :
    (db.insert lsa).getLSA addr = (db.getLSA addr).or
      (if lsa.lsType ≠ .asExternalLSAs ∧ lsa.linkStateId = addr then some lsa else none) := by
  unfold insert getLSA
  by_cases hext : lsa.lsType = .asExternalLSAs
  · simp [hext]
  · simp [hext, get_insertKey db.sorted]

theorem extdatabase_insert (db : GlobalRouteManagerLSDB) (lsa : GlobalRoutingLSA) :
    (db.insert lsa).extdatabase =
      db.extdatabase ++ if lsa.lsType = .asExternalLSAs then [lsa] else [] := by
  unfold insert
  by_cases hext : lsa.lsType = .asExternalLSAs
  · simp [hext]
  · simp [hext]

/-- The loop of `BuildGlobalRoutingDatabase` over the advertisements of the routers. -/
def buildGlobalRoutingDatabase (db : GlobalRouteManagerLSDB) (lsas : List GlobalRoutingLSA) :
    GlobalRouteManagerLSDB := lsas.foldl insert db

end GlobalRouteManagerLSDB

/-! ### Vertices -/

inductive VertexType where
  | router
  | network
deriving DecidableEq

/-- Next hop and outgoing interface. -/
abbrev NodeExit := Ipv4Address × Int

/-- A parent is named by its vertex id. -/
structure SPFVertex where
  lsa : GlobalRoutingLSA
  /-- `SPF_INFINITY` at first -/
  distanceFromRoot : BitVec 32 := 0xffffffff
  ecmpRootExits : List NodeExit := []
  parents : List Ipv4Address := []

/-- `std::list::unique`. -/
def unique {α : Type u} [DecidableEq α] : List α → List α
  | a :: b :: l => if a = b then unique (b :: l) else a :: unique (b :: l)
  | l => l

namespace SPFVertex

variable (v w : SPFVertex)

def vertexId : Ipv4Address := v.lsa.linkStateId

/-- No vertex is made of an external advertisement. -/
def vertexType : VertexType := if v.lsa.lsType = .networkLSA then .network else .router

def setParent (parent : Ipv4Address) : SPFVertex := { v with parents := [parent] }

def setDistanceFromRoot (distance : BitVec 32) : SPFVertex := { v with distanceFromRoot := distance }

def setRootExitDirection (exit : NodeExit) : SPFVertex := { v with ecmpRootExits := [exit] }

def inheritAllRootExitDirections : SPFVertex := { v with ecmpRootExits := w.ecmpRootExits }

/-- `std::pair` compares the next hops first. -/
def exitLe (a b : NodeExit) : Bool := a.1 < b.1 ∨ (a.1 = b.1 ∧ a.2 ≤ b.2)

def mergeRootExitDirections : SPFVertex :=
  { v with ecmpRootExits := unique ((v.ecmpRootExits ++ w.ecmpRootExits).mergeSort exitLe) }

/-- The parents are sorted by where they are in memory. -/
def mergeParent (address : Ipv4Address → Nat) : SPFVertex :=
  { v with
    parents := unique ((v.parents ++ w.parents).mergeSort fun a b => address a ≤ address b) }

/-- The overload without an index. With assertions there must not be a second exit; `none` also
when there is no exit at all. -/
def getRootExitDirection (asserts : Bool) : Option NodeExit :=
  if asserts ∧ 1 < v.ecmpRootExits.length then none else v.ecmpRootExits.head?

variable {v w}

theorem mem_of_mem_unique {α : Type u} [DecidableEq α] {l : List α} {x : α} (h : x ∈ unique l) :
    x ∈ l := by
  fun_induction unique l with
  | case1 a l ih => exact List.mem_cons_of_mem a (ih h)
  | case2 a b l hne ih =>
    rcases List.mem_cons.mp h with rfl | h
    · exact List.mem_cons_self
    · exact List.mem_cons_of_mem a (ih h)
  | case3 => exact h

theorem mem_unique {α : Type u} [DecidableEq α] {l : List α} {x : α} (h : x ∈ l) :
    x ∈ unique l := by
  fun_induction unique l with
  | case1 a l ih =>
    rcases List.mem_cons.mp h with rfl | h
    · exact ih List.mem_cons_self
    · exact ih h
  | case2 a b l hne ih =>
    rcases List.mem_cons.mp h with rfl | h
    · exact List.mem_cons_self
    · exact List.mem_cons_of_mem a (ih h)
  | case3 => exact h

theorem mem_of_mem_merged {e : NodeExit} (h : e ∈ (v.mergeRootExitDirections w).ecmpRootExits) :
    e ∈ v.ecmpRootExits ∨ e ∈ w.ecmpRootExits := by
  have hmem := mem_of_mem_unique h
  rw [List.mem_mergeSort, List.mem_append] at hmem
  exact hmem

theorem mem_merged {e : NodeExit} (h : e ∈ v.ecmpRootExits ∨ e ∈ w.ecmpRootExits) :
    e ∈ (v.mergeRootExitDirections w).ecmpRootExits := by
  apply mem_unique
  rw [List.mem_mergeSort, List.mem_append]
  exact h

theorem unique_ne_nil {α : Type u} [DecidableEq α] {l : List α} (h : l ≠ []) : unique l ≠ [] := by
  fun_induction unique l with
  | case1 a l ih => exact ih (List.cons_ne_nil a l)
  | case2 => exact List.cons_ne_nil _ _
  | case3 => exact h

theorem merged_ne_nil (h : v.ecmpRootExits ≠ []) :
    (v.mergeRootExitDirections w).ecmpRootExits ≠ [] := by
  apply unique_ne_nil
  intro hnil
  have hperm := List.mergeSort_perm (v.ecmpRootExits ++ w.ecmpRootExits) exitLe
  rw [hnil, List.nil_perm, List.append_eq_nil_iff] at hperm
  exact h hperm.1

end SPFVertex

/-! ### The queue -/

abbrev CandidateQueue := List SPFVertex

namespace CandidateQueue

def compareSPFVertex (v1 v2 : SPFVertex) : Bool :=
  if v1.distanceFromRoot < v2.distanceFromRoot then true
  else if v1.distanceFromRoot = v2.distanceFromRoot then
    v1.vertexType = .network ∧ v2.vertexType = .router
  else false

/-- Before the first vertex that comes after it, which is what `upper_bound` finds in a sorted
list. -/
def push (vNew : SPFVertex) : CandidateQueue → CandidateQueue
  | [] => [vNew]
  | v :: q => if compareSPFVertex vNew v then vNew :: v :: q else v :: push vNew q

def find (q : CandidateQueue) (addr : Ipv4Address) : Option SPFVertex :=
  Bindings.get SPFVertex.vertexId q addr

/-- The vertex with the id of `w` is changed where it is. -/
def update (q : CandidateQueue) (w : SPFVertex) : CandidateQueue :=
  Bindings.put SPFVertex.vertexId q w

/-- `std::list::sort`, which is stable. -/
def reorder (q : CandidateQueue) : CandidateQueue :=
  q.mergeSort fun a b => !compareSPFVertex b a

/-- The vertices come in order of distance. -/
def Sorted (q : CandidateQueue) : Prop :=
  q.Pairwise fun a b => a.distanceFromRoot ≤ b.distanceFromRoot

variable {q : CandidateQueue} {v w vNew : SPFVertex}

theorem le_of_not_compare (h : compareSPFVertex v w = false) :
    w.distanceFromRoot ≤ v.distanceFromRoot := by
  unfold compareSPFVertex at h
  split_ifs at h with hlt heq
  · exact BitVec.le_of_eq heq.symm
  · exact BitVec.not_lt.mp hlt

theorem le_of_compare (h : compareSPFVertex v w = true) :
    v.distanceFromRoot ≤ w.distanceFromRoot := by
  unfold compareSPFVertex at h
  split_ifs at h with hlt heq
  · exact BitVec.le_of_lt hlt
  · exact BitVec.le_of_eq heq

theorem push_perm : (push vNew q).Perm (vNew :: q) := by
  induction q with
  | nil => exact .refl _
  | cons v q ih =>
    unfold push
    split
    · exact .refl _
    · exact (ih.cons v).trans (.swap vNew v q)

theorem sorted_push (h : Sorted q) : Sorted (push vNew q) := by
  induction q with
  | nil => exact List.pairwise_singleton _ _
  | cons v q ih =>
    obtain ⟨hhead, htail⟩ := List.pairwise_cons.mp h
    unfold push
    split
    · rename_i hlt
      apply List.pairwise_cons.mpr
      refine ⟨List.forall_mem_cons.mpr ⟨le_of_compare hlt, ?_⟩, h⟩
      intro w hw
      exact BitVec.le_trans (le_of_compare hlt) (hhead w hw)
    · rename_i hge
      apply List.pairwise_cons.mpr
      refine ⟨?_, ih htail⟩
      intro w hw
      rcases List.mem_cons.mp (push_perm.mem_iff.mp hw) with rfl | hw
      · exact le_of_not_compare (Bool.not_eq_true _ ▸ hge)
      · exact hhead w hw

/-- Nothing moves when a vertex keeps its distance. -/
theorem sorted_update (h : Sorted q) (hget : find q w.vertexId = some v)
    (hd : w.distanceFromRoot = v.distanceFromRoot) : Sorted (update q w) := by
  apply List.pairwise_map.mp
  rw [update, Bindings.map_put_of_get hget hd]
  exact List.pairwise_map.mpr h

theorem reorder_perm : (reorder q).Perm q := List.mergeSort_perm q _

theorem compare_iff : compareSPFVertex v w = true ↔
    v.distanceFromRoot.toNat < w.distanceFromRoot.toNat ∨
      (v.distanceFromRoot.toNat = w.distanceFromRoot.toNat ∧ v.vertexType = .network ∧
        w.vertexType = .router) := by
  unfold compareSPFVertex
  simp only [BitVec.lt_def, ← BitVec.toNat_inj]
  split_ifs with hlt heq <;> simp [hlt] <;> omega

theorem sorted_reorder : Sorted (reorder q) := by
  have htrans : ∀ a b c : SPFVertex, (!compareSPFVertex b a) = true → (!compareSPFVertex c b) = true →
      (!compareSPFVertex c a) = true := by
    intro a b c hab hbc
    simp only [Bool.not_eq_true', ← Bool.not_eq_true, compare_iff] at *
    have ha : a.vertexType = .network ∨ a.vertexType = .router := by cases a.vertexType <;> simp
    have hb : b.vertexType = .network ∨ b.vertexType = .router := by cases b.vertexType <;> simp
    grind
  have htotal : ∀ a b : SPFVertex, (!compareSPFVertex b a || !compareSPFVertex a b) = true := by
    intro a b
    rw [← Bool.not_and, Bool.not_eq_true', ← Bool.not_eq_true, Bool.and_eq_true, compare_iff,
      compare_iff]
    rintro ⟨h, h'⟩
    grind
  refine (List.pairwise_mergeSort htrans htotal q).imp ?_
  intro a b hab
  exact le_of_not_compare (by simpa using hab)

end CandidateQueue

end CudaNs3.Internet
