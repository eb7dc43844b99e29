import CudaNs3.Device.Topology
import CudaNs3.Lib.Bindings
import Mathlib.Data.Nat.Find
import Mathlib.Data.Prod.Lex

/-!
# The static routing table as a map from prefixes to routes

Routes are stored with their network masked. A route that is removed leaves its place to the
last one, so the order of the table says nothing; a lookup goes through all of it.
-/

namespace CudaNs3.Device

open Bindings
set_option autoImplicit false

def maxRouteEntries : Nat := 32

abbrev Prefix := UInt32 × UInt32

def RouteEntry.key (r : RouteEntry) : Prefix := (r.network, r.netmask)

/-- What a route says about its prefix: the interface and the priority. -/
def RouteEntry.target (r : RouteEntry) : Nat × Nat := (r.netdevIndex, r.priority)

/-- `LookupRoute` keeps the position of the best route in an `int32_t`. The only caller takes
the default capacity. -/
structure CudaIpv4StaticRouting where
  routes : List RouteEntry
  capacity : Nat
  length_le : routes.length ≤ capacity
  capacity_le : capacity ≤ 2 ^ 31

inductive RouteOp where
  | addRoute (network netmask : UInt32) (netdevIndex priority : Nat)
  | removeRoute (network netmask : UInt32)
  | addDefaultRoute (netdevIndex priority : Nat)
  | clear

def applyNetmask (address netmask : UInt32) : UInt32 := address &&& netmask

namespace CudaIpv4StaticRouting

def create (capacity : Nat) (h : capacity ≤ 2 ^ 31) : CudaIpv4StaticRouting :=
  ⟨[], capacity, Nat.zero_le _, h⟩

def addRoute (t : CudaIpv4StaticRouting) (network netmask : UInt32) (netdevIndex priority : Nat) :
    CudaIpv4StaticRouting × Bool :=
  let network := applyNetmask network netmask
  match t.routes.findIdx? fun r => r.key = (network, netmask) with
  | some i =>
    ({ t with
      routes := t.routes.set i ⟨network, netmask, netdevIndex, priority⟩
      length_le := by rw [List.length_set]; exact t.length_le }, true)
  | none =>
    if h : t.routes.length < t.capacity then
      ({ t with
        routes := t.routes ++ [⟨network, netmask, netdevIndex, priority⟩]
        length_le := by rw [List.length_append]; exact h }, true)
    else (t, false)

theorem length_swapRemove_le (t : CudaIpv4StaticRouting) (i : Nat) :
    (swapRemove t.routes i).length ≤ t.capacity := by
  have h := t.length_le
  unfold swapRemove
  split
  · split
    · rw [List.length_dropLast, List.length_set]
      omega
    · rw [List.length_dropLast]
      omega
  · exact h

def removeRoute (t : CudaIpv4StaticRouting) (network netmask : UInt32) :
    CudaIpv4StaticRouting × Bool :=
  let network := applyNetmask network netmask
  match t.routes.findIdx? fun r => r.key = (network, netmask) with
  | some i => ({ t with routes := swapRemove t.routes i, length_le := t.length_swapRemove_le i }, true)
  | none => (t, false)

def clear (t : CudaIpv4StaticRouting) : CudaIpv4StaticRouting :=
  { t with routes := [], length_le := Nat.zero_le _ }

def addDefaultRoute (t : CudaIpv4StaticRouting) (netdevIndex priority : Nat) :
    CudaIpv4StaticRouting × Bool := t.addRoute 0 0 netdevIndex priority

def lookupRoute (t : CudaIpv4StaticRouting) (destIp : UInt32) : Option Nat :=
  (t.routes.foldl (RouteEntry.better destIp) none).map fun best => best.2.netdevIndex

/-- One call, and what it returns; `clear` returns nothing. -/
def perform (t : CudaIpv4StaticRouting) : RouteOp → CudaIpv4StaticRouting × Option Bool
  | .addRoute network netmask netdevIndex priority =>
    (t.addRoute network netmask netdevIndex priority).map id some
  | .removeRoute network netmask => (t.removeRoute network netmask).map id some
  | .addDefaultRoute netdevIndex priority => (t.addDefaultRoute netdevIndex priority).map id some
  | .clear => (t.clear, none)

/-- The table after the calls, and what they returned. -/
def run (t : CudaIpv4StaticRouting) : List RouteOp → CudaIpv4StaticRouting × List (Option Bool)
  | [] => (t, [])
  | op :: ops => ((t.perform op).1.run ops).map id ((t.perform op).2 :: ·)

/-- The protocol asks a table like this one. -/
theorem lookupRoute_of_routes (t : CudaIpv4StaticRouting) (l3 : CudaIpv4L3Protocol)
    (h : l3.routes = t.routes) (destIp : UInt32) : l3.lookupRoute destIp = t.lookupRoute destIp := by
  rw [CudaIpv4L3Protocol.lookupRoute, h]
  rfl

end CudaIpv4StaticRouting

/-! ### What the table is for -/

/-- The routes as a finite map of bounded size. -/
abbrev RouteMap := Finmap fun _ : Prefix => Nat × Nat

namespace RouteMap

def add (m : RouteMap) (capacity : Nat) (network netmask : UInt32) (target : Nat × Nat) :
    RouteMap × Bool :=
  let k : Prefix := (network &&& netmask, netmask)
  if k ∉ m ∧ m.keys.card = capacity then (m, false) else (m.insert k target, true)

def remove (m : RouteMap) (network netmask : UInt32) : RouteMap × Bool :=
  let k : Prefix := (network &&& netmask, netmask)
  if k ∈ m then (m.erase k, true) else (m, false)

def perform (m : RouteMap) (capacity : Nat) : RouteOp → RouteMap × Option Bool
  | .addRoute network netmask netdevIndex priority =>
    (add m capacity network netmask (netdevIndex, priority)).map id some
  | .removeRoute network netmask => (remove m network netmask).map id some
  | .addDefaultRoute netdevIndex priority =>
    (add m capacity 0 0 (netdevIndex, priority)).map id some
  | .clear => (∅, none)

def run (m : RouteMap) (capacity : Nat) : List RouteOp → RouteMap × List (Option Bool)
  | [] => (m, [])
  | op :: ops => (run (perform m capacity op).1 capacity ops).map id ((perform m capacity op).2 :: ·)

end RouteMap

/-- As many of the first bits of the mask as are all ones. -/
def leadingOnes (netmask : UInt32) : Nat :=
  Nat.findGreatest (fun n => ∀ i < n, netmask.toBitVec.getMsbD i = true) 32

def Prefix.Matches (k : Prefix) (destIp : UInt32) : Prop := destIp &&& k.2 = k.1

/-- How good a match the route is: its prefix length, and then its priority. -/
def Prefix.rank (k : Prefix) (target : Nat × Nat) : Nat ×ₗ Nat :=
  toLex (leadingOnes k.2, target.2)

/-- The answer is the interface of a best matching route, and there is none without one. -/
structure LongestMatch (m : RouteMap) (destIp : UInt32) (answer : Option Nat) : Prop where
  none_iff : answer = none ↔ ∀ k v, m.lookup k = some v → ¬k.Matches destIp
  best : ∀ i, answer = some i → ∃ k v, m.lookup k = some v ∧ k.Matches destIp ∧ v.1 = i ∧
    ∀ k' v', m.lookup k' = some v' → k'.Matches destIp → k'.rank v' ≤ k.rank v

/-! ### The prefix length -/

theorem bit_eq_one_iff (netmask : UInt32) {i : Nat} (hi : i < 32) :
    (netmask >>> (.ofNat (31 - i))) &&& 1 = 1 ↔ netmask.toBitVec.getMsbD i = true := by
  have hshift : (UInt32.ofNat (31 - i)).toNat % 32 = 31 - i := by
    rw [UInt32.toNat_ofNat']
    omega
  rw [← UInt32.toNat_inj, UInt32.toNat_and, UInt32.toNat_shiftRight, hshift, UInt32.toNat_one,
    Nat.and_one_is_mod, BitVec.getMsbD, BitVec.getLsbD, Nat.testBit_eq_decide_div_mod_eq,
    Nat.shiftRight_eq_div_pow]
  simp [hi]

theorem length_takeWhile_range {p : Nat → Bool} {n : Nat} :
    ((List.range n).takeWhile p).length = Nat.findGreatest (fun k => ∀ i < k, p i = true) n := by
  symm
  rw [List.takeWhile_eq_take_findIdx_not, List.length_take, List.length_range,
    Nat.findGreatest_eq_iff]
  have hle : (List.range n).findIdx (fun i => !p i) ≤ n :=
    Nat.le_trans List.findIdx_le_length (Nat.le_of_eq List.length_range)
  rw [Nat.min_eq_left hle]
  refine ⟨hle, fun _ i hi => ?_, fun k hlt hk hall => ?_⟩
  · have hnot := List.not_of_lt_findIdx hi
    simpa using hnot
  · have hlast := @List.findIdx_getElem _ (fun i => !p i) (List.range n)
      (Nat.lt_of_lt_of_le (Nat.lt_of_lt_of_le hlt hk) (Nat.le_of_eq List.length_range.symm))
    rw [List.getElem_range, hall _ hlt] at hlast
    simp at hlast

theorem prefixLength_eq (netmask : UInt32) : prefixLength netmask = leadingOnes netmask := by
  have hcongr {p q : Nat → Prop} [DecidablePred p] [DecidablePred q]
      (h : ∀ k ≤ 32, p k ↔ q k) : Nat.findGreatest p 32 = Nat.findGreatest q 32 := by
    rw [Nat.findGreatest_eq_iff]
    refine ⟨Nat.findGreatest_le 32, fun hne => ?_, fun k hlt hk => ?_⟩
    · exact (h _ (Nat.findGreatest_le 32)).mpr (Nat.findGreatest_of_ne_zero rfl hne)
    · rw [h k hk]
      exact Nat.findGreatest_is_greatest hlt hk
  unfold prefixLength leadingOnes
  rw [length_takeWhile_range]
  refine hcongr fun k hk => ?_
  constructor
  · intro h i hi
    exact (bit_eq_one_iff netmask (Nat.lt_of_lt_of_le hi hk)).mp (by simpa using h i hi)
  · intro h i hi
    simpa using (bit_eq_one_iff netmask (Nat.lt_of_lt_of_le hi hk)).mpr (h i hi)

/-! ### The running best -/

/-- What the loop of `LookupRoute` has found in the routes it went through. -/
structure Best (destIp : UInt32) (l : List RouteEntry) (best : Option (Nat × RouteEntry)) :
    Prop where
  none_iff : best = none ↔ ∀ r ∈ l, ¬r.key.Matches destIp
  found : ∀ len b, best = some (len, b) → b ∈ l ∧ b.key.Matches destIp ∧
    len = leadingOnes b.netmask ∧
    ∀ r ∈ l, r.key.Matches destIp → r.key.rank r.target ≤ b.key.rank b.target

theorem rank_le_iff {r b : RouteEntry} : r.key.rank r.target ≤ b.key.rank b.target ↔
    leadingOnes r.netmask < leadingOnes b.netmask ∨
      (leadingOnes r.netmask = leadingOnes b.netmask ∧ r.priority ≤ b.priority) :=
  Prod.Lex.le_iff

theorem Best.nil (destIp : UInt32) : Best destIp [] none where
  none_iff := by simp
  found len b h := by simp at h

theorem Best.of_max {destIp : UInt32} {l : List RouteEntry} {b : RouteEntry} (hb : b ∈ l)
    (hmatch : b.key.Matches destIp)
    (hmax : ∀ r ∈ l, r.key.Matches destIp → r.key.rank r.target ≤ b.key.rank b.target) :
    Best destIp l (some (leadingOnes b.netmask, b)) where
  none_iff := ⟨fun h => by simp at h, fun h => absurd hmatch (h b hb)⟩
  found len b' h := by
    obtain ⟨rfl, rfl⟩ := Prod.mk.inj (Option.some.inj h)
    exact ⟨hb, hmatch, rfl, hmax⟩

theorem Best.snoc {destIp : UInt32} {l : List RouteEntry} {best : Option (Nat × RouteEntry)}
    (h : Best destIp l best) (r : RouteEntry) :
    Best destIp (l ++ [r]) (RouteEntry.better destIp best r) := by
  have hmem {b : RouteEntry} (hb : b ∈ l) : b ∈ l ++ [r] := List.mem_append_left _ hb
  have hself : r ∈ l ++ [r] := List.mem_append_right _ (List.mem_singleton_self r)
  unfold RouteEntry.better
  by_cases hr : destIp &&& r.netmask = r.network
  · rw [if_pos hr, prefixLength_eq]
    cases hbest : best with
    | none =>
      have hnone := h.none_iff.mp hbest
      refine .of_max hself hr fun q hq hqm => ?_
      rcases List.mem_append.mp hq with hq | hq
      · exact absurd hqm (hnone q hq)
      · rw [List.mem_singleton.mp hq]
    | some found =>
      obtain ⟨len, b⟩ := found
      obtain ⟨hb, hbm, rfl, hmax⟩ := h.found len b hbest
      dsimp only
      split
      · rename_i hbetter
        have hle : b.key.rank b.target ≤ r.key.rank r.target := rank_le_iff.mpr (by omega)
        refine .of_max hself hr fun q hq hqm => ?_
        rcases List.mem_append.mp hq with hq | hq
        · exact (hmax q hq hqm).trans hle
        · rw [List.mem_singleton.mp hq]
      · rename_i hworse
        refine .of_max (hmem hb) hbm fun q hq hqm => ?_
        rcases List.mem_append.mp hq with hq | hq
        · exact hmax q hq hqm
        · rw [List.mem_singleton.mp hq]
          exact rank_le_iff.mpr (by omega)
  · rw [if_neg hr]
    refine ⟨?_, fun len b hbest => ?_⟩
    · rw [h.none_iff]
      constructor
      · intro hall q hq
        rcases List.mem_append.mp hq with hq | hq
        · exact hall q hq
        · rw [List.mem_singleton.mp hq]
          exact hr
      · exact fun hall q hq => hall q (hmem hq)
    · obtain ⟨hb, hbm, hlen, hmax⟩ := h.found len b hbest
      refine ⟨hmem hb, hbm, hlen, fun q hq hqm => ?_⟩
      rcases List.mem_append.mp hq with hq | hq
      · exact hmax q hq hqm
      · rw [List.mem_singleton.mp hq] at hqm
        exact absurd hqm hr

theorem Best.foldl (destIp : UInt32) (l : List RouteEntry) :
    Best destIp l (l.foldl (RouteEntry.better destIp) none) := by
  induction l using List.reverseRecOn with
  | nil => exact .nil destIp
  | append_singleton l r ih =>
    rw [List.foldl_append]
    exact ih.snoc r

/-! ### The table refines the map -/

/-- The table holds the routes of the map, each with its network masked. -/
structure CudaIpv4StaticRouting.Holds (t : CudaIpv4StaticRouting) (m : RouteMap) : Prop where
  represents : Represents RouteEntry.key RouteEntry.target t.routes m
  masked : ∀ r ∈ t.routes, r.network &&& r.netmask = r.network

namespace CudaIpv4StaticRouting
variable {t : CudaIpv4StaticRouting} {m : RouteMap}

theorem create_holds (capacity : Nat) (h : capacity ≤ 2 ^ 31) : (create capacity h).Holds ∅ where
  represents := .nil
  masked _ hr := absurd hr List.not_mem_nil

theorem clear_holds (t : CudaIpv4StaticRouting) : t.clear.Holds ∅ where
  represents := .nil
  masked _ hr := absurd hr List.not_mem_nil

theorem Holds.put (h : t.Holds m) (network netmask : UInt32) (netdevIndex priority : Nat)
    {t' : CudaIpv4StaticRouting}
    (ht : t'.routes = put RouteEntry.key t.routes
      ⟨network &&& netmask, netmask, netdevIndex, priority⟩) :
    t'.Holds (m.insert (network &&& netmask, netmask) (netdevIndex, priority)) where
  represents := by
    rw [ht]
    exact h.represents.put _
  masked r hr := by
    rw [ht] at hr
    rcases eq_or_mem_of_mem_put hr with rfl | hr
    · show network &&& netmask &&& netmask = network &&& netmask
      rw [UInt32.and_assoc, UInt32.and_self]
    · exact h.masked r hr

theorem Holds.addRoute (h : t.Holds m) (network netmask : UInt32) (netdevIndex priority : Nat) :
    (t.addRoute network netmask netdevIndex priority).1.Holds
        (m.add t.capacity network netmask (netdevIndex, priority)).1 ∧
      (t.addRoute network netmask netdevIndex priority).2 =
        (m.add t.capacity network netmask (netdevIndex, priority)).2 := by
  have hmem : (network &&& netmask, netmask) ∈ m ↔
      (t.routes.findIdx? fun r => r.key = (network &&& netmask, netmask)).isSome := by
    rw [h.represents.mem_iff, isSome_get]
  have hcard := h.represents.card
  have hle := t.length_le
  unfold CudaIpv4StaticRouting.addRoute RouteMap.add applyNetmask
  dsimp only
  split
  · rename_i i hi
    have hold : (network &&& netmask, netmask) ∈ m := hmem.mpr (by rw [hi]; rfl)
    rw [if_neg fun hnew => hnew.1 hold]
    refine ⟨h.put network netmask netdevIndex priority ?_, rfl⟩
    unfold Bindings.put
    rw [show (t.routes.findIdx? fun f => f.key = RouteEntry.key
      ⟨network &&& netmask, netmask, netdevIndex, priority⟩) = some i from hi]
  · rename_i hi
    have hnew : (network &&& netmask, netmask) ∉ m := fun hold => by
      rw [hmem, hi] at hold
      simp at hold
    split
    · rename_i hroom
      rw [if_neg fun hfull => by omega]
      refine ⟨h.put network netmask netdevIndex priority ?_, rfl⟩
      unfold Bindings.put
      rw [show (t.routes.findIdx? fun f => f.key = RouteEntry.key
        ⟨network &&& netmask, netmask, netdevIndex, priority⟩) = none from hi]
    · rename_i hfull
      rw [if_pos ⟨hnew, by omega⟩]
      exact ⟨h, rfl⟩

theorem Holds.removeRoute (h : t.Holds m) (network netmask : UInt32) :
    (t.removeRoute network netmask).1.Holds (m.remove network netmask).1 ∧
      (t.removeRoute network netmask).2 = (m.remove network netmask).2 := by
  have hmem : (network &&& netmask, netmask) ∈ m ↔
      (t.routes.findIdx? fun r => r.key = (network &&& netmask, netmask)).isSome := by
    rw [h.represents.mem_iff, isSome_get]
  unfold CudaIpv4StaticRouting.removeRoute RouteMap.remove applyNetmask
  dsimp only
  split
  · rename_i i hi
    rw [if_pos (hmem.mpr (by rw [hi]; rfl))]
    have hperm := swapRemove_perm_eraseP hi
    refine ⟨⟨(h.represents.eraseP _).perm hperm.symm, fun r hr => ?_⟩, rfl⟩
    exact h.masked r (List.mem_of_mem_eraseP (hperm.subset hr))
  · rename_i hi
    rw [if_neg fun hold => by rw [hmem, hi] at hold; simp at hold]
    exact ⟨h, rfl⟩

theorem perform_capacity (t : CudaIpv4StaticRouting) (op : RouteOp) :
    (t.perform op).1.capacity = t.capacity := by
  have hadd (network netmask : UInt32) (netdevIndex priority : Nat) :
      (t.addRoute network netmask netdevIndex priority).1.capacity = t.capacity := by
    unfold addRoute
    dsimp only
    split
    · rfl
    · split <;> rfl
  cases op with
  | addRoute network netmask netdevIndex priority => exact hadd _ _ _ _
  | addDefaultRoute netdevIndex priority => exact hadd _ _ _ _
  | removeRoute network netmask =>
    change (t.removeRoute network netmask).1.capacity = t.capacity
    unfold removeRoute
    dsimp only
    split <;> rfl
  | clear => rfl

/-- Each call does to the table what it does to the map, and answers the same. -/
theorem Holds.perform (h : t.Holds m) (op : RouteOp) :
    (t.perform op).1.Holds (m.perform t.capacity op).1 ∧
      (t.perform op).2 = (m.perform t.capacity op).2 := by
  cases op with
  | addRoute network netmask netdevIndex priority =>
    obtain ⟨hholds, hanswer⟩ := h.addRoute network netmask netdevIndex priority
    exact ⟨hholds, congrArg some hanswer⟩
  | removeRoute network netmask =>
    obtain ⟨hholds, hanswer⟩ := h.removeRoute network netmask
    exact ⟨hholds, congrArg some hanswer⟩
  | addDefaultRoute netdevIndex priority =>
    obtain ⟨hholds, hanswer⟩ := h.addRoute 0 0 netdevIndex priority
    exact ⟨hholds, congrArg some hanswer⟩
  | clear => exact ⟨t.clear_holds, rfl⟩

theorem Holds.run (h : t.Holds m) (ops : List RouteOp) :
    (t.run ops).1.Holds (m.run t.capacity ops).1 ∧ (t.run ops).2 = (m.run t.capacity ops).2 := by
  induction ops generalizing t m with
  | nil => exact ⟨h, rfl⟩
  | cons op ops ih =>
    obtain ⟨hholds, hanswer⟩ := h.perform op
    obtain ⟨hrest, hanswers⟩ := ih hholds
    rw [t.perform_capacity op] at hrest hanswers
    refine ⟨hrest, ?_⟩
    change (t.perform op).2 :: ((t.perform op).1.run ops).2 = _ :: _
    rw [hanswer, hanswers]

theorem Holds.keys_nodup (h : t.Holds m) :
    (t.routes.map fun r => (r.network &&& r.netmask, r.netmask)).Nodup := by
  have hmap : (t.routes.map fun r => (r.network &&& r.netmask, r.netmask)) =
      t.routes.map RouteEntry.key :=
    List.map_congr_left fun r hr => by rw [h.masked r hr]; rfl
  rw [hmap]
  exact h.represents.distinct

theorem Holds.longestMatch (h : t.Holds m) (destIp : UInt32) :
    LongestMatch m destIp (t.lookupRoute destIp) := by
  have hbest := Best.foldl destIp t.routes
  unfold lookupRoute
  refine ⟨?_, fun i hi => ?_⟩
  · rw [Option.map_eq_none_iff, hbest.none_iff]
    constructor
    · intro hnone k v hv
      obtain ⟨r, hr, rfl, _⟩ := h.represents.lookup_iff.mp hv
      exact hnone r hr
    · exact fun hnone r hr => hnone r.key r.target (h.represents.lookup_iff.mpr ⟨r, hr, rfl, rfl⟩)
  · obtain ⟨⟨len, b⟩, hfound, rfl⟩ := Option.map_eq_some_iff.mp hi
    obtain ⟨hb, hmatch, _, hmax⟩ := hbest.found len b hfound
    refine ⟨b.key, b.target, h.represents.lookup_iff.mpr ⟨b, hb, rfl, rfl⟩, hmatch, rfl, ?_⟩
    intro k v hv hk
    obtain ⟨r, hr, rfl, rfl⟩ := h.represents.lookup_iff.mp hv
    exact hmax r hr hk

/-- After any calls the table holds the routes of the map that the same calls make, has
answered as the map has, and finds the best match in it. -/
theorem longest_prefix_map (capacity : Nat) (h : capacity ≤ 2 ^ 31) (ops : List RouteOp) :
    let t := ((create capacity h).run ops).1
    let m := (RouteMap.run ∅ capacity ops).1
    ((create capacity h).run ops).2 = (RouteMap.run ∅ capacity ops).2 ∧
      (t.routes.map fun r => (r.network &&& r.netmask, r.netmask)).Nodup ∧
      (∀ k v, m.lookup k = some v ↔ ∃ r ∈ t.routes, r.key = k ∧ r.target = v) ∧
      ∀ destIp, LongestMatch m destIp (t.lookupRoute destIp) := by
  obtain ⟨hholds, hanswers⟩ := (create_holds capacity h).run ops
  exact ⟨hanswers, hholds.keys_nodup, fun _ _ => hholds.represents.lookup_iff,
    hholds.longestMatch⟩

/-- A host route beats the default route, and once it is removed the default route is left. -/
theorem longest_prefix_map_default :
    let ops : List RouteOp :=
      [.addDefaultRoute 1 0, .addRoute 0x0A000001 0xFFFFFFFF 2 0, .removeRoute 0x0A000001 0xFFFFFFFF]
    let t := ((create maxRouteEntries (by decide)).run ops).1
    t.lookupRoute 0x0A000001 = some 1 ∧
      LongestMatch (RouteMap.run ∅ maxRouteEntries ops).1 0x0A000001 (some 1) := by
  have h := (longest_prefix_map maxRouteEntries (by decide)
    [.addDefaultRoute 1 0, .addRoute 0x0A000001 0xFFFFFFFF 2 0,
      .removeRoute 0x0A000001 0xFFFFFFFF]).2.2.2 0x0A000001
  exact ⟨by decide, h⟩

end CudaIpv4StaticRouting

end CudaNs3.Device
