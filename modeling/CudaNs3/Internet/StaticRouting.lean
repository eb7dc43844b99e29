import CudaNs3.Internet.Ipv4Routes
import CudaNs3.Lib.RunningBest
import Mathlib.Data.Prod.Lex
import Mathlib.Order.OrderDual

/-!
# Static routing

The table of `Ipv4StaticRouting` and its lookup, one pass with a running best. A longer mask is
better, and with masks of one length a lower metric is. The pass ends at the first route with a
mask of 32 bits that it takes, so that of several such routes it never compares the metrics.
-/

namespace CudaNs3.Internet

open RunningBest
set_option autoImplicit false

universe u

/-- A route of the table and its metric. -/
structure NetworkRoute where
  entry : Ipv4RoutingTableEntry
  metric : BitVec 32
deriving DecidableEq

structure Ipv4StaticRouting where
  networkRoutes : List NetworkRoute := []
deriving DecidableEq

inductive StaticRoutingOp where
  | addNetworkRouteTo (network : Ipv4Address) (networkMask : Ipv4Mask) (nextHop : Ipv4Address)
      (interface : Nat) (metric : BitVec 32)
  | addNetworkRouteOn (network : Ipv4Address) (networkMask : Ipv4Mask) (interface : Nat)
      (metric : BitVec 32)
  | addHostRouteTo (dest nextHop : Ipv4Address) (interface : Nat) (metric : BitVec 32)
  | addHostRouteOn (dest : Ipv4Address) (interface : Nat) (metric : BitVec 32)
  | setDefaultRoute (nextHop : Ipv4Address) (interface : Nat) (metric : BitVec 32)
  | setDefaultMulticastRoute (outputInterface : Nat)
  | removeRoute (index : Nat)
  | notifyInterfaceUp (i : Nat) (addresses : List Ipv4InterfaceAddress)
  | notifyInterfaceDown (i : Nat)
  | notifyAddAddress (interface : Nat) (isUp : Bool) (address : Ipv4InterfaceAddress)
  | notifyRemoveAddress (interface : Nat) (isUp : Bool) (address : Ipv4InterfaceAddress)

namespace Ipv4StaticRouting

/-! ### The table -/

/-- The same route is in the table, with the same metric. -/
def lookupRoute (s : Ipv4StaticRouting) (route : Ipv4RoutingTableEntry) (metric : BitVec 32) :
    Bool :=
  s.networkRoutes.any fun j =>
    j.entry.dest = route.dest && j.entry.destNetworkMask = route.destNetworkMask &&
      j.entry.gateway = route.gateway && j.entry.interface = route.interface && j.metric = metric

def addRoute (s : Ipv4StaticRouting) (route : Ipv4RoutingTableEntry) (metric : BitVec 32) :
    Ipv4StaticRouting :=
  if s.lookupRoute route metric then s
  else { s with networkRoutes := s.networkRoutes ++ [⟨route, metric⟩] }

def addNetworkRouteTo (s : Ipv4StaticRouting) (network : Ipv4Address) (networkMask : Ipv4Mask)
    (nextHop : Ipv4Address) (interface : Nat) (metric : BitVec 32) : Ipv4StaticRouting :=
  s.addRoute (.createNetworkRouteTo network networkMask nextHop interface) metric

/-- The overload without a next hop. -/
def addNetworkRouteOn (s : Ipv4StaticRouting) (network : Ipv4Address) (networkMask : Ipv4Mask)
    (interface : Nat) (metric : BitVec 32) : Ipv4StaticRouting :=
  s.addRoute (.createNetworkRouteOn network networkMask interface) metric

def addHostRouteTo (s : Ipv4StaticRouting) (dest nextHop : Ipv4Address) (interface : Nat)
    (metric : BitVec 32) : Ipv4StaticRouting :=
  s.addNetworkRouteTo dest .getOnes nextHop interface metric

def addHostRouteOn (s : Ipv4StaticRouting) (dest : Ipv4Address) (interface : Nat)
    (metric : BitVec 32) : Ipv4StaticRouting :=
  s.addNetworkRouteOn dest .getOnes interface metric

def setDefaultRoute (s : Ipv4StaticRouting) (nextHop : Ipv4Address) (interface : Nat)
    (metric : BitVec 32) : Ipv4StaticRouting :=
  s.addNetworkRouteTo 0 .getZero nextHop interface metric

/-- This one does not ask whether the route is there already. -/
def setDefaultMulticastRoute (s : Ipv4StaticRouting) (outputInterface : Nat) :
    Ipv4StaticRouting :=
  let route := Ipv4RoutingTableEntry.createNetworkRouteOn 0xe0000000 0xf0000000 outputInterface
  { s with networkRoutes := s.networkRoutes ++ [⟨route, 0⟩] }

/-- `none` is the assertion at the end, for an index that is out of range. -/
def removeRoute (s : Ipv4StaticRouting) (index : Nat) : Option Ipv4StaticRouting :=
  if index < s.networkRoutes.length then
    some { s with networkRoutes := s.networkRoutes.eraseIdx index }
  else none

/-- The addresses are those of the interface. -/
def notifyInterfaceUp (s : Ipv4StaticRouting) (i : Nat) :
    List Ipv4InterfaceAddress → Ipv4StaticRouting
  | [] => s
  | a :: addresses =>
    if a.localAddress ≠ .unset ∧ a.mask ≠ .unset ∧ a.mask ≠ .getOnes then
      (s.addNetworkRouteOn a.networkAddress a.mask i 0).notifyInterfaceUp i addresses
    else s.notifyInterfaceUp i addresses

def notifyInterfaceDown (s : Ipv4StaticRouting) (i : Nat) : Ipv4StaticRouting :=
  { s with networkRoutes := s.networkRoutes.filter fun r => r.entry.interface ≠ i }

def notifyAddAddress (s : Ipv4StaticRouting) (interface : Nat) (isUp : Bool)
    (address : Ipv4InterfaceAddress) : Ipv4StaticRouting :=
  if !isUp then s
  else if address.localAddress ≠ .unset ∧ address.mask ≠ .unset then
    s.addNetworkRouteOn address.networkAddress address.mask interface 0
  else s

def notifyRemoveAddress (s : Ipv4StaticRouting) (interface : Nat) (isUp : Bool)
    (address : Ipv4InterfaceAddress) : Ipv4StaticRouting :=
  if !isUp then s
  else
    { s with
      networkRoutes := s.networkRoutes.filter fun r =>
        !(r.entry.interface = interface && r.entry.isNetwork &&
          r.entry.dest = address.networkAddress && r.entry.destNetworkMask = address.mask) }

def perform (s : Ipv4StaticRouting) : StaticRoutingOp → Option Ipv4StaticRouting
  | .addNetworkRouteTo network networkMask nextHop interface metric =>
    some (s.addNetworkRouteTo network networkMask nextHop interface metric)
  | .addNetworkRouteOn network networkMask interface metric =>
    some (s.addNetworkRouteOn network networkMask interface metric)
  | .addHostRouteTo dest nextHop interface metric =>
    some (s.addHostRouteTo dest nextHop interface metric)
  | .addHostRouteOn dest interface metric => some (s.addHostRouteOn dest interface metric)
  | .setDefaultRoute nextHop interface metric => some (s.setDefaultRoute nextHop interface metric)
  | .setDefaultMulticastRoute outputInterface => some (s.setDefaultMulticastRoute outputInterface)
  | .removeRoute index => s.removeRoute index
  | .notifyInterfaceUp i addresses => some (s.notifyInterfaceUp i addresses)
  | .notifyInterfaceDown i => some (s.notifyInterfaceDown i)
  | .notifyAddAddress interface isUp address => some (s.notifyAddAddress interface isUp address)
  | .notifyRemoveAddress interface isUp address =>
    some (s.notifyRemoveAddress interface isUp address)

def run (s : Ipv4StaticRouting) : List StaticRoutingOp → Option Ipv4StaticRouting
  | [] => some s
  | op :: ops => (s.perform op).bind fun s => s.run ops

/-! ### The lookup -/

section Lookup

variable {Device : Type u} [DecidableEq Device]

/-- The loop of `LookupStatic`; the route object is made of the entry that is taken last. -/
def scan (ipv4 : Ipv4 Device) (dest : Ipv4Address) (oif : Option Device) :
    List NetworkRoute → Nat → BitVec 32 → Option NetworkRoute → Option NetworkRoute
  | [], _, _, rtentry => rtentry
  | r :: rest, longestMask, shortestMetric, rtentry =>
    let masklen := r.entry.destNetworkMask.getPrefixLength
    if r.entry.isMatch dest then
      if !ipv4.onDevice oif r.entry.interface then
        scan ipv4 dest oif rest longestMask shortestMetric rtentry
      else if masklen < longestMask then
        scan ipv4 dest oif rest longestMask shortestMetric rtentry
      else
        let shortestMetric := if masklen > longestMask then 0xffffffff else shortestMetric
        if r.metric > shortestMetric then scan ipv4 dest oif rest masklen shortestMetric rtentry
        else if masklen = 32 then some r
        else scan ipv4 dest oif rest masklen r.metric (some r)
    else scan ipv4 dest oif rest longestMask shortestMetric rtentry

/-- The entry that `LookupStatic` decides for. -/
def select (s : Ipv4StaticRouting) (ipv4 : Ipv4 Device) (dest : Ipv4Address)
    (oif : Option Device) : Option NetworkRoute :=
  scan ipv4 dest oif s.networkRoutes 0 0xffffffff none

/-- The route object made of an entry. -/
def routeOf (ipv4 : Ipv4 Device) (r : NetworkRoute) : Ipv4Route Device where
  destination := r.entry.dest
  source := ipv4.sourceAddressSelection r.entry.interface r.entry.dest
  gateway := r.entry.gateway
  outputDevice := ipv4.getNetDevice r.entry.interface

/-- The outer `none` is the assertion that a link-local multicast comes with an interface. -/
def lookupStatic (s : Ipv4StaticRouting) (ipv4 : Ipv4 Device) (dest : Ipv4Address)
    (oif : Option Device) : Option (Option (Ipv4Route Device)) :=
  if dest.isLocalMulticast then
    oif.map fun device =>
      some ⟨dest, ipv4.firstAddress (ipv4.getInterfaceForDevice device), 0, device⟩
  else some ((s.select ipv4 dest oif).map (routeOf ipv4))

/-! ### What the lookup is for -/

/-- The stored routes that match the destination, and the device if there is one. -/
def matching (s : Ipv4StaticRouting) (ipv4 : Ipv4 Device) (dest : Ipv4Address)
    (oif : Option Device) : List NetworkRoute :=
  s.networkRoutes.filter fun r => r.entry.isMatch dest && ipv4.onDevice oif r.entry.interface

end Lookup

end Ipv4StaticRouting

namespace NetworkRoute

def maskLength (r : NetworkRoute) : Nat := r.entry.destNetworkMask.getPrefixLength

/-- A longer mask counts first, then a lower metric. -/
def rank (r : NetworkRoute) : Nat ×ₗ Natᵒᵈ := toLex (r.maskLength, OrderDual.toDual r.metric.toNat)

def fullMask (r : NetworkRoute) : Bool := r.maskLength = 32

theorem rank_le_iff {a b : NetworkRoute} : a.rank ≤ b.rank ↔
    a.maskLength < b.maskLength ∨ (a.maskLength = b.maskLength ∧ b.metric ≤ a.metric) :=
  Prod.Lex.le_iff

theorem maskLength_le (r : NetworkRoute) : r.maskLength ≤ 32 :=
  r.entry.destNetworkMask.getPrefixLength_le

end NetworkRoute

namespace Ipv4StaticRouting

/-! ### The pass -/

/-- The two locals of the loop are those of the route it has taken, and it has not ended yet. -/
structure Agrees (longestMask : Nat) (shortestMetric : BitVec 32) (rtentry : Option NetworkRoute) :
    Prop where
  untaken : rtentry = none → longestMask = 0 ∧ shortestMetric = 0xffffffff
  taken : ∀ b, rtentry = some b → longestMask = b.maskLength ∧ shortestMetric = b.metric
  lt : ∀ b, rtentry = some b → b.maskLength < 32

theorem Agrees.start : Agrees 0 0xffffffff none where
  untaken _ := ⟨rfl, rfl⟩
  taken b h := by simp at h
  lt b h := by simp at h

theorem Agrees.take {r : NetworkRoute} (h : r.maskLength < 32) :
    Agrees r.maskLength r.metric (some r) where
  untaken hr := by simp at hr
  taken b hb := by
    have hrb : r = b := Option.some.inj hb
    subst hrb
    exact ⟨rfl, rfl⟩
  lt b hb := by
    have hrb : r = b := Option.some.inj hb
    subst hrb
    exact h

/-- No metric is above the one that the loop starts with. -/
theorem not_gt_allOnes (metric : BitVec 32) : ¬metric > 0xffffffff := by
  rw [gt_iff_lt, BitVec.lt_def]
  have h := metric.isLt
  have hall : (0xffffffff : BitVec 32).toNat = 2 ^ 32 - 1 := rfl
  omega

variable {longestMask : Nat} {shortestMetric : BitVec 32} {rtentry : Option NetworkRoute}
  {r : NetworkRoute}

theorem Agrees.skip (h : Agrees longestMask shortestMetric rtentry)
    (hlt : r.maskLength < longestMask) : keep NetworkRoute.rank rtentry r = rtentry := by
  cases hb : rtentry with
  | none =>
    have h0 := (h.untaken hb).1
    omega
  | some b =>
    obtain ⟨hlen, -⟩ := h.taken b hb
    have hnot : ¬b.rank ≤ r.rank := by
      rw [NetworkRoute.rank_le_iff]
      omega
    simp [keep, hnot]

/-- A higher metric is left out only where the mask is as long as that of the route taken. -/
theorem Agrees.worse (h : Agrees longestMask shortestMetric rtentry)
    (hle : ¬r.maskLength < longestMask)
    (hmetric : r.metric > if r.maskLength > longestMask then 0xffffffff else shortestMetric) :
    r.maskLength = longestMask ∧ keep NetworkRoute.rank rtentry r = rtentry := by
  by_cases hgt : r.maskLength > longestMask
  · rw [if_pos hgt] at hmetric
    exact absurd hmetric (not_gt_allOnes r.metric)
  · rw [if_neg hgt] at hmetric
    refine ⟨by omega, ?_⟩
    cases hb : rtentry with
    | none =>
      rw [(h.untaken hb).2] at hmetric
      exact absurd hmetric (not_gt_allOnes r.metric)
    | some b =>
      obtain ⟨hlen, hshort⟩ := h.taken b hb
      rw [hshort] at hmetric
      have hnot : ¬b.rank ≤ r.rank := by
        rw [NetworkRoute.rank_le_iff, not_or, not_and, BitVec.not_le]
        exact ⟨by omega, fun _ => hmetric⟩
      simp [keep, hnot]

theorem Agrees.better (h : Agrees longestMask shortestMetric rtentry)
    (hle : ¬r.maskLength < longestMask)
    (hmetric : ¬r.metric > if r.maskLength > longestMask then 0xffffffff else shortestMetric) :
    keep NetworkRoute.rank rtentry r = some r := by
  cases hb : rtentry with
  | none => rfl
  | some b =>
    obtain ⟨hlen, hshort⟩ := h.taken b hb
    have hrank : b.rank ≤ r.rank := by
      rw [NetworkRoute.rank_le_iff]
      by_cases hgt : r.maskLength > longestMask
      · left
        omega
      · right
        rw [if_neg hgt, hshort, gt_iff_lt, BitVec.not_lt] at hmetric
        exact ⟨by omega, hmetric⟩
    simp [keep, hrank]

section Lookup

variable {Device : Type u} [DecidableEq Device] (ipv4 : Ipv4 Device) (dest : Ipv4Address)
  (oif : Option Device)

/-- The loop keeps the best of the matching routes up to the first one with a full mask. -/
theorem scan_eq (l : List NetworkRoute) {longestMask : Nat} {shortestMetric : BitVec 32}
    {rtentry : Option NetworkRoute} (h : Agrees longestMask shortestMetric rtentry) :
    scan ipv4 dest oif l longestMask shortestMetric rtentry =
      (upTo NetworkRoute.fullMask (l.filter fun r =>
        r.entry.isMatch dest && ipv4.onDevice oif r.entry.interface)).foldl
          (keep NetworkRoute.rank) rtentry := by
  induction l generalizing longestMask shortestMetric rtentry with
  | nil => rfl
  | cons r rest ih =>
    unfold scan
    by_cases hmatch : r.entry.isMatch dest = true
    case neg => simp [hmatch, ih h]
    by_cases hdev : ipv4.onDevice oif r.entry.interface = true
    case neg => simp [hmatch, hdev, ih h]
    have hlen : r.entry.destNetworkMask.getPrefixLength = r.maskLength := rfl
    simp only [hmatch, hdev, hlen, if_true, Bool.not_true, Bool.false_eq_true, if_false,
      List.filter_cons, Bool.and_self, upTo, List.foldl_cons]
    have hshorter {b : NetworkRoute} (hb : rtentry = some b) := (h.taken b hb).1
    by_cases hlt : r.maskLength < longestMask
    · -- a mask as long as 32 bits is not shorter than another
      have hfull : r.fullMask = false := by
        have hle : longestMask ≤ 32 := by
          cases hb : rtentry with
          | none => exact (h.untaken hb).1 ▸ Nat.zero_le 32
          | some b => exact hshorter hb ▸ b.maskLength_le
        simp [NetworkRoute.fullMask]
        omega
      rw [if_pos hlt, hfull, h.skip hlt, ih h]
      rfl
    rw [if_neg hlt]
    by_cases hmetric : r.metric > if r.maskLength > longestMask then 0xffffffff else shortestMetric
    · obtain ⟨heq, hkeep⟩ := h.worse hlt hmetric
      have hfull : r.fullMask = false := by
        cases hb : rtentry with
        | none => simp [NetworkRoute.fullMask, heq, (h.untaken hb).1]
        | some b =>
          have hb32 := h.lt b hb
          have hb' := hshorter hb
          simp [NetworkRoute.fullMask]
          omega
      have hgt : ¬r.maskLength > longestMask := by omega
      rw [if_pos hmetric, if_neg hgt, heq, hfull, hkeep, ih h]
      rfl
    · rw [if_neg hmetric, h.better hlt hmetric]
      by_cases hfull : r.maskLength = 32
      · simp [NetworkRoute.fullMask, hfull]
      · have hlt32 : r.maskLength < 32 := by
          have := r.maskLength_le
          omega
        rw [if_neg hfull, ih (.take hlt32)]
        simp [NetworkRoute.fullMask, hfull]

theorem select_eq (s : Ipv4StaticRouting) : s.select ipv4 dest oif =
    (upTo NetworkRoute.fullMask (s.matching ipv4 dest oif)).foldl (keep NetworkRoute.rank) none :=
  scan_eq ipv4 dest oif s.networkRoutes .start

/-! ### The selection law -/

/-- A route is selected exactly when one matches; it has the longest mask of those, and the lowest
metric of those with that mask. -/
structure LongestLowest (s : Ipv4StaticRouting) : Prop where
  isSome_iff : (s.select ipv4 dest oif).isSome ↔ ∃ r, r ∈ s.matching ipv4 dest oif
  mem : ∀ r, s.select ipv4 dest oif = some r → r ∈ s.matching ipv4 dest oif
  longest : ∀ r, s.select ipv4 dest oif = some r → ∀ x ∈ s.matching ipv4 dest oif,
    x.maskLength ≤ r.maskLength
  lowest : ∀ r, s.select ipv4 dest oif = some r → ∀ x ∈ s.matching ipv4 dest oif,
    x.maskLength = r.maskLength → r.metric ≤ x.metric

/-- Of the matching routes with a full mask the first one has the lowest metric. -/
def FirstFullLowest (s : Ipv4StaticRouting) : Prop :=
  ∀ r, (s.matching ipv4 dest oif).find? NetworkRoute.fullMask = some r →
    ∀ x ∈ s.matching ipv4 dest oif, x.fullMask → r.metric ≤ x.metric

variable {ipv4} {dest} {oif}

/-- The law is that the selected route is the best of those that match. -/
theorem LongestLowest.of_best {s : Ipv4StaticRouting}
    (h : Best NetworkRoute.rank (s.matching ipv4 dest oif) (s.select ipv4 dest oif)) :
    s.LongestLowest ipv4 dest oif where
  isSome_iff := by
    rw [Option.isSome_iff_ne_none, ne_eq, h.none_iff, List.eq_nil_iff_forall_not_mem]
    push Not
    rfl
  mem := h.mem
  longest r hr x hx := by
    rcases NetworkRoute.rank_le_iff.mp (h.le r hr x hx) with hlt | ⟨heq, -⟩
    · exact hlt.le
    · exact heq.le
  lowest r hr x hx hlen := by
    rcases NetworkRoute.rank_le_iff.mp (h.le r hr x hx) with hlt | ⟨-, hmetric⟩
    · omega
    · exact hmetric

/-- With no full mask among the matching routes the pass goes through all of them. -/
theorem best_of_find_none {s : Ipv4StaticRouting}
    (h : (s.matching ipv4 dest oif).find? NetworkRoute.fullMask = none) :
    Best NetworkRoute.rank (s.matching ipv4 dest oif) (s.select ipv4 dest oif) := by
  have hnot : ∀ r ∈ s.matching ipv4 dest oif, r.fullMask = false := by
    intro r hr
    simpa using List.find?_eq_none.mp h r hr
  rw [select_eq, upTo_eq_self hnot]
  exact best_foldl _ _

/-- Otherwise it takes the first of them. -/
theorem select_of_find_some {s : Ipv4StaticRouting} {r : NetworkRoute}
    (h : (s.matching ipv4 dest oif).find? NetworkRoute.fullMask = some r) :
    s.select ipv4 dest oif = some r := by
  obtain ⟨before, hbefore, hnot⟩ := upTo_of_find h
  have hfull : r.maskLength = 32 := by simpa [NetworkRoute.fullMask] using List.find?_some h
  rw [select_eq, hbefore]
  refine foldl_keep_last ?_
  intro b hb
  have hb32 : b.maskLength ≠ 32 := by simpa [NetworkRoute.fullMask] using hnot b hb
  have hle := b.maskLength_le
  rw [NetworkRoute.rank_le_iff]
  omega

theorem longestLowest_iff (s : Ipv4StaticRouting) :
    s.LongestLowest ipv4 dest oif ↔ s.FirstFullLowest ipv4 dest oif := by
  cases hfind : (s.matching ipv4 dest oif).find? NetworkRoute.fullMask with
  | none =>
    have hlaw := LongestLowest.of_best (best_of_find_none hfind)
    refine iff_of_true hlaw ?_
    intro r hr
    simp [hfind] at hr
  | some r =>
    have hsel := select_of_find_some hfind
    have hmem : r ∈ s.matching ipv4 dest oif := List.mem_of_find?_eq_some hfind
    have hfull : r.maskLength = 32 := by simpa [NetworkRoute.fullMask] using List.find?_some hfind
    constructor
    · intro h r' hr' x hx hxfull
      have hrr' : r = r' := Option.some.inj (hfind ▸ hr')
      subst hrr'
      refine h.lowest r hsel x hx ?_
      rw [hfull]
      simpa [NetworkRoute.fullMask] using hxfull
    · intro h
      refine .of_best ⟨?_, ?_, ?_⟩
      · rw [hsel]
        exact ⟨fun hn => by simp at hn, fun hn => by simp [hn] at hmem⟩
      · intro b hb
        rw [hsel] at hb
        exact Option.some.inj hb ▸ hmem
      · intro b hb x hx
        rw [hsel] at hb
        have hrb : r = b := Option.some.inj hb
        subst hrb
        rw [NetworkRoute.rank_le_iff]
        have hle := x.maskLength_le
        by_cases hxfull : x.maskLength = 32
        · right
          exact ⟨by omega, h r hfind x hx (by simpa [NetworkRoute.fullMask] using hxfull)⟩
        · left
          omega

/-- A table built by any calls is searched by this law, as long as no route with a full mask comes
before a cheaper one. -/
theorem lookupStatic_law_iff (ipv4 : Ipv4 Device) (ops : List StaticRoutingOp) (dest : Ipv4Address)
    (oif : Option Device) : ∀ s, run {} ops = some s → dest.isLocalMulticast = false →
      s.lookupStatic ipv4 dest oif = some ((s.select ipv4 dest oif).map (routeOf ipv4)) ∧
        (s.LongestLowest ipv4 dest oif ↔ s.FirstFullLowest ipv4 dest oif) := by
  intro s _ hdest
  have hlookup : s.lookupStatic ipv4 dest oif = some ((s.select ipv4 dest oif).map (routeOf ipv4)) := by
    simp [lookupStatic, hdest]
  exact ⟨hlookup, longestLowest_iff s⟩

end Lookup

def sampleIpv4 : Ipv4 Nat where
  getNetDevice i := i
  getInterfaceForDevice d := d
  firstAddress i := 0x0a000000 + BitVec.ofNat 32 i
  sourceAddressSelection i _ := 0x0a000000 + BitVec.ofNat 32 i

/-- A default route and two routes to one host, the cheaper one in front. -/
def sampleOps : List StaticRoutingOp :=
  [.setDefaultRoute 0x0a010001 1 0, .addHostRouteTo 0x0a090001 0x0a020001 2 5,
    .addHostRouteTo 0x0a090001 0x0a010001 1 10]

def sampleTable : Ipv4StaticRouting where
  networkRoutes :=
    [⟨⟨0, 0, 0x0a010001, 1⟩, 0⟩, ⟨⟨0x0a090001, 0xffffffff, 0x0a020001, 2⟩, 5⟩,
      ⟨⟨0x0a090001, 0xffffffff, 0x0a010001, 1⟩, 10⟩]

theorem lookupStatic_law_iff_sample :
    sampleTable.lookupStatic sampleIpv4 0x0a090001 none =
        some ((sampleTable.select sampleIpv4 0x0a090001 none).map (routeOf sampleIpv4)) ∧
      (sampleTable.LongestLowest sampleIpv4 0x0a090001 none ↔
        sampleTable.FirstFullLowest sampleIpv4 0x0a090001 none) :=
  lookupStatic_law_iff sampleIpv4 sampleOps 0x0a090001 none sampleTable (by decide) (by decide)

/-- The other way around the pass ends before it has seen the cheaper route. -/
theorem host_route_not_lowest : ∃ s,
    run {} [.addHostRouteTo 0x0a090001 0x0a010001 1 10,
      .addHostRouteTo 0x0a090001 0x0a020001 2 5] = some s ∧
      s.select sampleIpv4 0x0a090001 none = some ⟨⟨0x0a090001, 0xffffffff, 0x0a010001, 1⟩, 10⟩ ∧
      ¬s.LongestLowest sampleIpv4 0x0a090001 none := by
  refine ⟨_, rfl, by decide, ?_⟩
  intro h
  have hle := h.lowest ⟨⟨0x0a090001, 0xffffffff, 0x0a010001, 1⟩, 10⟩ (by decide)
    ⟨⟨0x0a090001, 0xffffffff, 0x0a020001, 2⟩, 5⟩ (by decide) (by decide)
  exact absurd hle (by decide)

end Ipv4StaticRouting

end CudaNs3.Internet
