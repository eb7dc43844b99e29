import CudaNs3.Internet.Ipv4Routes

/-!
# Global routing

The three lists of `Ipv4GlobalRouting` and their lookup: all matching host routes, without one
all matching network routes, and without one the first matching external route. One route of
these is returned, the first or one at random. An index counts the three lists one after the
other.
-/

namespace CudaNs3.Internet

set_option autoImplicit false

universe u v

structure Ipv4GlobalRouting where
  hostRoutes : List Ipv4RoutingTableEntry := []
  networkRoutes : List Ipv4RoutingTableEntry := []
  asExternalRoutes : List Ipv4RoutingTableEntry := []
  randomEcmpRouting : Bool := false
deriving DecidableEq

inductive GlobalRoutingOp where
  | addHostRouteTo (dest nextHop : Ipv4Address) (interface : Nat)
  | addHostRouteOn (dest : Ipv4Address) (interface : Nat)
  | addNetworkRouteTo (network : Ipv4Address) (networkMask : Ipv4Mask) (nextHop : Ipv4Address)
      (interface : Nat)
  | addNetworkRouteOn (network : Ipv4Address) (networkMask : Ipv4Mask) (interface : Nat)
  | addASExternalRouteTo (network : Ipv4Address) (networkMask : Ipv4Mask) (nextHop : Ipv4Address)
      (interface : Nat)
  | removeRoute (index : BitVec 32)

/-! ### Loops that count up to an index -/

section Index

variable {α : Type v}

/-- The element at which the counter is the index. -/
def findAt (index : BitVec 32) : BitVec 32 → List α → Option α
  | _, [] => none
  | tmp, a :: l => if tmp = index then some a else findAt index (tmp + 1) l

/-- The list without that element. -/
def eraseAt (index : BitVec 32) : BitVec 32 → List α → Option (List α)
  | _, [] => none
  | tmp, a :: l => if tmp = index then some l else (eraseAt index (tmp + 1) l).map (a :: ·)

/-- A counter below the index does not wrap at its next step. -/
theorem toNat_succ_of_ne {index tmp : BitVec 32} (h : tmp.toNat ≤ index.toNat) (hne : tmp ≠ index) :
    (tmp + 1).toNat = tmp.toNat + 1 ∧ tmp.toNat < index.toNat := by
  have hlt : tmp.toNat < index.toNat := by
    refine Nat.lt_of_le_of_ne h ?_
    intro heq
    exact hne (BitVec.eq_of_toNat_eq heq)
  have hindex := index.isLt
  refine ⟨?_, hlt⟩
  rw [BitVec.toNat_add]
  exact Nat.mod_eq_of_lt (by have : (1 : BitVec 32).toNat = 1 := rfl; omega)

theorem findAt_from (index : BitVec 32) (l : List α) {tmp : BitVec 32}
    (h : tmp.toNat ≤ index.toNat) : findAt index tmp l = l[index.toNat - tmp.toNat]? := by
  induction l generalizing tmp with
  | nil => simp [findAt]
  | cons a l ih =>
    unfold findAt
    by_cases heq : tmp = index
    · simp [heq]
    · obtain ⟨hsucc, hlt⟩ := toNat_succ_of_ne h heq
      rw [if_neg heq, ih (by omega), hsucc]
      have hpos : index.toNat - tmp.toNat = (index.toNat - (tmp.toNat + 1)) + 1 := by omega
      rw [hpos, List.getElem?_cons_succ]

theorem findAt_zero (index : BitVec 32) (l : List α) : findAt index 0 l = l[index.toNat]? :=
  findAt_from index l (Nat.zero_le _)

theorem eraseAt_from (index : BitVec 32) (l : List α) {tmp : BitVec 32}
    (h : tmp.toNat ≤ index.toNat) : eraseAt index tmp l =
      if index.toNat - tmp.toNat < l.length then some (l.eraseIdx (index.toNat - tmp.toNat))
      else none := by
  induction l generalizing tmp with
  | nil => simp [eraseAt]
  | cons a l ih =>
    unfold eraseAt
    by_cases heq : tmp = index
    · simp [heq]
    · obtain ⟨hsucc, hlt⟩ := toNat_succ_of_ne h heq
      rw [if_neg heq, ih (by omega), hsucc]
      have hpos : index.toNat - tmp.toNat = (index.toNat - (tmp.toNat + 1)) + 1 := by omega
      rw [hpos, List.eraseIdx_cons_succ, List.length_cons]
      by_cases hin : index.toNat - (tmp.toNat + 1) < l.length
      · rw [if_pos hin, if_pos (by omega)]
        rfl
      · rw [if_neg hin, if_neg (by omega)]
        rfl

theorem eraseAt_zero (index : BitVec 32) (l : List α) : eraseAt index 0 l =
    if index.toNat < l.length then some (l.eraseIdx index.toNat) else none :=
  eraseAt_from index l (Nat.zero_le _)

/-- What is left of an index after a list that it goes beyond. -/
theorem toNat_sub_length {index : BitVec 32} {l : List α} (h : l.length ≤ index.toNat) :
    (index - BitVec.ofNat 32 l.length).toNat = index.toNat - l.length := by
  have hindex := index.isLt
  have hl : (BitVec.ofNat 32 l.length).toNat = l.length :=
    (BitVec.toNat_ofNat l.length 32).trans (Nat.mod_eq_of_lt (by omega))
  rw [BitVec.toNat_sub_of_le (by rw [BitVec.le_def, hl]; exact h), hl]

end Index

namespace Ipv4GlobalRouting

/-! ### The table -/

def addHostRoute (s : Ipv4GlobalRouting) (route : Ipv4RoutingTableEntry) : Ipv4GlobalRouting :=
  { s with hostRoutes := s.hostRoutes ++ [route] }

def addNetworkRoute (s : Ipv4GlobalRouting) (route : Ipv4RoutingTableEntry) : Ipv4GlobalRouting :=
  { s with networkRoutes := s.networkRoutes ++ [route] }

def addASExternalRoute (s : Ipv4GlobalRouting) (route : Ipv4RoutingTableEntry) :
    Ipv4GlobalRouting :=
  { s with asExternalRoutes := s.asExternalRoutes ++ [route] }

def getNRoutes (s : Ipv4GlobalRouting) : BitVec 32 :=
  0 + BitVec.ofNat 32 s.hostRoutes.length + BitVec.ofNat 32 s.networkRoutes.length +
    BitVec.ofNat 32 s.asExternalRoutes.length

/-- `none` is the assertion at the end. -/
def getRoute (s : Ipv4GlobalRouting) (index : BitVec 32) : Option Ipv4RoutingTableEntry :=
  if index.toNat < s.hostRoutes.length then findAt index 0 s.hostRoutes
  else
    let index := index - BitVec.ofNat 32 s.hostRoutes.length
    if index.toNat < s.networkRoutes.length then findAt index 0 s.networkRoutes
    else
      let index := index - BitVec.ofNat 32 s.networkRoutes.length
      findAt index 0 s.asExternalRoutes

/-- Here the second loop is entered with any index. -/
def removeRoute (s : Ipv4GlobalRouting) (index : BitVec 32) : Option Ipv4GlobalRouting :=
  if index.toNat < s.hostRoutes.length then
    (eraseAt index 0 s.hostRoutes).map fun l => { s with hostRoutes := l }
  else
    let index := index - BitVec.ofNat 32 s.hostRoutes.length
    match eraseAt index 0 s.networkRoutes with
    | some l => some { s with networkRoutes := l }
    | none =>
      let index := index - BitVec.ofNat 32 s.networkRoutes.length
      (eraseAt index 0 s.asExternalRoutes).map fun l => { s with asExternalRoutes := l }

def perform (s : Ipv4GlobalRouting) : GlobalRoutingOp → Option Ipv4GlobalRouting
  | .addHostRouteTo dest nextHop interface =>
    some (s.addHostRoute (.createHostRouteTo dest nextHop interface))
  | .addHostRouteOn dest interface => some (s.addHostRoute (.createHostRouteOn dest interface))
  | .addNetworkRouteTo network networkMask nextHop interface =>
    some (s.addNetworkRoute (.createNetworkRouteTo network networkMask nextHop interface))
  | .addNetworkRouteOn network networkMask interface =>
    some (s.addNetworkRoute (.createNetworkRouteOn network networkMask interface))
  | .addASExternalRouteTo network networkMask nextHop interface =>
    some (s.addASExternalRoute (.createNetworkRouteTo network networkMask nextHop interface))
  | .removeRoute index => s.removeRoute index

def run (s : Ipv4GlobalRouting) : List GlobalRoutingOp → Option Ipv4GlobalRouting
  | [] => some s
  | op :: ops => (s.perform op).bind fun s => s.run ops

/-! ### The lookup -/

section Lookup

variable {Device : Type u} [DecidableEq Device]

/-- The host routes to the destination, on the device if there is one. -/
def hostMatches (s : Ipv4GlobalRouting) (ipv4 : Ipv4 Device) (dest : Ipv4Address)
    (oif : Option Device) : List Ipv4RoutingTableEntry :=
  s.hostRoutes.filter fun i => i.dest = dest && ipv4.onDevice oif i.interface

def networkMatches (s : Ipv4GlobalRouting) (ipv4 : Ipv4 Device) (dest : Ipv4Address)
    (oif : Option Device) : List Ipv4RoutingTableEntry :=
  s.networkRoutes.filter fun j => j.isMatch dest && ipv4.onDevice oif j.interface

def externalMatches (s : Ipv4GlobalRouting) (ipv4 : Ipv4 Device) (dest : Ipv4Address)
    (oif : Option Device) : List Ipv4RoutingTableEntry :=
  s.asExternalRoutes.filter fun k => k.isMatch dest && ipv4.onDevice oif k.interface

/-- The vector that the loops of `LookupGlobal` fill; the third loop ends at its first match. -/
def allRoutes (s : Ipv4GlobalRouting) (ipv4 : Ipv4 Device) (dest : Ipv4Address)
    (oif : Option Device) : List Ipv4RoutingTableEntry :=
  let allRoutes := s.hostMatches ipv4 dest oif
  let allRoutes := if allRoutes.length = 0 then s.networkMatches ipv4 dest oif else allRoutes
  if allRoutes.length = 0 then
    (s.asExternalRoutes.find? fun k => k.isMatch dest && ipv4.onDevice oif k.interface).toList
  else allRoutes

/-- The entry that is picked; `draw max` is what the random variable gives from zero to `max`. -/
def pick (s : Ipv4GlobalRouting) (ipv4 : Ipv4 Device) (draw : (max : Nat) → Fin (max + 1))
    (dest : Ipv4Address) (oif : Option Device) : Option Ipv4RoutingTableEntry :=
  let allRoutes := s.allRoutes ipv4 dest oif
  if allRoutes.length > 0 then
    let selectIndex := if s.randomEcmpRouting then (draw (allRoutes.length - 1)).val else 0
    allRoutes[selectIndex]?
  else none

def routeOf (ipv4 : Ipv4 Device) (route : Ipv4RoutingTableEntry) : Ipv4Route Device where
  destination := route.dest
  source := ipv4.firstAddress route.interface
  gateway := route.gateway
  outputDevice := ipv4.getNetDevice route.interface

/-- The outer `none` is the assertion that a host route is one. -/
def lookupGlobal (s : Ipv4GlobalRouting) (ipv4 : Ipv4 Device) (draw : (max : Nat) → Fin (max + 1))
    (dest : Ipv4Address) (oif : Option Device) : Option (Option (Ipv4Route Device)) :=
  if s.hostRoutes.all (·.isHost) then some ((s.pick ipv4 draw dest oif).map (routeOf ipv4))
  else none

end Lookup

/-! ### The table as one list -/

/-- The table as it appears from outside, the three lists one after the other. -/
def routes (s : Ipv4GlobalRouting) : List Ipv4RoutingTableEntry :=
  s.hostRoutes ++ s.networkRoutes ++ s.asExternalRoutes

theorem getNRoutes_eq (s : Ipv4GlobalRouting) :
    s.getNRoutes = BitVec.ofNat 32 s.routes.length := by
  rw [routes, List.length_append, List.length_append, BitVec.ofNat_add, BitVec.ofNat_add, getNRoutes]
  exact congrArg (· + _ + _) (BitVec.zero_add _)

theorem getRoute_eq (s : Ipv4GlobalRouting) (index : BitVec 32) :
    s.getRoute index = s.routes[index.toNat]? := by
  unfold getRoute routes
  by_cases hhost : index.toNat < s.hostRoutes.length
  · rw [if_pos hhost, findAt_zero, List.append_assoc, List.getElem?_append_left hhost]
  · have hle : s.hostRoutes.length ≤ index.toNat := Nat.le_of_not_lt hhost
    have hsub := toNat_sub_length hle
    rw [if_neg hhost, List.append_assoc, List.getElem?_append_right (by omega)]
    dsimp only
    by_cases hnet : (index - BitVec.ofNat 32 s.hostRoutes.length).toNat < s.networkRoutes.length
    · rw [if_pos hnet, findAt_zero, hsub, List.getElem?_append_left (by omega)]
    · rw [if_neg hnet, findAt_zero, toNat_sub_length (by omega), hsub,
        List.getElem?_append_right (by omega)]

/-- All three loops go by the one index, also where the second is entered beyond its list. -/
theorem removeRoute_eq (s : Ipv4GlobalRouting) {index : BitVec 32}
    (h : index.toNat < s.routes.length) :
    ∃ s', s.removeRoute index = some s' ∧ s'.routes = s.routes.eraseIdx index.toNat := by
  unfold removeRoute
  by_cases hhost : index.toNat < s.hostRoutes.length
  · rw [if_pos hhost, eraseAt_zero, if_pos hhost]
    refine ⟨_, rfl, ?_⟩
    simp only [routes, List.append_assoc]
    rw [List.eraseIdx_append_of_lt_length hhost]
  · have hle : s.hostRoutes.length ≤ index.toNat := Nat.le_of_not_lt hhost
    have hsub := toNat_sub_length hle
    rw [if_neg hhost]
    dsimp only
    rw [eraseAt_zero, hsub]
    have hlen : s.routes.length =
        s.hostRoutes.length + s.networkRoutes.length + s.asExternalRoutes.length := by
      rw [routes, List.length_append, List.length_append]
    by_cases hnet : index.toNat - s.hostRoutes.length < s.networkRoutes.length
    · rw [if_pos hnet]
      refine ⟨_, rfl, ?_⟩
      simp only [routes, List.append_assoc]
      rw [List.eraseIdx_append_of_length_le (by omega), List.eraseIdx_append_of_lt_length hnet]
    · rw [if_neg hnet]
      dsimp only
      rw [eraseAt_zero, toNat_sub_length (by omega), hsub, if_pos (by omega)]
      refine ⟨_, rfl, ?_⟩
      simp only [routes, List.append_assoc]
      rw [List.eraseIdx_append_of_length_le (by omega),
        List.eraseIdx_append_of_length_le (by omega)]

/-- An index of the table names a route; its removal takes that route and moves the later ones
down by one. -/
def IndexLaw (s : Ipv4GlobalRouting) : Prop :=
  ∀ i, i < s.getNRoutes → ∃ e s', s.getRoute i = some e ∧ s.removeRoute i = some s' ∧
    s'.routes = s.routes.eraseIdx i.toNat ∧ s'.getNRoutes = s.getNRoutes - 1 ∧
      ∀ j, j < s'.getNRoutes → s'.getRoute j = s.getRoute (if j < i then j else j + 1)

theorem indexLaw (s : Ipv4GlobalRouting) : s.IndexLaw := by
  intro i hi
  have hlen : i.toNat < s.routes.length := by
    rw [getNRoutes_eq, BitVec.lt_def, BitVec.toNat_ofNat] at hi
    exact hi.trans_le (Nat.mod_le _ _)
  obtain ⟨s', hs', hroutes⟩ := s.removeRoute_eq hlen
  have hcount : s'.getNRoutes = s.getNRoutes - 1 := by
    rw [getNRoutes_eq, getNRoutes_eq, hroutes, List.length_eraseIdx_of_lt hlen]
    have hpos : s.routes.length = s.routes.length - 1 + 1 := by omega
    conv_rhs => rw [hpos, BitVec.ofNat_add]
    exact (BitVec.add_sub_cancel _ _).symm
  refine ⟨s.routes.get ⟨i.toNat, hlen⟩, s', ?_, hs', hroutes, hcount, ?_⟩
  · rw [getRoute_eq, List.getElem?_eq_getElem hlen]
    rfl
  · intro j hj
    rw [getRoute_eq, getRoute_eq, hroutes, List.getElem?_eraseIdx]
    by_cases hji : j < i
    · rw [if_pos hji, if_pos (BitVec.lt_def.mp hji)]
    · have hsucc : (j + 1).toNat = j.toNat + 1 := by
        have hj' := BitVec.lt_def.mp hj
        have hlt := s'.getNRoutes.isLt
        rw [BitVec.toNat_add]
        exact Nat.mod_eq_of_lt (by have : (1 : BitVec 32).toNat = 1 := rfl; omega)
      rw [if_neg hji, if_neg (fun h => hji (BitVec.lt_def.mpr h)), hsucc]

/-! ### Runs -/

/-- What is kept among the host routes is a host route. -/
def HostsOnly (s : Ipv4GlobalRouting) : Prop := ∀ e ∈ s.hostRoutes, e.isHost

theorem HostsOnly.perform {s s' : Ipv4GlobalRouting} (h : s.HostsOnly) {op : GlobalRoutingOp}
    (hop : s.perform op = some s') :
    s'.HostsOnly ∧ s'.randomEcmpRouting = s.randomEcmpRouting := by
  have hadd {e : Ipv4RoutingTableEntry} (he : e.isHost) : (s.addHostRoute e).HostsOnly := by
    intro x hx
    rcases List.mem_append.mp hx with hx | hx
    · exact h x hx
    · rw [List.mem_singleton.mp hx]
      exact he
  cases op with
  | addHostRouteTo dest nextHop interface =>
    cases hop
    exact ⟨hadd rfl, rfl⟩
  | addHostRouteOn dest interface =>
    cases hop
    exact ⟨hadd rfl, rfl⟩
  | addNetworkRouteTo network networkMask nextHop interface =>
    cases hop
    exact ⟨h, rfl⟩
  | addNetworkRouteOn network networkMask interface =>
    cases hop
    exact ⟨h, rfl⟩
  | addASExternalRouteTo network networkMask nextHop interface =>
    cases hop
    exact ⟨h, rfl⟩
  | removeRoute index =>
    simp only [Ipv4GlobalRouting.perform, Ipv4GlobalRouting.removeRoute] at hop
    split at hop
    · rename_i hhost
      rw [eraseAt_zero, if_pos hhost] at hop
      cases hop
      refine ⟨?_, rfl⟩
      intro e he
      exact h e (List.mem_of_mem_eraseIdx he)
    · split at hop
      · cases hop
        exact ⟨h, rfl⟩
      · obtain ⟨l, -, rfl⟩ := Option.map_eq_some_iff.mp hop
        exact ⟨h, rfl⟩

theorem HostsOnly.run {s s' : Ipv4GlobalRouting} (h : s.HostsOnly) {ops : List GlobalRoutingOp}
    (hrun : s.run ops = some s') :
    s'.HostsOnly ∧ s'.randomEcmpRouting = s.randomEcmpRouting := by
  induction ops generalizing s with
  | nil =>
    cases hrun
    exact ⟨h, rfl⟩
  | cons op ops ih =>
    obtain ⟨t, ht, hrest⟩ := Option.bind_eq_some_iff.mp hrun
    obtain ⟨hhosts, hecmp⟩ := h.perform ht
    obtain ⟨hhosts', hecmp'⟩ := ih hhosts hrest
    exact ⟨hhosts', hecmp'.trans hecmp⟩

/-! ### What the lookup returns -/

section Lookup

variable {Device : Type u} [DecidableEq Device] (s : Ipv4GlobalRouting) (ipv4 : Ipv4 Device)
  (dest : Ipv4Address) (oif : Option Device)

/-- An entry of maximal prefix length from the first class that has a match. -/
structure LongestInClass (picked : Option Ipv4RoutingTableEntry) : Prop where
  host : s.hostMatches ipv4 dest oif ≠ [] → ∃ e ∈ s.hostMatches ipv4 dest oif, picked = some e
  network : s.hostMatches ipv4 dest oif = [] → s.networkMatches ipv4 dest oif ≠ [] →
    ∃ e ∈ s.networkMatches ipv4 dest oif, picked = some e ∧
      ∀ x ∈ s.networkMatches ipv4 dest oif,
        x.destNetworkMask.getPrefixLength ≤ e.destNetworkMask.getPrefixLength
  external : s.hostMatches ipv4 dest oif = [] → s.networkMatches ipv4 dest oif = [] →
    s.externalMatches ipv4 dest oif ≠ [] → ∃ e ∈ s.externalMatches ipv4 dest oif,
      picked = some e ∧ ∀ x ∈ s.externalMatches ipv4 dest oif,
        x.destNetworkMask.getPrefixLength ≤ e.destNetworkMask.getPrefixLength
  none : s.hostMatches ipv4 dest oif = [] → s.networkMatches ipv4 dest oif = [] →
    s.externalMatches ipv4 dest oif = [] → picked = none

/-- An entry from the first class that has a match, whatever its prefix length: the first match
there, or with random ECMP routing any host or network match. -/
structure PickedInClass (picked : Option Ipv4RoutingTableEntry) : Prop where
  host : s.hostMatches ipv4 dest oif ≠ [] → ∃ e ∈ s.hostMatches ipv4 dest oif, picked = some e
  network : s.hostMatches ipv4 dest oif = [] → s.networkMatches ipv4 dest oif ≠ [] →
    ∃ e ∈ s.networkMatches ipv4 dest oif, picked = some e
  external : s.hostMatches ipv4 dest oif = [] → s.networkMatches ipv4 dest oif = [] →
    picked = (s.externalMatches ipv4 dest oif).head?
  first : s.randomEcmpRouting = false →
    picked = (s.hostMatches ipv4 dest oif ++ s.networkMatches ipv4 dest oif ++
      s.externalMatches ipv4 dest oif).head?

variable {s} {ipv4} {dest} {oif}

/-- One of the routes found is picked. -/
theorem pick_mem (draw : (max : Nat) → Fin (max + 1)) (h : s.allRoutes ipv4 dest oif ≠ []) :
    ∃ e ∈ s.allRoutes ipv4 dest oif, s.pick ipv4 draw dest oif = some e := by
  have hlen : 0 < (s.allRoutes ipv4 dest oif).length := List.length_pos_iff.mpr h
  have hpick {k : Nat} (hk : k < (s.allRoutes ipv4 dest oif).length) :
      ∃ e ∈ s.allRoutes ipv4 dest oif, (s.allRoutes ipv4 dest oif)[k]? = some e :=
    ⟨_, List.getElem_mem hk, List.getElem?_eq_getElem hk⟩
  unfold pick
  rw [if_pos hlen]
  by_cases hecmp : s.randomEcmpRouting = true
  · rw [if_pos hecmp]
    have hdraw := (draw ((s.allRoutes ipv4 dest oif).length - 1)).isLt
    exact hpick (by omega)
  · rw [if_neg hecmp]
    exact hpick hlen

theorem pick_first (draw : (max : Nat) → Fin (max + 1)) (h : s.randomEcmpRouting = false) :
    s.pick ipv4 draw dest oif = (s.allRoutes ipv4 dest oif).head? := by
  unfold pick
  rw [h, List.head?_eq_getElem?]
  cases s.allRoutes ipv4 dest oif with
  | nil => rfl
  | cons e l => rfl

theorem pickedInClass (draw : (max : Nat) → Fin (max + 1)) :
    s.PickedInClass ipv4 dest oif (s.pick ipv4 draw dest oif) := by
  have hexternal : (s.asExternalRoutes.find? fun k =>
      k.isMatch dest && ipv4.onDevice oif k.interface) =
        (s.externalMatches ipv4 dest oif).head? := by
    rw [externalMatches, List.head?_filter]
  have hall : s.allRoutes ipv4 dest oif =
      if s.hostMatches ipv4 dest oif = [] then
        if s.networkMatches ipv4 dest oif = [] then
          (s.externalMatches ipv4 dest oif).head?.toList
        else s.networkMatches ipv4 dest oif
      else s.hostMatches ipv4 dest oif := by
    unfold allRoutes
    rw [hexternal]
    by_cases hhost : s.hostMatches ipv4 dest oif = []
    · simp [hhost]
    · simp [hhost]
  refine ⟨?_, ?_, ?_, ?_⟩
  · intro hhost
    rw [if_neg hhost] at hall
    obtain ⟨e, he, hpick⟩ := pick_mem draw (hall ▸ hhost)
    exact ⟨e, hall ▸ he, hpick⟩
  · intro hhost hnet
    rw [if_pos hhost, if_neg hnet] at hall
    obtain ⟨e, he, hpick⟩ := pick_mem draw (hall ▸ hnet)
    exact ⟨e, hall ▸ he, hpick⟩
  · intro hhost hnet
    rw [if_pos hhost, if_pos hnet] at hall
    cases hext : s.externalMatches ipv4 dest oif with
    | nil =>
      have hnil : s.allRoutes ipv4 dest oif = [] := by simp [hall, hext]
      simp [pick, hnil]
    | cons x l =>
      have hone : s.allRoutes ipv4 dest oif = [x] := by simp [hall, hext]
      have hne : s.allRoutes ipv4 dest oif ≠ [] := by simp [hone]
      obtain ⟨e, he, hpick⟩ := pick_mem draw hne
      rw [hone, List.mem_singleton] at he
      rw [hpick, he]
      rfl
  · intro hecmp
    rw [pick_first draw hecmp, hall]
    by_cases hhost : s.hostMatches ipv4 dest oif = []
    · by_cases hnet : s.networkMatches ipv4 dest oif = []
      · cases hext : s.externalMatches ipv4 dest oif with
        | nil => simp [hhost, hnet]
        | cons x l => simp [hhost, hnet]
      · rw [if_pos hhost, if_neg hnet, hhost, List.nil_append,
          List.head?_append_of_ne_nil _ hnet]
    · rw [if_neg hhost, List.append_assoc, List.head?_append_of_ne_nil _ hhost]

/-- In every table that calls build, the lookup meets no wrong host route and goes by the classes,
and the indices go by the law. -/
theorem lookupGlobal_law (ipv4 : Ipv4 Device) (draw : (max : Nat) → Fin (max + 1))
    (randomEcmpRouting : Bool) (ops : List GlobalRoutingOp) (dest : Ipv4Address)
    (oif : Option Device) : ∀ s, run { randomEcmpRouting := randomEcmpRouting } ops = some s →
      s.randomEcmpRouting = randomEcmpRouting ∧
      (∃ picked, s.lookupGlobal ipv4 draw dest oif = some (picked.map (routeOf ipv4)) ∧
        s.PickedInClass ipv4 dest oif picked) ∧
      s.IndexLaw := by
  intro s hrun
  have hstart : HostsOnly { randomEcmpRouting := randomEcmpRouting } := by
    intro e he
    exact absurd he List.not_mem_nil
  obtain ⟨hhosts, hecmp⟩ := hstart.run hrun
  refine ⟨hecmp, ⟨s.pick ipv4 draw dest oif, ?_, pickedInClass draw⟩, s.indexLaw⟩
  unfold lookupGlobal
  rw [if_pos (List.all_eq_true.mpr hhosts)]

end Lookup

def sampleNode : Ipv4 Nat where
  getNetDevice i := i
  getInterfaceForDevice d := d
  firstAddress i := 0x0a000000 + BitVec.ofNat 32 i
  sourceAddressSelection i _ := 0x0a000000 + BitVec.ofNat 32 i

/-- Two networks, the second within the first. -/
def sampleNetworks : List GlobalRoutingOp :=
  [.addNetworkRouteTo 0x0a000000 0xff000000 0x0a010001 1,
    .addNetworkRouteTo 0x0a090000 0xffff0000 0x0a020001 2]

def sampleTable : Ipv4GlobalRouting where
  networkRoutes := [⟨0x0a000000, 0xff000000, 0x0a010001, 1⟩, ⟨0x0a090000, 0xffff0000, 0x0a020001, 2⟩]

theorem lookupGlobal_law_sample :
    sampleTable.randomEcmpRouting = false ∧
    (∃ picked, sampleTable.lookupGlobal sampleNode Fin.last 0x0a090001 none =
        some (picked.map (routeOf sampleNode)) ∧
      sampleTable.PickedInClass sampleNode 0x0a090001 none picked) ∧
    sampleTable.IndexLaw :=
  lookupGlobal_law sampleNode Fin.last false sampleNetworks 0x0a090001 none sampleTable (by decide)

/-- The wider network is picked, for it was added first. -/
theorem wider_network_picked : ∃ s, run {} sampleNetworks = some s ∧
    s.pick sampleNode Fin.last 0x0a090001 none = some ⟨0x0a000000, 0xff000000, 0x0a010001, 1⟩ ∧
    ¬s.LongestInClass sampleNode 0x0a090001 none (s.pick sampleNode Fin.last 0x0a090001 none) := by
  refine ⟨sampleTable, by decide, by decide, ?_⟩
  intro h
  have hpick : sampleTable.pick sampleNode Fin.last 0x0a090001 none =
      some ⟨0x0a000000, 0xff000000, 0x0a010001, 1⟩ := by decide +kernel
  obtain ⟨e, -, he, hlongest⟩ := h.network (by decide) (by decide)
  rw [hpick] at he
  have hlen := hlongest ⟨0x0a090000, 0xffff0000, 0x0a020001, 2⟩ (by decide)
  rw [← Option.some.inj he] at hlen
  exact absurd hlen (by decide)

end Ipv4GlobalRouting

end CudaNs3.Internet
