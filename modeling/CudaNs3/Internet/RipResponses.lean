import CudaNs3.Internet.RipTimers

/-!
# Responses to the RIP table

A response revises the routes it meets. Two kinds of RTEs do harm: one at infinity that meets a
route at infinity of its sender, or one whose timer has run down, since it starts the timer of a
valid route for it; and one below infinity that meets a second route to its network.
-/

namespace CudaNs3.Internet
namespace Rip

set_option autoImplicit false

variable {s t : Rip} {r x new : Route} {now : Nat}

section Responses
variable {rte : RipRte} {sender : Ipv4Address} {metric : Nat}

/-- The route leads to the network of an RTE. -/
def matchesRte (rte : RipRte) (e : RipRoutingTableEntry) : Bool :=
  e.leadsTo (rte.network.combineMask rte.subnetMask) rte.subnetMask

/-- What an RTE may find in the table: at infinity no invalid route of the sender, nor one with
less than half of the timeout left; below infinity no two routes to the network. -/
structure Meets (s : Rip) (now : Nat) (rte : RipRte) (metric : Nat) (sender : Ipv4Address)
    (ptrs : List Nat) : Prop where
  infinite : metric = s.linkDown → ∀ r ∈ s.routes, r.ptr ∈ ptrs → matchesRte rte r.entry = true →
    r.entry.metric = s.linkDown → sender ≠ r.entry.gateway ∧
      s.attributes.timeoutDelay / 2 ≤ s.getDelayLeft now r.event
  single : metric < s.linkDown → ∀ x ∈ s.routes, ∀ y ∈ s.routes,
    matchesRte rte x.entry = true → matchesRte rte y.entry = true → x.ptr = y.ptr

theorem updated_eq (e : RipRoutingTableEntry) (tag : BitVec 16) (hlt : metric < s.linkDown) :
    updated e metric tag =
      { e with metric := metric, status := .ripValid, tag := tag, changed := true } := by
  have hmod : metric % 256 = metric := Nat.mod_eq_of_lt (hlt.trans s.attributes.linkDown_lt)
  rw [updated, RipRoutingTableEntry.setRouteMetric_eq, RipRoutingTableEntry.setRouteStatus_eq,
    RipRoutingTableEntry.setRouteTag_eq, RipRoutingTableEntry.setRouteChanged, hmod]

theorem matchesRte_iff {e : RipRoutingTableEntry} : matchesRte rte e = true ↔
    e.destNetwork = rte.network.combineMask rte.subnetMask ∧ e.destNetworkMask = rte.subnetMask := by
  simp [matchesRte, RipRoutingTableEntry.leadsTo]

/-- A route is revised to one that leads to the same network and suits its new event. -/
theorem revise_cases (interface : Nat) (h : s.Inv) (hr : r ∈ s.routes)
    (hmatch : matchesRte rte r.entry = true) (hle : metric ≤ s.linkDown) {ptrs : List Nat}
    (hptr : r.ptr ∈ ptrs) (hmeets : s.Meets now rte metric sender ptrs) :
    let left := s.getDelayLeft now r.event
    revise s.attributes rte metric sender interface left r.entry = .keep ∨
      revise s.attributes rte metric sender interface left r.entry = .invalidate ∨
      metric < s.linkDown ∧ ∃ replace entry changed,
        revise s.attributes rte metric sender interface left r.entry =
          .renew replace entry changed ∧
        s.Suits entry .invalidateRoute ∧ matchesRte rte entry = true := by
  intro left
  have hrle : r.entry.metric ≤ s.linkDown := by
    have htimed := h.timed r hr
    unfold Timed at htimed
    split at htimed
    · exact htimed.1.le
    · exact htimed.1.le
  have hnewMatch : matchesRte rte (newRoute rte sender interface) = true :=
    matchesRte_iff.mpr ⟨rfl, rfl⟩
  have hupdated (e : RipRoutingTableEntry) (he : matchesRte rte e = true)
      (hlt : metric < s.linkDown) : s.Suits (updated e metric rte.tag) .invalidateRoute ∧
        matchesRte rte (updated e metric rte.tag) = true := by
    rw [updated_eq e rte.tag hlt]
    exact ⟨⟨rfl, hlt⟩, he⟩
  unfold revise
  by_cases hless : metric < r.entry.metric
  · have hlt := lt_of_lt_of_le hless hrle
    rw [if_pos hless]
    refine Or.inr (Or.inr ⟨hlt, ?_⟩)
    split
    · exact ⟨_, _, _, rfl, hupdated _ hnewMatch hlt⟩
    · exact ⟨_, _, _, rfl, hupdated _ hmatch hlt⟩
  rw [if_neg hless]
  by_cases heq : metric = r.entry.metric
  · rw [if_pos heq]
    rcases hle.lt_or_eq with hlt | hdown
    · have hvalid : r.entry.status = .ripValid := by
        have htimed := h.timed r hr
        unfold Timed at htimed
        cases hs : r.entry.status with
        | ripValid => rfl
        | ripInvalid =>
          rw [hs] at htimed
          omega
      by_cases hsender : sender = r.entry.gateway
      · rw [if_pos hsender]
        exact Or.inr (Or.inr ⟨hlt, _, _, _, rfl, ⟨hvalid, heq ▸ hlt⟩, hmatch⟩)
      · rw [if_neg hsender]
        split
        · exact Or.inr (Or.inr ⟨hlt, _, _, _, rfl, hupdated _ hnewMatch hlt⟩)
        · exact Or.inl rfl
    · obtain ⟨hsender, hleft⟩ := hmeets.infinite hdown r hr hptr hmatch (heq.symm.trans hdown)
      rw [if_neg hsender, if_neg (Nat.not_lt.mpr hleft)]
      exact Or.inl rfl
  rw [if_neg heq]
  by_cases hsender : sender = r.entry.gateway
  · rw [if_pos hsender]
    split
    · rename_i hlt
      exact Or.inr (Or.inr ⟨hlt, _, _, _, rfl, hupdated _ hmatch hlt⟩)
    · exact Or.inr (Or.inl rfl)
  · rw [if_neg hsender]
    exact Or.inl rfl

theorem Revised.refl (h : s.Linked) (hr : r ∈ s.routes) : s.Revised r s r := by
  refine ⟨rfl, ?_, fun x _ _ => rfl, Or.inl rfl, le_refl _⟩
  intro x
  constructor
  · intro hx
    by_cases hptr : x.ptr = r.ptr
    · exact Or.inl (h.eq_of_ptr hx hr hptr)
    · exact Or.inr ⟨hx, hptr⟩
  · rintro (rfl | ⟨hx, -⟩)
    · exact hr
    · exact hx

theorem applyRevision_spec (interface : Nat) (h : s.Inv) (hr : r ∈ s.routes)
    (hmatch : matchesRte rte r.entry = true) (hle : metric ≤ s.linkDown) {ptrs : List Nat}
    (hptr : r.ptr ∈ ptrs) (hmeets : s.Meets now rte metric sender ptrs) :
    ∃ t changed new, s.applyRevision now r (revise s.attributes rte metric sender interface
        (s.getDelayLeft now r.event) r.entry) = some (t, changed) ∧
      t.Inv ∧ s.Revised r t new ∧ matchesRte rte new.entry = true := by
  rcases revise_cases interface h hr hmatch hle hptr hmeets with
    hkeep | hinv | ⟨hlt, replace, entry, changed, hrenew, hsuits, hentry⟩
  · rw [hkeep]
    exact ⟨s, false, r, rfl, h, Revised.refl h.linked hr, hmatch⟩
  · obtain ⟨t, new, ht, htinv, hrevised, -, -, hnet, hmask, -⟩ :=
      invalidateRoute_spec (h.linked.cancel r.event) hr now
        (fun x hx hne => (h.timed x hx).congr rfl (h.linked.pending_cancel hr hx hne)) h.apart
    refine ⟨t, true, new, ?_, htinv, ⟨hrevised.attributes, hrevised.mem, ?_, hrevised.ptr,
      hrevised.nextPtr⟩, ?_⟩
    · rw [hinv, applyRevision, ht, Option.map_some]
    · intro x hx hne
      rw [hrevised.pending x hx hne, h.linked.pending_cancel hr hx hne]
    · rw [matchesRte_iff] at hmatch ⊢
      rwa [hnet, hmask]
  · have hsingle : ∀ x ∈ s.routes, x.ptr ≠ r.ptr → x.entry.status = .ripValid →
        x.entry.leadsTo entry.destNetwork entry.destNetworkMask = false := by
      intro x hx hne _
      apply eq_false_of_ne_true
      intro hsame
      apply hne
      apply hmeets.single hlt x hx r hr _ hmatch
      obtain ⟨hnet, hmask⟩ := matchesRte_iff.mp hentry
      rwa [hnet, hmask] at hsame
    rw [hrenew]
    cases replace with
    | false =>
      obtain ⟨hlinked, hrevised, hnew⟩ := h.linked.revised_reissue hr (le_refl _)
        (h.linked.ptr_lt r hr) (Or.inl rfl) entry (now + s.attributes.timeoutDelay)
        .invalidateRoute
      refine ⟨_, changed, _, rfl, hrevised.inv hlinked (hnew hsuits) (fun x hx _ => h.timed x hx)
        h.apart (fun _ => hsingle), hrevised, hentry⟩
    | true =>
      obtain ⟨hlinked, hrevised, hnew⟩ := h.linked.revised_reissue hr (Nat.le_succ _)
        (Nat.lt_succ_self _) (Or.inr (le_refl _)) entry (now + s.attributes.timeoutDelay)
        .invalidateRoute
      refine ⟨_, changed, _, rfl, hrevised.inv hlinked (hnew hsuits) (fun x hx _ => h.timed x hx)
        h.apart (fun _ => hsingle), hrevised, hentry⟩

theorem Revised.meets (h : s.Revised r t new) (hr : r ∈ s.routes)
    (hmatch : matchesRte rte r.entry = true) {ptrs : List Nat}
    (hmeets : s.Meets now rte metric sender (r.ptr :: ptrs)) (hnodup : r.ptr ∉ ptrs)
    (hlt : ∀ p ∈ ptrs, p < s.nextPtr) : t.Meets now rte metric sender ptrs := by
  have hdown : t.linkDown = s.linkDown := by rw [linkDown, linkDown, h.attributes]
  constructor
  · intro hinf x hx hptr hxm hxdown
    rw [hdown] at hinf hxdown
    rcases (h.mem x).mp hx with rfl | ⟨hx, hne⟩
    · rcases h.ptr with heq | hfresh
      · rw [heq] at hptr
        exact absurd hptr hnodup
      · have hlt' := hlt _ hptr
        omega
    · have hold := hmeets.infinite hinf x hx (List.mem_cons_of_mem _ hptr) hxm hxdown
      rw [h.attributes, getDelayLeft, h.pending x hx hne]
      exact hold
  · intro hfin x hx y hy hxm hym
    rw [hdown] at hfin
    rcases (h.mem x).mp hx with rfl | ⟨hx, hxne⟩
    · rcases (h.mem y).mp hy with rfl | ⟨hy, hyne⟩
      · rfl
      · exact absurd (hmeets.single hfin y hy r hr hym hmatch) hyne
    · exact absurd (hmeets.single hfin x hx r hr hxm hmatch) hxne

theorem scanRoutes_spec {ptrs : List Nat} (h : s.Inv) (hle : metric ≤ s.linkDown)
    (hmeets : s.Meets now rte metric sender ptrs) (hnodup : ptrs.Nodup)
    (hlt : ∀ p ∈ ptrs, p < s.nextPtr) (interface : Nat) (found changed : Bool) :
    ∃ t found' changed', scanRoutes now rte metric sender interface ptrs (s, found, changed) =
        some (t, found', changed') ∧ t.Inv ∧ t.attributes = s.attributes ∧
      (found = true → found' = true) ∧
      (found' = false → t = s ∧ ∀ r ∈ s.routes, r.ptr ∈ ptrs → matchesRte rte r.entry = false) := by
  induction ptrs generalizing s found changed with
  | nil =>
    exact ⟨s, found, changed, rfl, h, rfl, id, fun _ => ⟨rfl, fun r _ hp => nomatch hp⟩⟩
  | cons p ptrs ih =>
    obtain ⟨hp, hnodup'⟩ := List.nodup_cons.mp hnodup
    have hltp : ∀ q ∈ ptrs, q < s.nextPtr := fun q hq => hlt q (List.mem_cons_of_mem p hq)
    have hrest : s.Meets now rte metric sender ptrs :=
      ⟨fun hi r hr hq => hmeets.infinite hi r hr (List.mem_cons_of_mem p hq), hmeets.single⟩
    rw [scanRoutes]
    cases hf : s.findRoute p with
    | none =>
      obtain ⟨t, f, c, hscan, hinv, hattr, hmono, hnone⟩ := ih h hle hrest hnodup' hltp found changed
      refine ⟨t, f, c, hscan, hinv, hattr, hmono, ?_⟩
      intro hfalse
      obtain ⟨heq, hmiss⟩ := hnone hfalse
      refine ⟨heq, ?_⟩
      intro r hr hq
      rcases List.mem_cons.mp hq with hq | hq
      · have hfind := h.linked.findRoute_eq hr
        rw [hq, hf] at hfind
        cases hfind
      · exact hmiss r hr hq
    | some r =>
      obtain ⟨hr, rfl⟩ := mem_of_findRoute hf
      dsimp only
      by_cases hmatch : matchesRte rte r.entry = true
      · obtain ⟨t, b, new, ht, htinv, hrevised, hnew⟩ :=
          applyRevision_spec interface h hr hmatch hle List.mem_cons_self hmeets
        have hdown : t.linkDown = s.linkDown := by rw [linkDown, linkDown, hrevised.attributes]
        obtain ⟨t', f, c, hscan, hinv, hattr, hmono, hnone⟩ := ih htinv (hdown ▸ hle)
          (hrevised.meets hr hmatch hmeets hp hltp) hnodup'
          (fun q hq => lt_of_lt_of_le (hltp q hq) hrevised.nextPtr) true (changed || b)
        rw [if_pos (show r.entry.leadsTo _ _ = true from hmatch), ht, Option.bind_some]
        refine ⟨t', f, c, hscan, hinv, hattr.trans hrevised.attributes, fun _ => hmono rfl, ?_⟩
        intro hfalse
        rw [hmono rfl] at hfalse
        cases hfalse
      · obtain ⟨t, f, c, hscan, hinv, hattr, hmono, hnone⟩ :=
          ih h hle hrest hnodup' hltp found changed
        rw [if_neg (show ¬ r.entry.leadsTo _ _ = true from hmatch)]
        refine ⟨t, f, c, hscan, hinv, hattr, hmono, ?_⟩
        intro hfalse
        obtain ⟨heq, hmiss⟩ := hnone hfalse
        refine ⟨heq, ?_⟩
        intro x hx hq
        rcases List.mem_cons.mp hq with hq | hq
        · rw [h.linked.eq_of_ptr hx hr hq]
          exact eq_false_of_ne_true hmatch
        · exact hmiss x hx hq

end Responses

/-! ## New routes -/

/-- A route without an event at a new address. -/
theorem Linked.grow (h : s.Linked) (hptr : new.ptr = s.nextPtr) (hevent : new.event = none)
    {routes : List Route} (hroutes : routes.Perm (new :: s.routes)) :
    Linked { s with routes := routes, nextPtr := s.nextPtr + 1 } := by
  have hmem : ∀ x, x ∈ routes ↔ x = new ∨ x ∈ s.routes := fun x => hroutes.mem_iff.trans List.mem_cons
  constructor
  · apply (hroutes.map Route.ptr).nodup_iff.mpr
    rw [List.map_cons, List.nodup_cons]
    refine ⟨?_, h.ptrs⟩
    intro hin
    obtain ⟨x, hx, heq⟩ := List.mem_map.mp hin
    have hlt := h.ptr_lt x hx
    omega
  · intro x hx
    rcases (hmem x).mp hx with rfl | hx
    · exact hptr ▸ Nat.lt_succ_self _
    · exact Nat.lt_succ_of_lt (h.ptr_lt x hx)
  · exact h.uid_lt
  · intro x hx u hu
    rcases (hmem x).mp hx with rfl | hx
    · rw [hevent] at hu
      cases hu
    · exact h.event_lt x hx u hu
  · intro e he
    obtain ⟨x, hx, hev⟩ := h.held e he
    exact ⟨x, (hmem x).mpr (Or.inr hx), hev⟩
  · intro x hx e he hev
    rcases (hmem x).mp hx with rfl | hx
    · rw [hevent] at hev
      cases hev
    · exact h.own x hx e he hev

/-- A valid route of the node itself to a network that no valid route leads to. -/
theorem Inv.addNetworkRouteTo (h : s.Inv) {network : Ipv4Address} {mask : Ipv4Mask}
    (hfree : ∀ x ∈ s.routes, x.entry.status = .ripValid → x.entry.leadsTo network mask = false)
    (interface : Nat) : (s.addNetworkRouteTo network mask interface).Inv := by
  set entry : RipRoutingTableEntry :=
    { destNetwork := network, destNetworkMask := mask, gateway := 0, interface := interface,
      metric := 1, status := .ripValid, changed := true }
  set new : Route := ⟨s.nextPtr, entry, none⟩
  have hadd : s.addNetworkRouteTo network mask interface =
      { s with routes := s.routes ++ [new], nextPtr := s.nextPtr + 1 } := by
    rw [Rip.addNetworkRouteTo, RipRoutingTableEntry.setRouteStatus_eq,
      RipRoutingTableEntry.setRouteMetric_eq, RipRoutingTableEntry.setRouteChanged]
  rw [hadd]
  have hmem : ∀ x, x ∈ s.routes ++ [new] ↔ x = new ∨ x ∈ s.routes ∧ x.ptr ≠ new.ptr := by
    intro x
    rw [List.mem_append, List.mem_singleton, or_comm]
    apply or_congr_right
    exact ⟨fun hx => ⟨hx, Nat.ne_of_lt (h.linked.ptr_lt x hx)⟩, fun hx => hx.1⟩
  have hrevised : s.Revised new { s with routes := s.routes ++ [new], nextPtr := s.nextPtr + 1 } new :=
    ⟨rfl, hmem, fun x _ _ => rfl, Or.inl rfl, Nat.le_succ _⟩
  apply hrevised.inv 
    (h.linked.grow (rfl : new.ptr = _) rfl (List.perm_append_singleton new s.routes))
  · exact ⟨s.attributes.one_lt_linkDown, fun hgateway => absurd rfl hgateway⟩
  · exact fun x hx _ => h.timed x hx
  · exact h.apart
  · exact fun _ x hx _ hvalid => hfree x hx hvalid

/-- A new route is put at the front, and then given its event. -/
theorem addRoute_eq (h : s.Linked) {rte : RipRte} {metric : Nat} (hlt : metric < s.linkDown)
    (now : Nat) (sender : Ipv4Address) (interface : Nat) :
    let blank : Route := ⟨s.nextPtr, newRoute rte sender interface, none⟩
    let entry := { newRoute rte sender interface with
      metric := metric, status := .ripValid, changed := true }
    let grown := { s with routes := blank :: s.routes, nextPtr := s.nextPtr + 1 }
    s.addRoute now rte metric sender interface =
      grown.reissue blank s.nextPtr entry (now + s.attributes.timeoutDelay) .invalidateRoute := by
  have hmod : metric % 256 = metric := Nat.mod_eq_of_lt (hlt.trans s.attributes.linkDown_lt)
  have hrest (entry : Route) : (s.routes.map fun x => if x.ptr = s.nextPtr then entry else x) =
      s.routes := by
    nth_rewrite 2 [← List.map_id s.routes]
    apply List.map_congr_left
    intro x hx
    exact if_neg (Nat.ne_of_lt (h.ptr_lt x hx))
  simp [addRoute, reissue, cancel, hrest, RipRoutingTableEntry.setRouteStatus_eq,
    RipRoutingTableEntry.setRouteMetric_eq, RipRoutingTableEntry.setRouteChanged, hmod]

theorem Inv.addRoute (h : s.Inv) {rte : RipRte} {metric : Nat} (hlt : metric < s.linkDown)
    (hfree : ∀ x ∈ s.routes, matchesRte rte x.entry = false) (now : Nat) (sender : Ipv4Address)
    (interface : Nat) : (s.addRoute now rte metric sender interface).Inv := by
  rw [addRoute_eq h.linked hlt]
  set blank : Route := ⟨s.nextPtr, newRoute rte sender interface, none⟩
  set grown : Rip := { s with routes := blank :: s.routes, nextPtr := s.nextPtr + 1 } with hgrown
  have hlinked : grown.Linked := h.linked.grow rfl rfl (List.Perm.refl _)
  obtain ⟨htlinked, hrevised, hnew⟩ := hlinked.revised_reissue (r := blank) List.mem_cons_self
    (le_refl _) (Nat.lt_succ_self _) (Or.inl rfl)
    { newRoute rte sender interface with metric := metric, status := .ripValid, changed := true }
    (now + s.attributes.timeoutDelay) .invalidateRoute
  have hold : ∀ x ∈ grown.routes, x.ptr ≠ blank.ptr → x ∈ s.routes := by
    intro x hx hne
    rcases List.mem_cons.mp hx with rfl | hx
    · exact absurd rfl hne
    · exact hx
  apply hrevised.inv htlinked (hnew ⟨rfl, hlt⟩)
  · exact fun x hx hne => (h.timed x (hold x hx hne)).congr rfl rfl
  · intro x hx y hy
    rcases List.mem_cons.mp hx with rfl | hx
    · exact fun hvalid => nomatch hvalid
    · rcases List.mem_cons.mp hy with rfl | hy
      · exact fun _ hvalid => nomatch hvalid
      · exact h.apart x hx y hy
  · exact fun _ x hx hne _ => hfree x (hold x hx hne)

/-! ## Whole responses -/

theorem Inv.triggered (h : s.Inv) (pending : Bool) :
    Inv { s with nextTriggeredUpdate := pending } :=
  ⟨⟨h.linked.ptrs, h.linked.ptr_lt, h.linked.uid_lt, h.linked.event_lt, h.linked.held,
    h.linked.own⟩, h.timed, h.apart⟩

theorem processRte_spec (h : s.Inv) {rte : RipRte} {sender : Ipv4Address} {interface : Nat}
    (hmeets : s.Meets now rte (s.rteMetric rte interface) sender (s.routes.map Route.ptr)) :
    ∃ t, s.processRte now sender interface rte = some t ∧ t.1.Inv := by
  have hle : s.rteMetric rte interface ≤ s.linkDown := Nat.min_le_right _ _
  obtain ⟨t, found, changed, hscan, hinv, hattr, -, hnone⟩ := scanRoutes_spec h hle hmeets
    h.linked.ptrs (fun p hp => by
      obtain ⟨x, hx, rfl⟩ := List.mem_map.mp hp
      exact h.linked.ptr_lt x hx) interface false false
  have hdown : t.linkDown = s.linkDown := by rw [linkDown, linkDown, hattr]
  rw [processRte, hscan, Option.map_some]
  refine ⟨_, rfl, ?_⟩
  dsimp only
  split
  · rename_i hnew
    rw [Bool.and_eq_true, Bool.not_eq_true', decide_eq_true_eq, hdown] at hnew
    obtain ⟨rfl, hfree⟩ := hnone hnew.1
    apply hinv.addRoute (lt_of_le_of_ne hle hnew.2)
    exact fun x hx => hfree x hx (List.mem_map_of_mem hx)
  · exact hinv

/-- The condition above for every RTE, in the state in which it is processed. -/
def ResponseMeets (now : Nat) (sender : Ipv4Address) (interface : Nat) : List RipRte → Rip → Prop
  | [], _ => True
  | rte :: rtes, s =>
    s.Meets now rte (s.rteMetric rte interface) sender (s.routes.map Route.ptr) ∧
      ∀ t ∈ s.processRte now sender interface rte, ResponseMeets now sender interface rtes t.1

theorem processRtes_spec {sender : Ipv4Address} {interface : Nat} {rtes : List RipRte}
    (changed : Bool) (h : s.Inv) (hmeets : ResponseMeets now sender interface rtes s) :
    ∃ t, processRtes now sender interface rtes (s, changed) = some t ∧ t.1.Inv := by
  induction rtes generalizing s changed with
  | nil => exact ⟨(s, changed), rfl, h⟩
  | cons rte rtes ih =>
    obtain ⟨t, ht, hinv⟩ := processRte_spec h hmeets.1
    rw [processRtes, ht, Option.bind_some]
    exact ih _ hinv (hmeets.2 t ht)

theorem handleResponses_spec {rtes : List RipRte} {sender : Ipv4Address} {interface : Nat}
    (h : s.Inv) (hmeets : s.excluded interface = false → s.wellFormed rtes = true →
      ResponseMeets now sender interface rtes s) :
    ∃ t, s.handleResponses now rtes sender interface = some t ∧ t.Inv := by
  unfold handleResponses
  by_cases hexcluded : s.excluded interface = true
  · rw [if_pos hexcluded]
    exact ⟨s, rfl, h⟩
  rw [if_neg hexcluded]
  by_cases hformed : s.wellFormed rtes = true
  · rw [if_pos hformed]
    obtain ⟨⟨t, changed⟩, ht, hinv⟩ := processRtes_spec false h
      (hmeets (eq_false_of_ne_true hexcluded) hformed)
    rw [ht, Option.map_some]
    refine ⟨_, rfl, ?_⟩
    dsimp only
    split
    · exact hinv.triggered true
    · exact hinv
  · rw [if_neg hformed]
    exact ⟨s, rfl, h⟩

end Rip
end CudaNs3.Internet
