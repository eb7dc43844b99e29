import CudaNs3.Internet.RipResponses

/-!
# Runs of the RIP table

Interfaces and addresses come and go, updates are sent, timers fire and responses arrive, in any
order. As long as each of these is harmless, nothing aborts and the table stays consistent.
-/

namespace CudaNs3.Internet
namespace Rip

set_option autoImplicit false

variable {s t : Rip} {r x new : Route} {now : Nat}

/-! ## Interfaces and addresses -/

theorem invalidateRoutes_spec {ptrs : List Nat} (h : s.Inv)
    (hptrs : ∀ p ∈ ptrs, p ∈ s.routes.map Route.ptr) (now : Nat) :
    ∃ t, s.invalidateRoutes now ptrs = some t ∧ t.Inv := by
  induction ptrs generalizing s with
  | nil => exact ⟨s, rfl, h⟩
  | cons p ptrs ih =>
    obtain ⟨r, hr, rfl⟩ := List.mem_map.mp (hptrs p List.mem_cons_self)
    obtain ⟨t, new, ht, hinv, -, -, hsame, -⟩ :=
      invalidateRoute_spec h.linked hr now (fun x hx _ => h.timed x hx) h.apart
    rw [invalidateRoutes, ht, Option.bind_some]
    apply ih hinv
    intro p hp
    rw [hsame]
    exact hptrs p (List.mem_cons_of_mem _ hp)

theorem Inv.invalidateRoutes (h : s.Inv) (p : Route → Bool) (now : Nat) :
    ∃ t, s.invalidateRoutes now ((s.routes.filter p).map Route.ptr) = some t ∧ t.Inv := by
  apply invalidateRoutes_spec h
  intro ptr hptr
  obtain ⟨r, hr, rfl⟩ := List.mem_map.mp hptr
  exact List.mem_map_of_mem (List.mem_of_mem_filter hr)

theorem Inv.announced (h : s.Inv) (interface : Nat) :
    Inv (if s.excluded interface then s else s.sendTriggeredRouteUpdate) := by
  split
  · exact h
  · exact h.triggered true

/-- The networks that an interface is to add: no valid route leads to one of them, and none of
them comes twice. -/
def Unrouted (s : Rip) (addresses : List Ipv4InterfaceAddress) : Prop :=
  (∀ a ∈ addresses, a.scope = .global → ∀ r ∈ s.routes, r.entry.status = .ripValid →
    r.entry.leadsTo a.networkAddress a.mask = false) ∧
  (addresses.filter (·.scope = .global)).Pairwise fun a b =>
    a.networkAddress = b.networkAddress → a.mask ≠ b.mask

theorem addNetworkRouteTo_routes (network : Ipv4Address) (mask : Ipv4Mask) (interface : Nat)
    (hx : x ∈ (s.addNetworkRouteTo network mask interface).routes) :
    x ∈ s.routes ∨ x.entry.destNetwork = network ∧ x.entry.destNetworkMask = mask := by
  rcases List.mem_append.mp hx with hx | hx
  · exact Or.inl hx
  · obtain rfl := List.mem_singleton.mp hx
    rw [RipRoutingTableEntry.setRouteStatus_eq, RipRoutingTableEntry.setRouteMetric_eq]
    exact Or.inr ⟨rfl, rfl⟩

theorem Inv.addNetworkRoutes {addresses : List Ipv4InterfaceAddress} (h : s.Inv)
    (hfree : s.Unrouted addresses) (interface : Nat) :
    (s.addNetworkRoutes interface addresses).Inv := by
  induction addresses generalizing s with
  | nil => exact h
  | cons a addresses ih =>
    obtain ⟨hvalid, hapart⟩ := hfree
    rw [Rip.addNetworkRoutes]
    by_cases hscope : a.scope = .global
    · rw [List.filter_cons_of_pos (by simpa using hscope), List.pairwise_cons] at hapart
      rw [if_pos hscope]
      apply ih (h.addNetworkRouteTo (hvalid a List.mem_cons_self hscope) interface)
      refine ⟨?_, hapart.2⟩
      intro b hb hbscope x hx hxvalid
      rcases addNetworkRouteTo_routes _ _ _ hx with hx | ⟨hnet, hmask⟩
      · exact hvalid b (List.mem_cons_of_mem a hb) hbscope x hx hxvalid
      · have hne := hapart.1 b (List.mem_filter.mpr ⟨hb, by simpa using hbscope⟩)
        apply eq_false_of_ne_true
        intro hsame
        rw [RipRoutingTableEntry.leadsTo, Bool.and_eq_true, decide_eq_true_eq,
          decide_eq_true_eq, hnet, hmask] at hsame
        exact hne hsame.1 hsame.2
    · rw [List.filter_cons_of_neg (by simpa using hscope)] at hapart
      rw [if_neg hscope]
      exact ih h ⟨fun b hb => hvalid b (List.mem_cons_of_mem a hb), hapart⟩

/-! ## Updates and timers -/

/-- Marking the routes as sent changes nothing else. -/
theorem Inv.doSendRouteUpdate (h : s.Inv) (periodic : Bool) (sockets : List SendingSocket) :
    (s.doSendRouteUpdate periodic sockets).1.Inv := by
  set mark : Route → Route := fun r => { r with entry := r.entry.setRouteChanged false }
  have hptrs : (s.routes.map mark).map Route.ptr = s.routes.map Route.ptr := by
    rw [List.map_map]
    rfl
  have hmem : ∀ y ∈ s.routes.map mark, ∃ x ∈ s.routes, mark x = y := fun y => List.mem_map.mp
  constructor
  · constructor
    · exact hptrs ▸ h.linked.ptrs
    · intro y hy
      obtain ⟨x, hx, rfl⟩ := hmem y hy
      exact h.linked.ptr_lt x hx
    · exact h.linked.uid_lt
    · intro y hy
      obtain ⟨x, hx, rfl⟩ := hmem y hy
      exact h.linked.event_lt x hx
    · intro e he
      obtain ⟨x, hx, hev⟩ := h.linked.held e he
      exact ⟨mark x, List.mem_map_of_mem hx, hev⟩
    · intro y hy
      obtain ⟨x, hx, rfl⟩ := hmem y hy
      exact h.linked.own x hx
  · intro y hy
    obtain ⟨x, hx, rfl⟩ := hmem y hy
    exact h.timed x hx
  · intro y hy z hz
    obtain ⟨x, hx, rfl⟩ := hmem y hy
    obtain ⟨w, hw, rfl⟩ := hmem z hz
    exact h.apart x hx w hw

theorem Linked.mem_eraseP (h : s.Linked) (hr : r ∈ s.routes) :
    x ∈ s.routes.eraseP (·.ptr = r.ptr) ↔ x ∈ s.routes ∧ x.ptr ≠ r.ptr := by
  constructor
  · intro hx
    refine ⟨List.mem_of_mem_eraseP hx, ?_⟩
    obtain ⟨a, front, back, hfront, ha, hsplit, herase⟩ :=
      List.exists_of_eraseP (p := (·.ptr = r.ptr)) hr (by simp)
    rw [decide_eq_true_eq] at ha
    have hnodup := h.ptrs
    rw [hsplit, List.map_append, List.map_cons, List.nodup_append] at hnodup
    rw [herase] at hx
    rcases List.mem_append.mp hx with hx | hx
    · simpa using hfront x hx
    · intro heq
      apply (List.nodup_cons.mp hnodup.2.1).1
      rw [ha, ← heq]
      exact List.mem_map_of_mem hx
  · rintro ⟨hx, hne⟩
    exact (List.mem_eraseP_of_neg (by simpa using hne)).mpr hx

/-- An event that fires finds its route. -/
theorem fire_spec {e : RouteEvent} (h : s.Inv) (he : e ∈ s.events) (now : Nat) :
    ∃ t, s.fire now e = some t ∧ t.Inv := by
  obtain ⟨r, hr, hptr, hev⟩ := h.linked.held e he
  have hcancel : (s.cancel r.event).Linked := h.linked.cancel r.event
  have htimed : ∀ x ∈ s.routes, x.ptr ≠ r.ptr → (s.cancel r.event).Timed x :=
    fun x hx hne => (h.timed x hx).congr rfl (h.linked.pending_cancel hr hx hne)
  rw [fire, ← hev, ← hptr]
  cases e.call with
  | invalidateRoute =>
    obtain ⟨t, new, ht, hinv, -⟩ := invalidateRoute_spec hcancel hr now htimed h.apart
    exact ⟨t, ht, hinv⟩
  | deleteRoute =>
    have hmem : ∀ x, x ∈ s.routes.eraseP (·.ptr = r.ptr) → x ∈ s.routes ∧ x.ptr ≠ r.ptr :=
      fun x => (h.linked.mem_eraseP hr).mp
    refine ⟨{ s.cancel r.event with routes := s.routes.eraseP (·.ptr = r.ptr) }, ?_, ?_, ?_, ?_⟩
    · change (s.cancel r.event).deleteRoute r.ptr = _
      rw [deleteRoute, hcancel.findRoute_eq hr]
      rfl
    · constructor
      · exact h.linked.ptrs.sublist (List.eraseP_sublist.map Route.ptr)
      · exact fun x hx => h.linked.ptr_lt x (hmem x hx).1
      · exact hcancel.uid_lt
      · exact fun x hx => h.linked.event_lt x (hmem x hx).1
      · intro e' he'
        obtain ⟨x, hx, hxptr, hxev⟩ := hcancel.held e' he'
        refine ⟨x, (h.linked.mem_eraseP hr).mpr ⟨hx, ?_⟩, hxptr, hxev⟩
        intro heq
        have hkept := (List.mem_filter.mp he').2
        rw [decide_eq_true_eq, ← h.linked.eq_of_ptr hx hr heq] at hkept
        exact hkept hxev
      · exact fun x hx => hcancel.own x (hmem x hx).1
    · intro x hx
      exact (htimed x (hmem x hx).1 (hmem x hx).2).congr rfl rfl
    · exact fun x hx y hy => h.apart x (hmem x hx).1 y (hmem y hy).1

/-! ## Runs -/

inductive Happening where
  | interfaceUp (interface : Nat) (loopback initialized : Bool)
      (addresses : List Ipv4InterfaceAddress)
  | interfaceDown (interface : Nat)
  | addAddress (interface : Nat) (isUp : Bool) (a : Ipv4InterfaceAddress)
  | removeAddress (interface : Nat) (isUp : Bool) (a : Ipv4InterfaceAddress)
  | response (rtes : List RipRte) (sender : Ipv4Address) (interface : Nat)
  | triggeredUpdate (sockets : List SendingSocket)
  | unsolicitedUpdate (sockets : List SendingSocket)
  | fire (e : RouteEvent)

/-- One happening, at its time; `none` when it aborts. -/
def step (s : Rip) : Nat × Happening → Option Rip
  | (_, .interfaceUp interface loopback initialized addresses) =>
    some (s.notifyInterfaceUp interface loopback initialized addresses)
  | (now, .interfaceDown interface) => s.notifyInterfaceDown now interface
  | (_, .addAddress interface isUp a) => some (s.notifyAddAddress interface isUp a)
  | (now, .removeAddress interface isUp a) => s.notifyRemoveAddress now interface isUp a
  | (now, .response rtes sender interface) => s.handleResponses now rtes sender interface
  | (_, .triggeredUpdate sockets) => some (s.triggeredUpdate sockets).1
  | (_, .unsolicitedUpdate sockets) => some (s.sendUnsolicitedRouteUpdate sockets).1
  | (now, .fire e) => s.fire now e

/-- The simulator calls an event while it is pending, and at its time. -/
def Occurs (s : Rip) : Nat × Happening → Prop
  | (now, .fire e) => e ∈ s.events ∧ e.ts = now
  | _ => True

/-- What leaves every route with the timer it asks for, and each network with one valid route. -/
def Harmless (s : Rip) : Nat × Happening → Prop
  | (_, .interfaceUp _ loopback _ addresses) => loopback = false → s.Unrouted addresses
  | (_, .addAddress interface isUp a) =>
    isUp = true → s.excluded interface = false → s.Unrouted [a]
  | (now, .response rtes sender interface) =>
    s.excluded interface = false → s.wellFormed rtes = true →
      ResponseMeets now sender interface rtes s
  | _ => True

instance (s : Rip) (now : Nat) (rte : RipRte) (metric : Nat) (sender : Ipv4Address)
    (ptrs : List Nat) : Decidable (s.Meets now rte metric sender ptrs) :=
  decidable_of_iff (_ ∧ _) ⟨fun h => ⟨h.1, h.2⟩, fun h => ⟨h.infinite, h.single⟩⟩

instance decidableResponseMeets (now : Nat) (sender : Ipv4Address) (interface : Nat) :
    (rtes : List RipRte) → (s : Rip) → Decidable (ResponseMeets now sender interface rtes s)
  | [], _ => .isTrue trivial
  | _ :: rtes, _ =>
    have := fun t => decidableResponseMeets now sender interface rtes t
    inferInstanceAs (Decidable (_ ∧ _))

instance (s : Rip) (addresses : List Ipv4InterfaceAddress) : Decidable (s.Unrouted addresses) :=
  inferInstanceAs (Decidable (_ ∧ _))

instance (s : Rip) : (i : Nat × Happening) → Decidable (s.Occurs i)
  | (now, .fire e) => inferInstanceAs (Decidable (e ∈ s.events ∧ e.ts = now))
  | (_, .interfaceUp ..) | (_, .interfaceDown _) | (_, .addAddress ..) | (_, .removeAddress ..)
  | (_, .response ..) | (_, .triggeredUpdate _) | (_, .unsolicitedUpdate _) => .isTrue trivial

instance (s : Rip) : (i : Nat × Happening) → Decidable (s.Harmless i)
  | (_, .interfaceUp _ loopback _ addresses) =>
    inferInstanceAs (Decidable (loopback = false → s.Unrouted addresses))
  | (_, .addAddress interface isUp a) =>
    inferInstanceAs (Decidable (isUp = true → s.excluded interface = false → s.Unrouted [a]))
  | (now, .response rtes sender interface) =>
    inferInstanceAs (Decidable (s.excluded interface = false → s.wellFormed rtes = true →
      ResponseMeets now sender interface rtes s))
  | (_, .fire _) | (_, .interfaceDown _) | (_, .removeAddress ..) | (_, .triggeredUpdate _)
  | (_, .unsolicitedUpdate _) => .isTrue trivial

/-- What is to hold of the table between two events. -/
structure Consistent (s : Rip) : Prop where
  valid : ∀ r ∈ s.routes, r.entry.status = .ripValid → r.entry.metric < s.linkDown
  invalid : ∀ r ∈ s.routes, r.entry.status = .ripInvalid → r.entry.metric = s.linkDown ∧
    ∃ e, s.pendingEvent r.event = some e ∧ e.call = .deleteRoute ∧ e.target = r.ptr
  learned : ∀ r ∈ s.routes, r.entry.status = .ripValid → r.entry.gateway ≠ 0 →
    ∃ e, s.pendingEvent r.event = some e ∧ e.call = .invalidateRoute ∧ e.target = r.ptr
  present : ∀ e ∈ s.events, ∃ r ∈ s.routes, r.ptr = e.target
  apart : s.routes.Pairwise fun x y => x.entry.status = .ripValid → y.entry.status = .ripValid →
    x.entry.destNetwork = y.entry.destNetwork → x.entry.destNetworkMask ≠ y.entry.destNetworkMask

theorem Inv.consistent (h : s.Inv) : s.Consistent := by
  constructor
  · intro r hr hvalid
    have htimed := h.timed r hr
    rw [Timed, hvalid] at htimed
    exact htimed.1
  · intro r hr hinvalid
    have htimed := h.timed r hr
    rw [Timed, hinvalid] at htimed
    exact htimed
  · intro r hr hvalid
    have htimed := h.timed r hr
    rw [Timed, hvalid] at htimed
    exact htimed.2
  · intro e he
    obtain ⟨r, hr, hptr, -⟩ := h.linked.held e he
    exact ⟨r, hr, hptr⟩
  · have hptrs := List.pairwise_map.mp h.linked.ptrs
    apply hptrs.imp_of_mem
    intro x y hx hy hne hxv hyv hnet hmask
    apply hne
    apply h.apart x hx y hy hxv hyv
    rw [RipRoutingTableEntry.leadsTo, hnet, hmask, decide_eq_true rfl, decide_eq_true rfl]
    rfl

theorem step_spec (h : s.Inv) {i : Nat × Happening} (hoccurs : s.Occurs i) (hi : s.Harmless i) :
    ∃ t, s.step i = some t ∧ t.Inv := by
  obtain ⟨now, i⟩ := i
  cases i with
  | interfaceUp interface loopback initialized addresses =>
    refine ⟨_, rfl, ?_⟩
    unfold notifyInterfaceUp
    cases loopback with
    | true => exact h
    | false =>
      have hadd := h.addNetworkRoutes (hi rfl) interface
      simp only [Bool.false_eq_true, if_false]
      split
      · exact hadd.triggered true
      · exact hadd
  | interfaceDown interface =>
    obtain ⟨t, ht, hinv⟩ := h.invalidateRoutes (·.entry.interface = interface) now
    rw [step, notifyInterfaceDown, ht, Option.map_some]
    exact ⟨_, rfl, hinv.announced interface⟩
  | addAddress interface isUp a =>
    refine ⟨_, rfl, ?_⟩
    unfold notifyAddAddress
    by_cases hon : (!isUp || s.excluded interface) = true
    · rw [if_pos hon]
      exact h
    · rw [if_neg hon]
      rw [Bool.or_eq_true, not_or, Bool.not_eq_true', Bool.not_eq_false, Bool.not_eq_true] at hon
      have hadd := h.addNetworkRoutes (hi hon.1 hon.2) interface
      rw [Rip.addNetworkRoutes, Rip.addNetworkRoutes, Rip.addNetworkRoutes] at hadd
      exact hadd.triggered true
  | removeAddress interface isUp a =>
    rw [step, notifyRemoveAddress]
    split
    · exact ⟨s, rfl, h⟩
    · obtain ⟨t, ht, hinv⟩ := h.invalidateRoutes (fun r => r.entry.interface = interface &&
        r.entry.leadsTo a.networkAddress a.mask) now
      dsimp only
      rw [ht, Option.map_some]
      exact ⟨_, rfl, hinv.announced interface⟩
  | response rtes sender interface => exact handleResponses_spec h hi
  | triggeredUpdate sockets => exact ⟨_, rfl, (h.triggered false).doSendRouteUpdate false sockets⟩
  | unsolicitedUpdate sockets => exact ⟨_, rfl, (h.triggered false).doSendRouteUpdate true sockets⟩
  | fire e => exact fire_spec h hoccurs.1 now

/-- At the start the table is empty. -/
def atStart (attributes : RipAttributes) : Rip := { attributes := attributes }

theorem atStart_inv (attributes : RipAttributes) : (atStart attributes).Inv := by
  refine ⟨⟨List.nodup_nil, ?_, ?_, ?_, ?_, ?_⟩, ?_, ?_⟩
  all_goals
    intro x hx
    cases hx

/-- A node on 10.1.0.0/16 hears of 10.2.0.0/16, and loses it again. -/
def up : Nat × Happening :=
  (0, .interfaceUp 1 false true [.construct 0x0a010001 0xffff0000])

def heard (now metric : Nat) : Nat × Happening :=
  (now, .response [⟨0x0a020000, 0xffff0000, 0, metric⟩] 0x0a010002 1)

end Rip
end CudaNs3.Internet
