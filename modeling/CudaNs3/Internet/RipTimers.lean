import Mathlib.Data.List.Find
import Mathlib.Data.List.Nodup
import CudaNs3.Lib.Transition
import CudaNs3.Internet.RipTable

/-!
# The timers of the RIP table

Every route is tied to the event that is to invalidate or to delete it. An operation that puts
a new event into a pair takes the old one back, so that no event outlives its route. The table
is consistent when each route has the metric and the timer its status asks for, and no two valid
routes lead to the same network.
-/

namespace CudaNs3.Internet
namespace Rip

set_option autoImplicit false

/-- Addresses and event numbers are given out once, and each pending event is the one of the
route it refers to. -/
structure Linked (s : Rip) : Prop where
  ptrs : (s.routes.map Route.ptr).Nodup
  ptr_lt : ∀ r ∈ s.routes, r.ptr < s.nextPtr
  uid_lt : ∀ e ∈ s.events, e.uid < s.nextUid
  event_lt : ∀ r ∈ s.routes, ∀ u, r.event = some u → u < s.nextUid
  held : ∀ e ∈ s.events, ∃ r ∈ s.routes, r.ptr = e.target ∧ r.event = some e.uid
  own : ∀ r ∈ s.routes, ∀ e ∈ s.events, r.event = some e.uid → r.ptr = e.target

/-- A route has the metric and the timer its status asks for. -/
def Timed (s : Rip) (r : Route) : Prop :=
  match r.entry.status with
  | .ripValid => r.entry.metric < s.linkDown ∧ (r.entry.gateway ≠ 0 →
      ∃ e, s.pendingEvent r.event = some e ∧ e.call = .invalidateRoute ∧ e.target = r.ptr)
  | .ripInvalid => r.entry.metric = s.linkDown ∧
      ∃ e, s.pendingEvent r.event = some e ∧ e.call = .deleteRoute ∧ e.target = r.ptr

/-- Two valid routes do not lead to the same network. -/
def Apart (x y : Route) : Prop :=
  x.entry.status = .ripValid → y.entry.status = .ripValid →
    x.entry.leadsTo y.entry.destNetwork y.entry.destNetworkMask = true → x.ptr = y.ptr

variable {s : Rip} {r x : Route} {ptr now ts : Nat} {entry : RipRoutingTableEntry} {call : RouteCall}

theorem Linked.eq_of_ptr (h : Linked s) (hr : r ∈ s.routes) (hx : x ∈ s.routes)
    (hptr : r.ptr = x.ptr) : r = x :=
  List.inj_on_of_nodup_map h.ptrs hr hx hptr

theorem Linked.findRoute_eq (h : Linked s) (hr : r ∈ s.routes) : s.findRoute r.ptr = some r := by
  cases hf : s.findRoute r.ptr with
  | none =>
    have hnone := List.find?_eq_none.mp hf r hr
    simp at hnone
  | some x =>
    have hx := List.mem_of_find?_eq_some hf
    have hptr := List.find?_some hf
    rw [h.eq_of_ptr hx hr (by simpa using hptr)]

theorem mem_of_findRoute (h : s.findRoute ptr = some r) : r ∈ s.routes ∧ r.ptr = ptr :=
  ⟨List.mem_of_find?_eq_some h, by simpa using List.find?_some h⟩

theorem mem_of_pendingEvent {event : Option Nat} {e : RouteEvent}
    (h : s.pendingEvent event = some e) : e ∈ s.events ∧ event = some e.uid :=
  ⟨List.mem_of_find?_eq_some h, by simpa using List.find?_some h⟩

/-- To cancel the event of one route does nothing to that of another. -/
theorem Linked.pending_cancel (h : Linked s) (hr : r ∈ s.routes) (hx : x ∈ s.routes)
    (hne : x.ptr ≠ r.ptr) : (s.cancel r.event).pendingEvent x.event = s.pendingEvent x.event := by
  unfold pendingEvent cancel
  dsimp only
  rw [List.find?_filter]
  apply List.find?_congr
  intro e he
  by_cases hxe : x.event = some e.uid
  · have hre : r.event ≠ some e.uid := by
      intro hre
      exact hne ((h.own x hx e he hxe).trans (h.own r hr e he hre).symm)
    simp [hxe, hre]
  · simp [hxe]

section Reissue

theorem mem_reissue (hr : r ∈ s.routes) (ts : Nat) (call : RouteCall) :
    x ∈ (s.reissue r ptr entry ts call).routes ↔
      x = ⟨ptr, entry, some s.nextUid⟩ ∨ x ∈ s.routes ∧ x.ptr ≠ r.ptr := by
  unfold reissue
  rw [List.mem_map]
  constructor
  · rintro ⟨y, hy, rfl⟩
    split
    · exact Or.inl rfl
    · rename_i hne
      exact Or.inr ⟨hy, hne⟩
  · rintro (rfl | ⟨hx, hne⟩)
    · exact ⟨r, hr, if_pos rfl⟩
    · exact ⟨x, hx, if_neg hne⟩

theorem mem_events_reissue (entry : RipRoutingTableEntry) {e : RouteEvent} :
    e ∈ (s.reissue r ptr entry ts call).events ↔
      e ∈ s.events ∧ r.event ≠ some e.uid ∨ e = ⟨s.nextUid, ts, call, ptr⟩ := by
  simp [reissue, cancel]

theorem Linked.pending_reissue (h : Linked s) (hr : r ∈ s.routes) (hx : x ∈ s.routes)
    (hne : x.ptr ≠ r.ptr) (entry : RipRoutingTableEntry) (ts : Nat) (call : RouteCall) :
    (s.reissue r ptr entry ts call).pendingEvent x.event = s.pendingEvent x.event := by
  rw [← h.pending_cancel hr hx hne]
  unfold pendingEvent reissue
  dsimp only
  rw [List.find?_append]
  have hnew : [RouteEvent.mk s.nextUid ts call ptr].find? (fun e => x.event = some e.uid) = none := by
    rw [List.find?_eq_none]
    intro e he
    rw [List.mem_singleton] at he
    subst he
    intro hev
    have hlt := h.event_lt x hx _ (by simpa using hev)
    exact Nat.lt_irrefl _ hlt
  rw [hnew, Option.or_none]

theorem Linked.pending_new (h : Linked s) (r : Route) (ptr : Nat) (entry : RipRoutingTableEntry)
    (ts : Nat) (call : RouteCall) :
    (s.reissue r ptr entry ts call).pendingEvent (some s.nextUid) =
      some ⟨s.nextUid, ts, call, ptr⟩ := by
  unfold pendingEvent reissue
  dsimp only
  rw [List.find?_append]
  have hold : (s.cancel r.event).events.find? (fun e => some s.nextUid = some e.uid) = none := by
    rw [List.find?_eq_none]
    intro e he
    have hlt := h.uid_lt e (List.mem_of_mem_filter he)
    simp
    omega
  rw [hold]
  simp

theorem Linked.reissue (h : Linked s) (hr : r ∈ s.routes) {n : Nat} (hn : s.nextPtr ≤ n)
    (hptr : ptr < n) (hnew : ptr = r.ptr ∨ s.nextPtr ≤ ptr) :
    Linked { s.reissue r ptr entry ts call with nextPtr := n } := by
  have hother : ∀ x ∈ s.routes, x.ptr ≠ r.ptr → x.ptr ≠ ptr := by
    intro x hx hne heq
    have hlt := h.ptr_lt x hx
    rcases hnew with hnew | hnew
    · exact hne (heq.trans hnew)
    · omega
  constructor
  · change ((s.routes.map fun x => if x.ptr = r.ptr then ⟨ptr, entry, some s.nextUid⟩
      else x).map Route.ptr).Nodup
    rw [List.map_map]
    apply (List.nodup_map_iff_inj_on (List.Nodup.of_map _ h.ptrs)).mpr
    intro x hx y hy heq
    apply h.eq_of_ptr hx hy
    simp only [Function.comp_apply] at heq
    by_cases hxr : x.ptr = r.ptr
    · by_cases hyr : y.ptr = r.ptr
      · exact hxr.trans hyr.symm
      · rw [if_pos hxr, if_neg hyr] at heq
        exact absurd heq.symm (hother y hy hyr)
    · by_cases hyr : y.ptr = r.ptr
      · rw [if_neg hxr, if_pos hyr] at heq
        exact absurd heq (hother x hx hxr)
      · rwa [if_neg hxr, if_neg hyr] at heq
  · intro x hx
    rcases (mem_reissue hr ts call).mp hx with rfl | ⟨hx, -⟩
    · exact hptr
    · exact lt_of_lt_of_le (h.ptr_lt x hx) hn
  · intro e he
    rcases (mem_events_reissue entry).mp he with ⟨he, -⟩ | rfl
    · exact Nat.lt_succ_of_lt (h.uid_lt e he)
    · exact Nat.lt_succ_self _
  · intro x hx u hu
    rcases (mem_reissue hr ts call).mp hx with rfl | ⟨hx, -⟩
    · obtain rfl := Option.some.inj hu
      exact Nat.lt_succ_self _
    · exact Nat.lt_succ_of_lt (h.event_lt x hx u hu)
  · intro e he
    rcases (mem_events_reissue entry).mp he with ⟨he, hne⟩ | rfl
    · obtain ⟨x, hx, hxe, hev⟩ := h.held e he
      have hxr : x.ptr ≠ r.ptr := by
        intro hxr
        rw [h.eq_of_ptr hx hr hxr] at hev
        exact hne hev
      refine ⟨x, ?_, hxe, hev⟩
      exact (mem_reissue hr ts call).mpr (Or.inr ⟨hx, hxr⟩)
    · refine ⟨⟨ptr, entry, some s.nextUid⟩, ?_, rfl, rfl⟩
      exact (mem_reissue hr ts call).mpr (Or.inl rfl)
  · intro x hx e he hev
    rcases (mem_reissue hr ts call).mp hx with rfl | ⟨hx, hxr⟩
    · rcases (mem_events_reissue entry).mp he with ⟨he, -⟩ | rfl
      · have hlt := h.uid_lt e he
        rw [← Option.some.inj hev] at hlt
        exact absurd hlt (Nat.lt_irrefl _)
      · rfl
    · rcases (mem_events_reissue entry).mp he with ⟨he, -⟩ | rfl
      · exact h.own x hx e he hev
      · have hlt := h.event_lt x hx _ hev
        exact absurd hlt (Nat.lt_irrefl _)

end Reissue

/-- The table is consistent as long as its events are. -/
structure Inv (s : Rip) : Prop where
  linked : s.Linked
  timed : ∀ r ∈ s.routes, s.Timed r
  apart : ∀ x ∈ s.routes, ∀ y ∈ s.routes, Apart x y

/-- An entry as it has to be for the event that is scheduled with it. -/
def Suits (s : Rip) (entry : RipRoutingTableEntry) : RouteCall → Prop
  | .invalidateRoute => entry.status = .ripValid ∧ entry.metric < s.linkDown
  | .deleteRoute => entry.status = .ripInvalid ∧ entry.metric = s.linkDown

/-- One route has been replaced, and the others and their events are as before. -/
structure Revised (s : Rip) (r : Route) (t : Rip) (new : Route) : Prop where
  attributes : t.attributes = s.attributes
  mem : ∀ x, x ∈ t.routes ↔ x = new ∨ x ∈ s.routes ∧ x.ptr ≠ r.ptr
  pending : ∀ x ∈ s.routes, x.ptr ≠ r.ptr → t.pendingEvent x.event = s.pendingEvent x.event
  ptr : new.ptr = r.ptr ∨ s.nextPtr ≤ new.ptr
  nextPtr : s.nextPtr ≤ t.nextPtr

variable {t : Rip} {new : Route}

theorem Timed.congr (h : s.Timed x) (ha : t.attributes = s.attributes)
    (hp : t.pendingEvent x.event = s.pendingEvent x.event) : t.Timed x := by
  have hdown : t.linkDown = s.linkDown := by rw [linkDown, linkDown, ha]
  unfold Timed at h ⊢
  rw [hp, hdown]
  exact h

theorem timed_of_suits (hsuits : s.Suits x.entry call) {e : RouteEvent}
    (hp : s.pendingEvent x.event = some e) (hcall : e.call = call) (htarget : e.target = x.ptr) :
    s.Timed x := by
  unfold Timed
  cases call with
  | invalidateRoute =>
    rw [hsuits.1]
    exact ⟨hsuits.2, fun _ => ⟨e, hp, hcall, htarget⟩⟩
  | deleteRoute =>
    rw [hsuits.1]
    exact ⟨hsuits.2, e, hp, hcall, htarget⟩

/-- The route that takes the place of `r` may break what held of `r` itself. -/
theorem Revised.inv (h : s.Revised r t new) (hlinked : t.Linked) (hnew : t.Timed new)
    (htimed : ∀ x ∈ s.routes, x.ptr ≠ r.ptr → s.Timed x)
    (hapart : ∀ x ∈ s.routes, ∀ y ∈ s.routes, Apart x y)
    (hsingle : new.entry.status = .ripValid → ∀ x ∈ s.routes, x.ptr ≠ r.ptr →
      x.entry.status = .ripValid →
      x.entry.leadsTo new.entry.destNetwork new.entry.destNetworkMask = false) : t.Inv := by
  have hsymm : ∀ x : Route, x.entry.leadsTo new.entry.destNetwork new.entry.destNetworkMask =
      new.entry.leadsTo x.entry.destNetwork x.entry.destNetworkMask := by
    intro x
    rw [Bool.eq_iff_iff]
    simp only [RipRoutingTableEntry.leadsTo, Bool.and_eq_true, decide_eq_true_eq]
    constructor
    · exact fun hx => ⟨hx.1.symm, hx.2.symm⟩
    · exact fun hx => ⟨hx.1.symm, hx.2.symm⟩
  refine ⟨hlinked, ?_, ?_⟩
  · intro x hx
    rcases (h.mem x).mp hx with rfl | ⟨hx, hne⟩
    · exact hnew
    · exact (htimed x hx hne).congr h.attributes (h.pending x hx hne)
  · intro x hx y hy hxv hyv hsame
    rcases (h.mem x).mp hx with rfl | ⟨hx, hxne⟩
    · rcases (h.mem y).mp hy with rfl | ⟨hy, hyne⟩
      · rfl
      · have hfalse := hsingle hxv y hy hyne hyv
        rw [hsymm y, hsame] at hfalse
        cases hfalse
    · rcases (h.mem y).mp hy with rfl | ⟨hy, hyne⟩
      · have hfalse := hsingle hyv x hx hxne hxv
        rw [hsame] at hfalse
        cases hfalse
      · exact hapart x hx y hy hxv hyv hsame

/-- A new event for a route, which may have been moved to a new address. -/
theorem Linked.revised_reissue (h : s.Linked) (hr : r ∈ s.routes) {n : Nat} (hn : s.nextPtr ≤ n)
    (hptr : ptr < n) (hnew : ptr = r.ptr ∨ s.nextPtr ≤ ptr) (entry : RipRoutingTableEntry)
    (ts : Nat) (call : RouteCall) :
    let t := { s.reissue r ptr entry ts call with nextPtr := n }
    t.Linked ∧ s.Revised r t ⟨ptr, entry, some s.nextUid⟩ ∧
      (s.Suits entry call → t.Timed ⟨ptr, entry, some s.nextUid⟩) := by
  refine ⟨h.reissue hr hn hptr hnew, ⟨rfl, fun x => mem_reissue hr ts call, ?_, hnew, hn⟩, ?_⟩
  · intro x hx hne
    exact h.pending_reissue hr hx hne entry ts call
  · intro hsuits
    exact timed_of_suits hsuits (h.pending_new r ptr entry ts call) rfl rfl

theorem Linked.cancel (h : s.Linked) (event : Option Nat) : (s.cancel event).Linked :=
  ⟨h.ptrs, h.ptr_lt, fun e he => h.uid_lt e (List.mem_of_mem_filter he), h.event_lt,
    fun e he => h.held e (List.mem_of_mem_filter he),
    fun r hr e he => h.own r hr e (List.mem_of_mem_filter he)⟩

theorem linkDown_mod (s : Rip) : s.linkDown % 256 = s.linkDown :=
  Nat.mod_eq_of_lt s.attributes.linkDown_lt

/-- Invalidating a route sets things right for it, whatever its event was. -/
theorem invalidateRoute_spec (h : s.Linked) (hr : r ∈ s.routes) (now : Nat)
    (htimed : ∀ x ∈ s.routes, x.ptr ≠ r.ptr → s.Timed x)
    (hapart : ∀ x ∈ s.routes, ∀ y ∈ s.routes, Apart x y) :
    ∃ t new, s.invalidateRoute now r.ptr = some t ∧ t.Inv ∧ s.Revised r t new ∧
      new.ptr = r.ptr ∧ t.routes.map Route.ptr = s.routes.map Route.ptr ∧
      new.entry.destNetwork = r.entry.destNetwork ∧
      new.entry.destNetworkMask = r.entry.destNetworkMask ∧
      new.entry.interface = r.entry.interface := by
  have hentry : (((r.entry.setRouteStatus .ripInvalid).setRouteMetric s.linkDown).setRouteChanged
      true) = { r.entry with status := .ripInvalid, metric := s.linkDown, changed := true } := by
    rw [RipRoutingTableEntry.setRouteStatus_eq, RipRoutingTableEntry.setRouteMetric_eq,
      RipRoutingTableEntry.setRouteChanged, linkDown_mod]
  set entry : RipRoutingTableEntry :=
    { r.entry with status := .ripInvalid, metric := s.linkDown, changed := true } with hset
  obtain ⟨hlinked, hrevised, hnew⟩ := h.revised_reissue hr (le_refl _) (h.ptr_lt r hr)
    (Or.inl rfl) entry (now + s.attributes.garbageCollectionDelay) .deleteRoute
  refine ⟨_, _, ?_, hrevised.inv hlinked (hnew ⟨rfl, rfl⟩) htimed hapart ?_, hrevised, rfl, ?_,
    rfl, rfl, rfl⟩
  · unfold invalidateRoute
    rw [h.findRoute_eq hr, Option.map_some, hentry]
    rfl
  · intro hvalid
    cases hvalid
  · change (s.routes.map fun x => if x.ptr = r.ptr then Route.mk r.ptr entry (some s.nextUid)
      else x).map Route.ptr = s.routes.map Route.ptr
    rw [List.map_map]
    apply List.map_congr_left
    intro x _
    simp only [Function.comp_apply]
    split
    · rename_i hptr
      exact hptr.symm
    · rfl

end Rip
end CudaNs3.Internet
