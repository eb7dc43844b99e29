import CudaNs3.Internet.NdiscCache

/-!
# Timers and queues of the neighbour cache

The state of an entry asks for a timer or for none, and packets wait in two states only. The
timer and the queue are kept in step by hand: most of the handlers that make an entry STALE
leave both alone, and an advertisement that is not taken leaves the timer stopped.
-/

namespace CudaNs3.Internet

set_option autoImplicit false

/-- The function of the timer that runs in a state. -/
def NdiscCacheEntryState.timeout : NdiscCacheEntryState → Option NudFunction
  | .incomplete => some .retransmitTimeout
  | .reachable => some .reachableTimeout
  | .delay => some .delayTimeout
  | .probe => some .probeTimeout
  | .stale | .permanent | .staticAutogenerated => none

def NdiscCacheEntryState.queues (state : NdiscCacheEntryState) : Prop :=
  state = .incomplete ∨ state = .probe

namespace NdiscEntry
variable {Mac Packet : Type}

/-- The timer pending is the one of the state. -/
def Timed (e : NdiscEntry Mac Packet) : Prop :=
  match e.state.timeout with
  | some function => e.nudTimer.function = some function ∧ e.nudTimer.expires ≠ none
  | none => e.nudTimer.expires = none

structure Consistent (e : NdiscEntry Mac Packet) : Prop where
  timer : e.Timed
  waiting : e.waiting ≠ [] → e.state.queues
  queued : e.state = .incomplete → e.waiting ≠ []

/-- Neither a timer nor packets are left. -/
def Settled (e : NdiscEntry Mac Packet) : Prop := e.nudTimer.expires = none ∧ e.waiting = []

variable {e : NdiscEntry Mac Packet}

theorem Consistent.waiting_eq_nil (h : e.Consistent) (hstate : ¬ e.state.queues) :
    e.waiting = [] := by
  by_contra hne
  exact hstate (h.waiting hne)

/-- An entry with a timer it has just started, or with none. -/
theorem consistent_startTimer {function : NudFunction} {delay now : Nat}
    (hfunction : e.state.timeout = some function) (hwaiting : e.waiting ≠ [] → e.state.queues)
    (hqueued : e.state = .incomplete → e.waiting ≠ []) :
    (e.startTimer now function delay).Consistent := by
  refine ⟨?_, hwaiting, hqueued⟩
  unfold Timed startTimer
  rw [hfunction]
  exact ⟨rfl, nofun⟩

theorem consistent_of_settled (h : e.Settled) (hstate : e.state.timeout = none) : e.Consistent := by
  refine ⟨?_, fun hne => absurd h.2 hne, ?_⟩
  · unfold Timed
    rw [hstate]
    exact h.1
  · intro hincomplete
    rw [hincomplete] at hstate
    cases hstate

theorem Consistent.settled (h : e.Consistent) (hstate : e.state.timeout = none) : e.Settled := by
  have htimed := h.timer
  unfold Timed at htimed
  rw [hstate] at htimed
  refine ⟨htimed, h.waiting_eq_nil ?_⟩
  rintro (hs | hs)
  · rw [hs] at hstate
    cases hstate
  · rw [hs] at hstate
    cases hstate

/-- To start the delay timer of a STALE entry makes it a DELAY entry. -/
theorem Consistent.delayed (h : e.Consistent) (hstale : e.state = .stale) (a : NdiscAttributes)
    (now : Nat) : (e.startDelayTimer a now).markDelay.Consistent := by
  have hempty := (h.settled (by rw [hstale]; rfl)).2
  exact consistent_startTimer (e := e.markDelay) rfl (fun hne => absurd hempty hne) nofun

end NdiscEntry

namespace Neighbor
variable {Mac Packet : Type}

def waiting (n : Neighbor Mac Packet) : List Packet := (n.entry.map NdiscEntry.waiting).getD []

/-- Every packet passed went out or waits, in order, or was discarded. -/
structure Accounted (n : Neighbor Mac Packet) : Prop where
  inOrder : (n.out ++ n.waiting).Sublist n.passed
  once : n.passed.Perm (n.out ++ n.waiting ++ n.discarded)

structure Good (n : Neighbor Mac Packet) : Prop where
  entry : ∀ e, n.entry = some e → e.Consistent
  accounted : n.Accounted

variable {n : Neighbor Mac Packet} {e e' : NdiscEntry Mac Packet} {p : Packet}

theorem waiting_of_entry (h : n.entry = some e) : n.waiting = e.waiting := by
  rw [waiting, h]
  rfl

theorem waiting_of_none (h : n.entry = none) : n.waiting = [] := by
  rw [waiting, h]
  rfl

/-- A change of the entry that leaves the queue alone. -/
theorem Accounted.set (h : n.Accounted) (hwaiting : e.waiting = n.waiting) : (n.set e).Accounted := by
  have heq : (n.set e).waiting = n.waiting := hwaiting
  constructor
  · rw [heq]
    exact h.inOrder
  · rw [heq]
    exact h.once

theorem Good.set (h : n.Good) (he : e.Consistent) (hwaiting : e.waiting = n.waiting) :
    (n.set e).Good := by
  refine ⟨?_, h.accounted.set hwaiting⟩
  intro x hx
  rw [← Option.some.inj hx]
  exact he

theorem Accounted.remove (h : n.Accounted) : n.remove.Accounted := by
  unfold Neighbor.remove
  cases hentry : n.entry with
  | none => exact h
  | some e =>
    obtain ⟨horder, honce⟩ := h
    rw [waiting_of_entry hentry] at horder honce
    refine ⟨?_, ?_⟩
    · change (n.out ++ []).Sublist n.passed
      rw [List.append_nil]
      exact (List.sublist_append_left n.out e.waiting).trans horder
    · change n.passed.Perm (n.out ++ [] ++ (n.discarded ++ e.waiting))
      rw [List.append_nil]
      refine honce.trans ?_
      rw [List.append_assoc]
      exact List.perm_append_comm.append_left n.out

theorem remove_entry (n : Neighbor Mac Packet) : n.remove.entry = none := by
  unfold Neighbor.remove
  cases hentry : n.entry with
  | none => exact hentry
  | some e => rfl

theorem Accounted.good_remove (h : n.Accounted) : n.remove.Good := by
  refine ⟨?_, h.remove⟩
  intro e he
  rw [n.remove_entry] at he
  cases he

/-- The packets that waited have gone out, and the queue is empty. -/
theorem Accounted.flushed (h : n.Accounted) (hentry : n.entry = some e) (hempty : e'.waiting = []) :
    Accounted { n.set e' with out := n.out ++ e.waiting } := by
  obtain ⟨horder, honce⟩ := h
  rw [waiting_of_entry hentry] at horder honce
  have heq : waiting { n.set e' with out := n.out ++ e.waiting } = [] := hempty
  constructor
  · rw [heq, List.append_nil]
    exact horder
  · rw [heq, List.append_nil]
    exact honce

/-- A packet is passed while none waits, and goes out at once. -/
theorem Accounted.pass_send (h : n.Accounted) (hnone : n.waiting = []) (p : Packet) :
    (send { n with passed := n.passed ++ [p] } p).Accounted := by
  obtain ⟨horder, honce⟩ := h
  rw [hnone, List.append_nil] at horder honce
  have heq : waiting (send { n with passed := n.passed ++ [p] } p) = [] := hnone
  constructor
  · rw [heq, List.append_nil]
    exact horder.append (List.Sublist.refl [p])
  · rw [heq, List.append_nil]
    refine (honce.append_right [p]).trans ?_
    rw [List.append_assoc, send, List.append_assoc]
    exact List.perm_append_comm.append_left n.out

/-- A packet is passed and waits behind the others. -/
theorem Accounted.pass_wait (h : n.Accounted) (hentry : e'.waiting = n.waiting ++ [p]) :
    (Neighbor.set { n with passed := n.passed ++ [p] } e').Accounted := by
  obtain ⟨horder, honce⟩ := h
  have heq : waiting (Neighbor.set { n with passed := n.passed ++ [p] } e') = n.waiting ++ [p] :=
    hentry
  constructor
  · rw [heq, ← List.append_assoc]
    exact horder.append (List.Sublist.refl [p])
  · rw [heq]
    have hmove : (n.waiting ++ n.discarded ++ [p]).Perm (n.waiting ++ [p] ++ n.discarded) := by
      rw [List.append_assoc, List.append_assoc]
      exact List.perm_append_comm.append_left n.waiting
    refine (honce.append_right [p]).trans ?_
    have hleft := hmove.append_left n.out
    rw [← List.append_assoc, ← List.append_assoc] at hleft
    simpa only [List.append_assoc, Neighbor.set] using hleft

/-- A packet is passed and waits, and the first of those that waited is discarded. -/
theorem Accounted.pass_full {first : Packet} {rest : List Packet} (h : n.Accounted)
    (hfirst : n.waiting = first :: rest) (hentry : e'.waiting = rest ++ [p]) :
    Accounted { n with
      entry := some e', passed := n.passed ++ [p], discarded := n.discarded ++ [first] } := by
  obtain ⟨horder, honce⟩ := h
  rw [hfirst] at horder honce
  set m : Neighbor Mac Packet := { n with
    entry := some e', passed := n.passed ++ [p], discarded := n.discarded ++ [first] }
  have heq : m.waiting = rest ++ [p] := hentry
  constructor
  · rw [heq, ← List.append_assoc]
    apply List.Sublist.append _ (List.Sublist.refl [p])
    exact ((List.sublist_cons_self first rest).append_left n.out).trans horder
  · rw [heq]
    have hmove : (first :: rest ++ n.discarded ++ [p]).Perm
        (rest ++ [p] ++ (n.discarded ++ [first])) := by
      classical
      rw [List.perm_iff_count]
      intro x
      simp only [List.count_append, List.count_cons, List.count_nil]
      omega
    refine (honce.append_right [p]).trans ?_
    have hleft := hmove.append_left n.out
    simpa only [List.append_assoc] using hleft

/-! ## Lookups -/

section Lookup
variable {a : NdiscAttributes} {i : NdiscInterface} {now : Nat} {dst : Ipv6Address}

/-- The link-layer address is known. -/
def Known (n : Neighbor Mac Packet) : Prop :=
  ∃ e, n.entry = some e ∧ ¬ e.state.queues

/-- A queue that holds no packet at all is never asked to hold one. -/
def HasRoom (a : NdiscAttributes) (n : Neighbor Mac Packet) : Prop :=
  ∀ e, n.entry = some e → e.state.queues → e.waiting = [] → 0 < a.unresQlen

theorem lookupPacket_queues (h : n.entry = some e) (hqueues : e.state.queues) (i : NdiscInterface)
    (dst : Ipv6Address) (p : Packet) :
    n.lookupPacket a i now dst p = (n.addWaitingPacket a e p).map fun n => (n, false) := by
  unfold lookupPacket
  rw [h]
  dsimp only
  rcases hqueues with hs | hs
  · rw [hs]
  · rw [hs]

/-- An entry whose address is known stays so, and its queue stays empty. -/
theorem lookupPacket_known (h : ∀ e, n.entry = some e → e.Consistent) (hknown : n.Known)
    (i : NdiscInterface) (dst : Ipv6Address) (p : Packet) :
    ∃ e, n.lookupPacket a i now dst p = some (n.set e, true) ∧ e.Consistent ∧ ¬ e.state.queues := by
  obtain ⟨e, he, hstate⟩ := hknown
  have hset : n.set e = n := by
    unfold Neighbor.set
    rw [← he]
  have hsame : ∃ e, some (n, true) = some (n.set e, true) ∧ e.Consistent ∧ ¬ e.state.queues :=
    ⟨e, by rw [hset], h e he, hstate⟩
  unfold lookupPacket
  rw [he]
  dsimp only
  cases hs : e.state with
  | incomplete => exact absurd (Or.inl hs) hstate
  | probe => exact absurd (Or.inr hs) hstate
  | reachable => exact hsame
  | delay => exact hsame
  | permanent => exact hsame
  | staticAutogenerated => exact hsame
  | stale =>
    refine ⟨_, rfl, (h e he).delayed hs a now, ?_⟩
    rintro (hd | hd)
    · cases hd
    · cases hd

theorem lookup_good (h : n.Good) : (n.lookup a now).Good := by
  unfold lookup
  cases he : n.entry with
  | none => exact h
  | some e =>
    dsimp only
    split
    · rename_i hstale
      exact h.set ((h.entry e he).delayed hstale a now) (waiting_of_entry he).symm
    · exact h

/-- A packet is passed for an entry that queues. -/
theorem addWaitingPacket_spec (h : n.Accounted) (hentry : n.entry = some e)
    (hroom : e.waiting = [] → 0 < a.unresQlen) (p : Packet) :
    ∃ m e', addWaitingPacket a { n with passed := n.passed ++ [p] } e p = some m ∧
      m.Accounted ∧ m.entry = some e' ∧ e'.state = e.state ∧ e'.nudTimer = e.nudTimer ∧
      e'.waiting ≠ [] := by
  have hwaiting := waiting_of_entry hentry
  unfold addWaitingPacket
  split
  · rename_i hfull
    cases hcase : e.waiting with
    | nil =>
      rw [hcase] at hfull
      exact absurd (hroom hcase) (Nat.not_lt.mpr hfull)
    | cons first rest =>
      refine ⟨_, { e with waiting := rest ++ [p] }, rfl, ?_, rfl, rfl, rfl, ?_⟩
      · exact h.pass_full (hwaiting.trans hcase) rfl
      · exact List.append_ne_nil_of_right_ne_nil _ (List.cons_ne_nil _ _)
  · refine ⟨_, { e with waiting := e.waiting ++ [p] }, rfl, ?_, rfl, rfl, rfl, ?_⟩
    · exact h.pass_wait (congrArg (· ++ [p]) hwaiting.symm)
    · exact List.append_ne_nil_of_right_ne_nil _ (List.cons_ne_nil _ _)

/-- A packet is passed to the queueing `Lookup`. -/
theorem lookupPacket_good (h : n.Good) (hroom : n.HasRoom a) (i : NdiscInterface)
    (dst : Ipv6Address) (p : Packet) :
    ∃ m found, lookupPacket a i now { n with passed := n.passed ++ [p] } dst p = some (m, found) ∧
      (if found then m.send p else m).Good := by
  set m : Neighbor Mac Packet := { n with passed := n.passed ++ [p] } with hm
  cases he : n.entry with
  | none =>
    have hentry : m.entry = none := he
    have hwait : ∀ e : NdiscEntry Mac Packet, e.waiting = [p] → (m.set e).Accounted := by
      intro e hwaiting
      apply h.accounted.pass_wait
      rw [waiting_of_none he, hwaiting]
      rfl
    unfold lookupPacket
    rw [hentry]
    dsimp only
    split
    · exact ⟨_, _, rfl, (hwait _ rfl).good_remove⟩
    · refine ⟨_, _, rfl, ?_, hwait _ rfl⟩
      intro e he
      rw [← Option.some.inj he]
      exact NdiscEntry.consistent_startTimer rfl (fun _ => Or.inl rfl) (fun _ => nofun)
  | some e =>
    have hentry : m.entry = some e := he
    by_cases hqueues : e.state.queues
    · obtain ⟨t, e', ht, haccounted, he', hstate, htimer, hne⟩ :=
        addWaitingPacket_spec h.accounted he (hroom e he hqueues) p
      refine ⟨t, false, ?_, ?_, haccounted⟩
      · rw [lookupPacket_queues hentry hqueues, ht]
        rfl
      · intro x hx
        obtain rfl := Option.some.inj (he'.symm.trans hx)
        have htimed := (h.entry e he).timer
        refine ⟨?_, fun _ => ?_, fun _ => hne⟩
        · unfold NdiscEntry.Timed at htimed ⊢
          rw [hstate, htimer]
          exact htimed
        · rw [hstate]
          exact hqueues
    · have hnone := waiting_of_entry he
      rw [(h.entry e he).waiting_eq_nil hqueues] at hnone
      obtain ⟨e', hlookup, hconsistent, hstate⟩ :=
        lookupPacket_known (a := a) (n := m) h.entry ⟨e, he, hqueues⟩ i dst p
      refine ⟨_, true, hlookup, ?_, ?_⟩
      · intro x hx
        rw [← Option.some.inj hx]
        exact hconsistent
      · exact (h.accounted.pass_send hnone p).set
          ((hconsistent.waiting_eq_nil hstate).trans hnone.symm)

end Lookup

end Neighbor

end CudaNs3.Internet
