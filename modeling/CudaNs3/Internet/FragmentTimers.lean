import CudaNs3.Internet.FragmentReassembly
import CudaNs3.Lib.Transition
import Mathlib.Data.List.Nodup
import Mathlib.Logic.Function.Basic

/-!
# The time a reassembly is given

`m_timeoutEventList` has an entry for each datagram that is being put together, and one pending
`HandleTimeout` event serves them all. Completed datagrams leave the list and the event as it is,
so that the event may find nothing to do at its time, and there may be several of them. What has
come of a datagram at its time is dropped as a partial packet.
-/

namespace CudaNs3.Internet

open Pieces
set_option autoImplicit false

namespace Fragments

/-- The loop of `GetPartialPacket`; a fragment within what there is gives nothing, for its
difference of sizes wraps around and back. -/
def partialFrom (p : List UInt8) : List (List UInt8 × BitVec 16) → Option (List UInt8)
  | [] => some p
  | it :: rest =>
    let lastEndOffset := (getSize p).setWidth 16
    if it.2 < lastEndOffset then do
      let newStart := lastEndOffset.setWidth 32 - it.2.setWidth 32
      let newSize := getSize it.1 - newStart
      let tempFragment ← createFragment it.1 newStart newSize
      partialFrom (p ++ tempFragment) rest
    else if lastEndOffset = it.2 then partialFrom (p ++ it.1) rest
    else partialFrom p rest

/-- `none` also where there is no first fragment to look at. -/
def getPartialPacket (s : Fragments) : Option (List UInt8) :=
  match s.fragments with
  | [] => none
  | it :: _ => if 0 < it.2 then some [] else partialFrom [] s.fragments

variable {p : List UInt8} {l : List (List UInt8 × BitVec 16)} {seen : List (Piece UInt8)}

/-- Whatever is put together, no piece is asked for more than it has. -/
theorem partialFrom_isSome (p : List UInt8) (l : List (List UInt8 × BitVec 16)) :
    ∃ q, partialFrom p l = some q := by
  induction l generalizing p with
  | nil => exact ⟨p, rfl⟩
  | cons it rest ih =>
    unfold partialFrom
    dsimp only
    split
    · have hcut : ∀ start : BitVec 32, start + (getSize it.1 - start) ≤ getSize it.1 := by
        intro start
        rw [BitVec.add_comm, BitVec.sub_add_cancel]
        exact BitVec.le_refl _
      rw [createFragment, if_pos (hcut _)]
      exact ih _
    · split
      · exact ih _
      · exact ih _

theorem getPartialPacket_isSome {s : Fragments} (h : s.fragments ≠ []) :
    ∃ q, s.getPartialPacket = some q := by
  unfold getPartialPacket
  cases hl : s.fragments with
  | nil => exact absurd hl h
  | cons it rest =>
    dsimp only
    split
    · exact ⟨[], rfl⟩
    · exact partialFrom_isSome [] _

/-- One turn of the loop: what a fragment gives that does not start behind the end. -/
theorem partialFrom_cons {it : List UInt8 × BitVec 16} (hp : p.length < 2 ^ 16)
    (hit : (toPiece it).stop < 2 ^ 16) : partialFrom p (it :: l) =
      if it.2.toNat ≤ p.length then partialFrom (p ++ it.1.drop (p.length - it.2.toNat)) l
      else partialFrom p l := by
  have hlast : ((getSize p).setWidth 16).toNat = p.length := by
    rw [BitVec.toNat_setWidth, getSize, BitVec.toNat_ofNat]
    omega
  have hwide : (((getSize p).setWidth 16).setWidth 32).toNat = p.length := by
    rw [BitVec.toNat_setWidth, hlast]
    omega
  have hoffset : (it.2.setWidth 32).toNat = it.2.toNat := by
    rw [BitVec.toNat_setWidth]
    omega
  have hstop : it.2.toNat + it.1.length < 2 ^ 16 := hit
  conv_lhs => unfold partialFrom
  dsimp only
  by_cases hlt : it.2 < (getSize p).setWidth 16
  · have hltn : it.2.toNat < p.length := by
      rw [BitVec.lt_def, hlast] at hlt
      exact hlt
    have hstart : ((getSize p).setWidth 16).setWidth 32 - it.2.setWidth 32 =
        BitVec.ofNat 32 (p.length - it.2.toNat) := by
      have hle : it.2.setWidth 32 ≤ ((getSize p).setWidth 16).setWidth 32 := by
        rw [BitVec.le_def, hwide, hoffset]
        exact hltn.le
      apply BitVec.eq_of_toNat_eq
      rw [BitVec.toNat_sub_of_le hle, hwide, hoffset, BitVec.toNat_ofNat]
      omega
    have hcut : BitVec.ofNat 32 (p.length - it.2.toNat) +
        (getSize it.1 - BitVec.ofNat 32 (p.length - it.2.toNat)) ≤ getSize it.1 := by
      rw [BitVec.add_comm, BitVec.sub_add_cancel]
      exact BitVec.le_refl _
    have hnat : (BitVec.ofNat 32 (p.length - it.2.toNat)).toNat = p.length - it.2.toNat := by
      rw [BitVec.toNat_ofNat]
      omega
    have htake : (it.1.drop (p.length - it.2.toNat)).take
        (getSize it.1 - BitVec.ofNat 32 (p.length - it.2.toNat)).toNat =
          it.1.drop (p.length - it.2.toNat) := by
      apply List.take_of_length_le
      rw [List.length_drop, BitVec.toNat_sub, hnat, getSize, BitVec.toNat_ofNat]
      omega
    rw [if_pos hlt, if_pos hltn.le, hstart, createFragment, if_pos hcut, hnat, htake]
    rfl
  · rw [if_neg hlt]
    have hge : p.length ≤ it.2.toNat := by
      rw [BitVec.lt_def, hlast] at hlt
      omega
    by_cases heq : (getSize p).setWidth 16 = it.2
    · have heqn : it.2.toNat = p.length := by rw [← heq, hlast]
      rw [if_pos heq, if_pos heqn.le, heqn, Nat.sub_self, List.drop_zero]
    · have hne : it.2.toNat ≠ p.length := by
        intro h
        apply heq
        apply BitVec.eq_of_toNat_eq
        rw [hlast, h]
      rw [if_neg heq, if_neg (by omega)]

/-- In ascending order the loop keeps the longest prefix of what it has seen. -/
theorem partialFrom_longest (h : LongestPrefix seen p) (hp : p.length < 2 ^ 16)
    (hseen : ∀ a ∈ seen, ∀ it ∈ l, a.start ≤ (toPiece it).start)
    (hsorted : l.Pairwise fun a b => a.2 ≤ b.2) (hstop : ∀ it ∈ l, (toPiece it).stop < 2 ^ 16) :
    ∃ q, partialFrom p l = some q ∧ LongestPrefix (seen ++ l.map toPiece) q := by
  induction l generalizing p seen with
  | nil =>
    refine ⟨p, rfl, ?_⟩
    rw [List.map_nil, List.append_nil]
    exact h
  | cons it rest ih =>
    obtain ⟨hfirst, hrest⟩ := List.pairwise_cons.mp hsorted
    obtain ⟨hit, hstops⟩ := List.forall_mem_cons.mp hstop
    have hnext : ∀ a ∈ seen ++ [toPiece it], ∀ b ∈ rest, a.start ≤ (toPiece b).start := by
      intro a ha b hb
      rcases List.mem_append.mp ha with ha | ha
      · exact hseen a ha b (List.mem_cons_of_mem it hb)
      · rw [List.mem_singleton.mp ha]
        exact BitVec.le_def.mp (hfirst b hb)
    have hlist : seen ++ (it :: rest).map toPiece = seen ++ [toPiece it] ++ rest.map toPiece := by
      rw [List.map_cons, List.append_assoc]
      rfl
    rw [partialFrom_cons hp hit, hlist]
    by_cases hle : it.2.toNat ≤ p.length
    · rw [if_pos hle]
      refine ih (h.extend ?_ hle) ?_ hnext hrest hstops
      · intro a ha
        exact hseen a ha it List.mem_cons_self
      · have hit' : it.2.toNat + it.1.length < 2 ^ 16 := hit
        rw [List.length_append, List.length_drop]
        omega
    · rw [if_neg hle]
      exact ih (h.skip (Nat.lt_of_not_le hle)) hp hnext hrest hstops

/-- The partial packet of any fragments is the longest prefix of their bytes, as long as none of
them ends beyond the length that a packet can have. -/
theorem getPartialPacket_collect {held : List Datagram} (hne : held ≠ [])
    (hstop : ∀ d ∈ held, (Datagram.piece d).stop < 2 ^ 16) :
    ∃ q, (collect held).getPartialPacket = some q ∧ LongestPrefix (held.map Datagram.piece) q := by
  have hmem : ∀ a, a ∈ (collect held).fragments.map toPiece ↔ a ∈ held.map Datagram.piece := by
    intro a
    refine pieces_collect.trans ?_
    rw [List.mem_map]
    constructor
    · rintro ⟨d, hd, rfl⟩
      exact ⟨d, hd, rfl⟩
    · rintro ⟨d, hd, rfl⟩
      exact ⟨d, hd, rfl⟩
  have hsorted := @sorted_collect held
  have hstops : ∀ it ∈ (collect held).fragments, (toPiece it).stop < 2 ^ 16 := by
    intro it hit
    obtain ⟨d, hd, rfl⟩ := exists_of_mem_collect hit
    exact hstop d hd
  obtain ⟨q, hq, hlongest⟩ := partialFrom_longest LongestPrefix.nil (Nat.two_pow_pos 16)
    (fun a ha => absurd ha List.not_mem_nil) hsorted hstops
  unfold getPartialPacket
  cases hl : (collect held).fragments with
  | nil => exact absurd hl (fragments_collect_ne_nil hne)
  | cons it rest =>
    dsimp only
    split
    · -- the first byte is missing
      rename_i hpos
      refine ⟨[], rfl, ⟨fun x hx => absurd hx (Nat.not_lt_zero x), ?_⟩⟩
      rintro ⟨a, ha, hstart, -⟩
      obtain ⟨b, hb, rfl⟩ := List.mem_map.mp ((hmem a).mpr ha)
      have hfirst : it.2 ≤ b.2 := by
        rw [hl] at hb hsorted
        rcases List.mem_cons.mp hb with rfl | hb
        · exact BitVec.le_refl _
        · exact (List.pairwise_cons.mp hsorted).1 b hb
      have hb0 : b.2.toNat ≤ 0 := hstart
      rw [BitVec.lt_def] at hpos
      rw [BitVec.le_def] at hfirst
      have h0 : (0 : BitVec 16).toNat = 0 := rfl
      omega
    · rw [hl] at hq
      refine ⟨q, hq, hlongest.congr ?_⟩
      intro a
      rw [List.nil_append]
      exact hmem a

end Fragments

/-! ### The table and its timers -/

/-- A datagram that is being put together, and its place in the list. When its first fragment
came, and which ones have come, is kept for the statements only. -/
structure HeldDatagram where
  fragments : Fragments
  timeoutIter : Nat
  since : Nat
  received : List Datagram

def HeldDatagram.add (h : HeldDatagram) (d : Datagram) : HeldDatagram :=
  { h with
    fragments := h.fragments.addFragment d.1 d.2.fragmentOffset (!d.2.isLastFragment)
    received := h.received ++ [d] }

/-- An entry of `m_timeoutEventList`, at its node. -/
structure FragmentTimeout where
  node : Nat
  expiry : Nat
  key : FragmentKey
  ipHeader : Ipv4Header
  iif : Nat

/-- A packet that was given to the drop trace, and when. -/
structure FragmentDrop where
  time : Nat
  key : FragmentKey
  ipHeader : Ipv4Header
  packet : List UInt8
  iif : Nat

/-- The times of the pending `HandleTimeout` events are in `events`. -/
structure FragmentTable where
  now : Nat := 0
  fragments : FragmentKey → Option HeldDatagram := fun _ => none
  timeoutEventList : List FragmentTimeout := []
  events : List Nat := []
  nextNode : Nat := 0
  drops : List FragmentDrop := []

inductive FragmentStep where
  | arrive (d : Datagram) (iif : Nat)
  | advance (time : Nat)
  | timeout

namespace FragmentTable

def setFragments (s : FragmentTable) (key : FragmentKey) (f : Option HeldDatagram) :
    FragmentTable :=
  { s with fragments := Function.update s.fragments key f }

/-- A new last entry, at `nextNode`. -/
def setTimeout (s : FragmentTable) (fragmentExpirationTimeout : Nat) (key : FragmentKey)
    (ipHeader : Ipv4Header) (iif : Nat) : FragmentTable :=
  let now := s.now + fragmentExpirationTimeout
  { s with
    events := if s.timeoutEventList.isEmpty then s.events ++ [now] else s.events
    timeoutEventList := s.timeoutEventList ++ [⟨s.nextNode, now, key, ipHeader, iif⟩]
    nextNode := s.nextNode + 1 }

/-- `fragments` and the table, both as they are found or made. -/
def findOrCreate (s : FragmentTable) (fragmentExpirationTimeout : Nat) (ipHeader : Ipv4Header)
    (iif : Nat) : FragmentTable × HeldDatagram :=
  match s.fragments ipHeader.fragmentKey with
  | some h => (s, h)
  | none =>
    (s.setTimeout fragmentExpirationTimeout ipHeader.fragmentKey ipHeader iif,
      ⟨.new, s.nextNode, s.now, []⟩)

/-- The table, and the packet when it is complete. -/
def processFragment (s : FragmentTable) (fragmentExpirationTimeout : Nat) (d : Datagram)
    (iif : Nat) : Option (FragmentTable × Option (List UInt8)) := do
  let key := d.2.fragmentKey
  let (s, h) := s.findOrCreate fragmentExpirationTimeout d.2 iif
  let h := h.add d
  if h.fragments.isEntire then
    let packet ← h.fragments.getPacket
    let list := s.timeoutEventList.eraseP fun e => e.node = h.timeoutIter
    some ({ s with timeoutEventList := list }.setFragments key none, some packet)
  else some (s.setFragments key (some h), none)

/-- `none` when there is no such datagram. -/
def handleFragmentsTimeout (s : FragmentTable) (e : FragmentTimeout) : Option FragmentTable := do
  let h ← s.fragments e.key
  let packet ← h.fragments.getPartialPacket
  let drop : FragmentDrop := ⟨s.now, e.key, e.ipHeader, packet, e.iif⟩
  some ({ s with drops := s.drops ++ [drop] }.setFragments e.key none)

/-- The loop of `HandleTimeout` over the list. -/
def expire : List FragmentTimeout → FragmentTable → Option FragmentTable
  | [], s => some { s with timeoutEventList := [] }
  | e :: rest, s =>
    if e.expiry = s.now then (s.handleFragmentsTimeout e).bind fun s => expire rest s
    else some { s with timeoutEventList := e :: rest }

def handleTimeout (s : FragmentTable) : Option FragmentTable :=
  (expire s.timeoutEventList s).map fun s =>
    match s.timeoutEventList with
    | [] => s
    | e :: _ => { s with events := s.events ++ [s.now + (e.expiry - s.now)] }

def step (fragmentExpirationTimeout : Nat) (s : FragmentTable) : FragmentStep → Option FragmentTable
  | .arrive d iif => (s.processFragment fragmentExpirationTimeout d iif).map (·.1)
  | .advance time => some { s with now := time }
  | .timeout => { s with events := s.events.erase s.now }.handleTimeout

/-- Time passes up to the next event, and an event is handled at its time. -/
def Occurs (s : FragmentTable) : FragmentStep → Prop
  | .arrive _ _ => True
  | .advance time => s.now ≤ time ∧ ∀ t ∈ s.events, time ≤ t
  | .timeout => s.now ∈ s.events

/-! ### What is to hold -/

/-- The timers match the table. -/
structure TimersMatch (fragmentExpirationTimeout : Nat) (s : FragmentTable) : Prop where
  keys : ∀ k, (s.fragments k).isSome ↔ k ∈ s.timeoutEventList.map (·.key)
  nodup : (s.timeoutEventList.map (·.key)).Nodup
  sorted : s.timeoutEventList.Pairwise fun a b => a.expiry ≤ b.expiry
  pending : ∀ e rest, s.timeoutEventList = e :: rest → ∃ t ∈ s.events, t ≤ e.expiry
  expiry : ∀ e ∈ s.timeoutEventList, ∀ h, s.fragments e.key = some h →
    e.expiry = h.since + fragmentExpirationTimeout ∧ s.now ≤ e.expiry

/-- A datagram is held from its first fragment on, until a fragment completes it or a timeout is
handled when the time has elapsed since then; and then what has come of it is dropped. -/
structure DiscardLaw (fragmentExpirationTimeout : Nat) (s : FragmentTable) (i : FragmentStep)
    (t : FragmentTable) : Prop where
  gone : ∀ k h, s.fragments k = some h → (t.fragments k = none ↔
    (∃ d iif, i = .arrive d iif ∧ d.2.fragmentKey = k ∧
      (h.add d).fragments.isEntire) ∨
    (i = .timeout ∧ s.now = h.since + fragmentExpirationTimeout))
  dropped : ∀ k h, s.fragments k = some h → i = .timeout →
    s.now = h.since + fragmentExpirationTimeout → ∃ drop ∈ t.drops, drop.time = s.now ∧
      drop.key = k ∧ h.fragments.getPartialPacket = some drop.packet
  since : ∀ k h', t.fragments k = some h' → (s.fragments k = none ∧ h'.since = s.now) ∨
    ∃ h, s.fragments k = some h ∧ h'.since = h.since

/-- The partial packet of a datagram that is held is the longest prefix of what has come of it. -/
def PartialRight (s : FragmentTable) : Prop :=
  ∀ k h, s.fragments k = some h → ∃ q, h.fragments.getPartialPacket = some q ∧
    LongestPrefix (h.received.map Datagram.piece) q

/-- The same for datagrams whose fragments end within the length that a packet can have. -/
def PartialRightWithin (s : FragmentTable) : Prop :=
  ∀ k h, s.fragments k = some h → (∀ d ∈ h.received, (Datagram.piece d).stop < 2 ^ 16) →
    ∃ q, h.fragments.getPartialPacket = some q ∧
      LongestPrefix (h.received.map Datagram.piece) q

theorem setFragments_self (s : FragmentTable) (k : FragmentKey) (f : Option HeldDatagram) :
    (s.setFragments k f).fragments k = f := by simp [setFragments]

theorem setFragments_of_ne (s : FragmentTable) {k k' : FragmentKey} (h : k' ≠ k)
    (f : Option HeldDatagram) : (s.setFragments k f).fragments k' = s.fragments k' := by
  simp [setFragments, h]

/-! ### The invariant -/

structure Inv (timeout : Nat) (s : FragmentTable) : Prop where
  held : ∀ k h, s.fragments k = some h → ∃ e ∈ s.timeoutEventList, e.key = k ∧
    e.node = h.timeoutIter ∧ e.expiry = h.since + timeout
  listed : ∀ e ∈ s.timeoutEventList, ∃ h, s.fragments e.key = some h
  keys : (s.timeoutEventList.map (·.key)).Nodup
  nodes : (s.timeoutEventList.map (·.node)).Nodup
  node_lt : ∀ e ∈ s.timeoutEventList, e.node < s.nextNode
  sorted : s.timeoutEventList.Pairwise fun a b => a.expiry ≤ b.expiry
  now_le : ∀ e ∈ s.timeoutEventList, s.now ≤ e.expiry
  le_timeout : ∀ e ∈ s.timeoutEventList, e.expiry ≤ s.now + timeout
  pending : ∀ e rest, s.timeoutEventList = e :: rest → ∃ t ∈ s.events, t ≤ e.expiry
  received : ∀ k h, s.fragments k = some h →
    h.fragments = Fragments.collect h.received ∧ h.received ≠ []

theorem Inv.start (timeout : Nat) : Inv timeout {} where
  held _ _ hk := by cases hk
  listed _ he := absurd he List.not_mem_nil
  keys := List.nodup_nil
  nodes := List.nodup_nil
  node_lt _ he := absurd he List.not_mem_nil
  sorted := .nil
  now_le _ he := absurd he List.not_mem_nil
  le_timeout _ he := absurd he List.not_mem_nil
  pending _ _ hl := by cases hl
  received _ _ hk := by cases hk

variable {timeout : Nat} {s t : FragmentTable}

/-- The entry of a datagram is the one that it points to. -/
theorem Inv.entry_eq (h : Inv timeout s) {e : FragmentTimeout} (he : e ∈ s.timeoutEventList)
    {f : HeldDatagram} (hf : s.fragments e.key = some f) :
    e.node = f.timeoutIter ∧ e.expiry = f.since + timeout := by
  obtain ⟨e', he', hkey, hnode, hexpiry⟩ := h.held e.key f hf
  have hee : e' = e := List.inj_on_of_nodup_map h.keys he' he hkey
  subst hee
  exact ⟨hnode, hexpiry⟩

theorem Inv.timersMatch (h : Inv timeout s) : s.TimersMatch timeout where
  keys k := by
    rw [List.mem_map]
    constructor
    · intro hk
      obtain ⟨f, hf⟩ := Option.isSome_iff_exists.mp hk
      obtain ⟨e, he, hkey, -⟩ := h.held k f hf
      exact ⟨e, he, hkey⟩
    · rintro ⟨e, he, rfl⟩
      obtain ⟨f, hf⟩ := h.listed e he
      rw [hf]
      rfl
  nodup := h.keys
  sorted := h.sorted
  pending := h.pending
  expiry e he f hf := ⟨(h.entry_eq he hf).2, h.now_le e he⟩

theorem Inv.partialRight (h : Inv timeout s) : s.PartialRightWithin := by
  intro k f hf hstop
  obtain ⟨hcollect, hne⟩ := h.received k f hf
  rw [hcollect]
  exact Fragments.getPartialPacket_collect hne hstop

/-! ### Steps -/

theorem Inv.front_le (h : Inv timeout s) {e : FragmentTimeout} {rest : List FragmentTimeout}
    (hl : s.timeoutEventList = e :: rest) {x : FragmentTimeout} (hx : x ∈ s.timeoutEventList) :
    e.expiry ≤ x.expiry := by
  have hsorted := h.sorted
  rw [hl] at hsorted hx
  rcases List.mem_cons.mp hx with rfl | hx
  · exact Nat.le_refl _
  · exact (List.pairwise_cons.mp hsorted).1 x hx

/-- Time does not pass beyond an expiry, for an event is pending before it. -/
theorem Inv.advance (h : Inv timeout s) {time : Nat} (hnow : s.now ≤ time)
    (hevents : ∀ t ∈ s.events, time ≤ t) : Inv timeout { s with now := time } where
  held := h.held
  listed := h.listed
  keys := h.keys
  nodes := h.nodes
  node_lt := h.node_lt
  sorted := h.sorted
  now_le e he := by
    cases hl : s.timeoutEventList with
    | nil =>
      rw [hl] at he
      exact absurd he List.not_mem_nil
    | cons e₀ rest =>
      obtain ⟨t, ht, hle⟩ := h.pending e₀ rest hl
      exact ((hevents t ht).trans hle).trans (h.front_le hl he)
  le_timeout e he := (h.le_timeout e he).trans (Nat.add_le_add_right hnow timeout)
  pending := h.pending
  received := h.received

/-- A fragment of a datagram that is held. -/
theorem Inv.add (h : Inv timeout s) {f : HeldDatagram} {k : FragmentKey}
    (hf : s.fragments k = some f) (d : Datagram) :
    Inv timeout (s.setFragments k (some (f.add d))) where
  held k' f' hf' := by
    by_cases hk : k' = k
    · subst hk
      have hff : f.add d = f' := Option.some.inj ((setFragments_self _ _ _).symm.trans hf')
      subst hff
      exact h.held k' f hf
    · exact h.held k' f' ((setFragments_of_ne s hk _).symm.trans hf')
  listed e he := by
    by_cases hk : e.key = k
    · exact ⟨f.add d, hk ▸ setFragments_self s k _⟩
    · obtain ⟨f', hf'⟩ := h.listed e he
      exact ⟨f', (setFragments_of_ne s hk _).trans hf'⟩
  keys := h.keys
  nodes := h.nodes
  node_lt := h.node_lt
  sorted := h.sorted
  now_le := h.now_le
  le_timeout := h.le_timeout
  pending := h.pending
  received k' f' hf' := by
    by_cases hk : k' = k
    · subst hk
      have hff : f.add d = f' := Option.some.inj ((setFragments_self _ _ _).symm.trans hf')
      subst hff
      refine ⟨?_, List.append_ne_nil_of_right_ne_nil _ (List.cons_ne_nil d [])⟩
      unfold HeldDatagram.add
      dsimp only
      rw [Fragments.collect_append, (h.received k' f hf).1]
    · exact h.received k' f' ((setFragments_of_ne s hk _).symm.trans hf')

/-- The first fragment of a datagram. -/
theorem Inv.create (h : Inv timeout s) {k : FragmentKey} (hk : s.fragments k = none)
    (d : Datagram) (ipHeader : Ipv4Header) (iif : Nat) :
    Inv timeout ((s.setTimeout timeout k ipHeader iif).setFragments k
      (some ((⟨.new, s.nextNode, s.now, []⟩ : HeldDatagram).add d))) := by
  have hnew : ∀ e ∈ s.timeoutEventList, e.key ≠ k := by
    intro e he hek
    obtain ⟨f, hf⟩ := h.listed e he
    rw [hek, hk] at hf
    cases hf
  constructor
  · intro k' f' hf'
    by_cases hkk : k' = k
    · subst hkk
      have hff := Option.some.inj ((setFragments_self _ _ _).symm.trans hf')
      subst hff
      refine ⟨_, List.mem_append_right _ (List.mem_singleton_self _), rfl, rfl, rfl⟩
    · obtain ⟨e, he, hek⟩ := h.held k' f'
        ((setFragments_of_ne (s.setTimeout timeout k ipHeader iif) hkk _).symm.trans hf')
      exact ⟨e, List.mem_append_left _ he, hek⟩
  · intro e he
    rcases List.mem_append.mp he with he | he
    · obtain ⟨f, hf⟩ := h.listed e he
      exact ⟨f, (setFragments_of_ne (s.setTimeout timeout k ipHeader iif) (hnew e he) _).trans hf⟩
    · rw [List.mem_singleton] at he
      subst he
      exact ⟨_, setFragments_self _ _ _⟩
  · unfold setFragments setTimeout
    dsimp only
    rw [List.map_append]
    refine List.nodup_append.mpr ⟨h.keys, List.nodup_singleton _, ?_⟩
    intro a ha b hb
    obtain ⟨e, he, rfl⟩ := List.mem_map.mp ha
    rw [List.mem_singleton.mp hb]
    exact hnew e he
  · unfold setFragments setTimeout
    dsimp only
    rw [List.map_append]
    refine List.nodup_append.mpr ⟨h.nodes, List.nodup_singleton _, ?_⟩
    intro a ha b hb
    obtain ⟨e, he, rfl⟩ := List.mem_map.mp ha
    rw [List.mem_singleton.mp hb]
    exact (h.node_lt e he).ne
  · intro e he
    rcases List.mem_append.mp he with he | he
    · exact (h.node_lt e he).trans (Nat.lt_succ_self _)
    · rw [List.mem_singleton.mp he]
      exact Nat.lt_succ_self _
  · refine List.pairwise_append.mpr ⟨h.sorted, List.pairwise_singleton _ _, ?_⟩
    intro a ha b hb
    rw [List.mem_singleton.mp hb]
    exact h.le_timeout a ha
  · intro e he
    rcases List.mem_append.mp he with he | he
    · exact h.now_le e he
    · rw [List.mem_singleton.mp he]
      exact Nat.le_add_right _ _
  · intro e he
    rcases List.mem_append.mp he with he | he
    · exact h.le_timeout e he
    · rw [List.mem_singleton.mp he]
      exact Nat.le_refl _
  · intro e rest hl
    cases hold : s.timeoutEventList with
    | nil =>
      have hl' : [(⟨s.nextNode, s.now + timeout, k, ipHeader, iif⟩ : FragmentTimeout)] =
          e :: rest := by
        rw [← hl]
        unfold setFragments setTimeout
        dsimp only
        rw [hold]
        rfl
      obtain ⟨rfl, -⟩ := List.cons.inj hl'
      refine ⟨s.now + timeout, ?_, Nat.le_refl _⟩
      unfold setFragments setTimeout
      dsimp only
      rw [hold]
      exact List.mem_append_right _ (List.mem_singleton_self _)
    | cons e₀ l =>
      have hl' : e₀ :: (l ++
          [(⟨s.nextNode, s.now + timeout, k, ipHeader, iif⟩ : FragmentTimeout)]) =
          e :: rest := by
        rw [← hl]
        unfold setFragments setTimeout
        dsimp only
        rw [hold]
        rfl
      obtain ⟨rfl, -⟩ := List.cons.inj hl'
      obtain ⟨t, ht, hle⟩ := h.pending e₀ l hold
      refine ⟨t, ?_, hle⟩
      unfold setFragments setTimeout
      dsimp only
      rw [hold]
      exact ht
  · intro k' f' hf'
    by_cases hkk : k' = k
    · subst hkk
      have hff := Option.some.inj ((setFragments_self _ _ _).symm.trans hf')
      subst hff
      exact ⟨rfl, List.cons_ne_nil d []⟩
    · exact h.received k' f'
        ((setFragments_of_ne (s.setTimeout timeout k ipHeader iif) hkk _).symm.trans hf')

/-- Other fields than the table, the list and the pending event do not matter. -/
theorem Inv.restrict (h : Inv timeout s) {list : List FragmentTimeout}
    (hsub : list.Sublist s.timeoutEventList) (hnow : t.now = s.now)
    (hlist : t.timeoutEventList = list)
    (hnode : t.nextNode = s.nextNode)
    (hfragments : ∀ k, t.fragments k = if k ∈ list.map (·.key) then s.fragments k else none)
    (hpending : ∀ e rest, list = e :: rest → ∃ u ∈ t.events, u ≤ e.expiry) : Inv timeout t where
  held k f hf := by
    rw [hfragments] at hf
    by_cases hk : k ∈ list.map (·.key)
    · rw [if_pos hk] at hf
      obtain ⟨e, he, rfl⟩ := List.mem_map.mp hk
      rw [hlist]
      exact ⟨e, he, rfl, h.entry_eq (hsub.subset he) hf⟩
    · rw [if_neg hk] at hf
      cases hf
  listed e he := by
    rw [hlist] at he
    rw [hfragments, if_pos (List.mem_map_of_mem he)]
    exact h.listed e (hsub.subset he)
  keys := by
    rw [hlist]
    exact h.keys.sublist (hsub.map _)
  nodes := by
    rw [hlist]
    exact h.nodes.sublist (hsub.map _)
  node_lt e he := by
    rw [hlist] at he
    rw [hnode]
    exact h.node_lt e (hsub.subset he)
  sorted := by
    rw [hlist]
    exact h.sorted.sublist hsub
  now_le e he := by
    rw [hlist] at he
    rw [hnow]
    exact h.now_le e (hsub.subset he)
  le_timeout e he := by
    rw [hlist] at he
    rw [hnow]
    exact h.le_timeout e (hsub.subset he)
  pending e rest hl := hpending e rest (hlist.symm.trans hl)
  received k f hf := by
    rw [hfragments] at hf
    by_cases hk : k ∈ list.map (·.key)
    · rw [if_pos hk] at hf
      exact h.received k f hf
    · rw [if_neg hk] at hf
      cases hf

/-- The keys that are left when the node of a datagram is erased. -/
theorem Inv.mem_erase (h : Inv timeout s) {k : FragmentKey} {f : HeldDatagram}
    (hf : s.fragments k = some f) {e : FragmentTimeout} :
    e ∈ s.timeoutEventList.eraseP (fun e => e.node = f.timeoutIter) ↔
      e ∈ s.timeoutEventList ∧ e.key ≠ k := by
  obtain ⟨e₀, he₀, hkey, hnode, -⟩ := h.held k f hf
  have hiff {x : FragmentTimeout} (hx : x ∈ s.timeoutEventList) :
      x.node = f.timeoutIter ↔ x.key = k := by
    constructor
    · intro hxn
      have hxe : x = e₀ := List.inj_on_of_nodup_map h.nodes hx he₀ (hxn.trans hnode.symm)
      rw [hxe, hkey]
    · intro hxk
      have hxe : x = e₀ := List.inj_on_of_nodup_map h.keys hx he₀ (hxk.trans hkey.symm)
      rw [hxe, hnode]
  constructor
  · intro he
    have hmem := List.mem_of_mem_eraseP he
    refine ⟨hmem, ?_⟩
    intro hek
    have hee : e = e₀ := List.inj_on_of_nodup_map h.keys hmem he₀ (hek.trans hkey.symm)
    subst hee
    obtain ⟨a, front, back, hfront, ha, hsplit, herase⟩ :=
      List.exists_of_eraseP (p := fun e => e.node = f.timeoutIter) he₀ (by simp [hnode])
    have hae : a = e := by
      refine List.inj_on_of_nodup_map h.nodes ?_ he₀ ((of_decide_eq_true ha).trans hnode.symm)
      rw [hsplit]
      exact List.mem_append_right _ List.mem_cons_self
    subst hae
    have hnodup := List.Nodup.of_map _ h.nodes
    rw [hsplit] at hnodup
    rw [herase] at he
    obtain ⟨-, hback, hdisj⟩ := List.nodup_append.mp hnodup
    rcases List.mem_append.mp he with he | he
    · exact hdisj a he a List.mem_cons_self rfl
    · exact (List.nodup_cons.mp hback).1 he
  · rintro ⟨he, hek⟩
    refine (List.mem_eraseP_of_neg ?_).mpr he
    simpa using fun hn => hek ((hiff he).mp hn)

/-- A datagram that is complete leaves the table and the list; the pending event stays. -/
theorem Inv.remove (h : Inv timeout s) {k : FragmentKey} {f : HeldDatagram}
    (hf : s.fragments k = some f) :
    Inv timeout ({ s with timeoutEventList := s.timeoutEventList.eraseP fun e =>
      e.node = f.timeoutIter }.setFragments k none) := by
  refine h.restrict List.eraseP_sublist rfl rfl rfl ?_ ?_
  · intro k'
    by_cases hk : k' = k
    · subst hk
      rw [setFragments_self, if_neg]
      intro hmem
      obtain ⟨e, he, hek⟩ := List.mem_map.mp hmem
      exact (h.mem_erase hf).mp he |>.2 hek
    · rw [setFragments_of_ne _ hk]
      by_cases hmem : k' ∈ (s.timeoutEventList.eraseP fun e => e.node = f.timeoutIter).map (·.key)
      · rw [if_pos hmem]
      · rw [if_neg hmem]
        cases hf' : s.fragments k' with
        | none => rfl
        | some f' =>
          obtain ⟨e, he, hek, -⟩ := h.held k' f' hf'
          exact absurd (List.mem_map.mpr ⟨e, (h.mem_erase hf).mpr ⟨he, hek ▸ hk⟩, hek⟩) hmem
  · intro e rest hl
    have he : e ∈ s.timeoutEventList := by
      refine ((h.mem_erase hf).mp ?_).1
      rw [hl]
      exact List.mem_cons_self
    cases hold : s.timeoutEventList with
    | nil =>
      rw [hold] at he
      exact absurd he List.not_mem_nil
    | cons e₀ l =>
      obtain ⟨u, hu, hle⟩ := h.pending e₀ l hold
      exact ⟨u, hu, hle.trans (h.front_le hold he)⟩

/-- What a fragment does to the table: it is added to its datagram, which leaves the table when
it is complete. -/
theorem Inv.processFragment (h : Inv timeout s) (d : Datagram) (iif : Nat) :
    ∃ t f out, s.processFragment timeout d iif = some (t, out) ∧ Inv timeout t ∧
      ((s.fragments d.2.fragmentKey = some f) ∨
        (s.fragments d.2.fragmentKey = none ∧ f = ⟨.new, s.nextNode, s.now, []⟩)) ∧
      ∀ k, t.fragments k = if k = d.2.fragmentKey then
        (if (f.add d).fragments.isEntire then none else some (f.add d)) else s.fragments k := by
  have hjoin (f : HeldDatagram) (hne : f.fragments.fragments ≠ []) :
      ∃ q, f.fragments.getPacket = some q := by
    unfold Fragments.getPacket
    cases hl : f.fragments.fragments with
    | nil => exact absurd hl hne
    | cons it rest => exact Fragments.joinFrom_isSome
  -- the table with the fragment added, before it is looked at
  have hadded : ∃ s₁ f, s.findOrCreate timeout d.2 iif = (s₁, f) ∧
      Inv timeout (s₁.setFragments d.2.fragmentKey (some (f.add d))) ∧
      (∀ k, k ≠ d.2.fragmentKey → s₁.fragments k = s.fragments k) ∧
      ((s.fragments d.2.fragmentKey = some f) ∨
        (s.fragments d.2.fragmentKey = none ∧ f = ⟨.new, s.nextNode, s.now, []⟩)) := by
    unfold findOrCreate
    cases hk : s.fragments d.2.fragmentKey with
    | some f => exact ⟨s, f, rfl, h.add hk d, fun _ _ => rfl, .inl rfl⟩
    | none =>
      exact ⟨_, _, rfl, h.create hk d d.2 iif, fun _ _ => rfl, .inr ⟨rfl, rfl⟩⟩
  obtain ⟨s₁, f, hfind, hinv, hother, hf⟩ := hadded
  have hself := setFragments_self s₁ d.2.fragmentKey (some (f.add d))
  have hne : (f.add d).fragments.fragments ≠ [] := by
    obtain ⟨hcollect, hreceived⟩ := hinv.received _ _ hself
    rw [hcollect]
    exact Fragments.fragments_collect_ne_nil hreceived
  unfold FragmentTable.processFragment
  rw [hfind]
  dsimp only
  by_cases hentire : (f.add d).fragments.isEntire = true
  · obtain ⟨q, hq⟩ := hjoin (f.add d) hne
    rw [if_pos hentire, hq]
    refine ⟨_, f, some q, rfl, ?_, hf, ?_⟩
    · have hremove := hinv.remove hself
      have hidem : ∀ l, ({ s₁.setFragments d.2.fragmentKey (some (f.add d)) with
          timeoutEventList := l }.setFragments d.2.fragmentKey none) =
            { s₁ with timeoutEventList := l }.setFragments d.2.fragmentKey none := by
        intro l
        unfold setFragments
        dsimp only
        rw [Function.update_idem]
      rw [hidem] at hremove
      exact hremove
    · intro k
      by_cases hk : k = d.2.fragmentKey
      · subst hk
        rw [setFragments_self, if_pos rfl, if_pos hentire]
      · rw [setFragments_of_ne _ hk, if_neg hk]
        exact hother k hk
  · rw [if_neg hentire]
    refine ⟨_, f, none, rfl, hinv, hf, ?_⟩
    intro k
    by_cases hk : k = d.2.fragmentKey
    · subst hk
      rw [setFragments_self, if_pos rfl, if_neg hentire]
    · rw [setFragments_of_ne _ hk, if_neg hk]
      exact hother k hk

/-- What the loop of `HandleTimeout` does: it drops what is due, from the front. -/
structure Expired (s : FragmentTable) (gone rest : List FragmentTimeout) (t : FragmentTable) :
    Prop where
  fragments : ∀ k, t.fragments k = if k ∈ gone.map (·.key) then none else s.fragments k
  list : t.timeoutEventList = rest
  now : t.now = s.now
  events : t.events = s.events
  nextNode : t.nextNode = s.nextNode
  due : ∀ e ∈ gone, e.expiry = s.now
  front : ∀ e l, rest = e :: l → e.expiry ≠ s.now
  keep : ∀ drop ∈ s.drops, drop ∈ t.drops
  dropped : ∀ e ∈ gone, ∀ f, s.fragments e.key = some f → ∃ drop ∈ t.drops, drop.time = s.now ∧
    drop.key = e.key ∧ f.fragments.getPartialPacket = some drop.packet

theorem expire_spec (l : List FragmentTimeout) (s : FragmentTable)
    (hheld : ∀ e ∈ l, ∃ f, s.fragments e.key = some f ∧ f.fragments.fragments ≠ [])
    (hkeys : (l.map (·.key)).Nodup) :
    ∃ t gone rest, expire l s = some t ∧ l = gone ++ rest ∧ Expired s gone rest t := by
  induction l generalizing s with
  | nil =>
    refine ⟨_, [], [], rfl, rfl, ⟨?_, rfl, rfl, rfl, rfl, ?_, ?_, fun _ h => h, ?_⟩⟩
    · intro k
      rfl
    · intro e he
      exact absurd he List.not_mem_nil
    · intro e l hl
      cases hl
    · intro e he
      exact absurd he List.not_mem_nil
  | cons e l ih =>
    unfold expire
    by_cases hdue : e.expiry = s.now
    · obtain ⟨f, hf, hne⟩ := hheld e List.mem_cons_self
      obtain ⟨q, hq⟩ := Fragments.getPartialPacket_isSome hne
      obtain ⟨hnew, hkeys⟩ := List.nodup_cons.mp hkeys
      let drop : FragmentDrop := ⟨s.now, e.key, e.ipHeader, q, e.iif⟩
      have hone : s.handleFragmentsTimeout e =
          some ({ s with drops := s.drops ++ [drop] }.setFragments e.key none) := by
        unfold handleFragmentsTimeout
        rw [hf]
        dsimp only [bind, Option.bind]
        rw [hq]
      have hother {k : FragmentKey} (hk : k ≠ e.key) :
          ({ s with drops := s.drops ++ [drop] }.setFragments e.key none).fragments k =
            s.fragments k := setFragments_of_ne _ hk _
      have hkey {x : FragmentTimeout} (hx : x ∈ l) : x.key ≠ e.key := by
        intro hxe
        exact hnew (List.mem_map.mpr ⟨x, hx, hxe⟩)
      rw [if_pos hdue, hone, Option.bind_some]
      obtain ⟨t, gone, rest, ht, hl, hexp⟩ := ih
        ({ s with drops := s.drops ++ [drop] }.setFragments e.key none)
        (fun x hx => by rw [hother (hkey hx)]; exact hheld x (List.mem_cons_of_mem e hx)) hkeys
      refine ⟨t, e :: gone, rest, ht, by rw [hl]; rfl, ?_, hexp.list, hexp.now, hexp.events,
        hexp.nextNode, ?_, hexp.front, ?_, ?_⟩
      · intro k
        rw [hexp.fragments k, List.map_cons]
        by_cases hk : k = e.key
        · rw [hk, if_pos List.mem_cons_self, setFragments_self, ite_self]
        · rw [hother hk]
          refine if_congr ?_ rfl rfl
          rw [List.mem_cons, or_iff_right hk]
      · intro x hx
        rcases List.mem_cons.mp hx with rfl | hx
        · exact hdue
        · exact hexp.due x hx
      · intro d hd
        exact hexp.keep d (List.mem_append_left _ hd)
      · intro x hx g hg
        rcases List.mem_cons.mp hx with rfl | hx
        · have hfg : f = g := Option.some.inj (hf.symm.trans hg)
          subst hfg
          exact ⟨drop, hexp.keep drop (List.mem_append_right _ (List.mem_singleton_self _)), rfl,
            rfl, hq⟩
        · have hxl : x ∈ l := hl ▸ List.mem_append_left _ hx
          exact hexp.dropped x hx g ((hother (hkey hxl)).trans hg)
    · rw [if_neg hdue]
      refine ⟨_, [], e :: l, rfl, rfl, ⟨fun _ => rfl, rfl, rfl, rfl, rfl, ?_, ?_, fun _ h => h, ?_⟩⟩
      · intro x hx
        exact absurd hx List.not_mem_nil
      · intro x r hx
        rw [← (List.cons.inj hx).1]
        exact hdue
      · intro x hx
        exact absurd hx List.not_mem_nil

/-- What is held after a timeout has been handled, and what has been dropped. -/
structure TimedOut (timeout : Nat) (s t : FragmentTable) : Prop where
  inv : Inv timeout t
  gone : ∀ k f, s.fragments k = some f → f.since + timeout = s.now → t.fragments k = none ∧
    ∃ drop ∈ t.drops, drop.time = s.now ∧ drop.key = k ∧
      f.fragments.getPartialPacket = some drop.packet
  kept : ∀ k f, s.fragments k = some f → f.since + timeout ≠ s.now → t.fragments k = some f
  none : ∀ k, s.fragments k = none → t.fragments k = none

theorem Inv.handleTimeout (h : Inv timeout s) (events : List Nat) :
    ∃ t, { s with events := events }.handleTimeout = some t ∧ TimedOut timeout s t := by
  have hheld : ∀ e ∈ s.timeoutEventList, ∃ f, s.fragments e.key = some f ∧
      f.fragments.fragments ≠ [] := by
    intro e he
    obtain ⟨f, hf⟩ := h.listed e he
    obtain ⟨hcollect, hne⟩ := h.received _ f hf
    exact ⟨f, hf, hcollect ▸ Fragments.fragments_collect_ne_nil hne⟩
  obtain ⟨t, gone, rest, ht, hl, hexp⟩ := expire_spec s.timeoutEventList { s with events := events }
    hheld h.keys
  -- an entry is left exactly when it is not due yet
  have hkeys : (gone.map (·.key) ++ rest.map (·.key)).Nodup := by
    rw [← List.map_append, ← hl]
    exact h.keys
  have hlater : ∀ e ∈ rest, e.expiry ≠ s.now := by
    intro e he
    have hsorted := h.sorted
    rw [hl] at hsorted
    cases hr : rest with
    | nil =>
      rw [hr] at he
      exact absurd he List.not_mem_nil
    | cons e₀ l =>
      have hfirst := hexp.front e₀ l hr
      have hle : e₀.expiry ≤ e.expiry := by
        rw [hr] at he hsorted
        rcases List.mem_cons.mp he with rfl | he
        · exact Nat.le_refl _
        · exact (List.pairwise_cons.mp (List.pairwise_append.mp hsorted).2.1).1 e he
      have hnow : s.now ≤ e₀.expiry := by
        refine h.now_le e₀ ?_
        rw [hl, hr]
        exact List.mem_append_right _ List.mem_cons_self
      have hfirst' : e₀.expiry ≠ s.now := hfirst
      omega
  have hentry {k : FragmentKey} {f : HeldDatagram} (hf : s.fragments k = some f) :
      (k ∈ gone.map (·.key) ∧ f.since + timeout = s.now) ∨
        (k ∈ rest.map (·.key) ∧ k ∉ gone.map (·.key) ∧ f.since + timeout ≠ s.now) := by
    obtain ⟨e, he, hek, -, hexpiry⟩ := h.held k f hf
    rw [hl] at he
    rcases List.mem_append.mp he with he | he
    · left
      exact ⟨List.mem_map.mpr ⟨e, he, hek⟩, hexpiry ▸ hexp.due e he⟩
    · right
      have hk : k ∈ rest.map (·.key) := List.mem_map.mpr ⟨e, he, hek⟩
      refine ⟨hk, ?_, hexpiry ▸ hlater e he⟩
      intro hgone
      exact (List.nodup_append.mp hkeys).2.2 k hgone k hk rfl
  have hfragments : ∀ k, t.fragments k = if k ∈ rest.map (·.key) then s.fragments k else none := by
    intro k
    rw [hexp.fragments k]
    dsimp only
    cases hf : s.fragments k with
    | none => rw [ite_self, ite_self]
    | some f =>
      rcases hentry hf with ⟨hgone, -⟩ | ⟨hk, hgone, -⟩
      · rw [if_pos hgone, if_neg]
        intro hk
        exact (List.nodup_append.mp hkeys).2.2 k hgone k hk rfl
      · rw [if_neg hgone, if_pos hk]
  have hsub : rest.Sublist s.timeoutEventList := by
    rw [hl]
    exact List.sublist_append_right gone rest
  unfold FragmentTable.handleTimeout
  rw [ht, Option.map_some]
  have hresult : ∀ u : FragmentTable, u.fragments = t.fragments → u.drops = t.drops →
      u.timeoutEventList = rest → u.now = s.now → u.nextNode = s.nextNode →
      (∀ e l, rest = e :: l → ∃ v ∈ u.events, v ≤ e.expiry) → TimedOut timeout s u := by
    intro u hu hdrops hlist hnow hnode hpending
    refine ⟨h.restrict hsub hnow hlist hnode (fun k => by rw [hu]; exact hfragments k) hpending,
      ?_, ?_, ?_⟩
    · intro k f hf hdue
      rcases hentry hf with ⟨hgone, -⟩ | ⟨-, -, hnot⟩
      · refine ⟨by rw [hu, hexp.fragments k, if_pos hgone], ?_⟩
        obtain ⟨e, he, rfl⟩ := List.mem_map.mp hgone
        rw [hdrops]
        exact hexp.dropped e he f hf
      · exact absurd hdue hnot
    · intro k f hf hnot
      rcases hentry hf with ⟨-, hdue⟩ | ⟨-, hgone, -⟩
      · exact absurd hdue hnot
      · rw [hu, hexp.fragments k, if_neg hgone]
        exact hf
    · intro k hk
      rw [hu, hfragments, hk, ite_self]
  have hlist := hexp.list
  cases hr : rest with
  | nil =>
    rw [hr] at hlist
    rw [hlist]
    refine ⟨t, rfl, hresult t rfl rfl (hlist.trans hr.symm) hexp.now hexp.nextNode ?_⟩
    intro e l hel
    rw [hr] at hel
    cases hel
  | cons e l =>
    rw [hr] at hlist
    rw [hlist]
    dsimp only
    refine ⟨_, rfl, hresult _ rfl rfl hr.symm hexp.now hexp.nextNode ?_⟩
    intro e' l' hel
    rw [hr] at hel
    obtain ⟨rfl, -⟩ := List.cons.inj hel
    have hnow : s.now ≤ e.expiry := by
      refine h.now_le e ?_
      rw [hl, hr]
      exact List.mem_append_right _ List.mem_cons_self
    have hnow' : t.now = s.now := hexp.now
    refine ⟨t.now + (e.expiry - t.now), List.mem_append_right _ (List.mem_singleton_self _), ?_⟩
    omega

theorem Inv.arrive (h : Inv timeout s) (d : Datagram) (iif : Nat) :
    ∃ t, s.step timeout (.arrive d iif) = some t ∧ Inv timeout t ∧
      DiscardLaw timeout s (.arrive d iif) t := by
  obtain ⟨t, f, out, ht, hinv, hf, hfragments⟩ := h.processFragment d iif
  refine ⟨t, ?_, hinv, ?_, ?_, ?_⟩
  · rw [step, ht, Option.map_some]
  · intro k g hg
    rw [hfragments k]
    by_cases hk : k = d.2.fragmentKey
    · subst hk
      have hfg : f = g := by
        rcases hf with hf | ⟨hf, -⟩
        · exact Option.some.inj (hf.symm.trans hg)
        · rw [hf] at hg
          cases hg
      subst hfg
      rw [if_pos rfl]
      constructor
      · intro hgone
        left
        refine ⟨d, iif, rfl, rfl, ?_⟩
        by_contra hnot
        rw [if_neg hnot] at hgone
        cases hgone
      · rintro (⟨d', iif', hi, -, hentire⟩ | ⟨hi, -⟩)
        · cases hi
          rw [if_pos hentire]
        · cases hi
    · rw [if_neg hk, hg]
      refine iff_of_false (by simp) ?_
      rintro (⟨d', iif', hi, hkey, -⟩ | ⟨hi, -⟩)
      · cases hi
        exact hk hkey.symm
      · cases hi
  · intro k g _ hi
    cases hi
  · intro k g hg
    rw [hfragments k] at hg
    by_cases hk : k = d.2.fragmentKey
    · rw [if_pos hk] at hg
      split at hg
      · cases hg
      · obtain rfl := Option.some.inj hg
        subst hk
        rcases hf with hf | ⟨hf, rfl⟩
        · exact .inr ⟨f, hf, rfl⟩
        · exact .inl ⟨hf, rfl⟩
    · rw [if_neg hk] at hg
      exact .inr ⟨g, hg, rfl⟩

/-- Whatever happens, nothing fails, and a datagram goes only by the law. -/
theorem Inv.step (h : Inv timeout s) {i : FragmentStep} (hi : s.Occurs i) :
    ∃ t, s.step timeout i = some t ∧ Inv timeout t ∧ DiscardLaw timeout s i t := by
  cases i with
  | arrive d iif => exact h.arrive d iif
  | advance time =>
    refine ⟨_, rfl, h.advance hi.1 hi.2, ?_, ?_, ?_⟩
    · intro k f hf
      refine iff_of_false ?_ ?_
      · rw [hf]
        simp
      · rintro (⟨d, iif, hstep, -⟩ | ⟨hstep, -⟩)
        · cases hstep
        · cases hstep
    · intro k f _ hstep
      cases hstep
    · intro k f hf
      exact .inr ⟨f, hf, rfl⟩
  | timeout =>
    obtain ⟨t, ht, hout⟩ := h.handleTimeout (s.events.erase s.now)
    refine ⟨t, ht, hout.inv, ?_, ?_, ?_⟩
    · intro k f hf
      by_cases hdue : f.since + timeout = s.now
      · exact iff_of_true (hout.gone k f hf hdue).1 (.inr ⟨rfl, hdue.symm⟩)
      · refine iff_of_false ?_ ?_
        · rw [hout.kept k f hf hdue]
          simp
        · rintro (⟨d, iif, hstep, -⟩ | ⟨-, hnow⟩)
          · cases hstep
          · exact hdue hnow.symm
    · intro k f hf _ hdue
      exact (hout.gone k f hf hdue.symm).2
    · intro k f hf
      cases hold : s.fragments k with
      | none =>
        rw [hout.none k hold] at hf
        cases hf
      | some g =>
        right
        by_cases hdue : g.since + timeout = s.now
        · rw [(hout.gone k g hold hdue).1] at hf
          cases hf
        · rw [hout.kept k g hold hdue] at hf
          exact ⟨g, rfl, by rw [Option.some.inj hf]⟩

instance (s : FragmentTable) : (i : FragmentStep) → Decidable (s.Occurs i)
  | .arrive _ _ => .isTrue trivial
  | .advance time => inferInstanceAs (Decidable (s.now ≤ time ∧ ∀ t ∈ s.events, time ≤ t))
  | .timeout => inferInstanceAs (Decidable (s.now ∈ s.events))

/-- In every run the timers match the table, a datagram goes only by the law, and its partial
packet is right. -/
theorem fragment_timers (timeout : Nat) (run : List FragmentStep)
    (h : Transition.Along (FragmentTable.step timeout) Occurs {} run) :
    ∃ s, Transition.exec (FragmentTable.step timeout) {} run = some s ∧ s.TimersMatch timeout ∧
      (∀ i, s.Occurs i → ∃ t, s.step timeout i = some t ∧ DiscardLaw timeout s i t) ∧
      s.PartialRightWithin := by
  obtain ⟨s, hs, hinv, -⟩ := Transition.exec_along (Inv timeout) (fun _ => ()) (fun _ _ => ())
    (fun s i hinv hi => by
      obtain ⟨t, ht, htinv, -⟩ := hinv.step hi
      exact ⟨t, ht, htinv, rfl⟩) (Inv.start timeout) h
  refine ⟨s, hs, hinv.timersMatch, ?_, hinv.partialRight⟩
  intro i hi
  obtain ⟨t, ht, -, hlaw⟩ := hinv.step hi
  exact ⟨t, ht, hlaw⟩

/-- A fragment of one of two datagrams; more are to follow. -/
def part (identification : BitVec 16) (offset : BitVec 16) (data : List UInt8) : Datagram :=
  (data, ⟨BitVec.ofNat 16 data.length, identification, 64, 17, 2, offset, 0x0a000001, 0x0a000002,
    20⟩)

/-- Two datagrams of which only parts come, the second while the time of the first runs. -/
def twoDatagrams : List FragmentStep :=
  [.arrive (part 1 0 [1, 2, 3, 4, 5, 6, 7, 8]) 0, .advance 10, .arrive (part 2 0 [9]) 0,
    .arrive (part 1 16 [3]) 0, .advance 30, .timeout, .advance 40, .timeout]

theorem fragment_timers_sample : ∃ s,
    Transition.exec (FragmentTable.step 30) {} twoDatagrams = some s ∧ s.TimersMatch 30 ∧
    (∀ i, s.Occurs i → ∃ t, s.step 30 i = some t ∧ DiscardLaw 30 s i t) ∧ s.PartialRightWithin :=
  fragment_timers 30 twoDatagrams (by decide +kernel)

/-- Three fragments, the second of which ends at 65536. -/
def threeParts (a b c : List UInt8) : List Datagram :=
  [part 1 0 a, part 1 65512 b, part 1 65528 c]

/-- The end of the second one is not seen in 16 bits, and the third one is left out. -/
theorem partial_threeParts {a b c : List UInt8} (ha : a.length = 65512) (hb : b.length = 24) :
    (Fragments.collect (threeParts a b c)).getPartialPacket = some (a ++ b) := by
  have hcollect : (Fragments.collect (threeParts a b c)).fragments =
      [(a, 0), (b, 65512), (c, 65528)] := rfl
  have h0 : (getSize []).setWidth 16 = 0 := rfl
  have h1 : (getSize a).setWidth 16 = 65512 := by
    rw [getSize, ha]
    rfl
  have h2 : (getSize (a ++ b)).setWidth 16 = 0 := by
    rw [getSize, List.length_append, ha, hb]
    rfl
  unfold Fragments.getPartialPacket
  rw [hcollect]
  simp [Fragments.partialFrom, h0, h1, h2]

theorem isLastFragment_part (i o : BitVec 16) (data : List UInt8) :
    (part i o data).2.isLastFragment = false := by
  have hflags : ((2 : BitVec 3) &&& Ipv4Header.moreFragmentsFlag == 0) = false := by decide
  exact hflags

theorem step_arrive_first {d : Datagram} (hnone : s.fragments d.2.fragmentKey = none)
    (hmore : d.2.isLastFragment = false) (iif : Nat) :
    ∃ t, s.step timeout (.arrive d iif) = some t ∧
      t.fragments d.2.fragmentKey = some ⟨Fragments.collect [d], s.nextNode, s.now, [d]⟩ := by
  have hopen : (HeldDatagram.add ⟨.new, s.nextNode, s.now, []⟩ d).fragments.isEntire = false := by
    have hflag : (HeldDatagram.add ⟨.new, s.nextNode, s.now, []⟩ d).fragments.moreFragment =
        !d.2.isLastFragment := rfl
    rw [Fragments.isEntire, hflag, hmore]
    rfl
  refine ⟨(s.setTimeout timeout d.2.fragmentKey d.2 iif).setFragments d.2.fragmentKey _, ?_,
    setFragments_self _ _ _⟩
  simp only [step, processFragment, findOrCreate, hnone, hopen]
  rfl

theorem step_arrive_next {d : Datagram} {f : HeldDatagram}
    (hf : s.fragments d.2.fragmentKey = some f) (hmore : (f.add d).fragments.moreFragment = true)
    (iif : Nat) : ∃ t, s.step timeout (.arrive d iif) = some t ∧
      t.fragments d.2.fragmentKey = some (f.add d) := by
  have hopen : (f.add d).fragments.isEntire = false := by
    rw [Fragments.isEntire, hmore]
    rfl
  refine ⟨s.setFragments d.2.fragmentKey _, ?_, setFragments_self _ _ _⟩
  simp only [step, processFragment, findOrCreate, hf, hopen]
  rfl

/-- None of the three is the last fragment, so they are only put together. -/
theorem exec_threeParts (a b c : List UInt8) : ∃ s h, Transition.exec (FragmentTable.step 30) {}
    ((threeParts a b c).map fun d => .arrive d 0) = some s ∧
      s.fragments (part 1 0 []).2.fragmentKey = some h ∧
      h.fragments = Fragments.collect (threeParts a b c) ∧ h.received = threeParts a b c := by
  obtain ⟨s, hs, hfirst⟩ := @step_arrive_first 30 {} (part 1 0 a) rfl
    (isLastFragment_part 1 0 a) 0
  obtain ⟨t, ht, hsecond⟩ := @step_arrive_next 30 s (part 1 65512 b) _ hfirst (by
    have hflag := isLastFragment_part 1 65512 b
    exact (congrArg not hflag).trans rfl) 0
  obtain ⟨u, hu, hthird⟩ := @step_arrive_next 30 t (part 1 65528 c) _ hsecond (by
    have hflag := isLastFragment_part 1 65528 c
    exact (congrArg not hflag).trans rfl) 0
  refine ⟨u, _, ?_, hthird, rfl, rfl⟩
  rw [threeParts, List.map_cons, List.map_cons, List.map_cons, Transition.exec_cons_eq_some]
  refine ⟨s, hs, Transition.exec_cons_eq_some.mpr ⟨t, ht, ?_⟩⟩
  exact Transition.exec_cons_eq_some.mpr ⟨u, hu, rfl⟩

theorem partial_packet_short : ∃ s, Transition.exec (FragmentTable.step 30) {}
    ((threeParts (List.replicate 65512 0) (List.replicate 24 0) (List.replicate 16 0)).map
      fun d => .arrive d 0) = some s ∧ ¬s.PartialRight := by
  have hshort (a b c : List UInt8) (ha : a.length = 65512) (hb : b.length = 24)
      (hc : c.length = 16) : ∃ s, Transition.exec (FragmentTable.step 30) {}
        ((threeParts a b c).map fun d => .arrive d 0) = some s ∧ ¬s.PartialRight := by
    obtain ⟨s, h, hs, hh, hfragments, hreceived⟩ := exec_threeParts a b c
    refine ⟨s, hs, ?_⟩
    intro hright
    obtain ⟨q, hq, hlongest⟩ := hright _ h hh
    rw [hfragments, partial_threeParts ha hb] at hq
    have hlen : q.length = 65536 := by
      rw [← Option.some.inj hq, List.length_append, ha, hb]
    have hlast : Datagram.piece (part 1 65528 c) ∈ h.received.map Datagram.piece := by
      rw [hreceived]
      exact List.mem_cons_of_mem _ (List.mem_cons_of_mem _ List.mem_cons_self)
    have hstart : (Datagram.piece (part 1 65528 c)).start = 65528 := rfl
    have hstop : (Datagram.piece (part 1 65528 c)).stop = 65528 + c.length := rfl
    refine hlongest.stops ⟨_, hlast, ?_, ?_⟩
    · rw [hlen, hstart]
      decide +kernel
    · rw [hlen, hstop, hc]
      decide +kernel
  exact hshort _ _ _ List.length_replicate List.length_replicate List.length_replicate

end FragmentTable

end CudaNs3.Internet
