import CudaNs3.Device.BridgedPointToPoint
import CudaNs3.Lib.Transition

/-!
# Frames over a bridged point-to-point link

What one side has sent is at every moment received, on its way or queued, in this order. A
device is BUSY as long as the end of its last transmission is pending, and takes the next frame
from its queue there.
-/

namespace CudaNs3.Device.BridgedP2P

set_option autoImplicit false

/-! ## Headers and trailers -/

namespace EthernetHeader
open Words

theorem length_serialize (h : EthernetHeader) : h.serialize.length = size := by
  simp [serialize, size]

theorem deserialize_serialize (h : EthernetHeader) (rest : List UInt8) :
    deserialize (h.serialize ++ rest) = some h := by
  have hdst : readWord (h.serialize ++ rest) 0 6 = some h.destination.toNat := by
    apply readWord_of_drop h.destination.isLt
    rw [List.drop_zero, serialize, List.append_assoc, List.append_assoc]
  have hsrc : readWord (h.serialize ++ rest) 6 6 = some h.source.toNat := by
    apply readWord_of_drop h.source.isLt
    rw [serialize, List.append_assoc, List.append_assoc]
    exact List.drop_left' length_toBytes
  have htype : readWord (h.serialize ++ rest) 12 2 = some h.lengthType.toNat := by
    apply readWord_of_drop h.lengthType.isLt
    rw [serialize, List.append_assoc]
    exact List.drop_left' (by simp)
  simp [deserialize, hdst, hsrc, htype]

end EthernetHeader

namespace EthernetTrailer
open Words

theorem length_serialize (fcs : BitVec 32) : (serialize fcs).length = size := by
  simp [serialize, size]

theorem deserialize_serialize (fcs : BitVec 32) : deserialize (serialize fcs) = fcs := by
  rw [deserialize, serialize, List.reverse_reverse, ofBytes_toBytes fcs.isLt,
    BitVec.ofNat_toNat, BitVec.setWidth_eq]

end EthernetTrailer

@[simp] theorem Side.other_other (d : Side) : d.other.other = d := by
  cases d with
  | first => rfl
  | second => rfl

theorem Side.other_inj {d e : Side} (h : d.other = e.other) : d = e := by
  rw [← d.other_other, h, e.other_other]

namespace State
variable (link : Link)

/-- What the reception of a frame passes up. -/
def expected (d : Side) (f : Frame) : List Upcall :=
  (if link.promiscuous d then
    [.promiscuous f.payload f.protocol f.source f.destination
      (packetType link d ⟨f.destination, f.source, f.protocol⟩)] else []) ++
    [.receive f.payload f.protocol (link.address d.other)]

theorem upcalls_addHeader (d : Side) (f : Frame) :
    upcalls link d (addHeader link f) = some (expected link d f) := by
  set header : EthernetHeader := ⟨f.destination, f.source, f.protocol⟩ with hheader
  set packet := header.serialize ++ f.payload with hpacket
  set fcs := if link.checksumEnabled then link.crc32Calculate packet else 0 with hfcs
  have hadd : addHeader link f = packet ++ EthernetTrailer.serialize fcs := rfl
  have htrailer := EthernetTrailer.length_serialize fcs
  have hlen : (addHeader link f).length = packet.length + EthernetTrailer.size := by
    rw [hadd, List.length_append, htrailer]
  have hat : (addHeader link f).length - EthernetTrailer.size = packet.length := by omega
  have htake : (addHeader link f).take packet.length = packet := by rw [hadd, List.take_left]
  have hdrop : (addHeader link f).drop packet.length = EthernetTrailer.serialize fcs := by
    rw [hadd, List.drop_left]
  have hchecks : ¬ (link.checksumEnabled ∧ fcs ≠ link.crc32Calculate packet) := by
    rintro ⟨hon, hne⟩
    rw [hfcs, if_pos hon] at hne
    exact hne rfl
  have hpayload : packet.drop EthernetHeader.size = f.payload := by
    rw [hpacket, ← EthernetHeader.length_serialize header, List.drop_left]
  unfold upcalls
  rw [if_neg (by omega), hat]
  dsimp only
  rw [htake, hdrop, EthernetTrailer.deserialize_serialize, if_neg hchecks, hpacket,
    EthernetHeader.deserialize_serialize, Option.map_some, ← hpacket, hpayload]
  rfl

/-! ## One side of the link -/

def isComplete (d : Side) (e : Event) : Bool := e.action = .transmitComplete d

def isReceive (d : Side) (e : Event) : Bool :=
  match e.action with
  | .receive target _ => target = d
  | .transmitComplete _ => false

/-- The time at which a device is free again after a transmission. -/
def freeAt (d : Side) (b : Nat × List UInt8) : Nat :=
  b.1 + (link.txTime d b.2.length + link.interframeGap d)

def arrivesAt (d : Side) (b : Nat × List UInt8) : Nat := b.1 + (link.txTime d b.2.length + link.delay)

def arrival (d : Side) (b : Nat × List UInt8) : Event := ⟨arrivesAt link d b, .receive d.other b.2⟩

/-- What a device has sent and the other has received, apart from the device itself. -/
structure Carries (s : State) (d : Side) : Prop where
  linkUp : (s.device d).linkUp = true
  spaced : (s.begun d).Pairwise fun x y => freeAt link d x ≤ y.1
  pending : s.events.filter (isReceive d.other) =
    ((s.begun d).drop (s.received d.other).length).map (arrival link d)
  received : (s.received d.other).map (fun r => (r.1, some r.2)) =
    ((s.begun d).take (s.received d.other).length).map fun b =>
      (arrivesAt link d b, upcalls link d.other b.2)

/-- A device whose next transmissions are those of the given packets. -/
structure Free (s : State) (d : Side) (packets : List (List UInt8)) : Prop where
  state : (s.device d).txMachineState = .ready
  complete : s.events.filter (isComplete d) = []
  sent : (s.accepted d).map (addHeader link) = (s.begun d).map Prod.snd ++ packets
  begunOver : ∀ b ∈ s.begun d, freeAt link d b ≤ s.now

structure Busy (s : State) (d : Side) : Prop where
  state : (s.device d).txMachineState = .busy
  currentPkt : (s.device d).currentPkt ≠ none
  complete : ∃ prior b, s.begun d = prior ++ [b] ∧
    s.events.filter (isComplete d) = [⟨freeAt link d b, .transmitComplete d⟩]
  sent : (s.accepted d).map (addHeader link) =
    (s.begun d).map Prod.snd ++ (s.device d).queue.packets

structure Inv (s : State) : Prop where
  inOrder : Agenda.InOrder Event.ts s.events
  future : ∀ e ∈ s.events, s.now ≤ e.ts
  carries : ∀ d, s.Carries link d
  device : ∀ d, (s.device d).queue.packets = [] ∧ s.Free link d [] ∨ s.Busy link d

variable {link} {s t : State} {d : Side}

/-- Two states look alike from one side. -/
structure Alike (s t : State) (d : Side) : Prop where
  device : t.device d = s.device d
  begun : t.begun d = s.begun d
  accepted : t.accepted d = s.accepted d
  received : t.received d.other = s.received d.other
  complete : t.events.filter (isComplete d) = s.events.filter (isComplete d)
  pending : t.events.filter (isReceive d.other) = s.events.filter (isReceive d.other)
  now : s.now ≤ t.now

theorem Carries.congr (h : s.Carries link d) (ha : Alike s t d) : t.Carries link d := by
  constructor
  · rw [ha.device]
    exact h.linkUp
  · rw [ha.begun]
    exact h.spaced
  · rw [ha.pending, ha.begun, ha.received]
    exact h.pending
  · rw [ha.begun, ha.received]
    exact h.received

theorem Free.congr {packets : List (List UInt8)} (h : s.Free link d packets) (ha : Alike s t d) :
    t.Free link d packets := by
  constructor
  · rw [ha.device]
    exact h.state
  · rw [ha.complete]
    exact h.complete
  · rw [ha.accepted, ha.begun]
    exact h.sent
  · rw [ha.begun]
    exact fun b hb => (h.begunOver b hb).trans ha.now

theorem Busy.congr (h : s.Busy link d) (ha : Alike s t d) : t.Busy link d := by
  constructor
  · rw [ha.device]
    exact h.state
  · rw [ha.device]
    exact h.currentPkt
  · rw [ha.begun, ha.complete]
    exact h.complete
  · rw [ha.accepted, ha.begun, ha.device]
    exact h.sent

theorem Inv.device_congr (h : s.Inv link) (ha : Alike s t d) :
    (t.device d).queue.packets = [] ∧ t.Free link d [] ∨ t.Busy link d := by
  rcases h.device d with ⟨hqueue, hfree⟩ | hbusy
  · rw [ha.device]
    exact Or.inl ⟨hqueue, hfree.congr ha⟩
  · exact Or.inr (hbusy.congr ha)

/-- A free device begins to transmit the first of its packets, and keeps the others queued. -/
theorem transmitStart_spec {packet : List UInt8} (horder : Agenda.InOrder Event.ts s.events)
    (hfuture : ∀ e ∈ s.events, s.now ≤ e.ts) (hcarries : s.Carries link d)
    (hfree : s.Free link d (packet :: (s.device d).queue.packets)) :
    ∃ t, s.transmitStart link d packet = some t ∧ Agenda.InOrder Event.ts t.events ∧
      (∀ e ∈ t.events, t.now ≤ e.ts) ∧ t.Carries link d ∧ t.Busy link d ∧
      (∀ e, e ≠ d → Alike s t e) ∧ t.accepted = s.accepted ∧
      t.events.length = s.events.length + 2 ∧ t.device = Function.update s.device d
        { s.device d with txMachineState := .busy, currentPkt := some packet } := by
  set b : Nat × List UInt8 := (s.now, packet) with hb
  set complete : Event := ⟨freeAt link d b, .transmitComplete d⟩ with hcomplete
  set events := Agenda.schedule Event.ts complete s.events with hevents
  set device : NetDevice :=
    { s.device d with txMachineState := .busy, currentPkt := some packet } with hdevice
  set t : State :=
    { s with
      device := Function.update s.device d device
      begun := Function.update s.begun d (s.begun d ++ [b])
      events := Agenda.schedule Event.ts (arrival link d b) events } with ht
  have hstart : s.transmitStart link d packet = some t := by
    rw [transmitStart, if_pos hfree.state]
    rfl
  have hnotComplete (e : Side) : isComplete e (arrival link d b) = false := by
    simp [isComplete, arrival]
  have hnotReceive (e : Side) : isReceive e complete = false := rfl
  have hpending : events.filter (isReceive d.other) =
      ((s.begun d).drop (s.received d.other).length).map (arrival link d) := by
    rw [hevents, Agenda.filter_schedule_of_not (hnotReceive _), hcarries.pending]
  have hn : (s.received d.other).length ≤ (s.begun d).length := by
    have hlen := congrArg List.length hcarries.received
    rw [List.length_map, List.length_map, List.length_take] at hlen
    omega
  have horder₁ : Agenda.InOrder Event.ts events := horder.schedule complete
  refine ⟨t, hstart, horder₁.schedule _, ?_, ⟨?_, ?_, ?_, ?_⟩, ⟨?_, ?_, ?_, ?_⟩, ?_, rfl, ?_, rfl⟩
  · intro e he
    rcases Agenda.mem_schedule.mp he with rfl | he
    · exact Nat.le_add_right _ _
    · rcases Agenda.mem_schedule.mp he with rfl | he
      · exact Nat.le_add_right _ _
      · exact hfuture e he
  · simpa [ht, hdevice] using hcarries.linkUp
  · simp only [ht, Function.update_self]
    rw [List.pairwise_append]
    refine ⟨hcarries.spaced, List.pairwise_singleton _ _, ?_⟩
    intro x hx y hy
    obtain rfl := List.mem_singleton.mp hy
    exact hfree.begunOver x hx
  · simp only [ht, Function.update_self]
    rw [Agenda.filter_schedule_last horder₁ (by simp [isReceive, arrival]), hpending,
      List.drop_append_of_le_length hn, List.map_append]
    · rfl
    · intro x hx hrec
      have hin := List.mem_filter.mpr ⟨hx, hrec⟩
      rw [hpending] at hin
      obtain ⟨a, ha, rfl⟩ := List.mem_map.mp hin
      have hover := hfree.begunOver a (List.mem_of_mem_drop ha)
      simp only [arrival, arrivesAt, freeAt, hb] at hover ⊢
      omega
  · simp only [ht, Function.update_self]
    rw [List.take_append_of_le_length hn]
    exact hcarries.received
  · simp [ht, hdevice]
  · simp [ht, hdevice]
  · refine ⟨s.begun d, b, by simp [ht], ?_⟩
    rw [ht]
    dsimp only
    rw [Agenda.filter_schedule_of_not (hnotComplete d), hevents,
      Agenda.filter_schedule_last horder (by simp [isComplete, hcomplete]), hfree.complete]
    · rfl
    · intro x hx hcomp
      have hin := List.mem_filter.mpr ⟨hx, hcomp⟩
      rw [hfree.complete] at hin
      cases hin
  · simp only [ht, Function.update_self, List.map_append, hfree.sent]
    simp [hb, hdevice]
  · intro e he
    have hne : e.other ≠ d.other := fun heq => he (Side.other_inj heq)
    constructor
    · simp [ht, he]
    · simp [ht, he]
    · rfl
    · rfl
    · rw [ht]
      dsimp only
      rw [Agenda.filter_schedule_of_not (hnotComplete e), hevents,
        Agenda.filter_schedule_of_not (by simp [isComplete, hcomplete, he.symm])]
    · rw [ht]
      dsimp only
      rw [Agenda.filter_schedule_of_not (by simp [isReceive, arrival, hne.symm]), hevents,
        Agenda.filter_schedule_of_not (hnotReceive _)]
    · exact le_refl _
  · simp [ht, hevents, (Agenda.schedule_perm _ _).length_eq]

theorem Alike.trans {u : State} (h : Alike s t d) (h' : Alike t u d) : Alike s u d :=
  ⟨h'.device.trans h.device, h'.begun.trans h.begun, h'.accepted.trans h.accepted,
    h'.received.trans h.received, h'.complete.trans h.complete, h'.pending.trans h.pending,
    h.now.trans h'.now⟩

/-- What is left to show of a step is what it does on the side it is taken on. -/
theorem Inv.of_alike (h : s.Inv link) (horder : Agenda.InOrder Event.ts t.events)
    (hfuture : ∀ e ∈ t.events, t.now ≤ e.ts) (halike : ∀ e, e ≠ d → Alike s t e)
    (hcarries : t.Carries link d)
    (hdevice : (t.device d).queue.packets = [] ∧ t.Free link d [] ∨ t.Busy link d) : t.Inv link := by
  refine ⟨horder, hfuture, ?_, ?_⟩
  · intro e
    by_cases he : e = d
    · exact he ▸ hcarries
    · exact (h.carries e).congr (halike e he)
  · intro e
    by_cases he : e = d
    · exact he ▸ hdevice
    · exact h.device_congr (halike e he)

theorem Free.not_busy {packets : List (List UInt8)} (h : s.Free link d packets)
    (hbusy : s.Busy link d) : False := by
  have hstate := hbusy.state
  rw [h.state] at hstate
  cases hstate

theorem sendFrom_spec (h : s.Inv link) (d : Side) (f : Frame) :
    ∃ r, s.sendFrom link d f = some r ∧ r.1.Inv link := by
  unfold sendFrom
  rw [if_pos (h.carries d).linkUp]
  cases hq : (s.device d).queue.enqueue (addHeader link f) with
  | none => exact ⟨_, rfl, h⟩
  | some queue =>
    have hpackets : queue.packets = (s.device d).queue.packets ++ [addHeader link f] := by
      unfold DropTailQueue.enqueue at hq
      split at hq
      · cases hq
      · rw [← Option.some.inj hq]
    dsimp only
    set s₁ : State := { s with accepted := Function.update s.accepted d (s.accepted d ++ [f]) }
      with hs₁
    -- whatever becomes of the queue, nothing else is done before a transmission begins
    have halike (device : NetDevice) (e : Side) (he : e ≠ d) : Alike s (s₁.setDevice d device) e := by
      refine ⟨?_, rfl, ?_, rfl, rfl, rfl, le_refl _⟩
      · simp [setDevice, hs₁, he]
      · simp [setDevice, hs₁, he]
    have hcarries (queue : DropTailQueue) :
        (s₁.setDevice d { s.device d with queue := queue }).Carries link d := by
      obtain ⟨hlink, hspaced, hpending, hreceived⟩ := h.carries d
      exact ⟨by simpa [setDevice] using hlink, hspaced, hpending, hreceived⟩
    by_cases hready : (s.device d).txMachineState = .ready
    · rcases h.device d with ⟨hempty, hfree⟩ | hbusy
      · rw [hempty, List.nil_append] at hpackets
        have hdequeue : queue.dequeue = some (addHeader link f, { queue with packets := [] }) := by
          rw [DropTailQueue.dequeue, hpackets]
        set s₂ := s₁.setDevice d { s.device d with queue := { queue with packets := [] } } with hs₂
        have hfree₂ : s₂.Free link d (addHeader link f :: (s₂.device d).queue.packets) := by
          refine ⟨?_, hfree.complete, ?_, hfree.begunOver⟩
          · simpa [hs₂, setDevice] using hready
          · have hsent := hfree.sent
            rw [List.append_nil] at hsent
            simp [hs₂, hs₁, setDevice, hsent]
        obtain ⟨t, ht, horder, hfuture, htcarries, htbusy, htalike, -⟩ :=
          transmitStart_spec (s := s₂) h.inOrder h.future (hcarries _) hfree₂
        rw [if_pos hready, hdequeue, Option.bind_some, ht, Option.map_some]
        exact ⟨_, rfl, h.of_alike horder hfuture
          (fun e he => (halike _ e he).trans (htalike e he)) htcarries (Or.inr htbusy)⟩
      · have hstate := hbusy.state
        rw [hready] at hstate
        cases hstate
    · rcases h.device d with ⟨-, hfree⟩ | hbusy
      · exact absurd hfree.state hready
      · rw [if_neg hready]
        refine ⟨_, rfl, h.of_alike h.inOrder h.future (halike _) (hcarries _) (Or.inr ?_)⟩
        refine ⟨?_, ?_, hbusy.complete, ?_⟩
        · simpa [setDevice] using hbusy.state
        · simpa [setDevice] using hbusy.currentPkt
        · simp [setDevice, hs₁, hbusy.sent, hpackets]

section Event
variable {e : Event} {rest : List Event}

/-- It falls with every event called. -/
def load (s : State) : Nat :=
  s.events.length +
    2 * ((s.device .first).queue.packets.length + (s.device .second).queue.packets.length)

theorem load_eq (s : State) (d : Side) : s.load = s.events.length +
    2 * ((s.device d).queue.packets.length + (s.device d.other).queue.packets.length) := by
  cases d with
  | first => rfl
  | second =>
    rw [load, Nat.add_comm (s.device .first).queue.packets.length]
    rfl

/-- The time of the first event has come, and it is no longer pending. -/
def reach (s : State) (e : Event) (rest : List Event) : State := { s with now := e.ts, events := rest }

theorem Inv.reach_order (h : s.Inv link) (hevents : s.events = e :: rest) :
    Agenda.InOrder Event.ts rest ∧ ∀ x ∈ rest, e.ts ≤ x.ts := by
  have horder := h.inOrder
  rw [hevents] at horder
  obtain ⟨hhead, htail⟩ := List.pairwise_cons.mp horder
  exact ⟨htail, hhead⟩

theorem Inv.alike_reach (h : s.Inv link) (hevents : s.events = e :: rest)
    (hcomplete : isComplete d e = false) (hreceive : isReceive d.other e = false) :
    Alike s (s.reach e rest) d := by
  refine ⟨rfl, rfl, rfl, rfl, ?_, ?_, ?_⟩
  · rw [hevents, List.filter_cons_of_neg (by simp [hcomplete])]
    rfl
  · rw [hevents, List.filter_cons_of_neg (by simp [hreceive])]
    rfl
  · exact h.future e (hevents ▸ List.mem_cons_self)

theorem transmitComplete_spec (h : s.Inv link) (hevents : s.events = e :: rest)
    (he : e.action = .transmitComplete d) :
    ∃ t, (s.reach e rest).transmitComplete link d = some t ∧ t.Inv link ∧
      t.accepted = s.accepted ∧ t.load < s.load := by
  have hother : d.other ≠ d := by
    cases d with
    | first => exact nofun
    | second => exact nofun
  obtain ⟨horder, hfuture⟩ := h.reach_order hevents
  have hcomp : isComplete d e = true := by simp [isComplete, he]
  have hreceive (x : Side) : isReceive x e = false := by rw [isReceive, he]
  have hfilter : s.events.filter (isComplete d) = e :: rest.filter (isComplete d) := by
    rw [hevents, List.filter_cons_of_pos hcomp]
  rcases h.device d with ⟨-, hfree⟩ | hbusy
  · rw [hfree.complete] at hfilter
    cases hfilter
  obtain ⟨prior, b, hbegun, hpending⟩ := hbusy.complete
  rw [hpending] at hfilter
  obtain ⟨hfirst, hnone⟩ := List.cons.inj hfilter
  -- the transmission that ends now is the last one
  have hover : ∀ x ∈ s.begun d, freeAt link d x ≤ e.ts := by
    have hts : e.ts = freeAt link d b := by rw [← hfirst]
    have hspaced := (h.carries d).spaced
    rw [hbegun, List.pairwise_append] at hspaced
    intro x hx
    rw [hts]
    rw [hbegun, List.mem_append, List.mem_singleton] at hx
    rcases hx with hx | rfl
    · exact (hspaced.2.2 x hx b (List.mem_singleton_self b)).trans (Nat.le_add_right _ _)
    · exact le_refl _
  have halike (device : NetDevice) (x : Side) (hx : x ≠ d) :
      Alike s ((s.reach e rest).setDevice d device) x := by
    have hreach := h.alike_reach (d := x) hevents (by simp [isComplete, he, hx.symm]) (hreceive _)
    refine hreach.trans ⟨?_, rfl, rfl, rfl, rfl, rfl, le_refl _⟩
    simp [setDevice, hx]
  have hcarries (queue : DropTailQueue) : ((s.reach e rest).setDevice d { s.device d with
      txMachineState := .ready, currentPkt := none, queue := queue }).Carries link d := by
    obtain ⟨hlink, hspaced, hpend, hreceived⟩ := h.carries d
    refine ⟨by simpa [setDevice] using hlink, hspaced, ?_, hreceived⟩
    rw [hevents, List.filter_cons_of_neg (by simp [hreceive])] at hpend
    exact hpend
  have hfree (queue : DropTailQueue) : ((s.reach e rest).setDevice d { s.device d with
      txMachineState := .ready, currentPkt := none, queue := queue }).Free link d
        (s.device d).queue.packets :=
    ⟨by simp [setDevice], hnone.symm, hbusy.sent, hover⟩
  unfold transmitComplete
  rw [if_pos ⟨hbusy.state, hbusy.currentPkt⟩]
  dsimp only
  unfold DropTailQueue.dequeue
  cases hq : (s.device d).queue.packets with
  | nil =>
    have hq' : ((s.reach e rest).device d).queue.packets = [] := hq
    rw [hq']
    refine ⟨_, rfl, h.of_alike horder hfuture (halike _) (hcarries (s.device d).queue)
      (Or.inl ⟨?_, ?_⟩), rfl, ?_⟩
    · simpa [setDevice, reach] using hq
    · have hfree' := hfree (s.device d).queue
      rw [hq] at hfree'
      exact hfree'
    · rw [load_eq _ d, load_eq s d, hevents]
      simp [setDevice, reach, hother]
  | cons packet packets =>
    have hq' : ((s.reach e rest).device d).queue.packets = packet :: packets := hq
    rw [hq']
    dsimp only
    set queue : DropTailQueue := { (s.device d).queue with packets := packets } with hqueue
    have hfree' := hfree queue
    rw [hq] at hfree'
    obtain ⟨t, ht, htorder, htfuture, htcarries, htbusy, htalike, htaccepted, htevents, htdevice⟩ :=
      transmitStart_spec (s := (s.reach e rest).setDevice d { s.device d with
        txMachineState := .ready, currentPkt := none, queue := queue }) horder hfuture (hcarries queue)
        (by simpa [setDevice, hqueue] using hfree')
    refine ⟨t, ht, h.of_alike htorder htfuture
      (fun x hx => (halike _ x hx).trans (htalike x hx)) htcarries (Or.inr htbusy), htaccepted, ?_⟩
    rw [load_eq t d, load_eq s d, htevents, htdevice, hevents]
    simp [setDevice, reach, hother, hq, hqueue]
    omega

theorem receive_spec {packet : List UInt8} (h : s.Inv link) (hevents : s.events = e :: rest)
    (he : e.action = .receive d.other packet) :
    ∃ t, (s.reach e rest).receive link d.other packet = some t ∧ t.Inv link ∧
      t.accepted = s.accepted ∧ t.load < s.load := by
  obtain ⟨horder, hfuture⟩ := h.reach_order hevents
  have hrec : isReceive d.other e = true := by simp [isReceive, he]
  have hcomp (x : Side) : isComplete x e = false := by simp [isComplete, he]
  obtain ⟨hlink, hspaced, hpending, hreceived⟩ := h.carries d
  set n := (s.received d.other).length with hn
  rw [hevents, List.filter_cons_of_pos hrec] at hpending
  cases hdrop : (s.begun d).drop n with
  | nil =>
    rw [hdrop] at hpending
    cases hpending
  | cons b later =>
    rw [hdrop, List.map_cons] at hpending
    obtain ⟨rfl, hlater⟩ := List.cons.inj hpending
    obtain ⟨-, rfl⟩ : d.other = d.other ∧ b.2 = packet := by
      simpa [arrival] using he
    have hlt : n < (s.begun d).length := by
      have hlen := congrArg List.length hdrop
      rw [List.length_drop, List.length_cons] at hlen
      omega
    have hget : (s.begun d)[n] = b := by
      have hhead := List.drop_eq_getElem_cons hlt
      rw [hdrop] at hhead
      exact (List.cons.inj hhead).1.symm
    have hafter : (s.begun d).drop (n + 1) = later := by
      have htail := List.drop_eq_getElem_cons hlt
      rw [hdrop] at htail
      exact (List.cons.inj htail).2.symm
    obtain ⟨calls, hcalls⟩ : ∃ calls, upcalls link d.other b.2 = some calls := by
      have hin : b.2 ∈ (s.accepted d).map (addHeader link) := by
        have hmem : b.2 ∈ (s.begun d).map Prod.snd :=
          List.mem_map_of_mem (hget ▸ List.getElem_mem hlt)
        rcases h.device d with ⟨-, hfree⟩ | hbusy
        · rw [hfree.sent]
          exact List.mem_append_left _ hmem
        · rw [hbusy.sent]
          exact List.mem_append_left _ hmem
      obtain ⟨f, -, hf⟩ := List.mem_map.mp hin
      exact ⟨_, hf ▸ upcalls_addHeader link d.other f⟩
    set t : State :=
      { s.reach (arrival link d b) rest with
        received := Function.update s.received d.other
          (s.received d.other ++ [(arrivesAt link d b, calls)]) } with ht
    have hreach (x : Side) (hx : x ≠ d) : Alike s t x := by
      have hne : x.other ≠ d.other := fun heq => hx (Side.other_inj heq)
      have hfirst := h.alike_reach (d := x) hevents (hcomp x) (by simp [isReceive, arrival, hne.symm])
      refine hfirst.trans ⟨rfl, rfl, rfl, ?_, rfl, rfl, le_refl _⟩
      simp [ht, hne, reach]
    have hcompleteEq : rest.filter (isComplete d) = s.events.filter (isComplete d) := by
      rw [hevents, List.filter_cons_of_neg (by simp [hcomp])]
    have hreceive : (s.reach (arrival link d b) rest).receive link d.other b.2 = some t := by
      rw [receive, hcalls]
      rfl
    have hload : t.load < s.load := by
      rw [load, load, hevents, List.length_cons]
      exact Nat.add_lt_add_right (Nat.lt_succ_self _) _
    refine ⟨t, hreceive, h.of_alike horder hfuture hreach ⟨hlink, hspaced, ?_, ?_⟩ ?_, rfl, hload⟩
    · simp only [ht, Function.update_self, List.length_append, List.length_singleton]
      rw [← hn, show (s.reach (arrival link d b) rest).begun d = s.begun d from rfl, hafter]
      exact hlater
    · simp only [ht, Function.update_self, List.length_append, List.length_singleton]
      rw [← hn, show (s.reach (arrival link d b) rest).begun d = s.begun d from rfl,
        List.take_add_one, List.getElem?_eq_getElem hlt, hget, List.map_append, List.map_append,
        hreceived]
      simp [hcalls]
    · rcases h.device d with ⟨hempty, hfree⟩ | hbusy
      · refine Or.inl ⟨hempty, hfree.state, ?_, hfree.sent, ?_⟩
        · exact hcompleteEq.trans hfree.complete
        · intro x hx
          exact (hfree.begunOver x hx).trans (h.future _ (hevents ▸ List.mem_cons_self))
      · exact Or.inr ⟨hbusy.state, hbusy.currentPkt, hcompleteEq ▸ hbusy.complete, hbusy.sent⟩

end Event

/-! ## Runs -/

theorem event_spec (h : s.Inv link) (hne : s.events ≠ []) :
    ∃ t, s.step link .event = some t ∧ t.Inv link ∧ t.accepted = s.accepted ∧ t.load < s.load := by
  unfold step
  cases hevents : s.events with
  | nil => exact absurd hevents hne
  | cons e rest =>
    dsimp only
    cases he : e.action with
    | transmitComplete d => exact transmitComplete_spec h hevents he
    | receive d packet =>
      rw [← d.other_other] at he ⊢
      exact receive_spec h hevents he

theorem step_spec (h : s.Inv link) (i : Happening) (hi : s.Occurs i) :
    ∃ t, s.step link i = some t ∧ t.Inv link := by
  cases i with
  | send d payload destination protocol =>
    obtain ⟨r, hr, hinv⟩ := sendFrom_spec h d ⟨payload, protocol, link.address d, destination⟩
    refine ⟨r.1, ?_, hinv⟩
    rw [step, send, hr, Option.map_some]
  | sendFrom d f =>
    obtain ⟨r, hr, hinv⟩ := sendFrom_spec h d f
    refine ⟨r.1, ?_, hinv⟩
    rw [step, hr, Option.map_some]
  | wait ts =>
    have halike (d : Side) : Alike s { s with now := ts } d := ⟨rfl, rfl, rfl, rfl, rfl, rfl, hi.1⟩
    exact ⟨_, rfl, h.inOrder, hi.2, fun d => (h.carries d).congr (halike d),
      fun d => h.device_congr (halike d)⟩
  | event =>
    obtain ⟨t, ht, hinv, -⟩ := event_spec h hi
    exact ⟨t, ht, hinv⟩

theorem start_inv (link : Link) (limit : Side → QueueLimit) : (start limit).Inv link := by
  refine ⟨List.Pairwise.nil, nofun, ?_, ?_⟩
  · exact fun d => ⟨rfl, List.Pairwise.nil, rfl, rfl⟩
  · exact fun d => Or.inl ⟨rfl, rfl, rfl, rfl, nofun⟩

/-- When nothing more is sent, the events pending bring everything to the other side. -/
theorem Inv.drains (h : s.Inv link) : ∃ n t,
    Transition.Along (step link) Occurs s (List.replicate n .event) ∧
      Transition.exec (step link) s (List.replicate n .event) = some t ∧ t.Inv link ∧
      t.accepted = s.accepted ∧ t.events = [] := by
  generalize hm : s.load = m
  induction m using Nat.strong_induction_on generalizing s with
  | _ m ih =>
    by_cases hevents : s.events = []
    · exact ⟨0, s, trivial, rfl, h, rfl, hevents⟩
    · obtain ⟨u, hu, huinv, huaccepted, hload⟩ := event_spec h hevents
      obtain ⟨n, t, hoccurs, hexec, hinv, haccepted, hnone⟩ := ih u.load (hm ▸ hload) huinv rfl
      refine ⟨n + 1, t, ⟨hevents, ?_⟩, ?_, hinv, haccepted.trans huaccepted, hnone⟩
      · intro v hv
        rw [hu] at hv
        rw [← Option.some.inj hv]
        exact hoccurs
      · exact Transition.exec_cons_eq_some.mpr ⟨u, hu, hexec⟩

/-- What the link is for: `received d.other` and `begun d` follow `accepted d`, frame by frame. -/
structure Faithful (link : Link) (s : State) : Prop where
  busy : ∀ d, (s.device d).txMachineState = .busy ↔ (s.events.filter (isComplete d)).length = 1
  complete : ∀ d, (s.events.filter (isComplete d)).length ≤ 1
  queued : ∀ d, (s.device d).queue.packets ≠ [] → (s.device d).txMachineState = .busy
  received : ∀ (d : Side) (i : Nat) r, (s.received d.other)[i]? = some r →
    ∃ (f : Frame) (b : Nat × List UInt8), (s.accepted d)[i]? = some f ∧
      (s.begun d)[i]? = some b ∧ b.2 = addHeader link f ∧
      r = (arrivesAt link d b, expected link d.other f)
  spaced : ∀ (d : Side) (i : Nat) x r, (s.begun d)[i]? = some x → (s.received d.other)[i + 1]? = some r →
    ∃ y : Nat × List UInt8, (s.begun d)[i + 1]? = some y ∧ freeAt link d x ≤ y.1 ∧
      freeAt link d x + link.txTime d y.2.length ≤ r.1

theorem Inv.sent (h : s.Inv link) (d : Side) : (s.accepted d).map (addHeader link) =
    (s.begun d).map Prod.snd ++ (s.device d).queue.packets := by
  rcases h.device d with ⟨hempty, hfree⟩ | hbusy
  · rw [hempty]
    exact hfree.sent
  · exact hbusy.sent

theorem Carries.getElem? (h : s.Carries link d) {i : Nat} {r : Nat × List Upcall}
    (hr : (s.received d.other)[i]? = some r) : ∃ b, (s.begun d)[i]? = some b ∧
      r.1 = arrivesAt link d b ∧ upcalls link d.other b.2 = some r.2 := by
  have hlt : i < (s.received d.other).length := (List.getElem?_eq_some_iff.mp hr).1
  have hsame := congrArg (fun l => l[i]?) h.received
  simp only [List.getElem?_map, hr, Option.map_some, List.getElem?_take_of_lt hlt] at hsame
  obtain ⟨b, hb, heq⟩ := Option.map_eq_some_iff.mp hsame.symm
  exact ⟨b, hb, (congrArg Prod.fst heq).symm, congrArg Prod.snd heq⟩

theorem Inv.faithful (h : s.Inv link) : s.Faithful link := by
  constructor
  · intro d
    rcases h.device d with ⟨-, hfree⟩ | hbusy
    · rw [hfree.state, hfree.complete]
      exact ⟨nofun, nofun⟩
    · obtain ⟨prior, b, -, hcomplete⟩ := hbusy.complete
      rw [hcomplete]
      exact ⟨fun _ => rfl, fun _ => hbusy.state⟩
  · intro d
    rcases h.device d with ⟨-, hfree⟩ | hbusy
    · rw [hfree.complete]
      exact Nat.zero_le _
    · obtain ⟨prior, b, -, hcomplete⟩ := hbusy.complete
      rw [hcomplete]
      exact le_refl _
  · intro d hne
    rcases h.device d with ⟨hempty, -⟩ | hbusy
    · exact absurd hempty hne
    · exact hbusy.state
  · intro d i r hr
    obtain ⟨b, hb, htime, hcalls⟩ := (h.carries d).getElem? hr
    have hsent := congrArg (fun l => l[i]?) (h.sent d)
    have hlt : i < ((s.begun d).map Prod.snd).length := by
      rw [List.length_map]
      exact (List.getElem?_eq_some_iff.mp hb).1
    simp only [List.getElem?_append_left hlt, List.getElem?_map, hb, Option.map_some] at hsent
    obtain ⟨f, hf, heq⟩ := Option.map_eq_some_iff.mp hsent
    refine ⟨f, b, hf, hb, heq.symm, ?_⟩
    rw [← heq, upcalls_addHeader] at hcalls
    exact Prod.ext htime (Option.some.inj hcalls).symm
  · intro d i x r hx hr
    obtain ⟨y, hy, htime, -⟩ := (h.carries d).getElem? hr
    have hle : freeAt link d x ≤ y.1 := by
      obtain ⟨hi, rfl⟩ := List.getElem?_eq_some_iff.mp hx
      obtain ⟨hj, rfl⟩ := List.getElem?_eq_some_iff.mp hy
      exact List.pairwise_iff_getElem.mp (h.carries d).spaced i (i + 1) hi hj (Nat.lt_succ_self i)
    refine ⟨y, hy, hle, ?_⟩
    rw [htime, arrivesAt]
    omega

theorem Inv.all_received (h : s.Inv link) (hevents : s.events = []) (d : Side) :
    (s.received d.other).length = (s.accepted d).length := by
  have hpending := (h.carries d).pending
  rw [hevents, List.filter_nil] at hpending
  have hall := congrArg List.length (h.carries d).received
  have hdrop := congrArg List.length hpending
  have hsent := congrArg List.length (h.sent d)
  have hqueue : (s.device d).queue.packets = [] := by
    rcases h.device d with ⟨hempty, -⟩ | hbusy
    · exact hempty
    · obtain ⟨prior, b, -, hcomplete⟩ := hbusy.complete
      rw [hevents] at hcomplete
      cases hcomplete
  rw [hqueue, List.append_nil, List.length_map, List.length_map] at hsent
  rw [List.length_nil, List.length_map, List.length_drop] at hdrop
  rw [List.length_map, List.length_map, List.length_take] at hall
  omega

/-- In every run no assertion fails and the link is faithful; and each frame accepted so far is
received once the events pending have been called. -/
theorem carried_in_order (link : Link) (limit : Side → QueueLimit) (run : List Happening)
    (h : Transition.Along (step link) Occurs (start limit) run) :
    ∃ s, Transition.exec (step link) (start limit) run = some s ∧ s.Faithful link ∧
      ∃ n t, Transition.Along (step link) Occurs s (List.replicate n .event) ∧
        Transition.exec (step link) s (List.replicate n .event) = some t ∧ t.Faithful link ∧
        ∀ d, t.accepted d = s.accepted d ∧
          (t.received d.other).length = (s.accepted d).length := by
  obtain ⟨s, hs, hinv, -⟩ := Transition.exec_along (Inv link) (fun _ => ()) (fun _ _ => ())
    (fun s i hinv hi => by
      obtain ⟨t, ht, htinv⟩ := step_spec hinv i hi
      exact ⟨t, ht, htinv, rfl⟩) (start_inv link limit) h
  obtain ⟨n, t, hoccurs, hexec, htinv, haccepted, hnone⟩ := hinv.drains
  refine ⟨s, hs, hinv.faithful, n, t, hoccurs, hexec, htinv.faithful, ?_⟩
  intro d
  rw [← haccepted]
  exact ⟨rfl, htinv.all_received hnone d⟩

/-- Two devices with equal attributes, of which the second has the promiscuous callback set. -/
def wire : Link where
  address
    | .first => 1
    | .second => 2
  txTime _ bytes := 8 * bytes
  interframeGap _ := 3
  promiscuous d := d = .second
  delay := 5
  checksumEnabled := true
  crc32Calculate packet := .ofNat 32 packet.length

/-- A queue of one frame takes the second of three frames, and drops the third. -/
def threeFrames : List Happening :=
  [.sendFrom .first ⟨[7], 0x0800, 9, 2⟩, .wait 10, .send .first [8, 8] 2 0x0806,
    .send .first [8] 2 0x0800, .event, .event, .event, .event]

theorem carried_in_order_threeFrames : ∃ s, Transition.exec (step wire)
    (start fun _ => .packets 1) threeFrames = some s ∧ s.Faithful wire ∧
      ∃ n t, Transition.Along (step wire) Occurs s (List.replicate n .event) ∧
        Transition.exec (step wire) s (List.replicate n .event) = some t ∧ t.Faithful wire ∧
        ∀ d, t.accepted d = s.accepted d ∧
          (t.received d.other).length = (s.accepted d).length :=
  carried_in_order wire (fun _ => .packets 1) threeFrames (by decide +kernel)

/-- The receive callback hears of the frames for the device, with their source as the sender. -/
def Filters (link : Link) (s : State) : Prop :=
  ∀ (d : Side) (i : Nat) (r : Nat × List Upcall) (f : Frame),
    (s.received d.other)[i]? = some r → (s.accepted d)[i]? = some f →
      ∀ sender, .receive f.payload f.protocol sender ∈ r.2 ↔ sender = f.source ∧
        packetType link d.other ⟨f.destination, f.source, f.protocol⟩ ≠ .otherHost

/-- A frame from 9 to 5 is passed up by the device 2 as one from 1. -/
theorem not_filters : Transition.Along (step wire) Occurs (start fun _ => .packets 1)
      [.sendFrom .first ⟨[7], 0x0800, 9, 5⟩, .event, .event] ∧
    ¬ ∃ s, Transition.exec (step wire) (start fun _ => .packets 1)
      [.sendFrom .first ⟨[7], 0x0800, 9, 5⟩, .event, .event] = some s ∧ s.Filters wire := by
  refine ⟨by decide +kernel, ?_⟩
  rintro ⟨s, hs, hfilters⟩
  have hpassed : ∀ s ∈ Transition.exec (step wire) (start fun _ => .packets 1)
      [.sendFrom .first ⟨[7], 0x0800, 9, 5⟩, .event, .event],
      s.accepted .first = [⟨[7], 0x0800, 9, 5⟩] ∧
      (s.received .second).map (fun r => (r.2.contains (.receive [7] 0x0800 1))) = [true] := by
    decide +kernel
  obtain ⟨haccepted, hreceived⟩ := hpassed s hs
  obtain ⟨r, hr, hcalls⟩ := List.map_eq_singleton_iff.mp hreceived
  have hsender := hfilters .first 0 r _ (by rw [Side.other, hr]; rfl) (by rw [haccepted]; rfl) 1
  have hsource := (hsender.mp (by simpa using hcalls)).1
  cases hsource

end State
end CudaNs3.Device.BridgedP2P
