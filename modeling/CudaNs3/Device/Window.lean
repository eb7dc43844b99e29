import CudaNs3.Device.Calls
import CudaNs3.Elp.Horizon
import CudaNs3.Lib.Footprint
import Mathlib.Algebra.Group.Pi.Basic
import Mathlib.Algebra.Order.Group.Multiset

/-!
# The order of the events of a window

The threads of a kernel take the events of a safe-event buffer in any order. The order does
not matter if no event writes an object that another one reads or writes: which these are
is read off the state in which the window begins. The packets a server has received are a
counter, to which any number of receives may add.
-/

namespace CudaNs3.Device

open Elp Footprint
set_option autoImplicit false

inductive Loc where
  | packet (p : Nat)
  | tx (d : Nat)
  | learned (b : Nat)
  | sent (c : Nat)
  | socket (k : Nat)
  deriving DecidableEq

def Loc.Value : Loc → Type
  | .packet _ => CudaPacket
  | .tx _ => Transmitter
  | .learned _ => List (MACAddress × Nat)
  | .sent _ => Nat × UInt64
  | .socket _ => UInt32 × List Nat

def Net.get (s : Net) : (i : Loc) → i.Value
  | .packet p => s.packet p
  | .tx d => s.tx d
  | .learned b => s.learned b
  | .sent c => (s.sent c, s.totalTx c)
  | .socket k => (s.rxAvailable k, s.deliveryQueue k)

def Net.view : View Net Loc Loc.Value (Nat → Nat) where
  get := Net.get
  count := Net.received
  ext s t h hreceived := by
    obtain ⟨packet, tx, learned, sent, totalTx, rxAvailable, deliveryQueue, received⟩ := s
    obtain ⟨packet', tx', learned', sent', totalTx', rxAvailable', deliveryQueue', received'⟩ := t
    have hpacket : packet = packet' := funext fun p => congrFun h (.packet p)
    have htx : tx = tx' := funext fun d => congrFun h (.tx d)
    have hlearned : learned = learned' := funext fun b => congrFun h (.learned b)
    have hclient (c : Nat) : (sent c, totalTx c) = (sent' c, totalTx' c) := congrFun h (.sent c)
    have hsocket (k : Nat) : (rxAvailable k, deliveryQueue k) =
        (rxAvailable' k, deliveryQueue' k) := congrFun h (.socket k)
    have hsent : sent = sent' := funext fun c => (Prod.mk.inj (hclient c)).1
    have htotal : totalTx = totalTx' := funext fun c => (Prod.mk.inj (hclient c)).2
    have hrx : rxAvailable = rxAvailable' := funext fun k => (Prod.mk.inj (hsocket k)).1
    have hqueue : deliveryQueue = deliveryQueue' := funext fun k => (Prod.mk.inj (hsocket k)).2
    subst hpacket htx hlearned hsent htotal hrx hqueue
    replace hreceived : received = received' := hreceived
    rw [hreceived]

section Patches
variable {β : Type} {g h : Nat → β}

theorem update_pointwise (f : β → β) (p : Nat) {q : Nat} (hq : g q = h q) :
    Function.update g p (f (g p)) q = Function.update h p (f (h p)) q := by
  by_cases hqp : q = p
  · subst hqp
    rw [Function.update_self, Function.update_self, hq]
  · rw [Function.update_of_ne hqp, Function.update_of_ne hqp, hq]

theorem setPacket_patch (p : Nat) (f : CudaPacket → CudaPacket) :
    Net.view.Patch {.packet p} fun s => s.setPacket p (f (s.packet p)) where
  pointwise i s t h := by
    cases i with
    | packet q => exact update_pointwise f p h
    | tx | learned | sent | socket => exact h
  frame i hi s := by
    cases i with
    | packet q =>
      have hne : q ≠ p := fun heq => hi (congrArg Loc.packet heq)
      exact Function.update_of_ne hne _ _
    | tx | learned | sent | socket => rfl
  adds := ⟨0, fun s => (add_zero _).symm⟩

theorem setTx_patch (d : Nat) (f : Transmitter → Transmitter) :
    Net.view.Patch {.tx d} fun s => s.setTx d (f (s.tx d)) where
  pointwise i s t h := by
    cases i with
    | tx e => exact update_pointwise f d h
    | packet | learned | sent | socket => exact h
  frame i hi s := by
    cases i with
    | tx e =>
      have hne : e ≠ d := fun heq => hi (congrArg Loc.tx heq)
      exact Function.update_of_ne hne _ _
    | packet | learned | sent | socket => rfl
  adds := ⟨0, fun s => (add_zero _).symm⟩

theorem setLearned_patch (b : Nat)
    (f : List (MACAddress × Nat) → List (MACAddress × Nat)) :
    Net.view.Patch {.learned b} fun s => s.setLearned b (f (s.learned b)) where
  pointwise i s t h := by
    cases i with
    | learned c => exact update_pointwise f b h
    | packet | tx | sent | socket => exact h
  frame i hi s := by
    cases i with
    | learned c =>
      have hne : c ≠ b := fun heq => hi (congrArg Loc.learned heq)
      exact Function.update_of_ne hne _ _
    | packet | tx | sent | socket => rfl
  adds := ⟨0, fun s => (add_zero _).symm⟩

theorem setSent_patch (c : Nat) (f : Nat → Nat) (g : UInt64 → UInt64) :
    Net.view.Patch {.sent c} fun s => s.setSent c (f (s.sent c)) (g (s.totalTx c)) where
  pointwise i s t h := by
    cases i with
    | sent e =>
      obtain ⟨hsent, htotal⟩ := Prod.mk.inj h
      exact Prod.ext (update_pointwise f c hsent) (update_pointwise g c htotal)
    | packet | tx | learned | socket => exact h
  frame i hi s := by
    cases i with
    | sent e =>
      have hne : e ≠ c := fun heq => hi (congrArg Loc.sent heq)
      exact Prod.ext (Function.update_of_ne hne _ _) (Function.update_of_ne hne _ _)
    | packet | tx | learned | socket => rfl
  adds := ⟨0, fun s => (add_zero _).symm⟩

theorem setSocket_patch (k : Nat) (rx : UInt32) (queue : List Nat) :
    Net.view.Patch {.socket k} fun s => s.setSocket k rx queue where
  pointwise i s t h := by
    cases i with
    | socket e =>
      obtain ⟨hrx, hqueue⟩ := Prod.mk.inj h
      exact Prod.ext (update_pointwise (fun _ => rx) k hrx)
        (update_pointwise (fun _ => queue) k hqueue)
    | packet | tx | learned | sent => exact h
  frame i hi s := by
    cases i with
    | socket e =>
      have hne : e ≠ k := fun heq => hi (congrArg Loc.socket heq)
      exact Prod.ext (Function.update_of_ne hne _ _) (Function.update_of_ne hne _ _)
    | packet | tx | learned | sent => rfl
  adds := ⟨0, fun s => (add_zero _).symm⟩

theorem setReceived_patch (v n : Nat) :
    Net.view.Patch ∅ fun s => s.setReceived v (s.received v + n) where
  pointwise i s t h := by cases i <;> exact h
  frame i _ s := by cases i <;> rfl
  adds := by
    refine ⟨Pi.single v n, fun s => funext fun w => ?_⟩
    by_cases hw : w = v
    · subst hw
      simp [Net.view]
    · simp [Net.view, hw]

end Patches

/-- The places an event reads and those it writes. -/
structure Touched where
  reads : List Loc
  writes : List Loc

def Touched.bySendFrom (p : Nat) (ports : List Nat) : Touched :=
  ⟨.packet p :: ports.map .tx, .packet p :: ports.map .tx⟩

namespace Net
variable (s : Net) (topo : Topology)

instance (c : Nat) : Decidable (s.Sending topo c) := inferInstanceAs (Decidable (_ ∧ _))

def touchedBySend (c tid : Nat) : Touched :=
  if s.Sending topo c then
    let slots := (List.range maxPacketPerThread).map (tid * maxPacketPerThread + ·)
    let out := (topo.egress (topo.client c).socket).toList.map fun e => Loc.tx e.1
    ⟨.sent c :: slots.map .packet ++ out, .sent c :: (s.claim tid).toList.map .packet ++ out⟩
  else ⟨[.sent c], []⟩

def touchedByTransmitComplete (d : Nat) : Touched :=
  if (s.tx d).busy then ⟨.tx d :: (s.tx d).queue.head?.toList.map .packet, [.tx d]⟩
  else ⟨[.tx d], []⟩

/-- The table is written if the sender is not in it with this port. -/
def touchedByForward (b d p : Nat) (src dst : MACAddress) : Touched :=
  let out := (s.outPorts topo b d src dst).map Loc.tx
  ⟨.learned b :: .packet p :: out,
    (if s.learnt topo b d src = s.learned b then [] else [.learned b]) ++ .packet p :: out⟩

/-- The packet that the server fetches is the oldest one of the delivery queue. -/
def touchedByDeliver (k p : Nat) : Touched :=
  let oldest := (s.deliveryQueue k ++ [p]).head?.toList.map Loc.packet
  ⟨.packet p :: .socket k :: oldest,
    .packet p :: (if s.deliveryQueue k = [] then [] else [.socket k]) ++ oldest⟩

def touchedByHost (d p : Nat) : Touched :=
  match (topo.stack (topo.device d).ipv4).endPointSocket with
  | some k => s.touchedByDeliver k p
  | none => ⟨[.packet p], [.packet p]⟩

def touchedByReceive (d p : Nat) (l : Locals) : Touched :=
  if (s.packet p).ready = false then ⟨[.packet p], []⟩
  else
    match (topo.device d).bridge with
    | some b =>
      s.touchedByForward topo b d p ((s.packet p).stripLinkHeader l).2.2
        ((s.packet p).stripLinkHeader l).2.1
    | none => s.touchedByHost topo d p

def touched (w : Task) : Touched :=
  match w.ev.type with
  | .send => s.touchedBySend topo w.ev.obj w.tid
  | .transmitComplete => s.touchedByTransmitComplete w.ev.obj
  | .receive =>
    match w.ev.payload with
    | some p => s.touchedByReceive topo w.ev.obj p w.locals
    | none => ⟨[], []⟩

end Net

def Within {ω : Type} (s : Net) (f : Net → Option (Net × ω)) (t : Touched) : Prop :=
  Net.view.Confined f s {i | i ∈ t.reads} {i | i ∈ t.writes}

namespace Within
variable {ω ω' : Type} {s : Net} {f : Net → Option (Net × ω)} {a b : Touched}

theorem mono (h : Within s f a) (hR : a.reads ⊆ b.reads) (hW : a.writes ⊆ b.writes) :
    Within s f b := View.Confined.mono h (fun _ hi => hR hi) fun _ hi => hW hi

theorem bind {k : ω → Net → Option (Net × ω')} (h : Within s f a)
    (hk : ∀ s' o, f s = some (s', o) → Within s' (k o) b) :
    Within s (fun t => (f t).bind fun r => k r.2 r.1)
      ⟨a.reads ++ b.reads, a.writes ++ b.writes⟩ := by
  apply View.Confined.mono (View.Confined.bind h hk)
  · rintro i (hi | hi)
    · exact List.mem_append_left _ hi
    · exact List.mem_append_right _ hi
  · rintro i (hi | hi)
    · exact List.mem_append_left _ hi
    · exact List.mem_append_right _ hi

theorem stuck (hf : ∀ t, Net.view.Agree {i | i ∈ a.reads} s t → f t = none) : Within s f a :=
  Or.inl hf

theorem idle {o : ω} (hf : ∀ t, Net.view.Agree {i | i ∈ a.reads} s t → f t = some (t, o)) :
    Within s f a := .of_patch (View.Patch.id.mono (Set.empty_subset _)) hf

end Within

section Handlers
variable (topo : Topology) (s : Net) (p : Nat) (src dst : MACAddress) (ts : Nat)

theorem sendFrom_within (d : Nat) :
    Within s (fun t => some (CudaNetDevice.sendFrom topo t d p src dst ts))
      ⟨[.packet p, .tx d], [.packet p, .tx d]⟩ := by
  have hsub : {Loc.packet p} ∪ {Loc.tx d} ⊆ {i | i ∈ [Loc.packet p, .tx d]} := by
    rintro i (rfl | rfl) <;> simp
  have hheader := setPacket_patch p fun pk => pk.addLinkHeader src dst
  by_cases hbusy : (s.tx d).busy = false
  · refine .of_patch (((setTx_patch d fun x => ⟨true, x.queue⟩).comp hheader).mono hsub)
      (o := topo.transmission d p (s.packet p).size ts) fun t ht => ?_
    have hp : s.packet p = t.packet p := ht (.packet p) (by simp)
    have htx : s.tx d = t.tx d := ht (.tx d) (by simp)
    rw [sendFrom_ready topo p src dst ts (htx ▸ hbusy), hp]
    rfl
  · have hbusy : (s.tx d).busy = true := by simpa using hbusy
    by_cases hfull : queueSize ≤ (s.tx d).queue.length
    · refine .of_patch (((setPacket_patch p CudaPacket.release).comp hheader).mono ?_)
        (o := []) fun t ht => ?_
      · rintro i (rfl | rfl) <;> simp
      · have htx : s.tx d = t.tx d := ht (.tx d) (by simp)
        rw [sendFrom_full topo p src dst ts (htx ▸ hbusy) (htx ▸ hfull)]
        rfl
    · refine .of_patch (((setTx_patch d fun x => ⟨true, x.queue ++ [p]⟩).comp hheader).mono hsub)
        (o := []) fun t ht => ?_
      have htx : s.tx d = t.tx d := ht (.tx d) (by simp)
      rw [sendFrom_room topo p src dst ts (htx ▸ hbusy) (htx ▸ Nat.not_le.mp hfull)]
      rfl

theorem flood_within (ports : List Nat) :
    Within s (fun t => some (CudaBridgeNetDevice.flood topo t p src dst ts ports))
      (.bySendFrom p ports) := by
  induction ports generalizing s with
  | nil => exact .idle fun t _ => rfl
  | cons d ports ih =>
    have hrest (s' : Net) (out : List EventArgs) :
        Within s' (fun t => some ((CudaBridgeNetDevice.flood topo t p src dst ts ports).1,
          out ++ (CudaBridgeNetDevice.flood topo t p src dst ts ports).2))
          (.bySendFrom p ports) := (ih s').map (out ++ ·)
    apply ((sendFrom_within topo s p src dst ts d).bind fun s' out _ => hrest s' out).mono
    all_goals simp [Touched.bySendFrom]

theorem emit_within (k : Nat) :
    Within s (fun t => some (topo.emit k t p ts))
      (.bySendFrom p ((topo.egress k).toList.map Prod.fst)) := by
  unfold Topology.emit
  cases topo.egress k with
  | none => exact .idle fun t _ => rfl
  | some e => exact sendFrom_within topo s p _ e.2 ts e.1

theorem dTransmitComplete_within (d : Nat) :
    Within s (fun t => some (CudaNetDevice.dTransmitComplete topo t d ts))
      (s.touchedByTransmitComplete d) := by
  unfold Net.touchedByTransmitComplete
  cases hbusy : (s.tx d).busy with
  | false =>
    refine .idle (o := []) fun t ht => ?_
    have htx : s.tx d = t.tx d := ht (.tx d) (by simp)
    rw [dTransmitComplete_ready topo ts (htx ▸ hbusy)]
  | true =>
    cases hq : (s.tx d).queue with
    | nil =>
      refine .of_patch ((setTx_patch d fun _ => ⟨false, []⟩).mono (by simp)) (o := [])
        fun t ht => ?_
      have htx : s.tx d = t.tx d := ht (.tx d) (by simp)
      rw [dTransmitComplete_nil topo ts (htx ▸ hbusy) (htx ▸ hq)]
    | cons p rest =>
      cases hready : (s.packet p).ready with
      | false =>
        refine .of_patch ((setTx_patch d fun _ => ⟨false, rest⟩).mono (by simp)) (o := [])
          fun t ht => ?_
        have htx : s.tx d = t.tx d := ht (.tx d) (by simp)
        have hp : s.packet p = t.packet p := ht (.packet p) (by simp)
        rw [dTransmitComplete_drop topo ts (htx ▸ hbusy) (htx ▸ hq) (hp ▸ hready)]
      | true =>
        refine .of_patch ((setTx_patch d fun _ => ⟨true, rest⟩).mono (by simp))
          (o := topo.transmission d p (s.packet p).size ts) fun t ht => ?_
        have htx : s.tx d = t.tx d := ht (.tx d) (by simp)
        have hp : s.packet p = t.packet p := ht (.packet p) (by simp)
        rw [dTransmitComplete_next topo ts (htx ▸ hbusy) (htx ▸ hq) (hp ▸ hready), hp]

theorem claim_congr {s t : Net} {tid : Nat}
    (h : ∀ i < maxPacketPerThread, s.packet (tid * maxPacketPerThread + i) =
      t.packet (tid * maxPacketPerThread + i)) : s.claim tid = t.claim tid := by
  unfold Net.claim
  rw [← List.head?_filter, ← List.head?_filter]
  congr 1
  apply List.filter_congr
  intro p hp
  obtain ⟨i, hi, rfl⟩ := List.mem_map.mp hp
  rw [h i (List.mem_range.mp hi)]

theorem claimed_within (c : Nat) (l : Locals) :
    let client := topo.client c
    let out := (topo.egress client.socket).toList.map fun e => Loc.tx e.1
    Within s (fun t =>
        let r := client.outgoing topo l (t.packet p)
        let sent := topo.emit client.socket (t.setPacket p r.1) p ts
        some (sent.1.setSent c (sent.1.sent c + if 0 ≤ r.2 then 1 else 0)
            (sent.1.totalTx c + if 0 ≤ r.2 then .ofNat client.packetSize else 0),
          sent.2 ++ [client.next c ts]))
      ⟨.packet p :: .sent c :: out, .packet p :: .sent c :: out⟩ := by
  intro client out
  have hprepare : Within s (fun t => some (t.setPacket p (client.outgoing topo l (t.packet p)).1,
      (client.outgoing topo l (t.packet p)).2)) ⟨[.packet p], [.packet p]⟩ := by
    refine .of_patch ((setPacket_patch p fun pk => (client.outgoing topo l pk).1).mono (by simp))
      (o := (client.outgoing topo l (s.packet p)).2) fun t ht => ?_
    have hp : s.packet p = t.packet p := ht (.packet p) (by simp)
    rw [hp]
  have hcount (r : Int) (s₁ : Net) (o : List EventArgs) :
      Within s₁ (fun t => some (t.setSent c (t.sent c + if 0 ≤ r then 1 else 0)
          (t.totalTx c + if 0 ≤ r then .ofNat client.packetSize else 0),
        o ++ [client.next c ts])) ⟨[.sent c], [.sent c]⟩ :=
    .of_patch ((setSent_patch c (fun n => n + if 0 ≤ r then 1 else 0)
      fun total => total + if 0 ≤ r then UInt64.ofNat client.packetSize else 0).mono (by simp))
      fun _ _ => rfl
  have hemit (r : Int) (s₁ : Net) :=
    (emit_within topo s₁ p ts client.socket).bind fun s₂ o _ => hcount r s₂ o
  apply (hprepare.bind fun s₁ r _ => hemit r s₁).mono
  all_goals
    intro i
    simp [Touched.bySendFrom, out]
    grind

theorem elpSend_within (c tid : Nat) (l : Locals) :
    Within s (fun t => CudaUdpClient.elpSend topo t c tid l ts) (s.touchedBySend topo c tid) := by
  have hsame {t : Net} (hc : (s.sent c, s.totalTx c) = (t.sent c, t.totalTx c)) :
      t.Sending topo c ↔ s.Sending topo c := by
    simp only [Net.Sending, (Prod.mk.inj hc).1]
  unfold Net.touchedBySend
  by_cases hsend : s.Sending topo c
  · rw [if_pos hsend]
    have hclaim {t : Net} (h : ∀ i < maxPacketPerThread,
        Net.view.get s (.packet (tid * maxPacketPerThread + i)) =
          Net.view.get t (.packet (tid * maxPacketPerThread + i))) : t.claim tid = s.claim tid :=
      (claim_congr h).symm
    cases hp : s.claim tid with
    | none =>
      refine .stuck fun t ht => ?_
      have hst := (hsame (ht (.sent c) (by simp))).mpr hsend
      have hnone : t.claim tid = none := (hclaim fun i hi => ht _ (by simp [hi])).trans hp
      simp [CudaUdpClient.elpSend, hst.1, Nat.not_le.mpr hst.2, hnone]
    | some p =>
      have hslot := List.mem_of_find?_eq_some hp
      refine View.Confined.congr ((claimed_within topo s p ts c l).mono ?_ ?_) fun t ht => ?_
      · intro i hi
        rcases List.mem_cons.mp hi with rfl | hi
        · exact List.mem_cons_of_mem _ (List.mem_append_left _ (List.mem_map_of_mem hslot))
        · rcases List.mem_cons.mp hi with rfl | hi
          · exact List.mem_cons_self
          · exact List.mem_cons_of_mem _ (List.mem_append_right _ hi)
      · simp
      · have hst := (hsame (ht (.sent c) (by simp))).mpr hsend
        have htid := (hclaim fun i hi => ht _ (by simp [hi])).trans hp
        exact elpSend_eq hst htid l ts
  · rw [if_neg hsend]
    refine .idle (o := []) fun t ht => ?_
    have hidle := fun h => hsend ((hsame (ht (.sent c) (by simp))).mp h)
    exact elpSend_idle hidle tid l ts

theorem forward_within (b d : Nat) (pk : CudaPacket) :
    Within s (fun t => some (CudaBridgeNetDevice.flood topo
        ((t.setPacket p pk).setLearned b (t.learnt topo b d src)) p src dst ts
        (t.outPorts topo b d src dst)))
      (s.touchedByForward topo b d p src dst) := by
  let table := s.learnt topo b d src
  have hsame {t : Net} (hb : s.learned b = t.learned b) : t.learnt topo b d src = table := by
    simp only [Net.learnt, ← hb, table]
  have hports {t : Net} (hb : s.learned b = t.learned b) :
      t.outPorts topo b d src dst = s.outPorts topo b d src dst := by
    simp only [Net.outPorts, hsame hb, table]
  have hlearn : Within s (fun t => some ((t.setPacket p pk).setLearned b table, ()))
      ⟨[.learned b, .packet p],
        (if table = s.learned b then [] else [.learned b]) ++ [.packet p]⟩ := by
    have hpacket := setPacket_patch p fun _ => pk
    by_cases htable : table = s.learned b
    · rw [if_pos htable]
      refine .of_patch (hpacket.mono (by simp)) (o := ()) fun t ht => ?_
      have hb : s.learned b = t.learned b := ht (.learned b) (by simp)
      simp [htable, hb, Net.setLearned, Net.setPacket]
    · rw [if_neg htable]
      refine .of_patch (((setLearned_patch b fun _ => table).comp hpacket).mono ?_) fun t _ => rfl
      rintro i (rfl | rfl) <;> simp
  have hall := hlearn.bind fun s₁ _ _ =>
    flood_within topo s₁ p src dst ts (s.outPorts topo b d src dst)
  refine View.Confined.congr (hall.mono ?_ ?_) fun t ht => ?_
  · simp [Net.touchedByForward, Touched.bySendFrom]
  · simp [Net.touchedByForward, Touched.bySendFrom, table]
  · have hb : s.learned b = t.learned b := ht (.learned b) (by simp [Net.touchedByForward])
    rw [hsame hb, hports hb]
    rfl

theorem forwardPacket_within (k : Nat) :
    Within s (fun t => (CudaSocket.forwardPacket topo k t p).map
        fun t => (t, ([] : List EventArgs)))
      (s.touchedByDeliver k p) := by
  have hagree {t : Net} (ht : Net.view.Agree {i | i ∈ (s.touchedByDeliver k p).reads} s t) :
      s.packet p = t.packet p ∧ s.rxAvailable k = t.rxAvailable k ∧
        s.deliveryQueue k = t.deliveryQueue k := by
    have hsocket : (s.rxAvailable k, s.deliveryQueue k) = (t.rxAvailable k, t.deliveryQueue k) :=
      ht (.socket k) (by simp [Net.touchedByDeliver])
    exact ⟨ht (.packet p) (by simp [Net.touchedByDeliver]), Prod.mk.inj hsocket⟩
  have haccepts {t : Net} (ht : Net.view.Agree {i | i ∈ (s.touchedByDeliver k p).reads} s t) :
      t.Accepts topo k p ↔ s.Accepts topo k p := by
    obtain ⟨hp, hrx, _⟩ := hagree ht
    simp only [Net.Accepts, hp, hrx]
  by_cases hacc : s.Accepts topo k p
  · by_cases hfull : deliveryQueueCapacity ≤ (s.deliveryQueue k).length
    · have hrelease := setPacket_patch p CudaPacket.release
      refine .of_patch (hrelease.mono (by simp [Net.touchedByDeliver])) (o := []) fun t ht => ?_
      obtain ⟨_, _, hqueue⟩ := hagree ht
      rw [forwardPacket_full ((haccepts ht).mpr hacc) (hqueue ▸ hfull)]
      rfl
    cases hv : (topo.socket k).server with
    | none =>
      refine .stuck fun t ht => ?_
      obtain ⟨_, _, hqueue⟩ := hagree ht
      rw [forwardPacket_room ((haccepts ht).mpr hacc) (hqueue ▸ Nat.not_le.mp hfull), hv]
      rfl
    | some v =>
      obtain ⟨q, rest, hq⟩ : ∃ q rest, s.deliveryQueue k ++ [p] = q :: rest :=
        List.exists_cons_of_ne_nil (by simp)
      let rx := s.rxAvailable k + .ofNat (s.packet p).size - .ofNat (s.packet q).size
      have hserved {t : Net}
          (ht : Net.view.Agree {i | i ∈ (s.touchedByDeliver k p).reads} s t) :
          CudaSocket.forwardPacket topo k t p = some (((t.setSocket k rx rest).setReceived v
            (t.received v + if 0 < (s.packet q).size then 1 else 0)).release q) := by
        obtain ⟨hp, hrx, hqueue⟩ := hagree ht
        have hqt : s.packet q = t.packet q := ht (.packet q) (by simp [Net.touchedByDeliver, hq])
        rw [forwardPacket_served ((haccepts ht).mpr hacc) (hqueue ▸ Nat.not_le.mp hfull) hv
          (hqueue ▸ hq), ← hp, ← hqt, ← hrx]
      have hserve := (setPacket_patch q CudaPacket.release).comp
        (setReceived_patch v (if 0 < (s.packet q).size then 1 else 0))
      by_cases hempty : s.deliveryQueue k = []
      · -- the packet itself is fetched, and the socket is left as it was
        rw [hempty, List.nil_append] at hq
        obtain ⟨rfl, rfl⟩ := List.cons.inj hq
        refine .of_patch (hserve.mono (by simp [Net.touchedByDeliver])) (o := []) fun t ht => ?_
        obtain ⟨_, hrx, hqueue⟩ := hagree ht
        have hrxs : rx = t.rxAvailable k := (UInt32.add_sub_cancel _ _).trans hrx
        have hsame : t.setSocket k rx [] = t := by
          simp [Net.setSocket, hrxs, ← hempty, hqueue]
        rw [hserved ht, hsame]
        rfl
      · refine .of_patch ((hserve.comp (setSocket_patch k rx rest)).mono ?_) (o := [])
          fun t ht => ?_
        · rintro i (rfl | hi | rfl)
          · simp [Net.touchedByDeliver, hempty]
          · contradiction
          · simp [Net.touchedByDeliver, hq]
        · rw [hserved ht]
          rfl
  · refine .idle (o := []) fun t ht => ?_
    rw [forwardPacket_refused fun h => hacc ((haccepts ht).mp h)]
    rfl

theorem host_within (d : Nat) (l : Locals) (hready : (s.packet p).ready = true)
    (hb : (topo.device d).bridge = none) :
    Within s (fun t => CudaNetDevice.dReceive topo t d p l ts) (s.touchedByHost topo d p) := by
  let l3 := topo.stack (topo.device d).ipv4
  have hmem : Loc.packet p ∈ (s.touchedByHost topo d p).reads ∧
      Loc.packet p ∈ (s.touchedByHost topo d p).writes := by
    unfold Net.touchedByHost
    split <;> simp [Net.touchedByDeliver]
  have hagree {t : Net} (ht : Net.view.Agree {i | i ∈ (s.touchedByHost topo d p).reads} s t) :
      s.packet p = t.packet p := ht (.packet p) hmem.1
  cases hitf : (l3.getInterfaceForDevice d).bind l3.getInterface with
  | none =>
    refine .stuck fun t ht => ?_
    rw [dReceive_host (hagree ht ▸ hready) hb]
    simp [CudaIpv4L3Protocol.dReceive, hitf, l3]
  | some itf =>
    cases hup : itf.isUp with
    | false =>
      refine .of_patch ((setPacket_patch p fun pk => (pk.stripLinkHeader l).1).mono ?_) (o := [])
        fun t ht => ?_
      · rintro i rfl
        exact hmem.2
      · rw [dReceive_host (hagree ht ▸ hready) hb]
        simp [CudaIpv4L3Protocol.dReceive, hitf, hup, l3]
    | true =>
      cases hk : l3.endPointSocket with
      | none =>
        refine .stuck fun t ht => ?_
        rw [dReceive_host (hagree ht ▸ hready) hb]
        simp [CudaIpv4L3Protocol.dReceive, CudaIpv4L3Protocol.dLocalDeliver, hitf, hup, hk, l3]
      | some k =>
        have hstrip : Within s (fun t => some (t.setPacket p
            ((t.packet p).stripLinkHeader l).1.stripIpUdpHeaders, ())) ⟨[], [.packet p]⟩ :=
          .of_patch ((setPacket_patch p fun pk => (pk.stripLinkHeader l).1.stripIpUdpHeaders).mono
            (by simp)) fun t _ => rfl
        have hdeliver (s₁ : Net) (o : Unit) (h : some (s.setPacket p
            ((s.packet p).stripLinkHeader l).1.stripIpUdpHeaders, ()) = some (s₁, o)) :
            Within s₁ (fun t => (CudaSocket.forwardPacket topo k t p).map
              fun t => (t, ([] : List EventArgs))) (s.touchedByDeliver k p) := by
          obtain ⟨rfl, _⟩ := Prod.mk.inj (Option.some.inj h)
          exact forwardPacket_within topo _ p k
        have htouched : s.touchedByHost topo d p = s.touchedByDeliver k p := by
          have hk' : (topo.stack (topo.device d).ipv4).endPointSocket = some k := hk
          simp only [Net.touchedByHost, hk']
        refine View.Confined.congr ((hstrip.bind hdeliver).mono ?_ ?_) fun t ht => ?_
        · simp [htouched]
        · simp [htouched, Net.touchedByDeliver]
        · exact dReceive_delivered (hagree ht ▸ hready) hb hitf hup hk l ts

theorem dReceive_within (d : Nat) (l : Locals) :
    Within s (fun t => CudaNetDevice.dReceive topo t d p l ts) (s.touchedByReceive topo d p l) := by
  unfold Net.touchedByReceive
  by_cases hready : (s.packet p).ready = false
  · rw [if_pos hready]
    refine .idle (o := []) fun t ht => ?_
    have hp : s.packet p = t.packet p := ht (.packet p) (by simp)
    rw [dReceive_notReady (hp ▸ hready)]
  rw [if_neg hready]
  have hready : (s.packet p).ready = true := by simpa using hready
  rcases hpk : (s.packet p).stripLinkHeader l with ⟨pk, dst, src⟩
  cases hb : (topo.device d).bridge with
  | some b =>
    refine View.Confined.congr (forward_within topo s p src dst ts b d pk) fun t ht => ?_
    have hp : s.packet p = t.packet p := ht (.packet p) (by simp [Net.touchedByForward])
    exact dReceive_bridge (hp ▸ hready) hb (hp ▸ hpk) ts
  | none => exact host_within topo s p ts d l hready hb

end Handlers

theorem touched_within (topo : Topology) (s : Net) (w : Task) :
    Within s (fun t => cudaProcessOneEvent topo t w) (s.touched topo w) := by
  unfold cudaProcessOneEvent Net.touched
  cases w.ev.type with
  | send => exact elpSend_within topo s w.ev.ts w.ev.obj w.tid w.locals
  | transmitComplete => exact dTransmitComplete_within topo s w.ev.ts w.ev.obj
  | receive =>
    cases w.ev.payload with
    | none => exact .stuck fun _ _ => rfl
    | some p => exact dReceive_within topo s p w.ev.ts w.ev.obj w.locals

/-- The events of a window one after the other, with all they insert. -/
def runWindow (topo : Topology) (s : Net) (ws : List Task) : Option (Net × Multiset EventArgs) :=
  run (fun w s => (cudaProcessOneEvent topo s w).map fun r => (r.1, (r.2 : Multiset EventArgs)))
    s ws

def Touched.Apart (a b : Touched) : Prop :=
  (∀ i ∈ a.writes, i ∉ b.reads ∧ i ∉ b.writes) ∧ ∀ i ∈ b.writes, i ∉ a.reads ∧ i ∉ a.writes

instance (a b : Touched) : Decidable (a.Apart b) := inferInstanceAs (Decidable (_ ∧ _))

/-- Events that are pairwise apart when the window begins have the same result in any order. -/
theorem runWindow_perm {topo : Topology} {s : Net} {ws ws' : List Task} (h : ws.Perm ws')
    (hapart : ws.Pairwise fun a b => (s.touched topo a).Apart (s.touched topo b)) :
    runWindow topo s ws = runWindow topo s ws' :=
  run_perm (v := Net.view) h (fun w _ => (touched_within topo s w).map _)
    (hapart.imp id)

theorem runWindow_send_complete :
    runWindow (.twoHosts 2000) (.setTx .start 1 ⟨true, []⟩)
        [.firstSend 0, ⟨⟨1, 0, 1, .transmitComplete, 3500, none⟩, 1, .zero⟩] =
      runWindow (.twoHosts 2000) (.setTx .start 1 ⟨true, []⟩)
        [⟨⟨1, 0, 1, .transmitComplete, 3500, none⟩, 1, .zero⟩, .firstSend 0] :=
  runWindow_perm (List.Perm.swap _ _ _) (by decide)

def clientSend (c : Nat) : Event :=
  ⟨.hostEvent ⟨c, .send, 3024, none⟩, 0, 0, deviceEvIdOffset + c⟩

/-- Two clients of one host send in the same window: who comes second is in the queue. -/
theorem order_of_sends_matters :
    ∃ x ev₀ ev₁, Run (.ofHandler fun _ => []) (State.start [clientSend 0, clientSend 1]) x ∧
      x.hSafeEventQueue .q1 0 = some ⟨ev₀, none⟩ ∧ x.hSafeEventQueue .q1 1 = some ⟨ev₁, none⟩ ∧
      ((runWindow (.twoHosts 2000) .start
        [⟨ev₀.args, 0, .zero⟩, ⟨ev₁.args, 1, .zero⟩]).map fun r => (r.1.tx 0).queue) =
          some [16] ∧
      ((runWindow (.twoHosts 2000) .start
        [⟨ev₁.args, 1, .zero⟩, ⟨ev₀.args, 0, .zero⟩]).map fun r => (r.1.tx 0).queue) =
          some [0] := by
  let env : Env := .ofHandler fun _ => []
  have hfirst : IsNext [clientSend 0, clientSend 1] (clientSend 0) :=
    ⟨by simp, by simp [clientSend]⟩
  have hsecond : IsNext [clientSend 1] (clientSend 1) := ⟨by simp, by simp⟩
  have hsafe : 0 < uint64Max := by decide
  have hroom : 1 < deviceQueueLength := by decide
  obtain ⟨d₁, hd₁, hz₁, hrun⟩ := run_drain_empty
    (Relation.ReflTransGen.refl (r := Step env) (a := State.start [clientSend 0, clientSend 1]))
    rfl (List.cons_ne_nil _ _) rfl NextEvents.empty_sound NextEvents.empty_contents
  have hrun := hrun.tail (.dispatch (e := clientSend 0) ⟨rfl, hfirst, rfl⟩
    hsafe (by decide) rfl (Nat.lt_of_succ_lt hroom) rfl)
  obtain ⟨d₂, hd₂, hz₂, hrun⟩ := run_drain_empty hrun rfl (List.cons_ne_nil _ _) rfl hd₁ hz₁
  have hrun := hrun.tail (.dispatch (e := clientSend 1) ⟨rfl, hsecond, rfl⟩
    (by simp [State.hInsertSort, State.again, State.removeNext, lowerTs, uint64Max, clientSend,
      State.safeEvent, State.start]) (by decide) rfl hroom rfl)
  exact ⟨_, State.safeEvent (clientSend 0) ⟨0, .send, 3024, none⟩,
    State.safeEvent (clientSend 1) ⟨1, .send, 3024, none⟩, hrun, rfl, rfl, rfl, rfl⟩

end CudaNs3.Device
