import CudaNs3.Tcp.RxFin
import CudaNs3.Tcp.SendRequests
import CudaNs3.Tcp.SocketRuns

/-!
# Window scaling

Two sockets that hear from one another. Each of them shifts the windows that it sends by its own
scale, and the windows that it receives by the scale of the other, which was in the option of a SYN.
-/

namespace CudaNs3.Tcp

open SequenceNumber TcpRxBuffer TcpSocketBase Programs Relation
set_option autoImplicit false

section Shifts

/-- What `UpdateWindowSize` takes the window of a segment for. -/
def TcpSocketBase.receivedWindow (s : TcpSocketBase) (seg : Segment) : BitVec 32 :=
  seg.window.setWidth 32 <<< s.sndWindShift.toNat

theorem updateWindowSize_rWnd (seg : Segment) (s : TcpSocketBase) :
    (s.updateWindowSize seg).rWnd = s.receivedWindow seg ∨ (s.updateWindowSize seg).rWnd = s.rWnd := by
  unfold updateWindowSize
  split
  · exact .inl rfl
  · simp only
    split
    · exact .inl rfl
    · exact .inr rfl

theorem calculateWScale_le (s : TcpSocketBase) : s.calculateWScale.toNat ≤ 14 := by
  unfold calculateWScale
  simp only
  split
  · exact Nat.le_refl 14
  · rename_i hle
    rw [BitVec.lt_def] at hle
    exact Nat.le_of_not_lt hle

theorem calculateWScale_congr {s t : TcpSocketBase} (hmax : s.maxWinSize = t.maxWinSize)
    (hbuffer : s.rxBuffer.maxBuffer = t.rxBuffer.maxBuffer) :
    s.calculateWScale = t.calculateWScale := by
  unfold calculateWScale
  rw [hmax, hbuffer]

theorem min_div_mul {w n c : Nat} (hc : 0 < c) : min (w / c) n * c = min w (n * c) / c * c := by
  rcases Nat.lt_or_ge (w / c) n with hlt | hge
  · have hw : w < n * c := (Nat.div_lt_iff_lt_mul hc).mp hlt
    rw [Nat.min_eq_left hlt.le, Nat.min_eq_left hw.le]
  · have hw : n * c ≤ w := (Nat.le_div_iff_mul_le hc).mp hge
    rw [Nat.min_eq_right hge, Nat.min_eq_right hw, Nat.mul_div_cancel n hc]

theorem advertised_toNat (s : TcpSocketBase) (w : BitVec 32) :
    (s.advertised true w).toNat = min (w.toNat / 2 ^ s.rcvWindShift.toNat) s.maxWinSize.toNat := by
  have hshift : (w >>> s.rcvWindShift.toNat).toNat = w.toNat / 2 ^ s.rcvWindShift.toNat := by
    rw [BitVec.toNat_ushiftRight, Nat.shiftRight_eq_div_pow]
  have hmax := s.maxWinSize.isLt
  unfold advertised
  simp only [if_true]
  split
  · rename_i hlt
    rw [BitVec.lt_def, hshift, BitVec.toNat_setWidth, Nat.mod_eq_of_lt (by omega)] at hlt
    exact (Nat.min_eq_right hlt.le).symm
  · rename_i hge
    rw [BitVec.lt_def, hshift, BitVec.toNat_setWidth, Nat.mod_eq_of_lt (by omega)] at hge
    rw [BitVec.toNat_setWidth, hshift, Nat.min_eq_left (by omega), Nat.mod_eq_of_lt (by omega)]

/-- With the same shift on both sides the window comes out rounded. -/
theorem receivedWindow_toNat {s t : TcpSocketBase} {seg : Segment} {w : BitVec 32}
    (hwindow : seg.window = s.advertised true w) (hshift : t.sndWindShift = s.rcvWindShift)
    (hle : s.rcvWindShift.toNat ≤ 14) :
    (t.receivedWindow seg).toNat =
      min w.toNat (s.maxWinSize.toNat * 2 ^ s.rcvWindShift.toNat) / 2 ^ s.rcvWindShift.toNat *
        2 ^ s.rcvWindShift.toNat := by
  have hpow : 0 < 2 ^ s.rcvWindShift.toNat := Nat.pow_pos (by decide)
  have hbound : seg.window.toNat * 2 ^ s.rcvWindShift.toNat < 2 ^ 32 := by
    calc seg.window.toNat * 2 ^ s.rcvWindShift.toNat
        < 2 ^ 16 * 2 ^ s.rcvWindShift.toNat := Nat.mul_lt_mul_of_pos_right seg.window.isLt hpow
      _ ≤ 2 ^ 16 * 2 ^ 14 := Nat.mul_le_mul_left _ (Nat.pow_le_pow_right (by decide) hle)
      _ < 2 ^ 32 := by decide
  have hwide : (seg.window.setWidth 32).toNat = seg.window.toNat := by
    rw [BitVec.toNat_setWidth, Nat.mod_eq_of_lt]
    exact seg.window.isLt.trans (by decide)
  rw [receivedWindow, BitVec.toNat_shiftLeft, hshift, Nat.shiftLeft_eq, hwide,
    Nat.mod_eq_of_lt hbound, hwindow, advertised_toNat, min_div_mul hpow]

end Shifts

section Moves

/-- The fields that window scaling uses. -/
def TcpSocketBase.scaling (s : TcpSocketBase) : BitVec 8 × BitVec 8 × Bool × BitVec 16 × BitVec 32 :=
  (s.rcvWindShift, s.sndWindShift, s.winScalingEnabled, s.maxWinSize, s.rxBuffer.maxBuffer)

theorem Calm.scaling {s t : TcpSocketBase} (h : Calm s t) : t.scaling = s.scaling := by
  unfold TcpSocketBase.scaling
  rw [h.rcvWindShift, h.sndWindShift, h.winScalingEnabled, h.maxWinSize, h.rxBuffer]

/-- A segment that is sent or received. -/
def Happening.segment : Happening → Option Segment
  | .sent seg | .received seg => some seg
  | _ => none

/-- What a move does as far as the windows are concerned. -/
inductive WindowMove : Snapshot → Snapshot → Prop where
  | quiet {s t tr} (same : t.scaling = s.scaling) : WindowMove ⟨s, tr⟩ ⟨t, tr⟩
  | noted {s t e tr} (same : t.scaling = s.scaling) (aside : e.happening.segment = none) :
    WindowMove ⟨s, tr⟩ ⟨t, e :: tr⟩
  | sent {s t u seg tr} (same : t.scaling = s.scaling) (shown : u.scaling = s.scaling)
    (window : u.Advertises seg) : WindowMove ⟨s, tr⟩ ⟨t, ⟨u, .sent seg⟩ :: tr⟩
  | scaled {s tr} (enabled : s.winScalingEnabled) :
    WindowMove ⟨s, tr⟩ ⟨{ s with rcvWindShift := s.calculateWScale }, tr⟩

theorem note_segment {h : Happening} (hh : h.note) : h.segment = none := by
  cases h with
  | received _ => cases hh
  | sent _ => cases hh
  | _ => rfl

theorem CallMove.windows {r r' : Snapshot} (h : CallMove r r') : ReflTransGen WindowMove r r' := by
  cases h with
  | calm h => exact .single (.quiet h.scaling)
  | noted hh => exact .single (.noted rfl (note_segment hh))
  | queued _ _ hh => exact .single (.noted rfl (hh.elim (fun h => h ▸ rfl) fun h => h ▸ rfl))
  | extracted h =>
    refine .single (.noted ?_ rfl)
    unfold TcpSocketBase.scaling
    rw [extractLoop_maxBuffer h]
  | scaled henabled => exact .single (.scaled henabled)
  | control _ _ hwindow => exact .single (.sent rfl rfl hwindow)
  | armed _ _ => exact .single (.quiet rfl)
  | fin _ _ _ _ hwindow ht =>
    subst ht
    exact .head (.sent rfl rfl hwindow) (.single (.noted rfl rfl))
  | deallocated =>
    refine .single (.quiet ?_)
    unfold TcpSocketBase.deallocated
    split <;> rfl
  | opening _ => exact .head (.noted (t := _) rfl rfl) (.single (.noted rfl rfl))
  | _ => exact .single (.noted rfl rfl)

theorem BasicMove.windows {r r' : Snapshot} (h : BasicMove r r') : ReflTransGen WindowMove r r' := by
  cases h with
  | call h => exact h.windows
  | data _ _ _ _ hcalm _ hwindow => exact .single (.sent hcalm.scaling hcalm.scaling hwindow)
  | probe _ _ _ hcalm hwindow => exact .single (.sent hcalm.scaling hcalm.scaling hwindow)
  | rearmed => exact .single (.quiet rfl)
  | disarmed _ => exact .single (.quiet rfl)
  | persisted => exact .single (.quiet rfl)
  | answered _ => exact .single (.quiet rfl)
  | awaited _ => exact .single (.quiet rfl)
  | expired => exact .single (.quiet rfl)
  | finAgain _ _ _ _ hwindow => exact .single (.sent rfl rfl hwindow)
  | fork _ hf =>
    subst hf
    exact .head (.noted rfl rfl) (.single (.noted rfl rfl))
  | rxAdded _ _ _ h =>
    refine .single (.quiet ?_)
    unfold TcpSocketBase.scaling
    rw [add_maxBuffer h]
  | rxFin _ _ _ _ => exact .single (.quiet rfl)
  | _ => exact .single (.noted rfl rfl)

theorem Move.windows {r r' : Snapshot} (h : Move r r') : ReflTransGen WindowMove r r' := by
  cases h with
  | basic h => exact h.windows
  | silenced h => exact .single (.quiet h.calm.scaling)
  | resent hcalm _ hwindow => exact .single (.sent hcalm.scaling hcalm.scaling hwindow)
  | closed => exact .single (.noted rfl rfl)

end Moves

section Ends

/-- The segment was sent. -/
def Sent (trace : List Entry) (seg : Segment) : Prop := ∃ e ∈ trace, e.happening = .sent seg

def Happening.sendsSyn : Happening → Bool
  | .sent seg => seg.flags.syn
  | _ => false

def Happening.hearsSyn : Happening → Bool
  | .received seg => seg.flags.syn
  | _ => false

def SentSyn (trace : List Entry) : Prop := ∃ e ∈ trace, e.happening.sendsSyn

def HeardSyn (trace : List Entry) : Prop := ∃ e ∈ trace, e.happening.hearsSyn

/-- The two ends of a connection. The other end of `i` is `!i`. -/
abbrev BothEnds := Bool → Machine

/-- A segment arrives from the other end, or from anywhere at a socket that listens. -/
def Arrives (σ : BothEnds) (i : Bool) (e : Event) : Prop :=
  ∀ seg, e.segment = some seg → Sent (σ !i).trace seg ∨ (σ i).socket.state = .listen

/-- A SYN arrives from the other end, and without a scale only where no shift has been set. -/
def Negotiates (σ : BothEnds) (i : Bool) (e : Event) : Prop :=
  ∀ seg, e.segment = some seg → seg.flags.syn →
    Sent (σ !i).trace seg ∧ (seg.windowScale = none → (σ i).socket.rcvWindShift = 0)

/-- The states of two sockets between two events, where each event was as `P` says. -/
inductive EndsReach (a : Bool → Attributes) (P : BothEnds → Bool → Event → Prop) : BothEnds → Prop where
  | start : EndsReach a P fun i => Machine.start (a i)
  | step {σ m} (i : Bool) (input : Input) (h : EndsReach a P σ) (arrives : Arrives σ i input.event)
    (good : P σ i input.event) (hstep : TcpSocketBase.step input (σ i) = .ok () m) :
    EndsReach a P (Function.update σ i m)

/-- The scale that goes with the buffer of a socket. -/
def scaleOf (a : Attributes) : BitVec 8 := (TcpSocketBase.new a).calculateWScale

/-- The scale of an end, if both ends have enabled scaling. -/
def agreedScale (a peer : Attributes) : BitVec 8 :=
  if a.windowScaling && peer.windowScaling then scaleOf a else 0

theorem agreedScale_le (a peer : Attributes) : (agreedScale a peer).toNat ≤ 14 := by
  unfold agreedScale
  split
  · exact calculateWScale_le _
  · exact Nat.zero_le 14

theorem agreedScale_off {a peer : Attributes} (h : ¬ (a.windowScaling ∧ peer.windowScaling)) :
    agreedScale a peer = 0 := by
  refine if_neg fun hand => h ?_
  rwa [Bool.and_eq_true] at hand

theorem agreedScale_on {a peer : Attributes} (h : a.windowScaling ∧ peer.windowScaling) :
    agreedScale a peer = scaleOf a := by
  refine if_pos ?_
  rwa [Bool.and_eq_true]

/-- The option in a SYN of the end `a`. -/
structure OffersScale (a peer : Attributes) (seg : Segment) : Prop where
  on : a.windowScaling → peer.windowScaling → seg.windowScale = some (scaleOf a)
  off : a.windowScaling = false → seg.windowScale = none

/-- What is known of a segment that an end has sent. -/
def Shown (a peer : Attributes) : Entry → List Entry → Prop
  | ⟨s, .sent seg⟩, tr => s.Advertises seg ∧ s.maxWinSize = a.maxWindowSize ∧
      (SentSyn tr → HeardSyn tr → s.rcvWindShift = agreedScale a peer) ∧
        (seg.flags.syn → OffersScale a peer seg)
  | _, _ => True

/-- What an end has set and what it has learned. -/
structure Scaled (a peer : Attributes) (r : Snapshot) : Prop where
  maxWinSize : r.socket.maxWinSize = a.maxWindowSize
  maxBuffer : r.socket.rxBuffer.maxBuffer = a.rcvBufSize
  enabled : r.socket.winScalingEnabled ↔ a.windowScaling ∧ (peer.windowScaling ∨ ¬ HeardSyn r.trace)
  on : r.socket.winScalingEnabled → SentSyn r.trace → r.socket.rcvWindShift = scaleOf a
  off : ¬ r.socket.winScalingEnabled → r.socket.rcvWindShift = 0
  learned : HeardSyn r.trace → r.socket.sndWindShift = agreedScale peer a
  fresh : ¬ HeardSyn r.trace → r.socket.sndWindShift = 0
  shown : Along (Shown a peer) r.trace

theorem sentSyn_cons {e : Entry} {tr : List Entry} :
    SentSyn (e :: tr) ↔ e.happening.sendsSyn ∨ SentSyn tr := by
  simp [SentSyn]

theorem heardSyn_cons {e : Entry} {tr : List Entry} :
    HeardSyn (e :: tr) ↔ e.happening.hearsSyn ∨ HeardSyn tr := by
  simp [HeardSyn]

section Steps
variable {a peer : Attributes} {s t u : TcpSocketBase} {e : Entry} {tr : List Entry} {r r' : Snapshot}

theorem scaling_eq (h : t.scaling = s.scaling) : t.rcvWindShift = s.rcvWindShift ∧
    t.sndWindShift = s.sndWindShift ∧ t.winScalingEnabled = s.winScalingEnabled ∧
      t.maxWinSize = s.maxWinSize ∧ t.rxBuffer.maxBuffer = s.rxBuffer.maxBuffer := by
  simpa only [TcpSocketBase.scaling, Prod.mk.injEq] using h

namespace Scaled

theorem start (a peer : Attributes) : Scaled a peer (Machine.start a).snapshot := by
  have hsent : ¬ SentSyn (Machine.start a).snapshot.trace := by
    simp [SentSyn, Machine.snapshot, Machine.start]
  have hheard : ¬ HeardSyn (Machine.start a).snapshot.trace := by
    simp [HeardSyn, Machine.snapshot, Machine.start]
  constructor
  · rfl
  · rfl
  · exact ⟨fun h => ⟨h, .inr hheard⟩, fun h => h.1⟩
  · exact fun _ h => absurd h hsent
  · exact fun _ => rfl
  · exact fun h => absurd h hheard
  · exact fun _ => rfl
  · exact trivial

/-- Nothing was sent or heard, and no scale has changed. -/
theorem congr (h : Scaled a peer ⟨s, tr⟩) (hsame : t.scaling = s.scaling) : Scaled a peer ⟨t, tr⟩ := by
  obtain ⟨hrcv, hsnd, henabled, hmax, hbuffer⟩ := scaling_eq hsame
  constructor
  · exact hmax.trans h.maxWinSize
  · exact hbuffer.trans h.maxBuffer
  · exact henabled ▸ h.enabled
  · exact fun hon hsent => hrcv.trans (h.on (henabled ▸ hon) hsent)
  · exact fun hoff => hrcv.trans (h.off (henabled ▸ hoff))
  · exact fun hheard => hsnd.trans (h.learned hheard)
  · exact fun hfresh => hsnd.trans (h.fresh hfresh)
  · exact h.shown

theorem noted (h : Scaled a peer ⟨s, tr⟩) (haside : e.happening.segment = none) :
    Scaled a peer ⟨s, e :: tr⟩ := by
  obtain ⟨w, happening⟩ := e
  have hsent : SentSyn (⟨w, happening⟩ :: tr) ↔ SentSyn tr := by
    rw [sentSyn_cons]
    cases happening <;> simp_all [Happening.sendsSyn, Happening.segment]
  have hheard : HeardSyn (⟨w, happening⟩ :: tr) ↔ HeardSyn tr := by
    rw [heardSyn_cons]
    cases happening <;> simp_all [Happening.hearsSyn, Happening.segment]
  have hshown : Shown a peer ⟨w, happening⟩ tr := by
    cases happening <;> simp_all [Shown, Happening.segment]
  constructor
  · exact h.maxWinSize
  · exact h.maxBuffer
  · simpa only [hheard] using h.enabled
  · simpa only [hsent] using h.on
  · exact h.off
  · simpa only [hheard] using h.learned
  · simpa only [hheard] using h.fresh
  · exact ⟨hshown, h.shown⟩

theorem calculated (h : Scaled a peer r) : r.socket.calculateWScale = scaleOf a :=
  calculateWScale_congr h.maxWinSize h.maxBuffer

/-- The shift once a SYN has gone each way. -/
theorem settled (h : Scaled a peer r) (hsent : SentSyn r.trace) (hheard : HeardSyn r.trace) :
    r.socket.rcvWindShift = agreedScale a peer := by
  by_cases hon : r.socket.winScalingEnabled
  · obtain ⟨ha, hp⟩ := h.enabled.mp hon
    rw [h.on hon hsent, agreedScale_on ⟨ha, hp.resolve_right fun hnot => hnot hheard⟩]
  · rw [h.off hon, agreedScale_off fun hboth => hon (h.enabled.mpr ⟨hboth.1, .inl hboth.2⟩)]

theorem sent {seg : Segment} (h : Scaled a peer ⟨s, tr⟩) (hwindow : s.Advertises seg) :
    Scaled a peer ⟨s, ⟨s, .sent seg⟩ :: tr⟩ := by
  have hheard : HeardSyn (⟨s, .sent seg⟩ :: tr) ↔ HeardSyn tr := by
    simp [heardSyn_cons, Happening.hearsSyn]
  have hscale (hsyn : seg.flags.syn) (hon : s.winScalingEnabled) : s.rcvWindShift = scaleOf a :=
    (hwindow.announces.shift hsyn hon).trans h.calculated
  have hoffers (hsyn : seg.flags.syn) : OffersScale a peer seg := by
    have hoption := hwindow.scale
    rw [hsyn, Bool.true_and] at hoption
    constructor
    · intro ha hp
      have hon := h.enabled.mpr ⟨ha, .inl hp⟩
      rw [hoption, if_pos hon, hscale hsyn hon]
    · intro ha
      refine hoption.trans (if_neg fun hon => ?_)
      exact absurd (h.enabled.mp hon).1 (by simp [ha])
  constructor
  · exact h.maxWinSize
  · exact h.maxBuffer
  · simpa only [hheard] using h.enabled
  · intro hon hsent
    exact (sentSyn_cons.mp hsent).elim (fun hsyn => hscale hsyn hon) (h.on hon)
  · exact h.off
  · simpa only [hheard] using h.learned
  · simpa only [hheard] using h.fresh
  · exact ⟨⟨hwindow, h.maxWinSize, h.settled, hoffers⟩, h.shown⟩

theorem move (hmove : WindowMove r r') (h : Scaled a peer r) : Scaled a peer r' := by
  cases hmove with
  | quiet hsame => exact h.congr hsame
  | noted hsame haside => exact (h.congr hsame).noted haside
  | sent hsame hshown hwindow => exact ((h.congr hshown).sent hwindow).congr (hsame.trans hshown.symm)
  | scaled henabled =>
    have hscale := h.calculated
    constructor
    · exact h.maxWinSize
    · exact h.maxBuffer
    · exact h.enabled
    · exact fun _ _ => hscale
    · exact fun hoff => absurd henabled hoff
    · exact h.learned
    · exact h.fresh
    · exact h.shown

end Scaled

theorem heard_scaling {seg : Segment} (mark : EcnState) (hsyn : seg.flags.syn = false) :
    (s.heard seg mark).scaling = s.scaling := by
  unfold TcpSocketBase.heard readHeader updateWindowSize
  rw [hsyn]
  split
  · simp only [Bool.false_eq_true, if_false]
    split
    · split <;> rfl
    · rfl
  · rfl

/-- The scale that a SYN brings, if the socket still scales. -/
def TcpSocketBase.scaleIn (s : TcpSocketBase) (seg : Segment) : Option (BitVec 8) :=
  seg.windowScale.filter fun _ => s.winScalingEnabled

theorem heard_syn (s : TcpSocketBase) {seg : Segment} (mark : EcnState) (hsyn : seg.flags.syn) :
    (s.heard seg mark).rcvWindShift = s.rcvWindShift ∧ (s.heard seg mark).maxWinSize = s.maxWinSize ∧
      (s.heard seg mark).rxBuffer = s.rxBuffer ∧
        (s.heard seg mark).winScalingEnabled = (s.scaleIn seg).isSome ∧
          (s.heard seg mark).sndWindShift =
            ((s.scaleIn seg).map fun shift => if 14 < shift then 14 else shift).getD s.sndWindShift := by
  have hreads : s.reads seg := .inl hsyn
  have heard : s.heard seg mark = readSyn seg { s with ecnState := mark } := by
    unfold TcpSocketBase.heard readHeader
    rw [if_pos hreads, if_pos hsyn]
  rw [heard]
  exact ⟨rfl, rfl, rfl, rfl, rfl⟩

namespace Scaled

/-- A segment that is not a SYN. -/
theorem passed {seg : Segment} {mark : EcnState} (h : Scaled a peer ⟨s, tr⟩)
    (hsyn : seg.flags.syn = false) : Scaled a peer ⟨s.heard seg mark, ⟨s, .received seg⟩ :: tr⟩ := by
  have hsent : SentSyn (⟨s, .received seg⟩ :: tr) ↔ SentSyn tr := by
    simp [sentSyn_cons, Happening.sendsSyn]
  have hheard : HeardSyn (⟨s, .received seg⟩ :: tr) ↔ HeardSyn tr := by
    simp [heardSyn_cons, Happening.hearsSyn, hsyn]
  have hnext := h.congr (heard_scaling mark hsyn)
  constructor
  · exact hnext.maxWinSize
  · exact hnext.maxBuffer
  · simpa only [hheard] using hnext.enabled
  · simpa only [hsent] using hnext.on
  · exact hnext.off
  · simpa only [hheard] using hnext.learned
  · simpa only [hheard] using hnext.fresh
  · exact ⟨trivial, h.shown⟩

/-- A SYN of the other end. -/
theorem syn {seg : Segment} {mark : EcnState} (h : Scaled a peer ⟨s, tr⟩) (hsyn : seg.flags.syn)
    (hoffers : OffersScale peer a seg) (hunset : seg.windowScale = none → s.rcvWindShift = 0) :
    Scaled a peer ⟨s.heard seg mark, ⟨s, .received seg⟩ :: tr⟩ := by
  have hsent : SentSyn (⟨s, .received seg⟩ :: tr) ↔ SentSyn tr := by
    simp [sentSyn_cons, Happening.sendsSyn]
  have hheard : HeardSyn (⟨s, .received seg⟩ :: tr) := heardSyn_cons.mpr (.inl hsyn)
  obtain ⟨hrcv, hmax, hrx, henabled, hsnd⟩ := heard_syn s mark hsyn
  have hbuffer : (s.heard seg mark).rxBuffer.maxBuffer = a.rcvBufSize := hrx ▸ h.maxBuffer
  by_cases hboth : a.windowScaling ∧ peer.windowScaling
  · have hon := h.enabled.mpr ⟨hboth.1, .inl hboth.2⟩
    have hscale : s.scaleIn seg = some (scaleOf peer) := by
      rw [TcpSocketBase.scaleIn, hoffers.on hboth.2 hboth.1, hon]
      rfl
    have hclamp : ¬ 14 < scaleOf peer := by
      rw [BitVec.lt_def]
      exact Nat.not_lt.mpr (calculateWScale_le _)
    rw [hscale] at henabled hsnd
    constructor
    · exact hmax.trans h.maxWinSize
    · exact hbuffer
    · exact ⟨fun _ => ⟨hboth.1, .inl hboth.2⟩, fun _ => henabled⟩
    · exact fun _ hs => hrcv.trans (h.on hon (hsent.mp hs))
    · exact fun hoff => absurd henabled hoff
    · intro _
      rw [hsnd, agreedScale_on hboth.symm]
      exact if_neg hclamp
    · exact fun hfresh => absurd hheard hfresh
    · exact ⟨trivial, h.shown⟩
  · have hscale : s.scaleIn seg = none := by
      by_cases hpeer : peer.windowScaling
      · have hoff : s.winScalingEnabled = false :=
          Bool.eq_false_iff.mpr fun hon => hboth ⟨(h.enabled.mp hon).1, hpeer⟩
        rw [TcpSocketBase.scaleIn, hoff]
        cases seg.windowScale <;> rfl
      · rw [TcpSocketBase.scaleIn, hoffers.off (Bool.eq_false_iff.mpr hpeer), Option.filter_none]
    have hzero : s.rcvWindShift = 0 := by
      by_cases hon : s.winScalingEnabled
      · refine hunset (hoffers.off (Bool.eq_false_iff.mpr fun hpeer => ?_))
        exact hboth ⟨(h.enabled.mp hon).1, hpeer⟩
      · exact h.off hon
    have hlearned : s.sndWindShift = agreedScale peer a := by
      by_cases hbefore : HeardSyn tr
      · exact h.learned hbefore
      · rw [agreedScale_off fun hand => hboth hand.symm]
        exact h.fresh hbefore
    rw [hscale] at henabled hsnd
    constructor
    · exact hmax.trans h.maxWinSize
    · exact hbuffer
    · refine ⟨fun hon => absurd (henabled.symm.trans hon) (by simp), fun hand => ?_⟩
      exact absurd ⟨hand.1, hand.2.resolve_right fun hnot => hnot hheard⟩ hboth
    · exact fun hon => absurd (henabled.symm.trans hon) (by simp)
    · exact fun _ => hrcv.trans hzero
    · exact fun _ => hsnd.trans hlearned
    · exact fun hfresh => absurd hheard hfresh
    · exact ⟨trivial, h.shown⟩

theorem event {e : Event} {s₀ : TcpSocketBase} (hmove : EventMove e s₀ r r') (h : Scaled a peer r)
    (hgood : ∀ seg, e.segment = some seg → seg.flags.syn →
      OffersScale peer a seg ∧ (seg.windowScale = none → s₀.rcvWindShift = 0)) :
    Scaled a peer r' := by
  cases hmove with
  | move hmove =>
    have hmoves := hmove.windows
    clear hmove
    induction hmoves with
    | refl => exact h
    | tail _ hlast ih => exact ih.move hlast
  | @received s tr seg mark harrives hcalm =>
    cases hsyn : seg.flags.syn with
    | false => exact h.passed hsyn
    | true =>
      obtain ⟨hoffers, hunset⟩ := hgood seg harrives hsyn
      exact h.syn hsyn hoffers fun hnone => hcalm.rcvWindShift.trans (hunset hnone)

theorem events {e : Event} {s₀ : TcpSocketBase} (hmoves : ReflTransGen (EventMove e s₀) r r')
    (h : Scaled a peer r) (hgood : ∀ seg, e.segment = some seg → seg.flags.syn →
      OffersScale peer a seg ∧ (seg.windowScale = none → s₀.rcvWindShift = 0)) :
    Scaled a peer r' := by
  induction hmoves with
  | refl => exact h
  | tail _ hmove hnext => exact hnext.event hmove hgood

end Scaled

end Steps

theorem Along.of_mem {P : Entry → List Entry → Prop} {tr : List Entry} {e : Entry} (h : Along P tr)
    (he : e ∈ tr) : ∃ before, P e before := by
  obtain ⟨later, earlier, rfl⟩ := List.append_of_mem he
  exact ⟨earlier, (h.of_suffix (List.suffix_append _ _)).1⟩

/-- What both ends have set and learned in such a run. -/
theorem scaled_of_reach {a : Bool → Attributes} {σ : BothEnds} (h : EndsReach a Negotiates σ) (i : Bool) :
    Scaled (a i) (a !i) (σ i).snapshot := by
  induction h generalizing i with
  | start => exact .start _ _
  | @step σ m j input _ _ hgood hstep ih =>
    by_cases hij : i = j
    · subst hij
      rw [Function.update_self]
      have hmoves := (keptAt_ok hstep).mp (keptAt_step input (σ i))
      have hoffers (seg : Segment) (hseg : input.event.segment = some seg) (hsyn : seg.flags.syn) :
          OffersScale (a !i) (a i) seg ∧ (seg.windowScale = none → (σ i).socket.rcvWindShift = 0) := by
        obtain ⟨⟨⟨s, happening⟩, hmem, rfl⟩, hunset⟩ := hgood seg hseg hsyn
        obtain ⟨before, hshown⟩ := (ih !i).shown.of_mem hmem
        have hpeer := hshown.2.2.2 hsyn
        rw [Bool.not_not] at hpeer
        exact ⟨hpeer, hunset⟩
      exact (ih i).events hmoves hoffers
    · rw [Function.update_of_ne hij]
      exact ih i

/-- A segment that an end has sent when a SYN had gone each way. -/
structure AfterHandshake (σ : BothEnds) (i : Bool) (s : TcpSocketBase) (seg : Segment) : Prop where
  sent : ∃ later earlier, (σ i).trace = later ++ ⟨s, .sent seg⟩ :: earlier ∧ SentSyn earlier ∧
    HeardSyn earlier
  heard : HeardSyn (σ !i).trace
  syn : seg.flags.syn = false

/-- Both ends agree on the window, in every run in which an end hears the SYN of the other end only,
and no SYN without a scale reaches an end that has set its shift. Once the FIN of the peer is recorded
the window is the one that was computed before. -/
theorem window_agreement {a : Bool → Attributes} {σ : BothEnds} (h : EndsReach a Negotiates σ) {i : Bool}
    {s : TcpSocketBase} {seg : Segment} (hsent : AfterHandshake σ i s seg) :
    ∃ w, (w = if s.rxBuffer.gotFin then s.advWnd
        else distance s.rxBuffer.maxRxSequence s.rxBuffer.nextRxSeq) ∧
      (σ !i).socket.receivedWindow seg ≤ w ∧
        ((σ !i).socket.receivedWindow seg).toNat =
          min w.toNat ((a i).maxWindowSize.toNat * 2 ^ (agreedScale (a i) (a !i)).toNat) /
            2 ^ (agreedScale (a i) (a !i)).toNat * 2 ^ (agreedScale (a i) (a !i)).toNat := by
  obtain ⟨⟨later, earlier, htrace, hopened⟩, hheard, hsyn⟩ := hsent
  have hshown := (scaled_of_reach h i).shown
  rw [show (σ i).snapshot.trace = (σ i).trace from rfl, htrace] at hshown
  obtain ⟨hwindow, hmax, hshift, -⟩ := (hshown.of_suffix (List.suffix_append _ _)).1
  have hagreed := hshift hopened.1 hopened.2
  obtain ⟨w, hw, hannounced⟩ := hwindow.announces.window
  rw [hsyn] at hannounced
  have hlearned := (scaled_of_reach h !i).learned hheard
  rw [Bool.not_not, ← hagreed] at hlearned
  have hnat := receivedWindow_toNat hannounced hlearned (hagreed ▸ agreedScale_le _ _)
  rw [hagreed, hmax] at hnat
  refine ⟨w, ?_, ?_, hnat⟩
  · unfold receiveWindow at hw
    split at hw
    · rename_i hfin
      exact (Option.some.inj hw).symm.trans (if_pos hfin).symm
    · rename_i hfin
      split at hw
      · exact (Option.some.inj hw).symm.trans (if_neg hfin).symm
      · cases hw
  · rw [BitVec.le_def, show ((σ !i).socket.receivedWindow seg).toNat = _ from hnat]
    exact (Nat.div_mul_le_self _ _).trans (Nat.min_le_left _ _)

section Runs
variable {a : Bool → Attributes} {P : BothEnds → Bool → Event → Prop}

instance (trace : List Entry) (seg : Segment) : Decidable (Sent trace seg) :=
  inferInstanceAs (Decidable (∃ e ∈ trace, e.happening = .sent seg))

instance (trace : List Entry) : Decidable (SentSyn trace) :=
  inferInstanceAs (Decidable (∃ e ∈ trace, e.happening.sendsSyn))

instance (trace : List Entry) : Decidable (HeardSyn trace) :=
  inferInstanceAs (Decidable (∃ e ∈ trace, e.happening.hearsSyn))

instance (σ : BothEnds) (i : Bool) (e : Event) : Decidable (Arrives σ i e) :=
  decidable_of_iff (∀ seg ∈ e.segment, Sent (σ !i).trace seg ∨ (σ i).socket.state = .listen) .rfl

instance (σ : BothEnds) (i : Bool) (e : Event) : Decidable (Negotiates σ i e) :=
  decidable_of_iff (∀ seg ∈ e.segment, seg.flags.syn →
    Sent (σ !i).trace seg ∧ (seg.windowScale = none → (σ i).socket.rcvWindShift = 0)) .rfl

/-- Anything that arrives is allowed. -/
def Unrestricted (_ : BothEnds) (_ : Bool) (_ : Event) : Prop := True

instance (σ : BothEnds) (i : Bool) (e : Event) : Decidable (Unrestricted σ i e) := .isTrue trivial

def ends (one two : Machine) : BothEnds := fun i => if i then two else one

theorem ends_update_one (one two m : Machine) : Function.update (ends one two) false m = ends m two := by
  funext i
  cases i <;> rfl

theorem ends_update_two (one two m : Machine) : Function.update (ends one two) true m = ends one m := by
  funext i
  cases i <;> rfl

/-- Both ends after the inputs, if everything arrives as it may and no input stops its end. -/
def runEnds (P : BothEnds → Bool → Event → Prop) [∀ σ i e, Decidable (P σ i e)] (one two : Machine) :
    List (Bool × Input) → Option (Machine × Machine)
  | [] => some (one, two)
  | (i, input) :: rest =>
    if Arrives (ends one two) i input.event ∧ P (ends one two) i input.event then
      match i, TcpSocketBase.step input (ends one two i) with
      | false, .ok _ m => runEnds P m two rest
      | true, .ok _ m => runEnds P one m rest
      | _, .error _ _ => none
    else none

theorem reach_runEnds [∀ σ i e, Decidable (P σ i e)] {one two one' two' : Machine}
    {inputs : List (Bool × Input)} (h : EndsReach a P (ends one two))
    (hrun : runEnds P one two inputs = some (one', two')) : EndsReach a P (ends one' two') := by
  induction inputs generalizing one two with
  | nil =>
    obtain ⟨rfl, rfl⟩ := Prod.mk.inj (Option.some.inj hrun)
    exact h
  | cons head rest ih =>
    obtain ⟨i, input⟩ := head
    unfold runEnds at hrun
    split at hrun
    · rename_i hmay
      split at hrun
      · rename_i hstep
        have hnext := h.step _ input hmay.1 hmay.2 hstep
        rw [ends_update_one] at hnext
        exact ih hnext hrun
      · rename_i hstep
        have hnext := h.step _ input hmay.1 hmay.2 hstep
        rw [ends_update_two] at hnext
        exact ih hnext hrun
      · cases hrun
    · cases hrun

/-- The segment that was sent last, with the socket and the trace before. -/
def latestSent : List Entry → Option (TcpSocketBase × Segment × List Entry)
  | [] => none
  | ⟨s, .sent seg⟩ :: earlier => some (s, seg, earlier)
  | _ :: rest => latestSent rest

theorem latestSent_eq {tr earlier : List Entry} {s : TcpSocketBase} {seg : Segment}
    (h : latestSent tr = some (s, seg, earlier)) : ∃ later, tr = later ++ ⟨s, .sent seg⟩ :: earlier := by
  induction tr with
  | nil => cases h
  | cons e rest ih =>
    unfold latestSent at h
    split at h
    · cases h
    · rename_i heq
      cases heq
      cases h
      exact ⟨[], rfl⟩
    · rename_i heq
      cases heq
      obtain ⟨later, rfl⟩ := ih h
      exact ⟨e :: later, rfl⟩

/-- What the other end makes of the last segment of the first one. -/
theorem after_runEnds [∀ σ i e, Decidable (P σ i e)] (inputs : List (Bool × Input))
    {Q : TcpSocketBase → TcpSocketBase → Segment → Bool}
    (h : ((runEnds P (Machine.start (a false)) (Machine.start (a true)) inputs).any fun m =>
      (latestSent m.1.trace).any fun last => !last.2.1.flags.syn && decide (SentSyn last.2.2) &&
        decide (HeardSyn last.2.2) && decide (HeardSyn m.2.trace) && Q last.1 m.2.socket last.2.1) = true) :
    ∃ σ s seg, EndsReach a P σ ∧ AfterHandshake σ false s seg ∧ Q s (σ true).socket seg = true := by
  obtain ⟨m, hrun, h⟩ := Option.any_eq_true _ _ |>.mp h
  obtain ⟨⟨s, seg, earlier⟩, hlast, h⟩ := Option.any_eq_true _ _ |>.mp h
  simp only [Bool.and_eq_true, Bool.not_eq_true', decide_eq_true_eq] at h
  obtain ⟨later, htrace⟩ := latestSent_eq hlast
  have hstart : EndsReach a P (ends (Machine.start (a false)) (Machine.start (a true))) := by
    have heq : ends (Machine.start (a false)) (Machine.start (a true)) = fun i => Machine.start (a i) := by
      funext i
      cases i <;> rfl
    exact heq ▸ .start
  exact ⟨ends m.1 m.2, s, seg, reach_runEnds hstart hrun,
    ⟨⟨later, earlier, htrace, h.1.1.1.2, h.1.1.2⟩, h.1.2, h.1.1.1.1⟩, h.2⟩

/-- A socket with a buffer that asks for a scale of two. -/
def wide (scaling : Bool) : Attributes :=
  { bytewise with rcvBufSize := 131072, windowScaling := scaling }

/-- The first end connects to the other one. The scales are those in the SYN and in the answer. -/
def shakeHands (one two : Option (BitVec 8)) : List (Bool × Input) :=
  let syn : Segment := ⟨.SYN, 0, 0, 65535, one, true, false, [], []⟩
  [(true, plain (.call (.bind true))), (true, plain (.call .listen)),
    (false, plain (.call (.connect true true))), (true, plain (.forwardUp .notEct syn)),
    (true, plain (.fork syn)),
    (false, plain (.forwardUp .notEct ⟨.SYN ||| .ACK, 0, 1, 65535, two, true, false, [], []⟩))]

/-- The other end sends two bytes that are lost, and a FIN that is not. -/
def loseBytes : List (Bool × Input) :=
  [(true, plain (.forwardUp .notEct ⟨.ACK, 1, 1, 65535, none, false, false, [], []⟩)),
    (true, plain (.call (.send ⟨[1, 2], by decide⟩))), (true, plain .sendPendingDataEvent),
    (true, plain (.call .close)),
    (false, plain (.forwardUp .notEct ⟨.FIN ||| .ACK, 3, 1, 65535, none, false, false, [], []⟩)),
    (false, plain (.call (.send ⟨[1], by decide⟩))), (false, plain .sendPendingDataEvent)]

theorem window_agreement_wide : ∃ σ s seg, AfterHandshake σ false s seg ∧
    ∃ w, (w = if s.rxBuffer.gotFin then s.advWnd
        else distance s.rxBuffer.maxRxSequence s.rxBuffer.nextRxSeq) ∧
      (σ true).socket.receivedWindow seg ≤ w ∧
        ((σ true).socket.receivedWindow seg).toNat =
          min w.toNat ((wide true).maxWindowSize.toNat * 2 ^ (agreedScale (wide true) (wide true)).toNat) /
            2 ^ (agreedScale (wide true) (wide true)).toNat *
              2 ^ (agreedScale (wide true) (wide true)).toNat := by
  obtain ⟨σ, s, seg, hreach, hsent, -⟩ := after_runEnds (a := fun _ => wide true) (P := Negotiates)
    (Q := fun _ _ _ => true) (shakeHands (some 2) (some 2)) (by decide +kernel)
  exact ⟨σ, s, seg, hsent, window_agreement hreach hsent⟩

/-- Two bytes are expected before a FIN that has been recorded, and the window is the one of before.
And an end that has set its shift when it hears that the other one does not scale goes on shifting. -/
theorem windows_disagree :
    (∃ a σ s seg, EndsReach a Unrestricted σ ∧ AfterHandshake σ false s seg ∧
      distance s.rxBuffer.maxRxSequence s.rxBuffer.nextRxSeq < (σ true).socket.receivedWindow seg) ∧
    ∃ a σ s seg, EndsReach a Unrestricted σ ∧ AfterHandshake σ false s seg ∧ s.rxBuffer.gotFin = false ∧
      distance s.rxBuffer.maxRxSequence s.rxBuffer.nextRxSeq = 131072 ∧
        agreedScale (a false) (a true) = 0 ∧ (σ true).socket.receivedWindow seg = 32768 := by
  constructor
  · obtain ⟨σ, s, seg, hreach, hsent, hq⟩ := after_runEnds (a := fun _ => wide false) (P := Unrestricted)
      (Q := fun s t seg => distance s.rxBuffer.maxRxSequence s.rxBuffer.nextRxSeq < t.receivedWindow seg)
      (shakeHands none none ++ loseBytes) (by decide +kernel)
    exact ⟨_, σ, s, seg, hreach, hsent, of_decide_eq_true hq⟩
  · obtain ⟨σ, s, seg, hreach, hsent, hq⟩ := after_runEnds (a := fun i => wide !i) (P := Unrestricted)
      (Q := fun s t seg => s.rxBuffer.gotFin = false ∧
        distance s.rxBuffer.maxRxSequence s.rxBuffer.nextRxSeq = 131072 ∧ t.receivedWindow seg = 32768)
      (shakeHands (some 2) none) (by decide +kernel)
    obtain ⟨hfin, hwindow, hreceived⟩ := of_decide_eq_true hq
    exact ⟨_, σ, s, seg, hreach, hsent, hfin, hwindow, by decide, hreceived⟩

end Runs

end Ends

end CudaNs3.Tcp
