import CudaNs3.Lib.Rounding
import CudaNs3.Tcp.SequenceNumber

/-!
# Proportional rate reduction

`TcpPrrRecovery` with its counters of 32 bits, the `int` it computes with and the quotient of two
`double`, and the window that the definition over the integers gives.
-/

namespace CudaNs3.Tcp

open Rounding
set_option autoImplicit false

/-- The fields of the connection that are used. -/
structure TcpSocketState where
  cWnd : BitVec 32
  cWndInfl : BitVec 32
  ssThresh : BitVec 32
  segmentSize : BitVec 32
  bytesInFlight : BitVec 32
  isRetransDataAcked : Bool

inductive ReductionBound where
  | CRB
  | SSRB
  deriving DecidableEq

structure TcpPrrRecovery where
  prrDelivered : BitVec 32
  prrOut : BitVec 32
  recoveryFlightSize : BitVec 32
  reductionBoundMode : ReductionBound

namespace TcpPrrRecovery

/-- `std::max` of two `uint32_t`. -/
def stdMax (a b : BitVec 32) : BitVec 32 := if a < b then b else a

/-- A `double` that is converted to an `int` has to fit into it. -/
def toInt32 (x : ℤ) : Option ℤ := if -2 ^ 31 ≤ x ∧ x < 2 ^ 31 then some x else none

/-- `sendCount` above the threshold. The product is an `uint32_t`, the quotient a `double`; what
is subtracted from the integer above it is an integer, and exact. -/
def proportion (r : TcpPrrRecovery) (ssThresh : BitVec 32) : Option ℤ :=
  if r.recoveryFlightSize = 0 then none
  else
    let product := r.prrDelivered * ssThresh
    toInt32 (⌈round 53 (product.toNat / r.recoveryFlightSize.toNat)⌉ - r.prrOut.toNat)

/-- `sendCount` up to the threshold; the `int` is what the bits of an `uint32_t` say. -/
def bounded (r : TcpPrrRecovery) (tcb : TcpSocketState) (deliveredBytes : BitVec 32) : ℤ :=
  let limit : BitVec 32 :=
    match r.reductionBoundMode with
    | .CRB => r.prrDelivered - r.prrOut
    | .SSRB =>
      if tcb.isRetransDataAcked then stdMax (r.prrDelivered - r.prrOut) deliveredBytes + tcb.segmentSize
      else deliveredBytes
  min limit.toInt (tcb.ssThresh - tcb.bytesInFlight).toInt

def sendCount (r : TcpPrrRecovery) (tcb : TcpSocketState) (deliveredBytes : BitVec 32) : Option ℤ :=
  if tcb.ssThresh < tcb.bytesInFlight then r.proportion tcb.ssThresh
  else some (r.bounded tcb deliveredBytes)

def doRecovery (r : TcpPrrRecovery) (tcb : TcpSocketState) (deliveredBytes : BitVec 32) :
    Option (TcpPrrRecovery × TcpSocketState) :=
  let r := { r with prrDelivered := r.prrDelivered + deliveredBytes }
  (r.sendCount tcb deliveredBytes).map fun sendCount =>
    -- a fast retransmit is forced when fast recovery is entered
    let forced : BitVec 32 := if 0 < r.prrOut then 0 else tcb.segmentSize
    let cWnd := tcb.bytesInFlight + BitVec.ofInt 32 (max sendCount forced.toInt)
    (r, { tcb with cWnd := cWnd, cWndInfl := cWnd })

def enterRecovery (r : TcpPrrRecovery) (tcb : TcpSocketState) (unAckDataCount deliveredBytes : BitVec 32) :
    Option (TcpPrrRecovery × TcpSocketState) :=
  { r with prrOut := 0, prrDelivered := 0, recoveryFlightSize := unAckDataCount }.doRecovery tcb
    deliveredBytes

def updateBytesSent (r : TcpPrrRecovery) (bytesSent : BitVec 32) : TcpPrrRecovery :=
  { r with prrOut := r.prrOut + bytesSent }

end TcpPrrRecovery

/-- A call while the connection is in recovery. -/
inductive PrrCall where
  | doRecovery (tcb : TcpSocketState) (deliveredBytes : BitVec 32)
  | updateBytesSent (bytesSent : BitVec 32)

namespace TcpPrrRecovery

/-- The windows that the calls set; `none` is a conversion whose result is not defined. -/
def windows (r : TcpPrrRecovery) : List PrrCall → Option (List (BitVec 32))
  | [] => some []
  | .doRecovery tcb deliveredBytes :: calls => do
    let (r, tcb) ← r.doRecovery tcb deliveredBytes
    let rest ← r.windows calls
    some (tcb.cWnd :: rest)
  | .updateBytesSent bytesSent :: calls => (r.updateBytesSent bytesSent).windows calls

end TcpPrrRecovery

/-! ## The definition over the integers -/

section Definition
variable (mode : ReductionBound) (flight : BitVec 32)

def integerLimit (tcb : TcpSocketState) (prrDelivered prrOut : Nat) (deliveredBytes : BitVec 32) : ℤ :=
  match mode with
  | .CRB => prrDelivered - prrOut
  | .SSRB =>
    if tcb.isRetransDataAcked then
      max ((prrDelivered : ℤ) - prrOut) deliveredBytes.toNat + tcb.segmentSize.toNat
    else deliveredBytes.toNat

/-- `sndcnt`, with all that has been delivered and sent since the recovery was entered. -/
def sndcnt (tcb : TcpSocketState) (prrDelivered prrOut : Nat) (deliveredBytes : BitVec 32) : ℤ :=
  if tcb.ssThresh < tcb.bytesInFlight then
    ⌈(prrDelivered * tcb.ssThresh.toNat / flight.toNat : ℚ)⌉ - prrOut
  else
    min ((tcb.ssThresh.toNat : ℤ) - tcb.bytesInFlight.toNat)
      (integerLimit mode tcb prrDelivered prrOut deliveredBytes)

def integerWindow (tcb : TcpSocketState) (prrDelivered prrOut : Nat) (deliveredBytes : BitVec 32) : ℤ :=
  tcb.bytesInFlight.toNat +
    max (sndcnt mode flight tcb prrDelivered prrOut deliveredBytes)
      (if 0 < prrOut then 0 else tcb.segmentSize.toNat)

/-- The windows of the calls, from the bytes that were delivered and sent before. -/
def integerWindows : Nat → Nat → List PrrCall → List ℤ
  | _, _, [] => []
  | prrDelivered, prrOut, .doRecovery tcb deliveredBytes :: calls =>
    integerWindow mode flight tcb (prrDelivered + deliveredBytes.toNat) prrOut deliveredBytes ::
      integerWindows (prrDelivered + deliveredBytes.toNat) prrOut calls
  | prrDelivered, prrOut, .updateBytesSent bytesSent :: calls =>
    integerWindows prrDelivered (prrOut + bytesSent.toNat) calls

end Definition

/-- No intermediate value of `DoRecovery` leaves the range of its type, with `prrDelivered` bytes
delivered up to now. -/
structure Small (mode : ReductionBound) (flight : BitVec 32) (tcb : TcpSocketState)
    (prrDelivered prrOut : Nat) (deliveredBytes : BitVec 32) : Prop where
  delivered : prrDelivered < 2 ^ 32
  forced : prrOut = 0 →
    tcb.segmentSize.toNat < 2 ^ 31 ∧ tcb.bytesInFlight.toNat + tcb.segmentSize.toNat < 2 ^ 32
  product : tcb.ssThresh < tcb.bytesInFlight → prrDelivered * tcb.ssThresh.toNat < 2 ^ 32
  quotient : tcb.ssThresh < tcb.bytesInFlight →
    ((prrOut : ℤ) - 2 ^ 31 - 1) * flight.toNat < prrDelivered * tcb.ssThresh.toNat ∧
      (prrDelivered * tcb.ssThresh.toNat : ℤ) ≤ (prrOut + 2 ^ 31 - 1) * flight.toNat ∧
        (prrDelivered * tcb.ssThresh.toNat : ℤ) ≤
          (prrOut + 2 ^ 32 - 1 - tcb.bytesInFlight.toNat) * flight.toNat
  room : tcb.bytesInFlight ≤ tcb.ssThresh → tcb.ssThresh.toNat - tcb.bytesInFlight.toNat < 2 ^ 31
  conservative : tcb.bytesInFlight ≤ tcb.ssThresh → mode = .CRB →
    prrOut ≤ prrDelivered + 2 ^ 31 ∧ prrDelivered < prrOut + 2 ^ 31
  slowStart : tcb.bytesInFlight ≤ tcb.ssThresh → mode = .SSRB →
    if tcb.isRetransDataAcked then
      prrOut ≤ prrDelivered ∧ prrDelivered - prrOut + tcb.segmentSize.toNat < 2 ^ 31 ∧
        deliveredBytes.toNat + tcb.segmentSize.toNat < 2 ^ 31
    else deliveredBytes.toNat < 2 ^ 31

section Words
variable {x y : BitVec 32} {i : ℤ}

theorem toInt_of_lt (h : x.toNat < 2 ^ 31) : x.toInt = x.toNat := by
  rw [BitVec.toInt_eq_toNat_cond]
  exact if_pos (by omega)

theorem toInt_sub_of_range (hlo : y.toNat ≤ x.toNat + 2 ^ 31) (hhi : x.toNat < y.toNat + 2 ^ 31) :
    (x - y).toInt = (x.toNat : ℤ) - y.toNat := by
  have hx := x.isLt
  have hy := y.isLt
  rw [BitVec.toInt_eq_toNat_cond, BitVec.toNat_sub]
  split <;> omega

theorem toNat_add_ofInt (h0 : 0 ≤ i) (hlt : x.toNat + i < 2 ^ 32) :
    ((x + BitVec.ofInt 32 i).toNat : ℤ) = x.toNat + i := by
  rw [BitVec.toNat_add, BitVec.toNat_ofInt]
  omega

theorem toNat_stdMax : (TcpPrrRecovery.stdMax x y).toNat = max x.toNat y.toNat := by
  unfold TcpPrrRecovery.stdMax
  split
  · rename_i hlt
    have hlt : x.toNat < y.toNat := hlt
    omega
  · rename_i hge
    have hge : ¬ x.toNat < y.toNat := hge
    omega

end Words

section Steps
variable {r : TcpPrrRecovery} {tcb : TcpSocketState} {deliveredBytes : BitVec 32}
  {prrDelivered prrOut : Nat}

/-- The quotient as a `double` has the same integer above it. -/
theorem proportion_eq (hflight : 0 < r.recoveryFlightSize.toNat)
    (hproduct : r.prrDelivered.toNat * tcb.ssThresh.toNat < 2 ^ 32)
    (hlo : ((r.prrOut.toNat : ℤ) - 2 ^ 31 - 1) * r.recoveryFlightSize.toNat <
      r.prrDelivered.toNat * tcb.ssThresh.toNat)
    (hhi : (r.prrDelivered.toNat * tcb.ssThresh.toNat : ℤ) ≤
      (r.prrOut.toNat + 2 ^ 31 - 1) * r.recoveryFlightSize.toNat) :
    r.proportion tcb.ssThresh =
      some (⌈(r.prrDelivered.toNat * tcb.ssThresh.toNat / r.recoveryFlightSize.toNat : ℚ)⌉ -
        r.prrOut.toNat) := by
  have hne : r.recoveryFlightSize ≠ 0 := by
    rintro h
    rw [h] at hflight
    exact Nat.lt_irrefl 0 hflight
  have hflightq : (0 : ℚ) < r.recoveryFlightSize.toNat := by exact_mod_cast hflight
  have hvalue : (r.prrDelivered * tcb.ssThresh).toNat = r.prrDelivered.toNat * tcb.ssThresh.toNat := by
    rw [BitVec.toNat_mul, Nat.mod_eq_of_lt hproduct]
  have hround := ceil_round_div (p := 53) hflight (Nat.lt_trans hproduct (by norm_num))
  rw [Nat.cast_mul] at hround
  obtain ⟨c, hc⟩ : ∃ c, c = ⌈(r.prrDelivered.toNat * tcb.ssThresh.toNat / r.recoveryFlightSize.toNat : ℚ)⌉ :=
    ⟨_, rfl⟩
  rw [TcpPrrRecovery.proportion, if_neg hne]
  simp only [hvalue, Nat.cast_mul, hround, ← hc]
  obtain ⟨hbelow, habove⟩ := Int.ceil_eq_iff.mp hc.symm
  have hupper : c ≤ (r.prrOut.toNat : ℤ) + 2 ^ 31 - 1 := by
    rw [hc, Int.ceil_le, div_le_iff₀ hflightq]
    exact_mod_cast hhi
  have hlower : (r.prrOut.toNat : ℤ) - 2 ^ 31 - 1 < c := by
    rw [hc, Int.lt_ceil, lt_div_iff₀ hflightq]
    exact_mod_cast hlo
  exact if_pos (by omega)

theorem bounded_eq (hsmall : Small r.reductionBoundMode r.recoveryFlightSize tcb r.prrDelivered.toNat
    r.prrOut.toNat deliveredBytes) (hbelow : tcb.bytesInFlight ≤ tcb.ssThresh) :
    r.bounded tcb deliveredBytes = sndcnt r.reductionBoundMode r.recoveryFlightSize tcb
      r.prrDelivered.toNat r.prrOut.toNat deliveredBytes := by
  have hle : tcb.bytesInFlight.toNat ≤ tcb.ssThresh.toNat := hbelow
  have hroom : (tcb.ssThresh - tcb.bytesInFlight).toInt =
      (tcb.ssThresh.toNat : ℤ) - tcb.bytesInFlight.toNat := by
    have hsmall := hsmall.room hbelow
    exact toInt_sub_of_range (by omega) (by omega)
  rw [TcpPrrRecovery.bounded, sndcnt, if_neg (BitVec.not_lt.mpr hbelow), hroom, min_comm]
  unfold integerLimit
  congr 1
  cases hmode : r.reductionBoundMode with
  | CRB =>
    obtain ⟨hlo, hhi⟩ := hsmall.conservative hbelow hmode
    exact toInt_sub_of_range hlo hhi
  | SSRB =>
    have hslow := hsmall.slowStart hbelow hmode
    cases hretrans : tcb.isRetransDataAcked with
    | false =>
      rw [hretrans, if_neg Bool.false_ne_true] at hslow
      simp only [Bool.false_eq_true, if_false]
      exact toInt_of_lt hslow
    | true =>
      rw [hretrans, if_pos rfl] at hslow
      obtain ⟨hsent, hsum, hsum'⟩ := hslow
      have hdiff : (r.prrDelivered - r.prrOut).toNat = r.prrDelivered.toNat - r.prrOut.toNat :=
        BitVec.toNat_sub_of_le hsent
      have hlimit : (TcpPrrRecovery.stdMax (r.prrDelivered - r.prrOut) deliveredBytes +
          tcb.segmentSize).toNat = max (r.prrDelivered.toNat - r.prrOut.toNat) deliveredBytes.toNat +
            tcb.segmentSize.toNat := by
        rw [BitVec.toNat_add, toNat_stdMax, hdiff]
        omega
      simp only [if_true]
      rw [toInt_of_lt (by omega), hlimit]
      omega

theorem bytesInFlight_add_sndcnt_lt {mode : ReductionBound} {flight : BitVec 32} (hflight : 0 < flight.toNat)
    (hsmall : Small mode flight tcb prrDelivered prrOut deliveredBytes) :
    tcb.bytesInFlight.toNat + sndcnt mode flight tcb prrDelivered prrOut deliveredBytes < 2 ^ 32 := by
  have hthresh := tcb.ssThresh.isLt
  unfold sndcnt
  split
  · rename_i habove
    obtain ⟨-, -, hroom⟩ := hsmall.quotient habove
    have hflightq : (0 : ℚ) < flight.toNat := by exact_mod_cast hflight
    have hceil : ⌈(prrDelivered * tcb.ssThresh.toNat / flight.toNat : ℚ)⌉ ≤
        (prrOut : ℤ) + 2 ^ 32 - 1 - tcb.bytesInFlight.toNat := by
      rw [Int.ceil_le, div_le_iff₀ hflightq]
      exact_mod_cast hroom
    omega
  · omega

/-- One call, from the bytes that were delivered and sent up to now. -/
theorem doRecovery_eq (hflight : 0 < r.recoveryFlightSize.toNat)
    (hsmall : Small r.reductionBoundMode r.recoveryFlightSize tcb
      (r.prrDelivered.toNat + deliveredBytes.toNat) r.prrOut.toNat deliveredBytes) :
    ∃ tcb', r.doRecovery tcb deliveredBytes =
      some ({ r with prrDelivered := r.prrDelivered + deliveredBytes }, tcb') ∧
        (tcb'.cWnd.toNat : ℤ) = integerWindow r.reductionBoundMode r.recoveryFlightSize tcb
          (r.prrDelivered.toNat + deliveredBytes.toNat) r.prrOut.toNat deliveredBytes := by
  have hdelivered : (r.prrDelivered + deliveredBytes).toNat = r.prrDelivered.toNat + deliveredBytes.toNat := by
    rw [BitVec.toNat_add, Nat.mod_eq_of_lt hsmall.delivered]
  obtain ⟨s, hs⟩ : ∃ s, s = sndcnt r.reductionBoundMode r.recoveryFlightSize tcb
    (r.prrDelivered.toNat + deliveredBytes.toNat) r.prrOut.toNat deliveredBytes := ⟨_, rfl⟩
  rw [← hdelivered] at hsmall hs ⊢
  have hsend : { r with prrDelivered := r.prrDelivered + deliveredBytes }.sendCount tcb deliveredBytes = some s := by
    unfold TcpPrrRecovery.sendCount
    by_cases habove : tcb.ssThresh < tcb.bytesInFlight
    · obtain ⟨hlo, hhi, -⟩ := hsmall.quotient habove
      have hproportion := proportion_eq (r := { r with prrDelivered := r.prrDelivered + deliveredBytes })
        hflight (hsmall.product habove) hlo hhi
      rw [if_pos habove, hproportion, hs, sndcnt, if_pos habove]
    · rw [if_neg habove, hs]
      exact congrArg some (bounded_eq hsmall (BitVec.not_lt.mp habove))
  have hforced : (if 0 < r.prrOut then (0 : BitVec 32) else tcb.segmentSize).toInt =
      if 0 < r.prrOut.toNat then 0 else (tcb.segmentSize.toNat : ℤ) := by
    have hpos : 0 < r.prrOut ↔ 0 < r.prrOut.toNat := BitVec.lt_def
    by_cases hout : 0 < r.prrOut.toNat
    · rw [if_pos (hpos.mpr hout), if_pos hout]
      rfl
    · rw [if_neg (hpos.not.mpr hout), if_neg hout]
      exact toInt_of_lt (hsmall.forced (by omega)).1
  refine ⟨_, congrArg (Option.map _) hsend, ?_⟩
  rw [integerWindow, ← hs, hforced]
  refine toNat_add_ofInt (le_max_of_le_right (by split <;> omega)) ?_
  rcases max_choice s (if 0 < r.prrOut.toNat then 0 else (tcb.segmentSize.toNat : ℤ)) with hmax | hmax
  · rw [hmax, hs]
    exact bytesInFlight_add_sndcnt_lt hflight hsmall
  · rw [hmax]
    have hbytes := tcb.bytesInFlight.isLt
    split
    · omega
    · have hsum := (hsmall.forced (by omega)).2
      omega

end Steps

/-- The same for every call, with the totals before it. -/
def SmallAll (mode : ReductionBound) (flight : BitVec 32) : Nat → Nat → List PrrCall → Prop
  | _, _, [] => True
  | prrDelivered, prrOut, .doRecovery tcb deliveredBytes :: calls =>
    Small mode flight tcb (prrDelivered + deliveredBytes.toNat) prrOut deliveredBytes ∧
      SmallAll mode flight (prrDelivered + deliveredBytes.toNat) prrOut calls
  | prrDelivered, prrOut, .updateBytesSent bytesSent :: calls =>
    prrOut + bytesSent.toNat < 2 ^ 32 ∧ SmallAll mode flight prrDelivered (prrOut + bytesSent.toNat) calls

theorem windows_eq {r : TcpPrrRecovery} {calls : List PrrCall} (hflight : 0 < r.recoveryFlightSize.toNat)
    (hsmall : SmallAll r.reductionBoundMode r.recoveryFlightSize r.prrDelivered.toNat r.prrOut.toNat calls) :
    ∃ ws, r.windows calls = some ws ∧ ws.map (fun w => (w.toNat : ℤ)) =
      integerWindows r.reductionBoundMode r.recoveryFlightSize r.prrDelivered.toNat r.prrOut.toNat calls := by
  induction calls generalizing r with
  | nil => exact ⟨[], rfl, rfl⟩
  | cons call calls ih =>
    cases call with
    | doRecovery tcb deliveredBytes =>
      obtain ⟨hnow, hlater⟩ := hsmall
      obtain ⟨tcb', hstep, hwindow⟩ := doRecovery_eq hflight hnow
      have hdelivered : (r.prrDelivered + deliveredBytes).toNat =
          r.prrDelivered.toNat + deliveredBytes.toNat := by
        rw [BitVec.toNat_add, Nat.mod_eq_of_lt hnow.delivered]
      rw [← hdelivered] at hlater
      obtain ⟨ws, hrun, heq⟩ := ih (r := { r with prrDelivered := r.prrDelivered + deliveredBytes }) hflight hlater
      refine ⟨tcb'.cWnd :: ws, ?_, ?_⟩
      · rw [TcpPrrRecovery.windows, hstep]
        exact congrArg (Option.bind · _) hrun
      · rw [List.map_cons, hwindow, heq, integerWindows, ← hdelivered]
    | updateBytesSent bytesSent =>
      obtain ⟨hnow, hlater⟩ := hsmall
      have hsent : (r.prrOut + bytesSent).toNat = r.prrOut.toNat + bytesSent.toNat := by
        rw [BitVec.toNat_add, Nat.mod_eq_of_lt hnow]
      rw [← hsent] at hlater
      obtain ⟨ws, hrun, heq⟩ := ih (r := r.updateBytesSent bytesSent) hflight hlater
      refine ⟨ws, hrun, heq.trans ?_⟩
      rw [integerWindows, ← hsent]
      rfl

/-- From `EnterRecovery` on, every window is the one of the integer definition, in every run in
which no value leaves its type. -/
theorem recovery_windows_eq {r : TcpPrrRecovery} {tcb : TcpSocketState}
    {unAckDataCount deliveredBytes : BitVec 32} {calls : List PrrCall} (hflight : 0 < unAckDataCount.toNat)
    (hsmall : SmallAll r.reductionBoundMode unAckDataCount 0 0 (.doRecovery tcb deliveredBytes :: calls)) :
    ∃ r' tcb' ws, r.enterRecovery tcb unAckDataCount deliveredBytes = some (r', tcb') ∧
      r'.windows calls = some ws ∧ (tcb'.cWnd :: ws).map (fun w => (w.toNat : ℤ)) =
        integerWindows r.reductionBoundMode unAckDataCount 0 0 (.doRecovery tcb deliveredBytes :: calls) := by
  obtain ⟨ws, hrun, heq⟩ := windows_eq
    (r := { r with prrOut := 0, prrDelivered := 0, recoveryFlightSize := unAckDataCount }) hflight hsmall
  rw [TcpPrrRecovery.windows] at hrun
  obtain ⟨⟨r', tcb'⟩, henter, hrun⟩ := Option.bind_eq_some_iff.mp hrun
  obtain ⟨rest, hrest, hws⟩ := Option.bind_eq_some_iff.mp hrun
  obtain rfl := Option.some.inj hws
  exact ⟨r', tcb', rest, henter, hrest, heq⟩

/-- Segments of 500 bytes, a threshold of five of them and six in flight. -/
def sampleState : TcpSocketState := ⟨3000, 3000, 2500, 500, 3000, false⟩

def sampleRecovery : TcpPrrRecovery := ⟨0, 0, 0, .SSRB⟩

theorem recovery_windows_eq_sample : ∃ r' tcb' ws,
    sampleRecovery.enterRecovery sampleState 3000 500 = some (r', tcb') ∧
      r'.windows [.updateBytesSent 500] = some ws ∧ (tcb'.cWnd :: ws).map (fun w => (w.toNat : ℤ)) =
        integerWindows .SSRB 3000 0 0 [.doRecovery sampleState 500, .updateBytesSent 500] := by
  have hsmall : SmallAll .SSRB 3000 0 0 [.doRecovery sampleState 500, .updateBytesSent 500] := by
    refine ⟨⟨?_, ?_, ?_, ?_, ?_, ?_, ?_⟩, ?_, trivial⟩ <;> decide +kernel
  exact recovery_windows_eq (r := sampleRecovery) (by decide) hsmall

/-- Segments of 1448 bytes, with a threshold of 70000 bytes and 100000 in flight. -/
def wideState : TcpSocketState := ⟨140000, 140000, 70000, 1448, 100000, false⟩

/-- The product of 70000 delivered bytes and the threshold does not fit into 32 bits. -/
theorem product_wraps : ∃ r' tcb', sampleRecovery.enterRecovery wideState 140000 70000 = some (r', tcb') ∧
    (tcb'.cWnd.toNat : ℤ) ≠ integerWindow .SSRB 140000 wideState 70000 0 70000 := by
  have hround := ceil_round_div (p := 53) (a := 605032704) (b := 140000) (by norm_num) (by norm_num)
  have hceil : ⌈((605032704 : Nat) / (140000 : Nat) : ℚ)⌉ = 4322 := by
    rw [Int.ceil_eq_iff]
    norm_num
  have hquotient : TcpPrrRecovery.proportion ⟨70000, 0, 140000, .SSRB⟩ 70000 = some 4322 := by
    have hproduct : ((70000 : BitVec 32) * 70000).toNat = 605032704 := by decide
    have hflight : (140000 : BitVec 32).toNat = 140000 := by decide
    rw [TcpPrrRecovery.proportion, if_neg (by decide)]
    simp only [hproduct, hflight, hround, hceil]
    decide +kernel
  have htrue : ⌈(70000 * (70000 : BitVec 32).toNat / (140000 : BitVec 32).toNat : ℚ)⌉ = 35000 := by
    have hthresh : (70000 : BitVec 32).toNat = 70000 := by decide
    have hflight : (140000 : BitVec 32).toNat = 140000 := by decide
    rw [hthresh, hflight, Int.ceil_eq_iff]
    norm_num
  have hsend : TcpPrrRecovery.sendCount ⟨0 + 70000, 0, 140000, .SSRB⟩ wideState 70000 = some 4322 := by
    rw [TcpPrrRecovery.sendCount, if_pos (by decide)]
    exact hquotient
  refine ⟨_, _, congrArg (Option.map _) hsend, ?_⟩
  have hdefined : integerWindow .SSRB 140000 wideState 70000 0 70000 = 135000 := by
    have habove : wideState.ssThresh < wideState.bytesInFlight := by decide
    rw [integerWindow, sndcnt, if_pos habove]
    exact congrArg (fun c : ℤ => 100000 + max (c - 0) 1448) htrue
  rw [hdefined]
  decide +kernel

end CudaNs3.Tcp
