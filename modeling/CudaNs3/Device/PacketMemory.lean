import Mathlib.Algebra.Group.Nat.Defs
import CudaNs3.Device.Packet
import CudaNs3.Lib.Transition

/-!
# Which bytes the packet calls touch

The same calls as in `Packet`, with the 32-bit arithmetic of their guards and with the bytes
from `m_data` on that they read and write. The guards compare with `m_size`, the size of the
payload, which `AddHeader` and `RemoveHeader` leave alone while they move `offset`.
-/

namespace CudaNs3.Device.PacketMemory

open Transition
set_option autoImplicit false

structure CudaPacket where
  data : Nat → UInt8
  offset : UInt32
  size : UInt32
  capacity : UInt32

/-- `length` bytes from `m_data + start` on; pointers have 64 bits. -/
structure Access where
  start : Nat
  length : Nat

/-- A header is what is found from the pointer on that `AddHeader` is given. -/
inductive Call where
  | setSize (size : UInt32)
  | addHeader (header : Nat → UInt8) (headerSize : UInt32)
  | removeHeader (headerSize : UInt32)
  | extractPayload (off length : UInt32)

structure Outcome where
  packet : CudaPacket
  accesses : List Access
  error : Bool

namespace CudaPacket

def construct (data : Nat → UInt8) (capacity : UInt32) : CudaPacket := ⟨data, capacity, 0, capacity⟩

def refuse (p : CudaPacket) : Outcome := ⟨p, [], true⟩

def setSize (p : CudaPacket) (size : UInt32) : Outcome :=
  if size > p.capacity then p.refuse
  else ⟨{ p with size := size, offset := p.capacity - size }, [], false⟩

def addHeader (p : CudaPacket) (header : Nat → UInt8) (headerSize : UInt32) : Outcome :=
  if headerSize + p.size > p.capacity then p.refuse
  else
    let offset := p.offset - headerSize
    let bytes := Bytes.read header 0 headerSize.toNat
    ⟨{ p with offset := offset, data := Bytes.write p.data offset.toNat bytes },
      [⟨offset.toNat, headerSize.toNat⟩], false⟩

def removeHeader (p : CudaPacket) (headerSize : UInt32) : Outcome :=
  if headerSize > p.size then p.refuse
  else ⟨{ p with offset := p.offset + headerSize }, [], false⟩

/-- The bytes read go to a buffer of the caller. -/
def extractPayload (p : CudaPacket) (off length : UInt32) : Outcome :=
  if off + length > p.size then p.refuse
  else ⟨p, [⟨p.offset.toNat + off.toNat, length.toNat⟩], false⟩

def perform (p : CudaPacket) : Call → Outcome
  | .setSize size => p.setSize size
  | .addHeader header headerSize => p.addHeader header headerSize
  | .removeHeader headerSize => p.removeHeader headerSize
  | .extractPayload off length => p.extractPayload off length

/-- The call is refused, or the header fits in front of the data, its end lies in the buffer
(or its sum with the offset comes round), the bytes to extract lie in the buffer. -/
def Fits (p : CudaPacket) : Call → Prop
  | .setSize _ => True
  | .addHeader _ headerSize =>
    headerSize + p.size ≤ p.capacity → headerSize.toNat ≤ p.offset.toNat
  | .removeHeader headerSize => headerSize ≤ p.size →
      p.offset.toNat + headerSize.toNat ≤ p.capacity.toNat ∨
        2 ^ 32 ≤ p.offset.toNat + headerSize.toNat
  | .extractPayload off length => off + length ≤ p.size →
      length = 0 ∨ p.offset.toNat + off.toNat + length.toNat ≤ p.capacity.toNat

end CudaPacket

/-- The offset lies in the buffer and so do the bytes the call touched. -/
structure Outcome.Inside (o : Outcome) : Prop where
  offset_le : o.packet.offset ≤ o.packet.capacity
  accesses : ∀ a ∈ o.accesses, ∀ i, a.start ≤ i → i < a.start + a.length →
    i < o.packet.capacity.toNat

namespace CudaPacket
variable {p : CudaPacket}

theorem refuse_inside (h : p.offset ≤ p.capacity) : p.refuse.Inside where
  offset_le := h
  accesses _ ha := absurd ha List.not_mem_nil

theorem setSize_inside_iff (h : p.offset ≤ p.capacity) (size : UInt32) :
    (p.setSize size).Inside ↔ p.Fits (.setSize size) := by
  refine ⟨fun _ => trivial, fun _ => ?_⟩
  unfold setSize
  split
  · exact refuse_inside h
  · rename_i hsize
    refine ⟨?_, fun a ha => absurd ha List.not_mem_nil⟩
    show p.capacity - size ≤ p.capacity
    rw [UInt32.not_lt, UInt32.le_iff_toNat_le] at hsize
    have hlt := p.capacity.toNat_lt
    rw [UInt32.le_iff_toNat_le, UInt32.toNat_sub]
    omega

theorem addHeader_inside_iff (h : p.offset ≤ p.capacity) (header : Nat → UInt8)
    (headerSize : UInt32) :
    (p.addHeader header headerSize).Inside ↔ p.Fits (.addHeader header headerSize) := by
  have hoffset := UInt32.le_iff_toNat_le.mp h
  have hsub := UInt32.toNat_sub p.offset headerSize
  have hlt := p.offset.toNat_lt
  have hlt' := headerSize.toNat_lt
  have hcap := p.capacity.toNat_lt
  unfold addHeader Fits
  split
  · rename_i hfull
    refine ⟨fun _ hle => absurd hle (UInt32.not_le.mpr hfull), fun _ => refuse_inside h⟩
  · rename_i hroom
    have hle : headerSize + p.size ≤ p.capacity := UInt32.not_lt.mp hroom
    constructor
    · intro hinside _
      by_contra hlow
      -- the last byte would be written at `offset - 1`, which has come round
      have hlast := hinside.accesses _ (List.mem_singleton_self _)
        ((p.offset - headerSize).toNat + headerSize.toNat - 1) (by dsimp only; omega)
        (by dsimp only; omega)
      dsimp only at hlast
      omega
    · intro hfits
      have hfits := hfits hle
      refine ⟨?_, fun a ha i _ hi => ?_⟩
      · show p.offset - headerSize ≤ p.capacity
        rw [UInt32.le_iff_toNat_le]
        omega
      · obtain rfl := List.mem_singleton.mp ha
        dsimp only at hi ⊢
        omega

theorem removeHeader_inside_iff (h : p.offset ≤ p.capacity) (headerSize : UInt32) :
    (p.removeHeader headerSize).Inside ↔ p.Fits (.removeHeader headerSize) := by
  have hoffset := UInt32.le_iff_toNat_le.mp h
  have hadd := UInt32.toNat_add p.offset headerSize
  have hlt' := headerSize.toNat_lt
  have hcap := p.capacity.toNat_lt
  unfold removeHeader Fits
  split
  · rename_i hfull
    refine ⟨fun _ hle => absurd hle (UInt32.not_le.mpr hfull), fun _ => refuse_inside h⟩
  · rename_i hroom
    have hle : headerSize ≤ p.size := UInt32.not_lt.mp hroom
    constructor
    · intro hinside _
      have hnew := UInt32.le_iff_toNat_le.mp hinside.offset_le
      dsimp only at hnew
      omega
    · intro hfits
      have hfits := hfits hle
      refine ⟨?_, fun a ha => absurd ha List.not_mem_nil⟩
      show p.offset + headerSize ≤ p.capacity
      rw [UInt32.le_iff_toNat_le]
      omega

theorem extractPayload_inside_iff (h : p.offset ≤ p.capacity) (off length : UInt32) :
    (p.extractPayload off length).Inside ↔ p.Fits (.extractPayload off length) := by
  unfold extractPayload Fits
  split
  · rename_i hfull
    refine ⟨fun _ hle => absurd hle (UInt32.not_le.mpr hfull), fun _ => refuse_inside h⟩
  · rename_i hroom
    have hle : off + length ≤ p.size := UInt32.not_lt.mp hroom
    have hzero : length = 0 ↔ length.toNat = 0 := UInt32.toNat_inj.symm
    constructor
    · intro hinside _
      rw [hzero]
      by_contra hout
      obtain ⟨hpos, hout⟩ := not_or.mp hout
      have hlast := hinside.accesses _ (List.mem_singleton_self _)
        (p.offset.toNat + off.toNat + length.toNat - 1) (by dsimp only; omega)
        (by dsimp only; omega)
      dsimp only at hlast
      omega
    · intro hfits
      have hfits := hfits hle
      rw [hzero] at hfits
      refine ⟨h, fun a ha i hstart hi => ?_⟩
      obtain rfl := List.mem_singleton.mp ha
      dsimp only at hstart hi ⊢
      omega

theorem perform_inside_iff (h : p.offset ≤ p.capacity) (c : Call) :
    (p.perform c).Inside ↔ p.Fits c := by
  cases c with
  | setSize size => exact setSize_inside_iff h size
  | addHeader header headerSize => exact addHeader_inside_iff h header headerSize
  | removeHeader headerSize => exact removeHeader_inside_iff h headerSize
  | extractPayload off length => exact extractPayload_inside_iff h off length

theorem perform_capacity (p : CudaPacket) (c : Call) :
    (p.perform c).packet.capacity = p.capacity := by
  cases c with
  | setSize size =>
    change (p.setSize size).packet.capacity = _
    unfold setSize
    split <;> rfl
  | addHeader header headerSize =>
    change (p.addHeader header headerSize).packet.capacity = _
    unfold addHeader
    split <;> rfl
  | removeHeader headerSize =>
    change (p.removeHeader headerSize).packet.capacity = _
    unfold removeHeader
    split <;> rfl
  | extractPayload off length =>
    change (p.extractPayload off length).packet.capacity = _
    unfold extractPayload
    split <;> rfl

/-- A call that reports an error is refused before it does anything. -/
theorem perform_of_error {c : Call} (h : (p.perform c).error = true) : p.perform c = p.refuse := by
  have hrefused {q : Prop} [Decidable q] {o : Outcome} (ho : o.error = false)
      (herror : (if q then p.refuse else o).error = true) :
      (if q then p.refuse else o) = p.refuse := by
    by_cases hq : q
    · exact if_pos hq
    · rw [if_neg hq, ho] at herror
      exact absurd herror Bool.false_ne_true
  cases c with
  | setSize size => exact hrefused rfl h
  | addHeader header headerSize => exact hrefused rfl h
  | removeHeader headerSize => exact hrefused rfl h
  | extractPayload off length => exact hrefused rfl h

end CudaPacket

/-- A packet and every access that was made to its bytes. -/
structure Usage where
  packet : CudaPacket
  accesses : List Access

namespace Usage

def start (data : Nat → UInt8) (capacity : UInt32) : Usage := ⟨.construct data capacity, []⟩

def perform (u : Usage) (c : Call) : Usage :=
  ⟨(u.packet.perform c).packet, u.accesses ++ (u.packet.perform c).accesses⟩

/-- The offset lies in the buffer, and so does every byte that was touched. -/
structure Safe (u : Usage) : Prop where
  offset_le : u.packet.offset ≤ u.packet.capacity
  inside : ∀ a ∈ u.accesses, ∀ i, a.start ≤ i → i < a.start + a.length →
    i < u.packet.capacity.toNat

def Fits (u : Usage) (c : Call) : Prop := u.packet.Fits c

theorem safe_perform_iff {u : Usage} (hs : u.Safe) (c : Call) : (u.perform c).Safe ↔ u.Fits c := by
  have hcapacity := u.packet.perform_capacity c
  refine Iff.trans ?_ (CudaPacket.perform_inside_iff hs.offset_le c)
  constructor
  · intro h
    exact ⟨h.offset_le, fun a ha => h.inside a (List.mem_append_right _ ha)⟩
  · intro h
    refine ⟨h.offset_le, fun a ha i hstart hi => ?_⟩
    rcases List.mem_append.mp ha with ha | ha
    · show i < (u.packet.perform c).packet.capacity.toNat
      rw [hcapacity]
      exact hs.inside a ha i hstart hi
    · exact h.accesses a ha i hstart hi

theorem start_safe (data : Nat → UInt8) (capacity : UInt32) : (start data capacity).Safe where
  offset_le := UInt32.le_refl capacity
  inside _ ha := absurd ha List.not_mem_nil

/-- The calls stay within the buffer as long as, and only as long as, each of them that is not
refused fits. One that reports an error changes nothing. -/
theorem safe_throughout_iff (data : Nat → UInt8) (capacity : UInt32) (calls : List Call) :
    (Throughout perform Safe (start data capacity) calls ↔
        Each perform Fits (start data capacity) calls) ∧
      ∀ (p : CudaPacket) (c : Call), (p.perform c).error = true →
        (p.perform c).packet = p ∧ (p.perform c).accesses = [] := by
  refine ⟨?_, fun p c herror => ?_⟩
  · exact throughout_iff_each (I := fun _ => True) (P := Safe) (Q := Fits) (fun _ _ _ => trivial)
      (fun _ c _ hs => safe_perform_iff hs c) trivial (start_safe data capacity) calls
  · rw [CudaPacket.perform_of_error herror]
    exact ⟨rfl, rfl⟩

/-- Half the buffer is payload; taking it off as a header twice passes the guard twice. -/
theorem not_safe_throughout :
    ¬∀ calls, Throughout perform Safe (start (fun _ => 0) 2048) calls := by
  intro h
  have hlast := (throughout_foldl (h [.setSize 1024, .removeHeader 1024, .removeHeader 1024])).1
  revert hlast
  decide +kernel

end Usage

/-! ### The packets of the other modules -/

/-- A packet as `Packet` has it. -/
def CudaPacket.ofPacket (p : Device.CudaPacket) : CudaPacket :=
  ⟨p.data, .ofNat p.offset, .ofNat p.size, .ofNat maxPacketSize⟩

section Agreement
variable (p : Device.CudaPacket)

theorem toNat_ofNat_lt {n : Nat} (h : n < 2 ^ 32) : (UInt32.ofNat n).toNat = n := by
  rw [UInt32.toNat_ofNat', Nat.mod_eq_of_lt h]

/-- Below 2 ^ 31 no guard comes round, and the calls do what they do in `Packet`. -/
theorem CudaPacket.ofPacket_setSize {size : Nat} (hsize : size < 2 ^ 31) :
    ((ofPacket p).setSize (.ofNat size)).packet = ofPacket (p.setSize size) := by
  have hmax : (UInt32.ofNat maxPacketSize).toNat = maxPacketSize := rfl
  have hnat : (UInt32.ofNat size).toNat = size := toNat_ofNat_lt (by omega)
  have hguard : UInt32.ofNat size > (ofPacket p).capacity ↔ maxPacketSize < size := by
    rw [gt_iff_lt, UInt32.lt_iff_toNat_lt, hnat]
    rfl
  unfold CudaPacket.setSize Device.CudaPacket.setSize
  by_cases hfull : maxPacketSize < size
  · rw [if_pos (hguard.mpr hfull), dif_pos hfull]
    rfl
  · rw [if_neg (hguard.not.mpr hfull), dif_neg hfull]
    refine congrArg
      (fun offset => CudaPacket.mk p.data offset (.ofNat size) (.ofNat maxPacketSize)) ?_
    show UInt32.ofNat maxPacketSize - UInt32.ofNat size = UInt32.ofNat (maxPacketSize - size)
    have hword : maxPacketSize = 2048 := rfl
    rw [← UInt32.toNat_inj, UInt32.toNat_sub, hmax, hnat, toNat_ofNat_lt (by omega)]
    omega

theorem CudaPacket.ofPacket_addHeader {header : List UInt8} (hlength : header.length < 2 ^ 31)
    (hoffset : p.offset < 2 ^ 32) :
    ((ofPacket p).addHeader (fun i => header.getD i 0) (.ofNat header.length)).packet =
      ofPacket (p.addHeader header) := by
  have hmax : maxPacketSize = 2048 := rfl
  have hsize := p.size_le
  have hnat : (UInt32.ofNat header.length).toNat = header.length := toNat_ofNat_lt (by omega)
  have hguard : UInt32.ofNat header.length + (ofPacket p).size > (ofPacket p).capacity ↔
      maxPacketSize < header.length + p.size := by
    rw [gt_iff_lt, UInt32.lt_iff_toNat_lt, UInt32.toNat_add, hnat]
    show maxPacketSize < (header.length + (UInt32.ofNat p.size).toNat) % 2 ^ 32 ↔ _
    rw [toNat_ofNat_lt (by omega), Nat.mod_eq_of_lt (by omega)]
  have hsub : UInt32.ofNat p.offset - UInt32.ofNat header.length =
      UInt32.ofNat ((p.offset + (UInt32.size - header.length)) % UInt32.size) := by
    rw [show UInt32.size = 2 ^ 32 from rfl, ← UInt32.toNat_inj, UInt32.toNat_sub, hnat,
      toNat_ofNat_lt hoffset, toNat_ofNat_lt (Nat.mod_lt _ (by decide))]
    omega
  have hbytes : Bytes.read (fun i => header.getD i 0) 0 header.length = header := by
    refine List.ext_getElem (by rw [Bytes.length_read]) fun i _ hi => ?_
    simp [Bytes.read, List.getD_eq_getElem?_getD, hi]
  unfold CudaPacket.addHeader Device.CudaPacket.addHeader
  by_cases hfull : maxPacketSize < header.length + p.size
  · rw [if_pos (hguard.mpr hfull), if_pos hfull]
    rfl
  · rw [if_neg (hguard.not.mpr hfull), if_neg hfull]
    have hat : ((ofPacket p).offset - UInt32.ofNat header.length).toNat =
        (p.offset + (UInt32.size - header.length)) % UInt32.size :=
      (congrArg UInt32.toNat hsub).trans (toNat_ofNat_lt (Nat.mod_lt _ (by decide)))
    dsimp only
    rw [hat, hnat, hbytes]
    exact congrArg
      (fun offset => CudaPacket.mk _ offset (.ofNat p.size) (.ofNat maxPacketSize)) hsub

theorem CudaPacket.ofPacket_removeHeader {n : Nat} (hn : n < 2 ^ 31) (hoffset : p.offset < 2 ^ 32) :
    ((ofPacket p).removeHeader (.ofNat n)).packet = ofPacket (p.removeHeader n) := by
  have hmax : maxPacketSize = 2048 := rfl
  have hsize := p.size_le
  have hnat : (UInt32.ofNat n).toNat = n := toNat_ofNat_lt (by omega)
  have hguard : UInt32.ofNat n > (ofPacket p).size ↔ p.size < n := by
    rw [gt_iff_lt, UInt32.lt_iff_toNat_lt, hnat]
    show (UInt32.ofNat p.size).toNat < n ↔ _
    rw [toNat_ofNat_lt (by omega)]
  unfold CudaPacket.removeHeader Device.CudaPacket.removeHeader
  by_cases hfull : p.size < n
  · rw [if_pos (hguard.mpr hfull), if_pos hfull]
    rfl
  · rw [if_neg (hguard.not.mpr hfull), if_neg hfull]
    refine congrArg
      (fun offset => CudaPacket.mk p.data offset (.ofNat p.size) (.ofNat maxPacketSize)) ?_
    show UInt32.ofNat p.offset + UInt32.ofNat n = UInt32.ofNat ((p.offset + n) % UInt32.size)
    rw [show UInt32.size = 2 ^ 32 from rfl, ← UInt32.toNat_inj, UInt32.toNat_add, hnat,
      toNat_ofNat_lt hoffset, toNat_ofNat_lt (Nat.mod_lt _ (by decide))]

end Agreement

end CudaNs3.Device.PacketMemory
