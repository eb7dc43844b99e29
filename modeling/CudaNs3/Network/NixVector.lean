import CudaNs3.Lib.BitRows
import CudaNs3.Lib.Transition

/-!
# `NixVector`

The neighbour indices of a route, packed one after the other into words of 32 bits and taken out
again from the end. `none` is a fatal error, a failed assertion, a shift by 32 or more, or an
access past the vector or the buffer.
-/

namespace CudaNs3.Network

open BitRows
set_option autoImplicit false

structure NixVector where
  nixVector : List (BitVec 32)
  used : BitVec 32
  totalBitSize : BitVec 32
  epoch : BitVec 32
  deriving DecidableEq

/-- An index and the number of bits it is stored in. -/
structure NeighborIndex where
  newBits : BitVec 32
  numberOfBits : BitVec 32
  pos : 0 < numberOfBits.toNat
  le : numberOfBits.toNat ≤ 32
  lt : newBits.toNat < 2 ^ numberOfBits.toNat
  deriving DecidableEq

namespace NixVector

def new : NixVector := ⟨[], 0, 0, 0⟩

/-- `x << k`, which is undefined if `k` is 32 or more. -/
def shl (x k : BitVec 32) : Option (BitVec 32) := if k < 32 then some (x <<< k) else none

/-- `x >> k`, likewise. -/
def shr (x k : BitVec 32) : Option (BitVec 32) := if k < 32 then some (x >>> k) else none

/-- `m_nixVector.back() = x`. -/
def setBack (words : List (BitVec 32)) (x : BitVec 32) : List (BitVec 32) := words.dropLast ++ [x]

def addNeighborIndex (v : NixVector) (newBits numberOfBits : BitVec 32) : Option NixVector :=
  if 32 < numberOfBits then none
  else do
    let currentVectorBitSize := v.totalBitSize % 32
    let words := if currentVectorBitSize = 0 then v.nixVector ++ [0] else v.nixVector
    let back ← words.getLast?
    let tempBits ← shl newBits currentVectorBitSize
    let words ←
      if 32 < currentVectorBitSize + numberOfBits then
        (shr newBits (32 - currentVectorBitSize)).map fun newBits =>
          setBack words (tempBits ||| back) ++ [newBits]
      else some (setBack words (tempBits ||| back))
    return { v with nixVector := words, totalBitSize := v.totalBitSize + numberOfBits }

def getRemainingBits (v : NixVector) : BitVec 32 := v.totalBitSize - v.used

/-- The bits of the last entry that belong to an index that spans two entries, and those of the one
before it. -/
def extractSpanning (v : NixVector) (totalRemainingBits vectorIndex extractedBits numberOfBits :
    BitVec 32) : Option (BitVec 32) := do
  let extractedBits ← shr extractedBits
    (32 - totalRemainingBits % 32 - (numberOfBits - totalRemainingBits % 32))
  let before ← v.nixVector[(vectorIndex - 1).toNat]?
  let before ← shr before (32 - (numberOfBits - totalRemainingBits % 32))
  return extractedBits ||| before

def extractNeighborIndex (v : NixVector) (numberOfBits : BitVec 32) :
    Option (BitVec 32 × NixVector) :=
  let totalRemainingBits := v.getRemainingBits
  if 32 < numberOfBits then none
  else if totalRemainingBits < numberOfBits then none
  else if numberOfBits = 0 then none
  else do
    let vectorIndex := (totalRemainingBits - 1) / 32
    let word ← v.nixVector[vectorIndex.toNat]?
    let extractedBits ← shl word (32 - totalRemainingBits % 32)
    let extractedBits ←
      if 0 < vectorIndex ∧ (totalRemainingBits - 1) % 32 < numberOfBits - 1 then
        v.extractSpanning totalRemainingBits vectorIndex extractedBits numberOfBits
      else shr extractedBits (32 - numberOfBits)
    return (extractedBits, { v with used := v.used + numberOfBits })

/-- In bytes. -/
def getSerializedSize (v : NixVector) : BitVec 32 :=
  if v.totalBitSize = 0 then 4
  else 4 + 4 + 4 * BitVec.ofNat 32 v.nixVector.length + 4

/-- The words that are written; there are none if the buffer is too small. -/
def serialize (v : NixVector) (maxSize : BitVec 32) : Option (List (BitVec 32)) :=
  if maxSize < v.getSerializedSize then none
  else if v.totalBitSize = 0 then some [v.totalBitSize]
  else some (v.totalBitSize :: v.used :: (v.nixVector ++ [v.epoch]))

/-- The words of a vector of so many bits. -/
def nixVectorLength (totalBitSize : BitVec 32) : BitVec 32 :=
  totalBitSize / 32 + if totalBitSize % 32 ≠ 0 then 1 else 0

/-- With the return value, which is zero if not all was read. -/
def deserialize (v : NixVector) (buffer : List (BitVec 32)) (size : BitVec 32) :
    Option (NixVector × BitVec 32) :=
  if size < 4 then none
  else do
    let totalBitSize ← buffer[0]?
    let v := { v with totalBitSize := totalBitSize }
    if totalBitSize = 0 then return (v, v.getSerializedSize)
    else
      let used ← buffer[1]?
      let v := { v with used := used }
      let length := nixVectorLength totalBitSize
      if size < 16 + length then none
      else if size < 16 + length * 4 then return (v, 0)
      else
        let epoch ← buffer[2 + length.toNat]?
        let v := { v with nixVector := (buffer.drop 2).take length.toNat, epoch := epoch }
        return (v, v.getSerializedSize)

/-- A packet's nix-vector goes into a buffer and a new packet reads it from there; the size that is
passed on counts the four bytes in which `Packet::Serialize` has put it. -/
def roundTrip (v : NixVector) : Option NixVector := do
  let buffer ← v.serialize v.getSerializedSize
  let (nix, nixDeserialized) ← new.deserialize buffer (v.getSerializedSize + 4)
  if nixDeserialized = 0 then none else some nix

end NixVector

inductive NixOp where
  | add (newBits numberOfBits : BitVec 32)
  | extract (numberOfBits : BitVec 32)
  | roundTrip
  deriving DecidableEq

/-- A nix-vector and the indices that have been extracted. -/
structure NixRoute where
  nix : NixVector
  extracted : List (BitVec 32)

namespace NixRoute

def step (r : NixRoute) : NixOp → Option NixRoute
  | .add newBits numberOfBits =>
    (r.nix.addNeighborIndex newBits numberOfBits).map fun nix => { r with nix := nix }
  | .extract numberOfBits =>
    (r.nix.extractNeighborIndex numberOfBits).map fun (index, nix) =>
      ⟨nix, r.extracted ++ [index]⟩
  | .roundTrip => r.nix.roundTrip.map fun nix => { r with nix := nix }

def start : NixRoute := ⟨.new, []⟩

end NixRoute

namespace NeighborIndex

/-- The number of bits of the indices. -/
def width (l : List NeighborIndex) : Nat := (l.map fun index => index.numberOfBits.toNat).sum

/-- All indices are added, and all are extracted from the last one to the first one. -/
def program (l : List NeighborIndex) : List NixOp :=
  (l.map fun index => .add index.newBits index.numberOfBits) ++
    l.reverse.map fun index => .extract index.numberOfBits

/-- Wherever the vector is serialized and read back, the indices come out as they went in, and no
bits remain. -/
def Queued (l : List NeighborIndex) : Prop :=
  ∀ ops : List NixOp, ops.filter (· ≠ .roundTrip) = program l →
    ∃ r, Transition.exec NixRoute.step .start ops = some r ∧
      r.extracted = l.reverse.map newBits ∧ r.nix.getRemainingBits = 0

end NeighborIndex

namespace NixVector
variable {v : NixVector} {bits : List Bool} {k : BitVec 32}

theorem shl_of_lt {x : BitVec 32} (h : k.toNat < 32) : shl x k = some (x <<< k.toNat) := by
  rw [shl, if_pos (BitVec.lt_def.mpr h)]
  rfl

theorem toNat_sub_eq {x y : BitVec 32} {a b : Nat} (hx : x.toNat = a) (hy : y.toNat = b)
    (h : b ≤ a) : (x - y).toNat = a - b := by
  subst hx hy
  exact BitVec.toNat_sub_of_le h

theorem shr_of_lt {x : BitVec 32} (h : k.toNat < 32) : shr x k = some (x >>> k.toNat) := by
  rw [shr, if_pos (BitVec.lt_def.mpr h)]
  rfl

/-- The words hold the bits and nothing else. -/
structure Packed (v : NixVector) (bits : List Bool) : Prop where
  shows : Shows v.nixVector bits
  length : v.nixVector.length = (bits.length + 31) / 32
  total : v.totalBitSize.toNat = bits.length

theorem packed_new : Packed new [] := ⟨shows_nil, rfl, rfl⟩

/-- The word that the next bits go into. -/
theorem Packed.back (h : Packed v bits) :
    ∃ init last, (if v.totalBitSize % 32 = 0 then v.nixVector ++ [0] else v.nixVector) =
        init ++ [last] ∧ Shows (init ++ [last]) bits ∧
      bits.length = 32 * init.length + bits.length % 32 := by
  have hlen := h.length
  have hmod : v.totalBitSize % 32 = 0 ↔ bits.length % 32 = 0 := by
    rw [← BitVec.toNat_inj, BitVec.toNat_umod, h.total]
    rfl
  by_cases hc : bits.length % 32 = 0
  · refine ⟨v.nixVector, 0, if_pos (hmod.mpr hc), h.shows.grow, ?_⟩
    rw [hlen]
    omega
  · have hne : v.nixVector ≠ [] := by
      intro hnil
      rw [hnil, List.length_nil] at hlen
      omega
    have happ := List.dropLast_append_getLast hne
    refine ⟨v.nixVector.dropLast, v.nixVector.getLast hne, ?_, ?_, ?_⟩
    · rw [if_neg fun h0 => hc (hmod.mp h0), happ]
    · rw [happ]
      exact h.shows
    · rw [List.length_dropLast, hlen]
      omega

theorem addNeighborIndex_packed (h : Packed v bits) (index : NeighborIndex)
    (hsum : bits.length + index.numberOfBits.toNat < 2 ^ 32) :
    ∃ v', v.addNeighborIndex index.newBits index.numberOfBits = some v' ∧
      Packed v' (bits ++ low index.numberOfBits.toNat index.newBits) ∧ v'.used = v.used := by
  obtain ⟨init, last, hwords, hshows, hplace⟩ := h.back
  have hle := index.le
  have hpos := index.pos
  have hcur : (v.totalBitSize % 32).toNat = bits.length % 32 := by
    rw [BitVec.toNat_umod, h.total]
    rfl
  have hmod : bits.length % 32 < 32 := Nat.mod_lt _ (by omega)
  have hback : setBack (init ++ [last])
      (index.newBits <<< (bits.length % 32) ||| last) =
        init ++ [index.newBits <<< (bits.length % 32) ||| last] := by
    simp [setBack]
  have htotal : (v.totalBitSize + index.numberOfBits).toNat =
      (bits ++ low index.numberOfBits.toNat index.newBits).length := by
    rw [BitVec.toNat_add, h.total, List.length_append, length_low, Nat.mod_eq_of_lt hsum]
  have hover : 32 < v.totalBitSize % 32 + index.numberOfBits ↔
      32 < bits.length % 32 + index.numberOfBits.toNat := by
    rw [BitVec.lt_def, BitVec.toNat_add, hcur, Nat.mod_eq_of_lt (by omega)]
    rfl
  have hlast : (init ++ [last]).getLast? = some last := by simp
  unfold addNeighborIndex
  rw [if_neg (by rw [BitVec.lt_def]; exact Nat.not_lt.mpr hle)]
  simp only [hwords, hlast, shl_of_lt (hcur ▸ hmod), hcur, hover, Option.bind_eq_bind,
    Option.bind_some, hback]
  by_cases hspan : 32 < bits.length % 32 + index.numberOfBits.toNat
  · have hshift : (32 - v.totalBitSize % 32).toNat = 32 - bits.length % 32 := by
      rw [BitVec.toNat_sub, hcur]
      simp only [BitVec.reduceToNat]
      omega
    rw [if_pos hspan, shr_of_lt (by rw [hshift]; omega), hshift]
    refine ⟨_, rfl, ⟨hshows.push_across hplace (by omega) hmod index.lt, ?_, htotal⟩, rfl⟩
    simp only [List.length_append, List.length_singleton, length_low]
    omega
  · rw [if_neg hspan]
    refine ⟨_, rfl, ⟨hshows.push_within (by omega) hplace (by omega) index.lt, ?_, htotal⟩, rfl⟩
    simp only [List.length_append, List.length_singleton, length_low]
    omega

/-- What an index that spans two entries is put together from. -/
theorem extractSpanning_eq {r n q : Nat} {hi lo remaining vectorIndex numberOfBits : BitVec 32}
    (hr : (remaining % 32).toNat = r) (hn : numberOfBits.toNat = n) (hrpos : 0 < r) (hrn : r < n)
    (hle : n ≤ 32) (hq : (vectorIndex - 1).toNat = q) (hlo : v.nixVector[q]? = some lo) :
    v.extractSpanning remaining vectorIndex hi numberOfBits =
      some (hi >>> (32 - r - (n - r)) ||| lo >>> (32 - (n - r))) := by
  have hpart : (numberOfBits - remaining % 32).toNat = n - r := by
    exact toNat_sub_eq hn hr (Nat.le_of_lt hrn)
  have hlow : (32 - (numberOfBits - remaining % 32)).toNat = 32 - (n - r) :=
    toNat_sub_eq rfl hpart (by omega)
  have hdown : (32 - remaining % 32 - (numberOfBits - remaining % 32)).toNat =
      32 - r - (n - r) :=
    toNat_sub_eq (toNat_sub_eq rfl hr (by omega)) hpart (by omega)
  unfold extractSpanning
  simp only [shr_of_lt (hdown ▸ (by omega : 32 - r - (n - r) < 32)), hq, hlo,
    shr_of_lt (hlow ▸ (by omega : 32 - (n - r) < 32)), hdown, hlow, Option.bind_eq_bind,
    Option.bind_some]
  rfl

theorem pred_div_of_mod_ne {r : Nat} (h : r % 32 ≠ 0) : (r - 1) / 32 = r / 32 := by
  omega

/-- The last of the remaining bits are taken out, unless they end where a word does. -/
theorem extractNeighborIndex_packed {rest : List Bool} {index : NeighborIndex}
    (h : Packed v (bits ++ low index.numberOfBits.toNat index.newBits ++ rest))
    (hused : v.used.toNat = rest.length) :
    v.extractNeighborIndex index.numberOfBits =
      if (bits.length + index.numberOfBits.toNat) % 32 = 0 then none
      else some (index.newBits, { v with used := v.used + index.numberOfBits }) := by
  have hle := index.le
  have hpos := index.pos
  obtain ⟨n, hn⟩ : ∃ n, index.numberOfBits.toNat = n := ⟨_, rfl⟩
  obtain ⟨R, hR⟩ : ∃ R, bits.length + n = R := ⟨_, rfl⟩
  have htotal := h.total
  have hlen := h.length
  simp only [List.length_append, length_low, hn, hR] at htotal hlen
  rw [hn, hR]
  rw [hn] at hle hpos
  have hrem : v.getRemainingBits.toNat = R := by
    rw [getRemainingBits, toNat_sub_eq rfl hused (by omega)]
    omega
  have hmod : (v.getRemainingBits % 32).toNat = R % 32 := by
    rw [BitVec.toNat_umod, hrem]
    rfl
  have hpred : (v.getRemainingBits - 1).toNat = R - 1 := toNat_sub_eq hrem rfl (by omega)
  have hindex : ((v.getRemainingBits - 1) / 32).toNat = (R - 1) / 32 := by
    rw [BitVec.toNat_udiv, hpred]
    rfl
  have hshift : (32 - v.getRemainingBits % 32).toNat = 32 - R % 32 :=
    toNat_sub_eq rfl hmod (Nat.le_of_lt (Nat.mod_lt R (by decide)))
  have hspan : 0 < (v.getRemainingBits - 1) / 32 ∧
      (v.getRemainingBits - 1) % 32 < index.numberOfBits - 1 ↔
        0 < (R - 1) / 32 ∧ (R - 1) % 32 < n - 1 := by
    have hlast : (index.numberOfBits - 1).toNat = n - 1 := toNat_sub_eq hn rfl hpos
    rw [BitVec.lt_def, BitVec.lt_def, hindex, BitVec.toNat_umod, hpred, hlast]
    rfl
  have hRn : n ≤ R := hR ▸ Nat.le_add_left n bits.length
  have hwords : (R - 1) / 32 < v.nixVector.length := by
    rw [hlen]
    omega
  clear hlen htotal
  obtain ⟨word, hword⟩ : ∃ word, v.nixVector[(R - 1) / 32]? = some word :=
    ⟨_, List.getElem?_eq_getElem hwords⟩
  unfold extractNeighborIndex
  simp only
  rw [if_neg (by rw [BitVec.lt_def, hn]; exact Nat.not_lt.mpr hle),
    if_neg (by rw [BitVec.lt_def, hrem, hn]; exact Nat.not_lt.mpr hRn),
    if_neg (by rw [← BitVec.toNat_inj, hn]; exact Nat.ne_of_gt hpos), hindex, hword]
  simp only [Option.bind_eq_bind, Option.bind_some]
  by_cases hfull : R % 32 = 0
  · -- the shift is by 32
    rw [if_pos hfull, shl, if_neg (by rw [BitVec.lt_def, hshift, hfull]; decide)]
    rfl
  have hword' : (R - 1) / 32 = R / 32 := pred_div_of_mod_ne hfull
  have hquot := Nat.div_add_mod R 32
  rw [if_neg hfull, shl_of_lt (by rw [hshift]; omega), Option.bind_some, hshift]
  rw [hword'] at hword
  by_cases hin : 0 < (R - 1) / 32 ∧ (R - 1) % 32 < n - 1
  · obtain ⟨q, hq⟩ : ∃ q, R / 32 = q + 1 := ⟨R / 32 - 1, by omega⟩
    obtain ⟨before, hbefore⟩ : ∃ before, v.nixVector[q]? = some before :=
      ⟨_, List.getElem?_eq_getElem (by omega)⟩
    have hq' : ((v.getRemainingBits - 1) / 32 - 1).toNat = q :=
      toNat_sub_eq (hindex.trans (hword'.trans hq)) rfl (Nat.le_add_left 1 q)
    have hplace (j : Nat) : 32 * (q + 1) + R % 32 - n + j = bits.length + j := by
      rw [← hq]
      omega
    have heq := eq_of_last h.shows index.lt fun j => by
      rw [hn, getLsbD_across (hq ▸ hword) hbefore (by omega) (by omega : R % 32 < n) hle (j := j),
        hplace]
    rw [if_pos (hspan.mpr hin), extractSpanning_eq hmod hn (by omega) (by omega) hle hq' hbefore,
      heq]
    rfl
  · have hdown : (32 - index.numberOfBits).toNat = 32 - n := toNat_sub_eq rfl hn hle
    have hplace (j : Nat) : 32 * (R / 32) + R % 32 - n + j = bits.length + j := by omega
    have heq := eq_of_last h.shows index.lt fun j => by
      rw [hn, getLsbD_within hword (by omega : n ≤ R % 32) (by omega) (j := j), hplace]
    rw [if_neg fun hc => hin (hspan.mp hc), shr_of_lt (by rw [hdown]; omega), hdown, heq]
    rfl

theorem toNat_nixVectorLength (h : Packed v bits) :
    (nixVectorLength v.totalBitSize).toNat = v.nixVector.length := by
  have hlt := v.totalBitSize.isLt
  have htotal := h.total
  have hmod : v.totalBitSize % 32 = 0 ↔ bits.length % 32 = 0 := by
    rw [← BitVec.toNat_inj, BitVec.toNat_umod, htotal]
    rfl
  rw [nixVectorLength, h.length, BitVec.toNat_add, BitVec.toNat_udiv, htotal]
  by_cases hc : bits.length % 32 = 0
  · rw [if_neg (not_not.mpr (hmod.mpr hc))]
    simp only [BitVec.reduceToNat]
    omega
  · rw [if_pos fun h0 => hc (hmod.mp h0)]
    simp only [BitVec.reduceToNat]
    omega

theorem toNat_getSerializedSize (h : Packed v bits) (hzero : v.totalBitSize ≠ 0) :
    v.getSerializedSize.toNat = 12 + 4 * v.nixVector.length := by
  have hlt := v.totalBitSize.isLt
  have htotal := h.total
  have hlen := h.length
  have hcount : (BitVec.ofNat 32 v.nixVector.length).toNat = v.nixVector.length := by
    rw [BitVec.toNat_ofNat]
    omega
  rw [getSerializedSize, if_neg hzero]
  simp only [BitVec.toNat_add, BitVec.toNat_mul, hcount, BitVec.reduceToNat]
  omega

theorem serialize_eq (hzero : v.totalBitSize ≠ 0) : v.serialize v.getSerializedSize =
    some (v.totalBitSize :: v.used :: (v.nixVector ++ [v.epoch])) := by
  rw [serialize, if_neg (by simp), if_neg hzero]

/-- With at least four bytes more than were written, all is read. -/
theorem deserialize_eq (h : Packed v bits) (hzero : v.totalBitSize ≠ 0) {size : BitVec 32}
    (hsize : v.getSerializedSize.toNat + 4 ≤ size.toNat) :
    new.deserialize (v.totalBitSize :: v.used :: (v.nixVector ++ [v.epoch])) size =
      some (v, v.getSerializedSize) := by
  have hlt := v.totalBitSize.isLt
  have htotal := h.total
  have hlen := h.length
  have hlength := toNat_nixVectorLength h
  rw [toNat_getSerializedSize h hzero] at hsize
  unfold deserialize
  rw [if_neg (by rw [BitVec.lt_def]; simp only [BitVec.reduceToNat]; omega)]
  simp only [List.getElem?_cons_zero, List.getElem?_cons_succ, Option.bind_eq_bind,
    Option.bind_some]
  rw [if_neg hzero, if_neg, if_neg, hlength]
  · simp only [Nat.add_comm 2, List.getElem?_cons_succ, List.getElem?_concat_length,
      List.drop_succ_cons, List.drop_zero, List.take_left, Option.bind_some]
    rfl
  · rw [BitVec.lt_def, BitVec.toNat_add, BitVec.toNat_mul, hlength]
    simp only [BitVec.reduceToNat]
    omega
  · rw [BitVec.lt_def, BitVec.toNat_add, hlength]
    simp only [BitVec.reduceToNat]
    omega

/-- The size that was written is not enough to read a vector back. -/
theorem deserialize_short (h : Packed v bits) (hzero : v.totalBitSize ≠ 0) :
    ∀ v' ∈ (new.deserialize (v.totalBitSize :: v.used :: (v.nixVector ++ [v.epoch]))
      v.getSerializedSize), v'.2 = 0 := by
  have hlt := v.totalBitSize.isLt
  have htotal := h.total
  have hlen := h.length
  have hlength := toNat_nixVectorLength h
  have hsize := toNat_getSerializedSize h hzero
  intro v' hv'
  unfold deserialize at hv'
  rw [if_neg (by rw [BitVec.lt_def, hsize]; simp only [BitVec.reduceToNat]; omega)] at hv'
  simp only [List.getElem?_cons_zero, List.getElem?_cons_succ, Option.bind_eq_bind,
    Option.bind_some] at hv'
  rw [if_neg hzero] at hv'
  split at hv'
  · cases hv'
  · rw [if_pos] at hv'
    · obtain rfl := Option.some.inj hv'
      rfl
    · rw [BitVec.lt_def, hsize, BitVec.toNat_add, BitVec.toNat_mul, hlength]
      simp only [BitVec.reduceToNat]
      omega

/-- What is read back is what was written, up to the epoch of a vector without bits. -/
theorem roundTrip_packed (h : Packed v bits) (hused : v.used.toNat ≤ bits.length) :
    ∃ v', v.roundTrip = some v' ∧ Packed v' bits ∧ v'.used = v.used := by
  have htotal := h.total
  by_cases hzero : v.totalBitSize = 0
  · rw [hzero] at htotal
    obtain rfl : bits = [] := List.length_eq_zero_iff.mp htotal.symm
    refine ⟨new, ?_, packed_new, ?_⟩
    · unfold roundTrip serialize getSerializedSize
      simp only [hzero, if_true]
      rfl
    · rw [← BitVec.toNat_inj]
      exact (Nat.le_zero.mp hused).symm
  · have hsize := toNat_getSerializedSize h hzero
    have hlen := h.length
    have hlt := v.totalBitSize.isLt
    have hread := @deserialize_eq v bits h hzero (v.getSerializedSize + 4) (by
      rw [BitVec.toNat_add, hsize]
      simp only [BitVec.reduceToNat]
      omega)
    refine ⟨v, ?_, h, rfl⟩
    unfold roundTrip
    rw [serialize_eq hzero]
    simp only [Option.bind_eq_bind, Option.bind_some, hread]
    rw [if_neg]
    rw [← BitVec.toNat_inj, hsize]
    simp only [BitVec.reduceToNat]
    omega

end NixVector

namespace NeighborIndex
variable {l pre rest todo : List NeighborIndex} {index : NeighborIndex} {v : NixVector}
  {r r' : NixRoute} {ops : List NixOp}

/-- The bits of the indices, one index after the other. -/
def row (l : List NeighborIndex) : List Bool :=
  l.flatMap fun index => low index.numberOfBits.toNat index.newBits

@[simp] theorem width_nil : width [] = 0 := rfl

@[simp] theorem width_cons : width (index :: l) = index.numberOfBits.toNat + width l := rfl

@[simp] theorem width_append : width (l ++ rest) = width l + width rest := by simp [width]

@[simp] theorem length_row : (row l).length = width l := by
  simp [row, width, List.length_flatMap]

/-- `pre` remains in the vector, and `rest` has been extracted. -/
structure Holding (pre rest : List NeighborIndex) (v : NixVector) : Prop where
  packed : v.Packed (row (pre ++ rest))
  used : v.used.toNat = width rest

theorem Holding.add (h : Holding pre [] v) (hsum : width (pre ++ [index]) < 2 ^ 32) :
    ∃ v', v.addNeighborIndex index.newBits index.numberOfBits = some v' ∧
      Holding (pre ++ [index]) [] v' := by
  have hpacked := h.packed
  rw [List.append_nil] at hpacked
  obtain ⟨v', hadd, hpacked', hused⟩ :=
    NixVector.addNeighborIndex_packed hpacked index (by simpa using hsum)
  refine ⟨v', hadd, ?_, hused ▸ h.used⟩
  simpa [row] using hpacked'

theorem Holding.extract (h : Holding (pre ++ [index]) rest v) :
    (width (pre ++ [index]) % 32 = 0 ∧ v.extractNeighborIndex index.numberOfBits = none) ∨
      width (pre ++ [index]) % 32 ≠ 0 ∧
        ∃ v', v.extractNeighborIndex index.numberOfBits = some (index.newBits, v') ∧
          Holding pre (index :: rest) v' := by
  have hpacked : v.Packed (row pre ++ low index.numberOfBits.toNat index.newBits ++ row rest) := by
    simpa [row] using h.packed
  have hextract := NixVector.extractNeighborIndex_packed hpacked (by simpa using h.used)
  rw [length_row] at hextract
  have hwidth : width (pre ++ [index]) = width pre + index.numberOfBits.toNat := by simp
  rw [hwidth]
  by_cases hfull : (width pre + index.numberOfBits.toNat) % 32 = 0
  · rw [if_pos hfull] at hextract
    exact .inl ⟨hfull, hextract⟩
  · rw [if_neg hfull] at hextract
    refine .inr ⟨hfull, _, hextract, ⟨?_, ?_⟩⟩
    · have hbits := h.packed
      rw [List.append_assoc, List.singleton_append] at hbits
      exact ⟨hbits.shows, hbits.length, hbits.total⟩
    · have htotal := h.packed.total
      have hlt := v.totalBitSize.isLt
      simp only [length_row, width_append, width_cons, width_nil] at htotal
      rw [BitVec.toNat_add, h.used, width_cons]
      omega

theorem Holding.roundTrip (h : Holding pre rest v) :
    ∃ v', v.roundTrip = some v' ∧ Holding pre rest v' := by
  obtain ⟨v', htrip, hpacked, hused⟩ :=
    NixVector.roundTrip_packed h.packed (by simp [h.used])
  exact ⟨v', htrip, hpacked, hused ▸ h.used⟩

/-- The rest of the program is performed to its end, wherever the vector is read back. -/
theorem Holding.exec (h : Holding pre rest r.nix) (hphase : todo ≠ [] → rest = [])
    (hops : ops.filter (· ≠ .roundTrip) =
      (todo.map fun index => .add index.newBits index.numberOfBits) ++
        (pre ++ todo).reverse.map fun index => .extract index.numberOfBits)
    (hsum : width (pre ++ todo) < 2 ^ 32)
    (hends : ∀ l, l <+: pre ++ todo → l ≠ [] → width l % 32 ≠ 0) :
    ∃ r', Transition.exec NixRoute.step r ops = some r' ∧
      r'.extracted = r.extracted ++ (pre ++ todo).reverse.map newBits ∧
        Holding [] (pre ++ todo ++ rest) r'.nix := by
  induction ops generalizing pre rest todo r with
  | nil =>
    simp only [List.filter_nil, List.nil_eq_append_iff, List.map_eq_nil_iff,
      List.reverse_eq_nil_iff, List.append_eq_nil_iff] at hops
    obtain ⟨rfl, rfl, -⟩ := hops
    exact ⟨r, rfl, by simp, by simpa using h⟩
  | cons op ops ih =>
    cases op with
    | roundTrip =>
      obtain ⟨v', htrip, hnext⟩ := h.roundTrip
      rw [List.filter_cons_of_neg (by simp)] at hops
      obtain ⟨r', hexec, hout, hend⟩ := ih (r := { r with nix := v' }) hnext hphase hops hsum hends
      refine ⟨r', Transition.exec_cons_eq_some.mpr ⟨_, ?_, hexec⟩, hout, hend⟩
      rw [NixRoute.step, htrip, Option.map_some]
    | add newBits numberOfBits =>
      rw [List.filter_cons_of_pos (by simp)] at hops
      cases todo with
      | nil =>
        rcases pre.eq_nil_or_concat with rfl | ⟨pre, index, rfl⟩ <;> simp at hops
      | cons index todo =>
        obtain rfl := hphase (List.cons_ne_nil _ _)
        simp only [List.map_cons, List.cons_append, List.cons.injEq, NixOp.add.injEq] at hops
        obtain ⟨⟨rfl, rfl⟩, hops⟩ := hops
        have happ : pre ++ index :: todo = pre ++ [index] ++ todo := by simp
        rw [happ] at hops hsum hends ⊢
        have hfits : width (pre ++ [index]) < 2 ^ 32 := by
          rw [width_append] at hsum
          omega
        obtain ⟨v', hadd, hnext⟩ := h.add hfits
        obtain ⟨r', hexec, hout, hend⟩ :=
          ih (r := { r with nix := v' }) hnext (fun _ => rfl) hops hsum hends
        refine ⟨r', Transition.exec_cons_eq_some.mpr ⟨_, ?_, hexec⟩, hout, hend⟩
        rw [NixRoute.step, hadd, Option.map_some]
    | extract numberOfBits =>
      rw [List.filter_cons_of_pos (by simp)] at hops
      cases todo with
      | cons index todo => simp at hops
      | nil =>
        rcases pre.eq_nil_or_concat with rfl | ⟨pre, index, rfl⟩
        · simp at hops
        simp only [List.map_nil, List.append_nil, List.nil_append, List.concat_eq_append,
          List.reverse_append, List.reverse_singleton, List.singleton_append, List.map_cons,
          List.cons.injEq, NixOp.extract.injEq] at h hops hsum hends ⊢
        obtain ⟨rfl, hops⟩ := hops
        rcases h.extract with ⟨hfull, -⟩ | ⟨-, v', hextract, hnext⟩
        · exact absurd hfull (hends _ (List.prefix_refl _) (by simp))
        have hphase : ([] : List NeighborIndex) ≠ [] → index :: rest = [] :=
          fun hne => absurd rfl hne
        obtain ⟨r', hexec, hout, hend⟩ := ih (r := ⟨v', r.extracted ++ [index.newBits]⟩) hnext hphase
          (by simpa using hops)
          (by simp only [List.append_nil]; rw [width_append] at hsum; omega)
          (fun l hl => hends l (by
            rw [List.append_nil] at hl
            exact hl.trans (List.prefix_append pre [index])))
        refine ⟨r', Transition.exec_cons_eq_some.mpr ⟨_, ?_, hexec⟩, ?_, ?_⟩
        · rw [NixRoute.step, hextract, Option.map_some]
        · simpa using hout
        · simpa using hend

/-- What all additions do to the counters. -/
theorem exec_adds (h : Transition.exec NixRoute.step r
      (l.map fun index => .add index.newBits index.numberOfBits) = some r') :
    r'.nix.totalBitSize = r.nix.totalBitSize + BitVec.ofNat 32 (width l) ∧
      r'.nix.used = r.nix.used := by
  induction l generalizing r with
  | nil =>
    obtain rfl := Option.some.inj h
    simp
  | cons index l ih =>
    obtain ⟨r₁, hstep, hrest⟩ := Transition.exec_cons_eq_some.mp h
    obtain ⟨v', hadd, rfl⟩ := Option.map_eq_some_iff.mp hstep
    obtain ⟨htotal, hused⟩ := ih hrest
    have hcounters : v'.totalBitSize = r.nix.totalBitSize + index.numberOfBits ∧
        v'.used = r.nix.used := by
      unfold NixVector.addNeighborIndex at hadd
      split at hadd
      · cases hadd
      simp only [Option.bind_eq_bind, Option.bind_eq_some_iff] at hadd
      obtain ⟨back, -, tempBits, -, hadd⟩ := hadd
      split at hadd <;> obtain ⟨words, -, hv⟩ := Option.bind_eq_some_iff.mp hadd <;>
        obtain rfl := Option.some.inj hv <;> exact ⟨rfl, rfl⟩
    refine ⟨?_, hused.trans hcounters.2⟩
    rw [htotal, hcounters.1, width_cons, BitVec.ofNat_add, BitVec.ofNat_toNat,
      BitVec.setWidth_eq, BitVec.add_assoc]

/-- No more bits are extracted than remain. -/
theorem width_le_of_exec (h : Transition.exec NixRoute.step r
      (l.map fun index => .extract index.numberOfBits) = some r') :
    width l ≤ r.nix.getRemainingBits.toNat := by
  induction l generalizing r with
  | nil => exact Nat.zero_le _
  | cons index l ih =>
    obtain ⟨r₁, hstep, hrest⟩ := Transition.exec_cons_eq_some.mp h
    obtain ⟨⟨bits, v'⟩, hextract, rfl⟩ := Option.map_eq_some_iff.mp hstep
    have hle := ih hrest
    simp only [NixVector.extractNeighborIndex] at hextract
    split at hextract
    · cases hextract
    split at hextract
    · cases hextract
    · rename_i henough
      split at hextract
      · cases hextract
      have hused : v'.getRemainingBits = r.nix.getRemainingBits - index.numberOfBits := by
        simp only [Option.bind_eq_bind, Option.bind_eq_some_iff] at hextract
        obtain ⟨word, -, shifted, -, hextract⟩ := hextract
        split at hextract <;> obtain ⟨x, -, hv⟩ := Option.bind_eq_some_iff.mp hextract <;>
          obtain ⟨-, rfl⟩ := Prod.mk.inj (Option.some.inj hv) <;>
          exact sub_add_eq_sub_sub _ _ _
      have hlt := r.nix.getRemainingBits.isLt
      rw [BitVec.lt_def] at henough
      rw [hused, BitVec.toNat_sub] at hle
      rw [width_cons]
      omega

theorem Holding.exec_adds (h : Holding pre [] r.nix) (hsum : width (pre ++ todo) < 2 ^ 32)
    (hexec : Transition.exec NixRoute.step r
      (todo.map fun index => .add index.newBits index.numberOfBits) = some r') :
    Holding (pre ++ todo) [] r'.nix := by
  induction todo generalizing pre r with
  | nil =>
    obtain rfl := Option.some.inj hexec
    rwa [List.append_nil]
  | cons index todo ih =>
    have happ : pre ++ index :: todo = pre ++ [index] ++ todo := by simp
    rw [happ] at hsum ⊢
    obtain ⟨r₁, hstep, hrest⟩ := Transition.exec_cons_eq_some.mp hexec
    have hfits : width (pre ++ [index]) < 2 ^ 32 := by
      rw [width_append] at hsum
      omega
    obtain ⟨v', hadd, hnext⟩ := h.add hfits
    rw [NixRoute.step, hadd, Option.map_some] at hstep
    obtain rfl := Option.some.inj hstep
    exact ih hnext hsum hrest

/-- Where all indices can be extracted, none of them ends where a word does. -/
theorem Holding.ends_of_exec (h : Holding pre rest r.nix)
    (hexec : Transition.exec NixRoute.step r
      (pre.reverse.map fun index => .extract index.numberOfBits) = some r') :
    ∀ l, l <+: pre → l ≠ [] → width l % 32 ≠ 0 := by
  induction hn : pre.length generalizing pre rest r with
  | zero =>
    obtain rfl := List.length_eq_zero_iff.mp hn
    intro l hl hne
    exact absurd (List.prefix_nil.mp hl) hne
  | succ n ih =>
    rcases pre.eq_nil_or_concat with rfl | ⟨pre, index, rfl⟩
    · simp at hn
    simp only [List.concat_eq_append, List.reverse_append, List.reverse_singleton,
      List.singleton_append, List.map_cons] at h hexec
    obtain ⟨r₁, hstep, hrest⟩ := Transition.exec_cons_eq_some.mp hexec
    rcases h.extract with ⟨-, hnone⟩ | ⟨hfull, v', hextract, hnext⟩
    · rw [NixRoute.step, hnone] at hstep
      cases hstep
    rw [NixRoute.step, hextract, Option.map_some] at hstep
    obtain rfl := Option.some.inj hstep
    intro l hl hne
    rw [List.concat_eq_append, List.prefix_concat_iff] at hl
    rcases hl with rfl | hl
    · exact hfull
    · exact ih hnext hrest (by simpa using hn) l hl hne

theorem holding_start : Holding [] [] NixRoute.start.nix := ⟨NixVector.packed_new, rfl⟩

/-- The indices come out again exactly if their bits can be counted and none of them, the last one
included, ends where a word of the vector does: there the word would be shifted by its width. -/
theorem queued_iff (l : List NeighborIndex) :
    Queued l ↔ width l < 2 ^ 32 ∧ ∀ l', l' <+: l → l' ≠ [] → width l' % 32 ≠ 0 := by
  constructor
  · intro h
    have hfilter : (program l).filter (· ≠ .roundTrip) = program l := by
      rw [List.filter_eq_self, program]
      intro op hop
      rcases List.mem_append.mp hop with hop | hop
      · obtain ⟨index, -, rfl⟩ := List.mem_map.mp hop
        simp
      · obtain ⟨index, -, rfl⟩ := List.mem_map.mp hop
        simp
    obtain ⟨r', hexec, -, -⟩ := h (program l) hfilter
    obtain ⟨r, hadds, hextracts⟩ := Transition.exec_append.mp hexec
    obtain ⟨htotal, hused⟩ := exec_adds hadds
    have hsum : width l < 2 ^ 32 := by
      have hle := width_le_of_exec hextracts
      have hrev : width l.reverse = width l := by simp [width]
      have hremaining : r.nix.getRemainingBits = BitVec.ofNat 32 (width l) := by
        rw [NixVector.getRemainingBits, htotal, hused]
        simp [NixRoute.start, NixVector.new]
      rw [hrev, hremaining, BitVec.toNat_ofNat] at hle
      exact Nat.lt_of_le_of_lt hle (Nat.mod_lt _ (by decide))
    have hall := holding_start.exec_adds (by simpa using hsum) hadds
    rw [List.nil_append] at hall
    exact ⟨hsum, hall.ends_of_exec hextracts⟩
  · rintro ⟨hsum, hends⟩ ops hops
    have hphase : l ≠ [] → ([] : List NeighborIndex) = [] := fun _ => rfl
    obtain ⟨r, hexec, hout, hend⟩ := holding_start.exec hphase
      (by rw [List.nil_append]; exact hops) (by simpa using hsum) (by simpa using hends)
    simp only [List.nil_append, List.append_nil] at hend
    refine ⟨r, hexec, by simpa [NixRoute.start] using hout, ?_⟩
    rw [NixVector.getRemainingBits, ← BitVec.toNat_inj, BitVec.toNat_sub, hend.used,
      hend.packed.total]
    have hlt := r.nix.used.isLt
    rw [hend.used] at hlt
    simp only [List.nil_append, length_row, BitVec.reduceToNat]
    omega

/-- One index of 32 bits: to take it out, its word is shifted by 32. -/
theorem not_queued : ¬ Queued [⟨5, 32, by decide, by decide, by decide⟩] := by
  intro h
  obtain ⟨r, hexec, -⟩ := h (program [⟨5, 32, by decide, by decide, by decide⟩]) (by decide)
  have hnone : (Transition.exec NixRoute.step .start
    (program [⟨5, 32, by decide, by decide, by decide⟩])).isNone = true := by decide +kernel
  rw [hexec] at hnone
  cases hnone

end NeighborIndex

end CudaNs3.Network
