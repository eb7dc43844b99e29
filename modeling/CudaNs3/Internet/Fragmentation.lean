import Mathlib.Algebra.Group.Nat.Defs
import CudaNs3.Lib.Pieces

/-!
# IPv4 fragmentation

`Ipv4L3Protocol::DoFragmentation`, the sending side that calls it, and what arrives of a datagram
that is cut again and again on its way. `none` is a failed assertion or an abort.
-/

namespace CudaNs3.Internet

open Pieces
set_option autoImplicit false

/-- The fields that fragmentation and reassembly use. -/
structure Ipv4Header where
  payloadSize : BitVec 16
  identification : BitVec 16
  ttl : BitVec 8
  protocol : BitVec 8
  flags : BitVec 3
  fragmentOffset : BitVec 16
  source : BitVec 32
  destination : BitVec 32
  headerSize : BitVec 16
  deriving DecidableEq

namespace Ipv4Header

def moreFragmentsFlag : BitVec 3 := 2

def getSerializedSize (h : Ipv4Header) : BitVec 32 := h.headerSize.setWidth 32

def setMoreFragments (h : Ipv4Header) : Ipv4Header := { h with flags := h.flags ||| moreFragmentsFlag }

def setLastFragment (h : Ipv4Header) : Ipv4Header := { h with flags := h.flags &&& ~~~moreFragmentsFlag }

def isLastFragment (h : Ipv4Header) : Bool := h.flags &&& moreFragmentsFlag == 0

/-- Aborts when the offset is not a multiple of 8 bytes. -/
def setFragmentOffset (h : Ipv4Header) (offsetBytes : BitVec 16) : Option Ipv4Header :=
  if offsetBytes &&& 7 = 0 then some { h with fragmentOffset := offsetBytes } else none

def setPayloadSize (h : Ipv4Header) (size : BitVec 16) : Ipv4Header := { h with payloadSize := size }

def setTtl (h : Ipv4Header) (ttl : BitVec 8) : Ipv4Header := { h with ttl := ttl }

variable (h : Ipv4Header)

@[simp] theorem isLastFragment_setMoreFragments : h.setMoreFragments.isLastFragment = false := by
  have hall : ∀ b : BitVec 3, ((b ||| 2) &&& 2 == 0) = false := by decide
  exact hall h.flags

@[simp] theorem isLastFragment_setLastFragment : h.setLastFragment.isLastFragment = true := by
  have hall : ∀ b : BitVec 3, ((b &&& ~~~2) &&& 2 == 0) = true := by decide
  exact hall h.flags

end Ipv4Header

/-- A payload and its header, `Ipv4PayloadHeaderPair`. -/
abbrev Datagram := List UInt8 × Ipv4Header

def getSize (p : List UInt8) : BitVec 32 := BitVec.ofNat 32 p.length

/-- `Packet::CreateFragment` on the bytes. -/
def createFragment (p : List UInt8) (start length : BitVec 32) : Option (List UInt8) :=
  if start + length ≤ getSize p then some ((p.drop start.toNat).take length.toNat) else none

/-- The loop of `DoFragmentation` from one offset on. -/
def fragmentLoop (p : List UInt8) (ipv4Header : Ipv4Header) (fragmentSize : BitVec 32) :
    Nat → BitVec 16 → Option (List Datagram)
  | 0, _ => none
  | fuel + 1, offset => do
    let moreFragment := decide (offset.setWidth 32 + fragmentSize < getSize p)
    let partSize := if moreFragment then fragmentSize else getSize p - offset.setWidth 32
    let fragmentHeader :=
      if moreFragment || !ipv4Header.isLastFragment then ipv4Header.setMoreFragments
      else ipv4Header.setLastFragment
    let fragment ← createFragment p (offset.setWidth 32) partSize
    let fragmentHeader ← fragmentHeader.setFragmentOffset (offset + ipv4Header.fragmentOffset)
    let rest ←
      if moreFragment then
        fragmentLoop p ipv4Header fragmentSize fuel (offset + partSize.setWidth 16)
      else some []
    some ((fragment, fragmentHeader.setPayloadSize (partSize.setWidth 16)) :: rest)

/-- `fragmentSize` of `DoFragmentation`: what the MTU leaves, down to a multiple of 8. -/
def fragmentablePart (outIfaceMtu : BitVec 32) (ipv4Header : Ipv4Header) : BitVec 32 :=
  (outIfaceMtu - ipv4Header.getSerializedSize) &&& ~~~7

/-- Every fragment takes at least one byte, so the length bounds the number of rounds. -/
def doFragmentation (packet : List UInt8) (ipv4Header : Ipv4Header) (outIfaceMtu : BitVec 32) :
    Option (List Datagram) :=
  if ipv4Header.getSerializedSize = 20 then
    fragmentLoop packet ipv4Header (fragmentablePart outIfaceMtu ipv4Header) (packet.length + 1) 0
  else none

/-- What goes out on an interface that is up. -/
def sendRealOut (mtu : BitVec 16) (d : Datagram) : Option (List Datagram) :=
  if mtu.setWidth 32 < getSize d.1 + d.2.getSerializedSize then
    doFragmentation d.1 d.2 (mtu.setWidth 32)
  else some [d]

/-- What a router hands to `SendRealOut`; nothing when the time to live is over. -/
def ipForward (d : Datagram) : Option Datagram :=
  let ipHeader := d.2.setTtl (d.2.ttl - 1)
  if ipHeader.ttl = 0 then none else some (d.1, ipHeader)

/-- `d` arrives somewhere on a path from where `origin` is sent, every MTU 68 or more. -/
inductive Travels (origin : Datagram) : Datagram → Prop where
  | sent {mtu : BitVec 16} {fs : List Datagram} {d : Datagram} :
      68 ≤ mtu.toNat → sendRealOut mtu origin = some fs → d ∈ fs → Travels origin d
  | forwarded {mtu : BitVec 16} {fs : List Datagram} {d d' f : Datagram} :
      Travels origin d → ipForward d = some d' → 68 ≤ mtu.toNat → sendRealOut mtu d' = some fs →
      f ∈ fs → Travels origin f

abbrev FragmentKey := BitVec 64 × BitVec 32

/-- `addressCombination` and `idProto`. -/
def Ipv4Header.fragmentKey (h : Ipv4Header) : FragmentKey :=
  ((h.source.setWidth 64 <<< 32) ||| h.destination.setWidth 64,
    (h.identification.setWidth 32 <<< 16) ||| h.protocol.setWidth 32)

def Datagram.piece (d : Datagram) : Piece UInt8 := ⟨d.2.fragmentOffset.toNat, d.1⟩

/-- What a fragment of `payload` is, whichever routers cut it. -/
structure FragmentOf (payload : List UInt8) (key : FragmentKey) (d : Datagram) : Prop where
  piece : (Datagram.piece d).Of payload
  last : d.2.isLastFragment = true ↔ (Datagram.piece d).stop = payload.length
  aligned : 8 ∣ d.2.fragmentOffset.toNat
  key : d.2.fragmentKey = key
  headerSize : d.2.headerSize = 20

/-- The datagrams that the claims on reassembly are about: not fragmented yet, and short enough
for the length field of the header. -/
structure Whole (d : Datagram) : Prop where
  length_le : d.1.length ≤ 65515
  offset : d.2.fragmentOffset = 0
  last : d.2.isLastFragment = true
  headerSize : d.2.headerSize = 20

variable {payload : List UInt8} {key : FragmentKey} {d f : Datagram}

theorem Whole.fragmentOf (h : Whole d) : FragmentOf d.1 d.2.fragmentKey d where
  piece := by
    refine ⟨?_, ?_⟩
    · simp [Datagram.piece, Piece.stop, h.offset]
    · simp [Datagram.piece, h.offset]
  last := by simp [Datagram.piece, Piece.stop, h.offset, h.last]
  aligned := by simp [h.offset]
  key := rfl
  headerSize := h.headerSize

theorem and_seven_eq_zero_iff {x : BitVec 16} : x &&& 7 = 0 ↔ 8 ∣ x.toNat := by
  have hmod : (x &&& 7).toNat = x.toNat % 8 := by
    rw [BitVec.toNat_and]
    exact Nat.and_two_pow_sub_one_eq_mod x.toNat 3
  rw [← BitVec.toNat_inj, hmod]
  exact (Nat.dvd_iff_mod_eq_zero).symm

theorem toNat_and_not_seven (x : BitVec 32) : (x &&& ~~~(7 : BitVec 32)).toNat = x.toNat / 8 * 8 := by
  have hseven : ∀ i, i < 32 → (7 : BitVec 32).getLsbD i = decide (i < 3) := by decide +kernel
  have hshift : x &&& ~~~(7 : BitVec 32) = (x >>> 3) <<< 3 := by
    apply BitVec.eq_of_getLsbD_eq
    intro i hi
    rw [BitVec.getLsbD_and, BitVec.getLsbD_not, hseven i hi, BitVec.getLsbD_shiftLeft,
      BitVec.getLsbD_ushiftRight]
    by_cases hlt : i < 3
    · simp [hlt]
    · simp [hlt, hi, Nat.add_sub_cancel' (Nat.le_of_not_lt hlt)]
  rw [hshift, BitVec.toNat_shiftLeft, BitVec.toNat_ushiftRight, Nat.shiftRight_eq_div_pow,
    Nat.shiftLeft_eq]
  have := x.isLt
  omega

theorem toNat_fragmentablePart {mtu : BitVec 16} {h : Ipv4Header} (hsize : h.headerSize = 20)
    (hmtu : 68 ≤ mtu.toNat) :
    (fragmentablePart (mtu.setWidth 32) h).toNat = (mtu.toNat - 20) / 8 * 8 := by
  have hsub : (mtu.setWidth 32 - h.getSerializedSize).toNat = mtu.toNat - 20 := by
    simp only [Ipv4Header.getSerializedSize, hsize]
    have := mtu.isLt
    bv_omega
  rw [fragmentablePart, toNat_and_not_seven, hsub]

/-- `f` is cut out of a payload `p` with the header `h`, `k` bytes behind its start. -/
structure PartOf (p : List UInt8) (h : Ipv4Header) (k : Nat) (f : Datagram) : Prop where
  offset : f.2.fragmentOffset.toNat = h.fragmentOffset.toNat + k
  aligned : 8 ∣ k
  isPrefix : f.1 <+: p.drop k
  stop_le : k + f.1.length ≤ p.length
  last : f.2.isLastFragment = true ↔ h.isLastFragment = true ∧ k + f.1.length = p.length
  key : f.2.fragmentKey = h.fragmentKey
  headerSize : f.2.headerSize = h.headerSize

/-- A fragment of a fragment is a fragment. -/
theorem FragmentOf.part {k : Nat} (hd : FragmentOf payload key d) (hf : PartOf d.1 d.2 k f) :
    FragmentOf payload key f where
  piece := by
    obtain ⟨hstop, hpart⟩ := hd.piece
    have hk := hf.stop_le
    simp only [Datagram.piece, Piece.stop] at hstop hpart
    refine ⟨?_, ?_⟩
    · simp only [Datagram.piece, Piece.stop, hf.offset]
      omega
    · simp only [Datagram.piece, hf.offset]
      rw [← List.drop_drop]
      exact hf.isPrefix.trans (hpart.drop k)
  last := by
    have hstop := hd.piece.stop_le
    have hk := hf.stop_le
    rw [hf.last, hd.last]
    simp only [Datagram.piece, Piece.stop, hf.offset] at hstop ⊢
    omega
  aligned := by
    rw [hf.offset]
    exact Nat.dvd_add hd.aligned hf.aligned
  key := hf.key.trans hd.key
  headerSize := hf.headerSize.trans hd.headerSize

theorem setFragmentOffset_of_dvd {h : Ipv4Header} {x : BitVec 16} (hx : 8 ∣ x.toNat) :
    h.setFragmentOffset x = some { h with fragmentOffset := x } :=
  if_pos (and_seven_eq_zero_iff.mpr hx)

/-- What the loop asks of its data, the offset included. -/
structure Fits (p : List UInt8) (h : Ipv4Header) (fragmentSize : BitVec 32) (offset : BitVec 16) :
    Prop where
  length_le : h.fragmentOffset.toNat + p.length ≤ 65515
  offset_le : offset.toNat ≤ p.length
  size_pos : 0 < fragmentSize.toNat
  size_lt : fragmentSize.toNat < 2 ^ 16
  size_aligned : 8 ∣ fragmentSize.toNat
  offset_aligned : 8 ∣ offset.toNat
  header_aligned : 8 ∣ h.fragmentOffset.toNat

theorem createFragment_eq {p : List UInt8} {start length : BitVec 32} (hp : p.length < 2 ^ 32)
    (hle : start.toNat + length.toNat ≤ p.length) :
    createFragment p start length = some ((p.drop start.toNat).take length.toNat) := by
  apply if_pos
  rw [BitVec.le_def, BitVec.toNat_add, getSize, BitVec.toNat_ofNat, Nat.mod_eq_of_lt hp,
    Nat.mod_eq_of_lt (by omega)]
  exact hle

/-- One round: `c` bytes from `k` on, with the flags `flags` and the offset `x`. -/
theorem partOf_cut {p : List UInt8} {h : Ipv4Header} {k c : Nat} {x size : BitVec 16}
    {flags : BitVec 3} (hx : x.toNat = h.fragmentOffset.toNat + k) (hk : 8 ∣ k)
    (hle : k + c ≤ p.length)
    (hlast : ({ h with flags := flags } : Ipv4Header).isLastFragment = true ↔
      h.isLastFragment = true ∧ k + c = p.length) :
    PartOf p h k ((p.drop k).take c,
      ({ h with flags := flags, fragmentOffset := x } : Ipv4Header).setPayloadSize size) := by
  have hlen : ((p.drop k).take c).length = c := by
    rw [List.length_take, List.length_drop]
    omega
  exact {
    offset := hx
    aligned := hk
    isPrefix := List.take_prefix c (p.drop k)
    stop_le := by rw [hlen]; exact hle
    last := by rw [hlen]; exact hlast
    key := rfl
    headerSize := rfl }

/-- The loop ends, none of its assertions fails, and it yields parts of the packet. -/
theorem fragmentLoop_spec {p : List UInt8} {h : Ipv4Header} {fragmentSize : BitVec 32}
    {offset : BitVec 16} {fuel : Nat} (hfit : Fits p h fragmentSize offset)
    (hfuel : p.length - offset.toNat < fuel) :
    ∃ fs, fragmentLoop p h fragmentSize fuel offset = some fs ∧
      (∀ f ∈ fs, ∃ k, PartOf p h k f) ∧ fs.flatMap Prod.fst = p.drop offset.toNat := by
  induction fuel generalizing offset with
  | zero => omega
  | succ fuel ih =>
    have hlen := hfit.length_le
    have hoff := hfit.offset_le
    have hsize : (getSize p).toNat = p.length := by
      simp only [getSize, BitVec.toNat_ofNat]
      omega
    have hwide : (offset.setWidth 32).toNat = offset.toNat := by
      have := offset.isLt
      simp only [BitVec.toNat_setWidth]
      omega
    have hmore : offset.setWidth 32 + fragmentSize < getSize p ↔
        offset.toNat + fragmentSize.toNat < p.length := by
      have := hfit.size_lt
      rw [BitVec.lt_def, BitVec.toNat_add, hwide, hsize]
      omega
    have hsum : (offset + h.fragmentOffset).toNat = h.fragmentOffset.toNat + offset.toNat := by
      rw [BitVec.toNat_add]
      omega
    have hdvd : 8 ∣ (offset + h.fragmentOffset).toNat := by
      rw [hsum]
      exact Nat.dvd_add hfit.header_aligned hfit.offset_aligned
    unfold fragmentLoop
    by_cases hmf : offset.toNat + fragmentSize.toNat < p.length
    · have hnext : (offset + fragmentSize.setWidth 16).toNat = offset.toNat + fragmentSize.toNat := by
        have := hfit.size_lt
        rw [BitVec.toNat_add, BitVec.toNat_setWidth]
        omega
      have hfit' : Fits p h fragmentSize (offset + fragmentSize.setWidth 16) := {
        hfit with
        offset_le := by omega
        offset_aligned := by
          rw [hnext]
          exact Nat.dvd_add hfit.offset_aligned hfit.size_aligned }
      have hpos := hfit.size_pos
      obtain ⟨fs, heq, hfs, hflat⟩ := ih hfit' (by omega)
      have hcut : createFragment p (offset.setWidth 32) fragmentSize =
          some ((p.drop offset.toNat).take fragmentSize.toNat) := by
        rw [createFragment_eq (by omega) (by omega), hwide]
      simp only [hmore.mpr hmf, decide_true, if_true, Bool.true_or, hcut, heq,
        setFragmentOffset_of_dvd hdvd, Option.bind_eq_bind, Option.bind_some]
      refine ⟨_, rfl, List.forall_mem_cons.mpr ⟨⟨offset.toNat, ?_⟩, hfs⟩, ?_⟩
      · apply partOf_cut hsum hfit.offset_aligned (by omega)
        have hno := h.isLastFragment_setMoreFragments
        constructor
        · intro hlast
          exact absurd (hno.symm.trans hlast) (by decide)
        · rintro ⟨-, heq⟩
          omega
      · rw [List.flatMap_cons, hflat, hnext, ← List.drop_drop]
        exact List.take_append_drop _ _
    · have hrest : (getSize p - offset.setWidth 32).toNat = p.length - offset.toNat := by
        rw [BitVec.toNat_sub, hwide, hsize]
        omega
      have hcut : createFragment p (offset.setWidth 32) (getSize p - offset.setWidth 32) =
          some ((p.drop offset.toNat).take (p.length - offset.toNat)) := by
        rw [createFragment_eq (by omega) (by omega), hwide, hrest]
      have hnot : ¬ offset.setWidth 32 + fragmentSize < getSize p := fun hlt => hmf (hmore.mp hlt)
      have hend : offset.toNat + (p.length - offset.toNat) = p.length := by omega
      have hwhole : (p.drop offset.toNat).take (p.length - offset.toNat) ++ [] =
          p.drop offset.toNat := by
        rw [List.append_nil, ← List.length_drop, List.take_length]
      cases hl : h.isLastFragment with
      | false =>
        simp only [hnot, hcut, decide_false, if_false, Bool.false_or, Bool.not_false, if_true,
          Bool.false_eq_true, setFragmentOffset_of_dvd hdvd, Option.bind_eq_bind, Option.bind_some]
        refine ⟨_, rfl, List.forall_mem_singleton.mpr ⟨offset.toNat, ?_⟩, hwhole⟩
        apply partOf_cut hsum hfit.offset_aligned (by omega)
        have hno := h.isLastFragment_setMoreFragments
        constructor
        · intro hlast
          exact absurd (hno.symm.trans hlast) (by decide)
        · rintro ⟨hlast, -⟩
          exact absurd (hl.symm.trans hlast) (by decide)
      | true =>
        simp only [hnot, hcut, decide_false, if_false, Bool.false_or, Bool.not_true,
          Bool.false_eq_true, setFragmentOffset_of_dvd hdvd, Option.bind_eq_bind, Option.bind_some]
        refine ⟨_, rfl, List.forall_mem_singleton.mpr ⟨offset.toNat, ?_⟩, hwhole⟩
        apply partOf_cut hsum hfit.offset_aligned (by omega)
        exact iff_of_true h.isLastFragment_setLastFragment ⟨hl, hend⟩

/-- `SendRealOut` of a fragment: nothing fails, and fragments go out that are it together. -/
theorem sendRealOut_spec {mtu : BitVec 16} (hd : FragmentOf payload key d)
    (hlen : payload.length ≤ 65515) (hmtu : 68 ≤ mtu.toNat) :
    ∃ fs, sendRealOut mtu d = some fs ∧ (∀ f ∈ fs, FragmentOf payload key f) ∧
      fs.flatMap Prod.fst = d.1 := by
  have hstop := hd.piece.stop_le
  simp only [Datagram.piece, Piece.stop] at hstop
  unfold sendRealOut
  split
  · have hserialized : d.2.getSerializedSize = 20 := by
      rw [Ipv4Header.getSerializedSize, hd.headerSize]
      rfl
    have hpart := toNat_fragmentablePart hd.headerSize hmtu
    have := mtu.isLt
    have hfit : Fits d.1 d.2 (fragmentablePart (mtu.setWidth 32) d.2) 0 := {
      length_le := by omega
      offset_le := Nat.zero_le _
      size_pos := by omega
      size_lt := by omega
      size_aligned := ⟨(mtu.toNat - 20) / 8, by omega⟩
      offset_aligned := ⟨0, rfl⟩
      header_aligned := hd.aligned }
    obtain ⟨fs, heq, hfs, hflat⟩ := fragmentLoop_spec hfit (Nat.lt_succ_of_le (Nat.sub_le _ _))
    refine ⟨fs, ?_, ?_, hflat⟩
    · rw [doFragmentation, if_pos hserialized]
      exact heq
    · intro f hf
      obtain ⟨k, hk⟩ := hfs f hf
      exact hd.part hk
  · exact ⟨[d], rfl, List.forall_mem_singleton.mpr hd, List.append_nil d.1⟩

theorem FragmentOf.ipForward (hd : FragmentOf payload key d) (heq : ipForward d = some f) :
    FragmentOf payload key f := by
  unfold Internet.ipForward at heq
  simp only at heq
  split at heq
  · cases heq
  · cases heq
    exact ⟨hd.piece, hd.last, hd.aligned, hd.key, hd.headerSize⟩

/-- What arrives of a datagram, whatever the path. -/
theorem Travels.fragmentOf {origin : Datagram} (horigin : Whole origin) (h : Travels origin d) :
    FragmentOf origin.1 origin.2.fragmentKey d := by
  induction h with
  | sent hmtu heq hmem =>
    obtain ⟨fs, hfs, hall, -⟩ := sendRealOut_spec horigin.fragmentOf horigin.length_le hmtu
    cases hfs.symm.trans heq
    exact hall _ hmem
  | forwarded _ hforward hmtu heq hmem ih =>
    obtain ⟨fs, hfs, hall, -⟩ := sendRealOut_spec (ih.ipForward hforward) horigin.length_le hmtu
    cases hfs.symm.trans heq
    exact hall _ hmem

end CudaNs3.Internet
