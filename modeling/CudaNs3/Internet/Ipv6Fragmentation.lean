import CudaNs3.Internet.Fragmentation
import CudaNs3.Internet.Ipv6Extensions

/-!
# IPv6 fragmentation

`Ipv6ExtensionFragment::GetFragments`: the headers of the unfragmentable part are taken off the
packet one after the other, and put back before each fragment.
-/

namespace CudaNs3.Internet

open Pieces
set_option autoImplicit false

namespace Ipv6ExtensionFragment
open Ipv6Header

/-- Whether another header belongs to the unfragmentable part. The first byte of a destination
header tells what follows it. -/
def moreHeader (nextHeader : UInt8) (p : List UInt8) : Bool :=
  nextHeader == extHopByHop || nextHeader == extRouting ||
    (nextHeader == extDestination && p.head? == some extRouting)

/-- The loop over the headers, which every round shortens the packet. -/
def removeHeaders : Nat → UInt8 → List UInt8 → Option (UInt8 × List UInt8 × List ExtensionHeader)
  | 0, _, _ => none
  | fuel + 1, number, p => do
    let (header, p) ← ExtensionHeader.remove number p
    if moreHeader header.getNextHeader p then
      let (nextHeader, p, headers) ← removeHeaders fuel header.getNextHeader p
      some (nextHeader, p, header :: headers)
    else some (header.getNextHeader, p, [header.setNextHeader extFragmentation])

/-- The lengths are added after each has been kept in 8 bits. -/
def unfragmentablePartSize (headers : List ExtensionHeader) : BitVec 32 :=
  BitVec.ofNat 32 (headers.map fun h => h.getLength % 256).sum

/-- `AddHeader` puts each header before those that have been added. -/
def addHeaders (headers : List ExtensionHeader) (fragment : List UInt8) : List UInt8 :=
  headers.foldl (fun fragment h => h.serialize ++ fragment) fragment

/-- The loop over the fragments from one offset on. -/
def fragmentLoop (p : List UInt8) (nextHeader : UInt8)
    (maxFragmentablePartSize identification : BitVec 32)
    (unfragmentablePart : List ExtensionHeader) (ipv6Header : Ipv6Header) :
    Nat → FragmentHeader → BitVec 16 → Option (List (List UInt8 × Ipv6Header))
  | 0, _, _ => none
  | fuel + 1, fragmentHeader, offset => do
    let moreFragment := decide (offset.setWidth 32 + maxFragmentablePartSize < getSize p)
    let currentFragmentablePartSize :=
      if moreFragment then maxFragmentablePartSize - maxFragmentablePartSize % 8
      else getSize p - offset.setWidth 32
    let fragmentHeader := ((fragmentHeader.setNextHeader nextHeader).setOffset offset)
    let fragmentHeader :=
      (fragmentHeader.setMoreFragment moreFragment).setIdentification identification
    let fragment ← createFragment p (offset.setWidth 32) currentFragmentablePartSize
    let fragment := addHeaders unfragmentablePart (fragmentHeader.serialize ++ fragment)
    let rest ←
      if moreFragment then
        fragmentLoop p nextHeader maxFragmentablePartSize identification unfragmentablePart
          ipv6Header fuel fragmentHeader (offset + currentFragmentablePartSize.setWidth 16)
      else some []
    some ((fragment, ipv6Header.setPayloadLength (BitVec.ofNat 16 fragment.length)) :: rest)

/-- The identification is the random number drawn. -/
def getFragments (packet : List UInt8) (ipv6Header : Ipv6Header)
    (maxFragmentSize identification : BitVec 32) : Option (List (List UInt8 × Ipv6Header)) := do
  let nextHeader := ipv6Header.nextHeader
  let (nextHeader, p, unfragmentablePart, ipv6Header) ←
    if moreHeader nextHeader packet then
      (removeHeaders (packet.length + 1) nextHeader packet).map fun (nextHeader, p, headers) =>
        (nextHeader, p, headers, ipv6Header)
    else some (nextHeader, packet, [], ipv6Header.setNextHeader extFragmentation)
  let maxFragmentablePartSize := maxFragmentSize - getSerializedSize -
    unfragmentablePartSize unfragmentablePart - FragmentHeader.getSerializedSize
  fragmentLoop p nextHeader maxFragmentablePartSize identification unfragmentablePart ipv6Header
    (p.length + 1) {} 0

end Ipv6ExtensionFragment

/-- The addresses and the identification, by which datagrams differ. -/
structure Ipv6Flow where
  source : Ipv6Address
  destination : Ipv6Address
  identification : BitVec 32
  deriving DecidableEq

/-- A packet: its chain of headers, the fragmentable part, and the number of what that begins
with. -/
structure Ipv6Datagram where
  chain : List ExtensionHeader
  upper : UInt8
  payload : List UInt8
  maxFragmentSize : BitVec 32

namespace Ipv6Datagram
open Ipv6ExtensionFragment

/-- The next header that leads to a chain. -/
def leading (upper : UInt8) : List ExtensionHeader → UInt8
  | [] => upper
  | h :: _ => h.number

def packet (d : Ipv6Datagram) : List UInt8 :=
  d.chain.flatMap ExtensionHeader.serialize ++ d.payload

def header (d : Ipv6Datagram) (k : Ipv6Flow) : Ipv6Header where
  nextHeader := leading d.upper d.chain
  payloadLength := BitVec.ofNat 16 d.packet.length
  source := k.source
  destination := k.destination

def getFragments (d : Ipv6Datagram) (k : Ipv6Flow) : Option (List (List UInt8 × Ipv6Header)) :=
  Ipv6ExtensionFragment.getFragments d.packet (d.header k) d.maxFragmentSize k.identification

/-- The size of the unfragmentable part. -/
def headersSize (d : Ipv6Datagram) : Nat := (d.chain.map ExtensionHeader.getLength).sum

/-- The last header leads to the fragment header. -/
def marked : List ExtensionHeader → List ExtensionHeader
  | [] => []
  | [h] => [h.setNextHeader Ipv6Header.extFragmentation]
  | h :: headers => h :: marked headers

/-- The headers as every fragment is to carry them. -/
def unfragmentable (d : Ipv6Datagram) : List UInt8 :=
  (marked d.chain).flatMap ExtensionHeader.serialize

/-- Each header leads to the next one, a destination header to a routing header, and the last one
to something that does not belong to the unfragmentable part. -/
def Linked (upper : UInt8) (payload : List UInt8) : List ExtensionHeader → Prop
  | [] => moreHeader upper payload = false
  | h :: headers =>
    h.getNextHeader = leading upper headers ∧
      (h.number = Ipv6Header.extDestination → h.getNextHeader = Ipv6Header.extRouting) ∧
      Linked upper payload headers

/-- A packet with well-formed headers, and a fragment size that leaves 8 bytes. -/
structure Sendable (d : Ipv6Datagram) : Prop where
  wellFormed : ∀ h ∈ d.chain, h.WellFormed
  linked : Linked d.upper d.payload d.chain
  length_lt : d.packet.length < 2 ^ 16
  room : 40 + d.headersSize + 8 + 8 ≤ d.maxFragmentSize.toNat

/-- What a fragment of the datagram is to be: the headers in their order, the fragment header and
the data. -/
def Carries (d : Ipv6Datagram) (f : List UInt8 × Ipv6Header) : Prop :=
  f.2.nextHeader = leading Ipv6Header.extFragmentation d.chain ∧
    ∃ h : FragmentHeader, ∃ data, h.nextHeader = d.upper ∧
      f.1 = d.unfragmentable ++ (h.serialize ++ data)

end Ipv6Datagram

/-! ## Headers and the loop -/

namespace FragmentHeader
variable {x m a : BitVec 16}

theorem and_not_eq_self (h : x &&& m = 0) : x &&& ~~~m = x := by
  apply BitVec.eq_of_getLsbD_eq
  intro i hi
  have hbit := congrArg (fun y : BitVec 16 => y.getLsbD i) h
  simp only [BitVec.getLsbD_and, BitVec.getLsbD_not, hi] at hbit ⊢
  cases hx : x.getLsbD i with
  | false => rfl
  | true =>
    rw [hx] at hbit
    simp at hbit
    simp [hbit]

theorem and_or_and_not : (a &&& m ||| x) &&& ~~~m = x &&& ~~~m := by
  rw [BitVec.and_or_distrib_right, BitVec.and_assoc, BitVec.and_not_self]
  simp

theorem and_or_or : a &&& m ||| x ||| m = x ||| m := by
  apply BitVec.eq_of_getLsbD_eq
  intro i hi
  simp only [BitVec.getLsbD_or, BitVec.getLsbD_and]
  cases a.getLsbD i with
  | false => rw [Bool.false_and, Bool.false_or]
  | true =>
    cases m.getLsbD i with
    | false => rw [Bool.true_and, Bool.false_or]
    | true => rw [Bool.or_true, Bool.or_true]

variable (h : FragmentHeader) {offset : BitVec 16} (moreFragment : Bool)

/-- The header of a fragment does not depend on that of the one before. -/
theorem setMoreFragment_setOffset (g : FragmentHeader) (offset : BitVec 16) (moreFragment : Bool) :
    ((h.setOffset offset).setMoreFragment moreFragment).offset =
      ((g.setOffset offset).setMoreFragment moreFragment).offset := by
  unfold setOffset setMoreFragment
  cases moreFragment with
  | false =>
    dsimp only
    rw [if_neg Bool.false_ne_true, if_neg Bool.false_ne_true, and_or_and_not, and_or_and_not]
  | true =>
    dsimp only
    rw [if_pos rfl, if_pos rfl, and_or_or, and_or_or]

/-- An offset that is a multiple of 8 and the flag are both kept. -/
theorem getOffset_setMoreFragment (hoffset : offset &&& 7 = 0) :
    ((h.setOffset offset).setMoreFragment moreFragment).getOffset = offset := by
  have hbit : offset &&& 1 = 0 := by
    have hseven : (7 : BitVec 16) &&& 1 = 1 := rfl
    rw [← hseven, ← BitVec.and_assoc, hoffset]
    simp
  unfold setOffset setMoreFragment getOffset
  dsimp only
  rw [and_not_eq_self hoffset]
  cases moreFragment with
  | false =>
    rw [if_neg Bool.false_ne_true, and_or_and_not, and_not_eq_self hbit, and_not_eq_self hbit]
  | true =>
    rw [if_pos rfl, BitVec.and_or_distrib_right, and_or_and_not, BitVec.and_not_self,
      and_not_eq_self hbit]
    simp

theorem getMoreFragment_setMoreFragment :
    (h.setMoreFragment moreFragment).getMoreFragment = moreFragment := by
  unfold setMoreFragment getMoreFragment
  cases moreFragment with
  | false =>
    rw [if_neg Bool.false_ne_true, BitVec.and_assoc, BitVec.and_comm (~~~1), BitVec.and_not_self]
    simp
  | true =>
    rw [if_pos rfl, BitVec.and_or_distrib_right, bne_iff_ne]
    intro hzero
    have hbit := congrArg (fun y : BitVec 16 => y.getLsbD 0) hzero
    simp at hbit

end FragmentHeader

namespace Ipv6ExtensionFragment
open Ipv6Datagram
variable {upper : UInt8} {payload : List UInt8}

theorem moreHeader_leading {h : ExtensionHeader} {headers : List ExtensionHeader}
    (hlinked : Linked upper payload (h :: headers)) :
    moreHeader h.number ((h :: headers).flatMap ExtensionHeader.serialize ++ payload) = true := by
  unfold moreHeader
  rw [List.flatMap_cons, List.append_assoc, ExtensionHeader.head?_serialize]
  cases h with
  | hopByHop h => rfl
  | routing h => rfl
  | destination h =>
    have hnext := hlinked.2.1 rfl
    rw [hnext]
    rfl

/-- The headers of the chain are taken off, and the last one leads to the fragment header. -/
theorem removeHeaders_spec (h : ExtensionHeader) (headers : List ExtensionHeader) :
    ∀ fuel, headers.length < fuel → (∀ g ∈ h :: headers, g.WellFormed) →
      Linked upper payload (h :: headers) →
      removeHeaders fuel h.number ((h :: headers).flatMap ExtensionHeader.serialize ++ payload) =
        some (upper, payload, marked (h :: headers)) := by
  induction headers generalizing h with
  | nil =>
    intro fuel hfuel hwf hlinked
    obtain ⟨fuel, rfl⟩ := Nat.exists_eq_succ_of_ne_zero (Nat.ne_of_gt hfuel)
    obtain ⟨hnext, -, hend⟩ := hlinked
    unfold removeHeaders
    rw [List.flatMap_singleton, ExtensionHeader.remove_serialize (hwf h List.mem_cons_self)]
    change (if moreHeader h.getNextHeader payload then _ else _) = _
    have hnext : h.getNextHeader = upper := hnext
    have hend : moreHeader upper payload = false := hend
    rw [hnext, hend]
    rfl
  | cons g headers ih =>
    intro fuel hfuel hwf hlinked
    obtain ⟨fuel, rfl⟩ := Nat.exists_eq_succ_of_ne_zero (Nat.ne_zero_of_lt hfuel)
    have hwhole := hlinked
    obtain ⟨hnext, -, hlinked⟩ := hlinked
    have hnext : h.getNextHeader = g.number := hnext
    have hrest := ih g fuel (Nat.lt_of_succ_lt_succ hfuel)
      (fun x hx => hwf x (List.mem_cons_of_mem _ hx)) hlinked
    have hmore := moreHeader_leading hlinked
    unfold removeHeaders
    rw [List.flatMap_cons, List.append_assoc,
      ExtensionHeader.remove_serialize (hwf h List.mem_cons_self)]
    change (if moreHeader h.getNextHeader _ then
      (removeHeaders fuel h.getNextHeader _).bind _ else _) = _
    rw [hnext, hmore, if_pos rfl, hrest]
    rfl

theorem addHeaders_eq (headers : List ExtensionHeader) (fragment : List UInt8) :
    addHeaders headers fragment = headers.reverse.flatMap ExtensionHeader.serialize ++ fragment := by
  induction headers generalizing fragment with
  | nil => rfl
  | cons h headers ih =>
    change addHeaders headers (h.serialize ++ fragment) = _
    rw [ih, List.reverse_cons, List.flatMap_append, List.flatMap_singleton, List.append_assoc]

/-- What all fragments of a packet have in common. -/
structure Setting where
  nextHeader : UInt8
  identification : BitVec 32
  unfragmentablePart : List ExtensionHeader
  ipv6Header : Ipv6Header

namespace Setting

/-- The fragment header of a piece of the payload. -/
def fragmentHeader (c : Setting) (p : List UInt8) (q : Piece UInt8) : FragmentHeader :=
  (((({} : FragmentHeader).setNextHeader c.nextHeader).setOffset
    (BitVec.ofNat 16 q.start)).setMoreFragment (decide (q.stop < p.length))).setIdentification
      c.identification

/-- The fragment that a piece of the payload goes out in. -/
def render (c : Setting) (p : List UInt8) (q : Piece UInt8) : List UInt8 × Ipv6Header :=
  let fragment := addHeaders c.unfragmentablePart ((c.fragmentHeader p q).serialize ++ q.data)
  (fragment, c.ipv6Header.setPayloadLength (BitVec.ofNat 16 fragment.length))

theorem fragmentHeader_eq (c : Setting) {p : List UInt8} {q : Piece UInt8} (h : FragmentHeader)
    {offset : BitVec 16} {moreFragment : Bool} (hstart : q.start = offset.toNat)
    (hmore : decide (q.stop < p.length) = moreFragment) :
    (((h.setNextHeader c.nextHeader).setOffset offset).setMoreFragment
      moreFragment).setIdentification c.identification = c.fragmentHeader p q := by
  have hoffset : BitVec.ofNat 16 q.start = offset := by
    rw [hstart, BitVec.ofNat_toNat, BitVec.setWidth_eq]
  have hfield := FragmentHeader.setMoreFragment_setOffset (h.setNextHeader c.nextHeader)
    (({} : FragmentHeader).setNextHeader c.nextHeader) offset moreFragment
  unfold fragmentHeader
  rw [hoffset, hmore]
  unfold FragmentHeader.setIdentification
  rw [hfield]
  rfl

/-- The loop ends, and its fragments are those of a cut of the payload. -/
theorem fragmentLoop_spec (c : Setting) {p : List UInt8} {maxSize : BitVec 32}
    (hp : p.length < 2 ^ 16) (hsize : 8 ≤ maxSize.toNat) :
    ∀ (fuel : Nat) (h : FragmentHeader) (offset : BitVec 16), offset.toNat ≤ p.length →
      8 ∣ offset.toNat → p.length - offset.toNat < fuel →
      (offset.toNat = 0 ∨ maxSize.toNat < 2 ^ 16) →
      ∃ cut, fragmentLoop p c.nextHeader maxSize c.identification c.unfragmentablePart
          c.ipv6Header fuel h offset = some (cut.map (c.render p)) ∧
        Cut p offset.toNat cut ∧ ∀ q ∈ cut, 8 ∣ q.start ∧ q.data.length ≤ maxSize.toNat ∧
          (q.stop < p.length → maxSize.toNat < q.data.length + 8) := by
  intro fuel
  induction fuel with
  | zero =>
    intro h offset _ _ hfuel
    exact absurd hfuel (Nat.not_lt_zero _)
  | succ fuel ih =>
    intro h offset hle hdvd hfuel hbound
    have hsizeOf : (getSize p).toNat = p.length := by
      simp only [getSize, BitVec.toNat_ofNat]
      omega
    have hwide : (offset.setWidth 32).toNat = offset.toNat := by
      have := offset.isLt
      simp only [BitVec.toNat_setWidth]
      omega
    have hmore : offset.setWidth 32 + maxSize < getSize p ↔
        offset.toNat + maxSize.toNat < p.length := by
      have := maxSize.isLt
      rw [BitVec.lt_def, BitVec.toNat_add, hwide, hsizeOf]
      omega
    unfold fragmentLoop
    by_cases hmf : offset.toNat + maxSize.toNat < p.length
    · have hmod : (maxSize % 8).toNat = maxSize.toNat % 8 := BitVec.toNat_umod
      have hstep : (maxSize - maxSize % 8).toNat = maxSize.toNat / 8 * 8 := by
        rw [BitVec.toNat_sub_of_le (by rw [BitVec.le_def, hmod]; exact Nat.mod_le _ _), hmod]
        omega
      have hnext : (offset + (maxSize - maxSize % 8).setWidth 16).toNat =
          offset.toNat + maxSize.toNat / 8 * 8 := by
        rw [BitVec.toNat_add, BitVec.toNat_setWidth, hstep]
        omega
      set q : Piece UInt8 := ⟨offset.toNat, (p.drop offset.toNat).take (maxSize.toNat / 8 * 8)⟩
        with hq
      have hlen : q.data.length = maxSize.toNat / 8 * 8 := by
        rw [hq, List.length_take, List.length_drop]
        omega
      have hstop : q.stop = offset.toNat + maxSize.toNat / 8 * 8 := by
        rw [Piece.stop, hlen]
      have hcut : createFragment p (offset.setWidth 32) (maxSize - maxSize % 8) = some q.data := by
        rw [createFragment_eq (by omega) (by rw [hwide, hstep]; omega), hwide, hstep]
      have hheader : (((h.setNextHeader c.nextHeader).setOffset offset).setMoreFragment
          true).setIdentification c.identification = c.fragmentHeader p q :=
        c.fragmentHeader_eq h rfl (decide_eq_true (by omega))
      obtain ⟨cut, hloop, hcuts, hall⟩ := ih (c.fragmentHeader p q)
        (offset + (maxSize - maxSize % 8).setWidth 16) (by omega) (by omega) (by omega)
        (.inr (by omega))
      refine ⟨q :: cut, ?_, ?_, ?_⟩
      · rw [decide_eq_true (hmore.mpr hmf)]
        dsimp only
        rw [if_pos rfl, hcut, hheader]
        change (Option.bind _ _) = _
        rw [Option.bind_some, if_pos rfl, hloop]
        rfl
      · refine .cons ⟨?_, ?_⟩ rfl (by omega) (by omega) ?_
        · omega
        · exact List.take_prefix _ _
        · rw [hstop, ← hnext]
          exact hcuts
      · intro r hr
        rcases List.mem_cons.mp hr with hr | hr
        · rw [hr]
          exact ⟨hdvd, by omega, fun _ => by omega⟩
        · exact hall r hr
    · set q : Piece UInt8 := ⟨offset.toNat, p.drop offset.toNat⟩ with hq
      have hlen : q.data.length = p.length - offset.toNat := List.length_drop
      have hstop : q.stop = p.length := by
        change offset.toNat + q.data.length = p.length
        rw [hlen]
        omega
      have hlast : (getSize p - offset.setWidth 32).toNat = p.length - offset.toNat := by
        rw [BitVec.toNat_sub_of_le (by rw [BitVec.le_def, hwide, hsizeOf]; exact hle), hwide,
          hsizeOf]
      have hcut : createFragment p (offset.setWidth 32) (getSize p - offset.setWidth 32) =
          some q.data := by
        rw [createFragment_eq (by omega) (by rw [hwide, hlast]; omega), hwide, hlast,
          List.take_of_length_le (by rw [List.length_drop])]
      have hheader : (((h.setNextHeader c.nextHeader).setOffset offset).setMoreFragment
          false).setIdentification c.identification = c.fragmentHeader p q :=
        c.fragmentHeader_eq h rfl (decide_eq_false (by omega))
      refine ⟨[q], ?_, ?_, ?_⟩
      · rw [decide_eq_false (fun hlt => hmf (hmore.mp hlt))]
        dsimp only
        rw [if_neg Bool.false_ne_true, hcut, hheader]
        rfl
      · exact .last ⟨Nat.le_of_eq hstop, List.prefix_rfl⟩ rfl hstop
      · intro r hr
        rw [List.mem_singleton.mp hr]
        exact ⟨hdvd, by omega, fun hlt => by omega⟩

end Setting

end Ipv6ExtensionFragment

/-! ## The fragments of a datagram -/

namespace Ipv6Datagram
open Ipv6ExtensionFragment
variable {d : Ipv6Datagram} {k : Ipv6Flow}

theorem length_flatMap_serialize {headers : List ExtensionHeader}
    (h : ∀ g ∈ headers, g.WellFormed) :
    (headers.flatMap ExtensionHeader.serialize).length =
      (headers.map ExtensionHeader.getLength).sum := by
  induction headers with
  | nil => rfl
  | cons g headers ih =>
    rw [List.flatMap_cons, List.length_append,
      ExtensionHeader.length_serialize (h g List.mem_cons_self), ih fun x hx => h x (List.mem_cons_of_mem _ hx), List.map_cons, List.sum_cons]

theorem wellFormed_marked {headers : List ExtensionHeader} (h : ∀ g ∈ headers, g.WellFormed) :
    ∀ g ∈ marked headers, g.WellFormed := by
  induction headers with
  | nil => exact h
  | cons g headers ih =>
    cases headers with
    | nil =>
      intro x hx
      rw [List.mem_singleton.mp hx]
      exact (h g List.mem_cons_self).setNextHeader _
    | cons f headers =>
      intro x hx
      rcases List.mem_cons.mp hx with hx | hx
      · rw [hx]
        exact h g List.mem_cons_self
      · exact ih (fun y hy => h y (List.mem_cons_of_mem _ hy)) x hx

theorem getLength_marked (headers : List ExtensionHeader) :
    (marked headers).map ExtensionHeader.getLength = headers.map ExtensionHeader.getLength := by
  induction headers with
  | nil => rfl
  | cons g headers ih =>
    cases headers with
    | nil => exact congrArg (fun n => [n]) (ExtensionHeader.getLength_setNextHeader _)
    | cons f headers => exact congrArg (g.getLength :: ·) ih

/-- What all fragments of the datagram have in common. -/
def setting (d : Ipv6Datagram) (k : Ipv6Flow) : Setting where
  nextHeader := d.upper
  identification := k.identification
  unfragmentablePart := marked d.chain
  ipv6Header := { d.header k with nextHeader := leading Ipv6Header.extFragmentation d.chain }

/-- The size that is left for data. -/
def maxFragmentablePartSize (d : Ipv6Datagram) : BitVec 32 :=
  d.maxFragmentSize - Ipv6Header.getSerializedSize -
    unfragmentablePartSize (marked d.chain) - FragmentHeader.getSerializedSize

theorem length_le_flatMap (headers : List ExtensionHeader) :
    headers.length ≤ (headers.flatMap ExtensionHeader.serialize).length := by
  induction headers with
  | nil => exact Nat.le_refl 0
  | cons g headers ih =>
    have hpos : 0 < g.serialize.length := by
      cases g with
      | hopByHop h => exact Nat.succ_pos _
      | routing h => exact Nat.succ_pos _
      | destination h => exact Nat.succ_pos _
    rw [List.flatMap_cons, List.length_append, List.length_cons]
    omega

theorem getFragments_eq (h : d.Sendable) : d.getFragments k =
    Ipv6ExtensionFragment.fragmentLoop d.payload d.upper d.maxFragmentablePartSize k.identification
      (marked d.chain) (d.setting k).ipv6Header (d.payload.length + 1) {} 0 := by
  obtain ⟨hwf, hlinked, hlen, -⟩ := h
  unfold getFragments Ipv6ExtensionFragment.getFragments maxFragmentablePartSize setting header
    packet
  cases hchain : d.chain with
  | nil =>
    rw [hchain] at hlinked
    have hlinked : moreHeader d.upper d.payload = false := hlinked
    change (if moreHeader d.upper d.payload then _ else _) = _
    rw [hlinked]
    rfl
  | cons g headers =>
    rw [hchain] at hlinked hwf
    have hmore := moreHeader_leading hlinked
    have hfuel := length_le_flatMap (g :: headers)
    rw [List.length_cons] at hfuel
    have hremove := removeHeaders_spec g headers
      (((g :: headers).flatMap ExtensionHeader.serialize ++ d.payload).length + 1)
      (by rw [List.length_append]; omega) hwf hlinked
    dsimp only [leading]
    rw [hmore, if_pos rfl, hremove]
    rfl

theorem toNat_unfragmentablePartSize (headers : List ExtensionHeader) :
    (headers.map fun h => h.getLength % 256).sum ≤ (headers.map ExtensionHeader.getLength).sum := by
  induction headers with
  | nil => exact Nat.le_refl 0
  | cons g headers ih =>
    have hmod := Nat.mod_le g.getLength 256
    rw [List.map_cons, List.map_cons, List.sum_cons, List.sum_cons]
    omega

/-- What the code takes for the size of the headers. -/
def countedSize (d : Ipv6Datagram) : Nat := (d.chain.map fun h => h.getLength % 256).sum

theorem countedSize_le : d.countedSize ≤ d.headersSize := toNat_unfragmentablePartSize d.chain

theorem toNat_maxFragmentablePartSize (h : d.Sendable) :
    d.maxFragmentablePartSize.toNat = d.maxFragmentSize.toNat - 48 - d.countedSize := by
  have hroom := h.room
  have hle := d.countedSize_le
  have hmarked : (marked d.chain).map (fun h => h.getLength % 256) =
      d.chain.map fun h => h.getLength % 256 := by
    have hmap := congrArg (List.map (· % 256)) (getLength_marked d.chain)
    rw [List.map_map, List.map_map] at hmap
    exact hmap
  have hsize : (unfragmentablePartSize (marked d.chain)).toNat = d.countedSize := by
    have := d.maxFragmentSize.isLt
    rw [unfragmentablePartSize, hmarked, BitVec.toNat_ofNat]
    apply Nat.mod_eq_of_lt
    change d.countedSize < 2 ^ 32
    omega
  unfold maxFragmentablePartSize Ipv6Header.getSerializedSize FragmentHeader.getSerializedSize
  generalize unfragmentablePartSize (marked d.chain) = u at hsize
  bv_omega

theorem getFragments_spec (h : d.Sendable) (k : Ipv6Flow) :
    ∃ cut, d.getFragments k = some (cut.map ((d.setting k).render d.payload)) ∧
      Cut d.payload 0 cut ∧ ∀ q ∈ cut, 8 ∣ q.start ∧
        q.data.length ≤ d.maxFragmentSize.toNat - 48 - d.countedSize ∧
        (q.stop < d.payload.length →
          d.maxFragmentSize.toNat - 48 - d.countedSize < q.data.length + 8) := by
  have hlen := h.length_lt
  have hroom := h.room
  have hle := d.countedSize_le
  have hmax := toNat_maxFragmentablePartSize h
  rw [packet, List.length_append] at hlen
  rw [getFragments_eq h, ← hmax]
  exact (d.setting k).fragmentLoop_spec (by omega) (by omega) _ _ 0 (Nat.zero_le _)
    (Nat.dvd_zero _) (by simp) (.inl rfl)

/-- The headers as the fragments carry them. -/
def carried (d : Ipv6Datagram) : List UInt8 :=
  (marked d.chain).reverse.flatMap ExtensionHeader.serialize

theorem render_fst (q : Piece UInt8) : ((d.setting k).render d.payload q).1 =
    d.carried ++ (((d.setting k).fragmentHeader d.payload q).serialize ++ q.data) :=
  addHeaders_eq _ _

theorem length_carried (h : d.Sendable) : d.carried.length = d.headersSize := by
  rw [carried, length_flatMap_serialize, List.map_reverse, List.sum_reverse, getLength_marked]
  · rfl
  · intro g hg
    exact wellFormed_marked h.wellFormed g (List.mem_reverse.mp hg)

theorem length_render (h : d.Sendable) (q : Piece UInt8) :
    ((d.setting k).render d.payload q).1.length = d.headersSize + 8 + q.data.length := by
  rw [render_fst, List.length_append, List.length_append, length_carried h,
    FragmentHeader.length_serialize]
  omega

theorem carried_eq (hone : d.chain.length ≤ 1) : d.carried = d.unfragmentable := by
  unfold carried unfragmentable
  cases hchain : d.chain with
  | nil => rfl
  | cons g headers =>
    rw [hchain, List.length_cons] at hone
    rw [List.eq_nil_of_length_eq_zero (Nat.le_zero.mp (Nat.le_of_succ_le_succ hone))]
    rfl

theorem getLast?_marked (g : ExtensionHeader) (headers : List ExtensionHeader) :
    ∃ x, (marked (g :: headers)).getLast? = some x ∧
      x.getNextHeader = Ipv6Header.extFragmentation := by
  induction headers generalizing g with
  | nil => exact ⟨_, rfl, ExtensionHeader.getNextHeader_setNextHeader _⟩
  | cons f headers ih =>
    obtain ⟨x, hx, hnext⟩ := ih f
    refine ⟨x, ?_, hnext⟩
    rw [marked, List.getLast?_cons, hx]
    · rfl
    · exact List.cons_ne_nil _ _

/-- With two headers or more, the one that leads to the fragment header comes first. -/
theorem not_carries (h : d.Sendable) (hmany : 1 < d.chain.length) (q : Piece UInt8) :
    ¬ d.Carries ((d.setting k).render d.payload q) := by
  rintro ⟨-, g, data, -, hbytes⟩
  rw [render_fst] at hbytes
  have hhead := congrArg List.head? hbytes
  have hlinked := h.linked
  unfold carried unfragmentable at hhead
  cases hchain : d.chain with
  | nil =>
    rw [hchain] at hmany
    exact absurd hmany (Nat.not_lt.mpr (Nat.zero_le 1))
  | cons a headers =>
    cases headers with
    | nil =>
      rw [hchain] at hmany
      exact absurd hmany (Nat.lt_irrefl 1)
    | cons b headers =>
      rw [hchain] at hhead hlinked
      obtain ⟨x, hlast, hx⟩ := getLast?_marked a (b :: headers)
      have hreverse : (marked (a :: b :: headers)).reverse.head? = some x := by
        rw [List.head?_reverse]
        exact hlast
      obtain ⟨rest, hrest⟩ : ∃ rest, (marked (a :: b :: headers)).reverse = x :: rest := by
        cases hcase : (marked (a :: b :: headers)).reverse with
        | nil =>
          rw [hcase] at hreverse
          cases hreverse
        | cons y rest =>
          rw [hcase] at hreverse
          exact ⟨rest, congrArg (· :: rest) (Option.some.inj hreverse)⟩
      have hfirst : a.getNextHeader = b.number := hlinked.1
      rw [hrest, List.flatMap_cons, List.append_assoc, ExtensionHeader.head?_serialize, hx, marked,
        List.flatMap_cons, List.append_assoc, ExtensionHeader.head?_serialize, hfirst] at hhead
      · exact b.number_ne_extFragmentation (Option.some.inj hhead).symm
      · exact List.cons_ne_nil _ _

theorem carries (hone : d.chain.length ≤ 1) (q : Piece UInt8) :
    d.Carries ((d.setting k).render d.payload q) :=
  ⟨rfl, (d.setting k).fragmentHeader d.payload q, q.data, rfl, by rw [render_fst, carried_eq hone]⟩

/-- A single header that is counted right, or a packet that a single fragment holds. -/
structure Short (d : Ipv6Datagram) : Prop where
  single : d.chain.length ≤ 1
  counted : d.headersSize < 256 ∨ 48 + d.headersSize + d.payload.length ≤ d.maxFragmentSize.toNat

/-- What the code counts of a single header. -/
theorem countedSize_eq (hone : d.chain.length ≤ 1) : d.countedSize = d.headersSize % 256 := by
  unfold countedSize headersSize
  cases hchain : d.chain with
  | nil => rfl
  | cons g headers =>
    rw [hchain, List.length_cons] at hone
    rw [List.eq_nil_of_length_eq_zero (Nat.le_zero.mp (Nat.le_of_succ_le_succ hone))]
    rfl

/-- The fragments fit and carry the headers in their order, exactly when the datagram is short. -/
theorem sends_iff (h : d.Sendable) (k : Ipv6Flow) : ∃ fragments, d.getFragments k = some fragments ∧
    ((∀ f ∈ fragments, 40 + f.1.length ≤ d.maxFragmentSize.toNat ∧ d.Carries f) ↔ d.Short) := by
  obtain ⟨cut, hcut, hcuts, hsizes⟩ := getFragments_spec h k
  have hroom := h.room
  refine ⟨_, hcut, ?_, ?_⟩
  · intro hall
    have hpiece : ∀ q ∈ cut, 40 + ((d.setting k).render d.payload q).1.length ≤
        d.maxFragmentSize.toNat ∧ d.Carries ((d.setting k).render d.payload q) :=
      fun q hq => hall _ (List.mem_map_of_mem hq)
    obtain ⟨q, hq, hlast⟩ := hcuts.exists_last
    have hone : d.chain.length ≤ 1 := by
      by_contra hmany
      exact not_carries h (Nat.not_le.mp hmany) q (hpiece q hq).2
    refine ⟨hone, ?_⟩
    by_contra hneither
    rw [not_or] at hneither
    have hcount := countedSize_eq hone
    have hfit := (hpiece q hq).1
    rw [length_render h] at hfit
    -- the piece that starts first holds everything, or as much as the code takes for the maximum
    have hfirst : ∃ r ∈ cut, r.start = 0 := by
      cases hcuts with
      | last hp hn hstop => exact ⟨_, List.mem_singleton.mpr rfl, hn⟩
      | cons hp hn hpos hstop hl => exact ⟨_, List.mem_cons_self, hn⟩
    obtain ⟨r, hr, hstart⟩ := hfirst
    have hfit := (hpiece r hr).1
    rw [length_render h] at hfit
    have hsize := (hsizes r hr).2.2
    have hstop : r.stop = r.data.length := by rw [Piece.stop, hstart, Nat.zero_add]
    omega
  · intro hshort f hf
    obtain ⟨q, hq, rfl⟩ := List.mem_map.mp hf
    refine ⟨?_, carries hshort.single q⟩
    have hcount := countedSize_eq hshort.single
    have hsize := (hsizes q hq).2.1
    have hof := (hcuts.of q hq).stop_le
    rw [length_render h]
    unfold Piece.stop at hof
    rcases hshort.counted with hlt | hroomy
    · omega
    · omega

end Ipv6Datagram
end CudaNs3.Internet
