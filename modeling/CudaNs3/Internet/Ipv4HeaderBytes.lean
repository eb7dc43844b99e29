import CudaNs3.Internet.Fragmentation
import CudaNs3.Tcp.Header
import Mathlib.Tactic.IntervalCases

/-!
# The bytes of an IPv4 header

`Ipv4Header::Serialize` and `Deserialize`, and what a router does to a header: it takes it off a
packet, lowers the time to live and puts it in front of the payload again.
-/

namespace CudaNs3.Internet

open Words CudaNs3.Tcp.TcpHeader
set_option autoImplicit false

/-- The header with the fields that only its bytes use. -/
structure WireHeader extends Ipv4Header where
  tos : BitVec 8
  checksum : BitVec 16
  calcChecksum : Bool
  goodChecksum : Bool
  deriving DecidableEq

namespace WireHeader

def dontFragmentFlag : BitVec 3 := 1

/-- The constructor, and `EnableChecksum` if `calcChecksum` is set. -/
def new (calcChecksum : Bool) : WireHeader where
  payloadSize := 0
  identification := 0
  ttl := 0
  protocol := 0
  flags := 0
  fragmentOffset := 0
  source := 0
  destination := 0
  headerSize := 20
  tos := 0
  checksum := 0
  calcChecksum := calcChecksum
  goodChecksum := true

/-- The flags of the byte that has them. The bit in front of them is not kept. -/
def flagsOf (flags : BitVec 8) : BitVec 3 :=
  (if flags &&& 64 ≠ 0 then dontFragmentFlag else 0) |||
    if flags &&& 32 ≠ 0 then Ipv4Header.moreFragmentsFlag else 0

def fragmentOffsetOf (flags frag : BitVec 8) : BitVec 16 :=
  (((flags &&& 31).setWidth 16 <<< 8) ||| frag.setWidth 16) <<< 3

def version (verIhl : UInt8) : BitVec 8 := verIhl.toBitVec >>> 4

/-- `ReadU16`. -/
def leastFirst (low high : BitVec 8) : BitVec 16 := (high.setWidth 16 <<< 8) ||| low.setWidth 16

/-- The checksum over the header as long as it says it is; `none` is a read beyond the buffer. -/
def doChecksum (h : WireHeader) (start : List UInt8) : Option WireHeader :=
  if h.calcChecksum then
    if h.headerSize.toNat ≤ start.length then
      some { h with goodChecksum := calculateIpChecksum start h.headerSize.toNat 0 = 0 }
    else none
  else some h

/-- The header and the size that is returned, which is 0 for what is not an IPv4 header. -/
def deserialize (h : WireHeader) (start : List UInt8) : Option (WireHeader × BitVec 32) := do
  let verIhl ← start[0]?
  if version verIhl ≠ 4 then some (h, 0)
  else
    let headerSize : BitVec 16 := (verIhl.toBitVec &&& 15).setWidth 16 * 4
    let tos ← start[1]?
    let size ← readWord start 2 2
    let identification ← readWord start 4 2
    let flags ← start[6]?
    let frag ← start[7]?
    let ttl ← start[8]?
    let protocol ← start[9]?
    let low ← start[10]?
    let high ← start[11]?
    let source ← readWord start 12 4
    let destination ← readWord start 16 4
    let h ← doChecksum { h with
      payloadSize := BitVec.ofNat 16 size - headerSize
      identification := BitVec.ofNat 16 identification
      ttl := ttl.toBitVec
      protocol := protocol.toBitVec
      flags := flagsOf flags.toBitVec
      fragmentOffset := fragmentOffsetOf flags.toBitVec frag.toBitVec
      source := BitVec.ofNat 32 source
      destination := BitVec.ofNat 32 destination
      headerSize := headerSize
      tos := tos.toBitVec
      checksum := leastFirst low.toBitVec high.toBitVec } start
    some (h, h.getSerializedSize)

def flagsFrag (h : WireHeader) : BitVec 8 :=
  (((h.fragmentOffset.setWidth 32 / 8 : BitVec 32) >>> 8) &&& 31).setWidth 8 |||
    (if h.flags &&& dontFragmentFlag ≠ 0 then 64 else 0) |||
      if h.flags &&& Ipv4Header.moreFragmentsFlag ≠ 0 then 32 else 0

def frag (h : WireHeader) : BitVec 8 := ((h.fragmentOffset.setWidth 32 / 8 : BitVec 32) &&& 255).setWidth 8

/-- The twenty bytes, with a checksum of 0. -/
def written (h : WireHeader) : List UInt8 :=
  [0x45, ⟨h.tos⟩] ++ toBytes 2 (h.payloadSize + 20).toNat ++ toBytes 2 h.identification.toNat ++
    [⟨h.flagsFrag⟩, ⟨h.frag⟩, ⟨h.ttl⟩, ⟨h.protocol⟩, 0, 0] ++ toBytes 4 h.source.toNat ++
      toBytes 4 h.destination.toNat

/-- `WriteU16` of the checksum, the least significant byte first. -/
def putChecksum (b : List UInt8) (checksum : Nat) : List UInt8 :=
  (b.set 10 (UInt8.ofNat checksum)).set 11 (UInt8.ofNat (checksum / 256))

/-- Twenty bytes are written over what is there; `none` is a write beyond the buffer. -/
def serialize (h : WireHeader) (start : List UInt8) : Option (List UInt8) :=
  if 20 ≤ start.length then
    let b := h.written ++ start.drop 20
    some (if h.calcChecksum then putChecksum b (calculateIpChecksum b 20 0) else b)
  else none

/-- `SetTtl` and `AddHeader` of a router. The buffer holds `room` where the header is put. -/
def forward (h : WireHeader) (room payload : List UInt8) : Option (List UInt8) :=
  { h with ttl := h.ttl - 1 }.serialize (room ++ payload)

/-- What a forwarded header has to be: `b` is what was received and `out` what is sent. -/
structure Preserves (calcChecksum : Bool) (b out : List UInt8) (size payloadLength : Nat) : Prop where
  headerSize : ∃ verIhl, out[0]? = some verIhl ∧ (verIhl.toBitVec &&& 15).toNat * 4 = size
  fields : ∀ i : Nat, i < size → i ≠ 8 → i ≠ 10 → i ≠ 11 → out[i]? = b[i]?
  ttl : out[8]? = b[8]?.map (· - 1)
  totalLength : readWord out 2 2 = some (size + payloadLength)
  checksum : calcChecksum → ∃ h n, (new true).deserialize out = some (h, n) ∧ h.goodChecksum

/-- No options, no bit in front of the flags, and a length that the header fits in. -/
structure Plain (b : List UInt8) : Prop where
  verIhl : b[0]? = some 0x45
  reserved : ∃ flags, b[6]? = some flags ∧ flags.toBitVec &&& 128 = 0
  totalLength : ∃ size, readWord b 2 2 = some size ∧ 20 ≤ size

section Fields
variable {f g : BitVec 8}

theorem toNat_fragmentOffsetOf (f g : BitVec 8) :
    (fragmentOffsetOf f g).toNat = ((f &&& 31).toNat * 256 + g.toNat) * 8 := by
  have hlow : (f &&& 31).toNat < 32 := by
    have hall : ∀ f : BitVec 8, (f &&& 31).toNat < 32 := by decide +kernel
    exact hall f
  have hg := g.isLt
  have hor : (f &&& 31).toNat <<< 8 ||| g.toNat = (f &&& 31).toNat * 256 + g.toNat := by
    rw [← Nat.shiftLeft_add_eq_or_of_lt hg, Nat.shiftLeft_eq]
  have hshift : (f &&& 31).toNat <<< 8 % 2 ^ 16 = (f &&& 31).toNat <<< 8 := by
    rw [Nat.shiftLeft_eq]
    omega
  rw [fragmentOffsetOf, BitVec.toNat_shiftLeft, BitVec.toNat_or, BitVec.toNat_shiftLeft,
    BitVec.toNat_setWidth_of_le (by decide), BitVec.toNat_setWidth_of_le (by decide), hshift, hor,
    Nat.shiftLeft_eq]
  omega

theorem units_of {h : WireHeader} (hoffset : h.fragmentOffset = fragmentOffsetOf f g) :
    (h.fragmentOffset.setWidth 32 / 8 : BitVec 32).toNat = (f &&& 31).toNat * 256 + g.toNat := by
  rw [BitVec.toNat_udiv, BitVec.toNat_setWidth_of_le (by decide), hoffset, toNat_fragmentOffsetOf]
  exact Nat.mul_div_cancel _ (by decide)

theorem frag_of {h : WireHeader} (hoffset : h.fragmentOffset = fragmentOffsetOf f g) : h.frag = g := by
  have hg := g.isLt
  have hmask : (255 : BitVec 32).toNat = 2 ^ 8 - 1 := rfl
  apply BitVec.eq_of_toNat_eq
  rw [frag, BitVec.toNat_setWidth, BitVec.toNat_and, units_of hoffset, hmask,
    Nat.and_two_pow_sub_one_eq_mod]
  omega

theorem flagsFrag_of {h : WireHeader} (hoffset : h.fragmentOffset = fragmentOffsetOf f g)
    (hflags : h.flags = flagsOf f) : h.flagsFrag = f &&& 127 := by
  have hg := g.isLt
  have hmask : (31 : BitVec 32).toNat = 2 ^ 5 - 1 := rfl
  have hlow : (f &&& 31).toNat < 32 := by
    have hall : ∀ f : BitVec 8, (f &&& 31).toNat < 32 := by decide +kernel
    exact hall f
  have hpart : (((h.fragmentOffset.setWidth 32 / 8 : BitVec 32) >>> 8) &&& 31).setWidth 8 = f &&& 31 := by
    apply BitVec.eq_of_toNat_eq
    rw [BitVec.toNat_setWidth, BitVec.toNat_and, BitVec.toNat_ushiftRight, units_of hoffset, hmask,
      Nat.and_two_pow_sub_one_eq_mod, Nat.shiftRight_eq_div_pow]
    omega
  have hall : ∀ f : BitVec 8, (f &&& 31) ||| (if flagsOf f &&& dontFragmentFlag ≠ 0 then 64 else 0) |||
      (if flagsOf f &&& Ipv4Header.moreFragmentsFlag ≠ 0 then 32 else 0) = f &&& 127 := by decide +kernel
  rw [flagsFrag, hpart, hflags, hall]

end Fields

section Layout

theorem eq_four {b : List UInt8} {n : Nat} (h : n + 4 ≤ b.length) :
    ∃ x₀ x₁ x₂ x₃ rest, b = x₀ :: x₁ :: x₂ :: x₃ :: rest ∧ n ≤ rest.length := by
  match b, h with
  | x₀ :: x₁ :: x₂ :: x₃ :: rest, h => exact ⟨x₀, x₁, x₂, x₃, rest, rfl, Nat.le_of_add_le_add_right h⟩

/-- The fields of a header as they stand in its bytes. -/
structure Fields where
  verIhl : UInt8
  tos : UInt8
  size : UInt8 × UInt8
  identification : UInt8 × UInt8
  flags : UInt8
  frag : UInt8
  ttl : UInt8
  protocol : UInt8
  checksum : UInt8 × UInt8
  source : UInt8 × UInt8 × UInt8 × UInt8
  destination : UInt8 × UInt8 × UInt8 × UInt8

def pair (p : UInt8 × UInt8) : List UInt8 := [p.1, p.2]

def quad (p : UInt8 × UInt8 × UInt8 × UInt8) : List UInt8 := [p.1, p.2.1, p.2.2.1, p.2.2.2]

/-- The bytes before the checksum, and those behind it. -/
def Fields.front (f : Fields) : List UInt8 :=
  [f.verIhl, f.tos] ++ pair f.size ++ pair f.identification ++ [f.flags, f.frag, f.ttl, f.protocol]

def Fields.back (f : Fields) : List UInt8 := quad f.source ++ quad f.destination

def Fields.bytes (f : Fields) : List UInt8 := f.front ++ pair f.checksum ++ f.back

theorem eq_fields {b : List UInt8} (h : 20 ≤ b.length) : ∃ (f : Fields) (rest : List UInt8), b = f.bytes ++ rest := by
  obtain ⟨x₀, x₁, x₂, x₃, b, rfl, h₁⟩ := eq_four (n := 16) h
  obtain ⟨x₄, x₅, x₆, x₇, b, rfl, h₂⟩ := eq_four (n := 12) h₁
  obtain ⟨x₈, x₉, x₁₀, x₁₁, b, rfl, h₃⟩ := eq_four (n := 8) h₂
  obtain ⟨x₁₂, x₁₃, x₁₄, x₁₅, b, rfl, h₄⟩ := eq_four (n := 4) h₃
  obtain ⟨x₁₆, x₁₇, x₁₈, x₁₉, rest, rfl, -⟩ := eq_four (n := 0) h₄
  exact ⟨⟨x₀, x₁, (x₂, x₃), (x₄, x₅), x₆, x₇, x₈, x₉, (x₁₀, x₁₁), (x₁₂, x₁₃, x₁₄, x₁₅),
    (x₁₆, x₁₇, x₁₈, x₁₉)⟩, rest, rfl⟩

/-- What the fields are read as, apart from the result of the checksum. -/
def Fields.read (f : Fields) (h : WireHeader) : WireHeader :=
  let headerSize : BitVec 16 := (f.verIhl.toBitVec &&& 15).setWidth 16 * 4
  { h with
    payloadSize := BitVec.ofNat 16 (ofBytes (pair f.size)) - headerSize
    identification := BitVec.ofNat 16 (ofBytes (pair f.identification))
    ttl := f.ttl.toBitVec
    protocol := f.protocol.toBitVec
    flags := flagsOf f.flags.toBitVec
    fragmentOffset := fragmentOffsetOf f.flags.toBitVec f.frag.toBitVec
    source := BitVec.ofNat 32 (ofBytes (quad f.source))
    destination := BitVec.ofNat 32 (ofBytes (quad f.destination))
    headerSize := headerSize
    tos := f.tos.toBitVec
    checksum := leastFirst f.checksum.1.toBitVec f.checksum.2.toBitVec }

theorem deserialize_fields (f : Fields) (h : WireHeader) (rest : List UInt8) (hversion : version f.verIhl = 4) :
    h.deserialize (f.bytes ++ rest) =
      ((f.read h).doChecksum (f.bytes ++ rest)).map fun h => (h, h.getSerializedSize) := by
  have hsize : readWord (f.bytes ++ rest) 2 2 = some (ofBytes (pair f.size)) := by
    exact congrArg (Option.map ofBytes) (readBytes_of_drop (pair f.size) rfl)
  have hid : readWord (f.bytes ++ rest) 4 2 = some (ofBytes (pair f.identification)) := by
    exact congrArg (Option.map ofBytes) (readBytes_of_drop (pair f.identification) rfl)
  have hsource : readWord (f.bytes ++ rest) 12 4 = some (ofBytes (quad f.source)) := by
    exact congrArg (Option.map ofBytes) (readBytes_of_drop (quad f.source) rfl)
  have hdest : readWord (f.bytes ++ rest) 16 4 = some (ofBytes (quad f.destination)) := by
    exact congrArg (Option.map ofBytes) (readBytes_of_drop (quad f.destination) rfl)
  have hbyte : ∀ i x, f.bytes[i]? = some x → (f.bytes ++ rest)[i]? = some x := fun i x hx =>
    (List.getElem?_append_left (List.getElem?_eq_some_iff.mp hx).1).trans hx
  unfold deserialize
  rw [hsize, hid, hsource, hdest, hbyte 0 f.verIhl rfl, hbyte 1 f.tos rfl, hbyte 6 f.flags rfl,
    hbyte 7 f.frag rfl, hbyte 8 f.ttl rfl, hbyte 9 f.protocol rfl, hbyte 10 f.checksum.1 rfl,
    hbyte 11 f.checksum.2 rfl]
  simp only [Option.bind_eq_bind, Option.bind_some, hversion, ne_eq, not_true_eq_false, if_false]
  exact Option.map_eq_bind.symm

/-- The fields that a router sends for `f`, with a length and a checksum. -/
def Fields.resent (f : Fields) (size : Nat) (checksum : UInt8 × UInt8) : Fields :=
  { f with
    verIhl := 0x45
    size := (UInt8.ofNat (size / 256), UInt8.ofNat size)
    flags := ⟨f.flags.toBitVec &&& 127⟩
    ttl := f.ttl - 1
    checksum := checksum }

/-- The checksum of a router, the least significant byte first. -/
def Fields.checksumPair (f : Fields) (calcChecksum : Bool) (rest : List UInt8) : UInt8 × UInt8 :=
  let checksum := calculateIpChecksum (f.bytes ++ rest) 20 0
  if calcChecksum then (UInt8.ofNat checksum, UInt8.ofNat (checksum / 256)) else (0, 0)

theorem written_read (f : Fields) (h : WireHeader) (good : Bool) :
    ({ f.read h with ttl := (f.read h).ttl - 1, goodChecksum := good } : WireHeader).written =
      (f.resent ((f.read h).payloadSize + 20).toNat (0, 0)).bytes := by
  have hid : toBytes 2 (BitVec.ofNat 16 (ofBytes (pair f.identification))).toNat = pair f.identification := by
    have hlt := ofBytes_lt (pair f.identification)
    rw [show (pair f.identification).length = 2 from rfl, show 256 ^ 2 = 2 ^ 16 by norm_num] at hlt
    rw [BitVec.toNat_ofNat, Nat.mod_eq_of_lt hlt]
    exact toBytes_ofBytes (pair f.identification)
  have hquad (p : UInt8 × UInt8 × UInt8 × UInt8) : toBytes 4 (BitVec.ofNat 32 (ofBytes (quad p))).toNat = quad p := by
    have hlt := ofBytes_lt (quad p)
    rw [show (quad p).length = 4 from rfl, show 256 ^ 4 = 2 ^ 32 by norm_num] at hlt
    rw [BitVec.toNat_ofNat, Nat.mod_eq_of_lt hlt]
    exact toBytes_ofBytes (quad p)
  have hflags := flagsFrag_of (f := f.flags.toBitVec) (g := f.frag.toBitVec)
    (h := { f.read h with ttl := (f.read h).ttl - 1, goodChecksum := good }) rfl rfl
  have hfrag := frag_of (f := f.flags.toBitVec) (g := f.frag.toBitVec)
    (h := { f.read h with ttl := (f.read h).ttl - 1, goodChecksum := good }) rfl
  rw [written, hflags, hfrag]
  simp only [Fields.read, Fields.resent, Fields.bytes, Fields.front, Fields.back, hid, hquad]
  simp only [pair, List.append_assoc, List.cons_append, List.nil_append]
  rfl

/-- What a router sends of a header that was read from `f`. -/
theorem forward_read {f : Fields} {h h' : WireHeader} {good : Bool} {room payload : List UInt8}
    (hread : h' = { f.read h with goodChecksum := good }) (hlen : 20 ≤ (room ++ payload).length) :
    h'.forward room payload =
      some ((f.resent (h'.payloadSize + 20).toNat ((f.resent (h'.payloadSize + 20).toNat (0, 0)).checksumPair
        h.calcChecksum ((room ++ payload).drop 20))).bytes ++ (room ++ payload).drop 20) := by
  subst hread
  rw [forward, serialize, if_pos hlen]
  have hwritten := written_read f h good
  cases hcalc : h.calcChecksum with
  | false =>
    simp only [Fields.read, hcalc, Bool.false_eq_true, if_false, Fields.checksumPair] at hwritten ⊢
    rw [hwritten]
  | true =>
    simp only [Fields.read, hcalc, if_true, Fields.checksumPair] at hwritten ⊢
    rw [hwritten]
    rfl

theorem sum16_bytes (f : Fields) :
    sum16 f.bytes = sum16 f.front + sum16 f.back + (f.checksum.1.toNat + 256 * f.checksum.2.toNat) := by
  have hfront : f.front.length % 2 = 0 := by simp [Fields.front, pair]
  have hpair : (pair f.checksum).length % 2 = 0 := by simp [pair]
  have hsum : sum16 (pair f.checksum) = f.checksum.1.toNat + 256 * f.checksum.2.toNat := rfl
  rw [Fields.bytes, List.append_assoc, sum16_append hfront, sum16_append hpair, hsum]
  omega

theorem calculateIpChecksum_bytes (f : Fields) (rest : List UInt8) :
    calculateIpChecksum (f.bytes ++ rest) 20 0 = 65535 - fold (sum16 f.bytes) := by
  have htake : (f.bytes ++ rest).take (20 % 65536) = f.bytes := List.take_left' rfl
  rw [calculateIpChecksum, htake, Nat.zero_add]

/-- The checksum that is put into a header adds up to all ones with the rest of it. -/
theorem good_resent (f : Fields) (size : Nat) (rest : List UInt8) :
    calculateIpChecksum ((f.resent size ((f.resent size (0, 0)).checksumPair true rest)).bytes ++ rest) 20 0 = 0 := by
  obtain ⟨c, hc⟩ : ∃ c, c = 65535 - fold (sum16 (f.resent size (0, 0)).bytes) := ⟨_, rfl⟩
  have hpair : (f.resent size (0, 0)).checksumPair true rest = (UInt8.ofNat c, UInt8.ofNat (c / 256)) := by
    rw [Fields.checksumPair, if_pos rfl, calculateIpChecksum_bytes, hc]
  have hvalue : (UInt8.ofNat c).toNat + 256 * (UInt8.ofNat (c / 256)).toNat = c := by
    rw [UInt8.toNat_ofNat', UInt8.toNat_ofNat']
    omega
  have hzero := sum16_bytes (f.resent size (0, 0))
  have hsum : sum16 (f.resent size (UInt8.ofNat c, UInt8.ofNat (c / 256))).bytes =
      sum16 (f.resent size (0, 0)).bytes + c := by
    rw [sum16_bytes, hzero]
    rw [show (f.resent size (UInt8.ofNat c, UInt8.ofNat (c / 256))).checksum =
      (UInt8.ofNat c, UInt8.ofNat (c / 256)) from rfl, hvalue]
    rfl
  rw [hpair, calculateIpChecksum_bytes, hsum, hc, fold_add_complement]

theorem doChecksum_read {h h' : WireHeader} {start : List UInt8} (hd : h.doChecksum start = some h') :
    ∃ good, h' = { h with goodChecksum := good } := by
  unfold doChecksum at hd
  split at hd
  · obtain ⟨-, hd⟩ := Option.ite_none_right_eq_some.mp hd
    exact ⟨_, (Option.some.inj hd).symm⟩
  · exact ⟨h.goodChecksum, (Option.some.inj hd).symm⟩

theorem length_of_deserialize {h h' : WireHeader} {b : List UInt8} {n : BitVec 32}
    (hd : h.deserialize b = some (h', n)) {v : UInt8} (hv : b[0]? = some v) (hversion : version v = 4) :
    20 ≤ b.length := by
  unfold deserialize at hd
  obtain ⟨v', hv', hd⟩ := Option.bind_eq_some_iff.mp hd
  obtain rfl : v = v' := Option.some.inj (hv.symm.trans hv')
  rw [if_neg (not_not.mpr hversion)] at hd
  -- the last of the fields is the destination
  iterate 10 obtain ⟨_, -, hd⟩ := Option.bind_eq_some_iff.mp hd
  obtain ⟨_, hdest, -⟩ := Option.bind_eq_some_iff.mp hd
  obtain ⟨_, hread, -⟩ := Option.map_eq_some_iff.mp hdest
  exact le_of_readBytes hread (by decide)

theorem readWord_size (f : Fields) (rest : List UInt8) :
    readWord (f.bytes ++ rest) 2 2 = some (f.size.1.toNat * 256 + f.size.2.toNat) := by
  have hread := @readBytes_of_drop (f.bytes ++ rest) _ 2 (pair f.size) rfl
  rw [readWord, show readBytes (f.bytes ++ rest) 2 2 = some (pair f.size) from hread, Option.map_some]
  simp [pair, ofBytes]

theorem getElem?_bytes (f : Fields) (rest : List UInt8) {i : Nat} (hi : i < 20) :
    (f.bytes ++ rest)[i]? = f.bytes[i]? := List.getElem?_append_left hi

/-- The next receiver finds the checksum right. -/
theorem resent_good (f : Fields) (size : Nat) (rest : List UInt8) :
    ∃ h n, (new true).deserialize ((f.resent size ((f.resent size (0, 0)).checksumPair true rest)).bytes ++ rest) =
      some (h, n) ∧ h.goodChecksum := by
  obtain ⟨sent, hsent⟩ : ∃ sent, sent = f.resent size ((f.resent size (0, 0)).checksumPair true rest) := ⟨_, rfl⟩
  have hihl : sent.verIhl = 0x45 := by
    rw [hsent]
    rfl
  have hversion : version sent.verIhl = 4 := by
    rw [hihl]
    decide +kernel
  have hsize : (sent.read (new true)).headerSize.toNat = 20 := by
    have h20 : ((0x45 : UInt8).toBitVec &&& 15).setWidth 16 * 4 = (20 : BitVec 16) := by decide
    simp only [Fields.read, hihl, h20]
    rfl
  have hlen : 20 ≤ (sent.bytes ++ rest).length := by
    rw [List.length_append]
    exact Nat.le_add_right 20 rest.length
  have hgood : calculateIpChecksum (sent.bytes ++ rest) 20 0 = 0 := by
    rw [hsent]
    exact good_resent f size rest
  have hcalc : (sent.read (new true)).calcChecksum = true := rfl
  rw [← hsent, deserialize_fields sent (new true) rest hversion, doChecksum, if_pos hcalc, hsize, if_pos hlen]
  exact ⟨_, _, rfl, decide_eq_true hgood⟩

/-- Only the length, the flags, the time to live and the checksum are written anew. -/
theorem resent_same {f : Fields} {size : Nat} {checksum : UInt8 × UInt8} (hihl : f.verIhl = 0x45)
    (hsize : f.size = (UInt8.ofNat (size / 256), UInt8.ofNat size))
    (hflags : f.flags.toBitVec &&& 128 = 0) {i : Nat} (hi : i < 20) (h8 : i ≠ 8) (h10 : i ≠ 10)
    (h11 : i ≠ 11) : (f.resent size checksum).bytes[i]? = f.bytes[i]? := by
  have hall : ∀ x : BitVec 8, x &&& 128 = 0 → x &&& 127 = x := by decide +kernel
  have hsame : (⟨f.flags.toBitVec &&& 127⟩ : UInt8) = f.flags := by
    rw [hall _ hflags]
  have hfields : f.resent size checksum = { f with ttl := f.ttl - 1, checksum := checksum } := by
    rw [Fields.resent, hsame, ← hsize, ← hihl]
  rw [hfields]
  interval_cases i <;> first | rfl | contradiction

end Layout

variable {calcChecksum : Bool} {b room : List UInt8} {h : WireHeader} {n : BitVec 32} {v : UInt8}

/-- A router preserves a header just when it is a plain one. -/
theorem forward_preserves_iff (hd : (new calcChecksum).deserialize b = some (h, n)) (hv : b[0]? = some v)
    (hversion : version v = 4) (hn : n.toNat ≤ b.length)
    (hpayload : (b.drop n.toNat).length = h.payloadSize.toNat) (hroom : room.length = n.toNat) :
    ∃ out, h.forward room (b.drop n.toNat) = some out ∧
      (Preserves calcChecksum b out n.toNat (b.drop n.toNat).length ↔ Plain b) := by
  have hlen := length_of_deserialize hd hv hversion
  obtain ⟨f, rest, rfl⟩ := eq_fields hlen
  obtain rfl : f.verIhl = v := Option.some.inj hv
  rw [deserialize_fields f _ rest hversion] at hd
  obtain ⟨h', hsum, heq⟩ := Option.map_eq_some_iff.mp hd
  obtain ⟨rfl, rfl⟩ := Prod.mk.inj heq
  obtain ⟨good, hread⟩ := doChecksum_read hsum
  have hsize : h'.getSerializedSize.toNat = (f.verIhl.toBitVec &&& 15).toNat * 4 := by
    have hall : ∀ x : BitVec 8, (((x &&& 15).setWidth 16 * 4 : BitVec 16).setWidth 32).toNat =
        (x &&& 15).toNat * 4 := by decide +kernel
    rw [hread]
    exact hall f.verIhl.toBitVec
  have hstart : 20 ≤ (room ++ (f.bytes ++ rest).drop h'.getSerializedSize.toNat).length := by
    rw [List.length_append, hroom, List.length_drop]
    omega
  have hout := forward_read hread hstart
  have hword : h'.payloadSize = BitVec.ofNat 16 (f.size.1.toNat * 256 + f.size.2.toNat) -
      (f.verIhl.toBitVec &&& 15).setWidth 16 * 4 := by
    rw [hread]
    simp [Fields.read, pair, ofBytes]
  have hbytes : f.size.1.toNat < 256 ∧ f.size.2.toNat < 256 := ⟨f.size.1.toNat_lt, f.size.2.toNat_lt⟩
  have hihl : f.verIhl = 0x45 ↔ (f.verIhl.toBitVec &&& 15).toNat = 5 := by
    have hall : ∀ x : BitVec 8, x >>> 4 = (4 : BitVec 8) → (x = 0x45 ↔ (x &&& 15).toNat = 5) := by decide +kernel
    rw [← UInt8.toBitVec_inj]
    exact hall _ hversion
  -- the length that is written is the one that was read, as long as there are no options
  have hwritten (h5 : f.verIhl = 0x45) : (h'.payloadSize + 20).toNat = f.size.1.toNat * 256 + f.size.2.toNat := by
    have h20 : ((0x45 : UInt8).toBitVec &&& 15).setWidth 16 * 4 = (20 : BitVec 16) := by decide
    rw [hword, h5, h20, sub_add_cancel, BitVec.toNat_ofNat]
    omega
  have hsplit (x : Nat) (hx : x < 65536) : (UInt8.ofNat (x / 256)).toNat * 256 + (UInt8.ofNat x).toNat = x := by
    rw [UInt8.toNat_ofNat', UInt8.toNat_ofNat']
    omega
  have hlow := (h'.payloadSize + 20).isLt
  have hsum20 : (h'.payloadSize + 20).toNat = (h'.payloadSize.toNat + 20) % 65536 := BitVec.toNat_add _ _
  refine ⟨_, hout, fun hp => ?_, fun hp => ?_⟩
  · obtain ⟨w, hw, h20⟩ := hp.headerSize
    obtain rfl : 0x45 = w := Option.some.inj hw
    have h5 : f.verIhl = 0x45 := by
      rw [hihl]
      rw [hsize] at h20
      exact Nat.eq_of_mul_eq_mul_right (by decide) h20.symm
    have hn20 : h'.getSerializedSize.toNat = 20 := h20.symm
    refine ⟨congrArg some h5, ⟨f.flags, rfl, ?_⟩, ⟨_, readWord_size f rest, ?_⟩⟩
    · have h6 := hp.fields 6 (by rw [hn20]; decide) (by decide) (by decide) (by decide)
      have hflags : (⟨f.flags.toBitVec &&& 127⟩ : UInt8) = f.flags := Option.some.inj h6
      have hall : ∀ x : BitVec 8, x &&& 127 = x → x &&& 128 = 0 := by decide +kernel
      exact hall _ (congrArg UInt8.toBitVec hflags)
    · have htotal := hp.totalLength
      rw [readWord_size, hpayload, hn20] at htotal
      have heq := (hsplit _ hlow).symm.trans (Option.some.inj htotal)
      have hlen20 := hwritten h5
      omega
  · have h5 : f.verIhl = 0x45 := Option.some.inj hp.verIhl
    obtain ⟨flags, hflags, hreserved⟩ := hp.reserved
    obtain rfl : f.flags = flags := Option.some.inj hflags
    obtain ⟨size, hread2, hle⟩ := hp.totalLength
    obtain rfl : _ = size := Option.some.inj ((readWord_size f rest).symm.trans hread2)
    have hlen20 := hwritten h5
    have hn20 : h'.getSerializedSize.toNat = 20 := by
      rw [hsize, hihl.mp h5]
    refine ⟨⟨0x45, rfl, by rw [hn20]; rfl⟩, fun i hi h8 h10 h11 => ?_, rfl, ?_, fun hcalc => ?_⟩
    · rw [hn20] at hi
      rw [getElem?_bytes _ _ hi, getElem?_bytes _ _ hi]
      refine resent_same h5 (Prod.ext (UInt8.toNat_inj.mp ?_) (UInt8.toNat_inj.mp ?_)) hreserved hi h8 h10 h11
      · rw [UInt8.toNat_ofNat', hlen20]
        omega
      · rw [UInt8.toNat_ofNat', hlen20]
        omega
    · rw [readWord_size, hpayload, hn20]
      refine congrArg some ((hsplit _ hlow).trans ?_)
      have hpos : h'.payloadSize.toNat < 65536 := h'.payloadSize.isLt
      omega
    · subst hcalc
      exact resent_good f _ _

/-- A ping of one byte that is in transit, with the checksum of its header. -/
def samplePacket : List UInt8 :=
  [0x45, 0, 0, 21, 0, 0, 0, 0, 64, 1, 0x65, 0xe7, 10, 0, 0, 1, 10, 0, 1, 1, 8]

/-- The same with an option of four bytes that end the list of options. -/
def samplePacketWithOption : List UInt8 :=
  [0x46, 0, 0, 25, 0, 0, 0, 0, 64, 1, 0x64, 0xe3, 10, 0, 0, 1, 10, 0, 1, 1, 0, 0, 0, 0, 8]

/-- The packet without an option goes on as it is. -/
theorem forward_preserves_sample : ∃ h n out, (new true).deserialize samplePacket = some (h, n) ∧
    h.forward (List.replicate 20 0) (samplePacket.drop 20) = some out ∧
      Preserves true samplePacket out 20 1 := by
  have hd : ∃ h, (new true).deserialize samplePacket = some (h, 20) ∧ h.payloadSize = 1 :=
    ⟨_, rfl, by decide⟩
  obtain ⟨h, hd, hsize⟩ := hd
  obtain ⟨out, hout, hiff⟩ := forward_preserves_iff hd rfl (by decide) (by decide) (by rw [hsize]; decide)
    (show (List.replicate 20 (0 : UInt8)).length = _ by decide)
  have hplain : Plain samplePacket := ⟨rfl, ⟨0, rfl, by decide⟩, ⟨21, by decide, by decide⟩⟩
  exact ⟨h, 20, out, hd, hout, hiff.mpr hplain⟩

/-- Of the packet with an option the router makes a header of 20 bytes in the room for 24. -/
theorem forward_loses_option : ∃ h out, (new true).deserialize samplePacketWithOption = some (h, 24) ∧
    h.forward (List.replicate 24 0) (samplePacketWithOption.drop 24) = some out ∧
      ¬ Preserves true samplePacketWithOption out 24 1 := by
  refine ⟨_, _, rfl, rfl, fun hp => ?_⟩
  obtain ⟨w, hw, hsize⟩ := hp.headerSize
  obtain rfl : 0x45 = w := Option.some.inj hw
  revert hsize
  decide +kernel

end WireHeader

end CudaNs3.Internet
