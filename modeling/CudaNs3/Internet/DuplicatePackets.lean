import CudaNs3.Internet.Ipv4HeaderBytes
import CudaNs3.Lib.LazyExpiry
import CudaNs3.Lib.Transition

/-!
# Duplicate packets

`UpdateDuplicate` tells whether a packet was seen a short time before. A fragment is known by its
identification and its offset, a whole packet by its identification and a hash over the bytes that
routers do not change. Entries that are over are purged from time to time.
-/

namespace CudaNs3.Internet

open Words
set_option autoImplicit false

/-- A packet and its header as they are passed. `room` is what the buffer of the copy holds in the
place that is added for the header. -/
structure Sighting where
  header : WireHeader
  payload : List UInt8
  room : List UInt8
  sized : room.length = header.headerSize.toNat

namespace Sighting

def isFragment (p : Sighting) : Bool := p.header.fragmentOffset ≠ 0 || !p.header.isLastFragment

/-- The bytes of the copy; `none` when they are too few for a header. -/
def bytes (p : Sighting) : Option (List UInt8) := p.header.serialize (p.room ++ p.payload)

def fillN (b : List UInt8) (start n : Nat) : List UInt8 :=
  b.take start ++ List.replicate n 0 ++ b.drop (start + n)

/-- DSCP and ECN, the flags and the fragment offset, the time to live, the checksum. -/
def zeroFields (bytes : List UInt8) : List UInt8 :=
  let bytes := bytes.set 1 0
  let bytes := (bytes.set 6 0).set 7 0
  let bytes := bytes.set 8 0
  (bytes.set 10 0).set 11 0

/-- The bytes with the mutable fields zeroed out. -/
def hashedBytes (p : Sighting) : Option (List UInt8) :=
  p.bytes.map fun bytes =>
    if 20 < p.header.getSerializedSize.toNat then
      fillN (zeroFields bytes) 20 (p.header.getSerializedSize.toNat - 20)
    else zeroFields bytes

end Sighting

structure DupTuple where
  hash : BitVec 64
  proto : BitVec 8
  src : BitVec 32
  dst : BitVec 32
deriving DecidableEq

section Key
variable (hash32 : List UInt8 → BitVec 32)

def Sighting.hash (p : Sighting) : Option (BitVec 64) :=
  let id : BitVec 64 := p.header.identification.setWidth 64 <<< 32
  if p.isFragment then some (id ||| p.header.fragmentOffset.setWidth 64)
  else p.hashedBytes.map fun bytes => id ||| (hash32 bytes).setWidth 64

def Sighting.key (p : Sighting) : Option DupTuple :=
  (p.hash hash32).map fun hash => ⟨hash, p.header.protocol, p.header.source, p.header.destination⟩

end Key

/-- The attributes, the table and the pending purge, if there is one. -/
structure DuplicateTable where
  expire : Int
  purge : Int
  dups : List (DupTuple × Int) := []
  cleanDpd : Option Int := none

namespace DuplicateTable
variable (hash32 : List UInt8 → BitVec 32)

def updateDuplicate (d : DuplicateTable) (now : Int) (p : Sighting) :
    Option (Bool × DuplicateTable) :=
  (p.key hash32).map fun key =>
    (LazyExpiry.held d.dups key now,
      { d with
        dups := LazyExpiry.sight d.dups key (now + d.expire)
        cleanDpd :=
          if d.cleanDpd.isNone ∧ 0 < d.purge then some (now + d.expire) else d.cleanDpd })

def removeDuplicates (d : DuplicateTable) (now : Int) : DuplicateTable :=
  let dups := LazyExpiry.purge d.dups now
  { d with
    dups := dups
    cleanDpd := if dups ≠ [] ∧ 0 < d.purge then some (now + d.purge) else none }

end DuplicateTable

inductive DuplicateCall where
  | updateDuplicate (now : Int) (p : Sighting)
  | removeDuplicates (now : Int)

namespace DuplicateCall

def time : DuplicateCall → Int
  | updateDuplicate now _ => now
  | removeDuplicates now => now

/-- The packet that was seen, and when. -/
def seen : DuplicateCall → Option (Int × Sighting)
  | updateDuplicate now p => some (now, p)
  | removeDuplicates _ => none

/-- The call in a table; a purge may come at any time. -/
def perform (hash32 : List UInt8 → BitVec 32) (d : DuplicateTable) :
    DuplicateCall → Option DuplicateTable
  | updateDuplicate now p => (d.updateDuplicate hash32 now p).map Prod.snd
  | removeDuplicates now => some (d.removeDuplicates now)

end DuplicateCall

/-! ### What is a duplicate -/

namespace Sighting

/-- DSCP and ECN, the flags and the fragment offset, the time to live, the checksum, the options. -/
def Mutable (p : Sighting) (i : Nat) : Prop :=
  i = 1 ∨ i = 6 ∨ i = 7 ∨ i = 8 ∨ i = 10 ∨ i = 11 ∨ 20 ≤ i ∧ i < p.header.headerSize.toNat

instance (p : Sighting) : DecidablePred p.Mutable := fun i => inferInstanceAs
  (Decidable (i = 1 ∨ i = 6 ∨ i = 7 ∨ i = 8 ∨ i = 10 ∨ i = 11 ∨
    20 ≤ i ∧ i < p.header.headerSize.toNat))

/-- The bytes, those that may change on the way zeroed. -/
def blank (p : Sighting) (bytes : List UInt8) : List UInt8 :=
  bytes.mapIdx fun i x => if p.Mutable i then 0 else x

/-- The bytes are the same apart from those that may change on the way. -/
def SameBytes (p q : Sighting) : Prop :=
  ∃ b c, p.bytes = some b ∧ q.bytes = some c ∧ p.blank b = q.blank c

structure SamePacket (p q : Sighting) : Prop where
  source : p.header.source = q.header.source
  destination : p.header.destination = q.header.destination
  protocol : p.header.protocol = q.header.protocol
  identification : p.header.identification = q.header.identification
  fragment : p.isFragment = q.isFragment
  offset : p.isFragment = true → p.header.fragmentOffset = q.header.fragmentOffset
  bytes : p.isFragment = false → SameBytes p q

/-- The same packet with another time to live. -/
structure SameButTtl (p q : Sighting) : Prop where
  header : q.header = { p.header with ttl := q.header.ttl }
  payload : q.payload = p.payload

/-! ### What is hashed -/

variable {p q : Sighting} {b c : List UInt8}

theorem bytes_eq_some (h : p.bytes = some b) :
    20 ≤ b.length ∧ b.length = p.header.headerSize.toNat + p.payload.length := by
  have hlen : p.header.written.length = 20 := rfl
  rw [bytes, WireHeader.serialize] at h
  by_cases h20 : 20 ≤ (p.room ++ p.payload).length
  · rw [if_pos h20] at h
    obtain rfl := Option.some.inj h
    rw [List.length_append, p.sized] at h20
    split
    · rw [WireHeader.putChecksum, List.length_set, List.length_set, List.length_append, hlen,
        List.length_drop, List.length_append, p.sized]
      omega
    · rw [List.length_append, hlen, List.length_drop, List.length_append, p.sized]
      omega
  · rw [if_neg h20] at h
    cases h

theorem bytes_eq_none_iff :
    p.bytes = none ↔ p.header.headerSize.toNat + p.payload.length < 20 := by
  rw [bytes, WireHeader.serialize, List.length_append, p.sized]
  by_cases h20 : 20 ≤ p.header.headerSize.toNat + p.payload.length
  · rw [if_pos h20]
    simp [h20]
  · rw [if_neg h20]
    simp [Nat.lt_of_not_le h20]

theorem getElem?_fillN {start n : Nat} (h : start + n ≤ b.length) (i : Nat) :
    (fillN b start n)[i]? = if start ≤ i ∧ i < start + n then some 0 else b[i]? := by
  rw [fillN, List.append_assoc]
  rcases Nat.lt_or_ge i start with hlt | hge
  · rw [List.getElem?_append_left (by rw [List.length_take]; omega), List.getElem?_take_of_lt hlt,
      if_neg (by omega)]
  · have htake : (b.take start).length = start := List.length_take_of_le (by omega)
    rw [List.getElem?_append_right (by omega), htake]
    rcases Nat.lt_or_ge i (start + n) with hin | hout
    · rw [List.getElem?_append_left (by rw [List.length_replicate]; omega),
        List.getElem?_replicate_of_lt (by omega), if_pos ⟨hge, hin⟩]
    · rw [List.getElem?_append_right (by rw [List.length_replicate]; omega),
        List.length_replicate, List.getElem?_drop, if_neg (by omega)]
      congr 1
      omega

@[simp] theorem length_zeroFields : (zeroFields b).length = b.length := by
  simp only [zeroFields, List.length_set]

theorem getElem?_zeroFields (h : 20 ≤ b.length) (i : Nat) : (zeroFields b)[i]? =
      if i = 1 ∨ i = 6 ∨ i = 7 ∨ i = 8 ∨ i = 10 ∨ i = 11 then some 0 else b[i]? := by
  have hput : ∀ (l : List UInt8) (n : Nat), n < 20 → 20 ≤ l.length →
      (l.set n 0)[i]? = if i = n then some 0 else l[i]? := by
    intro l n hn hl
    rw [List.getElem?_set, if_pos (Nat.lt_of_lt_of_le hn hl)]
    exact if_congr eq_comm rfl rfl
  rw [zeroFields, hput _ 11 (by decide) (by simpa using h),
    hput _ 10 (by decide) (by simpa using h), hput _ 8 (by decide) (by simpa using h), hput _ 7 (by decide) (by simpa using h),
    hput _ 6 (by decide) (by simpa using h), hput _ 1 (by decide) h]
  split_ifs <;> first | rfl | omega

theorem mutable_iff {i : Nat} : p.Mutable i ↔
    (i = 1 ∨ i = 6 ∨ i = 7 ∨ i = 8 ∨ i = 10 ∨ i = 11) ∨
      20 ≤ i ∧ i < p.header.headerSize.toNat := by
  simp only [Mutable, or_assoc]

theorem getElem?_blank (h20 : 20 ≤ b.length)
    (hlen : b.length = p.header.headerSize.toNat + p.payload.length) (i : Nat) :
    (p.blank b)[i]? = if p.Mutable i then some 0 else b[i]? := by
  rw [blank, List.getElem?_mapIdx]
  by_cases hm : p.Mutable i
  · have hin : i < b.length := by
      rcases mutable_iff.mp hm with hfixed | hoption
      · omega
      · omega
    rw [List.getElem?_eq_getElem hin, if_pos hm, Option.map_some, if_pos hm]
  · rw [if_neg hm]
    simp [hm]

/-- What the code hashes are the bytes with those blanked that may change. -/
theorem hashedBytes_eq_blank : p.hashedBytes = p.bytes.map p.blank := by
  rw [hashedBytes]
  cases hb : p.bytes with
  | none => rfl
  | some b =>
    obtain ⟨h20, hlen⟩ := bytes_eq_some hb
    have hsize : p.header.getSerializedSize.toNat = p.header.headerSize.toNat :=
      BitVec.toNat_setWidth_of_le (by decide)
    rw [Option.map_some, Option.map_some, hsize]
    refine congrArg some (List.ext_getElem? fun i => ?_)
    rw [getElem?_blank h20 hlen]
    by_cases hmore : 20 < p.header.headerSize.toNat
    · have hend : 20 + (p.header.headerSize.toNat - 20) = p.header.headerSize.toNat := by omega
      rw [if_pos hmore, getElem?_fillN (by rw [length_zeroFields]; omega),
        getElem?_zeroFields h20, hend]
      by_cases hoption : 20 ≤ i ∧ i < p.header.headerSize.toNat
      · rw [if_pos hoption, if_pos (mutable_iff.mpr (.inr hoption))]
      · rw [if_neg hoption]
        exact if_congr (by rw [mutable_iff, or_iff_left hoption]) rfl rfl
    · have hnot : ¬ (20 ≤ i ∧ i < p.header.headerSize.toNat) := by omega
      rw [if_neg hmore, getElem?_zeroFields h20]
      exact if_congr (by rw [mutable_iff, or_iff_left hnot]) rfl rfl

/-- The fields of the header that do not change, as they are hashed. -/
def fixed (h : WireHeader) : List UInt8 :=
  [0x45, 0] ++ toBytes 2 (h.payloadSize + 20).toNat ++ toBytes 2 h.identification.toNat ++
    [0, 0, 0, ⟨h.protocol⟩, 0, 0] ++ toBytes 4 h.source.toNat ++ toBytes 4 h.destination.toNat

/-- Nothing that is hashed depends on what may change, or on what the buffer held. -/
theorem hashedBytes_eq : p.hashedBytes =
    if 20 ≤ p.header.headerSize.toNat + p.payload.length then
      some (fixed p.header ++ List.replicate (p.header.headerSize.toNat - 20) 0 ++
        p.payload.drop (20 - p.header.headerSize.toNat))
    else none := by
  have hsize : p.header.getSerializedSize.toNat = p.header.headerSize.toNat :=
    BitVec.toNat_setWidth_of_le (by decide)
  have hfixed : (fixed p.header).length = 20 := rfl
  have hroom := p.sized
  rw [hashedBytes, bytes, WireHeader.serialize, hsize, List.length_append, hroom]
  by_cases h20 : 20 ≤ p.header.headerSize.toNat + p.payload.length
  · rw [if_pos h20, if_pos h20]
    have hset : ∀ sum b, b = (if p.header.calcChecksum = true then
        WireHeader.putChecksum (p.header.written ++ (p.room ++ p.payload).drop 20) sum
        else p.header.written ++ (p.room ++ p.payload).drop 20) →
        zeroFields b = fixed p.header ++ (p.room ++ p.payload).drop 20 := by
      rintro sum b rfl
      cases p.header.calcChecksum with
      | true => rfl
      | false => rfl
    rw [Option.map_some, hset _ _ rfl]
    refine congrArg some ?_
    by_cases hmore : 20 < p.header.headerSize.toNat
    · have hend : 20 + (p.header.headerSize.toNat - 20) = p.room.length := by omega
      have hzero : 20 - p.header.headerSize.toNat = 0 := by omega
      have hrest : (fixed p.header ++ (p.room ++ p.payload).drop 20).drop p.room.length =
          p.payload := by
        have hback : 20 + (p.room.length - 20) = p.room.length := by omega
        rw [List.drop_append, hfixed, List.drop_eq_nil_of_le (by omega), List.nil_append,
          List.drop_drop, hback, List.drop_left]
      rw [if_pos hmore, fillN, hend, List.take_left' hfixed, hrest, hzero, List.drop_zero]
    · have hnone : p.header.headerSize.toNat - 20 = 0 := by omega
      rw [if_neg hmore, hnone, List.replicate_zero, List.append_nil, List.drop_append, hroom,
        List.drop_eq_nil_of_le (by omega), List.nil_append]
  · rw [if_neg h20, if_neg h20]
    rfl

theorem sameBytes_iff : SameBytes p q ↔ ∃ b, p.hashedBytes = some b ∧ q.hashedBytes = some b := by
  rw [hashedBytes_eq_blank, hashedBytes_eq_blank]
  constructor
  · rintro ⟨b, c, hb, hc, heq⟩
    exact ⟨p.blank b, by rw [hb, Option.map_some], by rw [hc, Option.map_some, heq]⟩
  · rintro ⟨b, hp, hq⟩
    obtain ⟨b₁, hb₁, rfl⟩ := Option.map_eq_some_iff.mp hp
    obtain ⟨b₂, hb₂, heq⟩ := Option.map_eq_some_iff.mp hq
    exact ⟨b₁, b₂, hb₁, hb₂, heq.symm⟩

theorem toBytes_toNat_inj {n w : Nat} {x y : BitVec w} (hw : 2 ^ w ≤ 256 ^ n)
    (h : toBytes n x.toNat = toBytes n y.toNat) : x = y := by
  apply BitVec.eq_of_toNat_eq
  rw [← ofBytes_toBytes (Nat.lt_of_lt_of_le x.isLt hw), h,
    ofBytes_toBytes (Nat.lt_of_lt_of_le y.isLt hw)]

theorem fixed_inj {h h' : WireHeader} (heq : fixed h = fixed h') :
    h.payloadSize = h'.payloadSize ∧ h.identification = h'.identification ∧
      h.protocol = h'.protocol ∧ h.source = h'.source ∧ h.destination = h'.destination := by
  obtain ⟨heq, hdst⟩ := List.append_inj' heq rfl
  obtain ⟨heq, hsrc⟩ := List.append_inj' heq rfl
  obtain ⟨heq, hmid⟩ := List.append_inj' heq rfl
  obtain ⟨heq, hid⟩ := List.append_inj' heq rfl
  obtain ⟨-, hsize⟩ := List.append_inj' heq rfl
  refine ⟨?_, toBytes_toNat_inj (by decide) hid, ?_, toBytes_toNat_inj (by decide) hsrc,
    toBytes_toNat_inj (by decide) hdst⟩
  · exact (BitVec.add_left_inj 20).mp (toBytes_toNat_inj (by decide) hsize)
  · injection hmid with _ hmid
    injection hmid with _ hmid
    injection hmid with _ hmid
    injection hmid with hproto _
    exact congrArg UInt8.toBitVec hproto

/-- For packets as long as their headers say, only equal packets have the same bytes. -/
theorem sameBytes_iff_fields (hp : 20 ≤ p.header.headerSize.toNat)
    (hq : 20 ≤ q.header.headerSize.toNat) (hlenp : p.payload.length = p.header.payloadSize.toNat)
    (hlenq : q.payload.length = q.header.payloadSize.toNat) : SameBytes p q ↔
      p.header.headerSize = q.header.headerSize ∧ p.header.payloadSize = q.header.payloadSize ∧
      p.header.identification = q.header.identification ∧ p.header.protocol = q.header.protocol ∧
      p.header.source = q.header.source ∧ p.header.destination = q.header.destination ∧
      p.payload = q.payload := by
  have hp0 : 20 - p.header.headerSize.toNat = 0 := by omega
  have hq0 : 20 - q.header.headerSize.toNat = 0 := by omega
  rw [sameBytes_iff, hashedBytes_eq, hashedBytes_eq, if_pos (Nat.le_add_right_of_le hp),
    if_pos (Nat.le_add_right_of_le hq), hp0, hq0, List.drop_zero, List.drop_zero,
    List.append_assoc, List.append_assoc]
  constructor
  · rintro ⟨b, hb, hc⟩
    obtain ⟨hfixed, hrest⟩ := List.append_inj (Option.some.inj (hb.trans hc.symm)) rfl
    obtain ⟨hsize, hid, hproto, hsrc, hdst⟩ := fixed_inj hfixed
    have hlen := congrArg List.length hrest
    rw [List.length_append, List.length_append, List.length_replicate, List.length_replicate,
      hlenp, hlenq, hsize] at hlen
    have hheader : p.header.headerSize = q.header.headerSize :=
      BitVec.eq_of_toNat_eq (by omega)
    rw [hheader] at hrest
    exact ⟨hheader, hsize, hid, hproto, hsrc, hdst, List.append_cancel_left hrest⟩
  · rintro ⟨hheader, hsize, hid, hproto, hsrc, hdst, hpayload⟩
    have hfixed : fixed p.header = fixed q.header := by
      rw [fixed, fixed, hsize, hid, hproto, hsrc, hdst]
    exact ⟨_, by rw [hfixed, hheader, hpayload], rfl⟩

theorem SameButTtl.isFragment_eq (h : SameButTtl p q) : q.isFragment = p.isFragment := by
  rw [isFragment, isFragment, h.header]
  rfl

/-- Neither the time to live nor what the buffer held is part of the key. -/
theorem SameButTtl.key_eq (h : SameButTtl p q) (hash32 : List UInt8 → BitVec 32) :
    q.key hash32 = p.key hash32 := by
  have hbytes : q.hashedBytes = p.hashedBytes := by
    rw [hashedBytes_eq, hashedBytes_eq, h.payload, h.header]
    rfl
  rw [key, key, hash, hash, hbytes, h.isFragment_eq, h.header]

end Sighting

/-! ### The key of a packet -/

section Keys
variable {hash32 : List UInt8 → BitVec 32} {p q : Sighting} {k l : DupTuple}

/-- The hash does not mix up the packets: it is injective on the bytes that are hashed, and none of
its values is the offset of a fragment. -/
structure HashSeparates (hash32 : List UInt8 → BitVec 32) (ps : List Sighting) : Prop where
  injective : ∀ p ∈ ps, ∀ q ∈ ps, p.isFragment = false → q.isFragment = false →
    p.hashedBytes.map hash32 = q.hashedBytes.map hash32 → p.hashedBytes = q.hashedBytes
  offset : ∀ p ∈ ps, ∀ q ∈ ps, p.isFragment = false → q.isFragment = true →
    p.hashedBytes.map (fun b => (hash32 b).toNat) ≠ some q.header.fragmentOffset.toNat

theorem toNat_packed {w : Nat} (hw : w ≤ 32) (id : BitVec 16) (x : BitVec w) :
    ((id.setWidth 64 : BitVec 64) <<< 32 ||| x.setWidth 64).toNat =
      id.toNat * 2 ^ 32 + x.toNat := by
  have hid := id.isLt
  have hx : x.toNat < 2 ^ 32 :=
    Nat.lt_of_lt_of_le x.isLt (Nat.pow_le_pow_right (by decide) hw)
  have hshift : id.toNat <<< 32 % 2 ^ 64 = id.toNat <<< 32 := by
    rw [Nat.shiftLeft_eq]
    omega
  rw [BitVec.toNat_or, BitVec.toNat_shiftLeft, BitVec.toNat_setWidth_of_le (by decide),
    BitVec.toNat_setWidth_of_le (by omega), hshift, ← Nat.shiftLeft_add_eq_or_of_lt hx,
    Nat.shiftLeft_eq]

/-- The identification and the rest do not overlap. -/
theorem packed_inj {v w : Nat} (hv : v ≤ 32) (hw : w ≤ 32) {i j : BitVec 16} {x : BitVec v}
    {y : BitVec w} (h : (i.setWidth 64 : BitVec 64) <<< 32 ||| x.setWidth 64 =
      (j.setWidth 64 : BitVec 64) <<< 32 ||| y.setWidth 64) : i = j ∧ x.toNat = y.toNat := by
  have heq := congrArg BitVec.toNat h
  rw [toNat_packed hv, toNat_packed hw] at heq
  have hx : x.toNat < 2 ^ 32 := Nat.lt_of_lt_of_le x.isLt (Nat.pow_le_pow_right (by decide) hv)
  have hy : y.toNat < 2 ^ 32 := Nat.lt_of_lt_of_le y.isLt (Nat.pow_le_pow_right (by decide) hw)
  exact ⟨BitVec.eq_of_toNat_eq (by omega), by omega⟩

theorem hash_fragment (h : p.isFragment = true) : p.hash hash32 =
    some (p.header.identification.setWidth 64 <<< 32 ||| p.header.fragmentOffset.setWidth 64) := by
  rw [Sighting.hash, if_pos h]

theorem hash_whole (h : p.isFragment = false) {x : BitVec 64} : p.hash hash32 = some x ↔
    ∃ b, p.hashedBytes = some b ∧
      p.header.identification.setWidth 64 <<< 32 ||| (hash32 b).setWidth 64 = x := by
  rw [Sighting.hash, if_neg (by rw [h]; exact Bool.false_ne_true), Option.map_eq_some_iff]

/-- Packets that are not mixed up have the same value only when it was made of the same. -/
theorem hash_eq_iff {ps : List Sighting} (hsep : HashSeparates hash32 ps) (hp : p ∈ ps)
    (hq : q ∈ ps) {x y : BitVec 64} (hx : p.hash hash32 = some x) (hy : q.hash hash32 = some y) :
    x = y ↔ p.header.identification = q.header.identification ∧ p.isFragment = q.isFragment ∧
      (p.isFragment = true → p.header.fragmentOffset = q.header.fragmentOffset) ∧
      (p.isFragment = false → p.SameBytes q) := by
  cases hfp : p.isFragment with
  | true =>
    rw [hash_fragment hfp] at hx
    obtain rfl := Option.some.inj hx
    cases hfq : q.isFragment with
    | true =>
      rw [hash_fragment hfq] at hy
      obtain rfl := Option.some.inj hy
      constructor
      · intro heq
        obtain ⟨hid, hoffset⟩ := packed_inj (by decide) (by decide) heq
        exact ⟨hid, rfl, fun _ => BitVec.eq_of_toNat_eq hoffset, fun h => Bool.noConfusion h⟩
      · rintro ⟨hid, -, hoffset, -⟩
        rw [hid, hoffset rfl]
    | false =>
      obtain ⟨c, hc, rfl⟩ := (hash_whole hfq).mp hy
      refine iff_of_false (fun heq => ?_) (fun h => Bool.noConfusion h.2.1)
      obtain ⟨-, hoffset⟩ := packed_inj (by decide) (Nat.le_refl 32) heq
      exact hsep.offset q hq p hp hfq hfp (by rw [hc, Option.map_some, hoffset])
  | false =>
    obtain ⟨b, hb, rfl⟩ := (hash_whole hfp).mp hx
    cases hfq : q.isFragment with
    | true =>
      rw [hash_fragment hfq] at hy
      obtain rfl := Option.some.inj hy
      refine iff_of_false (fun heq => ?_) (fun h => Bool.noConfusion h.2.1)
      obtain ⟨-, hoffset⟩ := packed_inj (Nat.le_refl 32) (by decide) heq
      exact hsep.offset p hp q hq hfp hfq (by rw [hb, Option.map_some, hoffset])
    | false =>
      obtain ⟨c, hc, rfl⟩ := (hash_whole hfq).mp hy
      constructor
      · intro heq
        obtain ⟨hid, hsame⟩ := packed_inj (Nat.le_refl 32) (Nat.le_refl 32) heq
        have hbytes := hsep.injective p hp q hq hfp hfq
          (by rw [hb, hc, Option.map_some, Option.map_some, BitVec.eq_of_toNat_eq hsame])
        exact ⟨hid, rfl, fun h => Bool.noConfusion h,
          fun _ => Sighting.sameBytes_iff.mpr ⟨b, hb, hbytes ▸ hb⟩⟩
      · rintro ⟨hid, -, -, hbytes⟩
        obtain ⟨d, hd, hd'⟩ := Sighting.sameBytes_iff.mp (hbytes rfl)
        rw [hb] at hd
        rw [hc] at hd'
        rw [hid, Option.some.inj hd, Option.some.inj hd']

theorem key_eq_iff {ps : List Sighting} (hsep : HashSeparates hash32 ps) (hp : p ∈ ps)
    (hq : q ∈ ps) (hk : p.key hash32 = some k) (hl : q.key hash32 = some l) :
    k = l ↔ p.SamePacket q := by
  obtain ⟨x, hx, rfl⟩ := Option.map_eq_some_iff.mp hk
  obtain ⟨y, hy, rfl⟩ := Option.map_eq_some_iff.mp hl
  have hiff := hash_eq_iff hsep hp hq hx hy
  constructor
  · intro heq
    injection heq with hhash hproto hsrc hdst
    obtain ⟨hid, hfragment, hoffset, hbytes⟩ := hiff.mp hhash
    exact ⟨hsrc, hdst, hproto, hid, hfragment, hoffset, hbytes⟩
  · intro h
    rw [hiff.mpr ⟨h.identification, h.fragment, h.offset, h.bytes⟩, h.protocol, h.source,
      h.destination]

/-- Only a packet too short for a header has no key. -/
theorem key_eq_none_iff : p.key hash32 = none ↔
    p.isFragment = false ∧ p.header.headerSize.toNat + p.payload.length < 20 := by
  rw [Sighting.key, Option.map_eq_none_iff]
  cases hf : p.isFragment with
  | true => simp [hash_fragment hf]
  | false =>
    rw [Sighting.hash, if_neg (by rw [hf]; exact Bool.false_ne_true), Option.map_eq_none_iff,
      Sighting.hashedBytes, Option.map_eq_none_iff, Sighting.bytes_eq_none_iff]
    simp

end Keys

/-! ### Runs -/

section Runs
variable (hash32 : List UInt8 → BitVec 32)

/-- The keys that were seen, each with the time at which it is over. -/
def keysSeen (expire : Int) (calls : List DuplicateCall) : List (DupTuple × Int) :=
  (calls.filterMap DuplicateCall.seen).filterMap fun s =>
    (s.2.key hash32).map fun k => (k, s.1 + expire)

variable {hash32} {expire now : Int} {calls calls' : List DuplicateCall} {c : DuplicateCall}
  {d d₀ d' : DuplicateTable} {p : Sighting} {k : DupTuple}

theorem mem_seen {t : Int} {q : Sighting} :
    (t, q) ∈ calls.filterMap DuplicateCall.seen ↔ .updateDuplicate t q ∈ calls := by
  rw [List.mem_filterMap]
  constructor
  · rintro ⟨c, hc, hseen⟩
    cases c with
    | updateDuplicate u r =>
      obtain ⟨rfl, rfl⟩ := Prod.mk.inj (Option.some.inj hseen)
      exact hc
    | removeDuplicates u => cases hseen
  · intro hc
    exact ⟨_, hc, rfl⟩

theorem mem_keysSeen {e : DupTuple × Int} : e ∈ keysSeen hash32 expire calls ↔
    ∃ t q, .updateDuplicate t q ∈ calls ∧ q.key hash32 = some e.1 ∧ e.2 = t + expire := by
  rw [keysSeen, List.mem_filterMap]
  constructor
  · rintro ⟨⟨t, q⟩, hs, he⟩
    obtain ⟨k, hk, rfl⟩ := Option.map_eq_some_iff.mp he
    exact ⟨t, q, mem_seen.mp hs, hk, rfl⟩
  · rintro ⟨t, q, hs, hk, hend⟩
    refine ⟨(t, q), mem_seen.mpr hs, ?_⟩
    rw [hk, Option.map_some, ← hend]

theorem keysSeen_concat : keysSeen hash32 expire (calls ++ [c]) =
    keysSeen hash32 expire calls ++ keysSeen hash32 expire [c] := by
  rw [keysSeen, List.filterMap_append, List.filterMap_append]
  rfl

/-- One call keeps what the table recalls. -/
theorem recalls_perform (h : LazyExpiry.Recalls d.dups c.time (keysSeen hash32 d.expire calls))
    (hbefore : ∀ b ∈ calls, b.time ≤ c.time) (hcall : c.perform hash32 d = some d') :
    d'.expire = d.expire ∧
      LazyExpiry.Recalls d'.dups c.time (keysSeen hash32 d.expire (calls ++ [c])) := by
  rw [keysSeen_concat]
  cases c with
  | updateDuplicate now p =>
    rw [DuplicateCall.perform, DuplicateTable.updateDuplicate, Option.map_map] at hcall
    obtain ⟨k, hk, rfl⟩ := Option.map_eq_some_iff.mp hcall
    have hnew : keysSeen hash32 d.expire [.updateDuplicate now p] = [(k, now + d.expire)] := by
      simp [keysSeen, DuplicateCall.seen, hk]
    rw [hnew]
    refine ⟨rfl, h.sight ?_⟩
    intro e he
    obtain ⟨t, q, hq, -, hend⟩ := mem_keysSeen.mp he
    have hle : t ≤ now := hbefore _ hq
    omega
  | removeDuplicates now =>
    obtain rfl := Option.some.inj hcall
    refine ⟨rfl, ?_⟩
    have hnone : keysSeen hash32 d.expire [.removeDuplicates now] = [] := rfl
    rw [hnone, List.append_nil]
    exact h.purge

theorem recalls_exec (hnew : d₀.dups = [])
    (hsorted : (calls.map DuplicateCall.time ++ [now]).Pairwise (· ≤ ·))
    (hrun : Transition.exec (DuplicateCall.perform hash32) d₀ calls = some d) :
    d.expire = d₀.expire ∧ LazyExpiry.Recalls d.dups now (keysSeen hash32 d₀.expire calls) := by
  induction calls using List.reverseRecOn generalizing d now with
  | nil =>
    obtain rfl := Option.some.inj hrun
    exact ⟨rfl, hnew ▸ LazyExpiry.Recalls.nil now⟩
  | append_singleton calls c ih =>
    obtain ⟨e, he, hlast⟩ := Transition.exec_append.mp hrun
    obtain ⟨f, hf, hend⟩ := Transition.exec_cons_eq_some.mp hlast
    obtain rfl := Option.some.inj hend
    rw [List.map_append, List.map_singleton] at hsorted
    obtain ⟨hinit, -, hnow⟩ := List.pairwise_append.mp hsorted
    obtain ⟨-, -, hbefore⟩ := List.pairwise_append.mp hinit
    obtain ⟨hexpire, hrecalls⟩ := ih hinit he
    rw [← hexpire] at hrecalls ⊢
    obtain ⟨hkept, hnext⟩ := recalls_perform hrecalls
      (fun b hb => hbefore _ (List.mem_map_of_mem hb) _ (List.mem_singleton_self _)) hf
    refine ⟨hkept, hnext.later ?_⟩
    exact hnow _ (List.mem_append_right _ (List.mem_singleton_self _)) _
      (List.mem_singleton_self _)

/-- A run is performed to its end when the packets have keys. -/
theorem exists_exec_iff : (∃ d, Transition.exec (DuplicateCall.perform hash32) d₀ calls = some d) ↔
    ∀ s ∈ calls.filterMap DuplicateCall.seen, (s.2.key hash32).isSome := by
  induction calls generalizing d₀ with
  | nil => simp
  | cons c calls ih =>
    cases c with
    | removeDuplicates now => exact ih
    | updateDuplicate now p =>
      have hseen : (DuplicateCall.updateDuplicate now p :: calls).filterMap DuplicateCall.seen =
          (now, p) :: calls.filterMap DuplicateCall.seen := rfl
      rw [hseen, List.forall_mem_cons]
      cases hk : p.key hash32 with
      | none =>
        refine iff_of_false ?_ (by simp)
        rintro ⟨d, hd⟩
        obtain ⟨e, he, -⟩ := Transition.exec_cons_eq_some.mp hd
        simp [DuplicateCall.perform, DuplicateTable.updateDuplicate, hk] at he
      | some k =>
        have hstep : ∃ e, (DuplicateCall.updateDuplicate now p).perform hash32 d₀ = some e := by
          simp [DuplicateCall.perform, DuplicateTable.updateDuplicate, hk]
        obtain ⟨e, he⟩ := hstep
        constructor
        · rintro ⟨d, hd⟩
          obtain ⟨f, -, hrest⟩ := Transition.exec_cons_eq_some.mp hd
          exact ⟨by simp, ih.mp ⟨d, hrest⟩⟩
        · rintro ⟨-, hrest⟩
          obtain ⟨d, hd⟩ := ih.mpr hrest
          exact ⟨d, Transition.exec_cons_eq_some.mpr ⟨e, he, hd⟩⟩

/-- The answer, in terms of the keys that were seen. -/
theorem isDup_iff (hnew : d₀.dups = [])
    (hsorted : (calls.map DuplicateCall.time ++ [now]).Pairwise (· ≤ ·))
    (hrun : Transition.exec (DuplicateCall.perform hash32) d₀ calls = some d)
    (hk : p.key hash32 = some k) {isDup : Bool}
    (hcall : d.updateDuplicate hash32 now p = some (isDup, d')) :
    isDup = true ↔ ∃ e ∈ keysSeen hash32 d₀.expire calls, e.1 = k ∧ now < e.2 := by
  obtain ⟨-, hrecalls⟩ := recalls_exec hnew hsorted hrun
  rw [DuplicateTable.updateDuplicate, hk] at hcall
  obtain ⟨rfl, -⟩ := Prod.mk.inj (Option.some.inj hcall)
  exact hrecalls.held_iff k now (Int.le_refl now)

/-- The calls for the packets are the same, but for the times to live. -/
def SameSightings (calls calls' : List DuplicateCall) : Prop :=
  List.Forall₂ (fun s s' => s'.1 = s.1 ∧ s.2.SameButTtl s'.2)
    (calls.filterMap DuplicateCall.seen) (calls'.filterMap DuplicateCall.seen)

theorem keysSeen_eq (h : SameSightings calls calls') :
    keysSeen hash32 expire calls' = keysSeen hash32 expire calls := by
  rw [SameSightings] at h
  rw [keysSeen, keysSeen]
  generalize calls.filterMap DuplicateCall.seen = l at h
  generalize calls'.filterMap DuplicateCall.seen = l' at h
  induction h with
  | nil => rfl
  | cons hs _ ih => rw [List.filterMap_cons, List.filterMap_cons, hs.2.key_eq, hs.1, ih]

theorem SameSightings.isSome_key (h : SameSightings calls calls')
    (hall : ∀ s ∈ calls.filterMap DuplicateCall.seen, (s.2.key hash32).isSome) :
    ∀ s ∈ calls'.filterMap DuplicateCall.seen, (s.2.key hash32).isSome := by
  rw [SameSightings] at h
  generalize calls.filterMap DuplicateCall.seen = l at h hall
  generalize calls'.filterMap DuplicateCall.seen = l' at h
  induction h with
  | nil => exact hall
  | cons hs _ ih =>
    rw [List.forall_mem_cons] at hall ⊢
    exact ⟨hs.2.key_eq hash32 ▸ hall.1, ih hall.2⟩

/-- After any run of sightings and purges a packet is a duplicate exactly when the same packet was
seen less than the expiration delay ago. The answer is the same after a run that purges otherwise,
or not at all, and in which the packets have other times to live. -/
theorem updateDuplicate_exact (hnew : d₀.dups = [])
    (hsorted : (calls.map DuplicateCall.time ++ [now]).Pairwise (· ≤ ·))
    (hsep : HashSeparates hash32 (p :: (calls.filterMap DuplicateCall.seen).map Prod.snd))
    (hrun : Transition.exec (DuplicateCall.perform hash32) d₀ calls = some d) {isDup : Bool}
    (hcall : d.updateDuplicate hash32 now p = some (isDup, d')) :
    (isDup = true ↔ ∃ t q, .updateDuplicate t q ∈ calls ∧ q.SamePacket p ∧
      now - t < d₀.expire) ∧
    ∀ (e₀ : DuplicateTable) (calls' : List DuplicateCall) (p' : Sighting), e₀.dups = [] →
      e₀.expire = d₀.expire → (calls'.map DuplicateCall.time ++ [now]).Pairwise (· ≤ ·) →
      SameSightings calls calls' → p.SameButTtl p' →
      ∃ e e', Transition.exec (DuplicateCall.perform hash32) e₀ calls' = some e ∧
        e.updateDuplicate hash32 now p' = some (isDup, e') := by
  obtain ⟨k, hk, -⟩ := Option.map_eq_some_iff.mp hcall
  have hdup := isDup_iff hnew hsorted hrun hk hcall
  constructor
  · rw [hdup]
    constructor
    · rintro ⟨e, he, rfl, hlt⟩
      obtain ⟨t, q, hq, hkey, hend⟩ := mem_keysSeen.mp he
      have hmem := List.mem_map_of_mem (f := Prod.snd) (mem_seen.mpr hq)
      have hiff := key_eq_iff hsep (List.mem_cons_of_mem p hmem) List.mem_cons_self hkey hk
      exact ⟨t, q, hq, hiff.mp rfl, by omega⟩
    · rintro ⟨t, q, hq, hsame, hlt⟩
      have hmem := List.mem_map_of_mem (f := Prod.snd) (mem_seen.mpr hq)
      have hsome := exists_exec_iff.mp ⟨d, hrun⟩ _ (mem_seen.mpr hq)
      obtain ⟨l, hl⟩ := Option.isSome_iff_exists.mp hsome
      have hiff := key_eq_iff hsep (List.mem_cons_of_mem p hmem) List.mem_cons_self hl hk
      have hnow : now < t + d₀.expire := by omega
      exact ⟨(l, t + d₀.expire), mem_keysSeen.mpr ⟨t, q, hq, hl, rfl⟩, hiff.mpr hsame, hnow⟩
  · intro e₀ calls' p' hnew' hexpire hsorted' hcalls hp
    obtain ⟨e, he⟩ : ∃ e, Transition.exec (DuplicateCall.perform hash32) e₀ calls' = some e :=
      exists_exec_iff.mpr (hcalls.isSome_key (exists_exec_iff.mp ⟨d, hrun⟩))
    have hk' : p'.key hash32 = some k := (hp.key_eq hash32).trans hk
    obtain ⟨⟨isDup', e'⟩, hcall'⟩ : ∃ r, e.updateDuplicate hash32 now p' = some r := by
      rw [DuplicateTable.updateDuplicate, hk']
      exact ⟨_, rfl⟩
    have hdup' := isDup_iff hnew' hsorted' he hk' hcall'
    rw [hexpire, keysSeen_eq hcalls, ← hdup] at hdup'
    refine ⟨e, e', he, ?_⟩
    rw [hcall', Bool.eq_iff_iff.mpr hdup']

end Runs

/-! ### A run with the hash that is documented -/

/-- What a block of four bytes is turned into before it is mixed in. -/
def scramble (k : BitVec 32) : BitVec 32 := (k * 0xcc9e2d51).rotateLeft 15 * 0x1b873593

/-- The bytes of a block, the least significant one first. -/
def block (b : List UInt8) : BitVec 32 :=
  b.foldr (fun x acc => acc <<< 8 ||| x.toBitVec.setWidth 32) 0

def mixBlocks : BitVec 32 → List UInt8 → BitVec 32
  | h, b₀ :: b₁ :: b₂ :: b₃ :: rest =>
    mixBlocks ((h ^^^ scramble (block [b₀, b₁, b₂, b₃])).rotateLeft 13 * 5 + 0xe6546b64) rest
  | h, tail => h ^^^ scramble (block tail)

/-- Murmur3 with 32 bits. -/
def murmur3 (seed : BitVec 32) (b : List UInt8) : BitVec 32 :=
  let h := mixBlocks seed b ^^^ BitVec.ofNat 32 b.length
  let h := (h ^^^ h >>> 16) * 0x85ebca6b
  let h := (h ^^^ h >>> 13) * 0xc2b2ae35
  h ^^^ h >>> 16

/-- A multicast packet of one byte. -/
def multicast (ttl : BitVec 8) (fragmentOffset : BitVec 16) : Sighting where
  header := { WireHeader.new true with
    payloadSize := 1
    identification := 7
    ttl := ttl
    protocol := 17
    fragmentOffset := fragmentOffset
    source := 0x0A000001
    destination := 0xE0000001 }
  payload := [1]
  room := List.replicate 20 0
  sized := rfl

/-- A packet, a purge, a fragment, and then the packet as another router has forwarded it. -/
theorem updateDuplicate_exact_forwarded : ∃ d d' : DuplicateTable,
    Transition.exec (DuplicateCall.perform (murmur3 0x8BADF00D)) ⟨1000, 50, [], none⟩
      [.updateDuplicate 0 (multicast 64 0), .removeDuplicates 400,
        .updateDuplicate 900 (multicast 64 8)] = some d ∧
    d.updateDuplicate (murmur3 0x8BADF00D) 950 (multicast 63 0) = some (true, d') ∧
    (true = true ↔ ∃ t q, DuplicateCall.updateDuplicate t q ∈ [DuplicateCall.updateDuplicate 0
      (multicast 64 0), .removeDuplicates 400, .updateDuplicate 900 (multicast 64 8)] ∧
      q.SamePacket (multicast 63 0) ∧ 950 - t < 1000) := by
  have hvalue : ((Transition.exec (DuplicateCall.perform (murmur3 0x8BADF00D)) ⟨1000, 50, [], none⟩
      [.updateDuplicate 0 (multicast 64 0), .removeDuplicates 400,
        .updateDuplicate 900 (multicast 64 8)]).bind fun d =>
      (d.updateDuplicate (murmur3 0x8BADF00D) 950 (multicast 63 0)).map Prod.fst) = some true := by
    decide +kernel
  obtain ⟨d, hrun, hanswer⟩ := Option.bind_eq_some_iff.mp hvalue
  obtain ⟨⟨isDup, d'⟩, hcall, rfl⟩ := Option.map_eq_some_iff.mp hanswer
  refine ⟨d, d', hrun, hcall, (updateDuplicate_exact rfl ?_ ⟨?_, ?_⟩ hrun hcall).1⟩
  · decide
  · decide +kernel
  · decide +kernel

end CudaNs3.Internet
