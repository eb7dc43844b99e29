import CudaNs3.Lib.Layouts
import Mathlib.Data.BitVec
import Mathlib.Data.List.TakeWhile

/-!
# The radiotap header

Each setter marks its field as present, and fixes the padding of a field that is aligned by the
length that the header has at this moment. `Serialize` writes the fields in the order of their
bits with these paddings; `Deserialize` takes each padding from the place it has reached. It does
not skip the padding of the HE MU fields, but counts it.
-/

namespace CudaNs3.Network

open Layouts

set_option autoImplicit false

namespace RadiotapHeader

/-- The fields that are written, in the order of their bits. -/
inductive Field where
  | tsft
  | flags
  | rate
  | channel
  | fhss
  | dbmAntsignal
  | dbmAntnoise
  | lockQuality
  | txAttenuation
  | dbTxAttenuation
  | dbmTxPower
  | antenna
  | dbAntsignal
  | dbAntnoise
  | rxFlags
  | mcs
  | ampduStatus
  | vht
  | he
  | heMu
  | heMuOtherUser
deriving DecidableEq

namespace Field

/-- The bit of `m_present`. -/
def bit : Field → Nat
  | .tsft => 0
  | .flags => 1
  | .rate => 2
  | .channel => 3
  | .fhss => 4
  | .dbmAntsignal => 5
  | .dbmAntnoise => 6
  | .lockQuality => 7
  | .txAttenuation => 8
  | .dbTxAttenuation => 9
  | .dbmTxPower => 10
  | .antenna => 11
  | .dbAntsignal => 12
  | .dbAntnoise => 13
  | .rxFlags => 14
  | .mcs => 19
  | .ampduStatus => 20
  | .vht => 21
  | .he => 23
  | .heMu => 24
  | .heMuOtherUser => 25

/-- The words the field has members for, in bytes. -/
def widths : Field → List Nat
  | .tsft => [8]
  | .flags | .rate | .dbmAntsignal | .dbmAntnoise => [1]
  | .channel => [2, 2]
  | .mcs => [1, 1, 1]
  | .ampduStatus => [4, 2, 1]
  | .vht => [2, 1, 1, 1, 1, 1, 1, 1, 1, 2]
  | .he => [2, 2, 2, 2, 2, 2]
  | .heMu => [2, 2]
  | .heMuOtherUser => [2, 2, 1, 1]
  | .fhss | .lockQuality | .txAttenuation | .dbTxAttenuation | .dbmTxPower | .antenna
  | .dbAntsignal | .dbAntnoise | .rxFlags => []

/-- The bytes behind these words, which are written as zeros. -/
def unused : Field → Nat
  | .fhss | .dbmTxPower | .antenna | .dbAntsignal | .dbAntnoise | .ampduStatus => 1
  | .lockQuality | .txAttenuation | .dbTxAttenuation | .rxFlags => 2
  | .heMu => 8
  | .tsft | .flags | .rate | .channel | .dbmAntsignal | .dbmAntnoise | .mcs | .vht | .he
  | .heMuOtherUser => 0

def size (f : Field) : Nat := f.widths.sum + f.unused

/-- 1 where there is no padding. -/
def align : Field → Nat
  | .channel | .vht | .he | .heMu | .heMuOtherUser => 2
  | .ampduStatus => 4
  | .tsft | .flags | .rate | .fhss | .dbmAntsignal | .dbmAntnoise | .lockQuality | .txAttenuation
  | .dbTxAttenuation | .dbmTxPower | .antenna | .dbAntsignal | .dbAntnoise | .rxFlags | .mcs => 1

/-- Whether `Deserialize` moves over the padding. -/
def skips : Field → Bool
  | .heMu | .heMuOtherUser => false
  | _ => true

def mask (f : Field) : BitVec 32 := BitVec.twoPow 32 f.bit

end Field

def fields : List Field :=
  [.tsft, .flags, .rate, .channel, .fhss, .dbmAntsignal, .dbmAntnoise, .lockQuality, .txAttenuation,
    .dbTxAttenuation, .dbmTxPower, .antenna, .dbAntsignal, .dbAntnoise, .rxFlags, .mcs, .ampduStatus,
    .vht, .he, .heMu, .heMuOtherUser]

end RadiotapHeader

/-- The length stays far below the 16 bits it has. -/
structure RadiotapHeader where
  length : Nat := 8
  present : BitVec 32 := 0
  pad : RadiotapHeader.Field → Nat := fun _ => 0
  value : (f : RadiotapHeader.Field) → Record f.widths := fun f => zeros f.widths

namespace RadiotapHeader

def getSerializedSize (h : RadiotapHeader) : Nat := h.length

def has (h : RadiotapHeader) (f : Field) : Bool := h.present &&& f.mask ≠ 0

/-! ### Serialize -/

def write (h : RadiotapHeader) (f : Field) : List UInt8 :=
  if h.has f then
    List.replicate (h.pad f) 0 ++ (encode f.widths (h.value f) ++ List.replicate f.unused 0)
  else []

/-- The version, a pad byte, the length and the mask. -/
def head (h : RadiotapHeader) : List UInt8 :=
  encode [1, 1, 2, 4] (0, 0, BitVec.ofNat 16 h.length, h.present, ())

def serialize (h : RadiotapHeader) : List UInt8 := h.head ++ fields.flatMap h.write

/-! ### Deserialize -/

/-- The bytes ahead, the bytes counted, and the header read so far. -/
structure Reading where
  rest : List UInt8
  bytesRead : Nat
  header : RadiotapHeader

/-- `none` beyond the end of the buffer. -/
def readBytes (n : Nat) (bs : List UInt8) : Option (List UInt8 × List UInt8) :=
  if n ≤ bs.length then some (bs.take n, bs.drop n) else none

/-- A field is stored. -/
def Reading.store (r : Reading) (f : Field) (body rest : List UInt8) : Reading where
  rest := rest
  bytesRead := r.bytesRead + (f.size + padding f.align r.bytesRead)
  header :=
    { r.header with
      pad := Function.update r.header.pad f (padding f.align r.bytesRead)
      value := Function.update r.header.value f (decode f.widths body) }

def Reading.field (r : Reading) (f : Field) : Option Reading :=
  if r.header.has f then do
    let (_, rest) ← readBytes (if f.skips then padding f.align r.bytesRead else 0) r.rest
    let (body, rest) ← readBytes f.size rest
    some (r.store f body rest)
  else some r

/-- `none` for another version, and when the lengths are inconsistent. -/
def deserialize (h : RadiotapHeader) (bs : List UInt8) : Option Reading := do
  let (start, rest) ← readBytes 8 bs
  let (version, _, length, present, ()) := decode [1, 1, 2, 4] start
  if version ≠ 0 then none
  else
    let r ← fields.foldlM Reading.field
      { rest, bytesRead := 8, header := { h with length := length.toNat, present } }
    if r.header.length = r.bytesRead then some r else none

/-! ### The setters -/

def set (h : RadiotapHeader) (f : Field) (value : Record f.widths) : RadiotapHeader :=
  let h := { h with value := Function.update h.value f value }
  if h.has f then h
  else
    let pad := padding f.align h.length
    { h with
      pad := Function.update h.pad f pad
      present := h.present ||| f.mask
      length := h.length + (f.size + pad) }

variable (h : RadiotapHeader)

def setTsft (value : BitVec 64) : RadiotapHeader := h.set .tsft (value, ())

def setFrameFlags (flags : BitVec 8) : RadiotapHeader := h.set .flags (flags, ())

def setRate (rate : BitVec 8) : RadiotapHeader := h.set .rate (rate, ())

def setChannelFrequencyAndFlags (frequency flags : BitVec 16) : RadiotapHeader :=
  h.set .channel (frequency, flags, ())

/-- The signal as the `int8_t` it is rounded to. -/
def setAntennaSignalPower (signal : BitVec 8) : RadiotapHeader := h.set .dbmAntsignal (signal, ())

def setAntennaNoisePower (noise : BitVec 8) : RadiotapHeader := h.set .dbmAntnoise (noise, ())

def setMcsFields (known flags mcs : BitVec 8) : RadiotapHeader := h.set .mcs (known, flags, mcs, ())

def setAmpduStatus (referenceNumber : BitVec 32) (flags : BitVec 16) (crc : BitVec 8) :
    RadiotapHeader := h.set .ampduStatus (referenceNumber, flags, crc, ())

def setVhtFields (known : BitVec 16) (flags bandwidth nss0 nss1 nss2 nss3 coding groupId : BitVec 8)
    (partialAid : BitVec 16) : RadiotapHeader :=
  h.set .vht (known, flags, bandwidth, nss0, nss1, nss2, nss3, coding, groupId, partialAid, ())

def setHeFields (data1 data2 data3 data4 data5 data6 : BitVec 16) : RadiotapHeader :=
  h.set .he (data1, data2, data3, data4, data5, data6, ())

def setHeMuFields (flags1 flags2 : BitVec 16) : RadiotapHeader := h.set .heMu (flags1, flags2, ())

def setHeMuPerUserFields (perUser1 perUser2 : BitVec 16) (perUserPosition perUserKnown : BitVec 8) :
    RadiotapHeader := h.set .heMuOtherUser (perUser1, perUser2, perUserPosition, perUserKnown, ())

/-! ### Calls -/

inductive Call where
  | setTsft (value : BitVec 64)
  | setFrameFlags (flags : BitVec 8)
  | setRate (rate : BitVec 8)
  | setChannelFrequencyAndFlags (frequency flags : BitVec 16)
  | setAntennaSignalPower (signal : BitVec 8)
  | setAntennaNoisePower (noise : BitVec 8)
  | setMcsFields (known flags mcs : BitVec 8)
  | setAmpduStatus (referenceNumber : BitVec 32) (flags : BitVec 16) (crc : BitVec 8)
  | setVhtFields (known : BitVec 16) (flags bandwidth nss0 nss1 nss2 nss3 coding groupId : BitVec 8)
      (partialAid : BitVec 16)
  | setHeFields (data1 data2 data3 data4 data5 data6 : BitVec 16)
  | setHeMuFields (flags1 flags2 : BitVec 16)
  | setHeMuPerUserFields (perUser1 perUser2 : BitVec 16) (perUserPosition perUserKnown : BitVec 8)

def perform : Call → RadiotapHeader
  | .setTsft value => h.setTsft value
  | .setFrameFlags flags => h.setFrameFlags flags
  | .setRate rate => h.setRate rate
  | .setChannelFrequencyAndFlags frequency flags => h.setChannelFrequencyAndFlags frequency flags
  | .setAntennaSignalPower signal => h.setAntennaSignalPower signal
  | .setAntennaNoisePower noise => h.setAntennaNoisePower noise
  | .setMcsFields known flags mcs => h.setMcsFields known flags mcs
  | .setAmpduStatus referenceNumber flags crc => h.setAmpduStatus referenceNumber flags crc
  | .setVhtFields known flags bandwidth nss0 nss1 nss2 nss3 coding groupId partialAid =>
    h.setVhtFields known flags bandwidth nss0 nss1 nss2 nss3 coding groupId partialAid
  | .setHeFields data1 data2 data3 data4 data5 data6 =>
    h.setHeFields data1 data2 data3 data4 data5 data6
  | .setHeMuFields flags1 flags2 => h.setHeMuFields flags1 flags2
  | .setHeMuPerUserFields perUser1 perUser2 perUserPosition perUserKnown =>
    h.setHeMuPerUserFields perUser1 perUser2 perUserPosition perUserKnown

def Call.field : Call → Field
  | .setTsft _ => .tsft
  | .setFrameFlags _ => .flags
  | .setRate _ => .rate
  | .setChannelFrequencyAndFlags _ _ => .channel
  | .setAntennaSignalPower _ => .dbmAntsignal
  | .setAntennaNoisePower _ => .dbmAntnoise
  | .setMcsFields _ _ _ => .mcs
  | .setAmpduStatus _ _ _ => .ampduStatus
  | .setVhtFields _ _ _ _ _ _ _ _ _ _ => .vht
  | .setHeFields _ _ _ _ _ _ => .he
  | .setHeMuFields _ _ => .heMu
  | .setHeMuPerUserFields _ _ _ _ => .heMuOtherUser

def build (calls : List Call) : RadiotapHeader := calls.foldl perform {}

/-- The length of the header when the setter of the field is first called. -/
def lengthBefore (calls : List Call) (f : Field) : Nat :=
  (build (calls.takeWhile fun c => c.field ≠ f)).length

/-- The place a field has behind those of lower bits that are set, each at a multiple of its
alignment. -/
def position (calls : List Call) (f : Field) : Nat :=
  place Field.align Field.size (fun g => g ∈ calls.map Call.field) 8 (before fields f)

/-- The setter of each field is first called when the length leaves the same padding as the place
of the field, and where the padding is not skipped there is none. -/
def Agrees (calls : List Call) : Prop :=
  ∀ f ∈ calls.map Call.field, lengthBefore calls f ≡ position calls f [MOD f.align] ∧
    (f.skips = false → f.align ∣ position calls f)

/-- The place of a field in what is written, behind its padding. -/
def offset (f : Field) : Nat := (h.head ++ (before fields f).flatMap h.write).length + h.pad f

structure RoundTrips : Prop where
  size : h.serialize.length = h.getSerializedSize
  aligned : ∀ f, h.has f → f.align ∣ h.offset f
  read : ∀ target : RadiotapHeader, ∃ r, target.deserialize h.serialize = some r ∧ r.rest = [] ∧
    r.bytesRead = h.getSerializedSize ∧ r.header.present = h.present ∧
    ∀ f, h.has f → r.header.value f = h.value f

/-! ### The fields -/

section
variable {h} {f g : Field} {c : Call} {calls : List Call}

theorem mem_fields (f : Field) : f ∈ fields := by
  cases f <;> decide

theorem nodup_fields : fields.Nodup := by decide

theorem bit_injective : Function.Injective Field.bit := by
  have hbits : (fields.map Field.bit).Nodup := by decide
  intro f g h
  exact List.inj_on_of_nodup_map hbits (mem_fields f) (mem_fields g) h

theorem bit_lt (f : Field) : f.bit < 32 := by
  cases f <;> decide

theorem align_pos (f : Field) : 0 < f.align := by
  cases f <;> decide

theorem align_le (f : Field) : f.align ≤ 4 := by
  cases f <;> decide

theorem has_eq (h : RadiotapHeader) (f : Field) : h.has f = h.present.getLsbD f.bit := by
  have hne : BitVec.twoPow 32 f.bit ≠ 0 := by
    rw [ne_eq, ← BitVec.toNat_inj, BitVec.toNat_twoPow_of_lt (bit_lt f)]
    exact (Nat.two_pow_pos _).ne'
  unfold has Field.mask
  rw [BitVec.and_twoPow]
  cases h.present.getLsbD f.bit with
  | true => exact decide_eq_true hne
  | false => exact decide_eq_false (not_not_intro rfl)

theorem has_congr {k : RadiotapHeader} (hpresent : k.present = h.present) (f : Field) :
    k.has f = h.has f := by
  unfold has
  rw [hpresent]

theorem getLsbD_mask (f g : Field) : f.mask.getLsbD g.bit = decide (f = g) := by
  unfold Field.mask
  rw [BitVec.getLsbD_twoPow, decide_eq_true (bit_lt f), Bool.true_and, decide_eq_decide]
  exact bit_injective.eq_iff

/-- A setter called again changes the value only. -/
theorem set_again (hf : h.has f = true) (value : Record f.widths) :
    h.set f value = { h with value := Function.update h.value f value } := if_pos hf

theorem set_first (hf : h.has f = false) (value : Record f.widths) :
    h.set f value = { length := h.length + (f.size + padding f.align h.length)
                      present := h.present ||| f.mask
                      pad := Function.update h.pad f (padding f.align h.length)
                      value := Function.update h.value f value } :=
  if_neg (ne_true_of_eq_false hf)

theorem has_set_first (hf : h.has f = false) (value : Record f.widths) :
    (h.set f value).has = Function.update h.has f true := by
  funext g
  rw [set_first hf, has_eq, BitVec.getLsbD_or, getLsbD_mask, ← has_eq]
  by_cases hfg : f = g
  · subst hfg
    rw [Function.update_self, decide_eq_true rfl, Bool.or_true]
  · rw [Function.update_of_ne (Ne.symm hfg), decide_eq_false hfg, Bool.or_false]

theorem perform_eq (h : RadiotapHeader) (c : Call) : ∃ value, h.perform c = h.set c.field value := by
  cases c <;> exact ⟨_, rfl⟩

/-! ### What the setters have built -/

theorem build_append (calls : List Call) (c : Call) :
    build (calls ++ [c]) = (build calls).perform c := by
  unfold build
  rw [List.foldl_append, List.foldl_cons, List.foldl_nil]

theorem lengthBefore_append (hf : f ∈ calls.map Call.field) :
    lengthBefore (calls ++ [c]) f = lengthBefore calls f := by
  obtain ⟨d, hd, rfl⟩ := List.mem_map.mp hf
  have hshort : ¬ (calls.takeWhile fun c => decide (c.field ≠ d.field)).length = calls.length := by
    intro hlength
    have heq := (List.takeWhile_prefix fun c : Call => decide (c.field ≠ d.field)).eq_of_length hlength
    exact of_decide_eq_true (List.takeWhile_eq_self_iff.mp heq d hd) rfl
  unfold lengthBefore
  rw [List.takeWhile_append, if_neg hshort]

theorem lengthBefore_new (hf : c.field ∉ calls.map Call.field) :
    lengthBefore (calls ++ [c]) c.field = (build calls).length := by
  have hall : ∀ d ∈ calls, decide (d.field ≠ c.field) = true := by
    intro d hd
    exact decide_eq_true fun heq => hf (List.mem_map.mpr ⟨d, hd, heq⟩)
  unfold lengthBefore
  rw [List.takeWhile_append_of_pos hall]
  simp

structure Built (calls : List Call) (h : RadiotapHeader) : Prop where
  has : ∀ f, h.has f = true ↔ f ∈ calls.map Call.field
  length : h.length = placeWith Field.size h.pad h.has 8 fields
  pad : ∀ f, h.has f = true → h.pad f = padding f.align (lengthBefore calls f)

theorem Built.perform (hb : Built calls (build calls)) (c : Call) :
    Built (calls ++ [c]) ((build calls).perform c) := by
  obtain ⟨value, hset⟩ := perform_eq (build calls) c
  rw [hset]
  cases hf : (build calls).has c.field with
  | true =>
    have hmem := (hb.has c.field).mp hf
    rw [set_again hf]
    refine ⟨fun g => ?_, hb.length, fun g hg => ?_⟩
    · rw [List.map_append, List.mem_append, List.map_singleton, List.mem_singleton]
      refine (hb.has g).trans (or_iff_left_of_imp ?_).symm
      rintro rfl
      exact hmem
    · have hg : (build calls).has g = true := hg
      rw [lengthBefore_append ((hb.has g).mp hg)]
      exact hb.pad g hg
  | false =>
    have hmem : c.field ∉ calls.map Call.field := by
      rw [← hb.has, hf]
      exact Bool.false_ne_true
    have hhas := has_set_first hf value
    refine ⟨fun g => ?_, ?_, fun g hg => ?_⟩
    · rw [hhas, List.map_append, List.mem_append, List.map_singleton, List.mem_singleton, ← hb.has g]
      by_cases hg : g = c.field
      · rw [hg, Function.update_self]
        exact iff_of_true rfl (Or.inr rfl)
      · rw [Function.update_of_ne hg, or_iff_left hg]
    · rw [hhas, set_first hf, placeWith_update nodup_fields (mem_fields _) hf, ← hb.length,
        Nat.add_comm c.field.size]
    · rw [hhas] at hg
      rw [set_first hf]
      change Function.update (build calls).pad c.field _ g = _
      by_cases hgc : g = c.field
      · rw [hgc, Function.update_self, lengthBefore_new hmem]
      · rw [Function.update_of_ne hgc] at hg ⊢
        rw [lengthBefore_append ((hb.has g).mp hg)]
        exact hb.pad g hg

theorem built (calls : List Call) : Built calls (build calls) := by
  induction calls using List.reverseRecOn with
  | nil =>
    have hnone (f : Field) : ({} : RadiotapHeader).has f = false := by
      rw [has_eq]
      exact BitVec.getLsbD_zero
    refine ⟨fun f => ?_, ?_, fun f hf => ?_⟩
    · exact iff_of_false (ne_true_of_eq_false (hnone f)) List.not_mem_nil
    · have hwritten : placeWith Field.size (fun _ => 0) (fun _ => false) 8 fields = 8 := rfl
      exact hwritten.symm.trans (placeWith_congr (fun _ _ => rfl) (fun f _ => (hnone f).symm) 8)
    · cases (hnone f).symm.trans hf
  | append_singleton calls c ih =>
    rw [build_append]
    exact ih.perform c

namespace Built
variable (hb : Built calls h)
include hb

theorem pad_lt (hf : h.has f = true) : h.pad f < f.align := by
  rw [hb.pad f hf]
  exact padding_lt (align_pos f) _

theorem length_lt : h.length < 2 ^ 16 := by
  have hle : placeWith Field.size h.pad h.has 8 fields ≤ 8 + (fields.map fun f => 3 + f.size).sum := by
    refine placeWith_le (fun f _ hf => ?_) 8
    have hlt := hb.pad_lt hf
    have hfour := align_le f
    omega
  have hsum : (fields.map fun f => 3 + f.size).sum = 145 := by decide
  rw [hb.length]
  omega

end Built

/-! ### What is written -/

theorem length_body (h : RadiotapHeader) (f : Field) :
    (encode f.widths (h.value f) ++ List.replicate f.unused 0).length = f.size := by
  rw [List.length_append, length_encode, List.length_replicate]
  rfl

theorem placeWith_eq (h : RadiotapHeader) (n : Nat) (pre : List Field) :
    placeWith Field.size h.pad h.has n pre = n + (pre.flatMap h.write).length := by
  induction pre generalizing n with
  | nil => rfl
  | cons f pre ih =>
    change placeWith Field.size h.pad h.has (if h.has f then n + h.pad f + f.size else n) pre = _
    rw [ih, List.flatMap_cons, List.length_append, write]
    split
    · rw [List.length_append, List.length_replicate, length_body]
      omega
    · rw [List.length_nil, Nat.zero_add]

@[simp] theorem length_head (h : RadiotapHeader) : h.head.length = 8 := length_encode _

theorem offset_eq (h : RadiotapHeader) (f : Field) :
    h.offset f = placeWith Field.size h.pad h.has 8 (before fields f) + h.pad f := by
  unfold offset
  rw [List.length_append, length_head, placeWith_eq]

theorem length_serialize (h : RadiotapHeader) :
    h.serialize.length = placeWith Field.size h.pad h.has 8 fields := by
  unfold serialize
  rw [List.length_append, length_head, placeWith_eq]

theorem Built.aligned_iff (hb : Built calls h) :
    (∀ f, h.has f = true → f.align ∣ h.offset f) ↔
      Fits Field.align Field.size h.pad h.has 8 fields := by
  rw [← Layouts.aligned_iff nodup_fields fun f _ hf => hb.pad_lt hf]
  simp only [offset_eq]
  exact ⟨fun hall f _ hf => hall f hf, fun hall f hf => hall f (mem_fields f) hf⟩

/-! ### What is read -/

theorem readBytes_append {n : Nat} {bs rest : List UInt8} (hlength : bs.length = n) :
    readBytes n (bs ++ rest) = some (bs, rest) := by
  unfold readBytes
  rw [if_pos (by rw [List.length_append]; omega), List.take_left' hlength, List.drop_left' hlength]

theorem length_of_readBytes {n : Nat} {bs front rest : List UInt8}
    (hread : readBytes n bs = some (front, rest)) : bs.length = n + rest.length := by
  unfold readBytes at hread
  split at hread
  · obtain ⟨-, rfl⟩ := Prod.mk.inj (Option.some.inj hread)
    rw [List.length_drop]
    omega
  · cases hread

variable {r r' : Reading}

theorem field_absent (hf : r.header.has f = false) : r.field f = some r :=
  if_neg (ne_true_of_eq_false hf)

theorem field_eq_some (hf : r.header.has f = true) : r.field f = some r' ↔
    ∃ skipped mid body rest,
      readBytes (if f.skips then padding f.align r.bytesRead else 0) r.rest = some (skipped, mid) ∧
      readBytes f.size mid = some (body, rest) ∧ r.store f body rest = r' := by
  unfold Reading.field
  rw [if_pos hf]
  simp only [Option.bind_eq_bind, Option.bind_eq_some_iff, Prod.exists, Option.some.injEq,
    exists_and_left]

/-- A field that is read as it was written. -/
structure Received (h : RadiotapHeader) (f : Field) (rest : List UInt8) (r r' : Reading) : Prop where
  rest_eq : r'.rest = rest
  bytesRead : r'.bytesRead = place Field.align Field.size h.has r.bytesRead [f]
  present : r'.header.present = r.header.present
  length : r'.header.length = r.header.length
  value : h.has f = true → r'.header.value f = h.value f
  others : ∀ g, g ≠ f → r'.header.value g = r.header.value g

theorem field_write {rest : List UInt8} (hhas : r.header.has f = h.has f)
    (hpad : h.has f = true → h.pad f = padding f.align r.bytesRead)
    (hskips : h.has f = true → f.skips = false → h.pad f = 0) (hrest : r.rest = h.write f ++ rest) :
    ∃ r', r.field f = some r' ∧ Received h f rest r r' := by
  cases hf : h.has f with
  | false =>
    unfold write at hrest
    rw [hf] at hrest
    refine ⟨r, field_absent (hhas.trans hf), hrest, ?_, rfl, rfl, fun htrue => ?_, fun _ _ => rfl⟩
    · exact (if_neg (ne_true_of_eq_false hf)).symm
    · cases hf.symm.trans htrue
  | true =>
    unfold write at hrest
    rw [if_pos hf, List.append_assoc] at hrest
    have hfirst : readBytes (if f.skips then padding f.align r.bytesRead else 0) r.rest =
        some (List.replicate (h.pad f) 0,
          encode f.widths (h.value f) ++ List.replicate f.unused 0 ++ rest) := by
      rw [hrest]
      apply readBytes_append
      rw [List.length_replicate]
      cases hs : f.skips with
      | true => exact hpad hf
      | false => exact hskips hf hs
    have hread := (field_eq_some (hhas.trans hf)).mpr
      ⟨_, _, _, _, hfirst, readBytes_append (length_body h f), rfl⟩
    refine ⟨_, hread, rfl, ?_, rfl, rfl, fun _ => ?_, fun g hg => Function.update_of_ne hg _ _⟩
    · refine Eq.trans ?_ (if_pos hf).symm
      change r.bytesRead + (f.size + padding f.align r.bytesRead) = _
      omega
    · refine (Function.update_self _ _ _).trans ?_
      exact decode_encode (h.value f) _

/-- The fields of a row are read as they were written when their paddings fit. -/
theorem foldlM_write {start : RadiotapHeader} (hpresent : start.present = h.present)
    (hfits : Fits Field.align Field.size h.pad h.has 8 fields)
    (hskips : ∀ f, h.has f = true → f.skips = false → h.pad f = 0) {pre : List Field}
    (hpre : pre <+: fields) (rest : List UInt8) :
    ∃ r, pre.foldlM Reading.field ⟨pre.flatMap h.write ++ rest, 8, start⟩ = some r ∧
      r.rest = rest ∧ r.bytesRead = place Field.align Field.size h.has 8 pre ∧
      r.header.present = h.present ∧ r.header.length = start.length ∧
      ∀ f ∈ pre, h.has f = true → r.header.value f = h.value f := by
  refine prefix_induction (P := fun pre => ∀ rest, ∃ r,
    pre.foldlM Reading.field ⟨pre.flatMap h.write ++ rest, 8, start⟩ = some r ∧
      r.rest = rest ∧ r.bytesRead = place Field.align Field.size h.has 8 pre ∧
      r.header.present = h.present ∧ r.header.length = start.length ∧
      ∀ f ∈ pre, h.has f = true → r.header.value f = h.value f)
    nodup_fields ?_ (fun f hf ih rest => ?_) hpre rest
  · intro rest
    exact ⟨_, rfl, rfl, rfl, hpresent, rfl, fun f hf => absurd hf List.not_mem_nil⟩
  · obtain ⟨r, hr, hrest, hplace, hsame, hlength, hvalues⟩ := ih (h.write f ++ rest)
    obtain ⟨r', hr', hgot⟩ := field_write (has_congr hsame f)
      (fun hthere => (hfits f hf hthere).trans (by rw [hplace])) (hskips f) hrest
    refine ⟨r', ?_, hgot.rest_eq, ?_, hgot.present.trans hsame, hgot.length.trans hlength, ?_⟩
    · rw [List.flatMap_append, List.flatMap_singleton, List.append_assoc, List.foldlM_append, hr]
      exact (bind_pure _).trans hr'
    · rw [hgot.bytesRead, hplace, place_append_singleton]
      rfl
    · intro g hg hthere
      by_cases hgf : g = f
      · subst hgf
        exact hgot.value hthere
      · have hpre : g ∈ before fields f := by
          rcases List.mem_append.mp hg with hin | hin
          · exact hin
          · exact absurd (List.mem_singleton.mp hin) hgf
        rw [hgot.others g hgf]
        exact hvalues g hpre hthere

/-- The bytes ahead together with the bytes counted grow by a padding that is not skipped. -/
theorem field_slack (hr : r.field f = some r') : r'.header.present = r.header.present ∧
    r'.header.length = r.header.length ∧
    r'.bytesRead = place Field.align Field.size r.header.has r.bytesRead [f] ∧
    r'.rest.length + r'.bytesRead = r.rest.length + r.bytesRead +
      (if r.header.has f && !f.skips then padding f.align r.bytesRead else 0) := by
  cases hf : r.header.has f with
  | false =>
    obtain rfl := Option.some.inj ((field_absent hf).symm.trans hr)
    exact ⟨rfl, rfl, (if_neg (ne_true_of_eq_false hf)).symm, rfl⟩
  | true =>
    obtain ⟨skipped, mid, body, rest, hmid, hrest, rfl⟩ := (field_eq_some hf).mp hr
    have hlengths := length_of_readBytes hmid
    rw [length_of_readBytes hrest] at hlengths
    refine ⟨rfl, rfl, ?_, ?_⟩
    · refine Eq.trans ?_ (if_pos hf).symm
      change r.bytesRead + (f.size + padding f.align r.bytesRead) = _
      omega
    · change rest.length + (r.bytesRead + (f.size + padding f.align r.bytesRead)) = _
      cases hs : f.skips with
      | true =>
        rw [hs, if_pos rfl] at hlengths
        rw [Bool.not_true, Bool.and_false, if_neg Bool.false_ne_true]
        omega
      | false =>
        rw [hs, if_neg Bool.false_ne_true] at hlengths
        rw [Bool.not_false, Bool.and_true, if_pos rfl]
        omega

/-- After the fields of a row: what was counted, and that nothing was lost where no padding was
counted without being skipped. -/
structure Passed (start : Reading) (pre : List Field) (r : Reading) : Prop where
  present : r.header.present = start.header.present
  length : r.header.length = start.header.length
  bytesRead : r.bytesRead = place Field.align Field.size start.header.has 8 pre
  le : start.rest.length + 8 ≤ r.rest.length + r.bytesRead
  skipped : r.rest.length + r.bytesRead = start.rest.length + 8 → ∀ f ∈ pre,
    start.header.has f = true → f.skips = false →
    padding f.align (place Field.align Field.size start.header.has 8 (before fields f)) = 0

theorem foldlM_passed {start r : Reading} (hstart : start.bytesRead = 8) {pre : List Field}
    (hpre : pre <+: fields) (hr : pre.foldlM Reading.field start = some r) : Passed start pre r := by
  refine prefix_induction
    (P := fun pre => ∀ r, pre.foldlM Reading.field start = some r → Passed start pre r)
    nodup_fields ?_ (fun f hf ih r' hr' => ?_) hpre r hr
  · intro r hr
    obtain rfl := Option.some.inj hr
    exact ⟨rfl, rfl, hstart, by rw [hstart], fun _ f hf => absurd hf List.not_mem_nil⟩
  · rw [List.foldlM_append] at hr'
    obtain ⟨r, hr, hr'⟩ := Option.bind_eq_some_iff.mp hr'
    have hone : r.field f = some r' := (bind_pure _).symm.trans hr'
    have hp := ih r hr
    have hhas : r.header.has = start.header.has := funext (has_congr hp.present)
    obtain ⟨hpresent, hlength, hplace, hslack⟩ := field_slack hone
    have hle := hp.le
    refine ⟨hpresent.trans hp.present, hlength.trans hp.length, ?_, by omega, ?_⟩
    · rw [hplace, hhas, hp.bytesRead, place_append_singleton]
      rfl
    · intro hsame g hg hthere hs
      rcases List.mem_append.mp hg with hin | hin
      · exact hp.skipped (by omega) g hin hthere hs
      · obtain rfl := List.mem_singleton.mp hin
        have hcond : (r.header.has g && !g.skips) = true := by
          rw [hhas, hthere, hs]
          rfl
        rw [if_pos hcond] at hslack
        rw [← hp.bytesRead]
        omega

/-! ### The round trip -/

theorem deserialize_eq (target : RadiotapHeader) (hlt : h.length < 2 ^ 16) :
    target.deserialize h.serialize =
      (fields.foldlM Reading.field ⟨fields.flatMap h.write, 8,
        { target with length := h.length, present := h.present }⟩).bind fun r =>
          if r.header.length = r.bytesRead then some r else none := by
  have hstart : decode [1, 1, 2, 4] h.head = (0, 0, BitVec.ofNat 16 h.length, h.present, ()) := by
    have hdecode := @decode_encode [1, 1, 2, 4] (0, 0, BitVec.ofNat 16 h.length, h.present, ()) []
    rwa [List.append_nil] at hdecode
  unfold deserialize serialize
  rw [readBytes_append (length_head h)]
  have hlength : (BitVec.ofNat 16 h.length).toNat = h.length := by
    rw [BitVec.toNat_ofNat, Nat.mod_eq_of_lt hlt]
  simp only [Option.bind_eq_bind, Option.bind_some, hstart]
  rw [if_neg (not_not_intro rfl), hlength]

theorem Built.roundTrips (hb : Built calls h) : h.RoundTrips ↔
    Fits Field.align Field.size h.pad h.has 8 fields ∧
      ∀ f, h.has f = true → f.skips = false → h.pad f = 0 := by
  constructor
  · intro ht
    have hfits := hb.aligned_iff.mp ht.aligned
    refine ⟨hfits, fun f hf hs => ?_⟩
    obtain ⟨r, hr, hrest, hread, -⟩ := ht.read {}
    rw [deserialize_eq {} hb.length_lt] at hr
    obtain ⟨r', hr', hcond⟩ := Option.bind_eq_some_iff.mp hr
    obtain rfl : r' = r := by
      split at hcond
      · exact Option.some.inj hcond
      · cases hcond
    have hp := foldlM_passed rfl (List.prefix_refl fields) hr'
    have hlength := length_serialize h
    rw [placeWith_eq] at hlength
    have hall : r'.rest.length + r'.bytesRead = (fields.flatMap h.write).length + 8 := by
      rw [hrest, hread, List.length_nil, ← ht.size]
      omega
    rw [hfits f (mem_fields f) hf]
    exact hp.skipped hall f (mem_fields f) hf hs
  · rintro ⟨hfits, hskips⟩
    have hsize : h.serialize.length = h.getSerializedSize := (length_serialize h).trans hb.length.symm
    refine ⟨hsize, hb.aligned_iff.mpr hfits, fun target => ?_⟩
    obtain ⟨r, hr, hrest, hplace, hpresent, hlength, hvalues⟩ :=
      @foldlM_write h { target with length := h.length, present := h.present } rfl hfits hskips fields
        (List.prefix_refl fields) []
    rw [List.append_nil] at hr
    have hread : r.bytesRead = h.length := by
      rw [hplace, ← hfits.placeWith_eq nodup_fields (List.prefix_refl fields), hb.length]
    refine ⟨r, ?_, hrest, hread, hpresent, fun f hf => hvalues f (mem_fields f) hf⟩
    rw [deserialize_eq target hb.length_lt, hr]
    exact if_pos (hlength.trans hread.symm)

theorem Built.agrees_iff (hb : Built calls h) : Agrees calls ↔
    Fits Field.align Field.size h.pad h.has 8 fields ∧
      ∀ f, h.has f = true → f.skips = false → h.pad f = 0 := by
  have hposition (f : Field) :
      place Field.align Field.size h.has 8 (before fields f) = position calls f := by
    apply place_congr
    intro g hg
    rw [Bool.eq_iff_iff, hb.has, decide_eq_true_iff]
  have hpad (f : Field) (hf : h.has f = true) :
      h.pad f = padding f.align (position calls f) ↔
        lengthBefore calls f ≡ position calls f [MOD f.align] := by
    rw [hb.pad f hf, padding_eq_iff (align_pos f)]
  constructor
  · intro hagrees
    have hfits : Fits Field.align Field.size h.pad h.has 8 fields := by
      intro f _ hf
      rw [hposition, hpad f hf]
      exact (hagrees f ((hb.has f).mp hf)).1
    refine ⟨hfits, fun f hf hs => ?_⟩
    rw [hfits f (mem_fields f) hf, hposition, padding_eq_zero_iff (align_pos f)]
    exact (hagrees f ((hb.has f).mp hf)).2 hs
  · rintro ⟨hfits, hskips⟩ f hmem
    have hf := (hb.has f).mpr hmem
    have heq := hfits f (mem_fields f) hf
    rw [hposition] at heq
    refine ⟨(hpad f hf).mp heq, fun hs => ?_⟩
    rw [← padding_eq_zero_iff (align_pos f), ← heq]
    exact hskips f hf hs

end

/-- The header makes the round trip exactly when each aligned field is first set at a length that
leaves the padding of its place, and the place of the HE MU fields needs none. -/
theorem roundTrips_build_iff (calls : List Call) : (build calls).RoundTrips ↔ Agrees calls :=
  (built calls).roundTrips.trans (built calls).agrees_iff.symm

/-- The rate set behind the channel. -/
theorem not_roundTrips_build : ¬ ∀ calls, (build calls).RoundTrips := by
  intro h
  have haligned := (h [.setChannelFrequencyAndFlags 5180 0, .setRate 2]).aligned .channel
  exact absurd (haligned (by decide +kernel)) (by decide +kernel)

end RadiotapHeader
end CudaNs3.Network
