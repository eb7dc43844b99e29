import CudaNs3.Lib.BitStrings

/-!
# Serializing fields bit by bit

`BitSerializer` collects the bits of fields and pads them to whole bytes; `BitDeserializer` takes
them out again. A whole byte of padding is added where none is needed, the form of `GetBytes`
that fills a buffer refuses the buffers that are large enough, and `GetBits` collects its result
in eight bits.
-/

namespace CudaNs3.Network

set_option autoImplicit false

structure BitSerializer where
  blob : List Bool := []
  padAtEnd : Bool := true

namespace BitSerializer

def insertPaddingAtEnd (s : BitSerializer) (padAtEnd : Bool) : BitSerializer := { s with padAtEnd }

def padding (s : BitSerializer) : List Bool := List.replicate (8 - s.blob.length % 8) false

def padStart (s : BitSerializer) : List Bool := s.padding ++ s.blob

def padEnd (s : BitSerializer) : List Bool := s.blob ++ s.padding

def padded (s : BitSerializer) : List Bool := if s.padAtEnd then s.padEnd else s.padStart

/-- The loop of `PushBits`. -/
def pushLoop (value : BitVec 64) : Nat → BitVec 64 → List Bool → List Bool
  | 0, _, blob => blob
  | n + 1, mask, blob => pushLoop value n (mask >>> 1) (blob ++ [decide (value &&& mask ≠ 0)])

def pushBits (s : BitSerializer) (value : BitVec 64) (significantBits : Nat) : BitSerializer :=
  { s with blob := pushLoop value significantBits ((1 : BitVec 64) <<< (significantBits - 1)) s.blob }

/-- `tmp <<= 1; tmp |= bit` -/
def shiftIn (tmp : BitVec 8) (bit : Bool) : BitVec 8 :=
  (tmp <<< 1) ||| (BitVec.ofBool bit).setWidth 8

/-- The bytes of the blob, eight bits each; the padded blob has no bits left over. -/
def bytesOf : List Bool → List (BitVec 8)
  | a :: b :: c :: d :: e :: f :: g :: h :: rest =>
    [a, b, c, d, e, f, g, h].foldl shiftIn 0 :: bytesOf rest
  | _ => []

def getBytes (s : BitSerializer) : List (BitVec 8) × BitSerializer :=
  (bytesOf s.padded, { s with blob := [] })

/-- The bytes are written one after the other at `resultLen`; `none` outside of the buffer. -/
def writeBytes : List (BitVec 8) → BitVec 8 → List (BitVec 8) →
    Option (BitVec 8 × List (BitVec 8))
  | [], resultLen, buffer => some (resultLen, buffer)
  | tmp :: rest, resultLen, buffer =>
    if resultLen.toNat < buffer.length then
      writeBytes rest (resultLen + 1) (buffer.set resultLen.toNat tmp)
    else none

/-- `none` when the buffer is refused. -/
def fillBytes (s : BitSerializer) (buffer : List (BitVec 8)) (size : BitVec 32) :
    Option (BitVec 8 × List (BitVec 8) × BitSerializer) :=
  if s.padded.length ≤ (8 * size).toNat then none
  else (writeBytes (bytesOf s.padded) 0 buffer).map fun r => (r.1, r.2, { s with blob := [] })

end BitSerializer

structure BitDeserializer where
  bytesBlob : List (BitVec 8) := []
  blob : List Bool := []
  deserializing : Bool := false

namespace BitDeserializer

def pushBytes (d : BitDeserializer) (bytes : List (BitVec 8)) : Option BitDeserializer :=
  if d.deserializing then none else some { d with bytesBlob := d.bytesBlob ++ bytes }

def masks : List (BitVec 8) := [0x80, 0x40, 0x20, 0x10, 0x8, 0x4, 0x2, 0x1]

def bitsOf (byte : BitVec 8) : List Bool := masks.map fun mask => decide (byte &&& mask ≠ 0)

def prepareDeserialization (d : BitDeserializer) : BitDeserializer :=
  if d.deserializing then d
  else { d with deserializing := true, blob := d.blob ++ d.bytesBlob.flatMap bitsOf }

/-- `none` when more bits are asked for than there are, or more than 64. -/
def getBits (d : BitDeserializer) (size : Nat) : Option (BitVec 64 × BitDeserializer) :=
  let d := d.prepareDeserialization
  if 64 < size ∨ d.blob.length < size then none
  else
    let result := (d.blob.take size).foldl BitSerializer.shiftIn 0
    some (result.setWidth 64, { d with blob := d.blob.drop size })

/-- One call of `GetBits` for each width. -/
def getAll : BitDeserializer → List Nat → Option (List (BitVec 64))
  | _, [] => some []
  | d, n :: rest => (d.getBits n).bind fun r => (getAll r.2 rest).map (r.1 :: ·)

end BitDeserializer

/-- A value with the width of its field. -/
structure BitField where
  value : BitVec 64
  width : Nat
  pos : 1 ≤ width
  le : width ≤ 64
  lt : value.toNat < 2 ^ width

namespace BitField

/-- The serializer after the fields have been pushed. -/
def serializer (fields : List BitField) (padAtEnd : Bool) : BitSerializer :=
  fields.foldl (fun s f => s.pushBits f.value f.width) { padAtEnd }

def total (fields : List BitField) : Nat := (fields.map width).sum

def bytes (fields : List BitField) (padAtEnd : Bool) : List (BitVec 8) :=
  (serializer fields padAtEnd).getBytes.1

/-- The values read from the bytes, after the padding where it comes first. -/
def readBack (fields : List BitField) (padAtEnd : Bool) : Option (List (BitVec 64)) := do
  let bytes := bytes fields padAtEnd
  let d ← ({} : BitDeserializer).pushBytes bytes
  if padAtEnd then d.getAll (fields.map width)
  else
    let (_, d) ← d.getBits (8 * bytes.length - total fields)
    d.getAll (fields.map width)

/-- Every buffer with `n` bytes is accepted and holds the bytes afterwards. -/
def FillsBuffers (fields : List BitField) (padAtEnd : Bool) (n : Nat) : Prop :=
  ∀ (buffer : List (BitVec 8)) (size : BitVec 32), buffer.length = size.toNat →
    n ≤ buffer.length → ∃ used filled rest,
      (serializer fields padAtEnd).fillBytes buffer size = some (used, filled, rest) ∧
      filled.take (bytes fields padAtEnd).length = bytes fields padAtEnd

/-- Serialization and deserialization are inverse to each other. -/
structure Inverse (fields : List BitField) (padAtEnd : Bool) : Prop where
  count : (bytes fields padAtEnd).length = (total fields + 7) / 8
  buffers : FillsBuffers fields padAtEnd ((total fields + 7) / 8)
  values : readBack fields padAtEnd = some (fields.map value)

/-! ### Pushing -/

section
variable {value : BitVec 64} {n : Nat} {blob bits : List Bool} {padAtEnd : Bool}

theorem pushLoop_spec {mask : BitVec 64} (hle : n ≤ 64) (hmask : mask.toNat = 2 ^ n / 2) :
    BitSerializer.pushLoop value n mask blob = blob ++ BitStrings.digits n value.toNat := by
  induction n generalizing mask blob with
  | zero => exact (List.append_nil blob).symm
  | succ n ih =>
    rw [Nat.pow_succ, Nat.mul_div_cancel _ Nat.two_pos] at hmask
    have hbit : decide (value &&& mask ≠ 0) = value.toNat.testBit n :=
      BitStrings.decide_and_ne_zero (by omega) hmask
    have hnext : (mask >>> 1).toNat = 2 ^ n / 2 := by
      rw [BitVec.toNat_ushiftRight, hmask, Nat.shiftRight_eq_div_pow, Nat.pow_one]
    unfold BitSerializer.pushLoop
    rw [hbit, ih (by omega) hnext, List.append_assoc]
    rfl

theorem blob_pushBits (s : BitSerializer) (hpos : 1 ≤ n) (hle : n ≤ 64) :
    (s.pushBits value n).blob = s.blob ++ BitStrings.digits n value.toNat := by
  apply pushLoop_spec hle
  obtain ⟨m, rfl⟩ : ∃ m, n = m + 1 := ⟨n - 1, by omega⟩
  have hlt : 2 ^ m < 2 ^ 64 := Nat.pow_lt_pow_right (by omega) (by omega)
  rw [Nat.add_sub_cancel, Nat.pow_succ, Nat.mul_div_cancel _ Nat.two_pos, BitVec.toNat_shiftLeft,
    Nat.shiftLeft_eq]
  change 1 * 2 ^ m % 2 ^ 64 = 2 ^ m
  rw [Nat.one_mul, Nat.mod_eq_of_lt hlt]

/-- The bits of the fields. -/
def bitString (fields : List BitField) : List Bool :=
  fields.flatMap fun f => BitStrings.digits f.width f.value.toNat

theorem serializer_eq (fields : List BitField) (padAtEnd : Bool) :
    serializer fields padAtEnd = { blob := bitString fields, padAtEnd } := by
  have hfold (s : BitSerializer) : fields.foldl (fun s f => s.pushBits f.value f.width) s =
      { s with blob := s.blob ++ bitString fields } := by
    induction fields generalizing s with
    | nil => rw [bitString, List.flatMap_nil, List.append_nil]; rfl
    | cons f fields ih =>
      have hpush : s.pushBits f.value f.width =
          { s with blob := s.blob ++ BitStrings.digits f.width f.value.toNat } := by
        rw [← blob_pushBits s f.pos f.le]
        rfl
      have hbits : bitString (f :: fields) =
          BitStrings.digits f.width f.value.toNat ++ bitString fields := List.flatMap_cons
      rw [List.foldl_cons, ih, hpush, hbits, List.append_assoc]
  exact hfold _

theorem length_bitString (fields : List BitField) : (bitString fields).length = total fields := by
  unfold bitString total
  rw [List.length_flatMap]
  simp only [BitStrings.length_digits]

end

/-! ### Bytes -/

section
variable {bits : List Bool}

theorem shiftIn_eq : BitSerializer.shiftIn = BitVec.shiftConcat := by
  funext r b
  exact BitStrings.or_ofBool_eq_shiftConcat r b

/-- The masks pick the bits of the byte from the highest on. -/
theorem bitsOf_eq (byte : BitVec 8) :
    BitDeserializer.bitsOf byte = BitStrings.digits 8 byte.toNat := by
  have hbit {mask : BitVec 8} {n : Nat} (hn : n < 8) (hmask : mask.toNat = 2 ^ n) :=
    BitStrings.decide_and_ne_zero (x := byte) hn hmask
  unfold BitDeserializer.bitsOf BitDeserializer.masks
  simp only [List.map_cons, List.map_nil]
  rw [hbit (n := 7) (by omega) rfl, hbit (n := 6) (by omega) rfl, hbit (n := 5) (by omega) rfl,
    hbit (n := 4) (by omega) rfl, hbit (n := 3) (by omega) rfl, hbit (n := 2) (by omega) rfl,
    hbit (n := 1) (by omega) rfl, hbit (n := 0) (by omega) rfl]
  rfl

theorem bitsOf_foldl (h : bits.length = 8) :
    BitDeserializer.bitsOf (bits.foldl BitSerializer.shiftIn 0) = bits := by
  have hlt := BitStrings.value_lt bits
  rw [bitsOf_eq, shiftIn_eq, BitStrings.toNat_foldl_shiftConcat]
  change BitStrings.digits 8 (BitStrings.value bits % 2 ^ 8) = bits
  rw [BitStrings.digits_mod (Nat.le_refl 8), ← h, BitStrings.digits_value]

theorem bytesOf_spec (k : Nat) (h : bits.length = 8 * k) :
    (BitSerializer.bytesOf bits).length = k ∧
      (BitSerializer.bytesOf bits).flatMap BitDeserializer.bitsOf = bits := by
  induction k generalizing bits with
  | zero =>
    obtain rfl := List.length_eq_zero_iff.mp h
    exact ⟨rfl, rfl⟩
  | succ k ih =>
    match bits, h with
    | a :: b :: c :: d :: e :: f :: g :: i :: rest, h =>
      obtain ⟨hlength, hbits⟩ := @ih rest (by simp only [List.length_cons] at h; omega)
      refine ⟨congrArg (· + 1) hlength, ?_⟩
      rw [BitSerializer.bytesOf, List.flatMap_cons, hbits, bitsOf_foldl rfl]
      rfl

end

/-! ### The bytes of the fields -/

section
variable {fields : List BitField} {padAtEnd : Bool}

/-- The bytes beyond the full ones: one, also where the bits fill the bytes. -/
theorem length_padded (fields : List BitField) (padAtEnd : Bool) :
    (serializer fields padAtEnd).padded.length = 8 * (total fields / 8 + 1) := by
  have hlength := length_bitString fields
  rw [serializer_eq]
  unfold BitSerializer.padded BitSerializer.padEnd BitSerializer.padStart BitSerializer.padding
  cases padAtEnd
  · simp only [Bool.false_eq_true, if_false, List.length_append, List.length_replicate, hlength]
    omega
  · simp only [if_true, List.length_append, List.length_replicate, hlength]
    omega

theorem bytes_spec (fields : List BitField) (padAtEnd : Bool) :
    (bytes fields padAtEnd).length = total fields / 8 + 1 ∧
      (bytes fields padAtEnd).flatMap BitDeserializer.bitsOf =
        (serializer fields padAtEnd).padded :=
  bytesOf_spec _ (length_padded fields padAtEnd)

theorem count_iff :
    (bytes fields padAtEnd).length = (total fields + 7) / 8 ↔ total fields % 8 ≠ 0 := by
  rw [(bytes_spec fields padAtEnd).1]
  omega

/-! ### Reading back -/

/-- What a field is read as: its lowest eight bits. -/
def readAs (f : BitField) : BitVec 64 := (f.value.setWidth 8).setWidth 64

theorem readAs_eq_iff (f : BitField) : f.readAs = f.value ↔ f.value.toNat < 2 ^ 8 := by
  unfold readAs
  rw [← BitVec.toNat_inj, BitVec.toNat_setWidth, BitVec.toNat_setWidth]
  have hlt := f.value.isLt
  omega

/-- The deserializer reads from these bits. -/
def Reads (d : BitDeserializer) (bits : List Bool) : Prop :=
  d.prepareDeserialization = { d with deserializing := true, blob := bits }

theorem getBits_spec {d : BitDeserializer} {bits rest : List Bool} (hle : bits.length ≤ 64)
    (h : Reads d (bits ++ rest)) : ∃ d', d.getBits bits.length =
      some (((bits.foldl BitSerializer.shiftIn 0).setWidth 64), d') ∧ Reads d' rest := by
  have hsize : ¬ (64 < bits.length ∨ (bits ++ rest).length < bits.length) := by
    rw [List.length_append]
    omega
  refine ⟨{ d with deserializing := true, blob := rest }, ?_, rfl⟩
  unfold BitDeserializer.getBits
  rw [h]
  change (if 64 < bits.length ∨ (bits ++ rest).length < bits.length then none else _) = _
  rw [if_neg hsize, List.take_left, List.drop_left]

theorem foldl_digits (f : BitField) :
    ((BitStrings.digits f.width f.value.toNat).foldl BitSerializer.shiftIn 0).setWidth 64 =
      f.readAs := by
  unfold readAs
  rw [← BitVec.toNat_inj, shiftIn_eq, BitVec.toNat_setWidth, BitVec.toNat_setWidth,
    BitVec.toNat_setWidth, BitStrings.toNat_foldl_shiftConcat]
  change BitStrings.value _ % 2 ^ 8 % 2 ^ 64 = _
  rw [BitStrings.value_digits, Nat.mod_eq_of_lt f.lt]

theorem getAll_spec {d : BitDeserializer} {rest : List Bool}
    (h : Reads d (bitString fields ++ rest)) :
    d.getAll (fields.map width) = some (fields.map readAs) := by
  induction fields generalizing d with
  | nil => rfl
  | cons f fields ih =>
    have hle : (BitStrings.digits f.width f.value.toNat).length ≤ 64 := by
      rw [BitStrings.length_digits]
      exact f.le
    have hbits : bitString (f :: fields) ++ rest =
        BitStrings.digits f.width f.value.toNat ++ (bitString fields ++ rest) := by
      rw [bitString, List.flatMap_cons, List.append_assoc]
      rfl
    rw [hbits] at h
    obtain ⟨d', hget, hreads⟩ := getBits_spec hle h
    rw [BitStrings.length_digits, foldl_digits] at hget
    rw [List.map_cons, BitDeserializer.getAll, hget, Option.bind_some, ih hreads]
    rfl

/-- Every field is read as its lowest eight bits. -/
theorem readBack_eq (fields : List BitField) (padAtEnd : Bool) :
    readBack fields padAtEnd = some (fields.map readAs) := by
  have hlength := length_bitString fields
  obtain ⟨hcount, hbits⟩ := bytes_spec fields padAtEnd
  have hreads (d : BitDeserializer)
      (hd : ({} : BitDeserializer).pushBytes (bytes fields padAtEnd) = some d) :
      Reads d (serializer fields padAtEnd).padded := by
    obtain rfl := Option.some.inj hd
    rw [← hbits]
    rfl
  rw [serializer_eq] at hreads
  cases padAtEnd with
  | true => exact getAll_spec (hreads _ rfl)
  | false =>
    have hpad : 8 * (bytes fields false).length - total fields =
        (BitSerializer.padding { blob := bitString fields, padAtEnd := false }).length := by
      rw [hcount, BitSerializer.padding, List.length_replicate, hlength]
      omega
    have hle : (BitSerializer.padding { blob := bitString fields, padAtEnd := false }).length ≤
        64 := by
      rw [BitSerializer.padding, List.length_replicate]
      omega
    have hstart := hreads _ rfl
    obtain ⟨d', hget, hrest⟩ := getBits_spec hle hstart
    rw [← hpad] at hget
    rw [← List.append_nil (bitString fields)] at hrest
    change (BitDeserializer.getBits _ _).bind _ = _
    rw [hget]
    exact getAll_spec hrest

theorem values_iff : readBack fields padAtEnd = some (fields.map value) ↔
    ∀ f ∈ fields, f.value.toNat < 2 ^ 8 := by
  rw [readBack_eq, Option.some_inj, List.map_inj_left]
  exact forall₂_congr fun f _ => readAs_eq_iff f

/-! ### Filling a buffer -/

/-- The place to write at is counted in eight bits. -/
theorem writeBytes_beyond {bs buffer filled : List (BitVec 8)} {resultLen used : BitVec 8}
    (h : BitSerializer.writeBytes bs resultLen buffer = some (used, filled)) {i : Nat}
    (hi : 256 ≤ i) : filled[i]? = buffer[i]? := by
  induction bs generalizing resultLen buffer with
  | nil =>
    obtain ⟨-, rfl⟩ := Prod.mk.inj (Option.some.inj h)
    rfl
  | cons tmp bs ih =>
    unfold BitSerializer.writeBytes at h
    split at h
    · rw [ih h]
      exact List.getElem?_set_ne (by have hlt := resultLen.isLt; omega)
    · cases h

/-- A buffer is refused if it has the size of the bytes; where that size is beyond the test, the
bytes are written over each other. -/
theorem buffers_iff :
    FillsBuffers fields padAtEnd ((total fields + 7) / 8) ↔ 2 ^ 32 ≤ (total fields + 7) / 8 := by
  obtain ⟨hcount, -⟩ := bytes_spec fields padAtEnd
  constructor
  · intro hfills
    by_contra hlt
    by_cases hsmall : total fields / 8 + 1 < 2 ^ 29
    · -- the buffer that is just filled is refused
      obtain ⟨size, hsize⟩ : ∃ size : BitVec 32, size.toNat = total fields / 8 + 1 :=
        ⟨BitVec.ofNat 32 _, Nat.mod_eq_of_lt (by omega)⟩
      obtain ⟨used, filled, rest, hfill, -⟩ :=
        hfills (List.replicate (total fields / 8 + 1) 0) size
          (by rw [List.length_replicate, hsize]) (by rw [List.length_replicate]; omega)
      have hmul : (8 * size).toNat = 8 * (total fields / 8 + 1) := by
        rw [BitVec.toNat_mul, hsize]
        exact Nat.mod_eq_of_lt (by change 8 * (total fields / 8 + 1) < 2 ^ 32; omega)
      unfold BitSerializer.fillBytes at hfill
      rw [length_padded, hmul, if_pos (Nat.le_refl _)] at hfill
      cases hfill
    · obtain ⟨size, hsize⟩ : ∃ size : BitVec 32, size.toNat = (total fields + 7) / 8 :=
        ⟨BitVec.ofNat 32 _, Nat.mod_eq_of_lt (by omega)⟩
      obtain ⟨byte, hbyte⟩ : ∃ byte, (bytes fields padAtEnd)[256]? = some byte :=
        ⟨_, List.getElem?_eq_getElem (by omega)⟩
      obtain ⟨used, filled, rest, hfill, htake⟩ :=
        hfills (List.replicate ((total fields + 7) / 8) (~~~byte)) size
          (by rw [List.length_replicate, hsize]) (by rw [List.length_replicate])
      unfold BitSerializer.fillBytes at hfill
      split at hfill
      · cases hfill
      · obtain ⟨r, hwrite, hr⟩ := Option.map_eq_some_iff.mp hfill
        obtain rfl : r.2 = filled := congrArg (·.2.1) hr
        have hkept := writeBytes_beyond hwrite (Nat.le_refl 256)
        have hsame := congrArg (·[256]?) htake
        change (r.2.take _)[256]? = _ at hsame
        rw [List.getElem?_take_of_lt (by omega), hkept, hbyte, List.getElem?_replicate,
          if_pos (by omega), Option.some_inj] at hsame
        exact BitVec.not_self_ne (by decide) hsame
  · intro hle buffer size hbuffer hlarge
    have hlt := size.isLt
    omega

/-- The bytes are as many as needed when the bits do not fill them, the values come back when
they have no more than eight bits, and buffers are filled when there are none of the size. -/
theorem inverse_iff (fields : List BitField) (padAtEnd : Bool) :
    Inverse fields padAtEnd ↔ total fields % 8 ≠ 0 ∧ 2 ^ 32 ≤ (total fields + 7) / 8 ∧
      ∀ f ∈ fields, f.value.toNat < 2 ^ 8 := by
  constructor
  · intro h
    exact ⟨count_iff.mp h.count, buffers_iff.mp h.buffers, values_iff.mp h.values⟩
  · rintro ⟨hcount, hbuffers, hvalues⟩
    exact ⟨count_iff.mpr hcount, buffers_iff.mpr hbuffers, values_iff.mpr hvalues⟩

end

section
/-- A field of one byte. -/
def oneByte : BitField where
  value := 0xab
  width := 8
  pos := by decide
  le := by decide
  lt := by decide

/-- One byte becomes two. -/
theorem not_inverse_fields : ¬ ∀ fields padAtEnd, Inverse fields padAtEnd := by
  intro h
  exact absurd (h [oneByte] true).count (by decide +kernel)

end

end BitField

end CudaNs3.Network
