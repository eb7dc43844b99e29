import CudaNs3.Internet.Ipv6Extensions

/-!
# IPv6 options

`AddOption` appends an option to the options of a hop-by-hop or a destination header, behind the
padding that its alignment asks for; the padding is added by `AddOption` in turn. `Serialize`
pads the whole to a multiple of 8, and reading it back keeps the padding as options.
-/

namespace CudaNs3.Internet

set_option autoImplicit false

/-- Places `factor * n + offset`. -/
structure Alignment where
  factor : UInt8
  offset : UInt8
  factor_mem : factor ∈ [1, 2, 4, 8]
  deriving DecidableEq

/-- An option as `AddOption` takes it: `Ipv6OptionHeader` and its subclasses write a type, a
length and as many bytes of data; the two padding options have classes of their own. -/
inductive Ipv6OptionHeader where
  | option (type : UInt8) (data : List UInt8) (hdata : data.length < 256) (alignment : Alignment)
  | pad1
  | padn (length : UInt8)
  deriving DecidableEq

namespace Ipv6OptionHeader

/-- No alignment, `1n + 0`. -/
def noAlignment : Alignment := ⟨1, 0, by decide⟩

def getAlignment : Ipv6OptionHeader → Alignment
  | option _ _ _ alignment => alignment
  | pad1 | padn _ => noAlignment

def getSerializedSize : Ipv6OptionHeader → Nat
  | option _ data _ _ => data.length + 2
  | pad1 => 1
  | padn length => length.toNat + 2

def serialize : Ipv6OptionHeader → List UInt8
  | option type data _ _ => type :: UInt8.ofNat data.length :: data
  | pad1 => [0]
  | padn length => 1 :: length :: List.replicate length.toNat 0

/-- The constructor of `Ipv6OptionPadnHeader`, for a `pad` of at least two bytes. -/
def ofPad (pad : Nat) : Ipv6OptionHeader := padn (UInt8.ofNat (pad - 2))

@[simp] theorem length_serialize (o : Ipv6OptionHeader) :
    o.serialize.length = o.getSerializedSize := by
  cases o with
  | option => rfl
  | pad1 => rfl
  | padn length => simp [serialize, getSerializedSize]

end Ipv6OptionHeader

namespace OptionsHeader

section Source

/-- `CalculatePad`, a difference of 32-bit numbers reduced by the factor. -/
def calculatePadTo (h : OptionsHeader) (alignment : Alignment) : Nat :=
  (BitVec.ofNat 32 alignment.offset.toNat - BitVec.ofNat 32 (h.optionData.length + 2)).toNat %
    alignment.factor.toNat

def append (h : OptionsHeader) (o : Ipv6OptionHeader) : OptionsHeader :=
  { h with optionData := h.optionData ++ o.serialize }

/-- `AddOption` to a depth of calls of itself. -/
def addOptionAt : Nat → OptionsHeader → Ipv6OptionHeader → OptionsHeader
  | 0, h, _ => h
  | depth + 1, h, o =>
    let padded :=
      match h.calculatePadTo o.getAlignment with
      | 0 => h
      | 1 => addOptionAt depth h .pad1
      | pad => addOptionAt depth h (.ofPad pad)
    padded.append o

/-- `AddOption`, which calls itself for the padding only. -/
def addOption (h : OptionsHeader) (o : Ipv6OptionHeader) : OptionsHeader := addOptionAt 2 h o

def addOptions (h : OptionsHeader) (os : List Ipv6OptionHeader) : OptionsHeader :=
  os.foldl addOption h

end Source

variable {h : OptionsHeader}

/-- The padding to a multiple of 8 that closes the header. -/
theorem calculatePadTo_eight (h : OptionsHeader) :
    h.calculatePadTo ⟨8, 0, by decide⟩ = h.calculatePad := by
  have height : (8 : UInt8).toNat = 8 := rfl
  have hzero : (0 : UInt8).toNat = 0 := rfl
  simp only [calculatePadTo, calculatePad, height, hzero, BitVec.toNat_sub, BitVec.toNat_ofNat]
  omega

theorem calculatePadTo_none (h : OptionsHeader) :
    h.calculatePadTo Ipv6OptionHeader.noAlignment = 0 :=
  Nat.mod_one _

/-- Padding needs none before it, so two calls are enough for every option. -/
theorem addOptionAt_padding (depth : Nat) (o : Ipv6OptionHeader)
    (ho : o.getAlignment = Ipv6OptionHeader.noAlignment) :
    addOptionAt (depth + 1) h o = h.append o := by
  simp only [addOptionAt, ho, calculatePadTo_none]

theorem factor_cases (alignment : Alignment) :
    alignment.factor.toNat = 1 ∨ alignment.factor.toNat = 2 ∨ alignment.factor.toNat = 4 ∨
      alignment.factor.toNat = 8 := by
  have hmem := alignment.factor_mem
  simp only [List.mem_cons, List.not_mem_nil, or_false] at hmem
  rcases hmem with h | h | h | h <;> rw [h] <;> decide

theorem calculatePadTo_lt (h : OptionsHeader) (alignment : Alignment) :
    h.calculatePadTo alignment < 8 := by
  unfold calculatePadTo
  rcases factor_cases alignment with hf | hf | hf | hf <;> rw [hf] <;> omega

/-- The padding brings the place to the alignment, although the difference wraps. -/
theorem calculatePadTo_aligned (h : OptionsHeader) (alignment : Alignment) :
    (h.optionData.length + 2 + h.calculatePadTo alignment) % alignment.factor.toNat =
      alignment.offset.toNat % alignment.factor.toNat := by
  simp only [calculatePadTo, BitVec.toNat_sub, BitVec.toNat_ofNat]
  have hoffset := alignment.offset.toNat_lt
  rcases factor_cases alignment with hf | hf | hf | hf <;> rw [hf] <;> omega

/-- What `AddOption` does: two calls deep, the padding and then the option are appended. -/
theorem addOptionAt_eq (depth : Nat) (h : OptionsHeader) (o : Ipv6OptionHeader) :
    addOptionAt (depth + 2) h o =
      { h with optionData :=
          h.optionData ++ (padding (h.calculatePadTo o.getAlignment) ++ o.serialize) } := by
  have hlt := h.calculatePadTo_lt o.getAlignment
  rw [addOptionAt]
  generalize h.calculatePadTo o.getAlignment = pad at hlt
  match pad with
  | 0 => rfl
  | 1 =>
    show (addOptionAt (depth + 1) h .pad1).append o = _
    rw [addOptionAt_padding depth _ rfl]
    simp only [append, List.append_assoc]
    rfl
  | pad + 2 =>
    have hfill : (UInt8.ofNat pad).toNat = pad := by
      rw [UInt8.toNat_ofNat']
      omega
    have hpadding : (Ipv6OptionHeader.ofPad (pad + 2)).serialize = padding (pad + 2) := by
      simp only [Ipv6OptionHeader.ofPad, Ipv6OptionHeader.serialize, Nat.add_sub_cancel, hfill]
      rfl
    show (addOptionAt (depth + 1) h (.ofPad (pad + 2))).append o = _
    rw [addOptionAt_padding depth _ rfl]
    simp only [append, hpadding, List.append_assoc]

theorem addOption_optionData (h : OptionsHeader) (o : Ipv6OptionHeader) :
    (h.addOption o).optionData =
      h.optionData ++ (padding (h.calculatePadTo o.getAlignment) ++ o.serialize) := by
  rw [addOption, addOptionAt_eq 0]

@[simp] theorem addOption_nextHeader (h : OptionsHeader) (o : Ipv6OptionHeader) :
    (h.addOption o).nextHeader = h.nextHeader := by
  rw [addOption, addOptionAt_eq 0]

theorem length_padding (pad : Nat) : (padding pad).length = pad := by
  match pad with
  | 0 => rfl
  | 1 => rfl
  | pad + 2 => simp [padding]

@[simp] theorem addOptions_nextHeader (h : OptionsHeader) (os : List Ipv6OptionHeader) :
    (h.addOptions os).nextHeader = h.nextHeader := by
  induction os generalizing h with
  | nil => rfl
  | cons o os ih => rw [addOptions, List.foldl_cons, ← addOptions, ih, addOption_nextHeader]

theorem addOptions_append (h : OptionsHeader) (os os' : List Ipv6OptionHeader) :
    h.addOptions (os ++ os') = (h.addOptions os).addOptions os' :=
  List.foldl_append

/-- Options added later leave those before where they are. -/
theorem optionData_prefix (h : OptionsHeader) (os : List Ipv6OptionHeader) :
    h.optionData <+: (h.addOptions os).optionData := by
  induction os generalizing h with
  | nil => exact List.prefix_rfl
  | cons o os ih =>
    refine List.IsPrefix.trans ?_ (ih (h.addOption o))
    rw [addOption_optionData]
    exact List.prefix_append _ _

/-- Where the option that is added starts, counted from the start of the header. -/
def placeOf (h : OptionsHeader) (o : Ipv6OptionHeader) : Nat :=
  2 + h.optionData.length + h.calculatePadTo o.getAlignment

/-- The header after the options stand at their places. -/
theorem optionAt_place (h : OptionsHeader) (os : List Ipv6OptionHeader) (o : Ipv6OptionHeader)
    (os' : List Ipv6OptionHeader) :
    (((h.addOptions (os ++ o :: os')).serialize).drop ((h.addOptions os).placeOf o)).take
        o.getSerializedSize = o.serialize ∧
      (h.addOptions os).placeOf o % o.getAlignment.factor.toNat =
        o.getAlignment.offset.toNat % o.getAlignment.factor.toNat := by
  set g := h.addOptions os with hg
  constructor
  · obtain ⟨rest, hrest⟩ := optionData_prefix (g.addOption o) os'
    have hall : h.addOptions (os ++ o :: os') = (g.addOption o).addOptions os' := by
      rw [addOptions_append]
      rfl
    obtain ⟨length, tail, hserialize⟩ : ∃ length tail, (h.addOptions (os ++ o :: os')).serialize =
        (h.nextHeader :: length :: (g.optionData ++
          padding (g.calculatePadTo o.getAlignment))) ++ (o.serialize ++ tail) := by
      rw [serialize, hall, ← hrest, addOption_optionData, ← hall, addOptions_nextHeader]
      exact ⟨_, rest ++ _, by simp only [List.cons_append, List.append_assoc]; rfl⟩
    have hplace : (h.nextHeader :: length :: (g.optionData ++
        padding (g.calculatePadTo o.getAlignment))).length = g.placeOf o := by
      simp only [placeOf, List.length_cons, List.length_append, length_padding]
      omega
    rw [hserialize, List.drop_left' hplace, List.take_left' o.length_serialize]
  · rw [← calculatePadTo_aligned g, placeOf]
    congr 1
    omega

theorem getSerializedSize_mod (h : OptionsHeader) : h.getSerializedSize % 8 = 0 := by
  rw [getSerializedSize, calculatePad]
  omega

theorem length_serialize (h : OptionsHeader) : h.serialize.length = h.getSerializedSize := by
  simp only [serialize, getSerializedSize, List.length_cons, List.length_append, length_padding]
  omega

/-- The length that is written is that of the bytes, up to the largest one it can state. -/
theorem extensionLength_serialize (hsize : h.getSerializedSize ≤ 2048) :
    extensionLength (UInt8.ofNat (h.getSerializedSize / 8 - 1)) = h.getSerializedSize := by
  have hmod := h.getSerializedSize_mod
  have hpos : 2 ≤ h.getSerializedSize := Nat.le_add_right _ _
  rw [extensionLength, UInt8.toNat_ofNat']
  omega

/-- What is read back: the padding has become part of the options. -/
theorem deserialize_written (hsize : h.getSerializedSize ≤ 2048) :
    deserialize h.serialize =
      some ⟨h.nextHeader, UInt8.ofNat (h.getSerializedSize / 8 - 1),
        h.optionData ++ padding h.calculatePad⟩ := by
  have hlength : (h.optionData ++ padding h.calculatePad).length =
      extensionLength (UInt8.ofNat (h.getSerializedSize / 8 - 1)) - 2 := by
    rw [extensionLength_serialize hsize, List.length_append, length_padding, getSerializedSize,
      Nat.add_sub_cancel_left]
  have hread : Words.readBytes (h.optionData ++ padding h.calculatePad) 0
      (h.optionData ++ padding h.calculatePad).length =
        some (h.optionData ++ padding h.calculatePad) :=
    Words.readBytes_of_drop _ (List.append_nil _).symm
  rw [serialize, deserialize, ← hlength, hread]
  rfl

/-- A header as it is read back needs no further padding. -/
theorem serialize_padded (h : OptionsHeader) (length : UInt8) :
    (⟨h.nextHeader, length, h.optionData ++ padding h.calculatePad⟩ : OptionsHeader).serialize =
      h.serialize := by
  have hpad : calculatePad ⟨h.nextHeader, length, h.optionData ++ padding h.calculatePad⟩ = 0 := by
    simp only [calculatePad, List.length_append, length_padding]
    omega
  have hsize : getSerializedSize
      ⟨h.nextHeader, length, h.optionData ++ padding h.calculatePad⟩ = h.getSerializedSize := by
    rw [getSerializedSize, hpad, getSerializedSize, List.length_append, length_padding]
    omega
  rw [serialize, hpad, hsize, padding, List.append_nil]
  rfl

/-- Options added to an empty header are aligned, the three sizes agree, and what is written
reads back to a header that is written alike. -/
theorem addOptions_roundTrip (nextHeader length : UInt8) (os : List Ipv6OptionHeader)
    (hsize : (addOptions ⟨nextHeader, length, []⟩ os).getSerializedSize ≤ 2048) :
    let h := addOptions ⟨nextHeader, length, []⟩ os
    (∀ before o after, os = before ++ o :: after →
      (h.serialize.drop ((addOptions ⟨nextHeader, length, []⟩ before).placeOf o)).take
          o.getSerializedSize = o.serialize ∧
        (addOptions ⟨nextHeader, length, []⟩ before).placeOf o % o.getAlignment.factor.toNat =
          o.getAlignment.offset.toNat % o.getAlignment.factor.toNat) ∧
      h.getSerializedSize % 8 = 0 ∧
      h.serialize.length = h.getSerializedSize ∧
      extensionLength (h.serialize.getD 1 0) = h.getSerializedSize ∧
      ∃ back, deserialize h.serialize = some back ∧
        back.nextHeader = nextHeader ∧
        extensionLength back.length = h.serialize.length ∧
        back.getSerializedSize = h.serialize.length ∧
        back.optionData = h.serialize.drop 2 ∧
        back.serialize = h.serialize := by
  intro h
  have hnext : h.nextHeader = nextHeader := addOptions_nextHeader _ _
  have hback := serialize_padded h (UInt8.ofNat (h.getSerializedSize / 8 - 1))
  refine ⟨?_, h.getSerializedSize_mod, h.length_serialize, extensionLength_serialize hsize, _,
    deserialize_written hsize, hnext, ?_, ?_, rfl, hback⟩
  · rintro before o after rfl
    exact optionAt_place _ before o after
  · exact (extensionLength_serialize hsize).trans h.length_serialize.symm
  · rw [← length_serialize, hback]

/-- A router alert, a jumbogram option and one of three bytes. -/
theorem addOptions_roundTrip_three :
    ∃ back, deserialize (addOptions ⟨59, 0, []⟩
        [.option 5 [0, 0] (by decide) ⟨2, 0, by decide⟩,
          .option 194 [0, 1, 0, 0] (by decide) ⟨4, 2, by decide⟩,
          .option 30 [7] (by decide) ⟨1, 0, by decide⟩]).serialize = some back ∧
      back.nextHeader = 59 := by
  obtain ⟨-, -, -, -, back, hback, hnext, -⟩ := addOptions_roundTrip 59 0
    [.option 5 [0, 0] (by decide) ⟨2, 0, by decide⟩,
      .option 194 [0, 1, 0, 0] (by decide) ⟨4, 2, by decide⟩,
      .option 30 [7] (by decide) ⟨1, 0, by decide⟩] (by decide)
  exact ⟨back, hback, hnext⟩

end OptionsHeader

end CudaNs3.Internet
