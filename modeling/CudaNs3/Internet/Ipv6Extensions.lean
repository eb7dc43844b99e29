import CudaNs3.Internet.Ipv6Header
import CudaNs3.Lib.Words

/-!
# IPv6 extension headers

The hop-by-hop, routing, destination and fragment headers as rows of bytes. Reading beyond the
end of a packet fails.
-/

namespace CudaNs3.Internet

open Words
set_option autoImplicit false

/-- `GetLength` of an extension header. -/
def extensionLength (length : UInt8) : Nat := (length.toNat + 1) * 8

/-- A hop-by-hop or a destination header, which differ in their number only. -/
structure OptionsHeader where
  nextHeader : UInt8
  length : UInt8
  optionData : List UInt8
  deriving DecidableEq

namespace OptionsHeader

/-- `CalculatePad` to a multiple of 8, the two bytes before the options included. -/
def calculatePad (h : OptionsHeader) : Nat := (8 - (h.optionData.length + 2) % 8) % 8

def getSerializedSize (h : OptionsHeader) : Nat := 2 + (h.optionData.length + h.calculatePad)

/-- `Ipv6OptionPad1Header` or `Ipv6OptionPadnHeader`. -/
def padding : Nat → List UInt8
  | 0 => []
  | 1 => [0]
  | fill + 2 => 1 :: UInt8.ofNat fill :: List.replicate fill 0

def serialize (h : OptionsHeader) : List UInt8 :=
  h.nextHeader :: UInt8.ofNat (h.getSerializedSize / 8 - 1) ::
    (h.optionData ++ padding h.calculatePad)

def deserialize : List UInt8 → Option OptionsHeader
  | nextHeader :: length :: p =>
    (readBytes p 0 (extensionLength length - 2)).map fun optionData =>
      ⟨nextHeader, length, optionData⟩
  | _ => none

end OptionsHeader

/-- `Ipv6ExtensionLooseRoutingHeader`. -/
structure RoutingHeader where
  nextHeader : UInt8
  length : UInt8
  typeRouting : UInt8
  segmentsLeft : UInt8
  routersAddress : List Ipv6Address
  deriving DecidableEq

namespace RoutingHeader

def getSerializedSize (h : RoutingHeader) : Nat := 8 + h.routersAddress.length * 16

def serialize (h : RoutingHeader) : List UInt8 :=
  h.nextHeader :: UInt8.ofNat (h.routersAddress.length * 2) :: h.typeRouting :: h.segmentsLeft ::
    0 :: 0 :: 0 :: 0 :: h.routersAddress.flatMap fun a => toBytes 16 a.toNat

def readAddresses : Nat → List UInt8 → Option (List Ipv6Address)
  | 0, _ => some []
  | n + 1, p => do
    let a ← readWord p 0 16
    let addresses ← readAddresses n (p.drop 16)
    some (BitVec.ofNat 128 a :: addresses)

/-- What stands in the reserved field is not kept. -/
def deserialize : List UInt8 → Option RoutingHeader
  | nextHeader :: length :: typeRouting :: segmentsLeft :: _ :: _ :: _ :: _ :: p =>
    (readAddresses (length.toNat / 2) p).map fun routersAddress =>
      ⟨nextHeader, length, typeRouting, segmentsLeft, routersAddress⟩
  | _ => none

end RoutingHeader

/-- A header of the unfragmentable part. -/
inductive ExtensionHeader where
  | hopByHop (h : OptionsHeader)
  | routing (h : RoutingHeader)
  | destination (h : OptionsHeader)
  deriving DecidableEq

namespace ExtensionHeader

def number : ExtensionHeader → UInt8
  | hopByHop _ => Ipv6Header.extHopByHop
  | routing _ => Ipv6Header.extRouting
  | destination _ => Ipv6Header.extDestination

def getNextHeader : ExtensionHeader → UInt8
  | hopByHop h | destination h => h.nextHeader
  | routing h => h.nextHeader

def setNextHeader (next : UInt8) : ExtensionHeader → ExtensionHeader
  | hopByHop h => hopByHop { h with nextHeader := next }
  | routing h => routing { h with nextHeader := next }
  | destination h => destination { h with nextHeader := next }

def getLength : ExtensionHeader → Nat
  | hopByHop h | destination h => extensionLength h.length
  | routing h => extensionLength h.length

def getSerializedSize : ExtensionHeader → Nat
  | hopByHop h | destination h => h.getSerializedSize
  | routing h => h.getSerializedSize

def serialize : ExtensionHeader → List UInt8
  | hopByHop h | destination h => h.serialize
  | routing h => h.serialize

/-- The header of the given number at the start of a packet. -/
def deserialize (number : UInt8) (p : List UInt8) : Option ExtensionHeader :=
  if number = Ipv6Header.extHopByHop then (OptionsHeader.deserialize p).map hopByHop
  else if number = Ipv6Header.extRouting then (RoutingHeader.deserialize p).map routing
  else if number = Ipv6Header.extDestination then (OptionsHeader.deserialize p).map destination
  else none

/-- `RemoveHeader`, and what is left of the packet. -/
def remove (number : UInt8) (p : List UInt8) : Option (ExtensionHeader × List UInt8) :=
  (deserialize number p).map fun h => (h, p.drop h.getSerializedSize)

/-- A header as it stands in a packet: the options padded, and the length that of the content. -/
def WellFormed : ExtensionHeader → Prop
  | hopByHop h | destination h => h.optionData.length + 2 = extensionLength h.length
  | routing h => h.length.toNat = 2 * h.routersAddress.length

end ExtensionHeader

/-- `Ipv6ExtensionFragmentHeader`; the lowest bit of the offset is the more-fragments flag. -/
structure FragmentHeader where
  nextHeader : UInt8 := 0
  offset : BitVec 16 := 0
  identification : BitVec 32 := 0
  deriving DecidableEq

namespace FragmentHeader

def setNextHeader (h : FragmentHeader) (next : UInt8) : FragmentHeader :=
  { h with nextHeader := next }

def setOffset (h : FragmentHeader) (offset : BitVec 16) : FragmentHeader :=
  { h with offset := h.offset &&& 1 ||| offset &&& ~~~7 }

def getOffset (h : FragmentHeader) : BitVec 16 := h.offset &&& ~~~1

def setMoreFragment (h : FragmentHeader) (moreFragment : Bool) : FragmentHeader :=
  { h with offset := if moreFragment then h.offset ||| 1 else h.offset &&& ~~~1 }

def getMoreFragment (h : FragmentHeader) : Bool := h.offset &&& 1 != 0

def setIdentification (h : FragmentHeader) (identification : BitVec 32) : FragmentHeader :=
  { h with identification := identification }

def getSerializedSize : BitVec 32 := 8

def serialize (h : FragmentHeader) : List UInt8 :=
  h.nextHeader :: 0 :: (toBytes 2 h.offset.toNat ++ toBytes 4 h.identification.toNat)

def deserialize (p : List UInt8) : Option FragmentHeader := do
  let nextHeader ← p.head?
  let offset ← readWord p 2 2
  let identification ← readWord p 4 4
  some ⟨nextHeader, BitVec.ofNat 16 offset, BitVec.ofNat 32 identification⟩

end FragmentHeader

/-! ## Round trips -/

namespace OptionsHeader
variable {h : OptionsHeader}

theorem calculatePad_eq (hlen : h.optionData.length + 2 = extensionLength h.length) :
    h.calculatePad = 0 := by
  unfold calculatePad
  rw [hlen, extensionLength]
  omega

theorem getSerializedSize_eq (hlen : h.optionData.length + 2 = extensionLength h.length) :
    h.getSerializedSize = extensionLength h.length := by
  rw [getSerializedSize, calculatePad_eq hlen]
  omega

theorem serialize_eq (hlen : h.optionData.length + 2 = extensionLength h.length) :
    h.serialize = h.nextHeader :: h.length :: h.optionData := by
  have hlength : extensionLength h.length / 8 - 1 = h.length.toNat := by
    unfold extensionLength
    omega
  rw [serialize, getSerializedSize_eq hlen, calculatePad_eq hlen, hlength, UInt8.ofNat_toNat,
    padding, List.append_nil]

theorem deserialize_serialize (hlen : h.optionData.length + 2 = extensionLength h.length)
    (rest : List UInt8) : deserialize (h.serialize ++ rest) = some h := by
  have hsize : extensionLength h.length - 2 = h.optionData.length := by omega
  rw [serialize_eq hlen]
  change (readBytes (h.optionData ++ rest) 0 (extensionLength h.length - 2)).map _ = _
  rw [hsize, readBytes_of_drop _ rfl]
  rfl

end OptionsHeader

namespace RoutingHeader

theorem length_addresses (addresses : List Ipv6Address) :
    (addresses.flatMap fun a => toBytes 16 a.toNat).length = 16 * addresses.length := by
  induction addresses with
  | nil => rfl
  | cons a addresses ih =>
    rw [List.flatMap_cons, List.length_append, length_toBytes, ih, List.length_cons]
    omega

theorem readAddresses_spec (addresses : List Ipv6Address) (rest : List UInt8) :
    readAddresses addresses.length ((addresses.flatMap fun a => toBytes 16 a.toNat) ++ rest) =
      some addresses := by
  induction addresses with
  | nil => rfl
  | cons a addresses ih =>
    have hread : readWord ((a :: addresses).flatMap (fun a => toBytes 16 a.toNat) ++ rest) 0 16 =
        some a.toNat := by
      apply readWord_of_drop a.isLt
      rw [List.drop_zero, List.flatMap_cons, List.append_assoc]
    have hdrop : ((a :: addresses).flatMap (fun a => toBytes 16 a.toNat) ++ rest).drop 16 =
        addresses.flatMap (fun a => toBytes 16 a.toNat) ++ rest := by
      have hlen : (toBytes 16 a.toNat).length = 16 := length_toBytes
      rw [List.flatMap_cons, List.append_assoc]
      exact List.drop_left' hlen
    rw [List.length_cons, readAddresses, hread, hdrop]
    change ((readAddresses addresses.length _).bind fun x =>
      some (BitVec.ofNat 128 a.toNat :: x)) = _
    rw [ih, BitVec.ofNat_toNat, BitVec.setWidth_eq]
    rfl

variable {h : RoutingHeader}

theorem deserialize_serialize (hlen : h.length.toNat = 2 * h.routersAddress.length)
    (rest : List UInt8) : deserialize (h.serialize ++ rest) = some h := by
  have hlength : UInt8.ofNat (h.routersAddress.length * 2) = h.length := by
    rw [Nat.mul_comm, ← hlen, UInt8.ofNat_toNat]
  have hcount : h.length.toNat / 2 = h.routersAddress.length := by omega
  rw [serialize, hlength]
  change (readAddresses (h.length.toNat / 2) _).map _ = _
  rw [hcount]
  exact congrArg (Option.map _) (readAddresses_spec h.routersAddress rest)

end RoutingHeader

namespace ExtensionHeader
variable {h : ExtensionHeader}

theorem length_serialize (hwf : h.WellFormed) : h.serialize.length = h.getLength := by
  cases h with
  | hopByHop h =>
    change h.serialize.length = extensionLength h.length
    rw [OptionsHeader.serialize_eq hwf, List.length_cons, List.length_cons]
    exact hwf
  | destination h =>
    change h.serialize.length = extensionLength h.length
    rw [OptionsHeader.serialize_eq hwf, List.length_cons, List.length_cons]
    exact hwf
  | routing h =>
    have hwf : h.length.toNat = 2 * h.routersAddress.length := hwf
    have hlen := RoutingHeader.length_addresses h.routersAddress
    change (h.serialize).length = extensionLength h.length
    unfold RoutingHeader.serialize extensionLength
    simp only [List.length_cons]
    omega

theorem getSerializedSize_eq (hwf : h.WellFormed) : h.getSerializedSize = h.getLength := by
  cases h with
  | hopByHop h => exact OptionsHeader.getSerializedSize_eq hwf
  | destination h => exact OptionsHeader.getSerializedSize_eq hwf
  | routing h =>
    have hwf : h.length.toNat = 2 * h.routersAddress.length := hwf
    change h.getSerializedSize = extensionLength h.length
    unfold RoutingHeader.getSerializedSize extensionLength
    omega

/-- A header that was written is read again, and what follows it is left. -/
theorem remove_serialize (hwf : h.WellFormed) (rest : List UInt8) :
    remove h.number (h.serialize ++ rest) = some (h, rest) := by
  have hdrop : (h.serialize ++ rest).drop h.getSerializedSize = rest := by
    rw [getSerializedSize_eq hwf, ← length_serialize hwf, List.drop_left]
  have hread : deserialize h.number (h.serialize ++ rest) = some h := by
    cases h with
    | hopByHop h =>
      exact congrArg (Option.map hopByHop) (OptionsHeader.deserialize_serialize hwf rest)
    | routing h =>
      exact congrArg (Option.map routing) (RoutingHeader.deserialize_serialize hwf rest)
    | destination h =>
      exact congrArg (Option.map destination) (OptionsHeader.deserialize_serialize hwf rest)
  rw [remove, hread, Option.map_some, hdrop]

theorem head?_serialize (rest : List UInt8) :
    (h.serialize ++ rest).head? = some h.getNextHeader := by
  cases h with
  | hopByHop h => rfl
  | routing h => rfl
  | destination h => rfl

theorem WellFormed.setNextHeader (hwf : h.WellFormed) (next : UInt8) :
    (h.setNextHeader next).WellFormed := by
  cases h with
  | hopByHop h => exact hwf
  | routing h => exact hwf
  | destination h => exact hwf

@[simp] theorem getLength_setNextHeader (next : UInt8) :
    (h.setNextHeader next).getLength = h.getLength := by
  cases h with
  | hopByHop h => rfl
  | routing h => rfl
  | destination h => rfl

@[simp] theorem getNextHeader_setNextHeader (next : UInt8) :
    (h.setNextHeader next).getNextHeader = next := by
  cases h with
  | hopByHop h => rfl
  | routing h => rfl
  | destination h => rfl

theorem number_ne_extFragmentation (h : ExtensionHeader) :
    h.number ≠ Ipv6Header.extFragmentation := by
  cases h with
  | hopByHop h => exact (by decide : (0 : UInt8) ≠ 44)
  | routing h => exact (by decide : (43 : UInt8) ≠ 44)
  | destination h => exact (by decide : (60 : UInt8) ≠ 44)

end ExtensionHeader

namespace FragmentHeader

@[simp] theorem length_serialize (h : FragmentHeader) : h.serialize.length = 8 := by
  unfold serialize
  rw [List.length_cons, List.length_cons, List.length_append, length_toBytes, length_toBytes]

theorem deserialize_serialize (h : FragmentHeader) (rest : List UInt8) :
    deserialize (h.serialize ++ rest) = some h := by
  have hoffset : readWord (h.serialize ++ rest) 2 2 = some h.offset.toNat := by
    apply readWord_of_drop h.offset.isLt
    change toBytes 2 h.offset.toNat ++ toBytes 4 h.identification.toNat ++ rest = _
    rw [List.append_assoc]
  have hidentification : readWord (h.serialize ++ rest) 4 4 = some h.identification.toNat := by
    apply readWord_of_drop h.identification.isLt
    rfl
  unfold deserialize
  rw [hoffset, hidentification]
  change some (FragmentHeader.mk _ (BitVec.ofNat 16 h.offset.toNat)
    (BitVec.ofNat 32 h.identification.toNat)) = _
  rw [BitVec.ofNat_toNat, BitVec.ofNat_toNat, BitVec.setWidth_eq, BitVec.setWidth_eq]

end FragmentHeader
end CudaNs3.Internet
