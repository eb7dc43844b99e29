import CudaNs3.Lib.Affixes
import CudaNs3.Lib.Readers
import Mathlib.Data.List.ReduceOption

/-!
# The PacketBB codec

Packets, messages, address blocks and TLVs as they are built through the API, the size that is
announced for them, what `Serialize` puts into the buffer and what `Deserialize` makes of it.
An output has `none` where the iterator passes over a byte that is never written.
-/

namespace CudaNs3.Network.PacketBB

open Affixes Readers Words
set_option autoImplicit false

def VERSION : UInt8 := 0

def PHAS_SEQ_NUM : UInt8 := 0x8
def PHAS_TLV : UInt8 := 0x4

def MHAS_ORIG : UInt8 := 0x80
def MHAS_HOP_LIMIT : UInt8 := 0x40
def MHAS_HOP_COUNT : UInt8 := 0x20
def MHAS_SEQ_NUM : UInt8 := 0x10

def AHAS_HEAD : UInt8 := 0x80
def AHAS_FULL_TAIL : UInt8 := 0x40
def AHAS_ZERO_TAIL : UInt8 := 0x20
def AHAS_SINGLE_PRE_LEN : UInt8 := 0x10
def AHAS_MULTI_PRE_LEN : UInt8 := 0x08

def THAS_TYPE_EXT : UInt8 := 0x80
def THAS_SINGLE_INDEX : UInt8 := 0x40
def THAS_MULTI_INDEX : UInt8 := 0x20
def THAS_VALUE : UInt8 := 0x10
def THAS_EXT_LEN : UInt8 := 0x08
def TIS_MULTIVALUE : UInt8 := 0x04

/-- The classes of messages and of address blocks. -/
inductive Family
  | ipv4
  | ipv6
  deriving DecidableEq

/-- `PbbAddressLength`, which messages return: one byte less than an address has. -/
def Family.addressLength : Family → UInt8
  | .ipv4 => 3
  | .ipv6 => 15

/-- `GetAddressLength` of an address block. -/
def Family.size : Family → Nat
  | .ipv4 => 4
  | .ipv6 => 16

structure Address (family : Family) where
  bytes : List UInt8
  length_bytes : bytes.length = family.size
  deriving DecidableEq

/-- `DeserializeAddress`, of as many bytes as an address has. -/
def Address.ofBytes (family : Family) (bytes : List UInt8) : Option (Address family) :=
  if h : bytes.length = family.size then some ⟨bytes, h⟩ else none

structure PbbTlv where
  type : UInt8
  typeExt : Option UInt8 := none
  indexStart : Option UInt8 := none
  indexStop : Option UInt8 := none
  isMultivalue : Bool := false
  value : Option (List UInt8) := none
  deriving DecidableEq

structure PbbAddressBlock (family : Family) where
  addressList : List (Address family) := []
  prefixList : List UInt8 := []
  addressTlvList : List PbbTlv := []
  deriving DecidableEq

structure PbbMessage where
  family : Family
  type : UInt8
  originatorAddress : Option (Address family) := none
  hopLimit : Option UInt8 := none
  hopCount : Option UInt8 := none
  sequenceNumber : Option UInt16 := none
  tlvList : List PbbTlv := []
  addressBlockList : List (PbbAddressBlock family) := []

structure PbbPacket where
  version : UInt8 := VERSION
  seqnum : Option UInt16 := none
  tlvList : List PbbTlv := []
  messageList : List PbbMessage := []

/-! ### TLVs -/

def flag (there : Bool) (f : UInt8) : UInt8 := if there then f else 0

namespace PbbTlv

variable (t : PbbTlv)

def getSerializedSize : UInt32 :=
  2 + (if t.typeExt.isSome then 1 else 0) + (if t.indexStart.isSome then 1 else 0) +
    (if t.indexStop.isSome then 1 else 0) +
    t.value.elim 0 fun v => (if 255 < v.length then 2 else 1) + UInt32.ofNat v.length

/-- What `Serialize` writes into the flags at last. -/
def flags : UInt8 :=
  flag t.typeExt.isSome THAS_TYPE_EXT |||
    flag (t.indexStart.isSome && t.indexStop.isSome) THAS_MULTI_INDEX |||
    flag (t.indexStart.isSome && !t.indexStop.isSome) THAS_SINGLE_INDEX |||
    flag t.value.isSome THAS_VALUE |||
    flag (t.value.any (255 < ·.length)) THAS_EXT_LEN |||
    flag (t.value.isSome && t.isMultivalue) TIS_MULTIVALUE

def serialize : List UInt8 :=
  [t.type, t.flags] ++ t.typeExt.elim [] ([·]) ++
    t.indexStart.elim [] (fun start => [start] ++ t.indexStop.elim [] ([·])) ++
    t.value.elim [] fun v => toBytes (if 255 < v.length then 2 else 1) v.length ++ v

end PbbTlv

def hasFlag (flags f : UInt8) : Bool := flags &&& f != 0

/-- `TIS_MULTIVALUE` is not looked at. -/
def PbbTlv.deserialize : Reader PbbTlv := do
  let type ← byte
  let flags ← byte
  let typeExt ← optional (hasFlag flags THAS_TYPE_EXT) byte
  let indexStart ← optional (hasFlag flags THAS_MULTI_INDEX || hasFlag flags THAS_SINGLE_INDEX) byte
  let indexStop ← optional (hasFlag flags THAS_MULTI_INDEX) byte
  let value ← optional (hasFlag flags THAS_VALUE) do
    let len ← word (if hasFlag flags THAS_EXT_LEN then 2 else 1)
    bytes len
  return { type, typeExt, indexStart, indexStop, value }

/-- `PbbTlvBlock` and `PbbAddressTlvBlock`. -/
def tlvBlockSize (tlvs : List PbbTlv) : UInt32 := 2 + (tlvs.map PbbTlv.getSerializedSize).sum

def serializeTlvBlock (tlvs : List PbbTlv) : List UInt8 :=
  if tlvs.isEmpty then toBytes 2 0
  else toBytes 2 (tlvs.flatMap PbbTlv.serialize).length ++ tlvs.flatMap PbbTlv.serialize

def deserializeTlvBlock : Reader (List PbbTlv) := do
  let size ← word 2
  let start ← position
  within PbbTlv.deserialize start size size

/-! ### Address blocks -/

/-- The locals of `GetHeadTail`; `last` and `cur` stand for `buflast` and `bufcur` after they
have been exchanged. -/
structure HeadTail where
  headlen : Nat
  taillen : Nat
  last : List UInt8
  cur : List UInt8

/-- One pass of its loop. Two scans for a difference, from the front over the head and from the
end over at most one byte more than the tail. A head of length 0 leaves bytes to compare, so the
branch for it is not reached. -/
def HeadTail.compare (len : Nat) (s : HeadTail) (a : List UInt8) : HeadTail :=
  let headlen := agreeing s.headlen s.last a
  { headlen
    taillen :=
      if headlen < len then
        agreeing (min (s.taillen + 1) (len - 1 - headlen)) s.last.reverse a.reverse
      else s.taillen
    last := a
    cur := s.last }

namespace PbbAddressBlock

variable {family : Family} (b : PbbAddressBlock family)

/-- `AddressBegin()++` is still the first address, which is compared with itself first. -/
def getHeadTail (family : Family) (first : Address family) (rest : List (Address family)) :
    HeadTail :=
  ((first :: rest).map Address.bytes).foldl (HeadTail.compare family.size)
    ⟨family.size, family.size, first.bytes, []⟩

/-- The head and the tail that are written. -/
def head (s : HeadTail) : List UInt8 := s.cur.take s.headlen

def tail (family : Family) (s : HeadTail) : List UInt8 := s.cur.drop (family.size - s.taillen)

def hasZeroTail (tail : List UInt8) : Bool := tail.all (· == 0)

def getPrefixFlags : UInt8 :=
  match b.prefixList.length with
  | 0 => 0
  | 1 => AHAS_SINGLE_PRE_LEN
  | _ => AHAS_MULTI_PRE_LEN

/-- Without a sign, what is less than nothing between head and tail is very much. -/
def getSerializedSize : UInt32 :=
  2 + (match b.addressList with
    | [] => 0
    | [_] => .ofNat family.size + .ofNat b.prefixList.length
    | first :: rest =>
      let s := getHeadTail family first rest
      (if 0 < s.headlen then 1 + .ofNat s.headlen else 0) +
        (if 0 < s.taillen then
          1 + if hasZeroTail (tail family s) then 0 else .ofNat s.taillen
        else 0) +
        (.ofNat family.size - .ofNat s.headlen - .ofNat s.taillen) * .ofNat (first :: rest).length +
        .ofNat b.prefixList.length) +
    tlvBlockSize b.addressTlvList

def writeHead (s : HeadTail) : List UInt8 :=
  if 0 < s.headlen then [.ofNat s.headlen] ++ head s else []

def writeTail (family : Family) (s : HeadTail) : List UInt8 :=
  if 0 < s.taillen then
    [.ofNat s.taillen] ++ if hasZeroTail (tail family s) then [] else tail family s
  else []

def writeMids (s : HeadTail) (addresses : List (Address family)) : List UInt8 :=
  if s.headlen + s.taillen < family.size then
    addresses.flatMap fun a =>
      (a.bytes.drop s.headlen).take (family.size - s.headlen - s.taillen)
  else []

def flags (s : HeadTail) : UInt8 :=
  flag (0 < s.headlen) AHAS_HEAD |||
    flag (0 < s.taillen && hasZeroTail (tail family s)) AHAS_ZERO_TAIL |||
    flag (0 < s.taillen && !hasZeroTail (tail family s)) AHAS_FULL_TAIL ||| b.getPrefixFlags

/-- The flags of an empty block are passed over and not written. -/
def serialize : List (Option UInt8) :=
  [some (.ofNat b.addressList.length)] ++
    (match b.addressList with
    | [] => [none]
    | [a] =>
      ([if b.prefixList.length = 1 then AHAS_SINGLE_PRE_LEN else 0] ++ a.bytes ++
        if b.prefixList.length = 1 then b.prefixList else []).map some
    | first :: rest =>
      let s := getHeadTail family first rest
      ([b.flags s] ++ writeHead s ++ writeTail family s ++ writeMids s (first :: rest) ++
        b.prefixList).map some) ++
    (serializeTlvBlock b.addressTlvList).map some

/-- Parts that overlap would make the number of bytes between them very large. -/
def deserializeAddress (family : Family) (head tail : List UInt8) : Reader (Address family) := do
  let mid ← bytes (family.size - head.length - tail.length)
  ofOption (Address.ofBytes family (head ++ mid ++ tail))

def readHead (flags : UInt8) : Reader (List UInt8) :=
  if hasFlag flags AHAS_HEAD then do
    let headlen ← byte
    bytes headlen.toNat
  else pure []

/-- The bytes of an address are zero before anything is read into them. -/
def readTail (flags : UInt8) : Reader (List UInt8) :=
  if hasFlag flags AHAS_FULL_TAIL != hasFlag flags AHAS_ZERO_TAIL then do
    let taillen ← byte
    if hasFlag flags AHAS_FULL_TAIL then bytes taillen.toNat
    else pure (List.replicate taillen.toNat 0)
  else pure []

def readPrefixes (flags : UInt8) (numaddr : Nat) : Reader (List UInt8) :=
  if hasFlag flags AHAS_SINGLE_PRE_LEN then times byte 1
  else if hasFlag flags AHAS_MULTI_PRE_LEN then times byte numaddr
  else pure []

def deserialize (family : Family) : Reader (PbbAddressBlock family) := do
  let numaddr ← byte
  let flags ← byte
  if 0 < numaddr then
    let head ← readHead flags
    let tail ← readTail flags
    let addressList ← times (deserializeAddress family head tail) numaddr.toNat
    let prefixList ← readPrefixes flags numaddr.toNat
    let addressTlvList ← deserializeTlvBlock
    return { addressList, prefixList, addressTlvList }
  else
    let addressTlvList ← deserializeTlvBlock
    return { addressTlvList }

end PbbAddressBlock

/-! ### Messages and packets -/

namespace PbbMessage

variable (m : PbbMessage)

def getSerializedSize : UInt32 :=
  4 + (if m.originatorAddress.isSome then m.family.addressLength.toUInt32 + 1 else 0) +
    (if m.hopLimit.isSome then 1 else 0) + (if m.hopCount.isSome then 1 else 0) +
    (if m.sequenceNumber.isSome then 2 else 0) + tlvBlockSize m.tlvList +
    (m.addressBlockList.map PbbAddressBlock.getSerializedSize).sum

def flags : UInt8 :=
  m.family.addressLength ||| flag m.originatorAddress.isSome MHAS_ORIG |||
    flag m.hopLimit.isSome MHAS_HOP_LIMIT ||| flag m.hopCount.isSome MHAS_HOP_COUNT |||
    flag m.sequenceNumber.isSome MHAS_SEQ_NUM

/-- What follows the size. -/
def serializeBody : List (Option UInt8) :=
  (m.originatorAddress.elim [] (·.bytes) ++ m.hopLimit.elim [] ([·]) ++
      m.hopCount.elim [] ([·]) ++ m.sequenceNumber.elim [] (fun n => toBytes 2 n.toNat) ++
      serializeTlvBlock m.tlvList).map some ++
    m.addressBlockList.flatMap PbbAddressBlock.serialize

def serialize : List (Option UInt8) :=
  ([m.type, m.flags] ++ toBytes 2 (4 + m.serializeBody.length)).map some ++ m.serializeBody

def deserialize (family : Family) : Reader PbbMessage := do
  let front ← position
  let type ← byte
  let flags ← byte
  let size ← word 2
  let originatorAddress ← optional (hasFlag flags MHAS_ORIG)
    (PbbAddressBlock.deserializeAddress family [] [])
  let hopLimit ← optional (hasFlag flags MHAS_HOP_LIMIT) byte
  let hopCount ← optional (hasFlag flags MHAS_HOP_COUNT) byte
  let sequenceNumber ← optional (hasFlag flags MHAS_SEQ_NUM) do
    let n ← word 2
    return UInt16.ofNat n
  let tlvList ← deserializeTlvBlock
  let addressBlockList ← within (PbbAddressBlock.deserialize family) front size size
  return { family, type, originatorAddress, hopLimit, hopCount, sequenceNumber, tlvList,
           addressBlockList }

/-- The class that is created for an address length. -/
def familyOf (addrlen : UInt8) : Option Family :=
  if addrlen = 0 ∨ addrlen = Family.ipv4.addressLength then some .ipv4
  else if addrlen = Family.ipv6.addressLength then some .ipv6
  else none

/-- `none` is the null pointer. -/
def deserializeMessage : Reader (Option PbbMessage) := do
  let addrlen ← lookahead do
    let _ ← byte
    byte
  match familyOf (addrlen &&& 0xf) with
  | some family => do
    let m ← deserialize family
    return some m
  | none => return none

end PbbMessage

namespace PbbPacket

variable (p : PbbPacket)

def getSerializedSize : UInt32 :=
  1 + (if p.seqnum.isSome then 2 else 0) +
    (if p.tlvList.isEmpty then 0 else tlvBlockSize p.tlvList) +
    (p.messageList.map PbbMessage.getSerializedSize).sum

def serialize : List (Option UInt8) :=
  ([(VERSION <<< 4) ||| flag p.seqnum.isSome PHAS_SEQ_NUM ||| flag (!p.tlvList.isEmpty) PHAS_TLV] ++
      p.seqnum.elim [] (fun n => toBytes 2 n.toNat) ++
      if p.tlvList.isEmpty then [] else serializeTlvBlock p.tlvList).map some ++
    p.messageList.flatMap PbbMessage.serialize

/-- The messages up to the end of the buffer, and whether it was reached. -/
def deserializeMessages : Nat → Reader (List PbbMessage × Bool)
  | 0 => fun it => if it.rest = [] then some (([], true), it) else none
  | fuel + 1 => fun it =>
    if it.rest = [] then some (([], true), it) else do
      match ← PbbMessage.deserializeMessage it with
      | (none, it) => return (([], false), it)
      | (some m, it) =>
        let ((ms, whole), it) ← deserializeMessages fuel it
        return ((m :: ms, whole), it)

def readTlvs (flags : UInt8) : Reader (List PbbTlv) :=
  if hasFlag flags PHAS_TLV then deserializeTlvBlock else pure []

def read (fuel : Nat) : Reader PbbPacket := do
  let flags ← byte
  let seqnum ← optional (hasFlag flags PHAS_SEQ_NUM) do
    let n ← word 2
    return UInt16.ofNat n
  let tlvList ← readTlvs flags
  let (messageList, whole) ← deserializeMessages fuel
  return { version := if whole then flags >>> 4 else VERSION, seqnum, tlvList, messageList }

/-- The packet and the number of bytes taken. -/
def deserialize (buffer : List UInt8) : Option (PbbPacket × Nat) :=
  (read buffer.length ⟨0, buffer⟩).map fun r => (r.1, r.2.pos)

end PbbPacket

end CudaNs3.Network.PacketBB
