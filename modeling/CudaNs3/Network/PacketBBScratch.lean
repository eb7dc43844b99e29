import CudaNs3.Lib.TracedReaders
import CudaNs3.Network.PacketBB

/-!
# The scratch address of the PacketBB decoder

Decoding once more, with every index at which an address block uses its scratch address.
Nothing compares the lengths of a head and a tail with the length of an address, so that what
is read from the wire may be stored outside of it. A loop that is given one pass more than
there are bytes always ends.
-/

namespace CudaNs3.Network.PacketBB

open Readers
set_option autoImplicit false

/-- An address block is begun, with the bytes that are left; an index into its scratch address
is used. -/
inductive Event where
  | block (family : Family) (bytes : List UInt8)
  | access (family : Family) (index : Int)
  deriving DecidableEq

namespace Scratch

variable {family : Family}

def zeros (family : Family) : Address family :=
  ⟨List.replicate family.size 0, List.length_replicate⟩

/-- What is stored outside of the array is lost here. -/
def store (scratch : Address family) (index : Int) (b : UInt8) : Address family :=
  if 0 ≤ index then
    ⟨scratch.bytes.set index.toNat b, List.length_set.trans scratch.length_bytes⟩
  else scratch

/-- `Read` into the scratch address, from an index on. -/
def readInto (scratch : Address family) (index : Int) : Nat → Traced Event (Address family)
  | 0 => return scratch
  | n + 1 => do
    let b ← .of byte
    .emit fun _ => [.access family index]
    readInto (store scratch index b) (index + 1) n

def deserializeAddress (scratch : Address family) : Traced Event (Address family) := do
  .emit fun _ => (List.range family.size).map fun i : Nat => .access family i
  return scratch

/-- The size of `Read` has no sign. -/
def middle (family : Family) (headlen taillen : Nat) : Nat :=
  (((family.size : Int) - headlen - taillen) % 2 ^ 32).toNat

def readHead (family : Family) (flags : UInt8) : Traced Event (Nat × Address family) := do
  if hasFlag flags AHAS_HEAD then
    let headlen ← .of byte
    let scratch ← readInto (zeros family) 0 headlen.toNat
    return (headlen.toNat, scratch)
  else return (0, zeros family)

def hasTail (flags : UInt8) : Bool := hasFlag flags AHAS_FULL_TAIL != hasFlag flags AHAS_ZERO_TAIL

def readTail (flags : UInt8) (scratch : Address family) : Traced Event (Nat × Address family) := do
  if hasTail flags then
    let taillen ← .of byte
    if hasFlag flags AHAS_FULL_TAIL then
      let scratch ← readInto scratch (family.size - taillen.toNat) taillen.toNat
      return (taillen.toNat, scratch)
    else return (taillen.toNat, scratch)
  else return (0, scratch)

def readAddresses (scratch : Address family) (headlen mid : Nat) :
    Nat → Traced Event (List (Address family))
  | 0 => return []
  | n + 1 => do
    let scratch ← readInto scratch headlen mid
    let a ← deserializeAddress scratch
    let as ← readAddresses scratch headlen mid n
    return a :: as

def deserializeTlvBlock (fuel : Nat) : Traced Event (List PbbTlv) := do
  let size ← .of (word 2)
  let start ← .of position
  .within (.of PbbTlv.deserialize) start size fuel

def afterFlags (family : Family) (fuel : Nat) (numaddr flags : UInt8) :
    Traced Event (PbbAddressBlock family) := do
  if 0 < numaddr then
    let (headlen, scratch) ← readHead family flags
    let (taillen, scratch) ← readTail flags scratch
    let addressList ← readAddresses scratch headlen (middle family headlen taillen) numaddr.toNat
    let prefixList ← .of (PbbAddressBlock.readPrefixes flags numaddr.toNat)
    let addressTlvList ← deserializeTlvBlock fuel
    return { addressList, prefixList, addressTlvList }
  else
    let addressTlvList ← deserializeTlvBlock fuel
    return { addressTlvList }

def addressBlock (family : Family) (fuel : Nat) : Traced Event (PbbAddressBlock family) := do
  .emit fun it => [.block family it.rest]
  let numaddr ← .of byte
  let flags ← .of byte
  afterFlags family fuel numaddr flags

def message (family : Family) (fuel : Nat) : Traced Event PbbMessage := do
  let front ← .of position
  let type ← .of byte
  let flags ← .of byte
  let size ← .of (word 2)
  let originatorAddress ← .of (optional (hasFlag flags MHAS_ORIG)
    (PbbAddressBlock.deserializeAddress family [] []))
  let hopLimit ← .of (optional (hasFlag flags MHAS_HOP_LIMIT) byte)
  let hopCount ← .of (optional (hasFlag flags MHAS_HOP_COUNT) byte)
  let sequenceNumber ← .of (optional (hasFlag flags MHAS_SEQ_NUM) (word 2))
  let tlvList ← deserializeTlvBlock fuel
  let addressBlockList ← .within (addressBlock family fuel) front size fuel
  return { family, type, originatorAddress, hopLimit, hopCount,
           sequenceNumber := sequenceNumber.map UInt16.ofNat, tlvList, addressBlockList }

/-- `none` is the null pointer. -/
def deserializeMessage (fuel : Nat) : Traced Event (Option PbbMessage) := do
  let addrlen ← .of (lookahead do
    let _ ← byte
    byte)
  match PbbMessage.familyOf (addrlen &&& 0xf) with
  | some family => some <$> message family fuel
  | none => return none

def readTlvs (flags : UInt8) (fuel : Nat) : Traced Event (List PbbTlv) :=
  if hasFlag flags PHAS_TLV then deserializeTlvBlock fuel else return []

/-- `PbbPacket::Deserialize`, with at most `fuel` passes of each of its loops. -/
def packet (fuel : Nat) : Traced Event PbbPacket := do
  let flags ← .of byte
  let seqnum ← .of (optional (hasFlag flags PHAS_SEQ_NUM) (word 2))
  let tlvList ← readTlvs flags fuel
  let (messageList, whole) ← .loop (fun it => !it.rest.isEmpty) (deserializeMessage fuel) fuel
  return { version := if whole then flags >>> 4 else VERSION,
           seqnum := seqnum.map UInt16.ofNat, tlvList, messageList }

/-! ### Every loop ends -/

section Proceeds
variable {n fuel : Nat}

theorem takes_tlv : Takes 1 PbbTlv.deserialize := by
  refine Takes.byte.bind (k := 0) fun type => ?_
  refine Takes.byte.skip fun flags => ?_
  refine Takes.byte.optional.skip fun typeExt => ?_
  refine Takes.byte.optional.skip fun indexStart => ?_
  refine Takes.byte.optional.skip fun indexStop => ?_
  refine Takes.optional (k := 0) ?_ |>.skip fun value => Takes.pure _
  exact (Takes.word _).skip fun len => (Takes.bytes len).any

theorem takes_address : Takes 0 (PbbAddressBlock.deserializeAddress family [] []) :=
  (Takes.bytes _).skip fun _ => Takes.ofOption _

theorem takes_prefixes (flags : UInt8) (numaddr : Nat) :
    Takes 0 (PbbAddressBlock.readPrefixes flags numaddr) := by
  unfold PbbAddressBlock.readPrefixes
  split
  · exact Takes.byte.times 1
  · split
    · exact Takes.byte.times numaddr
    · exact Takes.pure []

theorem proceeds_readInto (count : Nat) : ∀ (scratch : Address family) (index : Int),
    Proceeds n 0 (readInto scratch index count) := by
  induction count with
  | zero =>
    intro scratch index
    exact Proceeds.pure scratch
  | succ count ih =>
    intro scratch index
    refine (Proceeds.of Takes.byte).skip fun b => ?_
    exact (Proceeds.emit _).skip fun _ => ih _ _

theorem proceeds_readHead (flags : UInt8) : Proceeds n 0 (readHead family flags) := by
  unfold readHead
  split
  · refine (Proceeds.of Takes.byte).skip fun headlen => ?_
    exact (proceeds_readInto _ _ _).skip fun _ => Proceeds.pure _
  · exact Proceeds.pure _

theorem proceeds_readTail (flags : UInt8) (scratch : Address family) :
    Proceeds n 0 (readTail flags scratch) := by
  unfold readTail
  split
  · refine (Proceeds.of Takes.byte).skip fun taillen => ?_
    split
    · exact (proceeds_readInto _ _ _).skip fun _ => Proceeds.pure _
    · exact Proceeds.pure _
  · exact Proceeds.pure _

theorem proceeds_readAddresses (headlen mid count : Nat) : ∀ scratch : Address family,
    Proceeds n 0 (readAddresses scratch headlen mid count) := by
  induction count with
  | zero =>
    intro scratch
    exact Proceeds.pure []
  | succ count ih =>
    intro scratch
    refine (proceeds_readInto _ _ _).skip fun scratch => ?_
    refine Proceeds.skip (j := 0) ?_ fun a => (ih scratch).skip fun _ => Proceeds.pure _
    exact (Proceeds.emit _).skip fun _ => Proceeds.pure scratch

variable (hfuel : n < fuel)
include hfuel

theorem proceeds_tlvBlock : Proceeds n 0 (deserializeTlvBlock fuel) := by
  refine (Proceeds.of (Takes.word 2)).skip fun size => ?_
  refine (Proceeds.of Takes.position).skip fun start => ?_
  exact (Proceeds.of takes_tlv).within hfuel

theorem proceeds_addressBlock : Proceeds n 1 (addressBlock family fuel) := by
  refine (Proceeds.emit _).skip fun _ => ?_
  refine (Proceeds.of Takes.byte).bind (k := 0) fun numaddr => ?_
  refine (Proceeds.of Takes.byte).skip fun flags => ?_
  unfold afterFlags
  split
  · refine (proceeds_readHead flags).skip fun head => ?_
    refine (proceeds_readTail flags head.2).skip fun tail => ?_
    refine (proceeds_readAddresses _ _ _ tail.2).skip fun as => ?_
    refine (Proceeds.of (takes_prefixes flags _)).skip fun prefixes => ?_
    exact (proceeds_tlvBlock hfuel).skip fun _ => Proceeds.pure _
  · exact (proceeds_tlvBlock hfuel).skip fun _ => Proceeds.pure _

theorem proceeds_message : Proceeds n 1 (message family fuel) := by
  refine (Proceeds.of Takes.position).skip fun front => ?_
  refine (Proceeds.of Takes.byte).bind (k := 0) fun type => ?_
  refine (Proceeds.of Takes.byte).skip fun flags => ?_
  refine (Proceeds.of (Takes.word 2)).skip fun size => ?_
  refine (Proceeds.of takes_address.optional).skip fun originator => ?_
  refine (Proceeds.of Takes.byte.optional).skip fun hopLimit => ?_
  refine (Proceeds.of Takes.byte.optional).skip fun hopCount => ?_
  refine (Proceeds.of (Takes.word 2).optional).skip fun sequenceNumber => ?_
  refine (proceeds_tlvBlock hfuel).skip fun tlvs => ?_
  exact ((proceeds_addressBlock hfuel).within hfuel).skip fun _ => Proceeds.pure _

theorem proceeds_deserializeMessage : Proceeds n 0 (deserializeMessage fuel) := by
  refine (Proceeds.of (Takes.lookahead _)).skip fun addrlen => ?_
  cases PbbMessage.familyOf (addrlen &&& 0xf) with
  | none => exact Proceeds.pure none
  | some family => exact (proceeds_message hfuel).skip fun _ => Proceeds.pure _

/-- A null pointer takes nothing, but ends the loop. -/
theorem length_lt_of_some {it mid : Iterator} {m : PbbMessage} (hit : it.rest.length ≤ n)
    (hm : (deserializeMessage fuel it).2 = .done (some m) mid) :
    mid.rest.length < it.rest.length := by
  obtain ⟨addrlen, ahead, hlook, hthen⟩ := Traced.bind_eq_done.mp hm
  obtain ⟨r, -, hr⟩ := Option.map_eq_some_iff.mp (Traced.of_eq_done.mp hlook)
  obtain ⟨-, rfl⟩ := Prod.mk.inj hr
  cases hfamily : PbbMessage.familyOf (addrlen &&& 0xf) with
  | none =>
    rw [hfamily] at hthen
    cases hthen
  | some family =>
    rw [hfamily] at hthen
    obtain ⟨m', mid', hmsg, hpure⟩ := Traced.bind_eq_done.mp hthen
    obtain ⟨-, rfl⟩ := Outcome.done.inj hpure
    have htaken := (proceeds_message hfuel : Proceeds _ 1 (message family _)) it hit
    rw [hmsg] at htaken
    exact htaken

theorem proceeds_packet : Proceeds n 0 (packet fuel) := by
  refine (Proceeds.of Takes.byte).skip fun flags => ?_
  refine (Proceeds.of (Takes.word 2).optional).skip fun seqnum => ?_
  have htlvs : Proceeds n 0 (readTlvs flags fuel) := by
    unfold readTlvs
    split
    · exact proceeds_tlvBlock hfuel
    · exact Proceeds.pure []
  refine htlvs.skip fun tlvs => ?_
  refine (Proceeds.loop (proceeds_deserializeMessage hfuel) ?_ hfuel).skip fun _ =>
    Proceeds.pure _
  intro it m mid hit hm
  exact length_lt_of_some hfuel hit hm

end Proceeds

/-! ### The indices -/

/-- No index is outside of the address. -/
def Inside : Event → Prop
  | .block _ _ => True
  | .access family index => 0 ≤ index ∧ index < family.size

/-- The length of the head that the bytes after the flags announce. -/
def headLength (flags : UInt8) (bytes : List UInt8) : Nat :=
  if hasFlag flags AHAS_HEAD then (bytes.headD 0).toNat else 0

def afterHead (flags : UInt8) (bytes : List UInt8) : List UInt8 :=
  if hasFlag flags AHAS_HEAD then bytes.drop (1 + headLength flags bytes) else bytes

def tailLength (flags : UInt8) (bytes : List UInt8) : Nat :=
  if hasTail flags then (bytes.headD 0).toNat else 0

/-- How many bytes from the tail on there are before one does not fit, when the parts do not. -/
def tailRoom (family : Family) (flags : UInt8) (headlen taillen : Nat) : Nat :=
  1 + if hasFlag flags AHAS_FULL_TAIL then
    if family.size < taillen then 0 else taillen + (family.size - headlen)
  else family.size - headlen

/-- Head and tail fit in, or the bytes end before one that does not. -/
def TailFits (family : Family) (flags : UInt8) (headlen : Nat) (bytes : List UInt8) : Prop :=
  headlen + tailLength flags bytes ≤ family.size ∨
    bytes.length ≤ tailRoom family flags headlen (tailLength flags bytes)

def LengthsFit (family : Family) : List UInt8 → Prop
  | numaddr :: flags :: bytes =>
    if numaddr = 0 then True
    else if family.size < headLength flags bytes then bytes.length ≤ 1 + family.size
    else TailFits family flags (headLength flags bytes) (afterHead flags bytes)
  | _ => True

/-- What is announced at the start of a block fits. -/
def Fits : Event → Prop
  | .block family bytes => LengthsFit family bytes
  | .access _ _ => True

section Inside
variable {flags : UInt8} {it : Iterator}

def Confined {α : Type} (read : Traced Event α) (it : Iterator) : Prop :=
  ∀ e ∈ (read it).1, Inside e

theorem confined_bind {α β : Type} {read : Traced Event α} {f : α → Traced Event β} :
    Confined (read >>= f) it ↔
      Confined read it ∧ ∀ a mid, (read it).2 = .done a mid → Confined (f a) mid :=
  Traced.forall_mem_bind

theorem confined_after {α β : Type} {read : Traced Event α} {f : α → Traced Event β} {a : α}
    {mid : Iterator} (h : (read it).2 = .done a mid) :
    Confined (read >>= f) it ↔ Confined read it ∧ Confined (f a) mid := by
  rw [confined_bind]
  apply and_congr_right
  intro _
  constructor
  · intro hf
    exact hf a mid h
  · intro hf b mid' hb
    obtain ⟨rfl, rfl⟩ := Outcome.done.inj (h.symm.trans hb)
    exact hf

theorem confined_failed {α β : Type} {read : Traced Event α} {f : α → Traced Event β}
    (h : ∀ a mid, (read it).2 ≠ .done a mid) : Confined (read >>= f) it ↔ Confined read it := by
  rw [confined_bind]
  exact and_iff_left fun a mid ha => absurd ha (h a mid)

theorem confined_pure {α : Type} (a : α) : Confined (return a) it := by
  intro e he
  cases he

theorem confined_of {α : Type} (read : Reader α) : Confined (.of read) it := by
  have h : Matches Inside (fun _ => True) (.of read) := Matches.of read
  exact (h it).mpr fun _ _ => trivial

theorem confined_tlvBlock (fuel : Nat) : Confined (deserializeTlvBlock fuel) it := by
  have h : Matches Inside (fun _ => True) (deserializeTlvBlock fuel) :=
    (Matches.of _).bind fun _ => (Matches.of _).bind fun _ => (Matches.of _).within
  exact (h it).mpr fun _ _ => trivial

theorem readInto_cons (n pos : Nat) (scratch : Address family) (index : Int) (b : UInt8)
    (bs : List UInt8) : readInto scratch index (n + 1) ⟨pos, b :: bs⟩ =
      Traced.andThen [.access family index]
        (readInto (store scratch index b) (index + 1) n ⟨pos + 1, bs⟩) := rfl

/-- As many bytes are stored as there are, and no more than `n`. -/
theorem confined_readInto (n : Nat) : ∀ (scratch : Address family) (index : Int) (it : Iterator),
    Confined (readInto scratch index n) it ↔
      min n it.rest.length = 0 ∨ 0 ≤ index ∧ index + min n it.rest.length ≤ family.size := by
  induction n with
  | zero =>
    intro scratch index it
    rw [Nat.zero_min]
    exact iff_of_true (confined_pure scratch) (Or.inl rfl)
  | succ n ih =>
    rintro scratch index ⟨pos, _ | ⟨b, bs⟩⟩
    · apply iff_of_true
      · intro e he
        cases he
      · exact Or.inl (Nat.min_zero _)
    · have hrest := ih (store scratch index b) (index + 1) ⟨pos + 1, bs⟩
      have hmin : min (n + 1) (b :: bs).length = min n bs.length + 1 := Nat.succ_min_succ n bs.length
      have hcons : Confined (readInto scratch index (n + 1)) ⟨pos, b :: bs⟩ ↔
          (0 ≤ index ∧ index < family.size) ∧
            Confined (readInto (store scratch index b) (index + 1) n) ⟨pos + 1, bs⟩ := by
        unfold Confined
        rw [readInto_cons]
        exact List.forall_mem_cons
      rw [hcons, hrest]
      change _ ↔ min (n + 1) (b :: bs).length = 0 ∨
        0 ≤ index ∧ index + (min (n + 1) (b :: bs).length : Nat) ≤ family.size
      rw [hmin]
      change _ ∧ (min n bs.length = 0 ∨ 0 ≤ index + 1 ∧
        index + 1 + (min n bs.length : Nat) ≤ family.size) ↔ _
      omega

theorem readInto_done (n : Nat) : ∀ {scratch s : Address family} {index : Int}
    {it mid : Iterator}, (readInto scratch index n it).2 = .done s mid →
      n ≤ it.rest.length ∧ mid.rest = it.rest.drop n := by
  induction n with
  | zero =>
    intro scratch s index it mid hdone
    obtain ⟨-, rfl⟩ := Outcome.done.inj hdone
    exact ⟨Nat.zero_le _, rfl⟩
  | succ n ih =>
    rintro scratch s index ⟨pos, _ | ⟨b, bs⟩⟩ mid hdone
    · cases hdone
    · obtain ⟨hle, hmid⟩ := ih hdone
      exact ⟨Nat.succ_le_succ hle, hmid⟩

theorem readInto_exists (n : Nat) : ∀ (scratch : Address family) (index : Int) (it : Iterator),
    n ≤ it.rest.length →
      ∃ s mid, (readInto scratch index n it).2 = .done s mid ∧ mid.rest = it.rest.drop n := by
  induction n with
  | zero =>
    intro scratch index it _
    exact ⟨scratch, it, rfl, rfl⟩
  | succ n ih =>
    rintro scratch index ⟨pos, _ | ⟨b, bs⟩⟩ hn
    · cases hn
    · exact ih (store scratch index b) (index + 1) ⟨pos + 1, bs⟩ (Nat.le_of_succ_le_succ hn)

theorem confined_load (scratch : Address family) : Confined (deserializeAddress scratch) it := by
  intro e he
  change e ∈ (List.range family.size).map (fun i : Nat => Event.access family i) ++ [] at he
  rw [List.append_nil] at he
  obtain ⟨i, hi, rfl⟩ := List.mem_map.mp he
  exact ⟨Int.natCast_nonneg i, Int.ofNat_lt.mpr (List.mem_range.mp hi)⟩

/-- The first address decides: the later ones find no more bytes. -/
theorem confined_readAddresses {scratch : Address family} {headlen mid count : Nat}
    (hcount : count ≠ 0) : Confined (readAddresses scratch headlen mid count) it ↔
      min mid it.rest.length = 0 ∨ headlen + min mid it.rest.length ≤ family.size := by
  constructor
  · intro h
    obtain ⟨n, rfl⟩ := Nat.exists_eq_succ_of_ne_zero hcount
    have hfirst := (confined_readInto mid scratch headlen it).mp (confined_bind.mp h).1
    omega
  · clear hcount
    induction count generalizing scratch it with
    | zero => exact fun _ => confined_pure []
    | succ count ih =>
      intro h
      apply confined_bind.mpr
      constructor
      · apply (confined_readInto mid scratch headlen it).mpr
        omega
      · intro s it' hdone
        obtain ⟨hle, hrest⟩ := readInto_done mid hdone
        apply confined_bind.mpr
        refine ⟨confined_load s, ?_⟩
        intro a it'' hload
        obtain ⟨-, rfl⟩ := Outcome.done.inj hload
        apply confined_bind.mpr
        refine ⟨ih ?_, fun _ _ _ => confined_pure _⟩
        rw [hrest]
        omega

/-- Lengths that do not fit leave a middle of nearly 2^32 bytes. -/
theorem confined_middles {scratch : Address family} {headlen taillen count : Nat}
    (hcount : count ≠ 0) (hhead : headlen ≤ family.size) (htail : taillen < 256) :
    Confined (readAddresses scratch headlen (middle family headlen taillen) count) it ↔
      headlen + taillen ≤ family.size ∨ it.rest.length ≤ family.size - headlen := by
  have hsize : family.size ≤ 16 := by cases family <;> decide
  rw [confined_readAddresses hcount]
  have hmid : middle family headlen taillen =
      (((family.size : Int) - headlen - taillen) % 2 ^ 32).toNat := rfl
  by_cases hfit : headlen + taillen ≤ family.size
  · have hsmall : middle family headlen taillen = family.size - headlen - taillen := by omega
    rw [hsmall]
    omega
  · have hbig : 2 ^ 32 - 512 ≤ middle family headlen taillen := by omega
    omega

theorem byte_bind {α : Type} (f : UInt8 → Traced Event α) (pos : Nat) (b : UInt8)
    (bs : List UInt8) : (Traced.of byte >>= f) ⟨pos, b :: bs⟩ = f b ⟨pos + 1, bs⟩ := rfl

/-- A full tail is stored at the end of the address. -/
theorem readTail_full (scratch : Address family) (pos : Nat) (b : UInt8) (bs : List UInt8)
    (htail : hasTail flags = true) (hfull : hasFlag flags AHAS_FULL_TAIL = true) :
    readTail flags scratch ⟨pos, b :: bs⟩ =
      (do
        let s ← readInto scratch (family.size - b.toNat) b.toNat
        return (b.toNat, s) : Traced Event (Nat × Address family)) ⟨pos + 1, bs⟩ := by
  unfold readTail
  rw [if_pos htail, byte_bind, if_pos hfull]

theorem confined_readTail (scratch : Address family) (pos : Nat) (b : UInt8) (bs : List UInt8)
    (htail : hasTail flags = true) (hfull : hasFlag flags AHAS_FULL_TAIL = true) :
    Confined (readTail flags scratch) ⟨pos, b :: bs⟩ ↔
      min b.toNat bs.length = 0 ∨ b.toNat ≤ family.size := by
  have hread := confined_readInto b.toNat scratch (family.size - b.toNat) ⟨pos + 1, bs⟩
  change _ ↔ min b.toNat bs.length = 0 ∨ 0 ≤ (family.size : Int) - b.toNat ∧
    (family.size : Int) - b.toNat + (min b.toNat bs.length : Nat) ≤ family.size at hread
  rw [Confined, readTail_full scratch pos b bs htail hfull]
  refine confined_bind.trans ?_
  rw [and_iff_left fun s mid _ => confined_pure _, hread]
  omega

variable {α : Type} {scratch : Address family} {headlen count : Nat}
variable {g : Nat × Address family → List (Address family) → Traced Event α}

theorem confined_tail (hcount : count ≠ 0) (hhead : headlen ≤ family.size)
    (hg : ∀ t as it, Confined (g t as) it) :
    Confined (do
      let t ← readTail flags scratch
      let as ← readAddresses t.2 headlen (middle family headlen t.1) count
      g t as) it ↔ TailFits family flags headlen it.rest := by
  have haddresses (t : Nat × Address family) (ht : t.1 < 256) (it : Iterator) :
      Confined (readAddresses t.2 headlen (middle family headlen t.1) count >>= g t) it ↔
        headlen + t.1 ≤ family.size ∨ it.rest.length ≤ family.size - headlen := by
    rw [confined_bind, confined_middles hcount hhead ht]
    exact and_iff_left fun as mid _ => hg t as mid
  unfold TailFits tailRoom tailLength
  by_cases htail : hasTail flags = true
  · rw [if_pos htail]
    obtain ⟨pos, _ | ⟨b, bs⟩⟩ := it
    · -- the length itself is missing
      have hnil : readTail flags scratch ⟨pos, []⟩ = ([], .aborted) := by
        unfold readTail
        rw [if_pos htail]
        rfl
      rw [confined_failed (by simp [hnil]), Confined, hnil]
      exact iff_of_true (by simp) (Or.inl hhead)
    · have hb : b.toNat < 256 := b.toNat_lt
      change _ ↔ headlen + b.toNat ≤ family.size ∨ bs.length + 1 ≤
        1 + if hasFlag flags AHAS_FULL_TAIL = true then
          if family.size < b.toNat then 0 else b.toNat + (family.size - headlen)
        else family.size - headlen
      by_cases hfull : hasFlag flags AHAS_FULL_TAIL = true
      · rw [if_pos hfull]
        have hread := readTail_full scratch pos b bs htail hfull
        by_cases hle : b.toNat ≤ bs.length
        · obtain ⟨s, mid, hdone, hmid⟩ := readInto_exists b.toNat scratch
            (family.size - b.toNat) ⟨pos + 1, bs⟩ hle
          have hlen : mid.rest.length = bs.length - b.toNat := by
            rw [hmid, List.length_drop]
          have htaken : (readTail flags scratch ⟨pos, b :: bs⟩).2 = .done (b.toNat, s) mid := by
            rw [hread]
            exact Traced.bind_eq_done.mpr ⟨s, mid, hdone, rfl⟩
          rw [confined_after htaken, confined_readTail scratch pos b bs htail hfull,
            haddresses (b.toNat, s) hb mid, hlen, Nat.min_eq_left hle]
          split
          · omega
          · omega
        · have hfailed : ∀ t mid, (readTail flags scratch ⟨pos, b :: bs⟩).2 ≠ .done t mid := by
            intro t mid ht
            rw [hread] at ht
            obtain ⟨s, mid', hdone, -⟩ := Traced.bind_eq_done.mp ht
            exact hle (readInto_done b.toNat hdone).1
          rw [confined_failed hfailed, confined_readTail scratch pos b bs htail hfull,
            Nat.min_eq_right (Nat.le_of_not_le hle)]
          split
          · omega
          · omega
      · have hzero : readTail flags scratch ⟨pos, b :: bs⟩ =
            ([], .done (b.toNat, scratch) ⟨pos + 1, bs⟩) := by
          unfold readTail
          rw [if_pos htail, byte_bind, if_neg hfull]
          rfl
        rw [if_neg hfull, confined_after (by rw [hzero]), haddresses (b.toNat, scratch) hb, Confined,
          hzero]
        change (∀ e ∈ [], Inside e) ∧ (headlen + b.toNat ≤ family.size ∨
          bs.length ≤ family.size - headlen) ↔ _
        simp only [List.not_mem_nil, false_implies, implies_true, true_and]
        omega
  · have hskip : readTail flags scratch it = ([], .done (0, scratch) it) := by
      unfold readTail
      rw [if_neg htail]
      rfl
    rw [if_neg htail, confined_after (by rw [hskip]),
      haddresses (0, scratch) (Nat.zero_lt_succ 255), Confined, hskip]
    apply iff_of_true
    · exact ⟨by simp, Or.inl hhead⟩
    · exact Or.inl hhead

theorem readHead_cons (pos : Nat) (b : UInt8) (bs : List UInt8)
    (hhead : hasFlag flags AHAS_HEAD = true) :
    readHead family flags ⟨pos, b :: bs⟩ =
      (do
        let s ← readInto (zeros family) 0 b.toNat
        return (b.toNat, s) : Traced Event (Nat × Address family)) ⟨pos + 1, bs⟩ := by
  unfold readHead
  rw [if_pos hhead, byte_bind]

theorem confined_readHead (pos : Nat) (b : UInt8) (bs : List UInt8)
    (hhead : hasFlag flags AHAS_HEAD = true) :
    Confined (readHead family flags) ⟨pos, b :: bs⟩ ↔ min b.toNat bs.length ≤ family.size := by
  have hread := confined_readInto b.toNat (zeros family) 0 ⟨pos + 1, bs⟩
  change _ ↔ min b.toNat bs.length = 0 ∨ 0 ≤ (0 : Int) ∧
    (0 : Int) + (min b.toNat bs.length : Nat) ≤ family.size at hread
  rw [Confined, readHead_cons pos b bs hhead]
  refine confined_bind.trans ?_
  rw [and_iff_left fun s mid _ => confined_pure _, hread]
  omega

theorem tailFits_nil (hhead : headlen ≤ family.size) : TailFits family flags headlen [] := by
  apply Or.inl
  unfold tailLength
  split
  · exact hhead
  · exact hhead

theorem confined_head (hcount : count ≠ 0) (hg : ∀ t as it, Confined (g t as) it) :
    Confined (do
      let h ← readHead family flags
      let t ← readTail flags h.2
      let as ← readAddresses t.2 h.1 (middle family h.1 t.1) count
      g t as) it ↔
      if family.size < headLength flags it.rest then it.rest.length ≤ 1 + family.size
      else TailFits family flags (headLength flags it.rest) (afterHead flags it.rest) := by
  unfold afterHead headLength
  by_cases hhead : hasFlag flags AHAS_HEAD = true
  · rw [if_pos hhead, if_pos hhead]
    obtain ⟨pos, _ | ⟨b, bs⟩⟩ := it
    · have hnil : readHead family flags ⟨pos, []⟩ = ([], .aborted) := by
        unfold readHead
        rw [if_pos hhead]
        rfl
      rw [confined_failed (by simp [hnil]), Confined, hnil]
      apply iff_of_true
      · simp
      · exact tailFits_nil (Nat.zero_le _)
    · have hread : readHead family flags ⟨pos, b :: bs⟩ = _ := readHead_cons pos b bs hhead
      have hdrop : (b :: bs).drop (1 + b.toNat) = bs.drop b.toNat := by
        rw [Nat.add_comm, List.drop_succ_cons]
      change _ ↔ if family.size < b.toNat then bs.length + 1 ≤ 1 + family.size
        else TailFits family flags b.toNat ((b :: bs).drop (1 + b.toNat))
      rw [hdrop]
      by_cases hle : b.toNat ≤ bs.length
      · obtain ⟨s, mid, hdone, hmid⟩ := readInto_exists b.toNat (zeros family) 0 ⟨pos + 1, bs⟩ hle
        have htaken : (readHead family flags ⟨pos, b :: bs⟩).2 = .done (b.toNat, s) mid := by
          rw [hread]
          exact Traced.bind_eq_done.mpr ⟨s, mid, hdone, rfl⟩
        rw [confined_after htaken, confined_readHead pos b bs hhead, Nat.min_eq_left hle]
        by_cases hbig : family.size < b.toNat
        · rw [if_pos hbig]
          omega
        · rw [if_neg hbig, confined_tail hcount (Nat.le_of_not_lt hbig) hg, hmid]
          exact and_iff_right (Nat.le_of_not_lt hbig)
      · have hfailed : ∀ h mid, (readHead family flags ⟨pos, b :: bs⟩).2 ≠ .done h mid := by
          intro h mid hh
          rw [hread] at hh
          obtain ⟨s, mid', hdone, -⟩ := Traced.bind_eq_done.mp hh
          exact hle (readInto_done b.toNat hdone).1
        rw [confined_failed hfailed, confined_readHead pos b bs hhead,
          Nat.min_eq_right (Nat.le_of_not_le hle)]
        by_cases hbig : family.size < b.toNat
        · rw [if_pos hbig]
          omega
        · rw [if_neg hbig, List.drop_of_length_le (Nat.le_of_not_le hle)]
          apply iff_of_true
          · omega
          · exact tailFits_nil (Nat.le_of_not_lt hbig)
  · have hskip : readHead family flags it = ([], .done (0, zeros family) it) := by
      unfold readHead
      rw [if_neg hhead]
      rfl
    rw [if_neg hhead, if_neg hhead, if_neg (Nat.not_lt_zero _), confined_after (by rw [hskip]),
      confined_tail hcount (Nat.zero_le _) hg, Confined, hskip]
    exact and_iff_right (by simp)

end Inside

theorem confined_afterFlags (fuel : Nat) (numaddr flags : UInt8) (it : Iterator) :
    Confined (afterFlags family fuel numaddr flags) it ↔
      if numaddr = 0 then True
      else if family.size < headLength flags it.rest then it.rest.length ≤ 1 + family.size
      else TailFits family flags (headLength flags it.rest) (afterHead flags it.rest) := by
  have hrest (block : List PbbTlv → PbbAddressBlock family) (it : Iterator) :
      Confined (do
        let addressTlvList ← deserializeTlvBlock fuel
        return block addressTlvList) it :=
    confined_bind.mpr ⟨confined_tlvBlock fuel, fun _ _ _ => confined_pure _⟩
  unfold afterFlags
  by_cases hnone : numaddr = 0
  · subst hnone
    rw [if_neg (by decide), if_pos rfl]
    exact iff_of_true (hrest _ it) trivial
  · have hpos : 0 < numaddr := UInt8.pos_iff_ne_zero.mpr hnone
    have hcount : numaddr.toNat ≠ 0 := fun h => hnone (UInt8.toNat_inj.mp h)
    rw [if_pos hpos, if_neg hnone]
    refine confined_head hcount fun t as it' => ?_
    refine confined_bind.mpr ⟨confined_of _, ?_⟩
    exact fun _ mid _ => hrest _ mid

/-- What the decoder of an address block does to its scratch address. -/
theorem confined_addressBlock (fuel : Nat) (it : Iterator) :
    Confined (addressBlock family fuel) it ↔ LengthsFit family it.rest := by
  obtain ⟨pos, _ | ⟨numaddr, _ | ⟨flags, bytes⟩⟩⟩ := it
  · refine iff_of_true ?_ trivial
    exact List.forall_mem_singleton.mpr trivial
  · refine iff_of_true ?_ trivial
    exact List.forall_mem_singleton.mpr trivial
  · have hafter : Confined (afterFlags family fuel numaddr flags) ⟨pos + 1 + 1, bytes⟩ ↔ _ :=
      confined_afterFlags fuel numaddr flags ⟨pos + 1 + 1, bytes⟩
    refine Iff.trans ?_ hafter
    exact List.forall_mem_cons.trans (and_iff_right trivial)

/-! ### Whole packets -/

/-- Nothing is announced while an index is used. -/
theorem announces_access (index : Int) : Matches Fits (fun _ => True)
    (.emit fun _ => [.access family index]) :=
  Matches.emit fun _ e he => by rw [List.mem_singleton.mp he, Fits]

theorem announces_readInto (count : Nat) : ∀ (scratch : Address family) (index : Int),
    Matches Fits (fun _ => True) (readInto scratch index count) := by
  induction count with
  | zero =>
    intro scratch index
    exact Matches.pure scratch
  | succ count ih =>
    intro scratch index
    exact (Matches.of _).bind fun b => (announces_access index).bind fun _ => ih _ _

theorem announces_readHead (flags : UInt8) :
    Matches Fits (fun _ => True) (readHead family flags) := by
  unfold readHead
  split
  · exact (Matches.of _).bind fun _ => (announces_readInto _ _ _).bind fun _ => Matches.pure _
  · exact Matches.pure _

theorem announces_readTail (flags : UInt8) (scratch : Address family) :
    Matches Fits (fun _ => True) (readTail flags scratch) := by
  unfold readTail
  split
  · apply (Matches.of _).bind
    intro taillen
    split
    · exact (announces_readInto _ _ _).bind fun _ => Matches.pure _
    · exact Matches.pure _
  · exact Matches.pure _

theorem announces_readAddresses (headlen mid count : Nat) : ∀ scratch : Address family,
    Matches Fits (fun _ => True) (readAddresses scratch headlen mid count) := by
  have hload : ∀ scratch : Address family,
      Matches Fits (fun _ => True) (deserializeAddress scratch) := by
    intro scratch
    refine Matches.bind (Matches.emit ?_) fun _ => Matches.pure scratch
    intro it e he
    obtain ⟨i, -, rfl⟩ := List.mem_map.mp he
    rfl
  induction count with
  | zero =>
    intro scratch
    exact Matches.pure []
  | succ count ih =>
    intro scratch
    refine (announces_readInto _ _ _).bind fun scratch => ?_
    exact (hload scratch).bind fun _ => (ih scratch).bind fun _ => Matches.pure _

theorem matches_tlvBlock {P Q : Event → Prop} (fuel : Nat) :
    Matches P Q (deserializeTlvBlock fuel) :=
  (Matches.of _).bind fun _ => (Matches.of _).bind fun _ => (Matches.of _).within

theorem announces_afterFlags (fuel : Nat) (numaddr flags : UInt8) :
    Matches Fits (fun _ => True) (afterFlags family fuel numaddr flags) := by
  unfold afterFlags
  split
  · refine (announces_readHead flags).bind fun head => ?_
    refine (announces_readTail flags head.2).bind fun tail => ?_
    refine (announces_readAddresses _ _ _ tail.2).bind fun as => ?_
    exact (Matches.of _).bind fun _ => (matches_tlvBlock fuel).bind fun _ => Matches.pure _
  · exact (matches_tlvBlock fuel).bind fun _ => Matches.pure _

/-- The indices of a block stay inside just when what it announces fits. -/
theorem matches_addressBlock (fuel : Nat) : Matches Inside Fits (addressBlock family fuel) := by
  intro it
  have hafter : Matches Fits (fun _ => True) (do
      let numaddr ← .of byte
      let flags ← .of byte
      afterFlags family fuel numaddr flags) :=
    (Matches.of _).bind fun _ => (Matches.of _).bind fun _ => announces_afterFlags fuel _ _
  have hfits : (∀ e ∈ (addressBlock family fuel it).1, Fits e) ↔ LengthsFit family it.rest :=
    List.forall_mem_cons.trans (and_iff_left ((hafter it).mpr fun _ _ => trivial))
  exact (confined_addressBlock fuel it).trans hfits.symm

theorem matches_message (fuel : Nat) : Matches Inside Fits (message family fuel) := by
  refine (Matches.of _).bind fun front => (Matches.of _).bind fun type => ?_
  refine (Matches.of _).bind fun flags => (Matches.of _).bind fun size => ?_
  refine (Matches.of _).bind fun originator => (Matches.of _).bind fun hopLimit => ?_
  refine (Matches.of _).bind fun hopCount => (Matches.of _).bind fun sequenceNumber => ?_
  refine (matches_tlvBlock fuel).bind fun tlvs => ?_
  exact (matches_addressBlock fuel).within.bind fun _ => Matches.pure _

theorem matches_packet (fuel : Nat) : Matches Inside Fits (packet fuel) := by
  have hmessage : Matches Inside Fits (deserializeMessage fuel) := by
    apply (Matches.of _).bind
    intro addrlen
    cases PbbMessage.familyOf (addrlen &&& 0xf) with
    | none => exact Matches.pure none
    | some family => exact (matches_message fuel).bind fun _ => Matches.pure _
  have htlvs (flags : UInt8) : Matches Inside Fits (readTlvs flags fuel) := by
    unfold readTlvs
    split
    · exact matches_tlvBlock fuel
    · exact Matches.pure []
  refine (Matches.of _).bind fun flags => (Matches.of _).bind fun seqnum => ?_
  exact (htlvs flags).bind fun _ => (hmessage.loop fuel).bind fun _ => Matches.pure _

/-- One message of IPv4, and in it an address block with a head of five bytes. -/
def longHead : List UInt8 := [0, 1, 3, 0, 16, 0, 0, 1, AHAS_HEAD, 5, 10, 0, 0, 1, 2]

end Scratch
end CudaNs3.Network.PacketBB
