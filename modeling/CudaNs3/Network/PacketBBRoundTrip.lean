import CudaNs3.Network.PacketBBHeadTail

/-!
# What the PacketBB codec brings back

`Deserialize` makes of the bytes of a packet what can be said part by part: TLVs lose the flag for
multiple values, and addresses are put together from a head, a tail and their own bytes. A packet
comes back as it was exactly when nothing is lost in this way.
-/

namespace CudaNs3.Network.PacketBB

open Affixes Readers Words
set_option autoImplicit false

/-! ### Sizes -/

theorem ofNat_length_elim {α : Type} (o : Option α) (f : α → UInt8) :
    UInt32.ofNat (o.elim [] fun a => [f a]).length = if o.isSome then 1 else 0 := by
  cases o <;> rfl

theorem sum_sizes {α β : Type} {l : List α} {size : α → UInt32} {enc : α → List β}
    (h : ∀ x ∈ l, size x = .ofNat (enc x).length) :
    (l.map size).sum = .ofNat (l.flatMap enc).length := by
  induction l with
  | nil => rfl
  | cons x l ih =>
    rw [List.map_cons, List.sum_cons, List.flatMap_cons, List.length_append, UInt32.ofNat_add,
      h x List.mem_cons_self, ih fun y hy => h y (List.mem_cons_of_mem x hy)]

/-! ### TLVs -/

namespace PbbTlv

variable {t : PbbTlv} {tlvs : List PbbTlv} {pos : Nat}

/-- The order in which the fields are set, and a length that fits. -/
structure Proper (t : PbbTlv) : Prop where
  indexStop : t.indexStop.isSome → t.indexStart.isSome
  multivalue : t.isMultivalue → t.value.isSome
  length_lt : ∀ v ∈ t.value, v.length < 65536

/-- What is read again of a TLV. -/
def readBack (t : PbbTlv) : PbbTlv := { t with isMultivalue := false }

theorem readBack_eq_self_iff : t.readBack = t ↔ t.isMultivalue = false := by
  constructor
  · intro h
    rw [← h]
    rfl
  · intro h
    cases t
    simp_all [readBack]

theorem hasFlag_flags (ext start stop value long multi : Bool) :
    let flags := flag ext THAS_TYPE_EXT ||| flag (start && stop) THAS_MULTI_INDEX |||
      flag (start && !stop) THAS_SINGLE_INDEX ||| flag value THAS_VALUE |||
      flag long THAS_EXT_LEN ||| flag multi TIS_MULTIVALUE
    hasFlag flags THAS_TYPE_EXT = ext ∧ hasFlag flags THAS_MULTI_INDEX = (start && stop) ∧
      hasFlag flags THAS_SINGLE_INDEX = (start && !stop) ∧ hasFlag flags THAS_VALUE = value ∧
      hasFlag flags THAS_EXT_LEN = long := by
  revert ext start stop value long multi
  decide +kernel

theorem serialize_eq (h : t.Proper) : t.serialize =
    [t.type] ++ ([t.flags] ++ (t.typeExt.elim [] ([·]) ++ (t.indexStart.elim [] ([·]) ++
      (t.indexStop.elim [] ([·]) ++
        t.value.elim [] fun v => toBytes (if 255 < v.length then 2 else 1) v.length ++ v)))) := by
  have hstop := h.indexStop
  unfold serialize
  cases hstart : t.indexStart with
  | none =>
    rw [hstart] at hstop
    cases hend : t.indexStop with
    | none => simp
    | some stop => simp [hend] at hstop
  | some start => simp

theorem Proper.reads (h : t.Proper) (pos : Nat) :
    Reads pos deserialize t.serialize (some t.readBack) := by
  obtain ⟨hext, hmulti, hsingle, hvalue, hlong⟩ := hasFlag_flags t.typeExt.isSome
    t.indexStart.isSome t.indexStop.isSome t.value.isSome (t.value.any (255 < ·.length))
    (t.value.isSome && t.isMultivalue)
  rw [serialize_eq h]
  refine (Reads.byte t.type).seq ?_
  refine (Reads.byte t.flags).seq ?_
  refine (Reads.optional hext fun a _ => Reads.byte a).seq ?_
  refine (Reads.optional ?_ fun a _ => Reads.byte a).seq ?_
  · rw [show hasFlag t.flags THAS_MULTI_INDEX = _ from hmulti,
      show hasFlag t.flags THAS_SINGLE_INDEX = _ from hsingle]
    cases t.indexStart <;> cases t.indexStop <;> rfl
  refine (Reads.optional ?_ fun a _ => Reads.byte a).seq ?_
  · rw [show hasFlag t.flags THAS_MULTI_INDEX = _ from hmulti]
    have hstop := h.indexStop
    revert hstop
    cases t.indexStart <;> cases t.indexStop <;> simp
  refine (Reads.optional hvalue fun v hv => ?_).map
  have hlen := h.length_lt v hv
  rw [show hasFlag t.flags THAS_EXT_LEN = _ from hlong, Option.mem_def.mp hv]
  simp only [Option.any_some, decide_eq_true_eq]
  refine (Reads.word ?_).seq (Reads.bytes rfl)
  split <;> omega

theorem serialize_ne_nil (t : PbbTlv) : t.serialize ≠ [] := by simp [serialize]

theorem getSerializedSize_eq (h : t.Proper) :
    t.getSerializedSize = .ofNat t.serialize.length := by
  have hvalue : UInt32.ofNat (t.value.elim [] fun v =>
      toBytes (if 255 < v.length then 2 else 1) v.length ++ v).length =
      t.value.elim 0 fun v => (if 255 < v.length then 2 else 1) + UInt32.ofNat v.length := by
    cases t.value with
    | none => rfl
    | some v =>
      rw [Option.elim_some, Option.elim_some, List.length_append, length_toBytes,
        UInt32.ofNat_add]
      by_cases hlong : 255 < v.length
      · rw [if_pos hlong, if_pos hlong]
        rfl
      · rw [if_neg hlong, if_neg hlong]
        rfl
  rw [serialize_eq h, getSerializedSize, ← hvalue]
  simp only [List.length_append, List.length_singleton, UInt32.ofNat_add, ofNat_length_elim]
  rw [show (2 : UInt32) = .ofNat 1 + .ofNat 1 from rfl]
  ac_rfl

end PbbTlv

/-! ### TLV blocks -/

/-- The TLVs of a block, with the length that goes in front of them. -/
structure TlvsProper (tlvs : List PbbTlv) : Prop where
  proper : ∀ t ∈ tlvs, t.Proper
  length_lt : (tlvs.flatMap PbbTlv.serialize).length < 65536

section TlvBlocks

variable {tlvs : List PbbTlv} {pos : Nat}

theorem serializeTlvBlock_eq (tlvs : List PbbTlv) : serializeTlvBlock tlvs =
    toBytes 2 (tlvs.flatMap PbbTlv.serialize).length ++ tlvs.flatMap PbbTlv.serialize := by
  cases tlvs <;> simp [serializeTlvBlock]

theorem mapM_some {α β : Type} (f : α → β) (l : List α) :
    l.mapM (fun x => some (f x)) = some (l.map f) := by
  induction l with
  | nil => rfl
  | cons x l ih => simp [ih]

theorem reads_tlvBlock (h : TlvsProper tlvs) :
    Reads pos deserializeTlvBlock (serializeTlvBlock tlvs)
      (some (tlvs.map PbbTlv.readBack)) := by
  rw [serializeTlvBlock_eq, ← mapM_some]
  refine (Reads.word h.length_lt).seq ?_
  apply Reads.position
  exact Reads.within (fun t ht => (h.proper t ht).reads) (fun t _ => t.serialize_ne_nil)
    (Nat.le_refl _) rfl (Nat.le_refl _)

theorem tlvBlockSize_eq (h : TlvsProper tlvs) :
    tlvBlockSize tlvs = .ofNat (serializeTlvBlock tlvs).length := by
  rw [tlvBlockSize, serializeTlvBlock_eq, List.length_append, length_toBytes, UInt32.ofNat_add,
    sum_sizes fun t ht => PbbTlv.getSerializedSize_eq (h.proper t ht)]
  rfl

end TlvBlocks

/-! ### Address blocks -/

namespace PbbAddressBlock

variable {family : Family} {b : PbbAddressBlock family} {first second a : Address family}
  {rest : List (Address family)} {s : HeadTail} {pos : Nat}

/-- Lengths that fit, and one of the three numbers of prefixes. -/
structure Proper (b : PbbAddressBlock family) : Prop where
  addresses : b.addressList.length ≤ 255
  prefixes : b.prefixList.length = 0 ∨ b.prefixList.length = 1 ∨
    b.prefixList.length = b.addressList.length
  tlvs : TlvsProper b.addressTlvList

/-- What is read again of a block, unless that fails. -/
def readBack (b : PbbAddressBlock family) : Option (PbbAddressBlock family) :=
  (match b.addressList with
    | first :: second :: rest =>
      (first :: second :: rest).mapM (rebuilt (getHeadTail family first (second :: rest)))
    | as => some as).map fun as =>
      { b with addressList := as, addressTlvList := b.addressTlvList.map PbbTlv.readBack }

theorem hasFlag_flags (head zero full : Bool) {prefixFlags : UInt8}
    (h : prefixFlags ∈ [0, AHAS_SINGLE_PRE_LEN, AHAS_MULTI_PRE_LEN]) :
    let flags := flag head AHAS_HEAD ||| flag zero AHAS_ZERO_TAIL ||| flag full AHAS_FULL_TAIL |||
      prefixFlags
    hasFlag flags AHAS_HEAD = head ∧ hasFlag flags AHAS_ZERO_TAIL = zero ∧
      hasFlag flags AHAS_FULL_TAIL = full ∧
      hasFlag flags AHAS_SINGLE_PRE_LEN = (prefixFlags == AHAS_SINGLE_PRE_LEN) ∧
      hasFlag flags AHAS_MULTI_PRE_LEN = (prefixFlags == AHAS_MULTI_PRE_LEN) := by
  simp only [List.mem_cons, List.not_mem_nil, or_false] at h
  rcases h with rfl | rfl | rfl
  all_goals
    revert head zero full
    decide +kernel

theorem reads_times_byte {l : List UInt8} {n : Nat} (hn : l.length = n) :
    Reads pos (times byte n) l (some l) := by
  have h : Reads pos (times byte n) (l.flatMap fun b => [b]) (l.mapM fun b => some (id b)) :=
    Reads.times (fun b _ _ => Reads.byte b) hn
  rw [mapM_some, List.map_id, List.flatMap_singleton'] at h
  exact h

theorem reads_head {flags : UInt8} (hflag : hasFlag flags AHAS_HEAD = decide (0 < s.headlen))
    (hlen : (head s).length = s.headlen) (hlt : s.headlen < 256) :
    Reads pos (readHead flags) (writeHead s) (some (head s)) := by
  unfold readHead writeHead
  rw [hflag]
  by_cases h : 0 < s.headlen
  · rw [if_pos (decide_eq_true h), if_pos h]
    refine (Reads.byte _).seq (Reads.bytes ?_)
    rw [hlen, UInt8.toNat_ofNat_of_lt' hlt]
  · have hnil : head s = [] := List.length_eq_zero_iff.mp (by omega)
    rw [if_neg (by simpa using h), if_neg h, hnil]
    exact Reads.pure []

theorem eq_replicate_of_hasZeroTail {l : List UInt8} (h : hasZeroTail l = true) :
    l = List.replicate l.length 0 := by
  refine List.eq_replicate_of_mem fun b hb => ?_
  simpa using List.all_eq_true.mp h b hb

theorem reads_tail {flags : UInt8}
    (hzero : hasFlag flags AHAS_ZERO_TAIL =
      (decide (0 < s.taillen) && hasZeroTail (tail family s)))
    (hfull : hasFlag flags AHAS_FULL_TAIL =
      (decide (0 < s.taillen) && !hasZeroTail (tail family s)))
    (hlen : (tail family s).length = s.taillen) (hlt : s.taillen < 256) :
    Reads pos (readTail flags) (writeTail family s) (some (tail family s)) := by
  unfold readTail writeTail
  rw [hzero, hfull]
  by_cases h : 0 < s.taillen
  · rw [if_pos h, decide_eq_true h]
    cases hz : hasZeroTail (tail family s) with
    | false =>
      simp only [Bool.false_eq_true, if_false]
      refine (Reads.byte _).seq (Reads.bytes ?_)
      rw [hlen, UInt8.toNat_ofNat_of_lt' hlt]
    | true =>
      refine (Reads.byte _).seq ?_
      rw [UInt8.toNat_ofNat_of_lt' hlt, ← hlen, ← eq_replicate_of_hasZeroTail hz]
      exact Reads.pure _
  · have hnil : tail family s = [] := List.length_eq_zero_iff.mp (by omega)
    rw [if_neg h, decide_eq_false h, hnil]
    exact Reads.pure []

theorem getPrefixFlags_mem :
    b.getPrefixFlags ∈ [0, AHAS_SINGLE_PRE_LEN, AHAS_MULTI_PRE_LEN] := by
  unfold getPrefixFlags
  split <;> simp

theorem reads_prefixes {flags : UInt8} (h : b.Proper)
    (hsingle : hasFlag flags AHAS_SINGLE_PRE_LEN = (b.getPrefixFlags == AHAS_SINGLE_PRE_LEN))
    (hmulti : hasFlag flags AHAS_MULTI_PRE_LEN = (b.getPrefixFlags == AHAS_MULTI_PRE_LEN)) :
    Reads pos (readPrefixes flags b.addressList.length) b.prefixList (some b.prefixList) := by
  unfold readPrefixes
  rw [hsingle, hmulti]
  unfold getPrefixFlags
  split
  · rename_i hnone
    rw [List.length_eq_zero_iff.mp hnone]
    exact Reads.pure []
  · rename_i hone
    exact reads_times_byte hone
  · rename_i hzero hone
    rcases h.prefixes with hlen | hlen | hlen
    · exact absurd hlen hzero
    · exact absurd hlen hone
    · exact reads_times_byte hlen

theorem writeMids_eq (s : HeadTail) (addresses : List (Address family)) :
    writeMids s addresses = addresses.flatMap fun a =>
      (a.bytes.drop s.headlen).take (family.size - s.headlen - s.taillen) := by
  unfold writeMids
  split
  · rfl
  · have hzero : family.size - s.headlen - s.taillen = 0 := by omega
    simp [hzero]

theorem reads_address (hhead : (head s).length = s.headlen)
    (htail : (tail family s).length = s.taillen) :
    Reads pos (deserializeAddress family (head s) (tail family s))
      ((a.bytes.drop s.headlen).take (family.size - s.headlen - s.taillen)) (rebuilt s a) := by
  unfold deserializeAddress
  rw [← List.append_nil (List.take _ _), hhead, htail]
  refine (Reads.bytes ?_).seq Reads.ofOption
  rw [List.length_take, List.length_drop, a.length_bytes]
  omega

theorem reads_whole_address :
    Reads pos (deserializeAddress family [] []) a.bytes (some a) := by
  unfold deserializeAddress
  rw [← List.append_nil a.bytes]
  refine (Reads.bytes a.length_bytes).seq ?_
  rw [show Address.ofBytes family ([] ++ a.bytes ++ []) = some a from
    ofBytes_eq_some_iff.mpr (by simp)]
  exact Reads.ofOption

theorem reduceOption_some {α : Type} (l : List α) : (l.map some).reduceOption = l := by
  simp [List.reduceOption]

/-- The number of addresses, from which a block of its own class is read on. -/
theorem reads_numaddr (h : b.Proper) (hne : b.addressList ≠ [])
    {bs : List UInt8} {o : Option (PbbAddressBlock family)}
    (hread : ∀ pos, Reads pos (do
      let flags ← byte
      let head ← readHead flags
      let tail ← readTail flags
      let addressList ← times (deserializeAddress family head tail) b.addressList.length
      let prefixList ← readPrefixes flags b.addressList.length
      let addressTlvList ← deserializeTlvBlock
      return { addressList, prefixList, addressTlvList : PbbAddressBlock family }) bs o) :
    Reads pos (deserialize family) ([UInt8.ofNat b.addressList.length] ++ bs) o := by
  have hlt : b.addressList.length < UInt8.size := Nat.lt_succ_of_le h.addresses
  have hnum : (UInt8.ofNat b.addressList.length).toNat = b.addressList.length :=
    UInt8.toNat_ofNat_of_lt' hlt
  have hpos : (0 : UInt8) < .ofNat b.addressList.length := by
    rw [UInt8.lt_iff_toNat_lt, hnum]
    exact List.length_pos_iff.mpr hne
  unfold deserialize
  refine (Reads.byte _).seq ?_
  simp only [hpos, if_true, hnum]
  exact hread _

/-- A single address has one prefix or none. -/
theorem written_prefixes (h : b.Proper) (hb : b.addressList = [a]) :
    (if b.prefixList.length = 1 then b.prefixList else []) = b.prefixList := by
  have := h.prefixes
  rw [hb, List.length_singleton] at this
  split
  · rfl
  · exact (List.length_eq_zero_iff.mp (by omega)).symm

theorem reads_one (h : b.Proper) (hb : b.addressList = [a]) :
    Reads pos (deserialize family) b.serialize.reduceOption b.readBack := by
  have hne : b.addressList ≠ [] := by simp [hb]
  have hbytes : b.serialize.reduceOption = [UInt8.ofNat b.addressList.length] ++
      ([if b.prefixList.length = 1 then AHAS_SINGLE_PRE_LEN else 0] ++ (a.bytes ++
        (b.prefixList ++ serializeTlvBlock b.addressTlvList))) := by
    unfold serialize
    simp only [List.reduceOption_append, reduceOption_some, hb, written_prefixes h hb,
      List.append_assoc]
    rfl
  have hback : b.readBack = some
      { b with addressTlvList := b.addressTlvList.map PbbTlv.readBack } := by
    simp [readBack, hb]
  rw [hbytes, hback]
  have hflags : b.getPrefixFlags = if b.prefixList.length = 1 then AHAS_SINGLE_PRE_LEN else 0 := by
    have := h.prefixes
    rw [hb, List.length_singleton] at this
    rcases this with hlen | hlen | hlen <;> simp [getPrefixFlags, hlen]
  have hnone : ∀ f ∈ [AHAS_HEAD, AHAS_ZERO_TAIL, AHAS_FULL_TAIL],
      hasFlag b.getPrefixFlags f = false := by
    rw [hflags]
    simp only [List.forall_mem_cons, List.not_mem_nil, false_implies, implies_true, and_true]
    split <;> decide +kernel
  have hsingle : hasFlag b.getPrefixFlags AHAS_SINGLE_PRE_LEN =
        (b.getPrefixFlags == AHAS_SINGLE_PRE_LEN) ∧
      hasFlag b.getPrefixFlags AHAS_MULTI_PRE_LEN =
        (b.getPrefixFlags == AHAS_MULTI_PRE_LEN) := by
    rw [hflags]
    split <;> decide +kernel
  rw [← hflags]
  refine reads_numaddr h hne fun pos => ?_
  refine (Reads.byte _).seq ?_
  refine Reads.skip (a := []) ?_ ?_
  · rw [readHead, if_neg (by rw [hnone _ (by simp)]; decide)]
    exact Reads.pure []
  refine Reads.skip (a := []) ?_ ?_
  · rw [readTail, hnone _ (by simp), hnone _ (by simp)]
    exact Reads.pure []
  refine Reads.seq (a := b.addressList) ?_ ?_
  · rw [hb]
    exact reads_whole_address.map
  refine (reads_prefixes h hsingle.1 hsingle.2).seq ?_
  exact (reads_tlvBlock h.tlvs).map

theorem reads_many (h : b.Proper) (hb : b.addressList = first :: second :: rest) :
    Reads pos (deserialize family) b.serialize.reduceOption b.readBack := by
  have hne : b.addressList ≠ [] := by simp [hb]
  have hs := @scanned_getHeadTail family first (second :: rest)
  have hhead := @length_head family first (second :: rest)
  have htail := @length_tail family first (second :: rest)
  have hsize : family.size ≤ 16 := by cases family <;> decide
  generalize hg : getHeadTail family first (second :: rest) = s at hs hhead htail
  have hheadlen := hs.headlen_le
  have htaillen := hs.taillen_le
  have hbytes : b.serialize.reduceOption = [UInt8.ofNat b.addressList.length] ++
      ([b.flags s] ++ (writeHead s ++ (writeTail family s ++ (writeMids s b.addressList ++
        (b.prefixList ++ serializeTlvBlock b.addressTlvList))))) := by
    unfold serialize
    simp only [List.reduceOption_append, reduceOption_some, hb, hg, List.append_assoc]
    rfl
  have hback : b.readBack = (b.addressList.mapM (rebuilt s)).map fun as =>
      { b with addressList := as, addressTlvList := b.addressTlvList.map PbbTlv.readBack } := by
    simp only [readBack, hb, hg]
  obtain ⟨hhasHead, hzero, hfull, hsingle, hmulti⟩ := hasFlag_flags (decide (0 < s.headlen))
    (decide (0 < s.taillen) && hasZeroTail (tail family s))
    (decide (0 < s.taillen) && !hasZeroTail (tail family s)) (@getPrefixFlags_mem family b)
  rw [hbytes, hback]
  refine reads_numaddr h hne fun pos => ?_
  refine (Reads.byte _).seq ?_
  refine (reads_head hhasHead hhead (by omega)).seq ?_
  refine (reads_tail hzero hfull htail (by omega)).seq ?_
  rw [Option.map_eq_bind]
  refine Reads.bind ?_ ?_
  · rw [writeMids_eq]
    exact Reads.times (fun a _ _ => reads_address hhead htail) rfl
  · intro as _
    refine (reads_prefixes h hsingle hmulti).seq ?_
    exact (reads_tlvBlock h.tlvs).map

theorem Proper.reads (h : b.Proper) (hne : b.addressList ≠ []) (pos : Nat) :
    Reads pos (deserialize family) b.serialize.reduceOption b.readBack := by
  cases hb : b.addressList with
  | nil => exact absurd hb hne
  | cons first rest =>
    cases rest with
    | nil => exact reads_one h hb
    | cons second rest => exact reads_many h hb

/-- A block that comes back as it was. -/
structure Kept (b : PbbAddressBlock family) : Prop where
  nonempty : b.addressList ≠ []
  differ : 2 ≤ b.addressList.length → ¬ Alike Address.bytes b.addressList
  tail : TailKept b.addressList
  single : ∀ t ∈ b.addressTlvList, t.isMultivalue = false

theorem mapM_eq_self_iff {α : Type} {f : α → Option α} {l : List α} :
    l.mapM f = some l ↔ ∀ x ∈ l, f x = some x := by
  induction l with
  | nil => simp
  | cons x l ih =>
    rw [Reads.mapM_cons, List.forall_mem_cons, ← ih]
    cases hx : f x with
    | none => simp
    | some y =>
      rw [Option.bind_some]
      cases hl : l.mapM f with
      | none => simp
      | some ys => simp

theorem map_readBack_eq_self_iff {tlvs : List PbbTlv} :
    tlvs.map PbbTlv.readBack = tlvs ↔ ∀ t ∈ tlvs, t.isMultivalue = false := by
  induction tlvs with
  | nil => simp
  | cons t tlvs ih =>
    rw [List.map_cons, List.cons.injEq, List.forall_mem_cons, ih, PbbTlv.readBack_eq_self_iff]

theorem tailKept_of_length (h : b.addressList.length < 2) : TailKept b.addressList := by
  intro init x y heq
  rw [heq, List.length_append] at h
  exact absurd h (by simp)

theorem readBack_eq_some_iff (hne : b.addressList ≠ []) : b.readBack = some b ↔ b.Kept := by
  have hfields (as : List (Address family)) : some
      { b with addressList := as, addressTlvList := b.addressTlvList.map PbbTlv.readBack } = some b ↔
      as = b.addressList ∧ ∀ t ∈ b.addressTlvList, t.isMultivalue = false := by
    rw [← map_readBack_eq_self_iff]
    cases b
    simp
  by_cases hlen : 2 ≤ b.addressList.length
  · obtain ⟨first, second, rest, hb⟩ :
        ∃ first second rest, b.addressList = first :: second :: rest := by
      cases hb : b.addressList with
      | nil => exact absurd hb hne
      | cons first rest =>
        cases rest with
        | nil => simp [hb] at hlen
        | cons second rest => exact ⟨first, second, rest, rfl⟩
    have hback : b.readBack = (b.addressList.mapM
        (rebuilt (getHeadTail family first (second :: rest)))).map fun as =>
        { b with addressList := as, addressTlvList := b.addressTlvList.map PbbTlv.readBack } := by
      simp only [readBack, hb]
    have hrebuilt := @rebuilt_iff family first (second :: rest) (List.cons_ne_nil second rest)
    rw [← hb, ← mapM_eq_self_iff] at hrebuilt
    constructor
    · intro h
      rw [hback] at h
      obtain ⟨as, has, hself⟩ := Option.map_eq_some_iff.mp h
      obtain ⟨rfl, htlvs⟩ := (hfields as).mp (congrArg some hself)
      obtain ⟨hdiffer, htail⟩ := hrebuilt.mp has
      exact ⟨hne, fun _ => hdiffer, htail, htlvs⟩
    · intro h
      rw [hback, hrebuilt.mpr ⟨h.differ hlen, h.tail⟩]
      exact (hfields _).mpr ⟨rfl, h.single⟩
  · have hback : b.readBack = some
        { b with addressTlvList := b.addressTlvList.map PbbTlv.readBack } := by
      unfold readBack
      split
      · rename_i hb
        simp [hb] at hlen
      · rfl
    rw [hback]
    constructor
    · intro h
      exact ⟨hne, fun h => absurd h hlen, tailKept_of_length (Nat.not_le.mp hlen),
        ((hfields _).mp h).2⟩
    · intro h
      exact (hfields _).mpr ⟨rfl, h.single⟩

theorem length_writeHead (hhead : (head s).length = s.headlen) :
    UInt32.ofNat (writeHead s).length =
      if 0 < s.headlen then 1 + .ofNat s.headlen else 0 := by
  unfold writeHead
  split
  · rw [List.length_append, hhead, UInt32.ofNat_add]
    rfl
  · rfl

theorem length_writeTail (htail : (tail family s).length = s.taillen) :
    UInt32.ofNat (writeTail family s).length =
      if 0 < s.taillen then 1 + if hasZeroTail (tail family s) then 0 else .ofNat s.taillen
      else 0 := by
  unfold writeTail
  split
  · split
    · rfl
    · rw [List.length_append, htail, UInt32.ofNat_add]
      rfl
  · rfl

theorem length_writeMids (hroom : s.headlen + s.taillen ≤ family.size)
    (as : List (Address family)) :
    UInt32.ofNat (writeMids s as).length =
      (.ofNat family.size - .ofNat s.headlen - .ofNat s.taillen) * .ofNat as.length := by
  have hmid : ∀ a ∈ as, ((a.bytes.drop s.headlen).take
      (family.size - s.headlen - s.taillen)).length = family.size - s.headlen - s.taillen := by
    intro a _
    rw [List.length_take, List.length_drop, a.length_bytes]
    omega
  have hlen : (writeMids s as).length =
      (family.size - s.headlen - s.taillen) * as.length := by
    rw [writeMids_eq, List.length_flatMap, List.map_congr_left hmid, List.map_const',
      List.sum_replicate_nat, Nat.mul_comm]
  rw [hlen, UInt32.ofNat_mul, UInt32.ofNat_sub (by omega), UInt32.ofNat_sub (by omega)]

theorem getSerializedSize_eq (h : b.Proper) (hk : b.Kept) :
    b.getSerializedSize = .ofNat b.serialize.length := by
  have htlvs := tlvBlockSize_eq h.tlvs
  unfold getSerializedSize serialize
  rw [htlvs, List.length_append, List.length_append, List.length_map, UInt32.ofNat_add]
  congr 1
  cases hb : b.addressList with
  | nil => exact absurd hb hk.nonempty
  | cons first rest =>
    cases rest with
    | nil =>
      have hprefixes : (if b.prefixList.length = 1 then b.prefixList else []) = b.prefixList :=
        written_prefixes h hb
      simp only [hprefixes, List.length_append, List.length_map, List.length_singleton,
        first.length_bytes, UInt32.ofNat_add]
      rw [show (2 : UInt32) = .ofNat 1 + .ofNat 1 from rfl]
      ac_rfl
    | cons second rest =>
      have hs := @scanned_getHeadTail family first (second :: rest)
      have hhead := @length_head family first (second :: rest)
      have htail := @length_tail family first (second :: rest)
      have hroom : (getHeadTail family first (second :: rest)).headlen +
          (getHeadTail family first (second :: rest)).taillen ≤ family.size := by
        have hdiffer := hk.differ
        rw [hb, ← headlen_eq_iff] at hdiffer
        have hle := hs.headlen_le
        have := hs.room (Nat.lt_of_le_of_ne hle (hdiffer (by simp)))
        omega
      simp only [List.length_append, List.length_map, List.length_singleton, UInt32.ofNat_add,
        length_writeHead hhead, length_writeTail htail, length_writeMids hroom]
      rw [show (2 : UInt32) = .ofNat 1 + .ofNat 1 from rfl]
      ac_rfl

end PbbAddressBlock

/-! ### What is passed over -/

theorem eq_map_some {α : Type} {l : List (Option α)} (h : none ∉ l) :
    l = l.reduceOption.map some := by
  induction l with
  | nil => rfl
  | cons x l ih =>
    rw [List.mem_cons, not_or] at h
    cases x with
    | none => exact absurd rfl h.1
    | some a => rw [List.reduceOption_cons_of_some, List.map_cons, ← ih h.2]

theorem reduceOption_flatMap {α β : Type} (l : List α) (f : α → List (Option β)) :
    (l.flatMap f).reduceOption = l.flatMap fun x => (f x).reduceOption := by
  induction l with
  | nil => rfl
  | cons x l ih => rw [List.flatMap_cons, List.flatMap_cons, List.reduceOption_append, ih]

theorem none_notMem_map_some {α : Type} (l : List α) : none ∉ l.map some := by simp

namespace PbbAddressBlock

theorem none_mem_serialize_iff {family : Family} {b : PbbAddressBlock family} :
    none ∈ b.serialize ↔ b.addressList = [] := by
  unfold serialize
  cases b.addressList with
  | nil => simp
  | cons first rest => cases rest <;> simp

theorem serialize_ne_nil {family : Family} (b : PbbAddressBlock family) :
    b.serialize.reduceOption ≠ [] := by
  simp [serialize, List.reduceOption]

end PbbAddressBlock

/-! ### Messages -/

namespace PbbMessage

variable {m : PbbMessage} {pos : Nat}

structure Proper (m : PbbMessage) : Prop where
  tlvs : TlvsProper m.tlvList
  blocks : ∀ b ∈ m.addressBlockList, b.Proper
  length_lt : m.serialize.length < 65536

/-- What is read again of a message, unless that fails. -/
def readBack (m : PbbMessage) : Option PbbMessage :=
  (m.addressBlockList.mapM PbbAddressBlock.readBack).map fun blocks =>
    { m with tlvList := m.tlvList.map PbbTlv.readBack, addressBlockList := blocks }

structure Kept (m : PbbMessage) : Prop where
  single : ∀ t ∈ m.tlvList, t.isMultivalue = false
  blocks : ∀ b ∈ m.addressBlockList, b.Kept

theorem none_mem_serialize_iff :
    none ∈ m.serialize ↔ ∃ b ∈ m.addressBlockList, b.addressList = [] := by
  simp only [serialize, serializeBody, List.mem_append, none_notMem_map_some, false_or,
    List.mem_flatMap, PbbAddressBlock.none_mem_serialize_iff]

theorem hasFlag_flags (family : Family) (orig limit count seq : Bool) :
    let flags := family.addressLength ||| flag orig MHAS_ORIG ||| flag limit MHAS_HOP_LIMIT |||
      flag count MHAS_HOP_COUNT ||| flag seq MHAS_SEQ_NUM
    hasFlag flags MHAS_ORIG = orig ∧ hasFlag flags MHAS_HOP_LIMIT = limit ∧
      hasFlag flags MHAS_HOP_COUNT = count ∧ hasFlag flags MHAS_SEQ_NUM = seq ∧
      flags &&& 0xf = family.addressLength := by
  revert orig limit count seq
  cases family <;> decide +kernel

theorem serialize_reduceOption : m.serialize.reduceOption =
    [m.type] ++ ([m.flags] ++ (toBytes 2 (4 + m.serializeBody.length) ++
      (m.originatorAddress.elim [] (·.bytes) ++ (m.hopLimit.elim [] ([·]) ++
        (m.hopCount.elim [] ([·]) ++ (m.sequenceNumber.elim [] (fun n => toBytes 2 n.toNat) ++
          (serializeTlvBlock m.tlvList ++
            m.addressBlockList.flatMap fun b => b.serialize.reduceOption))))))) := by
  simp only [serialize, serializeBody, List.reduceOption_append,
    PbbAddressBlock.reduceOption_some, reduceOption_flatMap, List.append_assoc]
  rfl

theorem reads_word16 (n : UInt16) : Reads pos (do
    let x ← word 2
    return UInt16.ofNat x) (toBytes 2 n.toNat) (some n) := by
  have hword : Reads pos (word 2) (toBytes 2 n.toNat) (some n.toNat) := Reads.word n.toNat_lt
  have h := hword.map (f := UInt16.ofNat)
  rw [Option.map_some, UInt16.ofNat_toNat] at h
  exact h

theorem Proper.reads (h : m.Proper) (hne : ∀ b ∈ m.addressBlockList, b.addressList ≠ []) (pos : Nat) :
    Reads pos (deserialize m.family) m.serialize.reduceOption m.readBack := by
  obtain ⟨horig, hlimit, hcount, hseq, -⟩ := hasFlag_flags m.family m.originatorAddress.isSome
    m.hopLimit.isSome m.hopCount.isSome m.sequenceNumber.isSome
  have hall : none ∉ m.serialize := by
    rw [none_mem_serialize_iff]
    rintro ⟨b, hb, hempty⟩
    exact hne b hb hempty
  have hlen : 4 + m.serializeBody.length = m.serialize.reduceOption.length := by
    have hsome := congrArg List.length (eq_map_some hall)
    rw [List.length_map] at hsome
    rw [← hsome, serialize]
    simp only [List.length_append, List.length_map, length_toBytes, List.length_cons,
      List.length_nil]
  have hlt : 4 + m.serializeBody.length < 256 ^ 2 := by
    have := h.length_lt
    rw [eq_map_some hall, List.length_map, ← hlen] at this
    exact this
  rw [serialize_reduceOption]
  unfold deserialize readBack
  apply Reads.position
  refine (Reads.byte m.type).seq ?_
  refine (Reads.byte m.flags).seq ?_
  refine (Reads.word hlt).seq ?_
  refine (Reads.optional horig fun a _ => PbbAddressBlock.reads_whole_address).seq ?_
  refine (Reads.optional hlimit fun a _ => Reads.byte a).seq ?_
  refine (Reads.optional hcount fun a _ => Reads.byte a).seq ?_
  refine (Reads.optional hseq fun n _ => reads_word16 n).seq ?_
  refine (reads_tlvBlock h.tlvs).seq ?_
  refine Reads.map (Reads.within (fun b hb => (h.blocks b hb).reads (hne b hb))
    (fun b _ => b.serialize_ne_nil) ?_ ?_ ?_)
  · omega
  · rw [hlen, serialize_reduceOption]
    simp only [List.length_append, length_toBytes, List.length_singleton]
    omega
  · rw [hlen, serialize_reduceOption]
    simp only [List.length_append]
    omega

theorem familyOf_addressLength (family : Family) :
    familyOf family.addressLength = some family := by
  cases family <;> rfl

theorem Proper.reads_message (h : m.Proper)
    (hne : ∀ b ∈ m.addressBlockList, b.addressList ≠ []) (pos : Nat) :
    Reads pos deserializeMessage m.serialize.reduceOption (m.readBack.map some) := by
  have hread := (h.reads hne pos).map (f := some)
  have hfamily : familyOf (m.flags &&& 0xf) = some m.family := by
    rw [(show m.flags &&& 0xf = m.family.addressLength from
      (hasFlag_flags m.family m.originatorAddress.isSome m.hopLimit.isSome m.hopCount.isSome
        m.sequenceNumber.isSome).2.2.2.2)]
    exact familyOf_addressLength m.family
  rw [serialize_reduceOption, ← List.append_assoc] at hread ⊢
  refine Reads.lookahead ((Reads.byte m.type).seq (Reads.byte m.flags)) ?_
  rw [hfamily]
  exact hread

theorem readBack_eq_some_iff (hne : ∀ b ∈ m.addressBlockList, b.addressList ≠ []) :
    m.readBack = some m ↔ m.Kept := by
  have hblocks : m.addressBlockList.mapM PbbAddressBlock.readBack = some m.addressBlockList ↔
      ∀ b ∈ m.addressBlockList, b.Kept := by
    rw [PbbAddressBlock.mapM_eq_self_iff]
    exact forall₂_congr fun b hb => PbbAddressBlock.readBack_eq_some_iff (hne b hb)
  have hfields (blocks : List (PbbAddressBlock m.family)) :
      ({ m with tlvList := m.tlvList.map PbbTlv.readBack, addressBlockList := blocks }
        : PbbMessage) = m ↔
      blocks = m.addressBlockList ∧ ∀ t ∈ m.tlvList, t.isMultivalue = false := by
    rw [← PbbAddressBlock.map_readBack_eq_self_iff]
    cases m
    simp [and_comm]
  constructor
  · intro h
    obtain ⟨blocks, hmap, hself⟩ := Option.map_eq_some_iff.mp h
    obtain ⟨rfl, hsingle⟩ := (hfields blocks).mp hself
    exact ⟨hsingle, hblocks.mp hmap⟩
  · intro h
    unfold readBack
    rw [hblocks.mpr h.blocks]
    exact congrArg some ((hfields _).mpr ⟨rfl, h.single⟩)

theorem ofNat_size (family : Family) :
    UInt32.ofNat family.size = family.addressLength.toUInt32 + 1 := by
  cases family <;> rfl

theorem getSerializedSize_eq (h : m.Proper) (hk : m.Kept) :
    m.getSerializedSize = .ofNat m.serialize.length := by
  have hblocks := sum_sizes fun b hb =>
    PbbAddressBlock.getSerializedSize_eq (h.blocks b hb) (hk.blocks b hb)
  have horig : UInt32.ofNat (m.originatorAddress.elim [] (·.bytes)).length =
      if m.originatorAddress.isSome then m.family.addressLength.toUInt32 + 1 else 0 := by
    cases m.originatorAddress with
    | none => rfl
    | some a =>
      rw [Option.elim_some, a.length_bytes]
      exact ofNat_size m.family
  have hseq : UInt32.ofNat (m.sequenceNumber.elim [] (fun n => toBytes 2 n.toNat)).length =
      if m.sequenceNumber.isSome then 2 else 0 := by
    cases m.sequenceNumber <;> rfl
  unfold getSerializedSize serialize serializeBody
  rw [hblocks, tlvBlockSize_eq h.tlvs, ← horig, ← hseq]
  simp only [List.length_append, List.length_map, length_toBytes, List.length_cons,
    List.length_nil, UInt32.ofNat_add, ofNat_length_elim]
  rw [show (4 : UInt32) = .ofNat 0 + .ofNat 1 + .ofNat 1 + .ofNat 2 from rfl]
  ac_rfl

end PbbMessage

/-! ### Packets -/

namespace PbbPacket

variable {p : PbbPacket} {ms : List PbbMessage} {pos fuel : Nat}

/-- A packet that was built through the API, with all length fields in range. -/
structure Proper (p : PbbPacket) : Prop where
  version : p.version = VERSION
  tlvs : TlvsProper p.tlvList
  messages : ∀ m ∈ p.messageList, m.Proper

/-- Every byte is written, they are as many as announced, and all of them are read again as the
same packet, which then is written as the same bytes. -/
def RoundTrips (p : PbbPacket) : Prop :=
  ∃ buffer : List UInt8, p.serialize = buffer.map some ∧
    p.getSerializedSize.toNat = buffer.length ∧
    ∃ q, deserialize buffer = some (q, buffer.length) ∧ q = p ∧ q.serialize = buffer.map some

/-- No TLV is for multiple values, no address block is empty, those of two addresses or more are
not all of one address and keep their tails, and the length fits an integer. -/
structure Kept (p : PbbPacket) : Prop where
  single : ∀ t ∈ p.tlvList, t.isMultivalue = false
  messages : ∀ m ∈ p.messageList, m.Kept
  length_lt : p.serialize.length < 2 ^ 32

/-- What is read again of a packet, unless that fails. -/
def readBack (p : PbbPacket) : Option PbbPacket :=
  (p.messageList.mapM PbbMessage.readBack).map fun messages =>
    { p with tlvList := p.tlvList.map PbbTlv.readBack, messageList := messages }

theorem none_mem_serialize_iff : none ∈ p.serialize ↔
    ∃ m ∈ p.messageList, ∃ b ∈ m.addressBlockList, b.addressList = [] := by
  simp only [serialize, List.mem_append, none_notMem_map_some, false_or, List.mem_flatMap,
    PbbMessage.none_mem_serialize_iff]

theorem hasFlag_flags (seq tlv : Bool) :
    let flags := (VERSION <<< 4) ||| flag seq PHAS_SEQ_NUM ||| flag tlv PHAS_TLV
    hasFlag flags PHAS_SEQ_NUM = seq ∧ hasFlag flags PHAS_TLV = tlv ∧ flags >>> 4 = VERSION := by
  revert seq tlv
  decide +kernel

theorem deserializeMessages_eq (h : ∀ m ∈ ms, m.Proper)
    (hne : ∀ m ∈ ms, ∀ b ∈ m.addressBlockList, b.addressList ≠ [])
    (hfuel : (ms.flatMap fun m => m.serialize.reduceOption).length ≤ fuel) :
    deserializeMessages fuel ⟨pos, ms.flatMap fun m => m.serialize.reduceOption⟩ =
      (ms.mapM PbbMessage.readBack).map fun l =>
        ((l, true), ⟨pos + (ms.flatMap fun m => m.serialize.reduceOption).length, []⟩) := by
  induction ms generalizing pos fuel with
  | nil => cases fuel <;> rfl
  | cons m ms ih =>
    have hread := (h m List.mem_cons_self).reads_message (hne m List.mem_cons_self) pos
    rw [List.flatMap_cons, List.length_append] at hfuel
    have hlen : 0 < m.serialize.reduceOption.length := by
      rw [PbbMessage.serialize_reduceOption]
      simp
    cases fuel with
    | zero => omega
    | succ fuel =>
      unfold deserializeMessages
      rw [List.flatMap_cons, if_neg (by
        rw [List.append_eq_nil_iff, ← List.length_eq_zero_iff]
        omega), hread, Reads.mapM_cons]
      cases hm : m.readBack with
      | none => rfl
      | some m' =>
        have hrec := @ih (pos + m.serialize.reduceOption.length) fuel
          (fun m hm => h m (List.mem_cons_of_mem _ hm))
          (fun m hm => hne m (List.mem_cons_of_mem _ hm)) (by omega)
        simp only [Option.map_some, Option.bind_eq_bind, Option.bind_some, hrec,
          List.length_append, Nat.add_assoc]
        cases ms.mapM PbbMessage.readBack <;> rfl

theorem reads_tlvs {flags : UInt8} (h : TlvsProper p.tlvList)
    (hflag : hasFlag flags PHAS_TLV = !p.tlvList.isEmpty) :
    Reads pos (readTlvs flags) (if p.tlvList.isEmpty then [] else serializeTlvBlock p.tlvList)
      (some (p.tlvList.map PbbTlv.readBack)) := by
  unfold readTlvs
  rw [hflag]
  cases htlvs : p.tlvList with
  | nil => exact Reads.pure []
  | cons t tlvs =>
    rw [htlvs] at h
    exact reads_tlvBlock h

theorem deserialize_serialize (h : p.Proper)
    (hne : ∀ m ∈ p.messageList, ∀ b ∈ m.addressBlockList, b.addressList ≠ []) :
    deserialize p.serialize.reduceOption =
      p.readBack.map fun q => (q, p.serialize.reduceOption.length) := by
  obtain ⟨hseq, htlv, hversion⟩ := hasFlag_flags p.seqnum.isSome (!p.tlvList.isEmpty)
  have hbytes : p.serialize.reduceOption =
      [(VERSION <<< 4) ||| flag p.seqnum.isSome PHAS_SEQ_NUM ||| flag (!p.tlvList.isEmpty) PHAS_TLV]
        ++ (p.seqnum.elim [] (fun n => toBytes 2 n.toNat) ++
          ((if p.tlvList.isEmpty then [] else serializeTlvBlock p.tlvList) ++
            p.messageList.flatMap fun m => m.serialize.reduceOption)) := by
    unfold serialize
    simp only [List.reduceOption_append, PbbAddressBlock.reduceOption_some, reduceOption_flatMap,
      List.append_assoc]
  have hfuel : (p.messageList.flatMap fun m => m.serialize.reduceOption).length ≤
      p.serialize.reduceOption.length := by
    rw [hbytes]
    simp only [List.length_append]
    omega
  have hread : read p.serialize.reduceOption.length ⟨0, p.serialize.reduceOption⟩ =
      p.readBack.map fun q => (q, ⟨p.serialize.reduceOption.length, []⟩) := by
    have hpos := congrArg List.length hbytes
    generalize p.serialize.reduceOption.length = fuel at hfuel hpos
    rw [hbytes, read, (Reads.byte _).run_bind, (Reads.optional hseq fun n _ =>
      PbbMessage.reads_word16 n).run_bind, (reads_tlvs h.tlvs htlv).run_bind]
    change (deserializeMessages fuel _).bind _ = _
    rw [deserializeMessages_eq h.messages hne hfuel, readBack]
    cases p.messageList.mapM PbbMessage.readBack with
    | none => rfl
    | some messages =>
      have hend : fuel = 0 + [(VERSION <<< 4) ||| flag p.seqnum.isSome PHAS_SEQ_NUM |||
          flag (!p.tlvList.isEmpty) PHAS_TLV].length +
          (p.seqnum.elim [] (fun n => toBytes 2 n.toNat)).length +
          (if p.tlvList.isEmpty then [] else serializeTlvBlock p.tlvList).length +
          (p.messageList.flatMap fun m => m.serialize.reduceOption).length := by
        rw [hpos]
        simp only [List.length_append]
        omega
      rw [Option.map_some, Option.map_some, Option.map_some, Option.bind_some, ← hend]
      simp only [if_true, hversion]
      rw [← h.version]
      rfl
  rw [deserialize, hread, Option.map_map]
  rfl

theorem getSerializedSize_eq (h : p.Proper) (hk : ∀ m ∈ p.messageList, m.Kept) :
    p.getSerializedSize = .ofNat p.serialize.length := by
  have hmessages := sum_sizes fun m hm =>
    PbbMessage.getSerializedSize_eq (h.messages m hm) (hk m hm)
  have hseq : UInt32.ofNat (p.seqnum.elim [] (fun n => toBytes 2 n.toNat)).length =
      if p.seqnum.isSome then 2 else 0 := by
    cases p.seqnum <;> rfl
  have htlvs : UInt32.ofNat (if p.tlvList.isEmpty then [] else serializeTlvBlock p.tlvList).length =
      if p.tlvList.isEmpty then 0 else tlvBlockSize p.tlvList := by
    split
    · rfl
    · exact (tlvBlockSize_eq h.tlvs).symm
  unfold getSerializedSize serialize
  rw [hmessages, ← hseq, ← htlvs]
  simp only [List.length_append, List.length_map, List.length_singleton, UInt32.ofNat_add]
  rfl

theorem readBack_eq_some_iff
    (hne : ∀ m ∈ p.messageList, ∀ b ∈ m.addressBlockList, b.addressList ≠ []) :
    p.readBack = some p ↔
      (∀ t ∈ p.tlvList, t.isMultivalue = false) ∧ ∀ m ∈ p.messageList, m.Kept := by
  have hmessages : p.messageList.mapM PbbMessage.readBack = some p.messageList ↔
      ∀ m ∈ p.messageList, m.Kept := by
    rw [PbbAddressBlock.mapM_eq_self_iff]
    exact forall₂_congr fun m hm => PbbMessage.readBack_eq_some_iff (hne m hm)
  have hfields (messages : List PbbMessage) :
      { p with tlvList := p.tlvList.map PbbTlv.readBack, messageList := messages } = p ↔
      messages = p.messageList ∧ ∀ t ∈ p.tlvList, t.isMultivalue = false := by
    rw [← PbbAddressBlock.map_readBack_eq_self_iff]
    cases p
    simp [and_comm]
  constructor
  · intro h
    obtain ⟨messages, hmap, hself⟩ := Option.map_eq_some_iff.mp h
    obtain ⟨rfl, hsingle⟩ := (hfields messages).mp hself
    exact ⟨hsingle, hmessages.mp hmap⟩
  · intro h
    unfold readBack
    rw [hmessages.mpr h.2]
    exact congrArg some ((hfields _).mpr ⟨rfl, h.1⟩)

/-- A packet makes the round trip exactly when all of it is kept. -/
theorem roundTrips_iff (h : p.Proper) : p.RoundTrips ↔ p.Kept := by
  constructor
  · rintro ⟨buffer, hwritten, hsize, q, hread, rfl, -⟩
    have hall : none ∉ q.serialize := by
      rw [hwritten]
      exact none_notMem_map_some buffer
    have hne : ∀ m ∈ q.messageList, ∀ b ∈ m.addressBlockList, b.addressList ≠ [] :=
      fun m hm b hb hempty => hall (none_mem_serialize_iff.mpr ⟨m, hm, b, hb, hempty⟩)
    have hbuffer : buffer = q.serialize.reduceOption := by
      rw [hwritten, PbbAddressBlock.reduceOption_some]
    rw [hbuffer, deserialize_serialize h hne] at hread
    obtain ⟨r, hback, heq⟩ := Option.map_eq_some_iff.mp hread
    obtain rfl : r = q := congrArg Prod.fst heq
    obtain ⟨hsingle, hmessages⟩ := (readBack_eq_some_iff hne).mp hback
    refine ⟨hsingle, hmessages, ?_⟩
    rw [hwritten, List.length_map, ← hsize]
    exact UInt32.toNat_lt _
  · intro hk
    have hne : ∀ m ∈ p.messageList, ∀ b ∈ m.addressBlockList, b.addressList ≠ [] :=
      fun m hm b hb => ((hk.messages m hm).blocks b hb).nonempty
    have hall : none ∉ p.serialize := by
      rw [none_mem_serialize_iff]
      rintro ⟨m, hm, b, hb, hempty⟩
      exact hne m hm b hb hempty
    have hwritten := eq_map_some hall
    have hlen := congrArg List.length hwritten
    rw [List.length_map] at hlen
    refine ⟨p.serialize.reduceOption, hwritten, ?_, p, ?_, rfl, hwritten⟩
    · rw [getSerializedSize_eq h hk.messages, UInt32.toNat_ofNat_of_lt' hk.length_lt, hlen]
    · rw [deserialize_serialize h hne, (readBack_eq_some_iff hne).mpr ⟨hk.single, hk.messages⟩]
      rfl

/-- One message with one address block. -/
def ofAddresses (addressList : List (Address .ipv4)) : PbbPacket :=
  { messageList := [{ family := .ipv4, type := 1, addressBlockList := [{ addressList }] }] }

theorem proper_ofAddresses {as : List (Address .ipv4)} (hlen : as.length ≤ 255)
    (hsize : ∀ m ∈ (ofAddresses as).messageList, m.serialize.length < 65536) :
    (ofAddresses as).Proper := by
  have htlvs : TlvsProper [] := ⟨by simp, by decide⟩
  refine ⟨rfl, htlvs, fun m hm => ⟨?_, ?_, hsize m hm⟩⟩
  · rw [List.mem_singleton.mp hm]
    exact htlvs
  · rw [List.mem_singleton.mp hm]
    intro b hb
    rw [List.mem_singleton.mp hb]
    exact ⟨hlen, .inl rfl, htlvs⟩

/-- 10.0.0.1 and 10.0.1.1. -/
def twoAddresses : List (Address .ipv4) := [⟨[10, 0, 0, 1], rfl⟩, ⟨[10, 0, 1, 1], rfl⟩]

theorem roundTrips_two : (ofAddresses twoAddresses).RoundTrips := by
  refine (roundTrips_iff (proper_ofAddresses (by decide) (by decide))).mpr
    ⟨by simp [ofAddresses], fun m hm => ?_, by decide⟩
  rw [List.mem_singleton.mp hm]
  refine ⟨by simp, fun b hb => ?_⟩
  rw [List.mem_singleton.mp hb]
  refine ⟨by simp [twoAddresses], fun _ h => ?_, ?_, by simp⟩
  · exact absurd (h _ List.mem_cons_self _ (List.mem_cons_of_mem _ List.mem_cons_self)) (by decide)
  · exact PbbAddressBlock.tailKept_pair _ _

/-- 10.0.0.1, 10.0.1.2 and 10.0.2.2: the first address comes back as 10.0.0.2. -/
def threeAddresses : List (Address .ipv4) :=
  [⟨[10, 0, 0, 1], rfl⟩, ⟨[10, 0, 1, 2], rfl⟩, ⟨[10, 0, 2, 2], rfl⟩]

theorem not_roundTrips : ¬ ∀ p : PbbPacket, p.Proper → p.RoundTrips := by
  intro h
  obtain ⟨buffer, hwritten, -, q, hread, hq, -⟩ :=
    h _ (@proper_ofAddresses threeAddresses (by decide) (by decide))
  have hbuffer : buffer = (ofAddresses threeAddresses).serialize.reduceOption := by
    rw [hwritten, PbbAddressBlock.reduceOption_some]
  have haddresses : (deserialize buffer).map (fun r => r.1.messageList.map fun m =>
      m.addressBlockList.map fun b => b.addressList.map Address.bytes) =
      some [[[[10, 0, 0, 2], [10, 0, 1, 2], [10, 0, 2, 2]]]] := by
    rw [hbuffer]
    decide +kernel
  rw [hread, hq, Option.map_some] at haddresses
  have hsame : (ofAddresses threeAddresses).messageList.map (fun m =>
      m.addressBlockList.map fun b => b.addressList.map Address.bytes) =
      [[[[10, 0, 0, 2], [10, 0, 1, 2], [10, 0, 2, 2]]]] := Option.some.inj haddresses
  exact absurd hsame (by decide)

end PbbPacket

end CudaNs3.Network.PacketBB
