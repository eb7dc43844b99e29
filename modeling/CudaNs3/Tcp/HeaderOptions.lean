import CudaNs3.Lib.Words
import CudaNs3.Tcp.TxBuffer

/-!
# TCP options

The options of a TCP header, how they are written, and what each of them reads. `none` is a read
beyond the end of the buffer, or the abort of `TcpOptionMSS`.
-/

namespace CudaNs3.Tcp

open Words TcpTxBuffer
set_option autoImplicit false

/-- `m_size` of an unknown option stands beside the content that was read. -/
inductive TcpOption where
  | eol
  | nop
  | mss (mss : BitVec 16)
  | winScale (scale : UInt8)
  | sackPermitted
  | sack (sackList : List SackBlock)
  | ts (timestamp echo : BitVec 32)
  | unknown (kind : UInt8) (size : Nat) (content : List UInt8)
  deriving DecidableEq

namespace TcpOption

def getKind : TcpOption → UInt8
  | eol => 0
  | nop => 1
  | mss _ => 2
  | winScale _ => 3
  | sackPermitted => 4
  | sack _ => 5
  | ts _ _ => 8
  | unknown kind _ _ => kind

def isKindKnown (kind : UInt8) : Bool :=
  kind == 0 || kind == 1 || kind == 2 || kind == 3 || kind == 4 || kind == 5 || kind == 8

def getSerializedSize : TcpOption → Nat
  | eol => 1
  | nop => 1
  | mss _ => 4
  | winScale _ => 3
  | sackPermitted => 2
  | sack sackList => 2 + sackList.length * 8
  | ts _ _ => 10
  | unknown _ size _ => size

def blockBytes (s : SackBlock) : List UInt8 := toBytes 4 s.1.toNat ++ toBytes 4 s.2.toNat

/-- The bytes that `Serialize` writes. -/
def serialize : TcpOption → List UInt8
  | eol => [0]
  | nop => [1]
  | mss m => [2, 4] ++ toBytes 2 m.toNat
  | winScale s => [3, 3, s]
  | sackPermitted => [4, 2]
  | sack sackList => [5, UInt8.ofNat (sackList.length * 8 + 2)] ++ sackList.flatMap blockBytes
  | ts timestamp echo => [8, 10] ++ toBytes 4 timestamp.toNat ++ toBytes 4 echo.toNat
  | unknown kind size content =>
    if size = 0 then [] else [kind, UInt8.ofNat size] ++ content.take (size - 2)

/-- What `Deserialize` returns, the option it leaves, and one beyond the last byte it has read. -/
structure Parsed where
  optionSize : Nat
  op : TcpOption
  readTo : Nat

variable (b : List UInt8) (pos : Nat)

/-- `TcpOptionEnd` and `TcpOptionNOP`. -/
def deserializeKind (op : TcpOption) : Option Parsed := do
  let readKind ← b[pos]?
  if readKind ≠ op.getKind then some ⟨0, op, pos + 1⟩ else some ⟨1, op, pos + 1⟩

/-- The options of one size, which the second byte has to give; `op` is what the constructor
makes, and `body` what is read. -/
def deserializeSized (op : TcpOption) (expected : UInt8) (body : Option TcpOption) :
    Option Parsed := do
  let readKind ← b[pos]?
  if readKind ≠ op.getKind then some ⟨0, op, pos + 1⟩
  else
    let size ← b[pos + 1]?
    if size ≠ expected then some ⟨0, op, pos + 2⟩
    else
      let op ← body
      some ⟨op.getSerializedSize, op, pos + expected.toNat⟩

def deserializeWinScale : Option Parsed :=
  deserializeSized b pos (winScale 0) 3 do
    let scale ← b[pos + 2]?
    some (winScale scale)

def deserializeSackPermitted : Option Parsed := deserializeSized b pos sackPermitted 2 (some sackPermitted)

def deserializeTs : Option Parsed :=
  deserializeSized b pos (ts 0 0) 10 do
    let timestamp ← readWord b (pos + 2) 4
    let echo ← readWord b (pos + 6) 4
    some (ts (BitVec.ofNat 32 timestamp) (BitVec.ofNat 32 echo))

/-- Any other size aborts. -/
def deserializeMss : Option Parsed := do
  let readKind ← b[pos]?
  if readKind ≠ 2 then some ⟨0, mss 1460, pos + 1⟩
  else
    let size ← b[pos + 1]?
    if size ≠ 4 then none
    else
      let m ← readWord b (pos + 2) 2
      some ⟨4, mss (BitVec.ofNat 16 m), pos + 4⟩

def readBlocks (pos : Nat) : Nat → Option (List SackBlock)
  | 0 => some []
  | sackCount + 1 => do
    let leftEdge ← readWord b pos 4
    let rightEdge ← readWord b (pos + 4) 4
    let rest ← readBlocks (pos + 8) sackCount
    some ((BitVec.ofNat 32 leftEdge, BitVec.ofNat 32 rightEdge) :: rest)

/-- The size is compared with nothing; a size below 2 gives no block. -/
def deserializeSack : Option Parsed := do
  let readKind ← b[pos]?
  if readKind ≠ 5 then some ⟨0, sack [], pos + 1⟩
  else
    let size ← b[pos + 1]?
    let sackCount := (size.toNat - 2) / 8
    let sackList ← readBlocks b (pos + 2) sackCount
    some ⟨(sack sackList).getSerializedSize, sack sackList, pos + 2 + 8 * sackCount⟩

def deserializeUnknown : Option Parsed := do
  let kind ← b[pos]?
  let size ← b[pos + 1]?
  if size.toNat < 2 ∨ 40 < size.toNat then some ⟨0, unknown kind size.toNat [], pos + 2⟩
  else
    let content ← readBytes b (pos + 2) (size.toNat - 2)
    some ⟨size.toNat, unknown kind size.toNat content, pos + size.toNat⟩

/-- `CreateOption(kind)`, or an unknown option, and its `Deserialize`. -/
def deserializeOption (kind : UInt8) : Option Parsed :=
  if kind = 0 then deserializeKind b pos eol
  else if kind = 1 then deserializeKind b pos nop
  else if kind = 2 then deserializeMss b pos
  else if kind = 3 then deserializeWinScale b pos
  else if kind = 4 then deserializeSackPermitted b pos
  else if kind = 5 then deserializeSack b pos
  else if kind = 8 then deserializeTs b pos
  else deserializeUnknown b pos

variable {b : List UInt8} {pos n : Nat} {rest : List UInt8}

theorem length_blockBytes (l : List SackBlock) : (l.flatMap blockBytes).length = l.length * 8 := by
  induction l with
  | nil => rfl
  | cons s l ih =>
    rw [List.flatMap_cons, List.length_append, ih, blockBytes, List.length_append, length_toBytes,
      length_toBytes, List.length_cons]
    omega

/-- The options of the known kinds. -/
def Known (o : TcpOption) : Prop := ∀ k n c, o ≠ unknown k n c

theorem length_serialize {o : TcpOption} (ho : Known o) : o.serialize.length = o.getSerializedSize := by
  cases o with
  | sack l =>
    rw [serialize, getSerializedSize, List.length_append, length_blockBytes]
    rfl
  | unknown k n c => exact absurd rfl (ho k n c)
  | mss m => simp [serialize, getSerializedSize]
  | ts t e => simp [serialize, getSerializedSize]
  | eol | nop | winScale | sackPermitted => rfl

theorem getElem?_of_drop {c : UInt8} (h : b.drop pos = c :: rest) : b[pos]? = some c := by
  rw [← Nat.add_zero pos, ← List.getElem?_drop, h]
  rfl

theorem drop_succ_of_drop {c : UInt8} (h : b.drop pos = c :: rest) : b.drop (pos + 1) = rest := by
  rw [← List.drop_drop, h, List.drop_one, List.tail_cons]

theorem readBlocks_spec {l : List SackBlock} (h : b.drop pos = l.flatMap blockBytes ++ rest) :
    readBlocks b pos l.length = some l := by
  induction l generalizing pos with
  | nil => rfl
  | cons s l ih =>
    rw [List.flatMap_cons, blockBytes, List.append_assoc, List.append_assoc] at h
    have hleft : readWord b pos 4 = some s.1.toNat := readWord_of_drop s.1.isLt h
    have hdrop := drop_append_of_drop h
    rw [length_toBytes] at hdrop
    have hright : readWord b (pos + 4) 4 = some s.2.toNat := readWord_of_drop s.2.isLt hdrop
    have hrest := drop_append_of_drop hdrop
    rw [length_toBytes] at hrest
    rw [List.length_cons, readBlocks, hleft, hright, ih hrest]
    simp

theorem getSerializedSize_pos {o : TcpOption} (ho : Known o) : 0 < o.getSerializedSize := by
  cases o with
  | unknown k n c => exact absurd rfl (ho k n c)
  | _ => simp [getSerializedSize]

/-- Every option begins with its kind. -/
theorem getElem?_kind {o : TcpOption} (ho : Known o) (h : b.drop pos = o.serialize ++ rest) :
    b[pos]? = some o.getKind := by
  cases o with
  | unknown k n c => exact absurd rfl (ho k n c)
  | _ => exact getElem?_of_drop h

/-- An option is read back as it was written. SACK blocks beyond the 31 that the size byte can
count are the only ones that are not. -/
theorem deserializeOption_serialize {o : TcpOption} (ho : Known o)
    (hsize : o.getSerializedSize < 256) (h : b.drop pos = o.serialize ++ rest) :
    deserializeOption b pos o.getKind =
      some ⟨o.getSerializedSize, o, pos + o.getSerializedSize⟩ := by
  cases o with
  | eol =>
    have hk := getElem?_of_drop h
    simp [deserializeOption, deserializeKind, getKind, hk, getSerializedSize]
  | nop =>
    have hk := getElem?_of_drop h
    simp [deserializeOption, deserializeKind, getKind, hk, getSerializedSize]
  | mss m =>
    have hk := getElem?_of_drop h
    have htail := drop_succ_of_drop h
    have hs := getElem?_of_drop htail
    have hm : readWord b (pos + 2) 2 = some m.toNat := readWord_of_drop m.isLt (drop_succ_of_drop htail)
    simp [deserializeOption, deserializeMss, getKind, hk, hs, hm, getSerializedSize]
  | winScale s =>
    have hk := getElem?_of_drop h
    have htail := drop_succ_of_drop h
    have hs := getElem?_of_drop htail
    have hv : b[pos + 2]? = some s := getElem?_of_drop (drop_succ_of_drop htail)
    simp [deserializeOption, deserializeWinScale, deserializeSized, getKind, hk, hs, hv,
      getSerializedSize]
  | sackPermitted =>
    have hk := getElem?_of_drop h
    have hs := getElem?_of_drop (drop_succ_of_drop h)
    simp [deserializeOption, deserializeSackPermitted, deserializeSized, getKind, hk, hs,
      getSerializedSize]
  | sack l =>
    have hk := getElem?_of_drop h
    have htail := drop_succ_of_drop h
    have hs := getElem?_of_drop htail
    have hl : readBlocks b (pos + 2) l.length = some l := readBlocks_spec (drop_succ_of_drop htail)
    have hcount : ((UInt8.ofNat (l.length * 8 + 2)).toNat - 2) / 8 = l.length := by
      rw [getSerializedSize] at hsize
      rw [UInt8.toNat_ofNat']
      omega
    have hkind : deserializeOption b pos 5 = deserializeSack b pos := by simp [deserializeOption]
    rw [getKind, hkind, deserializeSack]
    simp only [hk, hs, hcount, hl, Option.bind_eq_bind, Option.bind_some, ne_eq, not_true_eq_false,
      if_false, getSerializedSize, Option.some.injEq, Parsed.mk.injEq, true_and]
    omega
  | ts t e =>
    have hk := getElem?_of_drop h
    have htail := drop_succ_of_drop h
    have hs := getElem?_of_drop htail
    have hrest : b.drop (pos + 2) = toBytes 4 t.toNat ++ (toBytes 4 e.toNat ++ rest) := by
      rw [← List.append_assoc]
      exact drop_succ_of_drop htail
    have ht : readWord b (pos + 2) 4 = some t.toNat := readWord_of_drop t.isLt hrest
    have hlast := drop_append_of_drop hrest
    rw [length_toBytes] at hlast
    have he : readWord b (pos + 6) 4 = some e.toNat := readWord_of_drop e.isLt hlast
    simp [deserializeOption, deserializeTs, deserializeSized, getKind, hk, hs, ht, he,
      getSerializedSize]
  | unknown k n c => exact absurd rfl (ho k n c)

/-- What an option area can begin with. -/
inductive Head where
  /-- `END`, and padding after it. -/
  | padding
  /-- An option of `size` bytes that lies in the area. -/
  | option (size : Nat)
  /-- A size that the option cannot have; it is given up. -/
  | malformed
  /-- An option that is not all in the area, an MSS option of another size than 4, or an unknown
  option of size 0. -/
  | broken
  deriving DecidableEq

def Head.within (size : Nat) (area : List UInt8) : Head :=
  if size ≤ area.length then option size else broken

/-- An option with the size byte `s`, of a kind that has only one size. -/
def Head.sized (expected : Nat) (s : UInt8) (otherwise : Head) (area : List UInt8) : Head :=
  if s.toNat = expected then within expected area else otherwise

def head (area : List UInt8) : Head :=
  match area with
  | [] => .broken
  | [k] => if k = 0 then .padding else if k = 1 then .option 1 else .broken
  | k :: s :: _ =>
    if k = 0 then .padding
    else if k = 1 then .option 1
    else if k = 2 then .sized 4 s .broken area
    else if k = 3 then .sized 3 s .malformed area
    else if k = 4 then .sized 2 s .malformed area
    else if k = 5 then .within (2 + 8 * ((s.toNat - 2) / 8)) area
    else if k = 8 then .sized 10 s .malformed area
    else if s = 0 then .broken
    else if s = 1 ∨ 40 < s.toNat then .malformed
    else .within s.toNat area

/-- What becomes of an option at `pos` in an area of `n` bytes. -/
def Outcome (pos n : Nat) (result : Option Parsed) : Head → Prop
  | .padding => ∃ p, result = some p ∧ p.op = eol ∧ p.optionSize = 1 ∧ p.readTo = pos + 1
  | .option size => ∃ p, result = some p ∧ p.op.getKind ≠ 0 ∧ p.op.getSerializedSize = size ∧
      p.optionSize = size ∧ p.readTo = pos + size ∧ 0 < size ∧ size ≤ n
  | .malformed => ∃ p, result = some p ∧ p.optionSize ≠ p.op.getSerializedSize ∧
      p.readTo ≤ pos + n
  | .broken => ∀ p, result = some p → pos + n < p.readTo ∨
      (p.optionSize = 0 ∧ p.op.getSerializedSize = 0 ∧ p.op.getKind ≠ 0)

theorem exists_readBytes (b : List UInt8) (pos k : Nat) (h : pos + k ≤ b.length) :
    ∃ bs, readBytes b pos k = some bs := by
  have hle : k ≤ (b.drop pos).length := by
    rw [List.length_drop]
    omega
  exact ⟨_, if_pos hle⟩

theorem exists_readWord (b : List UInt8) (pos k : Nat) (h : pos + k ≤ b.length) :
    ∃ x, readWord b pos k = some x := by
  obtain ⟨bs, hbs⟩ := exists_readBytes b pos k h
  exact ⟨ofBytes bs, by rw [readWord, hbs, Option.map_some]⟩

theorem exists_readBlocks (b : List UInt8) (pos k : Nat) (h : pos + 8 * k ≤ b.length) :
    ∃ l, readBlocks b pos k = some l := by
  induction k generalizing pos with
  | zero => exact ⟨[], rfl⟩
  | succ k ih =>
    obtain ⟨x, hx⟩ := exists_readWord b pos 4 (by omega)
    obtain ⟨y, hy⟩ := exists_readWord b (pos + 4) 4 (by omega)
    obtain ⟨l, hl⟩ := ih (pos + 8) (by omega)
    rw [readBlocks, hx, hy, hl]
    exact ⟨_, rfl⟩

theorem length_of_readBlocks {k : Nat} {l : List SackBlock} (h : readBlocks b pos k = some l) :
    l.length = k := by
  induction k generalizing pos l with
  | zero =>
    cases h
    rfl
  | succ k ih =>
    simp only [readBlocks, Option.bind_eq_bind, Option.bind_eq_some_iff] at h
    obtain ⟨x, -, y, -, rest, hrest, heq⟩ := h
    cases heq
    rw [List.length_cons, ih hrest]

section Outcome

variable {area : List UInt8} (harea : area.length = n) (hlong : pos + n ≤ b.length) {s : UInt8}
  (hs : b[pos + 1]? = some s)
include harea hlong hs

/-- An option of one size: `otherwise` is what follows from another size byte. -/
theorem outcome_sized {op : TcpOption} {expected : UInt8} {body : Option TcpOption}
    (hkind : b[pos]? = some op.getKind) (hn : 2 ≤ n) (hpos : 0 < expected.toNat)
    (hop : op.getSerializedSize ≠ 0)
    (hbody : pos + expected.toNat ≤ b.length → ∃ o, body = some o)
    (hsize : ∀ o, body = some o → o.getKind ≠ 0 ∧ o.getSerializedSize = expected.toNat) :
    Outcome pos n (deserializeSized b pos op expected body)
      (Head.sized expected.toNat s .malformed area) := by
  have hread : deserializeSized b pos op expected body =
      if s ≠ expected then some ⟨0, op, pos + 2⟩
      else body.bind fun o => some ⟨o.getSerializedSize, o, pos + expected.toNat⟩ := by
    rw [deserializeSized, hkind, hs]
    simp
  rw [hread, Head.sized, Head.within, harea]
  by_cases heq : s = expected
  · have hne : ¬ s ≠ expected := fun h => h heq
    rw [if_neg hne, heq, if_pos rfl]
    split
    · obtain ⟨o, ho⟩ := hbody (by omega)
      obtain ⟨hk, hsz⟩ := hsize o ho
      rw [ho]
      exact ⟨_, rfl, hk, hsz, hsz, rfl, hpos, by assumption⟩
    · intro p hp
      obtain ⟨o, -, heq⟩ := Option.bind_eq_some_iff.mp hp
      cases heq
      left
      show pos + n < pos + expected.toNat
      omega
  · have hne : s.toNat ≠ expected.toNat := fun h => heq (UInt8.toNat_inj.mp h)
    rw [if_pos heq, if_neg hne]
    exact ⟨_, rfl, Ne.symm hop, Nat.add_le_add_left hn pos⟩

theorem outcome_winScale (hkind : b[pos]? = some 3) (hn : 2 ≤ n) :
    Outcome pos n (deserializeWinScale b pos) (Head.sized 3 s .malformed area) := by
  have hk : b[pos]? = some (getKind (winScale 0)) := hkind
  apply outcome_sized harea hlong hs hk hn (by decide) (by decide)
  · intro h
    have hlt : pos + 2 < b.length := h
    exact ⟨winScale b[pos + 2], by simp [List.getElem?_eq_getElem hlt]⟩
  · intro o ho
    obtain ⟨scale, -, heq⟩ := Option.bind_eq_some_iff.mp ho
    cases heq
    refine ⟨?_, rfl⟩
    rw [getKind]
    decide +kernel

theorem outcome_sackPermitted (hkind : b[pos]? = some 4) (hn : 2 ≤ n) :
    Outcome pos n (deserializeSackPermitted b pos) (Head.sized 2 s .malformed area) := by
  have hk : b[pos]? = some (getKind sackPermitted) := hkind
  apply outcome_sized harea hlong hs hk hn (by decide) (by decide)
  · intro _
    exact ⟨sackPermitted, rfl⟩
  · intro o ho
    cases ho
    exact ⟨by decide, rfl⟩

theorem outcome_ts (hkind : b[pos]? = some 8) (hn : 2 ≤ n) :
    Outcome pos n (deserializeTs b pos) (Head.sized 10 s .malformed area) := by
  have hk : b[pos]? = some (getKind (ts 0 0)) := hkind
  apply outcome_sized harea hlong hs hk hn (by decide) (by decide)
  · intro h
    have hten : (10 : UInt8).toNat = 10 := rfl
    obtain ⟨x, hx⟩ := exists_readWord b (pos + 2) 4 (by omega)
    obtain ⟨y, hy⟩ := exists_readWord b (pos + 6) 4 (by omega)
    exact ⟨ts (BitVec.ofNat 32 x) (BitVec.ofNat 32 y), by simp [hx, hy]⟩
  · intro o ho
    obtain ⟨x, -, ho⟩ := Option.bind_eq_some_iff.mp ho
    obtain ⟨y, -, heq⟩ := Option.bind_eq_some_iff.mp ho
    cases heq
    refine ⟨?_, rfl⟩
    rw [getKind]
    decide +kernel

theorem outcome_mss (hkind : b[pos]? = some 2) :
    Outcome pos n (deserializeMss b pos) (Head.sized 4 s .broken area) := by
  have hread : deserializeMss b pos = if s ≠ 4 then none
      else (readWord b (pos + 2) 2).bind fun m => some ⟨4, mss (BitVec.ofNat 16 m), pos + 4⟩ := by
    rw [deserializeMss, hkind, hs]
    simp
  rw [hread, Head.sized, Head.within, harea]
  by_cases heq : s = 4
  · have hne : ¬ s ≠ 4 := fun h => h heq
    rw [if_neg hne, heq, if_pos (by rfl)]
    split
    · obtain ⟨m, hm⟩ := exists_readWord b (pos + 2) 2 (by omega)
      rw [hm]
      have hk : (mss (BitVec.ofNat 16 m)).getKind ≠ 0 := by
        rw [getKind]
        decide +kernel
      exact ⟨_, rfl, hk, rfl, rfl, rfl, by decide, by assumption⟩
    · intro p hp
      obtain ⟨m, -, heq⟩ := Option.bind_eq_some_iff.mp hp
      cases heq
      left
      show pos + n < pos + 4
      omega
  · have hne : s.toNat ≠ 4 := fun h => heq (UInt8.toNat_inj.mp h)
    rw [if_pos heq, if_neg hne]
    intro p hp
    cases hp

theorem outcome_sack (hkind : b[pos]? = some 5) :
    Outcome pos n (deserializeSack b pos) (Head.within (2 + 8 * ((s.toNat - 2) / 8)) area) := by
  have hread : deserializeSack b pos = (readBlocks b (pos + 2) ((s.toNat - 2) / 8)).bind fun l =>
      some ⟨(sack l).getSerializedSize, sack l, pos + 2 + 8 * ((s.toNat - 2) / 8)⟩ := by
    rw [deserializeSack, hkind, hs]
    simp
  rw [hread, Head.within, harea]
  generalize (s.toNat - 2) / 8 = count
  split
  · obtain ⟨l, hl⟩ := exists_readBlocks b (pos + 2) count (by omega)
    have hlen := length_of_readBlocks hl
    rw [hl]
    have hsize : (sack l).getSerializedSize = 2 + 8 * count := by
      rw [getSerializedSize, hlen, Nat.mul_comm]
    have hk : (sack l).getKind ≠ 0 := by
      rw [getKind]
      decide +kernel
    exact ⟨_, rfl, hk, hsize, hsize, Nat.add_assoc pos 2 _, by omega, by assumption⟩
  · intro p hp
    obtain ⟨l, -, heq⟩ := Option.bind_eq_some_iff.mp hp
    cases heq
    left
    show pos + n < pos + 2 + 8 * count
    omega

theorem outcome_unknown {kind : UInt8} (hkind : b[pos]? = some kind) (hzero : kind ≠ 0) (hn : 2 ≤ n) :
    Outcome pos n (deserializeUnknown b pos)
      (if s = 0 then .broken else if s = 1 ∨ 40 < s.toNat then .malformed
        else .within s.toNat area) := by
  have hread : deserializeUnknown b pos =
      if s.toNat < 2 ∨ 40 < s.toNat then some ⟨0, unknown kind s.toNat [], pos + 2⟩
      else (readBytes b (pos + 2) (s.toNat - 2)).bind fun content =>
        some ⟨s.toNat, unknown kind s.toNat content, pos + s.toNat⟩ := by
    rw [deserializeUnknown, hkind, hs]
    simp
  rw [hread]
  by_cases h0 : s = 0
  · rw [if_pos h0, h0]
    intro p hp
    cases hp
    exact .inr ⟨rfl, rfl, hzero⟩
  · have hpos : s.toNat ≠ 0 := fun h => h0 (UInt8.toNat_inj.mp h)
    rw [if_neg h0]
    by_cases hbad : s = 1 ∨ 40 < s.toNat
    · have hcond : s.toNat < 2 ∨ 40 < s.toNat := by
        rcases hbad with rfl | hbad
        · exact .inl (by decide)
        · exact .inr hbad
      rw [if_pos hbad, if_pos hcond]
      exact ⟨_, rfl, Ne.symm hpos, Nat.add_le_add_left hn pos⟩
    · have hone : s.toNat ≠ 1 := fun h => hbad (.inl (UInt8.toNat_inj.mp h))
      have hcond : ¬ (s.toNat < 2 ∨ 40 < s.toNat) := by
        intro h
        rcases h with h | h
        · omega
        · exact hbad (.inr h)
      rw [if_neg hbad, if_neg hcond, Head.within, harea]
      split
      · obtain ⟨content, hc⟩ := exists_readBytes b (pos + 2) (s.toNat - 2) (by omega)
        rw [hc]
        exact ⟨_, rfl, hzero, rfl, rfl, rfl, by omega, by assumption⟩
      · intro p hp
        obtain ⟨content, -, heq⟩ := Option.bind_eq_some_iff.mp hp
        cases heq
        left
        show pos + n < pos + s.toNat
        omega

end Outcome

theorem outcome_eol (hkind : b[pos]? = some 0) : Outcome pos n (deserializeKind b pos eol) .padding := by
  have hread : deserializeKind b pos eol = some ⟨1, eol, pos + 1⟩ := by
    simp [deserializeKind, hkind, getKind]
  exact ⟨_, hread, rfl, rfl, rfl⟩

theorem outcome_nop (hkind : b[pos]? = some 1) (hn : 0 < n) :
    Outcome pos n (deserializeKind b pos nop) (.option 1) := by
  have hread : deserializeKind b pos nop = some ⟨1, nop, pos + 1⟩ := by
    simp [deserializeKind, hkind, getKind]
  have hk : nop.getKind ≠ 0 := by decide
  exact ⟨_, hread, hk, rfl, rfl, rfl, Nat.one_pos, hn⟩

theorem readTo_sized {op : TcpOption} {expected : UInt8} {body : Option TcpOption} {p : Parsed}
    (hkind : b[pos]? = some op.getKind) (hsize : 2 ≤ expected.toNat)
    (h : deserializeSized b pos op expected body = some p) : pos + 2 ≤ p.readTo := by
  rw [deserializeSized, hkind] at h
  simp only [Option.bind_eq_bind, Option.bind_some, ne_eq, not_true_eq_false, if_false,
    Option.bind_eq_some_iff] at h
  obtain ⟨s, -, h⟩ := h
  split at h
  · cases h
    exact Nat.le_refl _
  · obtain ⟨o, -, heq⟩ := Option.bind_eq_some_iff.mp h
    cases heq
    exact Nat.add_le_add_left hsize pos

/-- All kinds but two have a size byte. -/
theorem readTo_deserializeOption {kind : UInt8} {p : Parsed} (hkind : b[pos]? = some kind)
    (h0 : kind ≠ 0) (h1 : kind ≠ 1) (h : deserializeOption b pos kind = some p) :
    pos + 2 ≤ p.readTo := by
  rw [deserializeOption, if_neg h0, if_neg h1] at h
  split at h
  · subst kind
    simp only [deserializeMss, hkind, Option.bind_eq_bind, Option.bind_some, ne_eq,
      not_true_eq_false, if_false, Option.bind_eq_some_iff] at h
    obtain ⟨s, -, h⟩ := h
    split at h
    · cases h
    · obtain ⟨m, -, heq⟩ := Option.bind_eq_some_iff.mp h
      cases heq
      exact Nat.add_le_add_left (by decide) pos
  split at h
  · subst kind
    exact readTo_sized hkind (by decide) h
  split at h
  · subst kind
    exact readTo_sized hkind (by decide) h
  split at h
  · subst kind
    simp only [deserializeSack, hkind, Option.bind_eq_bind, Option.bind_some, ne_eq,
      not_true_eq_false, if_false, Option.bind_eq_some_iff] at h
    obtain ⟨s, -, l, -, heq⟩ := h
    cases heq
    exact Nat.le_add_right _ _
  split at h
  · subst kind
    exact readTo_sized hkind (by decide) h
  · simp only [deserializeUnknown, hkind, Option.bind_eq_bind, Option.bind_some,
      Option.bind_eq_some_iff] at h
    obtain ⟨s, -, h⟩ := h
    split at h
    · cases h
      exact Nat.le_refl _
    · obtain ⟨content, -, heq⟩ := Option.bind_eq_some_iff.mp h
      cases heq
      rename_i hbad
      show pos + 2 ≤ pos + s.toNat
      omega

/-- What an option does depends on the bytes of the area only. -/
theorem outcome_head (hn : 0 < n) (hle : n ≤ (b.drop pos).length) {kind : UInt8}
    (hkind : b[pos]? = some kind) :
    Outcome pos n (deserializeOption b pos kind) (head ((b.drop pos).take n)) := by
  have harea : ((b.drop pos).take n).length = n := List.length_take_of_le hle
  have hlong : pos + n ≤ b.length := by
    rw [List.length_drop] at hle
    omega
  have hget : ∀ i, i < n → ((b.drop pos).take n)[i]? = b[pos + i]? := by
    intro i hi
    rw [List.getElem?_take_of_lt hi, List.getElem?_drop]
  have hfirst := hget 0 hn
  rw [Nat.add_zero, hkind] at hfirst
  generalize (b.drop pos).take n = area at *
  match area with
  | [] => cases hfirst
  | [k] =>
    cases hfirst
    by_cases h0 : kind = 0
    · subst kind
      exact outcome_eol hkind
    by_cases h1 : kind = 1
    · subst kind
      exact outcome_nop hkind hn
    simp only [head, if_neg h0, if_neg h1]
    intro p hp
    have hread := readTo_deserializeOption hkind h0 h1 hp
    rw [List.length_singleton] at harea
    omega
  | k :: s :: tail =>
    have htwo : 2 ≤ n := by
      rw [← harea]
      simp
    have hs : b[pos + 1]? = some s := (hget 1 (by omega)).symm
    cases hfirst
    rw [head, deserializeOption]
    split
    · subst kind
      exact outcome_eol hkind
    split
    · subst kind
      exact outcome_nop hkind hn
    split
    · subst kind
      exact outcome_mss harea hlong hs hkind
    split
    · subst kind
      exact outcome_winScale harea hlong hs hkind htwo
    split
    · subst kind
      exact outcome_sackPermitted harea hlong hs hkind htwo
    split
    · subst kind
      exact outcome_sack harea hlong hs hkind
    split
    · subst kind
      exact outcome_ts harea hlong hs hkind htwo
    · exact outcome_unknown harea hlong hs hkind (by assumption) htwo

end TcpOption

end CudaNs3.Tcp
