import CudaNs3.Lib.Handles
import CudaNs3.Lib.Transition
import CudaNs3.Network.ByteTagPositions

/-!
# Packets with byte tags

Any number of packets, next to the byte strings they stand for, where every byte has its tags
with it. The operations on such strings are those on lists.
-/

namespace CudaNs3.Network

open Spans Handles
set_option autoImplicit false

/-! ### Strings of tagged bytes -/

/-- Every byte has its tags, in the order in which they were added. `before` and `after` say how
far offsets from before the last operations reach over the two ends. -/
structure TaggedBytes where
  before : Nat
  bytes : List (List Tag)
  after : Nat

namespace TaggedBytes

variable (t : TaggedBytes)

def extent : Nat := t.before + t.bytes.length + t.after

def create (size : Nat) : TaggedBytes := ⟨0, List.replicate size [], 0⟩

def addByteTagRange (tag : Tag) (start end_ : Nat) : TaggedBytes :=
  ⟨t.before, t.bytes.mapIdx fun i tags => if start ≤ i ∧ i < end_ then tags ++ [tag] else tags,
    max t.after (end_ - t.bytes.length)⟩

def addByteTag (tag : Tag) : TaggedBytes := t.addByteTagRange tag 0 t.bytes.length

def addAtStart (n : Nat) : TaggedBytes :=
  ⟨t.before - n, List.replicate n [] ++ t.bytes, t.after⟩

def removeAtStart (n : Nat) : TaggedBytes := ⟨t.before + n, t.bytes.drop n, t.after⟩

def padAtEnd (n : Nat) : TaggedBytes :=
  ⟨t.before, t.bytes ++ List.replicate n [], t.after - n⟩

def removeAtEnd (n : Nat) : TaggedBytes :=
  ⟨t.before, t.bytes.take (t.bytes.length - n), t.after + min n t.bytes.length⟩

def append (u : TaggedBytes) : TaggedBytes :=
  ⟨t.before, t.bytes ++ u.bytes, max (t.after - u.bytes.length) u.after⟩

def fragment (start length : Nat) : TaggedBytes :=
  ⟨t.before + start, (t.bytes.drop start).take length,
    t.after + (t.bytes.length - (start + length))⟩

end TaggedBytes

namespace TaggedPacket

open ByteTagList

/-- The records of the packet put the tags where `t` has them. -/
structure Follows (h : TagMemory) (p : TaggedPacket) (t : TaggedBytes) (rs : List TagRecord) :
    Prop where
  carries : Carries h p.byteTagList rs
  within : Within p.byteTagList.adjustment rs (-t.before) (t.bytes.length + t.after)
  size : p.getSize = t.bytes.length
  bytes : ∀ i : Nat, i < p.getSize →
    t.bytes[i]? = some (covering (rs.map (TagRecord.span p.byteTagList.adjustment)) i)

/-- `p` is new among the packets and follows `t`; the lists `ls` of the others are as they
were. -/
structure Yields (h : TagMemory) (ls : List ByteTagList) (h' : TagMemory) (p : TaggedPacket)
    (t : TaggedBytes) : Prop where
  holds : Holds h' (p.byteTagList :: ls)
  keeps : Keeps h h' ls
  follows : ∃ rs, Follows h' p t rs

variable {h h' : TagMemory} {p : TaggedPacket} {t : TaggedBytes} {rs : List TagRecord}
  {ls : List ByteTagList} {n : Nat}

theorem toInt_offset (hn : n < 2 ^ 31) : (offset n).toInt = n := Int32.toInt_ofNat_of_lt hn

theorem toInt_neg_offset (hn : n < 2 ^ 31) : (-offset n).toInt = -n := by
  rw [Int32.toInt_neg, toInt_offset hn]
  exact Int.bmod_eq_of_le (by omega) (by omega)

/-! ### Moving the spans -/

section Adjust

variable {l : ByteTagList} {lo hi lo' hi' : Int} {m : Int32}

theorem holds_adjust (hh : Holds h (l :: ls)) (m : Int32) : Holds h (l.adjust m :: ls) := by
  refine ⟨hh.counts, fun x hx => ?_⟩
  rcases List.mem_cons.mp hx with rfl | hx
  · exact hh.placed l List.mem_cons_self
  · exact hh.placed x (List.mem_cons_of_mem l hx)

theorem carries_adjust (hc : Carries h l rs) (m : Int32) : Carries h (l.adjust m) rs :=
  ⟨hc.stored, hc.minStart_le, hc.le_maxEnd⟩

theorem span_adjust (hw : Within l.adjustment rs lo hi) (hlo : lo' ≤ lo + m.toInt)
    (hhi : hi + m.toInt ≤ hi') (hroom : lo' ≤ 0 ∧ 0 ≤ hi' ∧ hi' - lo' < 2 ^ 31) (r : TagRecord) :
    r.span (l.adjust m).adjustment = (r.span l.adjustment).shift m.toInt := by
  have horigin := hw.origin
  have hadd : (l.adjustment + m).toInt = l.adjustment.toInt + m.toInt :=
    toInt_add_eq (by omega) (by omega)
  simp only [TagRecord.span, adjust, Span.shift, hadd, Int.add_assoc]

theorem within_adjust (hw : Within l.adjustment rs lo hi) (hlo : lo' ≤ lo + m.toInt)
    (hhi : hi + m.toInt ≤ hi') (hroom : lo' ≤ 0 ∧ 0 ≤ hi' ∧ hi' - lo' < 2 ^ 31) :
    Within (l.adjust m).adjustment rs lo' hi' := by
  have horigin := hw.origin
  have hadd : (l.adjust m).adjustment.toInt = l.adjustment.toInt + m.toInt :=
    toInt_add_eq (by omega) (by omega)
  refine ⟨hroom, by omega, fun r hr => ?_, fun r hr => ?_⟩
  · have hstart := hw.start r hr
    rw [span_adjust hw hlo hhi hroom]
    simp only [Span.shift]
    omega
  · have hend := hw.end_ r hr
    rw [span_adjust hw hlo hhi hroom]
    simp only [Span.shift]
    omega

theorem covering_adjust (hw : Within l.adjustment rs lo hi) (hlo : lo' ≤ lo + m.toInt)
    (hhi : hi + m.toInt ≤ hi') (hroom : lo' ≤ 0 ∧ 0 ≤ hi' ∧ hi' - lo' < 2 ^ 31) (q : Int) :
    covering (rs.map (TagRecord.span (l.adjust m).adjustment)) q =
      covering (rs.map (TagRecord.span l.adjustment)) (q - m.toInt) := by
  have hmap : rs.map (TagRecord.span (l.adjust m).adjustment) =
      (rs.map (TagRecord.span l.adjustment)).map (Span.shift m.toInt) := by
    rw [List.map_map]
    apply List.map_congr_left
    intro r _
    exact span_adjust hw hlo hhi hroom r
  rw [hmap, covering_shift]

end Adjust

/-! ### The operations -/

theorem create_yields (hh : Holds h ls) (hx : (TaggedBytes.create n).extent < 2 ^ 31) :
    Yields h ls h (create n) (TaggedBytes.create n) := by
  have hempty := becomes_empty hh
  simp only [TaggedBytes.extent, TaggedBytes.create, List.length_replicate] at hx
  refine ⟨hempty.holds, hempty.keeps, [], hempty.carries, ?_, ?_, fun i hi => ?_⟩
  · refine ⟨?_, ?_, fun r hr => ?_, fun r hr => ?_⟩
    · simp only [TaggedBytes.create, List.length_replicate]
      omega
    · simp only [TaggedBytes.create, List.length_replicate, create, empty, Int32.toInt_zero]
      omega
    · cases hr
    · cases hr
  · simp [create, TaggedBytes.create]
  · simp only [create] at hi
    simp [TaggedBytes.create, hi]

section Steps

variable (hh : Holds h (p.byteTagList :: ls)) (hf : Follows h p t rs)
include hh hf

theorem addByteTagRange_yields (tag : Tag) {start end_ : Nat} (hle : start ≤ end_)
    (hx : (t.addByteTagRange tag start end_).extent < 2 ^ 31) :
    Yields h ls (p.addByteTagRange h tag start end_).1 (p.addByteTagRange h tag start end_).2
      (t.addByteTagRange tag start end_) := by
  obtain ⟨hadd, hadj⟩ := add_spec hh hf.carries tag (offset start) (offset end_)
  simp only [TaggedBytes.extent, TaggedBytes.addByteTagRange, List.length_mapIdx] at hx
  have hstart : (offset start).toInt = start := toInt_offset (by omega)
  have hend : (offset end_).toInt = end_ := toInt_offset (by omega)
  have hw : Within p.byteTagList.adjustment rs (-t.before)
      (t.bytes.length + (max t.after (end_ - t.bytes.length) : Nat)) :=
    hf.within.mono (Int.le_refl _) (by omega) (by omega)
  let i : Item := ⟨tag, offset start, offset end_⟩
  have hfit : Fitting (-t.before) (t.bytes.length + (max t.after (end_ - t.bytes.length) : Nat))
      [i] := by
    intro x hx
    rw [List.mem_singleton.mp hx]
    simp only [i, hstart, hend]
    omega
  refine ⟨hadd.holds, hadd.keeps, _, hadd.carries, ?_, ?_, fun q hq => ?_⟩
  · have hnew := within_records hw.room hw.origin hfit
    have happend := hw.append hnew
    simp only [addByteTagRange, hadj, TaggedBytes.addByteTagRange, List.length_mapIdx]
    exact happend
  · simpa [addByteTagRange, TaggedBytes.addByteTagRange] using hf.size
  · have hspans := spans_records hw.room.2.2 hw.origin hfit
    have hold := hf.bytes q hq
    simp only [addByteTagRange, hadj, List.map_append, covering_append, TaggedBytes.addByteTagRange,
      List.getElem?_mapIdx, hold, Option.map_some]
    simp only [List.map_cons, List.map_nil, Item.record] at hspans
    rw [List.map_cons, List.map_nil, hspans]
    congr 1
    split_ifs with hin
    · rw [covering_cons_of_over]
      · rfl
      · simp only [Span.Over, Item.span, i, hstart, hend]
        omega
    · rw [covering_cons_of_not_over, covering_nil, List.append_nil]
      simp only [Span.Over, Item.span, i, hstart, hend]
      omega

theorem addAtStart_yields (hx : (t.addAtStart n).extent < 2 ^ 31) :
    Yields h ls (p.addHeader h n).1 (p.addHeader h n).2 (t.addAtStart n) := by
  simp only [TaggedBytes.extent, TaggedBytes.addAtStart, List.length_append,
    List.length_replicate] at hx
  have hn : (offset n).toInt = n := toInt_offset (by omega)
  have hlo : (-(t.before - n : Nat) : Int) ≤ -t.before + (offset n).toInt := by omega
  have hhi : (t.bytes.length + t.after : Int) + (offset n).toInt ≤
      n + t.bytes.length + t.after := by omega
  have hroom : (-(t.before - n : Nat) : Int) ≤ 0 ∧ 0 ≤ (n + t.bytes.length + t.after : Int) ∧
      (n + t.bytes.length + t.after : Int) - -(t.before - n : Nat) < 2 ^ 31 := by omega
  have hw := within_adjust hf.within hlo hhi hroom
  obtain ⟨rs', hcut⟩ := addAtStart_spec (offset n) (holds_adjust hh (offset n))
    (carries_adjust hf.carries (offset n)) hw (by omega) (by omega)
  refine ⟨hcut.becomes.holds, hcut.becomes.keeps, rs', hcut.becomes.carries, ?_, ?_,
    fun q hq => ?_⟩
  · have hlength : ((t.addAtStart n).bytes.length : Int) = n + t.bytes.length := by
      simp [TaggedBytes.addAtStart]
    rw [hlength]
    exact hcut.within
  · simp [addHeader, TaggedBytes.addAtStart, hf.size, Nat.add_comm]
  · have hcover := hcut.covering q (.inl (by omega))
    rw [covering_adjust hf.within hlo hhi hroom, hn] at hcover
    simp only [addHeader]
    rw [hcover]
    simp only [TaggedBytes.addAtStart]
    split_ifs with hqn
    · have hold := hf.bytes (q - n) (by simp only [addHeader] at hq; omega)
      rw [List.getElem?_append_right (by rw [List.length_replicate]; omega),
        List.length_replicate, hold]
      congr 2
      omega
    · rw [List.getElem?_append_left (by rw [List.length_replicate]; omega)]
      simp [List.getElem?_replicate]
      omega

theorem removeAtStart_yields (hx : (t.removeAtStart n).extent < 2 ^ 31) :
    Yields h ls h (p.removeAtStart n) (t.removeAtStart n) := by
  simp only [TaggedBytes.extent, TaggedBytes.removeAtStart, List.length_drop] at hx
  have hn : (-offset n).toInt = -n := toInt_neg_offset (by omega)
  have hlo : (-(t.before + n : Nat) : Int) ≤ -t.before + (-offset n).toInt := by omega
  have hhi : (t.bytes.length + t.after : Int) + (-offset n).toInt ≤
      (t.bytes.length - n : Nat) + t.after := by omega
  have hroom : (-(t.before + n : Nat) : Int) ≤ 0 ∧ 0 ≤ ((t.bytes.length - n : Nat) + t.after : Int) ∧
      ((t.bytes.length - n : Nat) + t.after : Int) - -(t.before + n : Nat) < 2 ^ 31 := by omega
  refine ⟨holds_adjust hh _, Keeps.refl h ls, rs, carries_adjust hf.carries _, ?_, ?_,
    fun q hq => ?_⟩
  · have hlength : (t.removeAtStart n).bytes.length = t.bytes.length - n := List.length_drop
    rw [hlength]
    exact within_adjust hf.within hlo hhi hroom
  · simp [removeAtStart, TaggedBytes.removeAtStart, hf.size]
  · simp only [removeAtStart] at hq ⊢
    rw [covering_adjust hf.within hlo hhi hroom, hn]
    have hold := hf.bytes (q + n) (by omega)
    simp only [TaggedBytes.removeAtStart]
    rw [List.getElem?_drop, Nat.add_comm, hold]
    congr 2
    omega

/-- What `AddTrailer`, `AddPaddingAtEnd` and `AddAtEnd` begin with. -/
theorem cut_at_end : ∃ rs', Cut h ls p.byteTagList rs (-t.before)
    (t.bytes.length + t.after) (fun q => q < t.bytes.length)
    (ByteTagList.addAtEnd h p.byteTagList (offset p.getSize)).1
    (ByteTagList.addAtEnd h p.byteTagList (offset p.getSize)).2 rs' := by
  have hroom := hf.within.room
  have hsize : (offset p.getSize).toInt = t.bytes.length := by
    rw [toInt_offset (by rw [hf.size]; omega), hf.size]
  have hcut := addAtEnd_spec (offset p.getSize) hh hf.carries hf.within (by omega) (by omega)
  rwa [hsize] at hcut

theorem padAtEnd_yields (hx : (t.padAtEnd n).extent < 2 ^ 31) :
    Yields h ls (p.addPaddingAtEnd h n).1 (p.addPaddingAtEnd h n).2 (t.padAtEnd n) := by
  simp only [TaggedBytes.extent, TaggedBytes.padAtEnd, List.length_append,
    List.length_replicate] at hx
  obtain ⟨rs', hcut⟩ := cut_at_end hh hf
  refine ⟨hcut.becomes.holds, hcut.becomes.keeps, rs', hcut.becomes.carries, ?_, ?_,
    fun q hq => ?_⟩
  · apply hcut.within.mono (Int.le_refl _)
    · simp only [TaggedBytes.padAtEnd, List.length_append, List.length_replicate]
      omega
    · simp only [TaggedBytes.padAtEnd, List.length_append, List.length_replicate]
      omega
  · simp [addPaddingAtEnd, TaggedBytes.padAtEnd, hf.size]
  · have hcover := hcut.covering q (.inl (by omega))
    simp only [addPaddingAtEnd] at hq ⊢
    rw [hcover]
    simp only [TaggedBytes.padAtEnd, Int.ofNat_lt]
    split_ifs with hlt
    · rw [List.getElem?_append_left hlt]
      exact hf.bytes q (by rw [hf.size]; exact hlt)
    · rw [List.getElem?_append_right (Nat.le_of_not_lt hlt)]
      rw [hf.size] at hq
      rw [List.getElem?_replicate, if_pos (by omega)]

theorem removeAtEnd_yields : Yields h ls h (p.removeAtEnd n) (t.removeAtEnd n) := by
  have hroom := hf.within.room
  refine ⟨hh, Keeps.refl h ls, rs, hf.carries, ?_, ?_, fun q hq => ?_⟩
  · apply hf.within.mono (Int.le_refl _)
    · simp only [TaggedBytes.removeAtEnd, List.length_take]
      omega
    · simp only [TaggedBytes.removeAtEnd, List.length_take]
      omega
  · simp only [removeAtEnd, TaggedBytes.removeAtEnd, List.length_take, hf.size]
    omega
  · simp only [removeAtEnd] at hq ⊢
    simp only [TaggedBytes.removeAtEnd]
    rw [← hf.size, List.getElem?_take_of_lt hq]
    exact hf.bytes q (by omega)

theorem copy_yields : Yields h (p.byteTagList :: ls) (p.copy h).1 (p.copy h).2 t := by
  have hkeeps := copy_keeps h p.byteTagList (p.byteTagList :: ls)
  have hcopy : p.copy h = ((ByteTagList.copy h p.byteTagList).1, p) := by
    unfold copy
    simp only [copy_snd]
  rw [hcopy]
  refine ⟨copy_holds hh List.mem_cons_self, hkeeps, rs, ?_, hf.within, hf.size, hf.bytes⟩
  exact hf.carries.of_stored (hkeeps _ List.mem_cons_self)

theorem fragment_yields {start length : Nat} (hle : start + length ≤ p.getSize)
    (hx : (t.fragment start length).extent < 2 ^ 31) :
    Yields h (p.byteTagList :: ls) (p.createFragment h start length).1
      (p.createFragment h start length).2 (t.fragment start length) := by
  rw [hf.size] at hle
  simp only [TaggedBytes.extent, TaggedBytes.fragment, List.length_take, List.length_drop] at hx
  have hlen : (t.fragment start length).bytes.length = length := by
    simp only [TaggedBytes.fragment, List.length_take, List.length_drop]
    omega
  set l₁ := p.byteTagList.adjust (-offset start) with hl₁
  set h₁ := (ByteTagList.copy h p.byteTagList).1 with hh₁
  have hcopy : Holds (ByteTagList.copy h₁ l₁).1 (l₁ :: l₁ :: p.byteTagList :: ls) :=
    copy_holds (holds_adjust (copy_holds hh List.mem_cons_self) _) List.mem_cons_self
  have hkeeps : ∀ ls', Keeps h ((ByteTagList.copy h₁ l₁).1.deallocate l₁.data) ls' := fun ls' =>
    (copy_keeps h p.byteTagList ls').trans
      ((copy_keeps h₁ l₁ ls').trans (deallocate_keeps _ l₁.data ls'))
  have hn : (-offset start).toInt = -start := toInt_neg_offset (by omega)
  have hlo : (-(t.before + start : Nat) : Int) ≤ -t.before + (-offset start).toInt := by omega
  have hhi : (t.bytes.length + t.after : Int) + (-offset start).toInt ≤
      length + (t.after + (t.bytes.length - (start + length)) : Nat) := by omega
  have hroom : (-(t.before + start : Nat) : Int) ≤ 0 ∧
      0 ≤ (length + (t.after + (t.bytes.length - (start + length)) : Nat) : Int) ∧
      (length + (t.after + (t.bytes.length - (start + length)) : Nat) : Int) -
        -(t.before + start : Nat) < 2 ^ 31 := by omega
  have hfragment : p.createFragment h start length =
      ((ByteTagList.copy h₁ l₁).1.deallocate l₁.data, ⟨length, l₁⟩) := by
    unfold createFragment
    simp only [copy_snd, ← hh₁, ← hl₁]
  rw [hfragment]
  refine ⟨deallocate_holds hcopy, hkeeps _, rs, ?_, ?_, hlen.symm, fun q hq => ?_⟩
  · apply carries_adjust
    exact hf.carries.of_stored (hkeeps [p.byteTagList] _ List.mem_cons_self)
  · have hwithin := within_adjust hf.within hlo hhi hroom
    rw [hlen]
    exact hwithin
  · have hlt : q < length := hq
    rw [covering_adjust hf.within hlo hhi hroom, hn]
    have hold := hf.bytes (q + start) (by rw [hf.size]; omega)
    simp only [TaggedBytes.fragment]
    rw [List.getElem?_take_of_lt hq, List.getElem?_drop, Nat.add_comm, hold]
    congr 2
    omega

/-- The copy that `AddAtEnd` makes of the other list, cut off at zero and moved to the end. -/
theorem moved_spec {m : Nat} (hm : m + t.bytes.length + t.after < 2 ^ 31) :
    ∃ rs', ∃ lo : Int, let r := ByteTagList.addAtStart h p.byteTagList 0
      Becomes h ls r.1 (r.2.adjust (offset m)) rs' ∧
      Within (r.2.adjust (offset m)).adjustment rs' lo (m + t.bytes.length + t.after) ∧
      ∀ q : Int, covering (rs'.map (TagRecord.span (r.2.adjust (offset m)).adjustment)) q =
        if (m : Int) ≤ q then
          covering (rs.map (TagRecord.span p.byteTagList.adjustment)) (q - m) else [] := by
  have hroom := hf.within.room
  have hzero : (0 : Int32).toInt = 0 := rfl
  have hn : (offset m).toInt = m := toInt_offset (by omega)
  obtain ⟨rs', hcut⟩ := addAtStart_spec 0 hh hf.carries hf.within (by omega) (by omega)
  have hlo : min 0 ((m : Int) - t.before) ≤ -t.before + (offset m).toInt := by omega
  have hhi : (t.bytes.length + t.after : Int) + (offset m).toInt ≤
      m + t.bytes.length + t.after := by omega
  have hroom' : min 0 ((m : Int) - t.before) ≤ 0 ∧ 0 ≤ (m + t.bytes.length + t.after : Int) ∧
      (m + t.bytes.length + t.after : Int) - min 0 ((m : Int) - t.before) < 2 ^ 31 := by omega
  refine ⟨rs', min 0 ((m : Int) - t.before), ⟨holds_adjust hcut.becomes.holds _,
    hcut.becomes.keeps, carries_adjust hcut.becomes.carries _⟩,
    within_adjust hcut.within hlo hhi hroom', fun q => ?_⟩
  rw [covering_adjust hcut.within hlo hhi hroom', hn, hcut.covering (q - m) (by omega)]
  split_ifs <;> first | rfl | omega

theorem append_yields {o : TaggedPacket} {u : TaggedBytes} {rs' : List TagRecord}
    (ho : o.byteTagList ∈ ls) (hfo : Follows h o u rs') (hx : (t.append u).extent < 2 ^ 31) :
    Yields h ls (p.addAtEnd h o).1 (p.addAtEnd h o).2 (t.append u) := by
  simp only [TaggedBytes.extent, TaggedBytes.append, List.length_append] at hx
  have hroomu := hfo.within.room
  obtain ⟨rs₁, hcut⟩ := cut_at_end hh hf
  set h₁ := (ByteTagList.addAtEnd h p.byteTagList (offset p.getSize)).1 with hh₁
  set l₁ := (ByteTagList.addAtEnd h p.byteTagList (offset p.getSize)).2 with hl₁
  have hcopy : Holds (ByteTagList.copy h₁ o.byteTagList).1 (o.byteTagList :: l₁ :: ls) :=
    copy_holds hcut.becomes.holds (List.mem_cons_of_mem _ ho)
  have hkeeps : Keeps h (ByteTagList.copy h₁ o.byteTagList).1 ls :=
    hcut.becomes.keeps.trans (copy_keeps h₁ o.byteTagList ls)
  have hfo' : Follows (ByteTagList.copy h₁ o.byteTagList).1 o u rs' :=
    ⟨hfo.carries.of_stored (hkeeps _ ho), hfo.within, hfo.size, hfo.bytes⟩
  set h₂ := (ByteTagList.copy h₁ o.byteTagList).1 with hh₂
  obtain ⟨rs₂, lo, hmoved, hwithin, hcover⟩ := moved_spec hcopy hfo' (m := p.getSize)
    (by rw [hf.size]; omega)
  set h₃ := (ByteTagList.addAtStart h₂ o.byteTagList 0).1 with hh₃
  set l₃ := (ByteTagList.addAtStart h₂ o.byteTagList 0).2.adjust (offset p.getSize) with hl₃
  have hl₁c : Carries h₃ l₁ rs₁ := by
    have h₁c := hcut.becomes.carries.of_stored
      (copy_keeps h₁ o.byteTagList [l₁] l₁ List.mem_cons_self)
    exact h₁c.of_stored (hmoved.keeps l₁ List.mem_cons_self)
  have hitems : beginAll h₃ l₃ = rs₂.filterMap (item 0 offsetMax l₃.adjustment) :=
    begin_spec hmoved.carries _ _
  obtain ⟨hadd, hadj⟩ := addItems_spec (beginAll h₃ l₃)
    (hmoved.holds.perm (List.Perm.swap l₁ l₃ ls)) hl₁c
  set h₄ := (addItems h₃ l₁ (beginAll h₃ l₃)).1 with hh₄
  set l₄ := (addItems h₃ l₁ (beginAll h₃ l₃)).2 with hl₄
  have happend : p.addAtEnd h o = (h₄.deallocate l₃.data, ⟨p.getSize + o.getSize, l₄⟩) := by
    unfold addAtEnd addList
    simp only [← hh₁, ← hl₁, copy_snd, ← hh₂, ← hh₃, ← hl₃, ← hh₄, ← hl₄]
  have hlen : ((t.append u).bytes.length : Int) + (t.append u).after = t.bytes.length +
      u.bytes.length + (max (t.after - u.bytes.length) u.after : Nat) := by
    simp [TaggedBytes.append]
  have hwin : Within l₁.adjustment rs₁ (-t.before) (t.bytes.length + u.bytes.length +
      (max (t.after - u.bytes.length) u.after : Nat)) :=
    hcut.within.mono (Int.le_refl _) (by omega) (by omega)
  have hfit : Fitting (-t.before) (t.bytes.length + u.bytes.length +
      (max (t.after - u.bytes.length) u.after : Nat)) (beginAll h₃ l₃) := by
    rw [hitems]
    exact (fitting_item hwithin).mono (by omega) (by rw [hf.size]; omega)
  have hkeeps₃ : Keeps h h₃ ls :=
    hkeeps.trans (hmoved.keeps.sub fun x hx => List.mem_cons_of_mem l₁ hx)
  have hkeeps₄ : Keeps h h₄ ls :=
    hkeeps₃.trans (hadd.keeps.sub fun x hx => List.mem_cons_of_mem l₃ hx)
  rw [happend]
  refine ⟨deallocate_holds (hadd.holds.perm (List.Perm.swap l₃ l₄ ls)),
    hkeeps₄.trans (deallocate_keeps h₄ l₃.data ls), _,
    hadd.carries.of_stored (deallocate_keeps h₄ l₃.data [l₄] l₄ List.mem_cons_self), ?_, ?_,
    fun q hq => ?_⟩
  · rw [hlen]
    simp only [hadj]
    exact hwin.append (within_records hwin.room hwin.origin hfit)
  · simp [TaggedBytes.append, hf.size, hfo.size]
  · have hlt : q < p.getSize + o.getSize := hq
    have hsize := hf.size
    have hsize' := hfo.size
    have hmax : offsetMax.toInt = 2 ^ 31 - 1 := rfl
    have hzero : (0 : Int32).toInt = 0 := rfl
    simp only [hadj]
    rw [List.map_append, covering_append, spans_records hwin.room.2.2 hwin.origin hfit, hitems,
      covering_item hwithin, if_pos (by omega), hcover, hcut.covering q (by omega)]
    simp only [TaggedBytes.append]
    by_cases hqt : q < t.bytes.length
    · rw [if_pos (by omega), if_neg (by omega), List.append_nil, List.getElem?_append_left hqt]
      exact hf.bytes q (by omega)
    · have hold := hfo.bytes (q - p.getSize) (by omega)
      rw [if_neg (by omega), if_pos (by omega), List.nil_append,
        List.getElem?_append_right (by omega), ← hsize, hold]
      congr 2
      omega

end Steps

end TaggedPacket

end CudaNs3.Network
