import Mathlib.Algebra.Group.Int.Defs
import CudaNs3.Lib.Spans
import CudaNs3.Network.ByteTagStorage

/-!
# The positions of byte tags

As long as no offset leaves the range of `int32_t`, the records of a list are spans of positions
that move with the adjustment, and the operations cut them off where they say.
-/

namespace CudaNs3.Network

open Spans
set_option autoImplicit false

def TagRecord.span (adjustment : Int32) (r : TagRecord) : Span Tag :=
  ⟨r.tag, r.start.toInt + adjustment.toInt, r.end_.toInt + adjustment.toInt⟩

namespace ByteTagList

def Item.span (i : Item) : Span Tag := ⟨i.tag, i.start.toInt, i.end_.toInt⟩

/-- All offsets stand between `lo` and `hi`, which are less than `2 ^ 31` apart; so does the
position whose offset is stored as zero. -/
structure Within (adjustment : Int32) (rs : List TagRecord) (lo hi : Int) : Prop where
  room : lo ≤ 0 ∧ 0 ≤ hi ∧ hi - lo < 2 ^ 31
  origin : lo ≤ adjustment.toInt ∧ adjustment.toInt ≤ hi
  start : ∀ r ∈ rs, lo ≤ (r.span adjustment).start ∧ (r.span adjustment).start ≤ hi
  end_ : ∀ r ∈ rs, lo ≤ (r.span adjustment).end_ ∧ (r.span adjustment).end_ ≤ hi

/-! ### Arithmetic without overflow -/

theorem toInt_add_eq {a b : Int32} (hlo : -2 ^ 31 ≤ a.toInt + b.toInt)
    (hhi : a.toInt + b.toInt < 2 ^ 31) : (a + b).toInt = a.toInt + b.toInt := by
  rw [Int32.toInt_add]
  exact Int.bmod_eq_of_le (by omega) (by omega)

theorem toInt_sub_eq {a b : Int32} (hlo : -2 ^ 31 ≤ a.toInt - b.toInt)
    (hhi : a.toInt - b.toInt < 2 ^ 31) : (a - b).toInt = a.toInt - b.toInt := by
  rw [Int32.toInt_sub]
  exact Int.bmod_eq_of_le (by omega) (by omega)

variable {adjustment : Int32} {rs rs' : List TagRecord} {r : TagRecord} {lo hi p : Int} {i : Item}

namespace Within

theorem toInt_start (h : Within adjustment rs lo hi) (hr : r ∈ rs) :
    (r.start + adjustment).toInt = (r.span adjustment).start := by
  have hroom := h.room
  have hstart := h.start r hr
  unfold TagRecord.span at hstart
  exact toInt_add_eq (by simp only at hstart; omega) (by simp only at hstart; omega)

theorem toInt_end (h : Within adjustment rs lo hi) (hr : r ∈ rs) :
    (r.end_ + adjustment).toInt = (r.span adjustment).end_ := by
  have hroom := h.room
  have hend := h.end_ r hr
  unfold TagRecord.span at hend
  exact toInt_add_eq (by simp only at hend; omega) (by simp only at hend; omega)

theorem mono {lo' hi' : Int} (h : Within adjustment rs lo hi) (hlo : lo' ≤ lo) (hhi : hi ≤ hi')
    (hroom : hi' - lo' < 2 ^ 31) : Within adjustment rs lo' hi' := by
  have := h.room
  have := h.origin
  refine ⟨by omega, by omega, fun r hr => ?_, fun r hr => ?_⟩
  · have := h.start r hr
    omega
  · have := h.end_ r hr
    omega

theorem append (h : Within adjustment rs lo hi) (h' : Within adjustment rs' lo hi) :
    Within adjustment (rs ++ rs') lo hi := by
  refine ⟨h.room, h.origin, fun r hr => ?_, fun r hr => ?_⟩
  · rcases List.mem_append.mp hr with hr | hr
    · exact h.start r hr
    · exact h'.start r hr
  · rcases List.mem_append.mp hr with hr | hr
    · exact h.end_ r hr
    · exact h'.end_ r hr

end Within

/-- The iterator reports what stands within its two offsets. -/
theorem covering_item (h : Within adjustment rs lo hi) (offsetStart offsetEnd : Int32) (p : Int) :
    covering ((rs.filterMap (item offsetStart offsetEnd adjustment)).map Item.span) p =
      if offsetStart.toInt ≤ p ∧ p < offsetEnd.toInt then
        covering (rs.map (TagRecord.span adjustment)) p else [] := by
  rw [List.map_filterMap]
  apply covering_filterMap
  intro r hr
  have hstart := h.toInt_start hr
  have hend := h.toInt_end hr
  unfold item
  simp only [Int32.le_iff_toInt_le, Int32.lt_iff_toInt_lt, hstart, hend]
  by_cases haside : offsetEnd.toInt ≤ (r.span adjustment).start ∨
      (r.span adjustment).end_ ≤ offsetStart.toInt
  · rw [if_pos haside]
    intro hover
    have := hover.2.1
    have := hover.2.2
    omega
  · rw [if_neg haside]
    refine ⟨rfl, ?_⟩
    simp only [Item.span, Span.Over]
    split_ifs <;> omega

/-- Offsets between `lo` and `hi`. -/
def Fitting (lo hi : Int) (is : List Item) : Prop :=
  ∀ i ∈ is, (lo ≤ i.start.toInt ∧ i.start.toInt ≤ hi) ∧ lo ≤ i.end_.toInt ∧ i.end_.toInt ≤ hi

theorem fitting_item (h : Within adjustment rs lo hi) :
    Fitting 0 hi (rs.filterMap (item 0 offsetMax adjustment)) := by
  intro i hi'
  obtain ⟨r, hr, hitem⟩ := List.mem_filterMap.mp hi'
  have hstart := h.toInt_start hr
  have hend := h.toInt_end hr
  have hlo := h.start r hr
  have hhi := h.end_ r hr
  have hroom := h.room
  have hmax : offsetMax.toInt = 2 ^ 31 - 1 := rfl
  have hzero : (0 : Int32).toInt = 0 := rfl
  unfold item at hitem
  simp only [Int32.le_iff_toInt_le, Int32.lt_iff_toInt_lt, hstart, hend, hmax, hzero] at hitem
  split_ifs at hitem <;> obtain rfl := Option.some.inj hitem <;>
    simp only [hstart, hend, hzero, hmax] <;> omega

/-! ### Storing items -/

theorem Fitting.mono {lo' hi' : Int} {is : List Item} (h : Fitting lo hi is) (hlo : lo' ≤ lo)
    (hhi : hi ≤ hi') : Fitting lo' hi' is := by
  intro i hi'
  have := h i hi'
  omega

theorem span_record (hroom : hi - lo < 2 ^ 31) (ho : lo ≤ adjustment.toInt ∧ adjustment.toInt ≤ hi)
    (hs : lo ≤ i.start.toInt ∧ i.start.toInt ≤ hi) (he : lo ≤ i.end_.toInt ∧ i.end_.toInt ≤ hi) :
    (i.record adjustment).span adjustment = i.span := by
  have hstart := toInt_sub_eq (a := i.start) (b := adjustment) (by omega) (by omega)
  have hend := toInt_sub_eq (a := i.end_) (b := adjustment) (by omega) (by omega)
  simp only [Item.record, TagRecord.span, Item.span, hstart, hend, Int.sub_add_cancel]

theorem spans_records {is : List Item} (hroom : hi - lo < 2 ^ 31)
    (ho : lo ≤ adjustment.toInt ∧ adjustment.toInt ≤ hi) (his : Fitting lo hi is) :
    (is.map (Item.record adjustment)).map (TagRecord.span adjustment) = is.map Item.span := by
  rw [List.map_map]
  apply List.map_congr_left
  intro i hi'
  exact span_record hroom ho (his i hi').1 (his i hi').2

theorem within_records {is : List Item} (hroom : lo ≤ 0 ∧ 0 ≤ hi ∧ hi - lo < 2 ^ 31)
    (ho : lo ≤ adjustment.toInt ∧ adjustment.toInt ≤ hi) (his : Fitting lo hi is) :
    Within adjustment (is.map (Item.record adjustment)) lo hi := by
  refine ⟨hroom, ho, fun r hr => ?_, fun r hr => ?_⟩
  · obtain ⟨i, hi', rfl⟩ := List.mem_map.mp hr
    rw [span_record hroom.2.2 ho (his i hi').1 (his i hi').2]
    exact (his i hi').1
  · obtain ⟨i, hi', rfl⟩ := List.mem_map.mp hr
    rw [span_record hroom.2.2 ho (his i hi').1 (his i hi').2]
    exact (his i hi').2

/-! ### The operations on lists -/

/-- `l'` is the new list, and reports what `l` reports where `P` holds. -/
structure Cut (h : TagMemory) (ls : List ByteTagList) (l : ByteTagList) (rs : List TagRecord)
    (lo hi : Int) (P : Int → Prop) [DecidablePred P] (h' : TagMemory) (l' : ByteTagList)
    (rs' : List TagRecord) : Prop where
  becomes : Becomes h ls h' l' rs'
  within : Within l'.adjustment rs' lo hi
  covering : ∀ p, 0 ≤ p ∨ ¬ P p → covering (rs'.map (TagRecord.span l'.adjustment)) p =
    if P p then covering (rs.map (TagRecord.span l.adjustment)) p else []

section Cuts

variable {h : TagMemory} {l : ByteTagList} {ls : List ByteTagList} (offset : Int32)
  (hh : Holds h (l :: ls)) (hc : Carries h l rs) (hw : Within l.adjustment rs lo hi)
  (hlo : 0 ≤ offset.toInt) (hhi : offset.toInt ≤ hi)
include hh hc hw

/-- The list that is made of the items that `f` leaves. -/
theorem cut_rebuild {P : Int → Prop} [DecidablePred P] {f : Item → Option Item}
    (hP : ∀ (p : Int) (i : Item), i.span.Restricts (P p) p ((f i).map Item.span))
    (hf : ∀ i i', f i = some i' → (i'.start = i.start ∨ i'.start = offset) ∧
      (i'.end_ = i.end_ ∨ i'.end_ = offset)) (hoff : lo ≤ offset.toInt ∧ offset.toInt ≤ hi) :
    let is := (beginAll h l).filterMap f
    Cut h ls l rs lo hi P (rebuild h l is).1 (rebuild h l is).2 (is.map (Item.record 0)) := by
  intro is
  obtain ⟨hbecomes, hadj⟩ := rebuild_spec is hh
  have hitems : beginAll h l = rs.filterMap (item 0 offsetMax l.adjustment) := begin_spec hc _ _
  have hfit : Fitting lo hi is := by
    intro i' hi''
    obtain ⟨i, hi', hfi⟩ := List.mem_filterMap.mp hi''
    rw [hitems] at hi'
    have hmem := (fitting_item hw).mono hw.room.1 (Int.le_refl hi) i hi'
    obtain ⟨hstart, hend⟩ := hf i i' hfi
    constructor
    · rcases hstart with heq | heq <;> rw [heq]
      · exact hmem.1
      · exact hoff
    · rcases hend with heq | heq <;> rw [heq]
      · exact hmem.2
      · exact hoff
  have hzero : lo ≤ (0 : Int32).toInt ∧ (0 : Int32).toInt ≤ hi := ⟨hw.room.1, hw.room.2.1⟩
  refine ⟨hbecomes, ?_, fun p hp => ?_⟩
  · rw [hadj]
    exact within_records hw.room hzero hfit
  · rw [hadj, spans_records hw.room.2.2 hzero hfit, List.map_filterMap,
      covering_filterMap fun i _ => hP p i, hitems, covering_item hw]
    have hmax : offsetMax.toInt = 2 ^ 31 - 1 := rfl
    have hzero : (0 : Int32).toInt = 0 := rfl
    have hroom := hw.room
    split_ifs with hPp hin
    · rfl
    · -- no record reaches `p`
      symm
      apply covering_eq_nil_of_end_le
      intro s hs
      obtain ⟨r, hr, rfl⟩ := List.mem_map.mp hs
      have hend := (hw.end_ r hr).2
      have hpos : 0 ≤ p := hp.resolve_right fun h => h hPp
      omega
    · rfl

include hlo hhi

theorem addAtEnd_spec : ∃ rs', Cut h ls l rs lo hi (fun p => p < offset.toInt)
    (addAtEnd h l offset).1 (addAtEnd h l offset).2 rs' := by
  have hroom := hw.room
  have horigin := hw.origin
  unfold addAtEnd
  split_ifs with hmax
  · refine ⟨rs, Becomes.refl hh hc, hw, fun p _ => ?_⟩
    split_ifs with hp
    · rfl
    · apply covering_eq_nil_of_end_le
      intro s hs
      obtain ⟨r, hr, rfl⟩ := List.mem_map.mp hs
      have hle := Int32.le_iff_toInt_le.mp (Int32.le_trans (hc.le_maxEnd r hr) hmax)
      rw [toInt_sub_eq (by omega) (by omega)] at hle
      simp only [TagRecord.span]
      omega
  · refine ⟨_, cut_rebuild offset hh hc hw (fun p i => ?_) (fun i i' hi' => ?_)
      (by omega)⟩
    · simp only [Int32.le_iff_toInt_le, Int32.lt_iff_toInt_lt]
      by_cases haside : offset.toInt ≤ i.start.toInt
      · rw [if_pos haside]
        intro hover
        have hstart : i.start.toInt ≤ p := hover.2.1
        omega
      · rw [if_neg haside]
        refine ⟨rfl, ?_⟩
        simp only [Item.span, Span.Over]
        split_ifs <;> omega
    · split_ifs at hi' <;> obtain rfl := Option.some.inj hi'
      · exact ⟨.inl rfl, .inr rfl⟩
      · exact ⟨.inl rfl, .inl rfl⟩

theorem addAtStart_spec : ∃ rs', Cut h ls l rs lo hi (fun p => offset.toInt ≤ p)
    (addAtStart h l offset).1 (addAtStart h l offset).2 rs' := by
  have hroom := hw.room
  have horigin := hw.origin
  unfold addAtStart
  split_ifs with hmin
  · refine ⟨rs, Becomes.refl hh hc, hw, fun p _ => ?_⟩
    split_ifs with hp
    · rfl
    · apply covering_eq_nil_of_lt_start
      intro s hs
      obtain ⟨r, hr, rfl⟩ := List.mem_map.mp hs
      have hle := Int32.le_iff_toInt_le.mp (Int32.le_trans hmin (hc.minStart_le r hr))
      rw [toInt_sub_eq (by omega) (by omega)] at hle
      simp only [TagRecord.span]
      omega
  · refine ⟨_, cut_rebuild offset hh hc hw (fun p i => ?_) (fun i i' hi' => ?_)
      (by omega)⟩
    · simp only [Int32.le_iff_toInt_le, Int32.lt_iff_toInt_lt]
      by_cases haside : i.end_.toInt ≤ offset.toInt
      · rw [if_pos haside]
        intro hover
        have hend : p < i.end_.toInt := hover.2.2
        omega
      · rw [if_neg haside]
        refine ⟨rfl, ?_⟩
        simp only [Item.span, Span.Over]
        split_ifs <;> omega
    · split_ifs at hi' <;> obtain rfl := Option.some.inj hi'
      · exact ⟨.inr rfl, .inl rfl⟩
      · exact ⟨.inl rfl, .inl rfl⟩

end Cuts

end ByteTagList

end CudaNs3.Network
