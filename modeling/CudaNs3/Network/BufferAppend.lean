import CudaNs3.Network.BufferIterator

/-!
# Growing and joining

What `AddAtStart`, `AddAtEnd` and `CreateFullCopy` do to the bytes of a Buffer and to those of
all others. Of the two branches of `AddAtEnd(const Buffer&)`, one writes at a wrong place when
the other Buffer has bytes behind its zero area.
-/

namespace CudaNs3.Network.Buffer

set_option autoImplicit false

variable {h h' : Memory} {b o x y : Buffer} {bs : List UInt8} {rest : List Buffer} {n : Nat}

/-- All of the Buffers are as they should be and `x` reports `bs`. -/
structure Becomes (h : Memory) (rest : List Buffer) (h' : Memory) (x : Buffer) (bs : List UInt8) :
    Prop where
  shares : Shares h' (x :: rest)
  keeps : Keeps h h' rest
  contents : contents h' x = bs

theorem Becomes.keep {h'' : Memory} (hb : Becomes h' rest h'' x bs) (hk : Keeps h h' rest) :
    Becomes h rest h'' x bs := ⟨hb.shares, hk.trans hb.keeps, hb.contents⟩

theorem addAtStart_write (hs : Shares h (b :: rest)) (bs : List UInt8) :
    ∃ h' x, addAtStart h b bs.length = .ok (h', x) ∧ x.Fits x.start bs.length ∧
      x.Placed h' ∧ x.zeroSize = b.zeroSize ∧ (x.data = b.data ∨ ∀ y ∈ rest, y.data ≠ x.data) ∧
      Keeps h h' rest ∧ Becomes h rest (h'.poke x.data (x.offset x.start) bs) x (bs ++ contents h b) := by
  obtain ⟨h', x, heq, hg, hroom, hzero, hsize, hown, hdrop⟩ := addAtStart_spec hs bs.length
  have hx := hg.shares.placed x List.mem_cons_self
  have hfit : x.Fits x.start bs.length := .inl ⟨Nat.le_refl _, hroom⟩
  have hoff : x.offset x.start = x.start := by
    have := hx.zero_le
    unfold offset
    split_ifs <;> omega
  have hw := hg.write
  refine ⟨h', x, heq, hfit, hx, hzero, hown, hg.keeps, ?_, ?_, ?_⟩
  · rw [hoff]
    exact hw.1
  · rw [hoff]
    exact hw.2
  · rw [hx.contents_poke hfit, Nat.sub_self, List.take_zero, List.nil_append, Nat.zero_add, hdrop]

theorem addAtEnd_write (hs : Shares h (b :: rest)) (bs : List UInt8) :
    ∃ h' x, addAtEnd h b bs.length = .ok (h', x) ∧ Extends h b rest bs.length h' x ∧
      bs.length ≤ x.end_ ∧ x.Fits (x.end_ - bs.length) bs.length ∧ x.Placed h' ∧
      x.zeroSize = b.zeroSize ∧ Keeps h h' rest ∧ Shares h' (x :: rest) ∧
      Becomes h rest (h'.poke x.data (x.offset (x.end_ - bs.length)) bs) x
        (contents h b ++ bs) := by
  obtain ⟨h', x, heq, hg, hext, hroom, hzero, hsize, htake⟩ := addAtEnd_spec hs bs.length
  have hx := hg.shares.placed x List.mem_cons_self
  have hxz := hx.zero_le
  have hxs := hx.start_le
  have hfit : x.Fits (x.end_ - bs.length) bs.length := by
    unfold Fits
    omega
  have hoff : x.offset (x.end_ - bs.length) = x.getInternalEnd - bs.length := by
    unfold offset getInternalEnd
    split_ifs <;> omega
  have hw := hg.write
  refine ⟨h', x, heq, hext, by omega, hfit, hx, hzero, hg.keeps, hg.shares, ?_, ?_, ?_⟩
  · rw [hoff]
    exact hw.1
  · rw [hoff]
    exact hw.2
  · have hb : x.end_ - bs.length - x.start = b.getSize := by
      unfold getSize at *
      omega
    have hall : (contents h' x).drop (b.getSize + bs.length) = [] := by
      apply List.drop_eq_nil_of_le
      exact Nat.le_of_eq (by rw [length_contents, hsize])
    rw [hx.contents_poke hfit, hb, htake, hall, List.append_nil]

/-! ### The three parts of a Buffer -/

theorem Ordered.read_head (hb : b.Ordered) (h : Memory) :
    Bytes.read (h.blocks b.data).bytes b.start (b.zeroAreaStart - b.start) =
      (contents h b).take (b.zeroAreaStart - b.start) := by
  have hstart := hb.start_le
  have hzero := hb.zero_le
  have hend := hb.le_end
  rw [contents, Bytes.take_read, Nat.min_eq_left (by unfold getSize; omega)]
  apply Bytes.read_congr
  intro p hp hlt
  exact (if_pos (by omega)).symm

theorem Ordered.read_tail (hb : b.Ordered) (h : Memory) :
    Bytes.read (h.blocks b.data).bytes b.zeroAreaStart (b.end_ - b.zeroAreaEnd) =
      (contents h b).drop (b.zeroAreaEnd - b.start) := by
  have hstart := hb.start_le
  have hzero := hb.zero_le
  have hend := hb.le_end
  rw [contents, Bytes.drop_read,
    show b.getSize - (b.zeroAreaEnd - b.start) = b.end_ - b.zeroAreaEnd by unfold getSize; omega]
  apply Bytes.read_eq_of_forall
  intro i hi
  unfold byteAt
  rw [if_neg (by omega), if_neg (by omega)]
  congr 1
  omega

theorem Ordered.contents_eq (hb : b.Ordered) (h : Memory) :
    contents h b = (contents h b).take (b.zeroAreaStart - b.start) ++
      (List.replicate b.zeroSize 0 ++ (contents h b).drop (b.zeroAreaEnd - b.start)) := by
  have hstart := hb.start_le
  have hzero := hb.zero_le
  have hend := hb.le_end
  have hmid : ((contents h b).drop (b.zeroAreaStart - b.start)).take b.zeroSize =
      List.replicate b.zeroSize 0 := by
    rw [contents, Bytes.drop_read, Bytes.take_read,
      Nat.min_eq_left (by unfold getSize zeroSize; omega)]
    apply List.ext_getElem?
    intro i
    by_cases hi : i < b.zeroSize
    · rw [Bytes.getElem?_read _ _ hi, List.getElem?_replicate_of_lt hi]
      unfold zeroSize at hi
      unfold byteAt
      rw [if_neg (by omega), if_pos (by omega)]
    · rw [List.getElem?_eq_none (by rw [Bytes.length_read]; omega),
        List.getElem?_eq_none (by rw [List.length_replicate]; omega)]
  have hdrop : (contents h b).drop (b.zeroAreaEnd - b.start) =
      ((contents h b).drop (b.zeroAreaStart - b.start)).drop b.zeroSize := by
    rw [List.drop_drop]
    congr 1
    unfold zeroSize
    omega
  rw [hdrop, ← hmid, List.take_append_drop, List.take_append_drop]

theorem end_prev (hle : n ≤ b.end_) : b.end.prev n = .ok (b.iterator (b.end_ - n)) := by
  unfold Iterator.prev
  rw [check_pos (show n ≤ b.end.current from hle)]
  rfl

/-- A copy without a zero area: on a block of its own, or, when there is no zero area to begin
with, a plain copy. -/
theorem createFullCopy_spec (hs : Shares h (b :: rest)) :
    ∃ h' t, createFullCopy h b = .ok (h', t) ∧ Becomes h (b :: rest) h' t (contents h b) ∧
      t.zeroSize = 0 ∧
      if b.zeroSize = 0 then (h', t) = copy h b else ∀ y ∈ b :: rest, y.data ≠ t.data := by
  by_cases hz : b.zeroSize = 0
  · have hz' : b.zeroAreaEnd - b.zeroAreaStart = 0 := hz
    refine ⟨(copy h b).1, (copy h b).2, ?_, ⟨copy_shares hs, ?_, contents_copy h b⟩, hz, ?_⟩
    · unfold createFullCopy
      rw [if_neg (by omega)]
    · exact (recounts_copy h b).keeps _
    · rw [if_pos hz]
  · have hord := (hs.placed b List.mem_cons_self).toOrdered
    have hmem : b ∈ b :: rest := List.mem_cons_self
    have hfresh : ∀ y ∈ b :: rest, y.data ≠ (construct h 0).2.data :=
      fun y hy => Nat.ne_of_lt (hs.placed y hy).known
    have hown : ∀ {t t' : Buffer}, (t'.data = t.data ∨ ∀ y ∈ b :: rest, y.data ≠ t'.data) →
        (∀ y ∈ b :: rest, y.data ≠ t.data) → ∀ y ∈ b :: rest, y.data ≠ t'.data := by
      intro t t' hor hne
      rcases hor with heq | hne'
      · rwa [heq]
      · exact hne'
    -- the zeros
    obtain ⟨h1, t1, heq1, hfit1, hpl1, hz1, hor1, -, hb1⟩ :=
      addAtStart_write (construct_shares hs 0) (List.replicate b.zeroSize 0)
    rw [List.length_replicate] at heq1 hfit1
    have hw1 := writeU8s_spec (v := 0) hpl1.toOrdered hpl1.stored hfit1
    rw [contents_construct, List.replicate_zero, List.append_nil] at hb1
    have hk1 := (construct_keeps hs 0).trans hb1.keeps
    -- the bytes before the zero area
    obtain ⟨h2, t2, heq2, hfit2, hpl2, hz2, hor2, hk2, hb2⟩ :=
      addAtStart_write hb1.shares ((contents h b).take (b.zeroAreaStart - b.start))
    have hhead : Bytes.read (h2.blocks b.data).bytes b.start (b.zeroAreaStart - b.start) =
        (contents h b).take (b.zeroAreaStart - b.start) := by
      rw [hord.read_head, (hk1.trans hk2) b hmem]
    have hlen2 := congrArg List.length hhead
    rw [Bytes.length_read] at hlen2
    have hw2 := write_spec hpl2.toOrdered hpl2.stored hfit2
    have hk2' := hk1.trans hb2.keeps
    -- the bytes behind it
    obtain ⟨h3, t3, heq3, hext3, hle3, hfit3, hpl3, hz3, hk3, -, hb3⟩ :=
      addAtEnd_write hb2.shares ((contents h b).drop (b.zeroAreaEnd - b.start))
    have htail : Bytes.read (h3.blocks b.data).bytes b.zeroAreaStart (b.end_ - b.zeroAreaEnd) =
        (contents h b).drop (b.zeroAreaEnd - b.start) := by
      rw [hord.read_tail, (hk2'.trans hk3) b hmem]
    have hlen3 := congrArg List.length htail
    rw [Bytes.length_read] at hlen3
    have hw3 := write_spec hpl3.toOrdered hpl3.stored hfit3
    refine ⟨_, t3, ?_, ⟨hb3.shares, hk2'.trans hb3.keeps, ?_⟩, ?_, ?_⟩
    · unfold createFullCopy
      rw [if_pos (show b.zeroAreaEnd - b.zeroAreaStart ≠ 0 from hz)]
      rw [← hlen2] at heq2
      rw [hlen3] at htail
      unfold zeroSize at *
      simp only [heq1, bind, Except.bind, begin, hw1, heq2, hhead, hw2, hlen3, heq3, end_prev hle3,
        htail, hw3]
      rfl
    · rw [hb3.contents, hb2.contents, hb1.contents, List.append_assoc]
      exact (hord.contents_eq h).symm
    · rw [hz3, hz2, hz1]
      simp [construct, zeroSize]
    · rw [if_neg hz]
      exact hext3.own (hown hor2 (hown hor1 hfresh))

/-! ### Joining two Buffers -/

/-- The Buffer that `*this = CreateFullCopy()` leaves. -/
theorem fullCopy_assigned (hs : Shares h (b :: rest)) :
    ∃ h1 t, createFullCopy h b = .ok (h1, t) ∧
      Becomes h rest (destroy (assign h1 b t).1 t) t (contents h b) ∧ t.zeroSize = 0 ∧
      if b.zeroSize = 0 then
        t = { b with maxZeroAreaStart := b.zeroAreaStart } ∧
          ∀ k, (destroy (assign h1 b t).1 t).blocks k = h.blocks k
      else ∀ y ∈ rest, y.data ≠ t.data := by
  obtain ⟨h1, t, heq, hb, hzero, hcase⟩ := createFullCopy_spec hs
  have hshares := assign_shares (hb.shares.perm (List.Perm.swap b t rest)) List.mem_cons_self
  have hkeeps : Keeps h1 (destroy (assign h1 b t).1 t) (t :: b :: rest) :=
    (assign_keeps h1 b t _).trans (destroy_keeps _ _ _)
  refine ⟨h1, t, heq, ⟨destroy_shares hshares, ?_, ?_⟩, hzero, ?_⟩
  · intro y hy
    rw [hkeeps y (List.mem_cons_of_mem _ (List.mem_cons_of_mem _ hy))]
    exact hb.keeps y (List.mem_cons_of_mem _ hy)
  · rw [hkeeps t List.mem_cons_self]
    exact hb.contents
  · split_ifs at hcase ⊢ with hz
    · obtain ⟨rfl, rfl⟩ := Prod.mk.inj hcase
      refine ⟨rfl, fun k => ?_⟩
      simp only [destroy, release_blocks, assign, ite_true]
      by_cases hk : k = b.data <;> simp [hk]
    · exact fun y hy => hcase y (List.mem_cons_of_mem _ hy)

theorem addAtEndBuffer_general (hs : Shares h (b :: rest)) (ho : o ∈ rest)
    (hj : ¬ joins h b o) :
    if b.zeroSize = 0 ∧ b.data = o.data ∧ growsInPlace h b o.getSize then
      addAtEndBuffer h b o = .error .assertion
    else ∃ h' x, addAtEndBuffer h b o = .ok (h', x) ∧
      Becomes h rest h' x (contents h b ++ contents h o) := by
  obtain ⟨h1, t, heq, hb, hzero, hcase⟩ := fullCopy_assigned hs
  generalize hg : destroy (assign h1 b t).1 t = h2 at hb hcase
  have hco : contents h2 o = contents h o := hb.keeps o ho
  obtain ⟨h3, x, heq3, hext, hle, hfit, hplaced, hz3, hk3, -, hb3⟩ :=
    addAtEnd_write hb.shares (contents h o)
  rw [length_contents] at heq3 hext hle hfit hb3
  have hzx : x.zeroSize = 0 := by rw [hz3, hzero]
  have hord := (hs.placed o (List.mem_cons_of_mem _ ho)).toOrdered
  have hrun : addAtEndBuffer h b o =
      (x.iterator (x.end_ - o.getSize)).writeFrom h3 o.begin o.end >>= fun r =>
        .ok (r.1, x) := by
    have hassign : (assign h1 b t).2 = t := rfl
    unfold addAtEndBuffer
    rw [if_neg hj]
    simp only [heq, bind, Except.bind, hassign, hg, heq3, end_prev hle]
    rfl
  have hblock : x.data = o.data ↔
      b.zeroSize = 0 ∧ b.data = o.data ∧ growsInPlace h b o.getSize := by
    unfold Extends at hext
    by_cases hz : b.zeroSize = 0
    · rw [if_pos hz] at hcase
      obtain ⟨rfl, hblocks⟩ := hcase
      have hgrow : growsInPlace h2 { b with maxZeroAreaStart := b.zeroAreaStart } o.getSize ↔
          growsInPlace h b o.getSize := by
        unfold growsInPlace
        rw [hblocks]
        rfl
      by_cases hgr : growsInPlace h b o.getSize
      · rw [if_pos (hgrow.mpr hgr)] at hext
        rw [hext.1]
        exact ⟨fun hd => ⟨hz, hd, hgr⟩, fun hd => hd.2.1⟩
      · rw [if_neg (fun h => hgr (hgrow.mp h))] at hext
        exact ⟨fun hd => absurd hd.symm (hext.1 o ho), fun hd => absurd hd.2.2 hgr⟩
    · rw [if_neg hz] at hcase
      have hne : o.data ≠ x.data := by
        split_ifs at hext
        · rw [hext.1]
          exact hcase o ho
        · exact hext.1 o ho
      exact ⟨fun hd => absurd hd.symm hne, fun hd => absurd hd.1 hz⟩
  rw [hrun]
  split_ifs with hbad
  · -- `NS_ASSERT(m_data != start.m_data)`
    have hsame := hblock.mpr hbad
    unfold Iterator.writeFrom
    rw [check_pos (show o.begin.data = o.end.data from rfl),
      check_pos (show o.begin.current ≤ o.end.current from
        Nat.le_trans hord.start_le (Nat.le_trans hord.zero_le hord.le_end)),
      check_pos (show o.begin.zeroStart = o.end.zeroStart from rfl),
      check_pos (show o.begin.zeroEnd = o.end.zeroEnd from rfl),
      check_neg (show ¬ (x.iterator (x.end_ - o.getSize)).data ≠ o.begin.data from
        fun hne => hne hsame)]
    rfl
  · have hne : x.data ≠ o.data := fun hd => hbad (hblock.mp hd)
    have hoff : x.offset (x.end_ - o.getSize) = x.end_ - o.getSize := by
      unfold zeroSize at hzx
      unfold offset
      rw [hzx]
      split_ifs <;> rfl
    have hwrite := writeFrom_spec (h := h3) (x.iterator (x.end_ - o.getSize)) hord
      (Nat.le_refl _) (Nat.le_trans hord.start_le (Nat.le_trans hord.zero_le hord.le_end)) hne
      (hplaced.checkNoZero hfit)
    have hstore := hplaced.store_offset (contents h o) hplaced.stored (by
      rw [length_contents]
      exact hfit)
    rw [hoff] at hstore hb3
    rw [Nat.sub_self, List.drop_zero, hk3 o ho, hco] at hwrite
    rw [hb.contents] at hb3
    refine ⟨_, x, ?_, hb3.keep hb.keeps⟩
    change ((x.iterator (x.end_ - o.getSize)).writeFrom h3 (o.iterator o.start) o.end >>= _) = _
    rw [hwrite]
    change (h3.store x.data (x.end_ - o.getSize) (contents h o) >>= _ >>= _) = _
    rw [hstore]
    rfl

/-- The bytes behind the zero area of `o` are written behind the end of the block. -/
def overruns (h : Memory) (b o : Buffer) : Prop :=
  0 < o.end_ - o.zeroAreaEnd ∧
    if b.getInternalEnd + (o.end_ - o.zeroAreaEnd) ≤ (h.blocks b.data).size then
      (h.blocks b.data).size < b.end_ + o.getSize
    else
      ((h.create (b.getInternalSize + (o.end_ - o.zeroAreaEnd))).1.blocks h.next).size <
        b.getSize + o.getSize

instance (h : Memory) (b o : Buffer) : Decidable (overruns h b o) := by
  unfold overruns; infer_instance

/-- What the joined zero areas make of `b`. -/
def joined (b o : Buffer) : Buffer :=
  { b with
    zeroAreaStart := if b.zeroAreaStart = b.zeroAreaEnd then b.end_ else b.zeroAreaStart
    zeroAreaEnd := b.end_ + o.zeroSize
    end_ := b.end_ + o.zeroSize }

theorem joined_spec (hs : Shares h (b :: rest)) (hj : joins h b o) :
    Becomes h rest (h.setDirty b.data (h.blocks b.data).dirtyStart (b.end_ + o.zeroSize))
      (joined b o) (contents h b ++ List.replicate o.zeroSize 0) := by
  obtain ⟨hone, hflat, hdirty, hzs, hpos⟩ := hj
  have hb := hs.placed b List.mem_cons_self
  have hstart := hb.start_le
  have hzero := hb.zero_le
  have hend := hb.le_end
  refine ⟨?_, setDirty_keeps _ _ _ _ _, ?_⟩
  · apply hs.widen (x := joined b o)
    · constructor
      · simp only [joined]
        split_ifs <;> omega
      · simp only [joined]
        split_ifs <;> omega
      · exact Nat.le_refl _
    · rfl
    · exact hb.dirtyStart_le
    · exact Nat.le_refl _
    · have hstored := hb.stored
      unfold getInternalEnd at hstored ⊢
      simp only [joined]
      split_ifs <;> omega
    · exact .inl hone
  · have hsize : (joined b o).getSize = b.getSize + o.zeroSize := by
      simp only [joined, getSize]
      omega
    rw [contents, hsize, Bytes.read_add]
    congr 1
    · apply Bytes.read_congr
      intro p hp hlt
      rw [setDirty_bytes]
      unfold getSize at hlt
      simp only [joined, byteAt] at hp hlt ⊢
      split_ifs <;> first | rfl | omega | (congr 1; omega)
    · apply List.ext_getElem?
      intro i
      by_cases hi : i < o.zeroSize
      · rw [Bytes.getElem?_read _ _ hi, List.getElem?_replicate_of_lt hi]
        congr 1
        unfold zeroSize at hi
        simp only [joined, byteAt, getSize, zeroSize]
        split_ifs <;> first | rfl | omega
      · rw [List.getElem?_eq_none (by rw [Bytes.length_read]; omega),
          List.getElem?_eq_none (by rw [List.length_replicate]; omega)]

theorem addAtEndBuffer_of_joins (hj : joins h b o) :
    addAtEndBuffer h b o = (do
      let (h, b) ← addAtEnd (h.setDirty b.data (h.blocks b.data).dirtyStart
        (b.end_ + o.zeroSize)) (joined b o) (o.end_ - o.zeroAreaEnd)
      let dst ← b.end.prev (o.end_ - o.zeroAreaEnd)
      let src ← o.end.prev (o.end_ - o.zeroAreaEnd)
      let (h, _) ← dst.writeFrom h src o.end
      return (h, b)) := by
  unfold addAtEndBuffer
  rw [if_pos hj]
  unfold joined
  split_ifs <;> rfl

theorem addAtEndBuffer_joins (hs : Shares h (b :: rest)) (ho : o ∈ rest) (hj : joins h b o) :
    if overruns h b o then addAtEndBuffer h b o = .error .outOfBlock
    else ∃ h' x, addAtEndBuffer h b o = .ok (h', x) ∧ Shares h' (x :: rest) ∧
      Keeps h h' rest ∧
      (o.end_ = o.zeroAreaEnd → contents h' x = contents h b ++ contents h o) := by
  have hb1 := joined_spec hs hj
  obtain ⟨hone, hflat, hdirty, hzs, hpos⟩ := id hj
  have hord := (hs.placed o (List.mem_cons_of_mem _ ho)).toOrdered
  have hend := hord.le_end
  have hlen : ((contents h o).drop (o.zeroAreaEnd - o.start)).length = o.end_ - o.zeroAreaEnd := by
    rw [List.length_drop, length_contents, getSize]
    have := hord.zero_le
    omega
  obtain ⟨h2, x, heq, hext, hle, hfit, hplaced, -, hk2, hs2, hb2⟩ :=
    addAtEnd_write hb1.shares ((contents h o).drop (o.zeroAreaEnd - o.start))
  rw [hlen] at heq hext hle hfit hb2
  have hown : ∀ y ∈ rest, y.data ≠ x.data := hext.own fun y hy => hs.alone hone hy
  have hrun : addAtEndBuffer h b o =
      (x.iterator (x.end_ - (o.end_ - o.zeroAreaEnd))).writeFrom h2
        (o.iterator o.zeroAreaEnd) o.end >>= fun r => .ok (r.1, x) := by
    have hsrc : o.end.prev (o.end_ - o.zeroAreaEnd) = .ok (o.iterator o.zeroAreaEnd) := by
      rw [end_prev (Nat.sub_le _ _), Nat.sub_sub_self hend]
    rw [addAtEndBuffer_of_joins hj]
    simp only [heq, bind, Except.bind, end_prev hle, hsrc]
    rfl
  have hwrite := writeFrom_spec (h := h2) (x.iterator (x.end_ - (o.end_ - o.zeroAreaEnd)))
    hord (Nat.le_trans hord.start_le hord.zero_le) hend (Ne.symm (hown o ho))
    (hplaced.checkNoZero hfit)
  rw [hk2 o ho, hb1.keeps o ho] at hwrite
  have hover : overruns h b o ↔ (contents h o).drop (o.zeroAreaEnd - o.start) ≠ [] ∧
      (h2.blocks x.data).size < x.end_ - (o.end_ - o.zeroAreaEnd) +
        ((contents h o).drop (o.zeroAreaEnd - o.start)).length := by
    rw [hlen, Nat.sub_add_cancel hle, ← List.length_pos_iff, hlen, overruns]
    have hb := hs.placed b List.mem_cons_self
    have hstart := hb.start_le
    have hzero := hb.zero_le
    have hbend := hb.le_end
    have hgrow : growsInPlace (h.setDirty b.data (h.blocks b.data).dirtyStart
        (b.end_ + o.zeroSize)) (joined b o) (o.end_ - o.zeroAreaEnd) ↔
        b.getInternalEnd + (o.end_ - o.zeroAreaEnd) ≤ (h.blocks b.data).size := by
      have hint : (joined b o).getInternalEnd = b.getInternalEnd := by
        simp only [joined, getInternalEnd]
        split_ifs <;> omega
      rw [growsInPlace, hint]
      simp [joined, Memory.setDirty, hone]
    unfold Extends at hext
    have hsize : (joined b o).end_ + (o.end_ - o.zeroAreaEnd) = b.end_ + o.getSize := by
      simp only [joined, zeroSize, getSize]
      omega
    by_cases hroom : b.getInternalEnd + (o.end_ - o.zeroAreaEnd) ≤ (h.blocks b.data).size
    · rw [if_pos hroom]
      rw [if_pos (hgrow.mpr hroom), hsize] at hext
      rw [hext.2.1, hext.2.2]
      simp [joined, Memory.setDirty]
    · have hint : (joined b o).getInternalSize = b.getInternalSize := by
        simp only [joined, getInternalSize]
        split_ifs <;> omega
      have hsize' : (joined b o).getSize + (o.end_ - o.zeroAreaEnd) = b.getSize + o.getSize := by
        simp only [joined, zeroSize, getSize]
        omega
      rw [if_neg hroom]
      rw [if_neg (fun h => hroom (hgrow.mp h)), hsize', hint] at hext
      rw [hext.2.1, hext.2.2]
      simp only [Memory.create, Memory.setDirty, Memory.set, ite_true]
      rfl
  rw [hrun, hwrite]
  change if overruns h b o then (h2.store x.data (x.end_ - (o.end_ - o.zeroAreaEnd)) _ >>= _ >>= _) =
    _ else ∃ h' x', (h2.store x.data (x.end_ - (o.end_ - o.zeroAreaEnd)) _ >>= _ >>= _) = _ ∧ _
  split_ifs with hov
  · unfold Memory.store
    rw [if_pos (hover.mp hov)]
    rfl
  · unfold Memory.store
    rw [if_neg (fun h => hov (hover.mpr h))]
    refine ⟨_, x, rfl, ?_, ?_, ?_⟩
    · apply hs2.congr
      refine ⟨Nat.le_refl _, fun y hy => ?_⟩
      rcases List.mem_cons.mp hy with rfl | hyr
      · exact ⟨_, if_pos rfl⟩
      · exact ⟨(h2.blocks y.data).bytes, if_neg (hown y hyr)⟩
    · apply (hb1.keeps.trans hk2).trans
      apply keeps_of_bytes
      intro y hy
      rw [Memory.poke, Memory.set_blocks, if_neg (hown y hy)]
    · intro hnone
      have hnil : (contents h o).drop (o.zeroAreaEnd - o.start) = [] :=
        List.eq_nil_of_length_eq_zero (by rw [hlen, hnone, Nat.sub_self])
      have hzeros : contents h o = List.replicate o.zeroSize 0 := by
        rw [hord.contents_eq h, hnil, hzs, Nat.sub_self, List.take_zero, List.nil_append,
          List.append_nil]
      have hcontents := hb2.contents
      rw [hnil, poke_nil, List.append_nil, hb1.contents, ← hzeros] at hcontents
      rw [hnil, poke_nil]
      exact hcontents

end CudaNs3.Network.Buffer
