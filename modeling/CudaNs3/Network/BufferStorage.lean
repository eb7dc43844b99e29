import CudaNs3.Network.Buffer
import Mathlib.Data.List.Count
import Mathlib.Data.List.Perm.Basic

/-!
# Buffers that share a block

The stored bytes of a Buffer are the cells `[start, getInternalEnd)` of its block. Each sharer
has shrunk its own zero area, so the end of one is compared with the dirty end through the zero
area of any other.
-/

namespace CudaNs3.Network.Buffer

set_option autoImplicit false

variable {h h' : Memory} {b o x y : Buffer} {bs rest : List Buffer} {n k pos : Nat}

/-! ### What a Buffer holds -/

/-- The byte at a virtual offset. -/
def byteAt (b : Buffer) (bytes : Nat → UInt8) (p : Nat) : UInt8 :=
  if p < b.zeroAreaStart then bytes p
  else if p < b.zeroAreaEnd then 0
  else bytes (p - (b.zeroAreaEnd - b.zeroAreaStart))

def contents (h : Memory) (b : Buffer) : List UInt8 :=
  Bytes.read (b.byteAt (h.blocks b.data).bytes) b.start b.getSize

@[simp] theorem length_contents (h : Memory) (b : Buffer) :
    (contents h b).length = b.getSize := Bytes.length_read _ _ _

/-- The state invariant that the documentation of the class gives. -/
structure Ordered (b : Buffer) : Prop where
  start_le : b.start ≤ b.zeroAreaStart
  zero_le : b.zeroAreaStart ≤ b.zeroAreaEnd
  le_end : b.zeroAreaEnd ≤ b.end_

theorem Ordered.le_internalEnd (hb : b.Ordered) : b.zeroAreaStart ≤ b.getInternalEnd := by
  have := hb.zero_le
  have := hb.le_end
  unfold getInternalEnd
  omega

theorem Ordered.internalEnd_add (hb : b.Ordered) : b.getInternalEnd + b.zeroSize = b.end_ := by
  have := hb.zero_le
  have := hb.le_end
  unfold getInternalEnd zeroSize
  omega

theorem Ordered.start_add_internalSize (hb : b.Ordered) :
    b.start + b.getInternalSize = b.getInternalEnd := by
  have := hb.start_le
  have := hb.zero_le
  have := hb.le_end
  unfold getInternalEnd getInternalSize
  omega

/-- Only the stored cells count. -/
theorem Ordered.byteAt_congr (hb : b.Ordered) {bytes bytes' : Nat → UInt8}
    (heq : ∀ i, b.start ≤ i → i < b.getInternalEnd → bytes i = bytes' i) {p : Nat}
    (hp : b.start ≤ p) (hlt : p < b.end_) : b.byteAt bytes p = b.byteAt bytes' p := by
  have hzs := hb.start_le
  have hze := hb.zero_le
  have hend := hb.internalEnd_add
  have hle := hb.le_internalEnd
  unfold zeroSize at hend
  unfold byteAt
  split
  · exact heq p hp (by omega)
  · split
    · rfl
    · exact heq _ (by omega) (by omega)

theorem Ordered.contents_congr (hb : b.Ordered)
    (heq : ∀ i, b.start ≤ i → i < b.getInternalEnd →
      (h.blocks b.data).bytes i = (h'.blocks b.data).bytes i) :
    contents h b = contents h' b := by
  apply Bytes.read_congr
  intro p hp hlt
  exact hb.byteAt_congr heq hp (by unfold getSize at hlt; omega)

/-- The same bytes when the stored cells are elsewhere, at `pos`. -/
theorem Ordered.byteAt_moved (hb : b.Ordered) {bytes bytes' : Nat → UInt8}
    (hmoved : ∀ j < b.getInternalSize, bytes' (pos + j) = bytes (b.start + j))
    (hzs : x.zeroAreaStart = b.zeroAreaStart + pos - b.start)
    (hze : x.zeroAreaEnd = b.zeroAreaEnd + pos - b.start) {i : Nat} (hi : i < b.getSize) :
    x.byteAt bytes' (pos + i) = b.byteAt bytes (b.start + i) := by
  have hstart := hb.start_le
  have hzero := hb.zero_le
  have hend := hb.le_end
  have hsum := hb.start_add_internalSize
  unfold getInternalEnd at hsum
  unfold getSize at hi
  unfold byteAt
  rw [hzs, hze]
  by_cases h1 : b.start + i < b.zeroAreaStart
  · rw [if_pos (by omega), if_pos h1]
    exact hmoved i (by omega)
  · rw [if_neg (by omega), if_neg h1]
    by_cases h2 : b.start + i < b.zeroAreaEnd
    · rw [if_pos (by omega), if_pos h2]
    · rw [if_neg (by omega), if_neg h2]
      have hj := hmoved (i - (b.zeroAreaEnd - b.zeroAreaStart)) (by omega)
      rw [show b.start + i - (b.zeroAreaEnd - b.zeroAreaStart) =
        b.start + (i - (b.zeroAreaEnd - b.zeroAreaStart)) by omega, ← hj]
      congr 1
      omega

/-- `x` sees less of the block than `b`. -/
structure Narrows (b x : Buffer) : Prop where
  ordered : x.Ordered
  data : x.data = b.data
  start : b.start ≤ x.start
  internalEnd : x.getInternalEnd ≤ b.getInternalEnd
  zeroSize : x.zeroSize ≤ b.zeroSize

theorem narrows_removeAtStart (hb : b.Ordered) (n : Nat) : b.Narrows (b.removeAtStart n) := by
  have := hb.start_le
  have := hb.zero_le
  have := hb.le_end
  unfold removeAtStart
  constructor
  · constructor <;> (simp only; split_ifs <;> simp only <;> omega)
  · simp only
    split_ifs <;> rfl
  · simp only
    split_ifs <;> simp only <;> omega
  · unfold getInternalEnd
    simp only
    split_ifs <;> simp only <;> omega
  · unfold Buffer.zeroSize
    simp only
    split_ifs <;> simp only <;> omega

theorem contents_removeAtStart (hb : b.Ordered) (h : Memory) (n : Nat) :
    contents h (b.removeAtStart n) = (contents h b).drop n := by
  have := hb.start_le
  have := hb.zero_le
  have := hb.le_end
  have hdata := (narrows_removeAtStart hb n).data
  have hsize : (b.removeAtStart n).getSize = b.getSize - n := by
    unfold removeAtStart getSize
    simp only
    split_ifs <;> simp only <;> omega
  rw [contents, contents, Bytes.drop_read, hdata, hsize]
  apply Bytes.read_eq_of_forall
  intro i hi
  have hlt : b.start + n + i < b.end_ := by unfold getSize at hi; omega
  unfold removeAtStart byteAt
  simp only
  split_ifs <;> simp only at * <;> first | rfl | omega | (congr 1; omega)

theorem narrows_removeAtEnd (hb : b.Ordered) (n : Nat) : b.Narrows (b.removeAtEnd n) := by
  have := hb.start_le
  have := hb.zero_le
  have := hb.le_end
  unfold removeAtEnd
  constructor
  · constructor <;> (simp only; split_ifs <;> simp only <;> omega)
  · simp only
    split_ifs <;> rfl
  · simp only
    split_ifs <;> simp only <;> omega
  · unfold getInternalEnd
    simp only
    split_ifs <;> simp only <;> omega
  · unfold Buffer.zeroSize
    simp only
    split_ifs <;> simp only <;> omega

theorem contents_removeAtEnd (hb : b.Ordered) (h : Memory) (n : Nat) :
    contents h (b.removeAtEnd n) = (contents h b).take (b.getSize - n) := by
  have := hb.start_le
  have := hb.zero_le
  have := hb.le_end
  have hdata := (narrows_removeAtEnd hb n).data
  have hsize : (b.removeAtEnd n).getSize = min (b.getSize - n) b.getSize := by
    unfold removeAtEnd getSize
    simp only
    split_ifs <;> simp only <;> omega
  have hstart : (b.removeAtEnd n).start = b.start := by
    unfold removeAtEnd
    simp only
    split_ifs <;> rfl
  rw [contents, contents, Bytes.take_read, hdata, hsize, hstart]
  apply Bytes.read_eq_of_forall
  intro i hi
  unfold getSize at hi
  unfold removeAtEnd byteAt
  simp only
  split_ifs <;> simp only at * <;> first | rfl | omega

theorem Narrows.trans (hx : b.Narrows x) (hy : x.Narrows y) : b.Narrows y where
  ordered := hy.ordered
  data := hy.data.trans hx.data
  start := Nat.le_trans hx.start hy.start
  internalEnd := Nat.le_trans hy.internalEnd hx.internalEnd
  zeroSize := Nat.le_trans hy.zeroSize hx.zeroSize

/-! ### Sharers of a block -/

structure Placed (h : Memory) (b : Buffer) : Prop extends b.Ordered where
  known : b.data < h.next
  dirtyStart_le : (h.blocks b.data).dirtyStart ≤ b.start
  stored : b.getInternalEnd ≤ (h.blocks b.data).size

/-- `bs` are all the Buffers there are. -/
structure Shares (h : Memory) (bs : List Buffer) : Prop where
  placed : ∀ b ∈ bs, b.Placed h
  count : ∀ b ∈ bs, (h.blocks b.data).count = bs.countP (·.data = b.data)
  apart : ∀ x ∈ bs, ∀ y ∈ bs, x.data = y.data →
    x.getInternalEnd + y.zeroSize ≤ (h.blocks x.data).dirtyEnd

/-- The Buffers of `bs` report the same bytes. -/
def Keeps (h h' : Memory) (bs : List Buffer) : Prop := ∀ x ∈ bs, contents h' x = contents h x

/-- Nothing but the stored bytes differs in the blocks of `bs`. -/
def SameHeaders (h h' : Memory) (bs : List Buffer) : Prop :=
  h.next ≤ h'.next ∧ ∀ x ∈ bs, ∃ bytes, h'.blocks x.data = { h.blocks x.data with bytes := bytes }

namespace Shares

theorem perm (hs : Shares h bs) (hp : bs.Perm rest) : Shares h rest where
  placed := fun b hb => hs.placed b (hp.mem_iff.mpr hb)
  count := fun b hb => by rw [hs.count b (hp.mem_iff.mpr hb), hp.countP_eq]
  apart := fun x hx y hy => hs.apart x (hp.mem_iff.mpr hx) y (hp.mem_iff.mpr hy)

theorem le_dirtyEnd (hs : Shares h bs) (hb : b ∈ bs) : b.end_ ≤ (h.blocks b.data).dirtyEnd := by
  have hord := (hs.placed b hb).toOrdered
  rw [← hord.internalEnd_add]
  exact hs.apart b hb b hb rfl

theorem alone (hs : Shares h (b :: rest)) (hone : (h.blocks b.data).count = 1) (hx : x ∈ rest) :
    x.data ≠ b.data := by
  intro heq
  have hcount := hs.count b List.mem_cons_self
  rw [hone, List.countP_cons_of_pos (by simp)] at hcount
  have hpos : 0 < rest.countP (·.data = b.data) :=
    List.countP_pos_iff.mpr ⟨x, hx, by simpa using heq⟩
  omega

theorem congr (hs : Shares h bs) (hsame : SameHeaders h h' bs) : Shares h' bs := by
  obtain ⟨hnext, hblocks⟩ := hsame
  constructor
  · intro b hb
    obtain ⟨bytes, heq⟩ := hblocks b hb
    have hplaced := hs.placed b hb
    refine ⟨hplaced.toOrdered, Nat.lt_of_lt_of_le hplaced.known hnext, ?_, ?_⟩
    · rw [heq]
      exact hplaced.dirtyStart_le
    · rw [heq]
      exact hplaced.stored
  · intro b hb
    obtain ⟨bytes, heq⟩ := hblocks b hb
    rw [heq]
    exact hs.count b hb
  · intro x hx y hy hxy
    obtain ⟨bytes, heq⟩ := hblocks x hx
    rw [heq]
    exact hs.apart x hx y hy hxy

theorem narrow (hs : Shares h (b :: rest)) (hx : b.Narrows x) : Shares h (x :: rest) := by
  have hb := hs.placed b List.mem_cons_self
  have hint := hx.internalEnd
  have hzero := hx.zeroSize
  constructor
  · intro y hy
    rcases List.mem_cons.mp hy with rfl | hy
    · refine ⟨hx.ordered, ?_, ?_, ?_⟩
      · rw [hx.data]
        exact hb.known
      · rw [hx.data]
        exact Nat.le_trans hb.dirtyStart_le hx.start
      · rw [hx.data]
        exact Nat.le_trans hint hb.stored
    · exact hs.placed y (List.mem_cons_of_mem _ hy)
  · intro y hy
    have hcount : ∀ k, (x :: rest).countP (·.data = k) = (b :: rest).countP (·.data = k) := by
      intro k
      simp only [List.countP_cons, hx.data]
    rw [hcount]
    rcases List.mem_cons.mp hy with rfl | hy
    · rw [hx.data]
      exact hs.count b List.mem_cons_self
    · exact hs.count y (List.mem_cons_of_mem _ hy)
  · intro y hy z hz hyz
    rcases List.mem_cons.mp hy with rfl | hyr <;> rcases List.mem_cons.mp hz with rfl | hzr
    · have := hs.apart b List.mem_cons_self b List.mem_cons_self rfl
      rw [hx.data]
      omega
    · have := hs.apart b List.mem_cons_self z (List.mem_cons_of_mem _ hzr) (hx.data ▸ hyz)
      rw [hx.data]
      omega
    · have := hs.apart y (List.mem_cons_of_mem _ hyr) b List.mem_cons_self (hx.data ▸ hyz)
      omega
    · exact hs.apart y (List.mem_cons_of_mem _ hyr) z (List.mem_cons_of_mem _ hzr) hyz

/-- A Buffer on a block of its own joins the others. -/
theorem adopt (hs : Shares h rest) (hne : ∀ x ∈ rest, x.data ≠ b.data) (hb : b.Placed h)
    (hone : (h.blocks b.data).count = 1) (hend : b.end_ ≤ (h.blocks b.data).dirtyEnd) :
    Shares h (b :: rest) := by
  have hnone : rest.countP (·.data = b.data) = 0 :=
    List.countP_eq_zero.mpr (by simpa using hne)
  constructor
  · intro x hx
    rcases List.mem_cons.mp hx with rfl | hx
    · exact hb
    · exact hs.placed x hx
  · intro x hx
    rcases List.mem_cons.mp hx with rfl | hx
    · rw [List.countP_cons_of_pos (by simp), hnone, hone]
    · rw [List.countP_cons_of_neg (by simpa using fun h => hne x hx h.symm)]
      exact hs.count x hx
  · intro x hx y hy hxy
    rcases List.mem_cons.mp hx with rfl | hxr <;> rcases List.mem_cons.mp hy with rfl | hyr
    · rwa [hb.internalEnd_add]
    · exact absurd hxy.symm (hne y hyr)
    · exact absurd hxy (hne x hxr)
    · exact hs.apart x hxr y hyr hxy

end Shares

/-! ### Copies, and Buffers that go -/

theorem Keeps.refl (h : Memory) (bs : List Buffer) : Keeps h h bs := fun _ _ => rfl

theorem Keeps.trans {h'' : Memory} (hk : Keeps h h' bs) (hk' : Keeps h' h'' bs) :
    Keeps h h'' bs := fun x hx => (hk' x hx).trans (hk x hx)

theorem keeps_of_bytes (heq : ∀ x ∈ bs, (h'.blocks x.data).bytes = (h.blocks x.data).bytes) :
    Keeps h h' bs := by
  intro x hx
  rw [contents, contents, heq x hx]

/-- Nothing but the counts differs. -/
def Recounts (h h' : Memory) : Prop :=
  h'.next = h.next ∧ ∀ i, ∃ c, h'.blocks i = { h.blocks i with count := c }

namespace Recounts

theorem placed (hr : Recounts h h') (hb : b.Placed h) : b.Placed h' := by
  obtain ⟨c, hc⟩ := hr.2 b.data
  refine ⟨hb.toOrdered, ?_, ?_, ?_⟩
  · rw [hr.1]
    exact hb.known
  · rw [hc]
    exact hb.dirtyStart_le
  · rw [hc]
    exact hb.stored

theorem dirtyEnd (hr : Recounts h h') (i : Nat) :
    (h'.blocks i).dirtyEnd = (h.blocks i).dirtyEnd := by
  obtain ⟨c, hc⟩ := hr.2 i
  rw [hc]

theorem keeps (hr : Recounts h h') (bs : List Buffer) : Keeps h h' bs := by
  apply keeps_of_bytes
  intro x _
  obtain ⟨c, hc⟩ := hr.2 x.data
  rw [hc]

end Recounts

theorem recounts_copy (h : Memory) (b : Buffer) : Recounts h (copy h b).1 := by
  refine ⟨rfl, fun i => ?_⟩
  by_cases hi : i = b.data
  · exact ⟨(h.blocks b.data).count + 1, by simp [copy, hi]⟩
  · exact ⟨(h.blocks i).count, by simp [copy, hi]⟩

theorem copy_shares (hs : Shares h (b :: rest)) :
    Shares (copy h b).1 ((copy h b).2 :: b :: rest) := by
  have hr := recounts_copy h b
  have hb : ∀ x ∈ (copy h b).2 :: b :: rest, ∃ y ∈ b :: rest, x.data = y.data ∧
      (y.Placed (copy h b).1 → x.Placed (copy h b).1) ∧ x.getInternalEnd = y.getInternalEnd ∧
      x.zeroSize = y.zeroSize := by
    intro x hx
    rcases List.mem_cons.mp hx with rfl | hx
    · refine ⟨b, List.mem_cons_self, rfl, fun hy => ?_, rfl, rfl⟩
      exact ⟨⟨hy.start_le, hy.zero_le, hy.le_end⟩, hy.known, hy.dirtyStart_le, hy.stored⟩
    · exact ⟨x, hx, rfl, id, rfl, rfl⟩
  constructor
  · intro x hx
    obtain ⟨y, hy, -, hplaced, -, -⟩ := hb x hx
    exact hplaced (hr.placed (hs.placed y hy))
  · intro x hx
    obtain ⟨y, hy, hxy, -, -, -⟩ := hb x hx
    have hcount := hs.count y hy
    rw [hxy]
    by_cases heq : y.data = b.data
    · rw [List.countP_cons_of_pos (by simp [copy, heq]), ← hcount]
      simp [copy, heq]
    · rw [List.countP_cons_of_neg (by simp [copy, Ne.symm heq]), ← hcount]
      simp [copy, heq]
  · intro x hx z hz hxz
    obtain ⟨y, hy, hxy, -, hint, -⟩ := hb x hx
    obtain ⟨w, hw, hzw, -, -, hzero⟩ := hb z hz
    rw [hint, hzero, hxy, hr.dirtyEnd]
    exact hs.apart y hy w hw (by rw [← hxy, hxz, hzw])

theorem contents_copy (h : Memory) (b : Buffer) :
    contents (copy h b).1 (copy h b).2 = contents h b :=
  (recounts_copy h b).keeps [b] b List.mem_cons_self

theorem release_blocks (h : Memory) (k i : Nat) :
    (h.release k).blocks i =
      if i = k then { h.blocks k with count := (h.blocks k).count - 1 } else h.blocks i := by
  unfold Memory.release Memory.recycle
  simp only
  split_ifs <;> simp_all

theorem recounts_release (h : Memory) (k : Nat) : Recounts h (h.release k) := by
  refine ⟨?_, fun i => ?_⟩
  · unfold Memory.release Memory.recycle
    simp only
    split_ifs <;> rfl
  · rw [release_blocks]
    split_ifs with hi
    · exact ⟨(h.blocks k).count - 1, by rw [hi]⟩
    · exact ⟨_, rfl⟩

theorem release_shares (hs : Shares h (b :: rest)) : Shares (h.release b.data) rest := by
  have hr := recounts_release h b.data
  constructor
  · intro x hx
    exact hr.placed (hs.placed x (List.mem_cons_of_mem _ hx))
  · intro x hx
    have hcount := hs.count x (List.mem_cons_of_mem _ hx)
    rw [release_blocks]
    split_ifs with heq
    · rw [heq, List.countP_cons_of_pos (by simp)] at hcount
      simp only [hcount, heq, Nat.add_sub_cancel]
    · rwa [List.countP_cons_of_neg (by simpa using fun h => heq h.symm)] at hcount
  · intro x hx y hy hxy
    rw [hr.dirtyEnd]
    exact hs.apart x (List.mem_cons_of_mem _ hx) y (List.mem_cons_of_mem _ hy) hxy

theorem destroy_shares (hs : Shares h (b :: rest)) : Shares (destroy h b) rest := by
  apply release_shares
  exact hs.congr ⟨Nat.le_refl _, fun x _ => ⟨(h.blocks x.data).bytes, rfl⟩⟩

theorem destroy_keeps (h : Memory) (b : Buffer) (bs : List Buffer) :
    Keeps h (destroy h b) bs := (recounts_release _ _).keeps bs

/-- The assignment is as if the old value were destroyed and a copy stood in its place. -/
theorem assign_shares (hs : Shares h (b :: rest)) (ho : o ∈ rest) :
    Shares (assign h b o).1 (o :: rest) := by
  by_cases heq : b.data = o.data
  · have hr : SameHeaders h (assign h b o).1 (o :: rest) := by
      refine ⟨by simp [assign, heq], fun x _ => ⟨(h.blocks x.data).bytes, by simp [assign, heq]⟩⟩
    apply Shares.congr _ hr
    constructor
    · intro x hx
      rcases List.mem_cons.mp hx with rfl | hx
      · exact hs.placed x (List.mem_cons_of_mem _ ho)
      · exact hs.placed x (List.mem_cons_of_mem _ hx)
    · intro x hx
      have hcount : ∀ k, (o :: rest).countP (·.data = k) = (b :: rest).countP (·.data = k) := by
        intro k
        simp only [List.countP_cons, heq]
      rw [hcount]
      rcases List.mem_cons.mp hx with rfl | hx
      · exact hs.count x (List.mem_cons_of_mem _ ho)
      · exact hs.count x (List.mem_cons_of_mem _ hx)
    · intro x hx y hy hxy
      have hmem : ∀ z ∈ o :: rest, z ∈ rest := by
        intro z hz
        rcases List.mem_cons.mp hz with rfl | hz
        · exact ho
        · exact hz
      exact hs.apart x (List.mem_cons_of_mem _ (hmem x hx)) y (List.mem_cons_of_mem _ (hmem y hy))
        hxy
  · have hperm := List.perm_cons_erase ho
    have hrel := (release_shares hs).perm hperm
    have hcopy := copy_shares hrel
    have hsame : SameHeaders (copy (h.release b.data) o).1 (assign h b o).1
        ((copy (h.release b.data) o).2 :: o :: rest.erase o) := by
      refine ⟨by simp [assign, heq, copy], fun x _ => ?_⟩
      exact ⟨((copy (h.release b.data) o).1.blocks x.data).bytes, by simp [assign, heq, copy]⟩
    have hall := hcopy.congr hsame
    have hnarrow : (copy (h.release b.data) o).2.Narrows o := by
      refine ⟨(hs.placed o (List.mem_cons_of_mem _ ho)).toOrdered, rfl, ?_, ?_, ?_⟩
      · exact Nat.le_refl _
      · exact Nat.le_refl _
      · exact Nat.le_refl _
    exact (hall.narrow hnarrow).perm (List.Perm.cons o hperm.symm)

theorem assign_keeps (h : Memory) (b o : Buffer) (bs : List Buffer) :
    Keeps h (assign h b o).1 bs := by
  apply keeps_of_bytes
  intro x _
  unfold assign
  simp only
  split_ifs with heq
  · rfl
  · simp only [Memory.set_blocks, release_blocks]
    split_ifs <;> simp_all

/-! ### New blocks -/

theorem popFree_size {l l' : List Data} {d : Data} (hpop : Memory.popFree n l = (some d, l')) :
    n ≤ d.size := by
  induction l with
  | nil => simp [Memory.popFree] at hpop
  | cons e l ih =>
    unfold Memory.popFree at hpop
    split_ifs at hpop with hle
    · simp only [Prod.mk.injEq, Option.some.injEq] at hpop
      rwa [← hpop.1]
    · exact ih hpop

@[simp] theorem create_snd (h : Memory) (n : Nat) : (h.create n).2 = h.next := rfl

@[simp] theorem create_next (h : Memory) (n : Nat) : (h.create n).1.next = h.next + 1 := rfl

theorem create_blocks_of_ne (h : Memory) (n : Nat) (hk : k ≠ h.next) :
    (h.create n).1.blocks k = h.blocks k := by
  simp [Memory.create, hk]

theorem create_fresh (h : Memory) (n : Nat) :
    ((h.create n).1.blocks h.next).count = 1 ∧ n ≤ ((h.create n).1.blocks h.next).size := by
  rcases hpop : Memory.popFree n h.freeList with ⟨found, l'⟩
  cases found with
  | none =>
    simp only [Memory.create, hpop, Memory.set_blocks, ite_true, Memory.allocate]
    exact ⟨trivial, Nat.le_max_left _ _⟩
  | some d =>
    simp only [Memory.create, hpop, Memory.set_blocks, ite_true]
    exact ⟨trivial, popFree_size hpop⟩

theorem Shares.create (hs : Shares h bs) (n : Nat) : Shares (h.create n).1 bs := by
  apply hs.congr
  refine ⟨by simp, fun x hx => ⟨(h.blocks x.data).bytes, ?_⟩⟩
  exact create_blocks_of_ne h n (Nat.ne_of_lt (hs.placed x hx).known)

theorem Shares.create_keeps (hs : Shares h bs) (n : Nat) : Keeps h (h.create n).1 bs := by
  apply keeps_of_bytes
  intro x hx
  rw [create_blocks_of_ne h n (Nat.ne_of_lt (hs.placed x hx).known)]

theorem construct_shares (hs : Shares h bs) (n : Nat) :
    Shares (construct h n).1 ((construct h n).2 :: bs) := by
  have hne : ∀ x ∈ bs, x.data ≠ h.next := fun x hx => Nat.ne_of_lt (hs.placed x hx).known
  have hold : Shares (construct h n).1 bs := by
    apply (hs.create 0).congr
    refine ⟨Nat.le_refl _, fun x hx => ⟨((h.create 0).1.blocks x.data).bytes, ?_⟩⟩
    simp [construct, Memory.setDirty, hne x hx]
  apply hold.adopt hne
  · constructor
    · constructor <;> simp [construct]
    · simp [construct, Memory.setDirty]
    · simp [construct, Memory.setDirty]
    · simp [construct, Memory.setDirty, getInternalEnd, Nat.min_le_left]
  · simp [construct, Memory.setDirty, create_fresh]
  · simp [construct, Memory.setDirty]

theorem construct_keeps (hs : Shares h bs) (n : Nat) : Keeps h (construct h n).1 bs := by
  apply (hs.create_keeps 0).trans
  apply keeps_of_bytes
  intro x hx
  have hne : x.data ≠ h.next := Nat.ne_of_lt (hs.placed x hx).known
  simp [construct, Memory.setDirty, hne]

theorem contents_construct (h : Memory) (n : Nat) :
    contents (construct h n).1 (construct h n).2 = List.replicate n 0 := by
  apply List.ext_getElem?
  intro i
  by_cases hi : i < n
  · rw [contents, Bytes.getElem?_read _ _ (by simpa [construct, getSize] using hi)]
    have hpos : ∀ s : Nat, ¬ s + i < s := fun s => by omega
    simp [construct, byteAt, hi, hpos]
  · rw [List.getElem?_eq_none (by simpa [construct, getSize] using hi),
      List.getElem?_eq_none (by simpa using hi)]

/-- The stored bytes of `b` are in block `k`, from `pos` on, and `b` itself is gone. -/
structure Relocated (h : Memory) (b : Buffer) (rest : List Buffer) (n pos : Nat) (h' : Memory)
    (k : Nat) : Prop where
  shares : Shares h' rest
  keeps : Keeps h h' rest
  own : ∀ x ∈ rest, x.data ≠ k
  known : k < h'.next
  count : (h'.blocks k).count = 1
  size : n ≤ (h'.blocks k).size
  sized : (h'.blocks k).size = ((h.create n).1.blocks h.next).size
  moved : ∀ j < b.getInternalSize,
    (h'.blocks k).bytes (pos + j) = (h.blocks b.data).bytes (b.start + j)

theorem relocate_spec (hs : Shares h (b :: rest)) (n pos : Nat) :
    Relocated h b rest n pos (relocate h b n pos).1 (relocate h b n pos).2 := by
  have hne : ∀ x ∈ b :: rest, x.data ≠ h.next := fun x hx => Nat.ne_of_lt (hs.placed x hx).known
  have hbne : h.next ≠ b.data := (hne b List.mem_cons_self).symm
  let m := (h.create n).1.poke h.next pos
    (Bytes.read ((h.create n).1.blocks b.data).bytes b.start b.getInternalSize)
  have hm : relocate h b n pos = (m.release b.data, h.next) := rfl
  have hblocks : ∀ x ∈ b :: rest, m.blocks x.data = (h.create n).1.blocks x.data := by
    intro x hx
    simp [m, Memory.poke, hne x hx]
  have hshares : Shares m (b :: rest) := by
    apply (hs.create n).congr
    exact ⟨Nat.le_refl _, fun x hx => ⟨((h.create n).1.blocks x.data).bytes, hblocks x hx⟩⟩
  have hkeeps : Keeps h m (b :: rest) := by
    apply (hs.create_keeps n).trans
    apply keeps_of_bytes
    intro x hx
    rw [hblocks x hx]
  have hk : (m.release b.data).blocks h.next = m.blocks h.next := by
    rw [release_blocks, if_neg hbne]
  rw [hm]
  constructor
  · exact release_shares hshares
  · intro x hx
    rw [(recounts_release m b.data).keeps rest x hx]
    exact hkeeps x (List.mem_cons_of_mem _ hx)
  · exact fun x hx => hne x (List.mem_cons_of_mem _ hx)
  · simp only [(recounts_release m b.data).1]
    exact Nat.lt_succ_self h.next
  · simp only [hk]
    simp [m, Memory.poke, create_fresh]
  · simp only [hk]
    simp [m, Memory.poke, create_fresh]
  · simp only [hk]
    simp [m, Memory.poke]
  · intro j hj
    simp only [hk]
    have hj' : j < (Bytes.read ((h.create n).1.blocks b.data).bytes b.start
        b.getInternalSize).length := by rwa [Bytes.length_read]
    simp only [m, Memory.poke, Memory.set_blocks, ite_true]
    rw [Bytes.write_apply_add _ _ hj']
    simp [Bytes.read, create_blocks_of_ne h n hbne.symm]

/-- A Buffer that is laid out in the new block. -/
theorem Relocated.settle (hr : Relocated h b rest n pos h' k) (hx : x.Ordered) (hdata : x.data = k)
    (hint : x.getInternalEnd ≤ n) :
    Shares (h'.setDirty k x.start x.end_) (x :: rest) := by
  have hold : Shares (h'.setDirty k x.start x.end_) rest := by
    apply hr.shares.congr
    refine ⟨Nat.le_refl _, fun y hy => ⟨(h'.blocks y.data).bytes, ?_⟩⟩
    simp [Memory.setDirty, hr.own y hy]
  apply hold.adopt
  · rw [hdata]
    exact hr.own
  · refine ⟨hx, ?_, ?_, ?_⟩
    · rw [hdata]
      exact hr.known
    · simp [Memory.setDirty, hdata]
    · simpa [Memory.setDirty, hdata] using Nat.le_trans hint hr.size
  · simpa [Memory.setDirty, hdata] using hr.count
  · simp [Memory.setDirty, hdata]

theorem Relocated.settle_keeps (hr : Relocated h b rest n pos h' k) (s e : Nat) :
    Keeps h (h'.setDirty k s e) rest := by
  apply hr.keeps.trans
  apply keeps_of_bytes
  intro x hx
  simp [Memory.setDirty, hr.own x hx]

/-! ### Growing -/

/-- `x` is what `b` became, its stored cells `[lo, lo + n)` are new, and no other Buffer has
them. -/
structure Grown (h : Memory) (rest : List Buffer) (lo n : Nat) (h' : Memory) (x : Buffer) :
    Prop where
  shares : Shares h' (x :: rest)
  keeps : Keeps h h' rest
  clear : ∀ y ∈ rest, y.data = x.data → y.getInternalEnd ≤ lo ∨ lo + n ≤ y.start

/-- Growth in place: the new cells are outside the dirty area, or `b` is alone on its block. -/
theorem Shares.widen (hs : Shares h (b :: rest)) {s e : Nat} (hx : x.Ordered)
    (hdata : x.data = b.data) (hs_le : s ≤ x.start) (hle_e : x.end_ ≤ e)
    (hstored : x.getInternalEnd ≤ (h.blocks b.data).size)
    (hshare : (h.blocks b.data).count = 1 ∨
      x.zeroSize = b.zeroSize ∧ s ≤ (h.blocks b.data).dirtyStart ∧
        (h.blocks b.data).dirtyEnd ≤ e ∧
        ∀ y ∈ rest, y.data = b.data → x.getInternalEnd + y.zeroSize ≤ e) :
    Shares (h.setDirty b.data s e) (x :: rest) := by
  have hb := hs.placed b List.mem_cons_self
  have hplaced : x.Placed (h.setDirty b.data s e) := by
    refine ⟨hx, ?_, ?_, ?_⟩
    · rw [hdata]
      exact hb.known
    · simpa [Memory.setDirty, hdata] using hs_le
    · simpa [Memory.setDirty, hdata] using hstored
  rcases hshare with hone | ⟨hzero, hlo, hhi, hapart⟩
  · -- nobody else is on the block
    have hne : ∀ y ∈ rest, y.data ≠ b.data := fun y hy => hs.alone hone hy
    have hrest : Shares h rest := by
      have hrel := release_shares hs
      apply hrel.congr
      refine ⟨Nat.le_of_eq (recounts_release h b.data).1, fun y hy =>
        ⟨(h.blocks y.data).bytes, ?_⟩⟩
      rw [release_blocks, if_neg (hne y hy)]
    have hold : Shares (h.setDirty b.data s e) rest := by
      apply hrest.congr
      refine ⟨Nat.le_refl _, fun y hy => ⟨(h.blocks y.data).bytes, ?_⟩⟩
      simp [Memory.setDirty, hne y hy]
    apply hold.adopt (by rwa [hdata]) hplaced
    · simpa [Memory.setDirty, hdata] using hone
    · simpa [Memory.setDirty, hdata] using hle_e
  · constructor
    · intro y hy
      rcases List.mem_cons.mp hy with rfl | hyr
      · exact hplaced
      · have hy' := hs.placed y (List.mem_cons_of_mem _ hyr)
        refine ⟨hy'.toOrdered, hy'.known, ?_, ?_⟩
        · have := hy'.dirtyStart_le
          by_cases heq : y.data = b.data
          · simp only [Memory.setDirty, Memory.set_blocks, heq, ite_true]
            rw [heq] at this
            omega
          · simpa [Memory.setDirty, heq] using this
        · have := hy'.stored
          by_cases heq : y.data = b.data
          · simpa [Memory.setDirty, heq] using this
          · simpa [Memory.setDirty, heq] using this
    · intro y hy
      have hcount : ∀ k, (x :: rest).countP (·.data = k) = (b :: rest).countP (·.data = k) := by
        intro k
        simp only [List.countP_cons, hdata]
      have hkeep : ∀ k, ((h.setDirty b.data s e).blocks k).count = (h.blocks k).count := by
        intro k
        simp only [Memory.setDirty, Memory.set_blocks]
        split_ifs with heq
        · rw [heq]
        · rfl
      rw [hcount, hkeep]
      rcases List.mem_cons.mp hy with rfl | hyr
      · rw [hdata]
        exact hs.count b List.mem_cons_self
      · exact hs.count y (List.mem_cons_of_mem _ hyr)
    · have hdirty : ∀ k, (h.blocks k).dirtyEnd ≤ ((h.setDirty b.data s e).blocks k).dirtyEnd := by
        intro k
        simp only [Memory.setDirty, Memory.set_blocks]
        split_ifs with heq
        · rwa [heq]
        · exact Nat.le_refl _
      have he : ((h.setDirty b.data s e).blocks b.data).dirtyEnd = e := by
        simp [Memory.setDirty]
      intro y hy z hz hyz
      rcases List.mem_cons.mp hy with rfl | hyr <;> rcases List.mem_cons.mp hz with rfl | hzr
      · rw [hx.internalEnd_add, hdata, he]
        exact hle_e
      · rw [hdata, he]
        exact hapart z hzr (by rw [← hyz, hdata])
      · have := hs.apart y (List.mem_cons_of_mem _ hyr) b List.mem_cons_self (by rw [hyz, hdata])
        rw [hzero]
        exact Nat.le_trans this (hdirty _)
      · have := hs.apart y (List.mem_cons_of_mem _ hyr) z (List.mem_cons_of_mem _ hzr) hyz
        exact Nat.le_trans this (hdirty _)

theorem setDirty_keeps (h : Memory) (k s e : Nat) (bs : List Buffer) :
    Keeps h (h.setDirty k s e) bs := by
  apply keeps_of_bytes
  intro x _
  simp only [Memory.setDirty, Memory.set_blocks]
  split_ifs with heq
  · rw [heq]
  · rfl

@[simp] theorem setDirty_bytes (h : Memory) (k s e i : Nat) :
    ((h.setDirty k s e).blocks i).bytes = (h.blocks i).bytes := by
  simp only [Memory.setDirty, Memory.set_blocks]
  split_ifs with heq
  · rw [heq]
  · rfl

theorem Shares.count_pos (hs : Shares h (b :: rest)) : 0 < (h.blocks b.data).count := by
  rw [hs.count b List.mem_cons_self, List.countP_cons_of_pos (by simp)]
  exact Nat.succ_pos _

theorem addAtStart_spec (hs : Shares h (b :: rest)) (n : Nat) :
    ∃ h' x, addAtStart h b n = .ok (h', x) ∧ Grown h rest x.start n h' x ∧
      x.start + n ≤ x.zeroAreaStart ∧ x.zeroSize = b.zeroSize ∧ x.getSize = b.getSize + n ∧
      (x.data = b.data ∨ ∀ y ∈ rest, y.data ≠ x.data) ∧ (contents h' x).drop n = contents h b := by
  have hb := hs.placed b List.mem_cons_self
  have hcount := hs.count_pos
  have hstart := hb.start_le
  have hzero := hb.zero_le
  have hend := hb.le_end
  have hdirty := hb.dirtyStart_le
  unfold addAtStart
  simp only
  split_ifs with hroom
  · obtain ⟨hle, hclean⟩ := hroom
    have hedge : (h.blocks b.data).count = 1 ∨ b.start = (h.blocks b.data).dirtyStart := by omega
    rw [check_pos hedge]
    refine ⟨_, _, rfl, ⟨?_, setDirty_keeps _ _ _ _ _, ?_⟩, ?_, rfl, ?_, .inl rfl, ?_⟩
    · apply hs.widen (x := ⟨b.data, _, b.zeroAreaStart, b.zeroAreaEnd, b.start - n, b.end_⟩)
      · exact ⟨by simp only; omega, hzero, hend⟩
      · rfl
      · exact Nat.le_refl _
      · exact hs.le_dirtyEnd (b := b) List.mem_cons_self
      · exact hb.stored
      · refine hedge.imp id fun heq => ⟨rfl, by omega, Nat.le_refl _, ?_⟩
        intro y hy hyb
        exact hs.apart b List.mem_cons_self y (List.mem_cons_of_mem _ hy) hyb.symm
    · intro y hy hyb
      simp only at hyb ⊢
      rcases hedge with hone | heq
      · exact absurd hyb (hs.alone hone hy)
      · have := (hs.placed y (List.mem_cons_of_mem _ hy)).dirtyStart_le
        rw [hyb] at this
        omega
    · simp only
      omega
    · unfold getSize
      simp only
      omega
    · rw [contents, contents, Bytes.drop_read, setDirty_bytes]
      unfold getSize
      simp only [show b.start - n + n = b.start by omega,
        show b.end_ - (b.start - n) - n = b.end_ - b.start by omega]
      rfl
  · have hr := relocate_spec hs (b.getInternalSize + n) n
    have hsum := hb.start_add_internalSize
    refine ⟨_, _, rfl, ⟨?_, hr.settle_keeps _ _, ?_⟩, ?_, ?_, ?_, .inr hr.own, ?_⟩
    · apply hr.settle (x := ⟨_, _, _, _, _, _⟩)
      · constructor <;> simp only <;> omega
      · rfl
      · unfold getInternalEnd at hsum ⊢
        simp only
        omega
    · intro y hy hyx
      exact absurd hyx (hr.own y hy)
    · simp only
      omega
    · unfold zeroSize
      simp only
      omega
    · unfold getSize
      simp only
      omega
    · rw [contents, contents, Bytes.drop_read, setDirty_bytes]
      unfold getSize
      simp only [show 0 + n = n + 0 by omega,
        show b.end_ + n - b.start - 0 - n = b.end_ - b.start by omega]
      apply Bytes.read_eq_of_forall
      intro i hi
      exact hb.byteAt_moved hr.moved rfl rfl hi

/-- The test of `AddAtEnd(end)` for room in the block. -/
def growsInPlace (h : Memory) (b : Buffer) (n : Nat) : Prop :=
  b.getInternalEnd + n ≤ (h.blocks b.data).size ∧
    ¬ (1 < (h.blocks b.data).count ∧ b.end_ < (h.blocks b.data).dirtyEnd)

instance (h : Memory) (b : Buffer) (n : Nat) : Decidable (growsInPlace h b n) := by
  unfold growsInPlace; infer_instance

/-- The end and the block of what `AddAtEnd(end)` makes of `b`. -/
def Extends (h : Memory) (b : Buffer) (rest : List Buffer) (n : Nat) (h' : Memory) (x : Buffer) :
    Prop :=
  if growsInPlace h b n then
    x.data = b.data ∧ x.end_ = b.end_ + n ∧ (h'.blocks x.data).size = (h.blocks b.data).size
  else
    (∀ y ∈ rest, y.data ≠ x.data) ∧ x.end_ = b.getSize + n ∧
      (h'.blocks x.data).size = ((h.create (b.getInternalSize + n)).1.blocks h.next).size

theorem Extends.own (hext : Extends h b rest n h' x) (hown : ∀ y ∈ rest, y.data ≠ b.data) :
    ∀ y ∈ rest, y.data ≠ x.data := by
  unfold Extends at hext
  split_ifs at hext
  · rw [hext.1]
    exact hown
  · exact hext.1

theorem addAtEnd_spec (hs : Shares h (b :: rest)) (n : Nat) :
    ∃ h' x, addAtEnd h b n = .ok (h', x) ∧ Grown h rest (x.getInternalEnd - n) n h' x ∧
      Extends h b rest n h' x ∧ x.zeroAreaEnd + n ≤ x.end_ ∧ x.zeroSize = b.zeroSize ∧
      x.getSize = b.getSize + n ∧ (contents h' x).take b.getSize = contents h b := by
  have hb := hs.placed b List.mem_cons_self
  have hcount := hs.count_pos
  have hstart := hb.start_le
  have hzero := hb.zero_le
  have hend := hb.le_end
  have hdirty := hs.le_dirtyEnd List.mem_cons_self
  unfold addAtEnd
  simp only
  split_ifs with hroom
  · have hgrows : growsInPlace h b n := hroom
    obtain ⟨hle, hclean⟩ := hroom
    have hedge : (h.blocks b.data).count = 1 ∨ b.end_ = (h.blocks b.data).dirtyEnd := by omega
    rw [check_pos hedge]
    unfold getInternalEnd at hle
    refine ⟨_, _, rfl, ⟨?_, setDirty_keeps _ _ _ _ _, ?_⟩, ?_, ?_, rfl, ?_, ?_⟩
    · apply hs.widen (x := ⟨b.data, _, b.zeroAreaStart, b.zeroAreaEnd, b.start, b.end_ + n⟩)
      · exact ⟨hstart, hzero, by simp only; omega⟩
      · rfl
      · exact hb.dirtyStart_le
      · exact Nat.le_refl _
      · unfold getInternalEnd
        simp only
        omega
      · refine hedge.imp id fun heq => ⟨rfl, Nat.le_refl _, by omega, ?_⟩
        intro y hy hyb
        have := hs.apart b List.mem_cons_self y (List.mem_cons_of_mem _ hy) hyb.symm
        unfold getInternalEnd at this ⊢
        simp only
        omega
    · intro y hy hyb
      simp only at hyb
      rcases hedge with hone | heq
      · exact absurd hyb (hs.alone hone hy)
      · -- the end of `y`, moved by the zero area of `b`, is within the dirty area
        have := hs.apart y (List.mem_cons_of_mem _ hy) b List.mem_cons_self hyb
        rw [hyb] at this
        unfold zeroSize at this
        left
        unfold getInternalEnd at this ⊢
        simp only
        omega
    · rw [Extends, if_pos hgrows]
      exact ⟨rfl, rfl, by simp [Memory.setDirty]⟩
    · simp only
      omega
    · unfold getSize
      simp only
      omega
    · rw [contents, contents, Bytes.take_read, setDirty_bytes]
      unfold getSize
      simp only [show min (b.end_ - b.start) (b.end_ + n - b.start) = b.end_ - b.start by omega]
      rfl
  · have hgrows : ¬ growsInPlace h b n := hroom
    have hr := relocate_spec hs (b.getInternalSize + n) 0
    have hsum := hb.start_add_internalSize
    refine ⟨_, _, rfl, ⟨?_, hr.settle_keeps _ _, ?_⟩, ?_, ?_, ?_, ?_, ?_⟩
    · apply hr.settle (x := ⟨_, _, _, _, _, _⟩)
      · constructor <;> simp only <;> omega
      · rfl
      · unfold getInternalEnd at hsum ⊢
        simp only
        omega
    · intro y hy hyx
      exact absurd hyx (hr.own y hy)
    · rw [Extends, if_neg hgrows]
      refine ⟨hr.own, rfl, ?_⟩
      simpa [Memory.setDirty] using hr.sized
    · simp only
      omega
    · unfold zeroSize
      simp only
      omega
    · unfold getSize
      simp only
      omega
    · rw [contents, contents, Bytes.take_read, setDirty_bytes]
      unfold getSize
      simp only [show min (b.end_ - b.start) (b.end_ - b.start + n - 0) = b.end_ - b.start by omega]
      apply Bytes.read_eq_of_forall
      intro i hi
      exact hb.byteAt_moved hr.moved rfl rfl hi

end CudaNs3.Network.Buffer
