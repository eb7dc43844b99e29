import CudaNs3.Tcp.RxBuffer
import CudaNs3.Lib.Intervals
import CudaNs3.Lib.Transition
import Mathlib.Tactic.LinearCombination

/-!
# Reassembly

The stored blocks are intervals of the places of the stream. On places all comparisons are
those of natural numbers, as long as the places in play are less than half the circle apart,
and what one pass over the blocks does to them is told by the places that are covered.
-/

namespace CudaNs3.Tcp

open SequenceNumber TcpRxBuffer Intervals
set_option autoImplicit false

/-- A receive buffer and the bytes that all calls of `Extract` have returned. -/
structure Reading where
  rx : TcpRxBuffer
  out : List UInt8

/-- A segment with the bytes of the stream from place `a` up to place `b` arrives, or the
application reads. -/
inductive RxOp where
  | add (a b : Nat)
  | extract (maxSize : BitVec 32)

/-- The bytes of a stream in `[a, b)`. -/
def piece (w : List UInt8) (a b : Nat) : List UInt8 := (w.drop a).take (b - a)

def Reading.step (n : SequenceNumber 32) (w : List UInt8) (r : Reading) : RxOp → Option Reading
  | .add a b => (r.rx.add (at32 n a) (piece w a b)).map fun (rx, _) => { r with rx := rx }
  | .extract maxSize => (r.rx.extract maxSize).map fun (rx, out) => ⟨rx, r.out ++ out⟩

/-- How far `seq` is behind the last byte that was read. -/
def Reading.offset (r : Reading) (n : SequenceNumber 32) (seq : SequenceNumber 32) : Nat :=
  (seq - at32 n r.out.length).toNat

/-- Less than half the circle is outstanding: from the start of the segment, or the first byte
that is not yet read, up to the ends of the segment, of the stored blocks and of the window. -/
structure Outstanding (n : SequenceNumber 32) (r : Reading) (a b : Nat) : Prop where
  segment : b < min a r.out.length + 2 ^ 31
  read : r.out.length < min a r.out.length + 2 ^ 31
  blocks : ∀ block ∈ r.rx.data,
    r.out.length + r.offset n block.1 + block.2.length < min a r.out.length + 2 ^ 31
  window : ∀ block ∈ r.rx.data.head?,
    r.out.length + r.offset n block.1 + r.rx.maxBuffer.toNat < min a r.out.length + 2 ^ 31

def Allowed (n : SequenceNumber 32) (w : List UInt8) (r : Reading) : RxOp → Prop
  | .add a b => a ≤ b ∧ b ≤ w.length ∧ Outstanding n r a b
  | .extract _ => True

/-- Any number of allowed operations. -/
def Reads (n : SequenceNumber 32) (w : List UInt8) : Reading → Reading → Prop :=
  Relation.ReflTransGen fun r r' => ∃ op, Allowed n w r op ∧ r.step n w op = some r'

/-- The byte of the stream at `x` is stored. -/
def Held (n : SequenceNumber 32) (w : List UInt8) (r : Reading) (x : Nat) : Prop :=
  r.out.length ≤ x ∧ ∃ block ∈ r.rx.data, ∃ v, w[x]? = some v ∧
    r.offset n block.1 ≤ x - r.out.length ∧
      block.2[x - r.out.length - r.offset n block.1]? = some v

structure Delivered (n : SequenceNumber 32) (w : List UInt8) (r : Reading) : Prop where
  stream : r.out <+: w
  next : r.rx.nextRxSeq = at32 n (r.out.length + r.rx.availBytes.toNat)
  filled : ∀ block ∈ r.rx.data, block.2 ≠ []
  disjoint : r.rx.data.Pairwise fun block block' =>
    r.offset n block.1 + block.2.length ≤ r.offset n block'.1
  size : r.rx.size.toNat = (r.rx.data.map fun block => block.2.length).sum
  availBytes : r.rx.availBytes.toNat = ((r.rx.data.filter fun block =>
    lt block.1 r.rx.nextRxSeq).map fun block => block.2.length).sum
  held : ∀ block ∈ r.rx.data, ∀ i < block.2.length,
    Held n w r (r.out.length + r.offset n block.1 + i)

/-- The stored blocks of the intervals of a list. -/
def blocksOf (n : SequenceNumber 32) (w : List UInt8) (l : List (Nat × Nat)) : RxBlocks :=
  l.map fun p => (at32 n p.1, piece w p.1 p.2)

section Trim
variable {n : SequenceNumber 32} {w : List UInt8}

theorem length_piece {a b : Nat} (hb : b ≤ w.length) : (piece w a b).length = b - a := by
  simp only [piece, List.length_take, List.length_drop]
  omega

theorem getSize_piece {a b : Nat} (hb : b ≤ w.length) :
    getSize (piece w a b) = BitVec.ofNat 32 (b - a) := by rw [getSize, length_piece hb]

theorem at32_getSize {a b : Nat} (hab : a ≤ b) (hb : b ≤ w.length) :
    at32 n a + getSize (piece w a b) = at32 n b := by
  rw [getSize_piece hb, at32_add]
  congr 1
  omega

/-- What the loop leaves of the blocks of `l` and of a segment in `[head, tail)`: together they
cover what they covered before, and what is left of the segment meets none of the blocks. -/
structure Fitted (l : List (Nat × Nat)) (head tail : Nat) (l' : List (Nat × Nat))
    (head' tail' : Nat) : Prop where
  sublist : l'.Sublist l
  le_head : head ≤ head'
  tail_le : tail' ≤ tail
  covers : ∀ x, (Covers l' x ∨ (head' ≤ x ∧ x < tail')) ↔ (Covers l x ∨ (head ≤ x ∧ x < tail))
  free : ∀ p ∈ l', p.2 ≤ head' ∨ tail' ≤ p.1
  stays : ¬ Covers l head → head' = head
  erased : ∀ p ∈ l, p ∉ l' → head' < p.1 ∧ p.2 < tail

/-- The first block stays, and the segment loses what it has in common with it. -/
theorem Fitted.keep {p : Nat × Nat} {l l' : List (Nat × Nat)} {head tail head₁ tail₁ head' tail' : Nat}
    (h : Fitted l head₁ tail₁ l' head' tail') (hhead : head ≤ head₁) (htail : tail₁ ≤ tail)
    (hcut : ∀ x, ((p.1 ≤ x ∧ x < p.2) ∨ (head₁ ≤ x ∧ x < tail₁)) ↔
      ((p.1 ≤ x ∧ x < p.2) ∨ (head ≤ x ∧ x < tail))) (hfree : p.2 ≤ head₁ ∨ tail₁ ≤ p.1)
    (hstays : ¬ (p.1 ≤ head ∧ head < p.2) → head₁ = head) :
    Fitted (p :: l) head tail (p :: l') head' tail' where
  sublist := h.sublist.cons_cons p
  le_head := Nat.le_trans hhead h.le_head
  tail_le := Nat.le_trans h.tail_le htail
  covers x := by
    have hold := h.covers x
    have hcutx := hcut x
    simp only [covers_cons]
    constructor
    · rintro ((hp | hx) | hx)
      · exact .inl (.inl hp)
      · rcases hold.mp (.inl hx) with hx | hx
        · exact .inl (.inr hx)
        · exact (hcutx.mp (.inr hx)).imp .inl id
      · rcases hold.mp (.inr hx) with hx | hx
        · exact .inl (.inr hx)
        · exact (hcutx.mp (.inr hx)).imp .inl id
    · rintro ((hp | hx) | hx)
      · exact .inl (.inl hp)
      · exact (hold.mpr (.inl hx)).imp .inr id
      · rcases hcutx.mpr (.inr hx) with hx | hx
        · exact .inl (.inl hx)
        · exact (hold.mpr (.inr hx)).imp .inr id
  free := List.forall_mem_cons.mpr ⟨by
    have hle := h.le_head
    have hge := h.tail_le
    omega, h.free⟩
  stays hmiss := by
    rw [covers_cons, not_or] at hmiss
    have heq := hstays hmiss.1
    rw [h.stays (heq ▸ hmiss.2), heq]
  erased q hq hq' := by
    rcases List.mem_cons.mp hq with rfl | hq
    · exact absurd List.mem_cons_self hq'
    · obtain ⟨hlt, hend⟩ := h.erased q hq fun hmem => hq' (List.mem_cons_of_mem _ hmem)
      exact ⟨hlt, Nat.lt_of_lt_of_le hend htail⟩

/-- The first block lies within the segment and goes. -/
theorem Fitted.erase {p : Nat × Nat} {l l' : List (Nat × Nat)} {head tail head' tail' : Nat}
    (h : Fitted l head tail l' head' tail') (hhead : head < p.1) (htail : p.2 < tail)
    (hrest : ∀ q ∈ l, head < q.1) :
    Fitted (p :: l) head tail l' head' tail' where
  sublist := h.sublist.cons p
  le_head := h.le_head
  tail_le := h.tail_le
  covers x := by
    rw [h.covers x, covers_cons]
    constructor
    · exact fun hx => hx.imp .inr id
    · rintro ((hp | hx) | hx)
      · exact .inr ⟨by omega, by omega⟩
      · exact .inl hx
      · exact .inr hx
  free := h.free
  stays hmiss := h.stays fun hx => hmiss (covers_cons.mpr (.inr hx))
  erased q hq hq' := by
    rcases List.mem_cons.mp hq with rfl | hq
    · refine ⟨?_, htail⟩
      rwa [h.stays fun ⟨p, hp, hle, _⟩ => absurd hle (Nat.not_le.mpr (hrest p hp))]
    · exact h.erased q hq hq'

theorem trim_fitted {base lo head tail : Nat} {l : List (Nat × Nat)} {size : BitVec 32}
    (hl : Ascending lo l) (hw : ∀ p ∈ l, p.2 ≤ w.length) (hspan : ∀ p ∈ l, p.2 < base + 2 ^ 31)
    (hlo : base ≤ lo) (hhead : base ≤ head ∧ head < base + 2 ^ 31)
    (htail : base ≤ tail ∧ tail < base + 2 ^ 31) :
    ∃ l' head' tail' size', trim (blocksOf n w l) size (at32 n head) (at32 n tail) =
        ⟨blocksOf n w l', size', at32 n head', at32 n tail'⟩ ∧
      Fitted l head tail l' head' tail' ∧ base ≤ tail' ∧ head' < base + 2 ^ 31 ∧
        size' + BitVec.ofNat 32 (total l) = size + BitVec.ofNat 32 (total l') := by
  induction l generalizing lo head tail size with
  | nil =>
    exact ⟨[], head, tail, size, rfl, ⟨.slnil, Nat.le_refl _, Nat.le_refl _, fun _ => .rfl, nofun,
      fun _ => rfl, nofun⟩, htail.1, hhead.2, rfl⟩
  | cons p rest ih =>
    obtain ⟨hwp, hwrest⟩ := List.forall_mem_cons.mp hw
    obtain ⟨hsp, hsrest⟩ := List.forall_mem_cons.mp hspan
    obtain ⟨hlop, hne, hasc⟩ := hl
    have hlast : at32 n p.1 + getSize (piece w p.1 p.2) = at32 n p.2 :=
      at32_getSize (Nat.le_of_lt hne) hwp
    have hfirst : le (at32 n p.1) (at32 n tail) = true ↔ p.1 ≤ tail :=
      le_at32 (by omega) (by omega)
    have hover : gt (at32 n p.2) (at32 n head) = true ↔ head < p.2 :=
      gt_at32 (by omega) (by omega)
    have hstart : gt (at32 n p.1) (at32 n head) = true ↔ head < p.1 :=
      gt_at32 (by omega) (by omega)
    have hend : lt (at32 n p.2) (at32 n tail) = true ↔ p.2 < tail :=
      lt_at32 (by omega) (by omega)
    have hfirst' : le (at32 n p.1) (at32 n head) = true ↔ p.1 ≤ head :=
      le_at32 (by omega) (by omega)
    have hend' : ge (at32 n p.2) (at32 n tail) = true ↔ tail ≤ p.2 :=
      ge_at32 (by omega) (by omega)
    rw [show blocksOf n w (p :: rest) = (at32 n p.1, piece w p.1 p.2) :: blocksOf n w rest from rfl]
    have hsize (l : List (Nat × Nat)) : BitVec.ofNat 32 (total (p :: l)) =
        getSize (piece w p.1 p.2) + BitVec.ofNat 32 (total l) := by
      rw [total_cons, BitVec.ofNat_add, getSize_piece hwp]
    unfold trim
    simp only [hlast]
    by_cases hin : p.1 ≤ tail
    · rw [if_pos (hfirst.mpr hin)]
      by_cases hmeet : head < p.2
      · rw [if_pos (hover.mpr hmeet)]
        by_cases hembed : head < p.1 ∧ p.2 < tail
        · -- the block lies within the segment
          rw [if_pos (by simp [hstart.mpr hembed.1, hend.mpr hembed.2])]
          obtain ⟨l', head', tail', size', htrim, hfit, htail', hhead', hsum⟩ :=
            @ih p.2 head tail (size - getSize (piece w p.1 p.2)) hasc hwrest hsrest (by omega) hhead htail
          refine ⟨l', head', tail', size', htrim, hfit.erase hembed.1 hembed.2 fun q hq => ?_, htail',
            hhead', ?_⟩
          · have := (hasc.of_mem hq).1
            omega
          rw [hsize]
          linear_combination hsum
        · -- one end of the segment, or all of it, lies within the block
          rw [if_neg (by simpa [hstart, hend] using hembed)]
          obtain ⟨head₁, hhead₁⟩ : ∃ k, (if p.1 ≤ head then p.2 else head) = k := ⟨_, rfl⟩
          obtain ⟨tail₁, htail₁⟩ : ∃ k, (if tail ≤ p.2 then p.1 else tail) = k := ⟨_, rfl⟩
          have hheadSeq : (if le (at32 n p.1) (at32 n head) = true then at32 n p.2
              else at32 n head) = at32 n head₁ := by
            rw [← hhead₁]
            simp only [hfirst']
            split <;> rfl
          have htailSeq : (if ge (at32 n p.2) (at32 n tail) = true then at32 n p.1
              else at32 n tail) = at32 n tail₁ := by
            rw [← htail₁]
            simp only [hend']
            split <;> rfl
          obtain ⟨l', head', tail', size', htrim, hfit, htail', hhead', hsum⟩ :=
            @ih p.2 head₁ tail₁ size hasc hwrest hsrest (by omega)
              (by split at hhead₁ <;> omega) (by split at htail₁ <;> omega)
          rw [hheadSeq, htailSeq, htrim]
          refine ⟨p :: l', head', tail', size', rfl, hfit.keep ?_ ?_ ?_ ?_ ?_, htail', hhead', ?_⟩
          · split at hhead₁ <;> omega
          · split at htail₁ <;> omega
          · intro x
            split at hhead₁ <;> split at htail₁ <;> omega
          · split at hhead₁ <;> split at htail₁ <;> omega
          · intro hout
            rw [← hhead₁, if_neg fun hle => hout ⟨hle, hmeet⟩]
          · rw [hsize, hsize]
            linear_combination hsum
      · rw [if_neg (by simpa [hover] using hmeet)]
        obtain ⟨l', head', tail', size', htrim, hfit, htail', hhead', hsum⟩ :=
          @ih p.2 head tail size hasc hwrest hsrest (by omega) hhead htail
        rw [htrim]
        refine ⟨p :: l', head', tail', size', rfl, hfit.keep (Nat.le_refl _) (Nat.le_refl _)
          (fun _ => .rfl) (.inl (by omega)) fun _ => rfl, htail', hhead', ?_⟩
        rw [hsize, hsize]
        linear_combination hsum
    · rw [if_neg (by simpa [hfirst] using hin)]
      refine ⟨p :: rest, head, tail, size, rfl, ⟨List.Sublist.refl _, Nat.le_refl _, Nat.le_refl _,
        fun _ => .rfl, ?_, fun _ => rfl, fun q hq hq' => absurd hq hq'⟩, htail.1, hhead.2, rfl⟩
      refine List.forall_mem_cons.mpr ⟨.inr (by omega), fun q hq => .inr ?_⟩
      have := (hasc.of_mem hq).1
      omega

/-- In the map a new block comes where its interval does. -/
theorem store_blocksOf {base a b : Nat} {l : List (Nat × Nat)}
    (hl : ∀ p ∈ l, base ≤ p.1 ∧ p.1 < base + 2 ^ 31) (ha : base ≤ a ∧ a < base + 2 ^ 31)
    (hnew : ∀ p ∈ l, p.1 ≠ a) :
    store (at32 n a) (piece w a b) (blocksOf n w l) = blocksOf n w (put (a, b) l) := by
  induction l with
  | nil => rfl
  | cons p rest ih =>
    obtain ⟨hp, hrest⟩ := List.forall_mem_cons.mp hl
    obtain ⟨hne, hnerest⟩ := List.forall_mem_cons.mp hnew
    have hlt : lt (at32 n a) (at32 n p.1) = true ↔ a < p.1 := lt_at32 (by omega) (by omega)
    have hgt : lt (at32 n p.1) (at32 n a) = true ↔ p.1 < a := lt_at32 (by omega) (by omega)
    rw [show blocksOf n w (p :: rest) = (at32 n p.1, piece w p.1 p.2) :: blocksOf n w rest from rfl]
    unfold store put
    by_cases hbefore : a < p.1
    · rw [if_pos (hlt.mpr hbefore), if_pos hbefore]
      rfl
    · rw [if_neg fun h => hbefore (hlt.mp h), if_pos (hgt.mpr (by omega)), if_neg hbefore,
        ih hrest hnerest]
      rfl

/-- The rest of the first block takes its place. -/
theorem store_eraseP {e y j : Nat} {rest : List (Nat × Nat)}
    (hl : Ascending e ((e, y) :: rest)) (hspan : ∀ p ∈ (e, y) :: rest, p.2 < e + 2 ^ 31)
    (hj : 0 < j) (hjy : e + j < y) :
    (store (at32 n (e + j)) (piece w (e + j) y) (blocksOf n w ((e, y) :: rest))).eraseP
        (fun block => block.1 = at32 n e) = blocksOf n w ((e + j, y) :: rest) := by
  have hasc : Ascending y rest := hl.2.2
  have hput : put (e + j, y) ((e, y) :: rest) = (e, y) :: (e + j, y) :: rest := by
    unfold put
    rw [if_neg (by simp only; omega)]
    cases rest with
    | nil => rfl
    | cons q rest =>
      have hq := hasc.1
      unfold put
      rw [if_pos (by simp only at hq ⊢; omega)]
  have hin : ∀ p ∈ (e, y) :: rest, e ≤ p.1 ∧ p.1 < e + 2 ^ 31 := by
    intro p hp
    have hmem := hl.of_mem hp
    have hend := hspan p hp
    omega
  have hnew : ∀ p ∈ (e, y) :: rest, p.1 ≠ e + j := by
    intro p hp
    rcases List.mem_cons.mp hp with rfl | hp
    · simp only
      omega
    · have := (hasc.of_mem hp).1
      omega
  have hend := hspan (e, y) List.mem_cons_self
  simp only at hend
  have hstore := store_blocksOf (n := n) (w := w) (b := y) hin (by omega) hnew
  rw [hstore, hput]
  simp [blocksOf]

end Trim

/-- A SACK list by places. -/
def sackOf (n : SequenceNumber 32) (k : List (Nat × Nat)) : List TcpTxBuffer.SackBlock :=
  k.map fun p => (at32 n p.1, at32 n p.2)

section Sack
variable {n : SequenceNumber 32} {base : Nat} {P : Nat × Nat → Prop}

/-- Non-empty blocks in play. -/
def InPlay (base : Nat) (p : Nat × Nat) : Prop := base ≤ p.1 ∧ p.1 < p.2 ∧ p.2 < base + 2 ^ 31

/-- Two blocks that meet are merged into one. -/
def Mergeable (P : Nat × Nat → Prop) : Prop := ∀ a b c, P (a, b) → P (b, c) → P (a, c)

theorem mergeSack_sackOf {b : Nat × Nat} (hb : InPlay base b) {k : List (Nat × Nat)}
    (hk : ∀ p ∈ k, InPlay base p) :
    mergeSack (at32 n b.1, at32 n b.2) (sackOf n k) =
      some ((join b k).map fun r => ((at32 n r.1.1, at32 n r.1.2), sackOf n r.2)) := by
  induction k with
  | nil => rfl
  | cons c rest ih =>
    obtain ⟨⟨hclo, hcne, hchi⟩, hrest⟩ := List.forall_mem_cons.mp hk
    obtain ⟨hblo, hbne, hbhi⟩ := hb
    have hleft : at32 n b.1 = at32 n c.2 ↔ b.1 = c.2 := at32_inj (by omega) (by omega)
    have hright : at32 n b.2 = at32 n c.1 ↔ b.2 = c.1 := at32_inj (by omega) (by omega)
    rw [show sackOf n (c :: rest) = (at32 n c.1, at32 n c.2) :: sackOf n rest from rfl]
    unfold mergeSack join
    by_cases hl : b.1 = c.2
    · rw [if_pos (hleft.mpr hl), if_pos ((lt_at32 (by omega) (by omega)).mpr (by omega)), if_pos hl]
      rfl
    · rw [if_neg fun h => hl (hleft.mp h), if_neg hl]
      by_cases hr : b.2 = c.1
      · rw [if_pos (hright.mpr hr), if_pos ((lt_at32 (by omega) (by omega)).mpr (by omega)),
          if_pos hr]
        rfl
      · rw [if_neg fun h => hr (hright.mp h), if_neg hr, ih hrest]
        cases join b rest <;> rfl

theorem inPlay_mergeable (base : Nat) : Mergeable (InPlay base) :=
  fun _ _ _ hab hbc => ⟨hab.1, Nat.lt_trans hab.2.1 hbc.2.1, hbc.2.2⟩

theorem mergeSackList_sackOf {fuel : Nat} {b : Nat × Nat} (hb : InPlay base b)
    {k : List (Nat × Nat)} (hk : ∀ p ∈ k, InPlay base p) (hfuel : k.length < fuel) :
    mergeSackList fuel (at32 n b.1, at32 n b.2) (sackOf n k) =
      some (sackOf n (absorb fuel b k)) := by
  induction fuel generalizing b k with
  | zero => omega
  | succ fuel ih =>
    unfold mergeSackList absorb
    rw [mergeSack_sackOf hb hk, Option.bind_some]
    cases hjoin : join b k with
    | none => rfl
    | some r =>
      obtain ⟨m, k'⟩ := r
      obtain ⟨c, hc⟩ := join_some hjoin
      obtain ⟨hPc, hrest⟩ := hc.forall hk
      have hlen := hc.perm.length_eq
      rw [List.length_cons] at hlen
      refine ih ?_ hrest (by simp only; omega)
      rcases hc.touch with ⟨htouch, rfl⟩ | ⟨htouch, rfl⟩
      · exact inPlay_mergeable base c.1 c.2 b.2 hPc (htouch ▸ hb)
      · exact inPlay_mergeable base b.1 b.2 c.2 hb (htouch ▸ hPc)

theorem clearSackList_sackOf (hplay : ∀ p, P p → InPlay base p) {m : Nat} (hlo : base ≤ m)
    (hhi : m < base + 2 ^ 31) {k : List (Nat × Nat)} (hk : ∀ p ∈ k, P p) :
    clearSackList (at32 n m) (sackOf n k) = some (sackOf n (k.filter fun p => m < p.2)) := by
  induction k with
  | nil => rfl
  | cons p rest ih =>
    obtain ⟨hp, hrest⟩ := List.forall_mem_cons.mp hk
    obtain ⟨hplo, hpne, hphi⟩ := hplay p hp
    have hlt : lt (at32 n p.1) (at32 n p.2) = true := (lt_at32 (by omega) (by omega)).mpr hpne
    have hle : le (at32 n p.2) (at32 n m) = true ↔ p.2 ≤ m := le_at32 (by omega) (by omega)
    rw [show sackOf n (p :: rest) = (at32 n p.1, at32 n p.2) :: sackOf n rest from rfl]
    unfold clearSackList
    rw [if_neg (by simp [hlt]), ih hrest, Option.map_some]
    by_cases hend : p.2 ≤ m
    · rw [if_pos (hle.mpr hend), List.filter_cons_of_neg (by simpa using hend)]
    · rw [if_neg fun h => hend (hle.mp h), List.filter_cons_of_pos (by simpa using hend)]
      rfl

/-- The next sequence number moves to where the covered places have a hole. -/
theorem catchUp_blocksOf {w : List UInt8} {lo m : Nat} {l k : List (Nat × Nat)} {s : TcpRxBuffer}
    (hplay : ∀ p, P p → InPlay base p) (hl : Ascending lo l) (hw : ∀ p ∈ l, p.2 ≤ w.length)
    (hspan : ∀ p ∈ l, p.2 < base + 2 ^ 31) (hlo : base ≤ lo) (hm : base ≤ m ∧ m < base + 2 ^ 31)
    (hk : ∀ p ∈ k, P p) (hnext : s.nextRxSeq = at32 n m) (hsack : s.sackList = sackOf n k) :
    ∃ k', catchUp s (blocksOf n w l) = some
        { s with
          nextRxSeq := at32 n (reach m l)
          availBytes := s.availBytes + BitVec.ofNat 32 (reach m l - m)
          sackList := sackOf n k' } ∧
      k'.Sublist k ∧ (reach m l = m → k' = k) ∧ ∀ p ∈ k', reach m l = m ∨ reach m l < p.2 := by
  induction l generalizing lo m k s with
  | nil =>
    refine ⟨k, ?_, .refl _, fun _ => rfl, fun p hp => .inl rfl⟩
    simp [blocksOf, catchUp, reach, ← hnext, ← hsack]
  | cons p rest ih =>
    obtain ⟨hwp, hwrest⟩ := List.forall_mem_cons.mp hw
    obtain ⟨hsp, hsrest⟩ := List.forall_mem_cons.mp hspan
    obtain ⟨hlop, hne, hasc⟩ := hl
    have hlt : lt (at32 n p.1) (at32 n m) = true ↔ p.1 < m := lt_at32 (by omega) (by omega)
    have hgt : gt (at32 n p.1) (at32 n m) = true ↔ m < p.1 := gt_at32 (by omega) (by omega)
    rw [show blocksOf n w (p :: rest) = (at32 n p.1, piece w p.1 p.2) :: blocksOf n w rest from rfl]
    unfold catchUp reach
    rw [hnext]
    by_cases hbelow : p.1 < m
    · rw [if_pos (hlt.mpr hbelow), if_pos hbelow]
      exact ih hasc hwrest hsrest (by omega) hm hk hnext hsack
    · rw [if_neg fun h => hbelow (hlt.mp h), if_neg hbelow]
      by_cases habove : m < p.1
      · rw [if_pos (hgt.mpr habove), if_pos habove]
        refine ⟨k, ?_, .refl _, fun _ => rfl, fun p hp => .inl rfl⟩
        simp [← hnext, ← hsack]
      · rw [if_neg fun h => habove (hgt.mp h), if_neg habove]
        obtain rfl : m = p.1 := by omega
        have hclear := clearSackList_sackOf (n := n) hplay (by omega : base ≤ p.2) hsp hk
        have hkeep : ∀ q ∈ k.filter (fun q => p.2 < q.2), P q :=
          fun q hq => hk q (List.mem_filter.mp hq).1
        rw [at32_getSize (Nat.le_of_lt hne) hwp, hsack, hclear, Option.bind_some]
        obtain ⟨k', hcatch, hsub, hsame, hk'⟩ := @ih p.2 p.2 (k.filter fun q => p.2 < q.2)
          { s with
            nextRxSeq := at32 n p.2
            availBytes := s.availBytes + getSize (piece w p.1 p.2)
            sackList := sackOf n (k.filter fun q => p.2 < q.2) }
          hasc hwrest hsrest (by omega) ⟨by omega, hsp⟩ hkeep rfl rfl
        have hle := hasc.le_reach (n := p.2)
        have hsum : getSize (piece w p.1 p.2) + BitVec.ofNat 32 (reach p.2 rest - p.2) =
            BitVec.ofNat 32 (reach p.2 rest - p.1) := by
          rw [getSize_piece hwp, ← BitVec.ofNat_add]
          congr 1
          omega
        refine ⟨k', ?_, hsub.trans List.filter_sublist, fun h => by omega, fun q hq => .inr ?_⟩
        · rw [hcatch]
          simp only [BitVec.add_assoc, hsum]
        · rcases hk' q hq with heq | hlt'
          · rw [heq]
            simpa using (List.mem_filter.mp (hsub.subset hq)).2
          · exact hlt'

end Sack

/-- The state by places: `l` are the stored blocks, `m` is where the first byte is missing and `k`
is the SACK list. -/
structure Places (n : SequenceNumber 32) (w : List UInt8) (r : Reading) (l : List (Nat × Nat))
    (m : Nat) (k : List (Nat × Nat)) : Prop where
  data : r.rx.data = blocksOf n w l
  next : r.rx.nextRxSeq = at32 n m
  sackList : r.rx.sackList = sackOf n k
  gotFin : r.rx.gotFin = false
  size : r.rx.size = BitVec.ofNat 32 (total l)
  availBytes : r.rx.availBytes = BitVec.ofNat 32 (m - r.out.length)
  out : r.out <+: w
  ascending : Ascending r.out.length l
  within : ∀ p ∈ l, p.2 ≤ w.length
  span : ∀ p ∈ l, p.2 < r.out.length + 2 ^ 31
  le : r.out.length ≤ m
  covered : ∀ x, r.out.length ≤ x → x < m → Covers l x
  missing : ¬ Covers l m
  sacks : ∀ p ∈ k, m < p.1 ∧ p.1 < p.2 ∧ ∀ x, p.1 ≤ x → x < p.2 → Covers l x

namespace Places
variable {n : SequenceNumber 32} {w : List UInt8} {r : Reading} {l : List (Nat × Nat)} {m : Nat}
  {k : List (Nat × Nat)}

theorem new (n : SequenceNumber 32) (w : List UInt8) (maxBuffer : BitVec 32) :
    Places n w ⟨.new n maxBuffer, []⟩ [] 0 [] := by
  constructor <;> simp [TcpRxBuffer.new, blocksOf, sackOf, Ascending]

/-- A bound on all blocks is one on the first missing byte. -/
theorem next_lt (h : Places n w r l m k) {hi : Nat} (hread : r.out.length < hi)
    (hl : ∀ p ∈ l, p.2 < hi) : m < hi := by
  rcases Nat.eq_or_lt_of_le h.le with heq | hlt
  · rwa [← heq]
  · obtain ⟨p, hp, -, hend⟩ := h.covered (m - 1) (by omega) (by omega)
    have := hl p hp
    omega

theorem offset_eq {x : Nat} (hx : r.out.length ≤ x)
    (hlt : x < r.out.length + 2 ^ 31) : r.offset n (at32 n x) = x - r.out.length := by
  rw [Reading.offset, at32_sub hx, BitVec.toNat_ofNat]
  omega

/-- The places in play, where a segment in `[a, b)` comes in. -/
structure Play (r : Reading) (l : List (Nat × Nat)) (m a b : Nat) : Prop where
  read : r.out.length < min a r.out.length + 2 ^ 31
  next : m < min a r.out.length + 2 ^ 31
  segment : b < min a r.out.length + 2 ^ 31
  blocks : ∀ p ∈ l, p.2 < min a r.out.length + 2 ^ 31
  window : ∀ p ∈ l.head?, p.1 + r.rx.maxBuffer.toNat < min a r.out.length + 2 ^ 31

theorem play (h : Places n w r l m k) {a b : Nat} (ho : Outstanding n r a b) : Play r l m a b := by
  have hblocks : ∀ p ∈ l, p.2 < min a r.out.length + 2 ^ 31 := by
    intro p hp
    obtain ⟨hlo, hne⟩ := h.ascending.of_mem hp
    have hspan := h.span p hp
    have hin := ho.blocks (at32 n p.1, piece w p.1 p.2) (by
      rw [h.data]
      exact List.mem_map_of_mem hp)
    rw [offset_eq hlo (by omega), length_piece (h.within p hp)] at hin
    omega
  refine ⟨ho.read, h.next_lt ho.read hblocks, ho.segment, hblocks, ?_⟩
  intro p hp
  cases l with
  | nil => cases hp
  | cons q rest =>
    obtain rfl : q = p := Option.some.inj hp
    obtain ⟨hlo, hne, -⟩ := h.ascending
    have hspan := h.span q List.mem_cons_self
    have hin := ho.window (at32 n q.1, piece w q.1 q.2) (by rw [h.data]; rfl)
    rw [offset_eq hlo (by omega)] at hin
    omega

/-- The end of a segment within the window. -/
def cut (maxBuffer : BitVec 32) (l : List (Nat × Nat)) (b : Nat) : Nat :=
  match l with
  | [] => b
  | p :: _ => min b (p.1 + maxBuffer.toNat)

theorem cut_le (maxBuffer : BitVec 32) (l : List (Nat × Nat)) (b : Nat) : cut maxBuffer l b ≤ b := by
  cases l with
  | nil => exact Nat.le_refl b
  | cons p rest => exact Nat.min_le_left _ _

/-- The segment within the window: it begins with the first missing byte if not later, or nothing
is left of it. -/
theorem fitWindow (h : Places n w r l m k) {a b : Nat} (hab : a ≤ b) (hplay : Play r l m a b) :
    ∃ head, r.rx.fitWindow (at32 n a) (at32 n b) = (at32 n head, at32 n (cut r.rx.maxBuffer l b)) ∧
      (head = max a m ∨ head = cut r.rx.maxBuffer l b) ∧ min a r.out.length ≤ cut r.rx.maxBuffer l b ∧
        head < min a r.out.length + 2 ^ 31 := by
  obtain ⟨hread, hnext, hseg, hblocks, hwindow⟩ := hplay
  have hle := h.le
  have hhead : (if lt (at32 n a) r.rx.nextRxSeq = true then r.rx.nextRxSeq else at32 n a) =
      at32 n (max a m) := by
    have hlt : lt (at32 n a) (at32 n m) = true ↔ a < m := lt_at32 (by omega) (by omega)
    rw [h.next]
    by_cases ham : a < m
    · rw [if_pos (hlt.mpr ham), Nat.max_eq_right (Nat.le_of_lt ham)]
    · rw [if_neg fun hh => ham (hlt.mp hh), Nat.max_eq_left (by omega)]
  unfold TcpRxBuffer.fitWindow
  simp only [hhead, h.data]
  cases l with
  | nil =>
    unfold cut
    exact ⟨max a m, rfl, .inl rfl, by simp only; omega, by omega⟩
  | cons p rest =>
    unfold cut
    have hedge := hwindow p rfl
    obtain ⟨hlo, -, -⟩ := h.ascending
    have hmax : at32 n p.1 + r.rx.maxBuffer = at32 n (p.1 + r.rx.maxBuffer.toNat) := by
      rw [← at32_add, BitVec.ofNat_toNat, BitVec.setWidth_eq]
    have hcut : (if lt (at32 n (p.1 + r.rx.maxBuffer.toNat)) (at32 n b) = true then
        at32 n (p.1 + r.rx.maxBuffer.toNat) else at32 n b) =
          at32 n (min b (p.1 + r.rx.maxBuffer.toNat)) := by
      have hlt : lt (at32 n (p.1 + r.rx.maxBuffer.toNat)) (at32 n b) = true ↔
          p.1 + r.rx.maxBuffer.toNat < b := lt_at32 (by omega) (by omega)
      by_cases hover : p.1 + r.rx.maxBuffer.toNat < b
      · rw [if_pos (hlt.mpr hover), Nat.min_eq_right (Nat.le_of_lt hover)]
      · rw [if_neg fun hh => hover (hlt.mp hh), Nat.min_eq_left (by omega)]
    simp only [blocksOf, List.map_cons, hmax, hcut]
    have hlt : lt (at32 n (min b (p.1 + r.rx.maxBuffer.toNat))) (at32 n (max a m)) = true ↔
        min b (p.1 + r.rx.maxBuffer.toNat) < max a m := lt_at32 (by omega) (by omega)
    by_cases hempty : min b (p.1 + r.rx.maxBuffer.toNat) < max a m
    · rw [if_pos (hlt.mpr hempty)]
      exact ⟨_, rfl, .inr rfl, by omega, by omega⟩
    · rw [if_neg fun hh => hempty (hlt.mp hh)]
      exact ⟨_, rfl, .inl rfl, by omega, by omega⟩

/-- What the new SACK list may consist of: blocks of stored bytes behind the first missing one. -/
def Sackable (base m : Nat) (l : List (Nat × Nat)) (p : Nat × Nat) : Prop :=
  m < p.1 ∧ p.1 < p.2 ∧ p.2 < base + 2 ^ 31 ∧ ∀ x, p.1 ≤ x → x < p.2 → Covers l x

theorem sackable_mergeable (base : Nat) (m : Nat) (l : List (Nat × Nat)) :
    Mergeable (Sackable base m l) := by
  intro a b c hab hbc
  obtain ⟨hm, hab', -, hcov⟩ := hab
  obtain ⟨-, hbc', hhi, hcov'⟩ := hbc
  simp only at hm hab' hcov hbc' hhi hcov'
  refine ⟨hm, Nat.lt_trans hab' hbc', hhi, fun x hx hlt => ?_⟩
  by_cases hxb : x < b
  · exact hcov x hx hxb
  · exact hcov' x (by omega) hlt

/-- The SACK list after a block behind a gap has been stored. -/
def report (b : Nat × Nat) (k : List (Nat × Nat)) : List (Nat × Nat) :=
  if 4 < (absorb (k.length + 1) b k).length then (absorb (k.length + 1) b k).dropLast
  else absorb (k.length + 1) b k

theorem report_subset {b : Nat × Nat} : ∀ p ∈ report b k, p ∈ absorb (k.length + 1) b k := by
  intro p hp
  unfold report at hp
  split at hp
  · exact List.mem_of_mem_dropLast hp
  · exact hp

/-- The bytes in `[head, tail)` go into a gap of the stored blocks `l'`. -/
theorem insert (h : Places n w r l m k) {base head tail : Nat} {l' : List (Nat × Nat)}
    {size : BitVec 32} (hsub : l'.Sublist l) (hcov : ∀ x, Covers l x → Covers (put (head, tail) l') x)
    (hsize : size = BitVec.ofNat 32 (total l')) (hfree : ∀ p ∈ l', p.2 ≤ head ∨ tail ≤ p.1)
    (hm : m ≤ head) (hlt : head < tail) (htail : tail ≤ w.length)
    (hread : base ≤ r.out.length) (hhi : tail < base + 2 ^ 31)
    (hspan : ∀ p ∈ l, p.2 < base + 2 ^ 31) :
    ∃ rx m' k', TcpRxBuffer.insert { r.rx with data := blocksOf n w l', size := size } (at32 n head)
        (at32 n tail) (piece w head tail) = some rx ∧
      Places n w { r with rx := rx } (put (head, tail) l') m' k' ∧
        (m < head → m' = m ∧ k' = report (head, tail) k) ∧ (m = head → k'.Sublist k) ∧
          rx.maxBuffer = r.rx.maxBuffer := by
  have hle := h.le
  have hasc' := h.ascending.sublist hsub
  have hasc : Ascending r.out.length (put (head, tail) l') :=
    hasc'.put (by simp only; omega) hlt hfree
  have hspan' : ∀ p ∈ l', base ≤ p.1 ∧ p.1 < base + 2 ^ 31 := by
    intro p hp
    obtain ⟨hlo, hne⟩ := hasc'.of_mem hp
    have := hspan p (hsub.subset hp)
    omega
  have hnew : ∀ p ∈ l', p.1 ≠ head := by
    intro p hp heq
    obtain ⟨hlo, hne⟩ := hasc'.of_mem hp
    have := hfree p hp
    omega
  have hwithin : ∀ p ∈ put (head, tail) l', p.2 ≤ w.length := by
    intro p hp
    rcases mem_put.mp hp with rfl | hp
    · exact htail
    · exact h.within p (hsub.subset hp)
  have hblocks : ∀ p ∈ put (head, tail) l', p.2 < base + 2 ^ 31 := by
    intro p hp
    rcases mem_put.mp hp with rfl | hp
    · exact hhi
    · exact hspan p (hsub.subset hp)
  have hmlt : m < base + 2 ^ 31 := by omega
  have hnone : ((blocksOf n w l').any fun block => block.1 = at32 n head) = false := by
    simp only [blocksOf, List.any_map, List.any_eq_false, Function.comp_apply, decide_eq_true_eq]
    intro p hp heq
    have hin := hspan' p hp
    exact hnew p hp ((at32_inj (by omega) (by omega)).mp heq)
  -- the SACK list with the new block, if that is not the one that was missing
  have hsack : ∃ k₁, (∀ p ∈ k₁, Sackable base m (put (head, tail) l') p) ∧
      (m < head → k₁ = report (head, tail) k) ∧ (m = head → k₁ = k) ∧
      (if gt (at32 n head) r.rx.nextRxSeq then
        TcpRxBuffer.updateSackList
          { r.rx with data := blocksOf n w (put (head, tail) l'), size := size } (at32 n head)
          (at32 n tail)
      else some { r.rx with data := blocksOf n w (put (head, tail) l'), size := size }) =
      some { r.rx with
        data := blocksOf n w (put (head, tail) l')
        size := size
        sackList := sackOf n k₁ } := by
    have hold : ∀ p ∈ k, Sackable base m (put (head, tail) l') p := by
      intro p hp
      obtain ⟨hmp, hne, hin⟩ := h.sacks p hp
      obtain ⟨q, hq, -, hend⟩ := hin (p.2 - 1) (by omega) (by omega)
      have := hspan q hq
      exact ⟨hmp, hne, by omega, fun x hx hxlt => hcov x (hin x hx hxlt)⟩
    have hplay : ∀ p, Sackable base m (put (head, tail) l') p → InPlay base p :=
      fun p hp => ⟨by have := hp.1; omega, hp.2.1, hp.2.2.1⟩
    have hgt : gt (at32 n head) (at32 n m) = true ↔ m < head := gt_at32 (by omega) (by omega)
    rw [h.next]
    by_cases hgap : m < head
    · have hfresh : Sackable base m (put (head, tail) l') (head, tail) :=
        ⟨hgap, hlt, hhi, fun x hx hxlt => covers_put.mpr (.inl ⟨hx, hxlt⟩)⟩
      have hmerge := mergeSackList_sackOf (n := n) (hplay _ hfresh) (fun p hp => hplay p (hold p hp))
        (Nat.lt_succ_self k.length)
      have hlen : r.rx.sackList.length + 1 = k.length.succ := by simp [h.sackList, sackOf]
      refine ⟨report (head, tail) k, ?_, fun _ => rfl, fun heq => by omega, ?_⟩
      · intro p hp
        exact absorb_forall (sackable_mergeable base m _) hfresh hold p (report_subset p hp)
      · rw [if_pos (hgt.mpr hgap), updateSackList]
        simp only [h.next]
        rw [if_neg (by simp [hgt.mpr hgap]), hlen, h.sackList, hmerge, Option.map_some]
        simp only [sackOf, List.length_map, report]
        split <;> simp [List.map_dropLast]
    · refine ⟨k, hold, fun h => absurd h hgap, fun _ => rfl, ?_⟩
      rw [if_neg fun hh => hgap (hgt.mp hh), ← h.sackList]
  obtain ⟨k₁, hk₁, hreport, hkeep, hsack⟩ := hsack
  obtain ⟨k', hcatch, hsub', hsame, hk'⟩ := @catchUp_blocksOf n base (Sackable base m (put (head, tail) l')) w
    r.out.length m (put (head, tail) l') k₁
    { r.rx with
      data := blocksOf n w (put (head, tail) l')
      size := size + getSize (piece w head tail)
      sackList := sackOf n k₁ }
    (fun p hp => ⟨by have := hp.1; omega, hp.2.1, hp.2.2.1⟩) hasc hwithin hblocks hread
    ⟨by omega, hmlt⟩ hk₁ h.next rfl
  have hstraddle : ∀ p ∈ put (head, tail) l', p.1 < m → p.2 ≤ m := by
    intro p hp hpm
    rcases mem_put.mp hp with rfl | hp
    · simp only at hpm
      omega
    · by_contra hgt
      exact h.missing ⟨p, hsub.subset hp, by omega, by omega⟩
  obtain ⟨hreach, hhole⟩ := reach_spec (n := m) hasc hstraddle
  have hmle := hasc.le_reach (n := m)
  have hins : TcpRxBuffer.insert { r.rx with data := blocksOf n w l', size := size } (at32 n head)
      (at32 n tail) (piece w head tail) = some
        { r.rx with
          data := blocksOf n w (put (head, tail) l')
          size := size + getSize (piece w head tail)
          nextRxSeq := at32 n (reach m (put (head, tail) l'))
          availBytes := r.rx.availBytes + BitVec.ofNat 32 (reach m (put (head, tail) l') - m)
          sackList := sackOf n k' } := by
    unfold TcpRxBuffer.insert
    simp only [hnone, Bool.false_eq_true, if_false]
    rw [store_blocksOf hspan' (by omega) hnew, hsack, Option.bind_some]
    simp only
    rw [hcatch, Option.map_some, countFin]
    simp [h.gotFin]
  have hstays : m < head → reach m (put (head, tail) l') = m := by
    intro hgap
    by_contra hne
    rcases covers_put.mp (hreach m (Nat.le_refl m) (by omega)) with hin | ⟨p, hp, hin⟩
    · simp only at hin
      omega
    · exact h.missing ⟨p, hsub.subset hp, hin⟩
  refine ⟨_, reach m (put (head, tail) l'), k', hins, ?_, fun hgap => ?_, fun heq => ?_, rfl⟩
  rotate_left
  · exact ⟨hstays hgap, by rw [hsame (hstays hgap), hreport hgap]⟩
  · exact hkeep heq ▸ hsub'
  refine ⟨rfl, rfl, rfl, h.gotFin, ?_, ?_, h.out, hasc, hwithin, ?_, by simp only; omega, ?_,
    hhole, ?_⟩
  · simp only
    rw [hsize, getSize_piece htail, ← BitVec.ofNat_add, total_put]
    congr 1
    omega
  · simp only
    rw [h.availBytes, ← BitVec.ofNat_add]
    congr 1
    omega
  · intro p hp
    have := hblocks p hp
    simp only
    omega
  · intro x hx hxlt
    by_cases hxm : x < m
    · exact hcov x (h.covered x hx hxm)
    · exact hreach x (by omega) hxlt
  · intro p hp
    obtain ⟨hmp, hne, -, hin⟩ := hk₁ p (hsub'.subset hp)
    refine ⟨?_, hne, hin⟩
    rcases hk' p hp with heq | hltp
    · rwa [heq]
    · by_contra hge
      exact hhole (hin _ (by omega) hltp)

theorem piece_piece {a b c d : Nat} (hac : a ≤ c) (hdb : d ≤ b) :
    ((piece w a b).drop (c - a)).take (d - c) = piece w c d := by
  rw [piece, piece, List.drop_take, List.drop_drop, List.take_take, Nat.add_sub_cancel' hac]
  congr 1
  omega

/-- What is stored of a segment in `[a, b)`: the bytes in `[head, tail)`, which were missing up to
blocks that lie within them. -/
structure Stored (maxBuffer : BitVec 32) (l : List (Nat × Nat)) (m : Nat) (k : List (Nat × Nat))
    (a b head tail : Nat) (l' : List (Nat × Nat)) (m' : Nat) (k' : List (Nat × Nat)) : Prop where
  places : ∃ l₁, l₁.Sublist l ∧ l' = put (head, tail) l₁ ∧ (∀ p ∈ l₁, p.2 ≤ head ∨ tail ≤ p.1) ∧
    ∀ p ∈ l, p ∉ l₁ → head < p.1 ∧ p.2 < cut maxBuffer l b
  le_head : max a m ≤ head
  lt : head < tail
  tail_le : tail ≤ cut maxBuffer l b
  first : a ≤ m → head = m
  gap : m < head → m' = m ∧ k' = report (head, tail) k
  next : m = head → k'.Sublist k

/-- A segment of the stream comes in; what was stored stays stored. -/
theorem add (h : Places n w r l m k) {a b : Nat} (hab : a ≤ b) (hb : b ≤ w.length)
    (ho : Outstanding n r a b) :
    ∃ rx ok l' m' k', r.rx.add (at32 n a) (piece w a b) = some (rx, ok) ∧
      Places n w { r with rx := rx } l' m' k' ∧ (∀ x, Covers l x → Covers l' x) ∧
        rx.maxBuffer = r.rx.maxBuffer ∧
        if ok then ∃ head tail, Stored r.rx.maxBuffer l m k a b head tail l' m' k'
        else l'.Sublist l ∧ m' = m ∧ k' = k := by
  have hplay := h.play ho
  obtain ⟨head, hfitw, hor, hbt, hhead⟩ := h.fitWindow hab hplay
  obtain ⟨tail, htail⟩ : ∃ tail, cut r.rx.maxBuffer l b = tail := ⟨_, rfl⟩
  have htb : tail ≤ b := htail ▸ cut_le _ _ _
  rw [htail] at hfitw hor hbt
  obtain ⟨hread, hnext, hseg, hblocks, -⟩ := hplay
  have hle := h.le
  obtain ⟨l', head', tail', size', htrim, hfit, hbt', hhead', hsum⟩ :=
    @trim_fitted n w (min a r.out.length) r.out.length head tail l r.rx.size h.ascending h.within
      hblocks (by omega) ⟨by omega, hhead⟩ ⟨hbt, by omega⟩
  have hh := hfit.le_head
  have ht := hfit.tail_le
  have hsize : size' = BitVec.ofNat 32 (total l') := by
    rw [h.size] at hsum
    linear_combination hsum
  have hempty : ge (at32 n head') (at32 n tail') = true ↔ tail' ≤ head' :=
    ge_at32 (by omega) (by omega)
  have hcovers := hfit.covers
  have hadd : r.rx.add (at32 n a) (piece w a b) =
      if ge (at32 n head') (at32 n tail') then
        some ({ r.rx with data := blocksOf n w l', size := size' }, false)
      else
        (TcpRxBuffer.insert { r.rx with data := blocksOf n w l', size := size' } (at32 n head')
          (at32 n tail') (piece w head' tail')).map fun s => (s, true) := by
    unfold TcpRxBuffer.add
    simp only [at32_getSize hab hb, hfitw, h.data, htrim]
    by_cases hdone : tail' ≤ head'
    · rw [if_pos (hempty.mpr hdone), if_pos (hempty.mpr hdone)]
    · rw [if_neg fun hh => hdone (hempty.mp hh), if_neg fun hh => hdone (hempty.mp hh)]
      have hstart : (distance (at32 n head') (at32 n a)).toNat = head' - a := by
        rw [distance_eq, at32_sub (by omega), BitVec.toNat_ofNat]
        omega
      have hlength : distance (at32 n tail') (at32 n head') = BitVec.ofNat 32 (tail' - head') := by
        rw [distance_eq, at32_sub (by omega)]
      have hlength' : (BitVec.ofNat 32 (tail' - head')).toNat = tail' - head' := by
        rw [BitVec.toNat_ofNat]
        omega
      rw [hlength, hstart, hlength', piece_piece (by omega) (by omega), getSize_piece (by omega),
        if_neg (not_not.mpr rfl)]
  rw [hadd]
  by_cases hdone : tail' ≤ head'
  · -- nothing of the segment is new
    have hsame : ∀ x, Covers l x → Covers l' x := by
      intro x hx
      rcases (hcovers x).mpr (.inl hx) with hx | hx
      · exact hx
      · omega
    rw [if_pos (hempty.mpr hdone)]
    refine ⟨_, _, l', m, k, rfl, ⟨rfl, h.next, h.sackList, h.gotFin, hsize, h.availBytes, h.out,
      h.ascending.sublist hfit.sublist, fun p hp => h.within p (hfit.sublist.subset hp),
      fun p hp => h.span p (hfit.sublist.subset hp), hle, ?_, ?_, ?_⟩, hsame, rfl,
      hfit.sublist, rfl, rfl⟩
    · exact fun x hx hlt => hsame x (h.covered x hx hlt)
    · rintro ⟨p, hp, hin⟩
      exact h.missing ⟨p, hfit.sublist.subset hp, hin⟩
    · intro p hp
      obtain ⟨hmp, hne, hin⟩ := h.sacks p hp
      exact ⟨hmp, hne, fun x hx hlt => hsame x (hin x hx hlt)⟩
  · have hput : ∀ x, Covers l x → Covers (put (head', tail') l') x := by
      intro x hx
      exact covers_put.mpr ((hcovers x).mpr (.inl hx)).symm
    obtain ⟨rx, m', k', hins, hplaces, hgap, hnext, hmax⟩ := h.insert hfit.sublist hput hsize hfit.free
      (by omega) (by omega) (by omega) (Nat.min_le_right a _) (by omega) hblocks
    have hlow : max a m ≤ head' := by omega
    have hfirst : a ≤ m → head' = m := by
      intro ham
      have hm : head = m := by omega
      rw [hfit.stays (hm ▸ h.missing), hm]
    rw [if_neg fun hh => hdone (hempty.mp hh), hins]
    refine ⟨rx, true, _, m', k', rfl, hplaces, hput, hmax, ?_⟩
    rw [if_pos rfl]
    exact ⟨head', tail', ⟨l', hfit.sublist, rfl, hfit.free, htail ▸ hfit.erased⟩, hlow, by omega,
      htail ▸ ht, hfirst, hgap, hnext⟩

theorem out_eq (h : Places n w r l m k) : r.out = w.take r.out.length :=
  List.prefix_iff_eq_take.mp h.out

theorem next_le (h : Places n w r l m k) : m ≤ w.length := by
  rcases Nat.eq_or_lt_of_le h.le with heq | hlt
  · rw [← heq]
    exact h.out.length_le
  · obtain ⟨p, hp, -, hend⟩ := h.covered (m - 1) (by omega) (by omega)
    have := h.within p hp
    omega

/-- The first `j` bytes are handed out, and `l'` is what remains of the blocks. -/
theorem consume (h : Places n w r l m k) {j : Nat} {l' : List (Nat × Nat)}
    (hj : r.out.length + j ≤ m) (hasc : Ascending (r.out.length + j) l')
    (hcov : ∀ x, r.out.length + j ≤ x → (Covers l' x ↔ Covers l x))
    (hends : ∀ p ∈ l', ∃ q ∈ l, p.2 = q.2) (htotal : total l = j + total l') :
    Places n w ⟨{ r.rx with
        data := blocksOf n w l'
        size := r.rx.size - BitVec.ofNat 32 j
        availBytes := r.rx.availBytes - BitVec.ofNat 32 j },
      r.out ++ piece w r.out.length (r.out.length + j)⟩ l' m k := by
  have hnext := h.next_le
  have hlen : (r.out ++ piece w r.out.length (r.out.length + j)).length = r.out.length + j := by
    rw [List.length_append, length_piece (by omega)]
    omega
  have hout : r.out ++ piece w r.out.length (r.out.length + j) = w.take (r.out.length + j) := by
    rw [List.take_add, piece, Nat.add_sub_cancel_left, ← h.out_eq]
  constructor
  · rfl
  · exact h.next
  · exact h.sackList
  · exact h.gotFin
  · simp only
    rw [h.size, htotal, BitVec.ofNat_add]
    ring
  · simp only
    rw [hlen, h.availBytes, show m - r.out.length = j + (m - (r.out.length + j)) by omega,
      BitVec.ofNat_add]
    ring
  · simp only
    rw [hout]
    exact List.take_prefix _ _
  · simp only
    rwa [hlen]
  · intro p hp
    obtain ⟨q, hq, heq⟩ := hends p hp
    rw [heq]
    exact h.within q hq
  · intro p hp
    obtain ⟨q, hq, heq⟩ := hends p hp
    have := h.span q hq
    simp only
    rw [hlen]
    omega
  · simp only
    rwa [hlen]
  · simp only
    rw [hlen]
    exact fun x hx hlt => (hcov x hx).mpr (h.covered x (by omega) hlt)
  · exact fun hx => h.missing ((hcov m hj).mp hx)
  · intro p hp
    obtain ⟨hmp, hne, hin⟩ := h.sacks p hp
    exact ⟨hmp, hne, fun x hx hlt => (hcov x (by omega)).mpr (hin x hx hlt)⟩

/-- `j` bytes that are available are handed out. -/
theorem extractLoop (h : Places n w r l m k) {fuel j : Nat} (hj : r.out.length + j ≤ m)
    (hfuel : l.length < fuel) :
    ∃ rx out l', TcpRxBuffer.extractLoop fuel r.rx (BitVec.ofNat 32 j) = some (rx, out) ∧
      Places n w ⟨rx, r.out ++ out⟩ l' m k ∧
        (∀ x, Covers l x → x < (r.out ++ out).length ∨ Covers l' x) ∧
          ∀ p ∈ l', ∃ q ∈ l, p.2 = q.2 := by
  induction fuel generalizing r l j with
  | zero => omega
  | succ fuel ih =>
    unfold TcpRxBuffer.extractLoop
    rcases Nat.eq_zero_or_pos j with rfl | hpos
    · exact ⟨r.rx, [], l, by simp, by rwa [List.append_nil], fun x hx => .inr hx,
        fun p hp => ⟨p, hp, rfl⟩⟩
    have hlt : m < r.out.length + 2 ^ 31 := h.next_lt (by omega) h.span
    have hjn : (BitVec.ofNat 32 j).toNat = j := by
      rw [BitVec.toNat_ofNat]
      omega
    obtain ⟨y, rest, rfl, hy, hasc⟩ := h.ascending.head_of_covers
      (h.covered r.out.length (Nat.le_refl _) (by omega))
    obtain ⟨hwy, hwrest⟩ := List.forall_mem_cons.mp h.within
    obtain ⟨hsy, hsrest⟩ := List.forall_mem_cons.mp h.span
    simp only at hwy hsy
    have hle : SequenceNumber.le (at32 n r.out.length) r.rx.nextRxSeq = true := by
      rw [h.next]
      exact (le_at32 (by omega) (by omega)).mpr h.le
    have hsize : getSize (piece w r.out.length y) = BitVec.ofNat 32 (y - r.out.length) :=
      getSize_piece hwy
    have hyn : (BitVec.ofNat 32 (y - r.out.length)).toNat = y - r.out.length := by
      rw [BitVec.toNat_ofNat]
      omega
    have hcovrest : ∀ x, y ≤ x → (Covers rest x ↔ Covers ((r.out.length, y) :: rest) x) := by
      intro x hx
      rw [covers_cons]
      exact ⟨.inr, fun hor => hor.resolve_left (by simp only; omega)⟩
    rw [if_neg (fun h0 => by rw [h0] at hjn; simp at hjn; omega), h.data]
    simp only [blocksOf, List.map_cons]
    rw [if_neg (by simp [hle]), hsize]
    by_cases hwhole : y - r.out.length ≤ j
    · -- the first block goes as a whole
      have heq : r.out.length + (y - r.out.length) = y := by omega
      have hym : y ≤ m := by omega
      have hnext := h.consume (j := y - r.out.length) (by omega)
        (show Ascending _ rest by rwa [heq]) (by rwa [heq]) (fun p hp => ⟨p, List.mem_cons_of_mem _ hp, rfl⟩) (by rw [total_cons])
      rw [heq] at hnext
      have hlen : (r.out ++ piece w r.out.length y).length = y := by
        rw [List.length_append, length_piece hwy]
        omega
      obtain ⟨rx, out, l', hloop, hplaces, hkeep, hends⟩ := ih (j := j - (y - r.out.length)) hnext
        (by rw [hlen]; omega) (by simpa using hfuel)
      have hrest : BitVec.ofNat 32 j - BitVec.ofNat 32 (y - r.out.length) =
          BitVec.ofNat 32 (j - (y - r.out.length)) := by
        rw [show j = (y - r.out.length) + (j - (y - r.out.length)) by omega, BitVec.ofNat_add,
          Nat.add_sub_cancel_left]
        ring
      rw [if_pos (by rw [BitVec.le_def, hyn, hjn]; exact hwhole), hrest]
      refine ⟨rx, piece w r.out.length y ++ out, l', ?_, by rwa [← List.append_assoc], ?_,
        fun p hp => (hends p hp).imp fun q hq => ⟨List.mem_cons_of_mem _ hq.1, hq.2⟩⟩
      · have hloop' := hloop
        simp only [blocksOf] at hloop'
        rw [hloop', Option.map_some]
      · intro x hx
        rw [← List.append_assoc]
        rcases covers_cons.mp hx with hx | hx
        · refine .inl ?_
          rw [List.length_append, hlen]
          simp only at hx
          omega
        · exact hkeep x hx
    · -- the first block is cut
      have hstart : at32 n r.out.length + BitVec.ofNat 32 j = at32 n (r.out.length + j) := at32_add ..
      have hdrop : (piece w r.out.length y).drop j = piece w (r.out.length + j) y := by
        rw [piece, piece, List.drop_take, List.drop_drop]
        congr 1
        omega
      have htake : (piece w r.out.length y).take j =
          piece w r.out.length (r.out.length + j) := by
        rw [piece, piece, List.take_take]
        congr 1
        omega
      have hstore := store_eraseP (n := n) (w := w) (j := j) h.ascending h.span hpos (by omega)
      have hcovcut : ∀ x, r.out.length + j ≤ x →
          (Covers ((r.out.length + j, y) :: rest) x ↔ Covers ((r.out.length, y) :: rest) x) := by
        intro x hx
        simp only [covers_cons]
        exact or_congr (by omega) Iff.rfl
      have hends : ∀ p ∈ (r.out.length + j, y) :: rest, ∃ q ∈ (r.out.length, y) :: rest,
          p.2 = q.2 := by
        intro p hp
        rcases List.mem_cons.mp hp with rfl | hp
        · exact ⟨_, List.mem_cons_self, rfl⟩
        · exact ⟨p, List.mem_cons_of_mem _ hp, rfl⟩
      have hcut : Ascending (r.out.length + j) ((r.out.length + j, y) :: rest) :=
        ⟨Nat.le_refl _, by simp only; omega, hasc⟩
      have hnext := h.consume hj hcut hcovcut hends (by simp only [total_cons]; omega)
      rw [if_neg (by rw [BitVec.le_def, hyn, hjn]; exact hwhole), hjn, hstart, hdrop, htake]
      simp only [blocksOf, List.map_cons] at hstore
      rw [hstore]
      refine ⟨_, piece w r.out.length (r.out.length + j), (r.out.length + j, y) :: rest, rfl, hnext,
        fun x hx => ?_, hends⟩
      rw [List.length_append, length_piece (by omega), Nat.add_sub_cancel_left]
      by_cases hxj : x < r.out.length + j
      · exact .inl hxj
      · exact .inr ((hcovcut x (by omega)).mpr hx)

/-- `Extract` hands out as much as is available and asked for. -/
theorem extract (h : Places n w r l m k) (maxSize : BitVec 32) :
    ∃ rx out l', r.rx.extract maxSize = some (rx, out) ∧ Places n w ⟨rx, r.out ++ out⟩ l' m k ∧
      (∀ x, Covers l x → x < (r.out ++ out).length ∨ Covers l' x) ∧ ∀ p ∈ l', ∃ q ∈ l, p.2 = q.2 := by
  have hlt : m < r.out.length + 2 ^ 31 := h.next_lt (by omega) h.span
  have havail : r.rx.availBytes.toNat = m - r.out.length := by
    rw [h.availBytes, BitVec.toNat_ofNat]
    omega
  have hmin := stdMin_toNat maxSize r.rx.availBytes
  have hle := h.le
  have hlen : r.rx.data.length = l.length := by simp [h.data, blocksOf]
  have hloop := h.extractLoop (j := (stdMin maxSize r.rx.availBytes).toNat) (by omega)
    (Nat.lt_succ_self l.length)
  rwa [BitVec.ofNat_toNat, BitVec.setWidth_eq, ← hlen] at hloop

theorem held_iff (h : Places n w r l m k) {x : Nat} : Held n w r x ↔ Covers l x := by
  constructor
  · rintro ⟨hx, block, hblock, v, -, hoff, hv⟩
    rw [h.data] at hblock
    obtain ⟨p, hp, rfl⟩ := List.mem_map.mp hblock
    obtain ⟨hlo, hne⟩ := h.ascending.of_mem hp
    have hspan := h.span p hp
    obtain ⟨hlt, -⟩ := List.getElem?_eq_some_iff.mp hv
    simp only at hoff hlt
    rw [offset_eq hlo (by omega)] at hoff hlt
    rw [length_piece (h.within p hp)] at hlt
    exact ⟨p, hp, by omega, by omega⟩
  · rintro ⟨p, hp, hle, hlt⟩
    obtain ⟨hlo, hne⟩ := h.ascending.of_mem hp
    have hspan := h.span p hp
    have hwithin := h.within p hp
    obtain ⟨v, hv⟩ : ∃ v, w[x]? = some v := ⟨_, List.getElem?_eq_getElem (by omega)⟩
    refine ⟨by omega, (at32 n p.1, piece w p.1 p.2), ?_, v, hv, ?_, ?_⟩
    · rw [h.data]
      exact List.mem_map_of_mem hp
    · simp only
      rw [offset_eq hlo (by omega)]
      omega
    · simp only
      rw [offset_eq hlo (by omega), piece, List.getElem?_take_of_lt (by omega), List.getElem?_drop,
        show p.1 + (x - r.out.length - (p.1 - r.out.length)) = x by omega]
      exact hv

theorem delivered (h : Places n w r l m k) : Delivered n w r := by
  have hlt : m < r.out.length + 2 ^ 31 := h.next_lt (by omega) h.span
  have hle := h.le
  have havail : r.rx.availBytes.toNat = m - r.out.length := by
    rw [h.availBytes, BitVec.toNat_ofNat]
    omega
  have hlen (f : List (Nat × Nat)) (hf : ∀ p ∈ f, p ∈ l) :
      ((blocksOf n w f).map fun block => block.2.length).sum = total f := by
    simp only [blocksOf, List.map_map, total]
    congr 1
    apply List.map_congr_left
    exact fun p hp => length_piece (h.within p (hf p hp))
  constructor
  · exact h.out
  · rw [h.next, havail]
    congr 1
    omega
  · rw [h.data]
    intro block hblock
    obtain ⟨p, hp, rfl⟩ := List.mem_map.mp hblock
    apply List.ne_nil_of_length_pos
    simp only
    have := (h.ascending.of_mem hp).2
    rw [length_piece (h.within p hp)]
    omega
  · rw [h.data]
    apply List.pairwise_map.mpr
    refine h.ascending.pairwise.imp_of_mem fun {p q} hp hq hpq => ?_
    obtain ⟨hlo, hne⟩ := h.ascending.of_mem hp
    obtain ⟨hlo', hne'⟩ := h.ascending.of_mem hq
    have hspan := h.span p hp
    have hspan' := h.span q hq
    simp only
    rw [offset_eq hlo (by omega), offset_eq hlo' (by omega), length_piece (h.within p hp)]
    omega
  · have htotal := h.ascending.total_le (fun p hp => Nat.le_of_lt (h.span p hp)) (by omega)
    rw [h.data, hlen l fun _ hp => hp, h.size, BitVec.toNat_ofNat]
    omega
  · have hfilter : (blocksOf n w l).filter (fun block => lt block.1 (at32 n m)) =
        blocksOf n w (l.filter fun p => p.1 < m) := by
      rw [blocksOf, blocksOf, List.filter_map]
      congr 1
      apply List.filter_congr
      intro p hp
      have hlo := (h.ascending.of_mem hp).1
      have hne := (h.ascending.of_mem hp).2
      have hspan := h.span p hp
      have hiff : lt (at32 n p.1) (at32 n m) = true ↔ p.1 < m := lt_at32 (by omega) (by omega)
      simp only [Function.comp_apply]
      rw [Bool.eq_iff_iff, hiff, decide_eq_true_eq]
    rw [h.data, h.next, hfilter, hlen _ fun _ hp => (List.mem_filter.mp hp).1,
      h.ascending.total_below hle h.covered h.missing, havail]
  · rw [h.data]
    intro block hblock i hi
    obtain ⟨p, hp, rfl⟩ := List.mem_map.mp hblock
    obtain ⟨hlo, hne⟩ := h.ascending.of_mem hp
    have hspan := h.span p hp
    simp only at hi ⊢
    rw [length_piece (h.within p hp)] at hi
    rw [offset_eq hlo (by omega), h.held_iff]
    exact ⟨p, hp, by omega, by omega⟩

/-- Every allowed operation can be performed, and what is stored stays stored until it is read. -/
theorem step (h : Places n w r l m k) {op : RxOp} (hop : Allowed n w r op) :
    ∃ r' l' m' k', r.step n w op = some r' ∧ Places n w r' l' m' k' ∧
      r.out.length ≤ r'.out.length ∧ ∀ x, Covers l x → x < r'.out.length ∨ Covers l' x := by
  cases op with
  | add a b =>
    obtain ⟨hab, hb, ho⟩ := hop
    obtain ⟨rx, ok, l', m', k', hadd, hplaces, hkeep, -⟩ := h.add hab hb ho
    refine ⟨_, l', m', k', ?_, hplaces, Nat.le_refl _, fun x hx => .inr (hkeep x hx)⟩
    rw [Reading.step, hadd, Option.map_some]
  | extract maxSize =>
    obtain ⟨rx, out, l', hextract, hplaces, hkeep, -⟩ := h.extract maxSize
    refine ⟨_, l', m, k, ?_, hplaces, ?_, hkeep⟩
    · rw [Reading.step, hextract, Option.map_some]
    · simp

end Places

/-- What has been stored is stored or has been read. -/
theorem held_or_read {n : SequenceNumber 32} {w : List UInt8} {r r' : Reading}
    {l : List (Nat × Nat)} {m : Nat} {k : List (Nat × Nat)} (h : Places n w r l m k)
    (hreads : Reads n w r r') : (∃ l' m' k', Places n w r' l' m' k') ∧ r.out.length ≤ r'.out.length ∧
      ∀ x, Held n w r x → x < r'.out.length ∨ Held n w r' x := by
  induction hreads with
  | refl => exact ⟨⟨l, m, k, h⟩, Nat.le_refl _, fun x hx => .inr hx⟩
  | tail _ hstep ih =>
    obtain ⟨⟨l₁, m₁, k₁, h₁⟩, hlen₁, hkeep₁⟩ := ih
    obtain ⟨op, hop, hstep⟩ := hstep
    obtain ⟨r₂, l₂, m₂, k₂, hstep₂, h₂, hlen₂, hkeep₂⟩ := h₁.step hop
    obtain rfl := Option.some.inj (hstep₂.symm.trans hstep)
    refine ⟨⟨l₂, m₂, k₂, h₂⟩, Nat.le_trans hlen₁ hlen₂, fun x hx => ?_⟩
    rcases hkeep₁ x hx with hread | hheld
    · exact .inl (by omega)
    · rcases hkeep₂ x (h₁.held_iff.mp hheld) with hread | hcov
      · exact .inl hread
      · exact .inr (h₂.held_iff.mpr hcov)

end CudaNs3.Tcp
