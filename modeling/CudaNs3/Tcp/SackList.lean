import CudaNs3.Tcp.Reassembly

/-!
# The SACK list of a receiver

A new block is joined with the blocks of the list that it touches, so the list stays one of disjoint
blocks as long as no block of it lies within the new one. A segment that encloses a stored block
replaces it in the buffer, but not in the list.
-/

namespace CudaNs3.Tcp

open SequenceNumber TcpRxBuffer Intervals
set_option autoImplicit false

/-- At most four non-empty blocks of bytes that are held, above the next expected number, and of two
of them one ends before the other begins. -/
structure WellFormed (n : SequenceNumber 32) (w : List UInt8) (r : Reading) : Prop where
  four : r.rx.sackList.length ≤ 4
  filled : ∀ block ∈ r.rx.sackList, r.offset n block.1 < r.offset n block.2
  above : ∀ block ∈ r.rx.sackList, r.offset n r.rx.nextRxSeq < r.offset n block.1
  held : ∀ block ∈ r.rx.sackList, ∀ x, r.offset n block.1 ≤ x → x < r.offset n block.2 →
    Held n w r (r.out.length + x)
  apart : r.rx.sackList.Pairwise fun block block' =>
    r.offset n block.2 < r.offset n block'.1 ∨ r.offset n block'.2 < r.offset n block.1

/-- The first block contains what has been stored behind a gap. -/
def Reports (n : SequenceNumber 32) (r r' : Reading) : Prop :=
  ∀ block ∈ r'.rx.data, block ∉ r.rx.data → gt block.1 r.rx.nextRxSeq →
    ∃ first ∈ r'.rx.sackList.head?, r'.offset n first.1 ≤ r'.offset n block.1 ∧
      r'.offset n block.1 + block.2.length ≤ r'.offset n first.2

namespace Reading

/-- The end of a segment within the window. -/
def windowEnd (n : SequenceNumber 32) (r : Reading) (b : Nat) : Nat :=
  match r.rx.data with
  | [] => b
  | (first, _) :: _ => min b (r.out.length + r.offset n first + r.rx.maxBuffer.toNat)

/-- A byte of the stored block is on the SACK list. -/
def sacks (n : SequenceNumber 32) (r : Reading) (block : SequenceNumber 32 × List UInt8) : Prop :=
  ∃ s ∈ r.rx.sackList, r.offset n s.1 < r.offset n block.1 + block.2.length ∧
    r.offset n block.1 < r.offset n s.2

end Reading

/-- A segment that begins beyond the next expected byte does not enclose a stored block of the SACK
list: it ends with the block or earlier, or no byte of it before the block is missing. -/
def Spares (n : SequenceNumber 32) (w : List UInt8) (r : Reading) : RxOp → Prop
  | .add a b => r.out.length + r.offset n r.rx.nextRxSeq < a → ∀ block ∈ r.rx.data,
      r.sacks n block →
        r.windowEnd n b ≤ r.out.length + r.offset n block.1 + block.2.length ∨
          ∀ x, a ≤ x → x < r.out.length + r.offset n block.1 → Held n w r x
  | .extract _ => True

/-- Any number of operations that spare the SACK list. -/
def Sparing (n : SequenceNumber 32) (w : List UInt8) : Reading → Reading → Prop :=
  Relation.ReflTransGen fun r r' =>
    ∃ op, Allowed n w r op ∧ Spares n w r op ∧ r.step n w op = some r'

namespace Places
variable {n : SequenceNumber 32} {w : List UInt8} {r r' : Reading} {l l' : List (Nat × Nat)}
  {m m' : Nat} {k k' : List (Nat × Nat)}

theorem sack_bounds (h : Places n w r l m k) {p : Nat × Nat} (hp : p ∈ k) :
    m < p.1 ∧ p.1 < p.2 ∧ p.2 < r.out.length + 2 ^ 31 := by
  obtain ⟨hmp, hne, hin⟩ := h.sacks p hp
  obtain ⟨q, hq, -, hend⟩ := hin (p.2 - 1) (by omega) (by omega)
  have := h.span q hq
  exact ⟨hmp, hne, by omega⟩

theorem offset_sack (h : Places n w r l m k) {p : Nat × Nat} (hp : p ∈ k) :
    r.offset n (at32 n p.1) = p.1 - r.out.length ∧ r.offset n (at32 n p.2) = p.2 - r.out.length := by
  have hle := h.le
  obtain ⟨hm, hne, hhi⟩ := h.sack_bounds hp
  exact ⟨offset_eq (by omega) (by omega), offset_eq (by omega) (by omega)⟩

theorem offset_next (h : Places n w r l m k) :
    r.offset n r.rx.nextRxSeq = m - r.out.length := by
  rw [h.next]
  exact offset_eq h.le (h.next_lt (by omega) h.span)

theorem offset_block (h : Places n w r l m k) {p : Nat × Nat} (hp : p ∈ l) :
    r.out.length + r.offset n (at32 n p.1) = p.1 ∧ (piece w p.1 p.2).length = p.2 - p.1 := by
  obtain ⟨hlo, hne⟩ := h.ascending.of_mem hp
  have hspan := h.span p hp
  rw [offset_eq hlo (by omega), length_piece (h.within p hp)]
  omega

theorem windowEnd_eq (h : Places n w r l m k) (b : Nat) :
    r.windowEnd n b = cut r.rx.maxBuffer l b := by
  unfold Reading.windowEnd cut
  rw [h.data]
  cases l with
  | nil => rfl
  | cons p rest =>
    simp only [blocksOf, List.map_cons]
    rw [(h.offset_block List.mem_cons_self).1]

theorem wellFormed (h : Places n w r l m k) (hfour : k.length ≤ 4) (hapart : k.Pairwise Apart) :
    WellFormed n w r := by
  have hle := h.le
  constructor
  · simpa [h.sackList, sackOf] using hfour
  · rw [h.sackList]
    intro block hblock
    obtain ⟨p, hp, rfl⟩ := List.mem_map.mp hblock
    have hb := h.sack_bounds hp
    have ho := h.offset_sack hp
    simp only
    omega
  · rw [h.sackList, h.offset_next]
    intro block hblock
    obtain ⟨p, hp, rfl⟩ := List.mem_map.mp hblock
    have hb := h.sack_bounds hp
    have ho := h.offset_sack hp
    simp only
    omega
  · rw [h.sackList]
    intro block hblock x hx hlt
    obtain ⟨p, hp, rfl⟩ := List.mem_map.mp hblock
    obtain ⟨hmp, hne, hin⟩ := h.sacks p hp
    have ho := h.offset_sack hp
    simp only at hx hlt
    exact h.held_iff.mpr (hin _ (by omega) (by omega))
  · rw [h.sackList]
    apply List.pairwise_map.mpr
    refine hapart.imp_of_mem fun {p q} hp hq hpq => ?_
    have hb := h.sack_bounds hp
    have hb' := h.sack_bounds hq
    have ho := h.offset_sack hp
    have ho' := h.offset_sack hq
    unfold Apart at hpq
    simp only
    omega

/-- The number that a stored segment begins with was missing. -/
theorem Stored.missing {maxBuffer : BitVec 32} {a b head tail : Nat}
    (hs : Stored maxBuffer l m k a b head tail l' m' k') : ¬ Covers l head := by
  rintro ⟨p, hp, hle, hlt⟩
  obtain ⟨l₁, -, -, hfree, herased⟩ := hs.places
  have hne := hs.lt
  by_cases hkept : p ∈ l₁
  · have := hfree p hkept
    omega
  · have := herased p hp hkept
    omega

/-- A segment that spares the SACK list meets none of its blocks. -/
theorem disjoint_of_spares (h : Places n w r l m k) {a b head tail : Nat}
    (hs : Stored r.rx.maxBuffer l m k a b head tail l' m' k') (hgap : m < head)
    (hsp : Spares n w r (.add a b)) : ∀ p ∈ k, tail ≤ p.1 ∨ p.2 ≤ head := by
  intro p hp
  by_contra hmeet
  have hle := h.le
  have hlow := hs.le_head
  have hne := hs.lt
  obtain ⟨hmp, hnep, hin⟩ := h.sacks p hp
  obtain ⟨c, hc, hcle, hclt⟩ := hin (max head p.1) (by omega) (by omega)
  obtain ⟨l₁, -, -, hfree, herased⟩ := hs.places
  have hgone : c ∉ l₁ := by
    intro hkept
    have := hfree c hkept
    omega
  obtain ⟨hbefore, hend⟩ := herased c hc hgone
  have hbehind : m < a := by
    by_contra hge
    have := hs.first (by omega)
    omega
  obtain ⟨hplace, hlen⟩ := h.offset_block hc
  obtain ⟨hoff, hoff'⟩ := h.offset_sack hp
  have hmem : (at32 n c.1, piece w c.1 c.2) ∈ r.rx.data := by
    rw [h.data]
    exact List.mem_map_of_mem hc
  have hnext := h.offset_next
  have hsack : r.sacks n (at32 n c.1, piece w c.1 c.2) := by
    refine ⟨(at32 n p.1, at32 n p.2), ?_, ?_, ?_⟩
    · rw [h.sackList]
      exact List.mem_map_of_mem hp
    · simp only
      omega
    · simp only
      omega
  rcases hsp (by omega) _ hmem hsack with hends | hheld
  · rw [h.windowEnd_eq, hlen] at hends
    simp only at hends
    omega
  · have := h.held_iff.mp (hheld head (by omega) (by simp only; omega))
    exact hs.missing this

theorem report_sublist {b : Nat × Nat} : (report b k).Sublist (absorb (k.length + 1) b k) := by
  unfold report
  split
  · exact List.dropLast_sublist _
  · exact .refl _

theorem length_report {b : Nat × Nat} (hfour : k.length ≤ 4) : (report b k).length ≤ 4 := by
  have := @length_absorb k b (k.length + 1)
  unfold report
  split
  · rw [List.length_dropLast]
    omega
  · omega

theorem report_head {b : Nat × Nat} (hk : ∀ p ∈ k, p.1 < p.2) :
    ∃ first ∈ (report b k).head?, first.1 ≤ b.1 ∧ b.2 ≤ first.2 := by
  obtain ⟨first, rest, heq, hlo, hhi⟩ := @absorb_head k b (k.length + 1) hk
  refine ⟨first, ?_, hlo, hhi⟩
  unfold report
  rw [heq]
  split
  · rename_i hlong
    cases rest with
    | nil => simp at hlong
    | cons second rest => rfl
  · rfl

/-- The list stays well formed, and what has been stored comes first. -/
theorem add_sparing (h : Places n w r l m k) (hfour : k.length ≤ 4) (hapart : k.Pairwise Apart)
    {a b : Nat} (hop : Allowed n w r (.add a b)) (hsp : Spares n w r (.add a b)) :
    ∃ r' l' m' k', r.step n w (.add a b) = some r' ∧ Places n w r' l' m' k' ∧ k'.length ≤ 4 ∧
      k'.Pairwise Apart ∧ Reports n r r' := by
  obtain ⟨hab, hb, ho⟩ := hop
  obtain ⟨rx, ok, l', m', k', hadd, hplaces, -, -, hstored⟩ := h.add hab hb ho
  refine ⟨{ r with rx := rx }, l', m', k', by rw [Reading.step, hadd, Option.map_some], hplaces, ?_⟩
  cases ok with
  | false =>
    obtain ⟨hsub, rfl, rfl⟩ := hstored
    refine ⟨hfour, hapart, fun block hblock hnew => absurd ?_ hnew⟩
    rw [hplaces.data] at hblock
    rw [h.data]
    obtain ⟨p, hp, rfl⟩ := List.mem_map.mp hblock
    exact List.mem_map_of_mem (hsub.subset hp)
  | true =>
    obtain ⟨head, tail, hs⟩ := hstored
    have hlow := hs.le_head
    have hnek : ∀ p ∈ k, p.1 < p.2 := fun p hp => (h.sack_bounds hp).2.1
    by_cases hgap : m < head
    · have hfree := h.disjoint_of_spares hs hgap hsp
      obtain ⟨rfl, rfl⟩ := hs.gap hgap
      refine ⟨length_report hfour, ?_, ?_⟩
      · exact (absorb_apart hapart hnek hfree (Nat.le_succ _)).sublist report_sublist
      · intro block hblock hnew _
        rw [hplaces.data] at hblock
        obtain ⟨p, hp, rfl⟩ := List.mem_map.mp hblock
        obtain ⟨l₁, hsub, rfl, -, -⟩ := hs.places
        rcases mem_put.mp hp with rfl | hold
        · obtain ⟨first, hfirst, hlo, hhi⟩ := report_head (b := (head, tail)) hnek
          have hmem : first ∈ report (head, tail) k := List.mem_of_mem_head? hfirst
          obtain ⟨hoff, hoff'⟩ := hplaces.offset_sack hmem
          obtain ⟨hplace, hlen⟩ := hplaces.offset_block hp
          refine ⟨(at32 n first.1, at32 n first.2), ?_, ?_, ?_⟩
          · rw [hplaces.sackList, sackOf, List.head?_map, hfirst]
            rfl
          · simp only at hoff hplace hlo ⊢
            omega
          · have hne := hs.lt
            simp only at hoff' hplace hlen hhi ⊢
            omega
        · refine absurd ?_ hnew
          rw [h.data]
          exact List.mem_map_of_mem (hsub.subset hold)
    · obtain heq : m = head := by omega
      have hsubk := hs.next heq
      refine ⟨Nat.le_trans hsubk.length_le hfour, hapart.sublist hsubk, ?_⟩
      intro block hblock hnew hbehind
      rw [hplaces.data] at hblock
      obtain ⟨p, hp, rfl⟩ := List.mem_map.mp hblock
      obtain ⟨l₁, hsub, rfl, -, -⟩ := hs.places
      rcases mem_put.mp hp with rfl | hold
      · rw [h.next, heq, gt_at32 (by omega) (by omega)] at hbehind
        exact absurd hbehind (Nat.lt_irrefl _)
      · refine absurd ?_ hnew
        rw [h.data]
        exact List.mem_map_of_mem (hsub.subset hold)

end Places

/-- A well-formed list by places. -/
theorem sparing_places {n : SequenceNumber 32} {w : List UInt8} {maxBuffer : BitVec 32} {r : Reading}
    (h : Sparing n w ⟨.new n maxBuffer, []⟩ r) :
    ∃ l m k, Places n w r l m k ∧ k.length ≤ 4 ∧ k.Pairwise Apart := by
  induction h with
  | refl => exact ⟨[], 0, [], Places.new n w maxBuffer, Nat.zero_le _, .nil⟩
  | tail _ hstep ih =>
    obtain ⟨l, m, k, hplaces, hfour, hapart⟩ := ih
    obtain ⟨op, hop, hsp, hstep⟩ := hstep
    cases op with
    | add a b =>
      obtain ⟨r', l', m', k', hadd, hplaces', hfour', hapart', -⟩ :=
        hplaces.add_sparing hfour hapart hop hsp
      obtain rfl := Option.some.inj (hadd.symm.trans hstep)
      exact ⟨l', m', k', hplaces', hfour', hapart'⟩
    | extract maxSize =>
      obtain ⟨rx, out, l', hextract, hplaces', -⟩ := hplaces.extract maxSize
      rw [Reading.step, hextract, Option.map_some] at hstep
      obtain rfl := Option.some.inj hstep
      exact ⟨l', m, k, hplaces', hfour, hapart⟩

/-- In a run that spares the SACK list no call fails, the list is well formed after each of them,
and what a call has stored behind a gap is in its first block. -/
theorem sack_list_wellFormed {n : SequenceNumber 32} {w : List UInt8} {maxBuffer : BitVec 32}
    {r : Reading} (h : Sparing n w ⟨.new n maxBuffer, []⟩ r) :
    WellFormed n w r ∧ ∀ a b, Allowed n w r (.add a b) → Spares n w r (.add a b) →
      ∃ r', r.step n w (.add a b) = some r' ∧ WellFormed n w r' ∧ Reports n r r' := by
  obtain ⟨l, m, k, hplaces, hfour, hapart⟩ := sparing_places h
  refine ⟨hplaces.wellFormed hfour hapart, fun a b hop hsp => ?_⟩
  obtain ⟨r', l', m', k', hadd, hplaces', hfour', hapart', hreports⟩ :=
    hplaces.add_sparing hfour hapart hop hsp
  exact ⟨r', hadd, hplaces'.wellFormed hfour' hapart', hreports⟩

/-- The third of four bytes arrives first. -/
theorem sack_list_of_third : ∃ r : Reading, r.rx.sackList = [(2, 3)] ∧ WellFormed 0 [5, 6, 7, 8] r := by
  obtain ⟨r, hadd⟩ := Option.isSome_iff_exists.mp
    (by decide : (Reading.step 0 [5, 6, 7, 8] ⟨.new 0 100, []⟩ (.add 2 3)).isSome)
  have hallowed : Allowed 0 [5, 6, 7, 8] ⟨.new 0 100, []⟩ (.add 2 3) :=
    ⟨by decide, by decide, by decide, by decide, by simp [TcpRxBuffer.new], by simp [TcpRxBuffer.new]⟩
  have hspares : Spares 0 [5, 6, 7, 8] ⟨.new 0 100, []⟩ (.add 2 3) := by
    intro _ block hblock
    cases hblock
  have hsack : (Reading.step 0 [5, 6, 7, 8] ⟨.new 0 100, []⟩ (.add 2 3)).map
      (fun r => r.rx.sackList) = some [(2, 3)] := by decide +kernel
  rw [hadd] at hsack
  have hrun : Sparing 0 [5, 6, 7, 8] ⟨.new 0 100, []⟩ r :=
    .single ⟨.add 2 3, hallowed, hspares, hadd⟩
  exact ⟨r, Option.some.inj hsack, (sack_list_wellFormed hrun).1⟩

/-- The third of four bytes arrives, and then a segment with the second, the third and the fourth:
both blocks are reported. -/
theorem sack_list_overlaps : ∃ r r' : Reading,
    Reading.step 0 [5, 6, 7, 8] ⟨.new 0 100, []⟩ (.add 2 3) = some r ∧
      r.step 0 [5, 6, 7, 8] (.add 1 4) = some r' ∧ r'.rx.sackList = [(1, 4), (2, 3)] ∧
        ¬ WellFormed 0 [5, 6, 7, 8] r' := by
  have hsack : ((Reading.step 0 [5, 6, 7, 8] ⟨.new 0 100, []⟩ (.add 2 3)).bind fun r =>
      r.step 0 [5, 6, 7, 8] (.add 1 4)).map (fun r => (r.rx.sackList, r.out)) =
        some ([(1, 4), (2, 3)], []) := by decide +kernel
  obtain ⟨r', hrun, heq⟩ := Option.map_eq_some_iff.mp hsack
  obtain ⟨r, hadd, hadd'⟩ := Option.bind_eq_some_iff.mp hrun
  obtain ⟨hlist, hout⟩ := Prod.mk.inj heq
  refine ⟨r, r', hadd, hadd', hlist, fun h => ?_⟩
  have hapart := h.apart
  rw [hlist] at hapart
  have hpair := (List.pairwise_cons.mp hapart).1 (2, 3) (List.mem_singleton.mpr rfl)
  simp [Reading.offset, hout, at32] at hpair

end CudaNs3.Tcp
