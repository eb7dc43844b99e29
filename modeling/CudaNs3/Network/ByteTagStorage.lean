import CudaNs3.Device.HeaderPaths
import CudaNs3.Lib.RefCount
import CudaNs3.Network.ByteTagList

/-!
# The storage of byte tags

What a list has stored stays as it is, whatever is done with the lists that share its block.
-/

namespace CudaNs3.Network

open Device (le32)
set_option autoImplicit false

/-! ### Blocks -/

namespace TagMemory

variable {h : TagMemory} {n : Nat}

theorem le_size_of_popFree {l rest : List ByteTagListData} {d : ByteTagListData}
    (hpop : popFree n l = (some d, rest)) : n ≤ d.size := by
  induction l with
  | nil => simp [popFree] at hpop
  | cons a l ih =>
    unfold popFree at hpop
    split_ifs at hpop with hsize
    · obtain ⟨ha, -⟩ := Prod.mk.inj hpop
      rwa [← Option.some.inj ha]
    · exact ih hpop

theorem allocate_spec (h : TagMemory) (n : Nat) :
    (h.allocate n).2 = h.next ∧ (h.allocate n).1.next = h.next + 1 ∧
      ∃ d : ByteTagListData, d.count = 1 ∧ d.dirty = 0 ∧ n ≤ d.size ∧
        ∀ i, (h.allocate n).1.blocks i = if i = h.next then d else h.blocks i := by
  refine ⟨rfl, rfl, ?_⟩
  rcases hpop : popFree n h.freeList with ⟨_ | d, rest⟩
  · refine ⟨⟨n, 1, 0, h.fresh h.next⟩, rfl, rfl, Nat.le_refl n, fun i => ?_⟩
    simp [allocate, hpop]
  · have hsize : n ≤ d.size := le_size_of_popFree hpop
    refine ⟨{ d with count := 1, dirty := 0 }, rfl, rfl, hsize, fun i => ?_⟩
    simp [allocate, hpop]

@[simp] theorem deallocate_next (data : Option Nat) : (h.deallocate data).next = h.next := by
  unfold deallocate
  cases data with
  | none => rfl
  | some k =>
    simp only
    split_ifs <;> rfl

theorem deallocate_blocks (data : Option Nat) (i : Nat) : (h.deallocate data).blocks i =
    if data = some i then { h.blocks i with count := (h.blocks i).count - 1 }
    else h.blocks i := by
  cases data with
  | none => rfl
  | some k =>
    have hset : (h.deallocate (some k)).blocks =
        (h.set k { h.blocks k with count := (h.blocks k).count - 1 }).blocks := by
      unfold deallocate
      simp only
      split_ifs <;> rfl
    rw [hset, set_blocks]
    by_cases hik : i = k
    · rw [if_pos hik, if_pos (by rw [hik]), hik]
    · rw [if_neg hik, if_neg (fun h => hik (Option.some.inj h).symm)]

end TagMemory

/-! ### Records -/

theorem readU32_le32 (x : UInt32) (bs : List UInt8) : readU32 (le32 x ++ bs) = some (x, bs) := by
  have hread := Device.readLe32_le32 x
  simp only [le32, List.cons_append, List.nil_append, readU32, hread]

theorem readRecord_bytes (r : TagRecord) (bs : List UInt8) :
    readRecord (r.bytes ++ bs) = some (r, bs) := by
  have hsize : (UInt32.ofNat r.tag.content.length).toNat = r.tag.content.length :=
    UInt32.toNat_ofNat_of_lt' r.tag.length_lt
  simp only [TagRecord.bytes, List.append_assoc, readRecord, readU32_le32, Option.bind_eq_bind,
    Option.bind_some, hsize, List.length_append, List.take_left', List.drop_left',
    Int32.toInt32_toUInt32]
  rw [if_neg (by omega)]

theorem TagRecord.length_bytes (r : TagRecord) :
    r.bytes.length = r.tag.getSerializedSize + 4 + 4 + 4 + 4 := by
  simp [TagRecord.bytes, le32, Tag.getSerializedSize]

/-! ### Lists -/

namespace ByteTagList

/-- What the list has stored. -/
def stored (h : TagMemory) (l : ByteTagList) : List UInt8 :=
  match l.data with
  | none => []
  | some k => Bytes.read (h.blocks k).data 0 l.used

/-- The part of its block that the list uses has been written, and is in the block. -/
def Placed (h : TagMemory) (l : ByteTagList) : Prop :=
  match l.data with
  | none => l.used = 0
  | some k => l.used ≤ (h.blocks k).dirty ∧ (h.blocks k).dirty ≤ (h.blocks k).size

/-- `ls` are all lists there are. -/
structure Holds (h : TagMemory) (ls : List ByteTagList) : Prop where
  counts : RefCount.Counts (fun k => (h.blocks k).count) h.next (ls.map ByteTagList.data)
  placed : ∀ l ∈ ls, l.Placed h

def Keeps (h h' : TagMemory) (ls : List ByteTagList) : Prop := ∀ l ∈ ls, stored h' l = stored h l

/-- The records of `l`, within the bounds that it keeps. -/
structure Carries (h : TagMemory) (l : ByteTagList) (rs : List TagRecord) : Prop where
  stored : stored h l = rs.flatMap TagRecord.bytes
  minStart_le : ∀ r ∈ rs, l.minStart ≤ r.start
  le_maxEnd : ∀ r ∈ rs, r.end_ ≤ l.maxEnd

/-- `l` is new among the lists, with the records `rs`, and `ls` are as they were. -/
structure Becomes (h : TagMemory) (ls : List ByteTagList) (h' : TagMemory) (l : ByteTagList)
    (rs : List TagRecord) : Prop where
  holds : Holds h' (l :: ls)
  keeps : Keeps h h' ls
  carries : Carries h' l rs

variable {h h' h'' : TagMemory} {l o : ByteTagList} {ls ls' : List ByteTagList}
  {rs : List TagRecord} {k n : Nat}

theorem Holds.perm (hh : Holds h ls) (hp : ls.Perm ls') : Holds h ls' :=
  ⟨hh.counts.perm (hp.map _), fun l hl => hh.placed l (hp.mem_iff.mpr hl)⟩

theorem Keeps.refl (h : TagMemory) (ls : List ByteTagList) : Keeps h h ls := fun _ _ => rfl

theorem Keeps.trans (h₁ : Keeps h h' ls) (h₂ : Keeps h' h'' ls) : Keeps h h'' ls :=
  fun l hl => (h₂ l hl).trans (h₁ l hl)

theorem Keeps.sub (hk : Keeps h h' ls) (hsub : ∀ l ∈ ls', l ∈ ls) : Keeps h h' ls' :=
  fun l hl => hk l (hsub l hl)

theorem Carries.of_stored (hc : Carries h l rs) (hs : ByteTagList.stored h' l =
    ByteTagList.stored h l) : Carries h' l rs := ⟨hs.trans hc.stored, hc.minStart_le, hc.le_maxEnd⟩

/-- Only counts change, or blocks that no list is on. -/
theorem stored_congr (hd : ∀ k, l.data = some k → (h'.blocks k).data = (h.blocks k).data) :
    stored h' l = stored h l := by
  unfold stored
  rcases hl : l.data with _ | k
  · rfl
  · simp only
    rw [hd k hl]

theorem Placed.congr (hp : l.Placed h) (hd : ∀ k, l.data = some k →
    (h'.blocks k).dirty = (h.blocks k).dirty ∧ (h'.blocks k).size = (h.blocks k).size) :
    l.Placed h' := by
  unfold Placed at hp ⊢
  rcases hl : l.data with _ | k
  · simpa [hl] using hp
  · obtain ⟨hdirty, hsize⟩ := hd k hl
    simpa [hl, hdirty, hsize] using hp

/-! ### Copying and releasing -/

theorem copy_blocks (h : TagMemory) (l : ByteTagList) (i : Nat) : (copy h l).1.blocks i =
    if l.data = some i then { h.blocks i with count := (h.blocks i).count + 1 }
    else h.blocks i := by
  unfold copy
  rcases hl : l.data with _ | k
  · rfl
  · simp only [TagMemory.set_blocks]
    by_cases hik : i = k
    · rw [if_pos hik, if_pos (by rw [hik]), hik]
    · rw [if_neg hik, if_neg (fun h => hik (Option.some.inj h).symm)]

theorem copy_keeps (h : TagMemory) (l : ByteTagList) (ls : List ByteTagList) :
    Keeps h (copy h l).1 ls := by
  intro x _
  apply stored_congr
  intro k _
  rw [copy_blocks]
  split_ifs <;> rfl

@[simp] theorem copy_next (h : TagMemory) (l : ByteTagList) : (copy h l).1.next = h.next := by
  unfold copy
  cases l.data <;> rfl

@[simp] theorem copy_snd (h : TagMemory) (l : ByteTagList) : (copy h l).2 = l := by
  unfold copy
  cases l.data <;> rfl

theorem copy_holds (hh : Holds h ls) (hl : l ∈ ls) : Holds (copy h l).1 (l :: ls) := by
  constructor
  · rw [copy_next, List.map_cons]
    rcases hd : l.data with _ | k
    · apply RefCount.Counts.cons_none.mpr
      apply hh.counts.congr
      intro i
      simp [copy_blocks, hd]
    · apply hh.counts.share (hd ▸ List.mem_map_of_mem hl)
      intro i
      simp only [copy_blocks, hd, Option.some.injEq]
      split_ifs with hki hik hik
      · rw [hki]
      · exact absurd hki.symm hik
      · exact absurd hik.symm hki
      · rfl
  · intro x hx
    have hmem : x ∈ ls := by
      rcases List.mem_cons.mp hx with rfl | hx
      · exact hl
      · exact hx
    apply (hh.placed x hmem).congr
    intro k _
    rw [copy_blocks]
    split_ifs <;> exact ⟨rfl, rfl⟩

theorem deallocate_keeps (h : TagMemory) (data : Option Nat) (ls : List ByteTagList) :
    Keeps h (h.deallocate data) ls := by
  intro x _
  apply stored_congr
  intro k _
  rw [TagMemory.deallocate_blocks]
  split_ifs <;> rfl

theorem deallocate_holds (hh : Holds h (l :: ls)) : Holds (h.deallocate l.data) ls := by
  constructor
  · rw [TagMemory.deallocate_next]
    have hcounts := hh.counts
    rw [List.map_cons] at hcounts
    rcases hd : l.data with _ | k
    · rw [hd] at hcounts
      exact RefCount.Counts.cons_none.mp hcounts
    · rw [hd] at hcounts
      apply hcounts.drop
      intro i
      simp only [TagMemory.deallocate_blocks, Option.some.injEq]
      split_ifs with hki hik hik
      · rw [hki]
      · exact absurd hki.symm hik
      · exact absurd hik.symm hki
      · rfl
  · intro x hx
    apply (hh.placed x (List.mem_cons_of_mem l hx)).congr
    intro k _
    rw [TagMemory.deallocate_blocks]
    split_ifs <;> exact ⟨rfl, rfl⟩

/-- `operator=`, where `l` is not `o`. -/
theorem assign_holds (hh : Holds h (l :: ls)) (ho : o ∈ ls) : Holds (assign h l o).1 (o :: ls) :=
  copy_holds (deallocate_holds hh) ho

theorem assign_keeps (h : TagMemory) (l o : ByteTagList) (ls : List ByteTagList) :
    Keeps h (assign h l o).1 ls :=
  (deallocate_keeps h l.data ls).trans (copy_keeps _ o ls)

/-! ### Adding -/

/-- A block with room for `n` bytes that starts with what `l` has stored. No other list uses
what comes behind. -/
structure Room (h : TagMemory) (l : ByteTagList) (ls : List ByteTagList) (n : Nat)
    (h' : TagMemory) (k : Nat) : Prop where
  counts : RefCount.Counts (fun i => (h'.blocks i).count) h'.next
    (some k :: ls.map ByteTagList.data)
  placed : ∀ x ∈ ls, x.Placed h'
  keeps : Keeps h h' ls
  stored : Bytes.read (h'.blocks k).data 0 l.used = stored h l
  size : n ≤ (h'.blocks k).size
  behind : ∀ x ∈ ls, x.data = some k → x.used ≤ l.used

theorem room_allocate (hh : Holds h ls) (hl : l.data = none) (hused : l.used = 0) :
    Room h l ls n (h.allocate n).1 (h.allocate n).2 := by
  obtain ⟨hk, hnext, d, hcount, -, hsize, hblocks⟩ := TagMemory.allocate_spec h n
  have hne : ∀ x ∈ ls, ∀ k, x.data = some k → k ≠ h.next := by
    intro x hx k hxk
    exact Nat.ne_of_lt (hh.counts.lt k (hxk ▸ List.mem_map_of_mem hx))
  have hsame : ∀ x ∈ ls, ∀ k, x.data = some k → (h.allocate n).1.blocks k = h.blocks k := by
    intro x hx k hxk
    rw [hblocks, if_neg (hne x hx k hxk)]
  refine ⟨?_, fun x hx => ?_, fun x hx => ?_, ?_, ?_, fun x hx hxk => ?_⟩
  · rw [hk, hnext]
    apply hh.counts.adopt
    intro i
    rw [hblocks]
    split_ifs
    · exact hcount
    · rfl
  · exact (hh.placed x hx).congr fun k hxk => by rw [hsame x hx k hxk]; exact ⟨rfl, rfl⟩
  · exact stored_congr fun k hxk => by rw [hsame x hx k hxk]
  · rw [hused, ByteTagList.stored, hl]
    rfl
  · rw [hk, hblocks, if_pos rfl]
    exact hsize
  · exact absurd hk (hne x hx _ hxk)

/-- A new block, into which the bytes of the old one are copied. -/
theorem room_move (hh : Holds h (l :: ls)) (hl : l.data = some k) :
    Room h l ls n (((h.allocate n).1.set (h.allocate n).2
        { (h.allocate n).1.blocks (h.allocate n).2 with
          data := Bytes.write ((h.allocate n).1.blocks (h.allocate n).2).data 0
            (Bytes.read ((h.allocate n).1.blocks k).data 0 l.used) }).deallocate (some k))
      (h.allocate n).2 := by
  obtain ⟨hk, hnext, d, hcount, -, hsize, hblocks⟩ := TagMemory.allocate_spec h n
  have hlt : ∀ x ∈ l :: ls, ∀ i, x.data = some i → i ≠ h.next := by
    intro x hx i hxi
    exact Nat.ne_of_lt (hh.counts.lt i (hxi ▸ List.mem_map_of_mem hx))
  have hkne : k ≠ h.next := hlt l List.mem_cons_self k hl
  set h₁ := (h.allocate n).1 with hh₁
  set h₂ := h₁.set (h.allocate n).2 { h₁.blocks (h.allocate n).2 with
    data := Bytes.write (h₁.blocks (h.allocate n).2).data 0
      (Bytes.read (h₁.blocks k).data 0 l.used) } with hh₂
  have hold : h₁.blocks k = h.blocks k := by rw [hblocks, if_neg hkne]
  have hothers : ∀ i, i ≠ h.next → h₂.blocks i = h.blocks i := by
    intro i hi
    rw [hh₂, TagMemory.set_blocks, hk, if_neg hi, hblocks, if_neg hi]
  have hnew : h₂.blocks h.next =
      { d with data := Bytes.write d.data 0 (Bytes.read (h.blocks k).data 0 l.used) } := by
    rw [hh₂, TagMemory.set_blocks, hk, if_pos rfl, hold, hblocks, if_pos rfl]
  have hcounts : RefCount.Counts (fun i => (h₂.blocks i).count) h₂.next
      (some k :: some h.next :: ls.map ByteTagList.data) := by
    have hold := hh.counts
    rw [List.map_cons, hl] at hold
    have hadopt : RefCount.Counts (fun i => (h₂.blocks i).count) (h.next + 1)
        (some h.next :: some k :: ls.map ByteTagList.data) := by
      apply hold.adopt
      intro i
      split_ifs with hi
      · rw [hi, hnew]
        exact hcount
      · rw [hothers i hi]
    have hsucc : h₂.next = h.next + 1 := by rw [hh₂, TagMemory.set_next, hh₁, hnext]
    rw [hsucc]
    exact hadopt.perm (List.Perm.swap _ _ _)
  have hsame : ∀ x ∈ ls, ∀ i, x.data = some i →
      h₂.blocks i = h.blocks i := fun x hx i hxi =>
    hothers i (hlt x (List.mem_cons_of_mem l hx) i hxi)
  refine ⟨?_, fun x hx => ?_, fun x hx => ?_, ?_, ?_, fun x hx hxk => ?_⟩
  · rw [TagMemory.deallocate_next, hk]
    apply hcounts.drop
    intro i
    simp only [TagMemory.deallocate_blocks, Option.some.injEq]
    split_ifs with hki hik hik
    · rw [hki]
    · exact absurd hki.symm hik
    · exact absurd hik.symm hki
    · rfl
  · apply (hh.placed x (List.mem_cons_of_mem l hx)).congr
    intro i hxi
    rw [TagMemory.deallocate_blocks, hsame x hx i hxi]
    split_ifs <;> exact ⟨rfl, rfl⟩
  · apply ((deallocate_keeps h₂ (some k) ls) x hx).trans
    apply stored_congr
    intro i hxi
    rw [hsame x hx i hxi]
  · have hwrite := Bytes.read_write d.data 0 (Bytes.read (h.blocks k).data 0 l.used)
    rw [Bytes.length_read] at hwrite
    rw [hk, TagMemory.deallocate_blocks, if_neg (fun h => hkne (Option.some.inj h)), hnew,
      ByteTagList.stored, hl]
    exact hwrite
  · rw [hk, TagMemory.deallocate_blocks, if_neg (fun h => hkne (Option.some.inj h)), hnew]
    exact hsize
  · exact absurd hk (hlt x (List.mem_cons_of_mem l hx) _ hxk)

theorem makeRoom_spec (n : Nat) (hh : Holds h (l :: ls)) :
    Room h l ls n (makeRoom h l n).1 (makeRoom h l n).2 := by
  have hplaced := hh.placed l List.mem_cons_self
  unfold makeRoom
  rcases hl : l.data with _ | k
  · have hcounts := hh.counts
    rw [List.map_cons, hl] at hcounts
    have hrest : Holds h ls := ⟨RefCount.Counts.cons_none.mp hcounts,
      fun x hx => hh.placed x (List.mem_cons_of_mem l hx)⟩
    apply room_allocate hrest hl
    simpa [Placed, hl] using hplaced
  · simp only
    split_ifs with hroom
    · exact room_move hh hl
    · have hcounts := hh.counts
      rw [List.map_cons, hl] at hcounts
      refine ⟨hcounts, fun x hx => hh.placed x (List.mem_cons_of_mem l hx), Keeps.refl h ls, ?_,
        Nat.not_lt.mp fun hlt => hroom (Or.inl hlt), fun x hx hxk => ?_⟩
      · rw [ByteTagList.stored, hl]
      · -- `x` is not alone on the block, so that `l` uses all that has been written
        have hcount : (h.blocks k).count ≠ 1 := fun h1 =>
          hcounts.alone h1 (hxk ▸ List.mem_map_of_mem hx)
        have hx := hh.placed x (List.mem_cons_of_mem l hx)
        simp only [Placed, hxk] at hx
        omega

/-- The second half of `Add`: the record is written behind what `l` has stored. -/
theorem Room.write {bs : List UInt8} (l' : ByteTagList)
    (hroom : Room h l ls (l.used + bs.length) h' k) (hused : l'.used = l.used + bs.length) (hdata : l'.data = some k) :
    let h₂ := h'.set k { h'.blocks k with
      data := Bytes.write (h'.blocks k).data l.used bs, dirty := l.used + bs.length }
    Holds h₂ (l' :: ls) ∧ Keeps h h₂ ls ∧ ByteTagList.stored h₂ l' =
      ByteTagList.stored h l ++ bs := by
  intro h₂
  have hblock : h₂.blocks k = { h'.blocks k with
      data := Bytes.write (h'.blocks k).data l.used bs, dirty := l.used + bs.length } := if_pos rfl
  have hother : ∀ i, i ≠ k → h₂.blocks i = h'.blocks i := fun i hi => if_neg hi
  have hbefore : ∀ n ≤ l.used, Bytes.read (h₂.blocks k).data 0 n =
      Bytes.read (h'.blocks k).data 0 n := by
    intro n hn
    rw [hblock]
    apply Bytes.read_congr
    intro j _ hj
    exact Bytes.write_apply_of_lt _ (by omega)
  refine ⟨⟨?_, ?_⟩, ?_, ?_⟩
  · rw [List.map_cons, hdata]
    apply hroom.counts.congr
    intro i
    by_cases hi : i = k
    · rw [hi, hblock]
    · rw [hother i hi]
  · intro x hx
    rcases List.mem_cons.mp hx with rfl | hx
    · simp only [Placed, hdata, hblock, hused]
      exact ⟨Nat.le_refl _, hroom.size⟩
    · have hplaced := hroom.placed x hx
      unfold Placed at hplaced ⊢
      rcases hxk : x.data with _ | i
      · simpa [hxk] using hplaced
      · simp only [hxk] at hplaced ⊢
        by_cases hi : i = k
        · rw [hi, hblock]
          have hbehind := hroom.behind x hx (hi ▸ hxk)
          exact ⟨Nat.le_trans hbehind (Nat.le_add_right _ _), hroom.size⟩
        · rwa [hother i hi]
  · intro x hx
    rw [← hroom.keeps x hx]
    unfold ByteTagList.stored
    rcases hxk : x.data with _ | i
    · rfl
    · simp only
      by_cases hi : i = k
      · rw [hi]
        exact hbefore x.used (hroom.behind x hx (hi ▸ hxk))
      · rw [hother i hi]
  · rw [← hroom.stored, ← hbefore l.used (Nat.le_refl _), ByteTagList.stored, hdata]
    simp only
    rw [hused, Bytes.read_add, Nat.zero_add, hblock]
    simp only
    rw [Bytes.read_write]

theorem add_spec (hh : Holds h (l :: ls)) (hc : Carries h l rs) (tag : Tag) (start end_ : Int32) :
    Becomes h ls (add h l tag start end_).1 (add h l tag start end_).2
        (rs ++ [⟨tag, start - l.adjustment, end_ - l.adjustment⟩]) ∧
      (add h l tag start end_).2.adjustment = l.adjustment := by
  set r : TagRecord := ⟨tag, start - l.adjustment, end_ - l.adjustment⟩ with hr
  have hlength : l.used + tag.getSerializedSize + 4 + 4 + 4 + 4 = l.used + r.bytes.length := by
    have htag : r.tag = tag := rfl
    rw [r.length_bytes, htag]
    omega
  have hroom := makeRoom_spec (l.used + r.bytes.length) hh
  unfold add
  simp only [← hr, hlength]
  obtain ⟨hholds, hkeeps, hstored⟩ := hroom.write (⟨if r.start < l.minStart then r.start
    else l.minStart, if l.maxEnd < r.end_ then r.end_ else l.maxEnd, l.adjustment,
    l.used + r.bytes.length, some (makeRoom h l (l.used + r.bytes.length)).2⟩ : ByteTagList) rfl rfl
  refine ⟨⟨hholds, hkeeps, ⟨?_, ?_, ?_⟩⟩, trivial⟩
  · rw [hstored, hc.stored, List.flatMap_append, List.flatMap_singleton]
  · intro x hx
    simp only
    rcases List.mem_append.mp hx with hx | hx
    · have hle := hc.minStart_le x hx
      split_ifs with hlt
      · exact Int32.le_trans (Int32.le_of_lt hlt) hle
      · exact hle
    · rw [List.mem_singleton.mp hx]
      split_ifs with hlt
      · exact Int32.le_refl _
      · exact Int32.not_lt.mp hlt
  · intro x hx
    simp only
    rcases List.mem_append.mp hx with hx | hx
    · have hle := hc.le_maxEnd x hx
      split_ifs with hlt
      · exact Int32.le_trans hle (Int32.le_of_lt hlt)
      · exact hle
    · rw [List.mem_singleton.mp hx]
      split_ifs with hlt
      · exact Int32.le_refl _
      · exact Int32.not_lt.mp hlt

theorem Becomes.refl (hh : Holds h (l :: ls)) (hc : Carries h l rs) : Becomes h ls h l rs :=
  ⟨hh, Keeps.refl h ls, hc⟩

theorem becomes_empty (hh : Holds h ls) : Becomes h ls h empty [] := by
  refine ⟨⟨RefCount.Counts.cons_none.mpr hh.counts, ?_⟩, Keeps.refl h ls, rfl, ?_, ?_⟩
  · intro x hx
    rcases List.mem_cons.mp hx with rfl | hx
    · rfl
    · exact hh.placed x hx
  · intro r hr
    cases hr
  · intro r hr
    cases hr

/-- The record that `Add` stores for an item. -/
def Item.record (adjustment : Int32) (i : Item) : TagRecord :=
  ⟨i.tag, i.start - adjustment, i.end_ - adjustment⟩

theorem addItems_spec (is : List Item) (hh : Holds h (l :: ls)) (hc : Carries h l rs) :
    Becomes h ls (addItems h l is).1 (addItems h l is).2
        (rs ++ is.map (Item.record l.adjustment)) ∧
      (addItems h l is).2.adjustment = l.adjustment := by
  induction is generalizing h l rs with
  | nil =>
    rw [List.map_nil, List.append_nil]
    exact ⟨Becomes.refl hh hc, rfl⟩
  | cons i is ih =>
    obtain ⟨hadd, hadj⟩ := add_spec hh hc i.tag i.start i.end_
    obtain ⟨hrest, hadj'⟩ := ih hadd.holds hadd.carries
    rw [hadj] at hrest hadj'
    rw [List.append_assoc] at hrest
    exact ⟨⟨hrest.holds, hadd.keeps.trans hrest.keeps, hrest.carries⟩, hadj'⟩

theorem rebuild_spec (is : List Item) (hh : Holds h (l :: ls)) :
    Becomes h ls (rebuild h l is).1 (rebuild h l is).2 (is.map (Item.record 0)) ∧
      (rebuild h l is).2.adjustment = 0 := by
  have hempty := becomes_empty hh
  obtain ⟨hlist, hadj⟩ := addItems_spec is hempty.holds hempty.carries
  set h₁ := (addItems h empty is).1 with hh₁
  set list := (addItems h empty is).2 with hlist'
  have hassign : assign h₁ l list = ((assign h₁ l list).1, list) := by
    rw [Prod.ext_iff]
    exact ⟨rfl, copy_snd _ list⟩
  have hkeeps := (assign_keeps h₁ l list ls).trans (deallocate_keeps _ list.data ls)
  have hsame : stored ((assign h₁ l list).1.deallocate list.data) list = stored h₁ list :=
    ((assign_keeps h₁ l list [list]).trans (deallocate_keeps _ list.data [list])) list
      List.mem_cons_self
  have hrebuild : rebuild h l is = ((assign h₁ l list).1.deallocate list.data, list) := by
    unfold rebuild
    simp only [← hh₁, ← hlist']
    rw [hassign]
  rw [hrebuild]
  refine ⟨⟨?_, ?_, hlist.carries.of_stored hsame⟩, hadj⟩
  · have hperm := hlist.holds.perm (List.Perm.swap l list ls)
    exact deallocate_holds (assign_holds hperm List.mem_cons_self)
  · exact (hlist.keeps.sub fun x hx => List.mem_cons_of_mem l hx).trans hkeeps

/-! ### Iterating -/

/-- What the iterator makes of a record. -/
def item (offsetStart offsetEnd adjustment : Int32) (r : TagRecord) : Option Item :=
  let nextStart := r.start + adjustment
  let nextEnd := r.end_ + adjustment
  if offsetEnd ≤ nextStart ∨ nextEnd ≤ offsetStart then none
  else some ⟨r.tag, if nextStart < offsetStart then offsetStart else nextStart,
    if offsetEnd < nextEnd then offsetEnd else nextEnd⟩

theorem items_flatMap (offsetStart offsetEnd adjustment : Int32) (rs : List TagRecord)
    (fuel : Nat) (hfuel : rs.length ≤ fuel) :
    items offsetStart offsetEnd adjustment fuel (rs.flatMap TagRecord.bytes) =
      rs.filterMap (item offsetStart offsetEnd adjustment) := by
  induction rs generalizing fuel with
  | nil =>
    cases fuel with
    | zero => rfl
    | succ fuel => rfl
  | cons r rs ih =>
    obtain ⟨fuel, rfl⟩ : ∃ m, fuel = m + 1 := ⟨fuel - 1, by simp at hfuel; omega⟩
    have hrest := ih fuel (by simpa using hfuel)
    rw [List.flatMap_cons, items, readRecord_bytes]
    simp only
    by_cases haside : offsetEnd ≤ r.start + adjustment ∨ r.end_ + adjustment ≤ offsetStart
    · have hitem : item offsetStart offsetEnd adjustment r = none := if_pos haside
      rw [if_pos haside, hrest, List.filterMap_cons_none hitem]
    · rw [if_neg haside, hrest]
      exact (List.filterMap_cons_some (f := item offsetStart offsetEnd adjustment)
        (if_neg haside)).symm

theorem length_le_flatMap_bytes (rs : List TagRecord) :
    rs.length ≤ (rs.flatMap TagRecord.bytes).length := by
  induction rs with
  | nil => exact Nat.le_refl _
  | cons r rs ih =>
    rw [List.flatMap_cons, List.length_append, r.length_bytes, List.length_cons]
    omega

theorem begin_spec (hc : Carries h l rs) (offsetStart offsetEnd : Int32) :
    begin h l offsetStart offsetEnd =
      rs.filterMap (item offsetStart offsetEnd l.adjustment) := by
  have hlength := length_le_flatMap_bytes rs
  have hstored := hc.stored
  unfold begin
  rcases hl : l.data with _ | k <;> simp only [stored, hl] at hstored ⊢
  · rw [← hstored, List.length_nil] at hlength
    rw [List.eq_nil_of_length_eq_zero (Nat.le_zero.mp hlength)]
    rfl
  · rw [← hstored, Bytes.length_read] at hlength
    rw [hstored]
    exact items_flatMap offsetStart offsetEnd l.adjustment rs _ hlength

end ByteTagList

end CudaNs3.Network
