import CudaNs3.Network.PacketTagChains

/-!
# Removing and replacing packet tags

What the writers do with the node that `COWTraverse` has found, before and after the first merge.
-/

namespace CudaNs3.Network.PacketTagList

set_option autoImplicit false

variable {h h' : TagHeap} {p q m : Option Nat} {cur : Nat} {ks pre post ns : List Nat}
  {heads : List (Option Nat)} {n : TagData} {tid : UInt16}

theorem slot_getLast (hp : Path h m (pre ++ cur :: post)) :
    slot h m pre.getLast? = some cur := by
  rcases List.eq_nil_or_concat pre with rfl | ⟨pre, j, rfl⟩
  · exact hp.1
  · rw [List.concat_eq_append, List.append_assoc] at hp
    rw [List.concat_eq_append, List.getLast?_concat]
    exact hp.tail.2.2.1

theorem count_eq (hn : h.nodes cur = some n) : h.count cur = n.count := by
  rw [TagHeap.count, hn]

theorem tidOf_eq (hn : h.nodes cur = some n) : tidOf h cur = some n.tid := by
  rw [tidOf, body_eq hn]
  rfl

/-- `next->count++`, when there is a next node. -/
theorem linkNext_spec (h : TagHeap) (next : Option Nat) (hsome : ∀ k, next = some k →
    (h.body k).isSome) : ∃ h', (match next with
      | none => some h
      | some k => h.setCount k (· + 1)) = some h' ∧ h'.fresh = h.fresh ∧
      (∀ i, h'.body i = h.body i) ∧
      ∀ i, h'.count i = h.count i + if next = some i then 1 else 0 := by
  cases next with
  | none => exact ⟨h, rfl, rfl, fun _ => rfl, fun i => rfl⟩
  | some k =>
    obtain ⟨n, hn⟩ := TagHeap.isSome_body.mp (hsome k rfl)
    obtain ⟨h', hset, hfresh, hbody, hcount⟩ := TagHeap.setCount_spec hn (· + 1)
    refine ⟨h', hset, hfresh, hbody, fun i => ?_⟩
    rw [hcount]
    by_cases hi : i = k
    · simp [hi]
    · simp [hi, Ne.symm hi]

section Focused

variable (hf : Focus h ns heads m pre (cur :: post)) (hn : h.nodes cur = some n)
include hf hn

theorem Focus.next_path : Path h n.next post := by
  obtain ⟨n', hn', hrest⟩ := hf.path.tail.node
  rwa [Option.some.inj (hn.symm.trans hn')]

theorem Focus.next_isSome : ∀ k, n.next = some k → (h.body k).isSome := by
  intro k hk
  have hpath := hf.next_path hn
  rw [hk] at hpath
  cases post with
  | nil => exact absurd hpath (by simp [Path])
  | cons j post =>
    obtain rfl := Option.some.inj hpath.1
    exact hpath.2.1

omit hn in
theorem Focus.slot_mem : ∀ j, pre.getLast? = some j → j ∈ ns ∧ (h.body j).isSome := by
  intro j hj
  have hmem : j ∈ pre ++ cur :: post := List.mem_append_left _ (List.mem_of_getLast? hj)
  exact ⟨hf.sound.mem_of_path hf.path hmem, hf.path.isSome hmem⟩

theorem Focus.next_mem : ∀ k, n.next = some k → k ∈ post := by
  intro k hk
  have hpath := hf.next_path hn
  rw [hk] at hpath
  cases post with
  | nil => exact absurd hpath (by simp [Path])
  | cons j post =>
    rw [Option.some.inj hpath.1]
    exact List.mem_cons_self

/-- The heap with a new node that goes on behind `cur`, before anything points to it. -/
structure Prepared (h : TagHeap) (cur : Nat) (n : TagData) (data : List UInt8) (h₃ : TagHeap) :
    Prop where
  fresh : h₃.fresh = h.fresh + 1
  body : ∀ i, h₃.body i = if i = h.fresh then some (n.next, n.tid, data) else h.body i
  count : ∀ i, h₃.count i = (if i = h.fresh then 1 else if i = cur then n.count - 1
    else h.count i) + if n.next = some i then 1 else 0

theorem prepare_spec (data : List UInt8) : ∃ h₁, h.setCount cur (· - 1) = some h₁ ∧
    h₁.fresh = h.fresh ∧ ∃ h₃, (match n.next with
      | none => some (h₁.alloc ⟨n.next, 1, n.tid, data⟩).1
      | some k => (h₁.alloc ⟨n.next, 1, n.tid, data⟩).1.setCount k (· + 1)) = some h₃ ∧
      Prepared h cur n data h₃ := by
  obtain ⟨h₁, hset, hfresh, hbody, hcount⟩ := TagHeap.setCount_spec hn (· - 1)
  have hbody₂ : ∀ i, (h₁.alloc ⟨n.next, 1, n.tid, data⟩).1.body i =
      if i = h.fresh then some (n.next, n.tid, data) else h.body i := by
    intro i
    rw [TagHeap.body_alloc, hfresh, hbody]
  have hsome : ∀ k, n.next = some k →
      ((h₁.alloc ⟨n.next, 1, n.tid, data⟩).1.body k).isSome := by
    intro k hk
    rw [hbody₂]
    split_ifs
    · rfl
    · exact hf.next_isSome hn k hk
  obtain ⟨h₃, hlink, hfresh₃, hbody₃, hcount₃⟩ := linkNext_spec _ n.next hsome
  refine ⟨h₁, hset, hfresh, h₃, hlink, ?_, fun i => ?_, fun i => ?_⟩
  · rw [hfresh₃, ← hfresh]
    rfl
  · rw [hbody₃, hbody₂]
  · rw [hcount₃, TagHeap.count_alloc, hfresh, hcount, count_eq hn]

/-- A shared node is replaced by a new one, which goes on with the nodes behind it: one round of
the copying loop, and what `ReplaceWriter` does behind a merge. -/
theorem replaceShared_spec (hcount : 1 < n.count) {data : List UInt8} {h₃ : TagHeap}
    (hprep : Prepared h cur n data h₃) :
    ∃ h₄ m₄, setNext h₃ m pre.getLast? (some h.fresh) = some (h₄, m₄) ∧
      Focus h₄ (h.fresh :: ns) heads m₄ (pre ++ [h.fresh]) post ∧ Keeps h h₄ heads ∧
      entries h₄ (pre ++ h.fresh :: post) =
        entries h pre ++ (n.tid, data) :: entries h post ∧
      (∀ i ∈ pre ++ post, tidOf h₄ i = tidOf h i) ∧
      ∀ k, n.next = some k → 1 < h₄.count k := by
  have hs := hf.sound
  have hnodup := hf.path.nodup
  have hcns : h.fresh ∉ ns := fun hmem => Nat.lt_irrefl _ (hs.lt _ hmem)
  have hpns : ∀ i ∈ pre ++ cur :: post, i ∈ ns := fun i hi => hs.mem_of_path hf.path hi
  have hpc : ∀ i ∈ pre ++ cur :: post, i ≠ h.fresh := fun i hi =>
    Nat.ne_of_lt (hs.lt i (hpns i hi))
  have hbody₃ : ∀ i ∈ ns, h₃.body i = h.body i := by
    intro i hi
    rw [hprep.body, if_neg (Nat.ne_of_lt (hs.lt i hi))]
  have hsome₃ : ∀ k, k ∈ h.fresh :: ns ↔ (h₃.body k).isSome := by
    intro k
    rw [hprep.body, List.mem_cons]
    split_ifs with hk
    · simp [hk]
    · simp [hk, hs.mem_iff]
  obtain ⟨h₄, m₄, hset, hfresh₄, hcount₄, hbody₄, hsnd₄, hslot₄, hslots₄, hm₄⟩ :=
    setNext_spec (h := h₃) (m := m) heads pre.getLast? (some h.fresh)
      (List.nodup_cons.mpr ⟨hcns, hs.nodup⟩) (by
        intro j hj
        obtain ⟨hmem, -⟩ := hf.slot_mem j hj
        have hmem' : j ∈ h.fresh :: ns := List.mem_cons_of_mem _ hmem
        exact ⟨hmem', (hsome₃ j).mp hmem'⟩)
  have hpath₃ : Path h₃ m (pre ++ cur :: post) := hf.path.congr fun i hi => hbody₃ i (hpns i hi)
  have hrest : Path h₃ (some h.fresh) (h.fresh :: post) := by
    refine ⟨rfl, (hsome₃ _).mp List.mem_cons_self, ?_⟩
    have hnext : h₃.next h.fresh = n.next := by
      rw [TagHeap.next, hprep.body, if_pos rfl]
      rfl
    rw [hnext]
    exact (hf.next_path hn).congr fun i hi => hbody₃ i (hpns i (by simp [hi]))
  have hrest₄ : Path h₄ (some h.fresh) (h.fresh :: post) := by
    apply hrest.congr
    intro i hi
    apply hbody₄
    intro hlast
    have hmem : i ∈ pre := List.mem_of_getLast? hlast
    rcases List.mem_cons.mp hi with rfl | hi
    · exact hpc _ (List.mem_append_left _ hmem) rfl
    · exact (List.nodup_append.mp hnodup).2.2 i hmem i (List.mem_cons_of_mem _ hi) rfl
  have hpath₄ : Path h₄ m₄ (pre ++ h.fresh :: post) := by
    apply hpath₃.splice hrest₄ hslot₄
    · intro hne
      apply hm₄
      simpa using hne
    · intro i hi _
      exact hbody₄ i hi
    · intro i hi
      have hsome := (hsome₃ i).mp (List.mem_cons_of_mem _ (hpns i (List.mem_append_left _ hi)))
      rw [← Option.isSome_map (f := Prod.snd), hsnd₄, Option.isSome_map]
      exact hsome
  have hsnd : ∀ i ∈ ns, (h₄.body i).map Prod.snd = (h.body i).map Prod.snd := by
    intro i hi
    rw [hsnd₄, hbody₃ i hi]
  have hentries : entries h₄ (pre ++ h.fresh :: post) =
      entries h pre ++ (n.tid, data) :: entries h post := by
    have hnew : (h₄.body h.fresh).map Prod.snd = some (n.tid, data) := by
      rw [hsnd₄, hprep.body, if_pos rfl]
      rfl
    obtain ⟨b, hb, hb2⟩ := Option.map_eq_some_iff.mp hnew
    rw [entries_append, entries_cons hb, hb2]
    congr 1
    · exact entries_congr fun i hi => hsnd i (hpns i (List.mem_append_left _ hi))
    · congr 1
      exact entries_congr fun i hi => hsnd i (hpns i (by simp [hi]))
  have hkeeps : Keeps h h₄ heads := by
    apply hf.keeps
    intro i hi hpre
    rw [hbody₄ i (fun hlast => hpre (List.mem_of_getLast? hlast)), hbody₃ i hi]
  have hcur : cur ∈ ns := hpns cur (by simp)
  have hcurc : cur ≠ h.fresh := Nat.ne_of_lt (hs.lt cur hcur)
  have hnextne : ∀ k, n.next = some k → k ≠ h.fresh ∧ k ≠ cur ∧ k ∉ pre := by
    intro k hk
    have hmem := hf.next_mem hn k hk
    refine ⟨hpc k (by simp [hmem]), ?_, fun hpre => ?_⟩
    · rintro rfl
      exact (List.nodup_cons.mp (List.nodup_append.mp hnodup).2.1).1 hmem
    · exact (List.nodup_append.mp hnodup).2.2 k hpre k (List.mem_cons_of_mem _ hmem) rfl
  refine ⟨h₄, m₄, hset, ⟨⟨?_, fun k => ?_, fun k hk => ?_, ?_, ?_⟩, ?_, fun j hj => ?_⟩, hkeeps,
    hentries, fun i hi => ?_, fun k hk => ?_⟩
  · exact List.nodup_cons.mpr ⟨hcns, hs.nodup⟩
  · rw [hsome₃, ← Option.isSome_map (f := Prod.snd), ← hsnd₄, Option.isSome_map]
  · rw [hfresh₄, hprep.fresh]
    rcases List.mem_cons.mp hk with rfl | hk
    · exact Nat.lt_succ_self _
    · exact Nat.lt_succ_of_lt (hs.lt k hk)
  · -- the pointer to `cur` goes, the new node brings its own, and gets one
    have hmem : ∀ j, pre.getLast? = some j → j ∈ h.fresh :: ns := fun j hj =>
      List.mem_cons_of_mem _ (hf.slot_mem j hj).1
    have hperm₃ := slot_perm (h := h₃) (m := m) heads pre.getLast? hmem
    have hperm₄ := slot_perm (h := h₄) (m := m₄) heads pre.getLast? hmem
    have hpointers : (pointers h₃ (h.fresh :: ns) (m :: heads)).Perm
        (n.next :: pointers h ns (m :: heads)) := by
      have hnext : h₃.next h.fresh = n.next := by
        rw [TagHeap.next, hprep.body, if_pos rfl]
        rfl
      have hmap : ns.map h₃.next = ns.map h.next :=
        List.map_congr_left fun i hi => next_congr (hbody₃ i hi)
      unfold pointers
      rw [List.map_cons, hnext, hmap]
      exact List.perm_middle
    rw [slot_getLast hpath₃] at hperm₃
    rw [hslot₄, hslots₄] at hperm₄
    refine hs.counts.rewire [some cur] [n.next] [some h.fresh] (hperm₃.symm.trans hpointers) hperm₄ (fun k => ?_) (fun k hk => ?_) (fun k hk => ?_) ?_
    · have hcurcount : h.count cur = n.count := count_eq hn
      have hzero : h.count h.fresh = 0 := hs.counts.eq_zero (Nat.le_refl _)
      rw [hcount₄, hprep.count]
      simp only [List.count_singleton, beq_iff_eq, Option.some.injEq]
      split_ifs <;> subst_vars <;> omega
    · rw [hfresh₄, hprep.fresh]
      have hmem := hf.next_mem hn k (List.mem_singleton.mp hk).symm
      exact Nat.lt_succ_of_lt (hs.lt k (hpns k (by simp [hmem])))
    · rw [hfresh₄, hprep.fresh, Option.some.inj (List.mem_singleton.mp hk)]
      exact Nat.lt_succ_self _
    · rw [hfresh₄, hprep.fresh]
      exact Nat.le_succ _
  · intro p hp
    rcases List.mem_cons.mp hp with rfl | hp
    · refine ⟨_, hpath₄, ?_⟩
      obtain ⟨ks, hks, hnd⟩ := hs.chains m List.mem_cons_self
      rw [hks.unique hf.path, entries_append, entries_cons (body_eq hn)] at hnd
      rw [hentries]
      simpa using hnd
    · obtain ⟨ks, hks, hnd⟩ := hs.chains p (List.mem_cons_of_mem m hp)
      obtain ⟨hks', hent⟩ := hkeeps p hp ks hks
      exact ⟨ks, hks', by rwa [hent]⟩
  · rw [List.append_assoc]
    exact hpath₄
  · rw [hcount₄, hprep.count]
    rcases List.mem_append.mp hj with hj | hj
    · have hjn : n.next ≠ some j := fun heq => (hnextne j heq).2.2 hj
      have hjcur : j ≠ cur := by
        rintro rfl
        exact (List.nodup_append.mp hnodup).2.2 j hj j List.mem_cons_self rfl
      rw [if_neg (hpc j (List.mem_append_left _ hj)), if_neg hjcur, if_neg hjn]
      exact hf.single j hj
    · obtain rfl := List.mem_singleton.mp hj
      rw [if_pos rfl, if_neg (fun heq => (hnextne _ heq).1 rfl)]
  · have hmem : i ∈ ns := by
      apply hpns
      rcases List.mem_append.mp hi with hi | hi <;> simp [hi]
    have hsame := congrArg (Option.map Prod.fst) (hsnd i hmem)
    rw [Option.map_map, Option.map_map] at hsame
    exact hsame
  · rw [hcount₄, hprep.count, if_neg (hnextne k hk).1, if_neg (hnextne k hk).2.1, if_pos hk]
    have hpos := hs.count_pos List.mem_cons_self hf.path
      (k := k) (by simp [hf.next_mem hn k hk])
    omega

/-- The list goes around `cur`. -/
structure Unlinked (h : TagHeap) (ns : List Nat) (heads : List (Option Nat)) (m : Option Nat)
    (pre post : List Nat) (cur : Nat) (n : TagData) (h₁ : TagHeap) (m₁ : Option Nat) : Prop where
  fresh : h₁.fresh = h.fresh
  count : ∀ i, h₁.count i = h.count i
  body : ∀ i, i ∉ pre → h₁.body i = h.body i
  snd : ∀ i, (h₁.body i).map Prod.snd = (h.body i).map Prod.snd
  path : Path h₁ m₁ (pre ++ post)
  pointers : ∃ rs, (pointers h ns (m :: heads)).Perm (some cur :: rs) ∧
    (pointers h₁ ns (m₁ :: heads)).Perm (n.next :: rs)

theorem unlink_spec : ∃ h₁ m₁, setNext h m pre.getLast? n.next = some (h₁, m₁) ∧
    Unlinked h ns heads m pre post cur n h₁ m₁ := by
  have hs := hf.sound
  have hnodup := hf.path.nodup
  obtain ⟨h₁, m₁, hset, hfresh, hcount, hbody, hsnd, hslot, hslots, hm⟩ :=
    setNext_spec (h := h) (m := m) heads pre.getLast? n.next hs.nodup
      fun j hj => hf.slot_mem j hj
  have hpre : ∀ i, i ∉ pre → h₁.body i = h.body i := fun i hi =>
    hbody i fun hlast => hi (List.mem_of_getLast? hlast)
  refine ⟨h₁, m₁, hset, hfresh, hcount, hpre, hsnd, ?_,
    slotRest h ns heads m pre.getLast?, ?_, ?_⟩
  · have hrest : Path h₁ n.next post := (hf.next_path hn).congr fun i hi => hpre i fun hmem =>
      (List.nodup_append.mp hnodup).2.2 i hmem i (List.mem_cons_of_mem _ hi) rfl
    apply hf.path.splice hrest hslot
    · intro hne
      apply hm
      simpa using hne
    · exact fun i hi _ => hbody i hi
    · intro i hi
      rw [← Option.isSome_map (f := Prod.snd), hsnd, Option.isSome_map]
      exact hf.path.isSome (List.mem_append_left _ hi)
  · have hperm := slot_perm (h := h) (m := m) heads pre.getLast?
      fun j hj => (hf.slot_mem j hj).1
    rwa [slot_getLast hf.path] at hperm
  · have hperm := slot_perm (h := h₁) (m := m₁) heads pre.getLast?
      fun j hj => (hf.slot_mem j hj).1
    rwa [hslot, hslots] at hperm

omit hf hn in
/-- The list is `m'` now and has the entries `es`; the others see no change. -/
def Yields (h : TagHeap) (heads : List (Option Nat)) (h' : TagHeap) (m' : Option Nat)
    (es : List (UInt16 × List UInt8)) : Prop :=
  ∃ ns, Sound h' ns (m' :: heads) ∧ Keeps h h' heads ∧ ∃ ks, Path h' m' ks ∧ entries h' ks = es

omit hf hn in
theorem Sound.chains_of {ns' : List Nat} {m' : Option Nat} (hs : Sound h ns' (m :: heads))
    (hk : Keeps h h' heads) (hp : Path h' m' ks) (hnd : ((entries h' ks).map Prod.fst).Nodup) :
    ∀ p ∈ m' :: heads, ∃ ks, Path h' p ks ∧ ((entries h' ks).map Prod.fst).Nodup := by
  intro p hmem
  rcases List.mem_cons.mp hmem with rfl | hmem
  · exact ⟨ks, hp, hnd⟩
  · obtain ⟨ks', hks, hnd'⟩ := hs.chains p (List.mem_cons_of_mem m hmem)
    obtain ⟨hks', hent⟩ := hk p hmem ks' hks
    exact ⟨ks', hks', by rwa [hent]⟩

omit hf in
theorem entries_focus : entries h (pre ++ cur :: post) =
    entries h pre ++ (n.tid, n.data) :: entries h post := by
  rw [entries_append, entries_cons (body_eq hn)]

theorem Focus.tids_nodup :
    ((entries h pre ++ (n.tid, n.data) :: entries h post).map Prod.fst).Nodup := by
  obtain ⟨ks, hks, hnd⟩ := hf.sound.chains m List.mem_cons_self
  rwa [hks.unique hf.path, entries_focus hn] at hnd

theorem Focus.tids_nodup_unlinked : ((entries h pre ++ entries h post).map Prod.fst).Nodup := by
  have hsub : (entries h pre ++ entries h post).Sublist
      (entries h pre ++ (n.tid, n.data) :: entries h post) :=
    (List.sublist_cons_self _ _).append_left _
  exact List.Nodup.sublist (hsub.map Prod.fst) (hf.tids_nodup hn)

omit hf hn in
theorem Unlinked.entries_eq {h₁ : TagHeap} {m₁ : Option Nat}
    (hu : Unlinked h ns heads m pre post cur n h₁ m₁) :
    entries h₁ (pre ++ post) = entries h pre ++ entries h post := by
  rw [entries_append, entries_congr (fun i _ => hu.snd i), entries_congr (fun i _ => hu.snd i)]

/-- `RemoveWriter` behind a merge. -/
theorem removeShared_spec (hcount : 1 < n.count) :
    ∃ h' m', removeWriter false h m cur pre.getLast? = some (h', m', n.data) ∧
      Yields h heads h' m' (entries h pre ++ entries h post) := by
  have hs := hf.sound
  have hnodup := hf.path.nodup
  obtain ⟨h₁, m₁, hset, hu⟩ := unlink_spec hf hn
  have hcurpre : cur ∉ pre := fun hmem =>
    (List.nodup_append.mp hnodup).2.2 cur hmem cur List.mem_cons_self rfl
  have hsome₁ : (h₁.body cur).isSome := by
    rw [hu.body cur hcurpre, body_eq hn]
    rfl
  obtain ⟨n₁, hn₁⟩ := TagHeap.isSome_body.mp hsome₁
  obtain ⟨h₂, hset₂, hfresh₂, hbody₂, hcount₂⟩ := TagHeap.setCount_spec hn₁ (· - 1)
  have hnext : ∀ k, n.next = some k → (h₂.body k).isSome := by
    intro k hk
    rw [hbody₂]
    exact hu.path.isSome (List.mem_append_right _ (hf.next_mem hn k hk))
  obtain ⟨h₃, hlink, hfresh₃, hbody₃, hcount₃⟩ := linkNext_spec h₂ n.next hnext
  have hbody : ∀ i, h₃.body i = h₁.body i := fun i => (hbody₃ i).trans (hbody₂ i)
  have hpath₃ : Path h₃ m₁ (pre ++ post) := hu.path.congr fun i _ => hbody i
  have hentries : entries h₃ (pre ++ post) = entries h pre ++ entries h post := by
    rw [← hu.entries_eq]
    exact entries_congr fun i _ => by rw [hbody i]
  have hkeeps : Keeps h h₃ heads := hf.keeps fun i _ hi => by rw [hbody, hu.body i hi]
  refine ⟨h₃, m₁, ?_, ns, ⟨hs.nodup, fun k => ?_, fun k hk => ?_, ?_, ?_⟩, hkeeps, _, hpath₃,
    hentries⟩
  · unfold removeWriter
    simp only [hn, hset, hset₂, Option.bind_eq_bind, Option.bind_some, Bool.false_eq_true,
      if_false]
    cases hnx : n.next with
    | none =>
      rw [hnx] at hlink
      rw [Option.some.inj hlink]
      rfl
    | some k =>
      rw [hnx] at hlink
      simp only [] at hlink
      simp only [hlink]
      rfl
  · rw [hs.mem_iff, hbody, ← Option.isSome_map (f := Prod.snd), ← hu.snd, Option.isSome_map]
  · rw [hfresh₃, hfresh₂, hu.fresh]
    exact hs.lt k hk
  · obtain ⟨rs, hperm, hperm₁⟩ := hu.pointers
    have hpointers : pointers h₃ ns (m₁ :: heads) = pointers h₁ ns (m₁ :: heads) := by
      unfold pointers
      congr 1
      exact List.map_congr_left fun i _ => next_congr (hbody i)
    rw [hpointers]
    refine hs.counts.rewire [some cur] [] [n.next] hperm.symm hperm₁ (fun k => ?_)
      (fun k hk => absurd hk List.not_mem_nil) (fun k hk => ?_) ?_
    · have hcurcount : h.count cur = n.count := count_eq hn
      simp only [hcount₃, hcount₂, hu.count, List.count_singleton, beq_iff_eq,
        Option.some.injEq, List.count_nil]
      split_ifs <;> subst_vars <;> omega
    · rw [hfresh₃, hfresh₂, hu.fresh]
      have hmem := hf.next_mem hn k (List.mem_singleton.mp hk).symm
      exact hs.lt k (hs.mem_of_path hf.path (by simp [hmem]))
    · rw [hfresh₃, hfresh₂, hu.fresh]
  · exact hs.chains_of hkeeps hpath₃ (by rw [hentries]; exact hf.tids_nodup_unlinked hn)

/-- `RemoveWriter` before the first merge. -/
theorem removeSingle_spec (hcount : n.count = 1) :
    ∃ h' m', removeWriter true h m cur pre.getLast? = some (h', m', n.data) ∧
      Yields h heads h' m' (entries h pre ++ entries h post) := by
  have hs := hf.sound
  have hnodup := hf.path.nodup
  obtain ⟨h₁, m₁, hset, hu⟩ := unlink_spec hf hn
  have hcur : cur ∈ ns := hs.mem_of_path hf.path (by simp)
  have hcurpp : cur ∉ pre ++ post := by
    intro hmem
    rcases List.mem_append.mp hmem with hmem | hmem
    · exact (List.nodup_append.mp hnodup).2.2 cur hmem cur List.mem_cons_self rfl
    · exact (List.nodup_cons.mp (List.nodup_append.mp hnodup).2.1).1 hmem
  have hbody : ∀ i, (h₁.free cur).body i = if i = cur then none else h₁.body i :=
    TagHeap.body_set cur none
  have hsame : ∀ i ∈ pre ++ post, (h₁.free cur).body i = h₁.body i := by
    intro i hi
    rw [hbody, if_neg]
    intro heq
    exact hcurpp (heq ▸ hi)
  have hpath₂ : Path (h₁.free cur) m₁ (pre ++ post) := hu.path.congr hsame
  have hentries : entries (h₁.free cur) (pre ++ post) = entries h pre ++ entries h post := by
    rw [← hu.entries_eq]
    exact entries_congr fun i hi => by rw [hsame i hi]
  have hfocus : Focus h ns heads m (pre ++ [cur]) post := by
    refine ⟨hs, by simpa using hf.path, fun j hj => ?_⟩
    rcases List.mem_append.mp hj with hj | hj
    · exact hf.single j hj
    · rw [List.mem_singleton.mp hj, count_eq hn, hcount]
  have hkeeps : Keeps h (h₁.free cur) heads := by
    apply hfocus.keeps
    intro i _ hi
    rw [hbody, if_neg (fun heq => hi (by simp [heq])), hu.body i (fun hmem => hi (by simp [hmem]))]
  refine ⟨h₁.free cur, m₁, ?_, ns.erase cur, ⟨hs.nodup.erase cur, fun k => ?_, fun k hk => ?_, ?_,
    ?_⟩, hkeeps, _, hpath₂, hentries⟩
  · unfold removeWriter
    simp only [hn, hset, Option.bind_eq_bind, Option.bind_some, if_true]
    rfl
  · rw [hs.nodup.mem_erase_iff, hbody, hs.mem_iff]
    split_ifs with hk
    · simp [hk]
    · rw [← Option.isSome_map (f := Prod.snd), ← hu.snd, Option.isSome_map]
      simp [hk]
  · exact hu.fresh ▸ hs.lt k (List.mem_of_mem_erase hk)
  · obtain ⟨rs, hperm, hperm₁⟩ := hu.pointers
    have hnext₁ : h₁.next cur = n.next := by
      rw [TagHeap.next, hu.body cur (fun hmem => hcurpp (List.mem_append_left _ hmem)),
        body_eq hn]
      rfl
    have herase := pointers_erase h₁ (m₁ :: heads) hcur
    rw [hnext₁] at herase
    have hrs : (pointers h₁ (ns.erase cur) (m₁ :: heads)).Perm rs :=
      (herase.symm.trans hperm₁).cons_inv
    have hpointers : pointers (h₁.free cur) (ns.erase cur) (m₁ :: heads) =
        pointers h₁ (ns.erase cur) (m₁ :: heads) := by
      unfold pointers
      congr 1
      apply List.map_congr_left
      intro i hi
      apply next_congr
      rw [hbody, if_neg]
      intro heq
      exact hs.nodup.not_mem_erase (heq ▸ hi)
    rw [hpointers]
    refine hs.counts.rewire [some cur] [] [] hperm.symm hrs (fun k => ?_)
      (fun k hk => absurd hk List.not_mem_nil) (fun k hk => absurd hk List.not_mem_nil)
      (Nat.le_of_eq hu.fresh.symm)
    have hcurcount : h.count cur = 1 := (count_eq hn).trans hcount
    have hfree : (h₁.free cur).count k = if k = cur then 0 else h.count k := by
      rw [← hu.count k, TagHeap.count, TagHeap.free, TagHeap.set_nodes]
      split_ifs <;> rfl
    rw [hfree]
    simp only [List.count_singleton, beq_iff_eq, Option.some.injEq, List.count_nil]
    split_ifs <;> subst_vars <;> omega
  · exact hs.chains_of hkeeps hpath₂ (by rw [hentries]; exact hf.tids_nodup_unlinked hn)

/-- `ReplaceWriter` before the first merge writes a tag of the stored size over the old one. -/
theorem replaceSingle_spec (hcount : n.count = 1) {tag : PacketTag}
    (hsize : tag.content.length = n.data.length) :
    ∃ h' m', replaceWriter tag true h m cur pre.getLast? = some (h', m', ()) ∧
      Yields h heads h' m' (entries h pre ++ (n.tid, tag.content) :: entries h post) := by
  have hs := hf.sound
  have hnodup := hf.path.nodup
  set h' := h.set cur (some { n with data := tag.content }) with hh'
  have hbody : ∀ i, h'.body i = if i = cur then some (n.next, n.tid, tag.content)
      else h.body i := TagHeap.body_set cur _
  have hcounts : ∀ i, h'.count i = h.count i := by
    intro i
    rw [hh', TagHeap.count_set]
    split_ifs with hi
    · rw [hi, count_eq hn]
    · rfl
  have hsome : ∀ i, (h'.body i).isSome = (h.body i).isSome := by
    intro i
    rw [hbody]
    split_ifs with hi
    · rw [hi, body_eq hn]
      rfl
    · rfl
  have hnext : ∀ i, h'.next i = h.next i := by
    intro i
    simp only [TagHeap.next, hbody]
    split_ifs with hi
    · rw [hi, body_eq hn]
      rfl
    · rfl
  have hother : ∀ i, i ≠ cur → h'.body i = h.body i := fun i hi => by rw [hbody, if_neg hi]
  have hpath : Path h' m (pre ++ cur :: post) :=
    hf.path.congr_next (fun i _ => hsome i) (fun i _ => hnext i)
  have hentries : entries h' (pre ++ cur :: post) =
      entries h pre ++ (n.tid, tag.content) :: entries h post := by
    have hcur : h'.body cur = some (n.next, n.tid, tag.content) := by rw [hbody, if_pos rfl]
    rw [entries_append, entries_cons hcur]
    congr 1
    · apply entries_congr
      intro i hi
      rw [hother i]
      rintro rfl
      exact (List.nodup_append.mp hnodup).2.2 i hi i List.mem_cons_self rfl
    · congr 1
      apply entries_congr
      intro i hi
      rw [hother i]
      rintro rfl
      exact (List.nodup_cons.mp (List.nodup_append.mp hnodup).2.1).1 hi
  have hfocus : Focus h ns heads m (pre ++ [cur]) post := by
    refine ⟨hs, by simpa using hf.path, fun j hj => ?_⟩
    rcases List.mem_append.mp hj with hj | hj
    · exact hf.single j hj
    · rw [List.mem_singleton.mp hj, count_eq hn, hcount]
  have hkeeps : Keeps h h' heads := by
    apply hfocus.keeps
    intro i _ hi
    exact hother i fun heq => hi (by simp [heq])
  refine ⟨h', m, ?_, ns, ⟨hs.nodup, fun k => ?_, hs.lt, ?_, ?_⟩, hkeeps, _, hpath, hentries⟩
  · have hwrite : serializeInto tag.content n.data = some tag.content := by
      unfold serializeInto
      rw [if_pos (Nat.le_of_eq hsize), hsize, List.drop_length, List.append_nil]
    simp only [replaceWriter, hn, hwrite, Option.bind_eq_bind, Option.bind_some, if_true]
    rfl
  · rw [hs.mem_iff, hsome]
  · have hpointers : pointers h' ns (m :: heads) = pointers h ns (m :: heads) := by
      unfold pointers
      congr 1
      exact List.map_congr_left fun i _ => hnext i
    rw [hpointers]
    exact hs.counts.congr hcounts
  · apply hs.chains_of hkeeps hpath
    rw [hentries]
    simpa using hf.tids_nodup hn

/-- `ReplaceWriter` behind a merge. -/
theorem replaceWriterShared_spec (hcount : 1 < n.count) {tag : PacketTag}
    (htid : tag.tid = n.tid) :
    ∃ h' m', replaceWriter tag false h m cur pre.getLast? = some (h', m', ()) ∧
      Yields h heads h' m' (entries h pre ++ (n.tid, tag.content) :: entries h post) := by
  obtain ⟨h₁, hset₁, hfresh₁, h₃, hlink, hprep⟩ := prepare_spec hf hn tag.content
  obtain ⟨h₄, m₄, hset₄, hfocus, hkeeps, hentries, -, -⟩ :=
    replaceShared_spec hf hn hcount hprep
  refine ⟨h₄, m₄, ?_, _, hfocus.sound, hkeeps, _, hfocus.path, ?_⟩
  · have halloc : (h₁.alloc ⟨n.next, 1, n.tid, tag.content⟩).2 = h.fresh := hfresh₁
    simp only [replaceWriter, hn, hset₁, Option.bind_eq_bind, Option.bind_some,
      Bool.false_eq_true, if_false, htid]
    cases hnx : n.next with
    | none =>
      rw [hnx] at hlink halloc
      simp only [] at hlink
      rw [Option.some.inj hlink, halloc]
      simp only [Option.bind_some, hset₄]
      rfl
    | some k =>
      rw [hnx] at hlink halloc
      simp only [] at hlink
      simp only [hlink, halloc, Option.bind_some, hset₄]
      rfl
  · rw [List.append_assoc]
    exact hentries

end Focused

/-! ### The traversal -/

/-- The nodes before `tid` are copied. -/
theorem copyUntil_spec (fuel : Nat) (hf : Focus h ns heads m pre (cur :: post))
    (hcount : 1 < h.count cur) (htid : ∃ k ∈ cur :: post, tidOf h k = some tid)
    (hfuel : (cur :: post).length ≤ fuel) :
    ∃ h' ns' m' pre' cur' post', copyUntil tid fuel h m pre.getLast? cur =
        some (h', m', pre'.getLast?, cur') ∧ Focus h' ns' heads m' pre' (cur' :: post') ∧
      1 < h'.count cur' ∧ tidOf h' cur' = some tid ∧ Keeps h h' heads ∧
      entries h' (pre' ++ cur' :: post') = entries h (pre ++ cur :: post) := by
  induction post generalizing h ns m pre cur fuel with
  | nil =>
    obtain ⟨n, hn, -⟩ := hf.path.tail.node
    obtain ⟨fuel, rfl⟩ := Nat.exists_eq_add_one.mpr (Nat.lt_of_lt_of_le (Nat.succ_pos _) hfuel)
    obtain ⟨k, hk, htidk⟩ := htid
    rw [List.mem_singleton.mp hk] at htidk
    have hntid : n.tid = tid := Option.some.inj ((tidOf_eq hn).symm.trans htidk)
    refine ⟨h, ns, m, pre, cur, [], ?_, hf, hcount, htidk, fun p _ ks hks => ⟨hks, rfl⟩, rfl⟩
    rw [copyUntil, hn, Option.bind_eq_bind, Option.bind_some, if_pos hntid]
    rfl
  | cons next post ih =>
    obtain ⟨n, hn, hrest⟩ := hf.path.tail.node
    obtain ⟨fuel, rfl⟩ := Nat.exists_eq_add_one.mpr (Nat.lt_of_lt_of_le (Nat.succ_pos _) hfuel)
    by_cases hntid : n.tid = tid
    · refine ⟨h, ns, m, pre, cur, next :: post, ?_, hf, hcount, by rw [tidOf_eq hn, hntid],
        fun p _ ks hks => ⟨hks, rfl⟩, rfl⟩
      rw [copyUntil, hn, Option.bind_eq_bind, Option.bind_some, if_pos hntid]
      rfl
    · have hnext : n.next = some next := hrest.1
      obtain ⟨h₁, hset₁, hfresh₁, h₃, hlink, hprep⟩ := prepare_spec hf hn n.data
      obtain ⟨h₄, m₄, hset₄, hfocus, hkeeps, hentries, htids, hcount₄⟩ :=
        replaceShared_spec hf hn (by rwa [count_eq hn] at hcount) hprep
      have htid' : ∃ k ∈ next :: post, tidOf h₄ k = some tid := by
        obtain ⟨k, hk, htidk⟩ := htid
        rcases List.mem_cons.mp hk with rfl | hk
        · exact absurd (Option.some.inj ((tidOf_eq hn).symm.trans htidk)) hntid
        · exact ⟨k, hk, by rwa [htids k (List.mem_append_right _ hk)]⟩
      obtain ⟨h', ns', m', pre', cur', post', hrun, hfocus', hcount', htid'', hkeeps', hent'⟩ :=
        ih fuel hfocus (hcount₄ next hnext) htid' (by simpa using hfuel)
      refine ⟨h', ns', m', pre', cur', post', ?_, hfocus', hcount', htid'', hkeeps.trans hkeeps',
        ?_⟩
      · have halloc : (h₁.alloc { n with count := 1 }).2 = h.fresh := hfresh₁
        rw [hnext] at hlink halloc
        rw [List.getLast?_concat] at hrun
        rw [copyUntil, hn, Option.bind_eq_bind, Option.bind_some, if_neg hntid]
        simp only [hset₁, hnext, Option.bind_some, Option.bind_eq_bind] at hlink ⊢
        simp only [hlink, halloc, hset₄, Option.bind_some]
        exact hrun
      · rw [hent', List.append_assoc, List.singleton_append, hentries, entries_focus hn]

end CudaNs3.Network.PacketTagList
