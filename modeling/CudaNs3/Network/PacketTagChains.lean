import CudaNs3.Lib.RefCount
import CudaNs3.Network.PacketTagList

/-!
# The nodes of packet tag lists

Every list is a chain of nodes. The nodes before the first merge belong to one list alone, so
that writing to them is seen by no other.
-/

namespace CudaNs3.Network.PacketTagList

set_option autoImplicit false

/-! ### Nodes without their counts -/

namespace TagHeap

variable (h : TagHeap)

/-- What a reader of a node sees. -/
def body (k : Nat) : Option (Option Nat × UInt16 × List UInt8) :=
  (h.nodes k).map fun n => (n.next, n.tid, n.data)

def next (k : Nat) : Option Nat := (h.body k).bind Prod.fst

def count (k : Nat) : Nat :=
  match h.nodes k with
  | some n => n.count
  | none => 0

variable {h} {h' : TagHeap} {k i : Nat} {n : TagData} {f : Nat → Nat}

theorem set_nodes (k : Nat) (n : Option TagData) (i : Nat) :
    (h.set k n).nodes i = if i = k then n else h.nodes i := rfl

@[simp] theorem set_fresh (k : Nat) (n : Option TagData) : (h.set k n).fresh = h.fresh := rfl

theorem body_set (k : Nat) (n : Option TagData) (i : Nat) : (h.set k n).body i =
    if i = k then n.map fun n => (n.next, n.tid, n.data) else h.body i := by
  unfold body
  rw [set_nodes]
  split_ifs <;> rfl

theorem count_set (k : Nat) (n : TagData) (i : Nat) : (h.set k (some n)).count i =
    if i = k then n.count else h.count i := by
  unfold count
  rw [set_nodes]
  split_ifs <;> rfl

theorem setCount_spec (hn : h.nodes k = some n) (f : Nat → Nat) :
    ∃ h', h.setCount k f = some h' ∧ h'.fresh = h.fresh ∧ (∀ i, h'.body i = h.body i) ∧
      ∀ i, h'.count i = if i = k then f (h.count k) else h.count i := by
  refine ⟨h.set k (some { n with count := f n.count }), ?_, rfl, fun i => ?_, fun i => ?_⟩
  · rw [setCount, hn]
    rfl
  · rw [body_set]
    split_ifs with hi
    · rw [hi, body, hn]
      rfl
    · rfl
  · have hcount : h.count k = n.count := by rw [count, hn]
    rw [count_set, hcount]

theorem body_alloc (n : TagData) (i : Nat) : (h.alloc n).1.body i =
    if i = h.fresh then some (n.next, n.tid, n.data) else h.body i := body_set _ _ _

theorem count_alloc (n : TagData) (i : Nat) : (h.alloc n).1.count i =
    if i = h.fresh then n.count else h.count i := count_set _ _ _

theorem isSome_body : (h.body k).isSome ↔ ∃ n, h.nodes k = some n := by
  unfold body
  rw [Option.isSome_map, Option.isSome_iff_exists]

end TagHeap

/-! ### Chains -/

/-- The nodes that are met from `p` on. -/
def Path (h : TagHeap) : Option Nat → List Nat → Prop
  | p, [] => p = none
  | p, k :: ks => p = some k ∧ (h.body k).isSome ∧ Path h (h.next k) ks

/-- The types and contents of the nodes. -/
def entries (h : TagHeap) (ks : List Nat) : List (UInt16 × List UInt8) :=
  ks.filterMap fun k => (h.body k).map Prod.snd

variable {h h' : TagHeap} {p q m : Option Nat} {k i : Nat} {ks ls pre post ns : List Nat}
  {heads : List (Option Nat)}

theorem next_congr (hb : h'.body k = h.body k) : h'.next k = h.next k := by
  unfold TagHeap.next
  rw [hb]

theorem Path.congr_next (hp : Path h p ks)
    (hsome : ∀ k ∈ ks, (h'.body k).isSome = (h.body k).isSome)
    (hnext : ∀ k ∈ ks, h'.next k = h.next k) : Path h' p ks := by
  induction ks generalizing p with
  | nil => exact hp
  | cons k ks ih =>
    obtain ⟨heq, hk, hrest⟩ := hp
    refine ⟨heq, by rwa [hsome k List.mem_cons_self], ?_⟩
    rw [hnext k List.mem_cons_self]
    exact ih hrest (fun i hi => hsome i (List.mem_cons_of_mem k hi))
      fun i hi => hnext i (List.mem_cons_of_mem k hi)

theorem Path.congr (hp : Path h p ks) (hb : ∀ k ∈ ks, h'.body k = h.body k) : Path h' p ks :=
  hp.congr_next (fun k hk => by rw [hb k hk]) fun k hk => next_congr (hb k hk)

theorem entries_congr
    (hb : ∀ k ∈ ks, (h'.body k).map Prod.snd = (h.body k).map Prod.snd) :
    entries h' ks = entries h ks := List.filterMap_congr hb

theorem entries_append (h : TagHeap) (ks ls : List Nat) :
    entries h (ks ++ ls) = entries h ks ++ entries h ls := List.filterMap_append

theorem entries_cons {b : Option Nat × UInt16 × List UInt8} (hb : h.body k = some b) :
    entries h (k :: ks) = b.2 :: entries h ks := by
  rw [entries, List.filterMap_cons_some (b := b.2) (by rw [hb]; rfl)]
  rfl

theorem Path.unique (hk : Path h p ks) (hl : Path h p ls) : ks = ls := by
  induction ks generalizing p ls with
  | nil =>
    cases ls with
    | nil => rfl
    | cons l ls => exact absurd (hk.symm.trans hl.1) (by simp)
  | cons k ks ih =>
    cases ls with
    | nil => exact absurd (hl.symm.trans hk.1) (by simp)
    | cons l ls =>
      obtain rfl : k = l := Option.some.inj (hk.1.symm.trans hl.1)
      rw [ih hk.2.2 hl.2.2]

/-- The chain behind a node of it. -/
theorem Path.tail (hp : Path h p (pre ++ k :: post)) : Path h (some k) (k :: post) := by
  induction pre generalizing p with
  | nil => exact ⟨rfl, hp.2⟩
  | cons j pre ih => exact ih hp.2.2

theorem Path.nodup (hp : Path h p ks) : ks.Nodup := by
  induction ks generalizing p with
  | nil => exact List.nodup_nil
  | cons k ks ih =>
    apply List.nodup_cons.mpr
    refine ⟨fun hk => ?_, ih hp.2.2⟩
    -- a second `k` would be followed by a longer chain than the first
    obtain ⟨pre, post, rfl⟩ := List.append_of_mem hk
    have hfirst : Path h (some k) (k :: (pre ++ k :: post)) := ⟨rfl, hp.2⟩
    have hlength := congrArg List.length (hfirst.unique hp.2.2.tail)
    simp only [List.length_cons, List.length_append] at hlength
    omega

theorem Path.mem_next (hp : Path h p ks) (hk : k ∈ ks) :
    p = some k ∨ ∃ i ∈ ks, h.next i = some k := by
  induction ks generalizing p with
  | nil => cases hk
  | cons j ks ih =>
    rcases List.mem_cons.mp hk with rfl | hk
    · exact .inl hp.1
    · right
      rcases ih hp.2.2 hk with hnext | ⟨i, hi, hnext⟩
      · exact ⟨j, List.mem_cons_self, hnext⟩
      · exact ⟨i, List.mem_cons_of_mem j hi, hnext⟩

theorem Path.isSome (hp : Path h p ks) (hk : k ∈ ks) : (h.body k).isSome := by
  induction ks generalizing p with
  | nil => cases hk
  | cons j ks ih =>
    rcases List.mem_cons.mp hk with rfl | hk
    · exact hp.2.1
    · exact ih hp.2.2 hk

/-! ### The invariant -/

/-- The pointers of the lists and of the nodes. -/
def pointers (h : TagHeap) (ns : List Nat) (heads : List (Option Nat)) : List (Option Nat) :=
  heads ++ ns.map h.next

/-- `ns` are the nodes there are, and `heads` the first pointers of the lists. -/
structure Sound (h : TagHeap) (ns : List Nat) (heads : List (Option Nat)) : Prop where
  nodup : ns.Nodup
  mem_iff : ∀ k, k ∈ ns ↔ (h.body k).isSome
  lt : ∀ k ∈ ns, k < h.fresh
  counts : RefCount.Counts h.count h.fresh (pointers h ns heads)
  chains : ∀ p ∈ heads, ∃ ks, Path h p ks ∧ ((entries h ks).map Prod.fst).Nodup

/-- `ks` is what the lists other than the one at hand see of the heap. -/
def Unseen (h : TagHeap) (heads : List (Option Nat)) (j : Nat) : Prop :=
  ∀ p ∈ heads, ∀ ks, Path h p ks → j ∉ ks

theorem Sound.length_le (hs : Sound h ns heads) (hp : Path h p ks) : ks.length ≤ h.fresh := by
  have hsub : ks ⊆ List.range h.fresh := by
    intro k hk
    exact List.mem_range.mpr (hs.lt k ((hs.mem_iff k).mpr (hp.isSome hk)))
  simpa using (hp.nodup.subperm hsub).length_le

theorem Sound.perm {heads' : List (Option Nat)} (hs : Sound h ns heads)
    (hp : heads.Perm heads') : Sound h ns heads' :=
  ⟨hs.nodup, hs.mem_iff, hs.lt, hs.counts.perm (hp.append_right _),
    fun p hmem => hs.chains p (hp.mem_iff.mpr hmem)⟩

theorem Sound.mem_of_path (hs : Sound h ns heads) (hp : Path h p ks) (hk : k ∈ ks) : k ∈ ns :=
  (hs.mem_iff k).mpr (hp.isSome hk)

/-! ### The pointer in front of a node -/

/-- The pointer that `prevNext` points to. -/
def slot (h : TagHeap) (m : Option Nat) : Option Nat → Option Nat
  | none => m
  | some j => h.next j

/-- The other pointers. -/
def slotRest (h : TagHeap) (ns : List Nat) (heads : List (Option Nat)) (m : Option Nat) :
    Option Nat → List (Option Nat)
  | none => pointers h ns heads
  | some j => pointers h (ns.erase j) (m :: heads)

theorem pointers_erase (h : TagHeap) (heads : List (Option Nat)) (hk : k ∈ ns) :
    (pointers h ns heads).Perm (h.next k :: pointers h (ns.erase k) heads) := by
  have hmap := (List.perm_cons_erase hk).map h.next
  exact (hmap.append_left heads).trans List.perm_middle

variable (heads) in
theorem slot_perm (prevNext : Option Nat) (hj : ∀ j, prevNext = some j → j ∈ ns) :
    (pointers h ns (m :: heads)).Perm (slot h m prevNext :: slotRest h ns heads m prevNext) := by
  cases prevNext with
  | none => exact List.Perm.refl _
  | some j => exact pointers_erase h (m :: heads) (hj j rfl)

variable (heads) in
theorem setNext_spec (prevNext : Option Nat) (q : Option Nat) (hns : ns.Nodup)
    (hj : ∀ j, prevNext = some j → j ∈ ns ∧ (h.body j).isSome) :
    ∃ h' m', setNext h m prevNext q = some (h', m') ∧ h'.fresh = h.fresh ∧
      (∀ i, h'.count i = h.count i) ∧ (∀ i, prevNext ≠ some i → h'.body i = h.body i) ∧
      (∀ i, (h'.body i).map Prod.snd = (h.body i).map Prod.snd) ∧
      slot h' m' prevNext = q ∧ slotRest h' ns heads m' prevNext = slotRest h ns heads m prevNext ∧
      (prevNext ≠ none → m' = m) := by
  cases prevNext with
  | none =>
    exact ⟨h, q, rfl, rfl, fun _ => rfl, fun _ _ => rfl, fun _ => rfl, rfl, rfl, fun hne =>
      absurd rfl hne⟩
  | some j =>
    obtain ⟨hmem, hsome⟩ := hj j rfl
    obtain ⟨n, hn⟩ := TagHeap.isSome_body.mp hsome
    have hbody : h.body j = some (n.next, n.tid, n.data) := by rw [TagHeap.body, hn]; rfl
    have hset : ∀ i, (h.set j (some { n with next := q })).body i =
        if i = j then some (q, n.tid, n.data) else h.body i := TagHeap.body_set _ _
    refine ⟨h.set j (some { n with next := q }), m, ?_, rfl, fun i => ?_, fun i hi => ?_,
      fun i => ?_, ?_, ?_, fun _ => rfl⟩
    · rw [setNext, hn]
      rfl
    · rw [TagHeap.count_set]
      split_ifs with hi
      · rw [hi, TagHeap.count, hn]
      · rfl
    · rw [hset, if_neg (fun h => hi (by rw [h]))]
    · rw [hset]
      split_ifs with hi
      · rw [hi, hbody]
        rfl
      · rfl
    · rw [slot, TagHeap.next, hset, if_pos rfl]
      rfl
    · simp only [slotRest, pointers]
      congr 1
      apply List.map_congr_left
      intro i hi
      apply next_congr
      rw [hset, if_neg]
      intro heq
      exact hns.not_mem_erase (heq ▸ hi)

/-! ### Before the first merge -/

/-- The nodes of `pre` belong to the list alone. -/
structure Focus (h : TagHeap) (ns : List Nat) (heads : List (Option Nat)) (m : Option Nat)
    (pre post : List Nat) : Prop where
  sound : Sound h ns (m :: heads)
  path : Path h m (pre ++ post)
  single : ∀ j ∈ pre, h.count j = 1

theorem Focus.unseen (hf : Focus h ns heads m pre post) : ∀ j ∈ pre, Unseen h heads j := by
  obtain ⟨hs, hpath, hsingle⟩ := hf
  induction pre using List.reverseRecOn generalizing post with
  | nil => simp
  | append_singleton pre j ih =>
    rw [List.append_assoc] at hpath
    have hpre := ih hpath fun i hi => hsingle i (List.mem_append_left _ hi)
    have hone := hsingle j (by simp)
    intro i hi
    rcases List.mem_append.mp hi with hi | hi
    · exact hpre i hi
    rw [List.mem_singleton.mp hi]
    intro p hp ks hks hj
    have hcounts := hs.counts
    rcases List.eq_nil_or_concat pre with rfl | ⟨pre', k, rfl⟩
    · -- the only pointer is the one of the list
      obtain rfl : m = some j := hpath.1
      have halone : some j ∉ heads ++ ns.map h.next := hcounts.alone hone
      rcases hks.mem_next hj with rfl | ⟨i, hi, hnext⟩
      · exact halone (List.mem_append_left _ hp)
      · have hmem := List.mem_map_of_mem (f := h.next) (hs.mem_of_path hks hi)
        rw [hnext] at hmem
        exact halone (List.mem_append_right _ hmem)
    · -- the only pointer is the one of the node before, which is unseen
      rw [List.concat_eq_append, List.append_assoc] at hpath
      have hk : h.next k = some j := hpath.tail.2.2.1
      have hkns : k ∈ ns := hs.mem_of_path hpath (by simp)
      have hperm := pointers_erase h (m :: heads) hkns
      rw [hk] at hperm
      have halone := (hcounts.perm hperm).alone hone
      rcases hks.mem_next hj with rfl | ⟨i, hi, hnext⟩
      · exact halone (List.mem_append_left _ (List.mem_cons_of_mem m hp))
      · have hik : i ≠ k := by
          intro heq
          exact hpre k (by simp) p hp ks hks (heq ▸ hi)
        have hmem := List.mem_map_of_mem (f := h.next)
          ((List.mem_erase_of_ne hik).mpr (hs.mem_of_path hks hi))
        rw [hnext] at hmem
        exact halone (List.mem_append_right _ hmem)

/-- The lists see what they saw. -/
def Keeps (h h' : TagHeap) (heads : List (Option Nat)) : Prop :=
  ∀ p ∈ heads, ∀ ks, Path h p ks → Path h' p ks ∧ entries h' ks = entries h ks

theorem Keeps.trans {h'' : TagHeap} (h₁ : Keeps h h' heads) (h₂ : Keeps h' h'' heads) :
    Keeps h h'' heads := by
  intro p hp ks hks
  obtain ⟨hpath, hentries⟩ := h₁ p hp ks hks
  obtain ⟨hpath', hentries'⟩ := h₂ p hp ks hpath
  exact ⟨hpath', hentries'.trans hentries⟩

theorem Focus.keeps (hf : Focus h ns heads m pre post)
    (hb : ∀ i ∈ ns, i ∉ pre → h'.body i = h.body i) : Keeps h h' heads := by
  intro p hp ks hks
  have hsame : ∀ i ∈ ks, h'.body i = h.body i := by
    intro i hi
    apply hb i
    · exact (hf.sound.mem_iff i).mpr (hks.isSome hi)
    · exact fun hpre => hf.unseen i hpre p hp ks hks hi
  exact ⟨hks.congr hsame, entries_congr fun i hi => by rw [hsame i hi]⟩

/-- The chain of the list after its last pointer before `post` has been set. -/
theorem Path.splice {m' : Option Nat} {ks' : List Nat} (hp : Path h m (pre ++ ks))
    (hrest : Path h' q ks') (hslot : slot h' m' pre.getLast? = q) (hm : pre ≠ [] → m' = m)
    (hb : ∀ i, pre.getLast? ≠ some i → i ∈ pre → h'.body i = h.body i)
    (hsome : ∀ i ∈ pre, (h'.body i).isSome) : Path h' m' (pre ++ ks') := by
  induction pre generalizing m m' with
  | nil =>
    obtain rfl : m' = q := hslot
    exact hrest
  | cons j pre ih =>
    have hnodup := hp.nodup
    obtain ⟨hj, -, hpath⟩ := hp
    refine ⟨(hm (by simp)).trans hj, hsome j List.mem_cons_self, ?_⟩
    cases pre with
    | nil =>
      obtain rfl : h'.next j = q := hslot
      exact hrest
    | cons j' pre =>
      have hne : (j :: j' :: pre).getLast? ≠ some j := by
        intro heq
        rw [List.getLast?_cons_cons] at heq
        have hmem : j ∈ j' :: pre := List.mem_of_getLast? heq
        exact (List.nodup_cons.mp hnodup).1 (List.mem_append_left _ hmem)
      have hnext := next_congr (hb j hne List.mem_cons_self)
      have hslot' : slot h' (h'.next j) (j' :: pre).getLast? = q := by
        rw [List.getLast?_cons_cons] at hslot
        rw [List.getLast?_cons] at hslot ⊢
        exact hslot
      apply ih hpath hslot' (fun _ => hnext)
      · intro i hi hmem
        exact hb i hi (List.mem_cons_of_mem j hmem)
      · intro i hi
        exact hsome i (List.mem_cons_of_mem j hi)

theorem Sound.count_pos (hs : Sound h ns heads) (hp : p ∈ heads) (hks : Path h p ks)
    (hk : k ∈ ks) : 0 < h.count k := by
  apply hs.counts.pos
  rcases hks.mem_next hk with rfl | ⟨i, hi, hnext⟩
  · exact List.mem_append_left _ hp
  · apply List.mem_append_right
    rw [← hnext]
    exact List.mem_map_of_mem (hs.mem_of_path hks hi)

/-! ### Looking for a type -/

def tidOf (h : TagHeap) (k : Nat) : Option UInt16 := (h.body k).map fun b => b.2.1

theorem body_eq {n : TagData} (hn : h.nodes k = some n) :
    h.body k = some (n.next, n.tid, n.data) := by
  rw [TagHeap.body, hn]
  rfl

theorem Path.node (hp : Path h p (k :: ks)) : ∃ n, h.nodes k = some n ∧ Path h n.next ks := by
  obtain ⟨-, hsome, hrest⟩ := hp
  obtain ⟨n, hn⟩ := TagHeap.isSome_body.mp hsome
  refine ⟨n, hn, ?_⟩
  rwa [TagHeap.next, body_eq hn] at hrest

theorem find_spec (tid : UInt16) (fuel : Nat) (hp : Path h p ks) (hfuel : ks.length ≤ fuel) :
    ∃ r, find h tid fuel p = some r ∧ r.map TagData.data = (entries h ks).lookup tid := by
  induction ks generalizing p fuel with
  | nil =>
    obtain rfl : p = none := hp
    cases fuel <;> exact ⟨none, rfl, rfl⟩
  | cons k ks ih =>
    obtain ⟨n, hn, hrest⟩ := hp.node
    obtain rfl := hp.1
    obtain ⟨fuel, rfl⟩ := Nat.exists_eq_add_one.mpr (Nat.lt_of_lt_of_le (Nat.succ_pos _) hfuel)
    rw [entries_cons (body_eq hn), find, hn, List.lookup_cons]
    by_cases htid : n.tid = tid
    · refine ⟨some n, ?_, ?_⟩
      · simp [htid]
      · simp [htid]
    · obtain ⟨r, hr, hdata⟩ := ih fuel hrest (by simpa using hfuel)
      have hne : (tid == n.tid) = false := by
        apply beq_eq_false_iff_ne.mpr
        exact fun heq => htid heq.symm
      refine ⟨r, ?_, ?_⟩
      · simpa [htid] using hr
      · simp only [hne]
        exact hdata

/-- The nodes before the place where the search ends have no merge and another type. -/
def Passed (h : TagHeap) (tid : UInt16) (pre : List Nat) : Prop :=
  ∀ j ∈ pre, h.count j ≤ 1 ∧ tidOf h j ≠ some tid

def SearchResult (h : TagHeap) (tid : UInt16) (prevNext : Option Nat) (ks : List Nat) :
    Option Stop → Prop
  | some .ended => Passed h tid ks
  | some (.found pn cur) => ∃ pre post, ks = pre ++ cur :: post ∧ pn = pre.getLast?.or prevNext ∧
    Passed h tid pre ∧ h.count cur ≤ 1 ∧ tidOf h cur = some tid
  | some (.merge pn cur) => ∃ pre post, ks = pre ++ cur :: post ∧ pn = pre.getLast?.or prevNext ∧
    Passed h tid pre ∧ 1 < h.count cur
  | none => False

theorem search_spec (tid : UInt16) (fuel : Nat) (prevNext : Option Nat) (hp : Path h p ks)
    (hfuel : ks.length ≤ fuel) :
    SearchResult h tid prevNext ks (search h tid fuel prevNext p) := by
  induction ks generalizing p fuel prevNext with
  | nil =>
    obtain rfl : p = none := hp
    have hended : search h tid fuel prevNext none = some .ended := by
      cases fuel <;> rfl
    rw [hended]
    intro j hj
    cases hj
  | cons k ks ih =>
    obtain ⟨n, hn, hrest⟩ := hp.node
    obtain rfl := hp.1
    obtain ⟨fuel, rfl⟩ := Nat.exists_eq_add_one.mpr (Nat.lt_of_lt_of_le (Nat.succ_pos _) hfuel)
    have hcount : h.count k = n.count := by rw [TagHeap.count, hn]
    have htidk : tidOf h k = some n.tid := by
      rw [tidOf, body_eq hn]
      rfl
    rw [search, hn, Option.bind_eq_bind, Option.bind_some]
    have hnil : Passed h tid [] := fun j hj => absurd hj List.not_mem_nil
    by_cases hmerge : 1 < n.count
    · rw [if_pos hmerge]
      exact ⟨[], ks, rfl, rfl, hnil, by rwa [hcount]⟩
    rw [if_neg hmerge]
    by_cases htid : n.tid = tid
    · rw [if_pos htid]
      exact ⟨[], ks, rfl, rfl, hnil, by omega, by rw [htidk, htid]⟩
    rw [if_neg htid]
    have hpassed : ∀ pre, Passed h tid pre → Passed h tid (k :: pre) := by
      intro pre hpre j hj
      rcases List.mem_cons.mp hj with rfl | hj
      · refine ⟨by omega, ?_⟩
        rw [htidk]
        exact fun heq => htid (Option.some.inj heq)
      · exact hpre j hj
    have hlast : ∀ pre : List Nat, (k :: pre).getLast?.or prevNext = pre.getLast?.or (some k) := by
      intro pre
      rw [List.getLast?_cons]
      cases pre.getLast? <;> rfl
    have hsearch := ih fuel (some k) hrest (by simpa using hfuel)
    rcases hstop : search h tid fuel (some k) n.next with _ | _ | ⟨pn, cur⟩ | ⟨pn, cur⟩ <;>
      rw [hstop] at hsearch
    · exact hsearch
    · exact hpassed ks hsearch
    · obtain ⟨pre, post, rfl, rfl, hpre, hcur⟩ := hsearch
      exact ⟨k :: pre, post, rfl, (hlast pre).symm, hpassed pre hpre, hcur⟩
    · obtain ⟨pre, post, rfl, rfl, hpre, hcur⟩ := hsearch
      exact ⟨k :: pre, post, rfl, (hlast pre).symm, hpassed pre hpre, hcur⟩

end CudaNs3.Network.PacketTagList
