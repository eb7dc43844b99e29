import CudaNs3.Lib.Handles
import CudaNs3.Lib.Transition
import CudaNs3.Network.PacketTagWriters

/-!
# Packet tag lists as maps

Any number of packet tag lists, next to the maps from types to contents that they stand for.
-/

namespace CudaNs3.Network.PacketTagList

set_option autoImplicit false

variable {h h' : TagHeap} {m o p : Option Nat} {k : Nat} {ks ns : List Nat}
  {heads : List (Option Nat)} {n : TagData} {tid : UInt16}

/-! ### Entries as maps -/

section Lookup

variable {β : Type} {pre post : List (UInt16 × β)} {d : β} {t : UInt16}

theorem isSome_lookup : (pre.lookup t).isSome ↔ t ∈ pre.map Prod.fst := by
  rw [List.lookup_isSome_iff, List.mem_map]
  constructor
  · rintro ⟨e, he, heq⟩
    exact ⟨e, he, (beq_iff_eq.mp heq).symm⟩
  · rintro ⟨e, he, heq⟩
    exact ⟨e, he, beq_iff_eq.mpr heq.symm⟩

theorem lookup_eq_none (ht : t ∉ pre.map Prod.fst) : pre.lookup t = none := by
  rw [← Option.not_isSome_iff_eq_none, isSome_lookup]
  exact ht

theorem lookup_middle (d' : β)
    (hnd : ((pre ++ (tid, d) :: post).map Prod.fst).Nodup) (t : UInt16) :
    (pre ++ (tid, d') :: post).lookup t =
      if t = tid then some d' else (pre ++ (tid, d) :: post).lookup t := by
  have hpre : tid ∉ pre.map Prod.fst := by
    intro hmem
    rw [List.map_append, List.nodup_append] at hnd
    exact hnd.2.2 tid hmem tid (by simp) rfl
  rw [List.lookup_append, List.lookup_append, List.lookup_cons, List.lookup_cons]
  split_ifs with ht
  · rw [ht, lookup_eq_none hpre]
    simp
  · rw [beq_eq_false_iff_ne.mpr ht]

theorem lookup_erased (hnd : ((pre ++ (tid, d) :: post).map Prod.fst).Nodup) (t : UInt16) :
    (pre ++ post).lookup t = if t = tid then none else (pre ++ (tid, d) :: post).lookup t := by
  rw [List.map_append, List.map_cons, List.nodup_append, List.nodup_cons] at hnd
  rw [List.lookup_append, List.lookup_append, List.lookup_cons]
  split_ifs with ht
  · rw [ht, lookup_eq_none fun hmem => hnd.2.2 tid hmem tid (by simp) rfl,
      lookup_eq_none hnd.2.1.1]
    rfl
  · rw [beq_eq_false_iff_ne.mpr ht]

end Lookup

/-! ### The operations on one list -/

theorem mem_tids_iff : tid ∈ (entries h ks).map Prod.fst ↔ ∃ k ∈ ks, tidOf h k = some tid := by
  simp only [entries, List.mem_map, List.mem_filterMap, tidOf, Option.map_eq_some_iff]
  constructor
  · rintro ⟨e, ⟨k, hk, b, hb, rfl⟩, htid⟩
    exact ⟨k, hk, b, hb, htid⟩
  · rintro ⟨k, hk, b, hb, htid⟩
    exact ⟨b.2, ⟨k, hk, b, hb, rfl⟩, htid⟩

variable (tid) in
/-- What the traversal does before it calls the writer. -/
theorem cowTraverse_spec {α : Type} (writer : COWWriter α) (hs : Sound h ns (m :: heads))
    (hp : Path h m ks) :
    (tid ∉ (entries h ks).map Prod.fst ∧ cowTraverse h m tid writer = some (h, m, none)) ∨
    ∃ (preMerge : Bool) (h' : TagHeap) (m' : Option Nat) (ns' : List Nat) (pre : List Nat)
      (cur : Nat) (post : List Nat) (n : TagData),
      Focus h' ns' heads m' pre (cur :: post) ∧ h'.nodes cur = some n ∧ n.tid = tid ∧
      Keeps h h' heads ∧ entries h' (pre ++ cur :: post) = entries h ks ∧
      (if preMerge then n.count = 1 ∧ h' = h ∧
        search h tid h.fresh none m = some (.found pre.getLast? cur) else 1 < n.count) ∧
      cowTraverse h m tid writer =
        (writer preMerge h' m' cur pre.getLast?).map fun r => (r.1, r.2.1, some r.2.2) := by
  have hsearch := search_spec tid h.fresh none hp (hs.length_le hp)
  have hmem : m ∈ m :: heads := List.mem_cons_self
  rcases hstop : search h tid h.fresh none m with _ | _ | ⟨pn, cur⟩ | ⟨pn, cur⟩ <;>
    rw [hstop] at hsearch
  · exact absurd hsearch id
  · left
    refine ⟨fun ht => ?_, ?_⟩
    · obtain ⟨k, hk, htid⟩ := mem_tids_iff.mp ht
      exact (hsearch k hk).2 htid
    · rw [cowTraverse, hstop]
      rfl
  · right
    obtain ⟨pre, post, rfl, hpn, hpre, hcount, htid⟩ := hsearch
    rw [Option.or_none] at hpn
    obtain ⟨n, hn, -⟩ := hp.tail.node
    have hpos := hs.count_pos hmem hp (k := cur) (by simp)
    have hone : ∀ j ∈ pre, h.count j = 1 := fun j hj => by
      have := hs.count_pos hmem hp (k := j) (by simp [hj])
      have := (hpre j hj).1
      omega
    rw [count_eq hn] at hcount hpos
    refine ⟨true, h, m, ns, pre, cur, post, n, ⟨hs, hp, hone⟩, hn,
      Option.some.inj ((tidOf_eq hn).symm.trans htid), fun p _ ks hks => ⟨hks, rfl⟩, rfl,
      ⟨by omega, rfl, by rw [hpn]⟩, ?_⟩
    rw [cowTraverse, hstop, hpn]
    simp only [Option.bind_eq_bind, Option.bind_some]
    cases writer true h m cur pre.getLast? <;> rfl
  · obtain ⟨pre, post, rfl, hpn, hpre, hcount⟩ := hsearch
    rw [Option.or_none] at hpn
    have htail := hp.tail
    obtain ⟨r, hr, hdata⟩ := find_spec tid h.fresh htail (by
      have := hs.length_le hp
      rw [List.length_append] at this
      omega)
    have hone : ∀ j ∈ pre, h.count j = 1 := fun j hj => by
      have := hs.count_pos hmem hp (k := j) (by simp [hj])
      have := (hpre j hj).1
      omega
    have hrun : cowTraverse h m tid writer = match r with
        | none => some (h, m, none)
        | some _ => (copyUntil tid h.fresh h m pn cur).bind fun s =>
          (writer false s.1 s.2.1 s.2.2.2 s.2.2.1).map fun r => (r.1, r.2.1, some r.2.2) := by
      rw [cowTraverse, hstop]
      simp only [Option.bind_eq_bind, Option.bind_some, hr]
      cases r with
      | none => rfl
      | some _ =>
        simp only
        congr 1
        funext s
        cases writer false s.1 s.2.1 s.2.2.2 s.2.2.1 <;> rfl
    cases r with
    | none =>
      left
      refine ⟨fun ht => ?_, hrun⟩
      obtain ⟨k, hk, htid⟩ := mem_tids_iff.mp ht
      rcases List.mem_append.mp hk with hk | hk
      · exact (hpre k hk).2 htid
      · have hmem := mem_tids_iff.mpr ⟨k, hk, htid⟩
        rw [← isSome_lookup, ← hdata] at hmem
        cases hmem
    | some r =>
      right
      have hcur : ∃ k ∈ cur :: post, tidOf h k = some tid := by
        apply mem_tids_iff.mp
        rw [← isSome_lookup, ← hdata]
        rfl
      obtain ⟨h', ns', m', pre', cur', post', hcopy, hfocus, hcount', htid, hkeeps, hent⟩ :=
        copyUntil_spec h.fresh ⟨hs, hp, hone⟩ hcount hcur (by
          have := hs.length_le hp
          rw [List.length_append] at this
          omega)
      obtain ⟨n, hn, -⟩ := hfocus.path.tail.node
      rw [count_eq hn] at hcount'
      refine ⟨false, h', m', ns', pre', cur', post', n, hfocus, hn,
        Option.some.inj ((tidOf_eq hn).symm.trans htid), hkeeps, hent, by simpa using hcount', ?_⟩
      rw [hrun, hpn, hcopy]
      rfl

theorem Sound.yields_self (hs : Sound h ns (m :: heads)) (hp : Path h m ks) :
    Yields h heads h m (entries h ks) := ⟨ns, hs, fun _ _ _ hks => ⟨hks, rfl⟩, ks, hp, rfl⟩

theorem Yields.of_keeps {h'' : TagHeap} {m' : Option Nat} {es : List (UInt16 × List UInt8)}
    (hy : Yields h' heads h'' m' es) (hk : Keeps h h' heads) : Yields h heads h'' m' es := by
  obtain ⟨ns, hs, hk', ks, hp, hes⟩ := hy
  exact ⟨ns, hs, hk.trans hk', ks, hp, hes⟩

variable (tid) in
theorem remove_spec (hs : Sound h ns (m :: heads)) (hp : Path h m ks) :
    ∃ h' m' es, remove h m tid = some (h', m', (entries h ks).lookup tid) ∧
      Yields h heads h' m' es ∧
      ∀ t, es.lookup t = if t = tid then none else (entries h ks).lookup t := by
  rcases cowTraverse_spec tid removeWriter hs hp with ⟨htid, hrun⟩ |
    ⟨preMerge, h₁, m₁, ns₁, pre, cur, post, n, hfocus, hn, htid, hkeeps, hent, hcase, hrun⟩
  · refine ⟨h, m, _, ?_, hs.yields_self hp, fun t => ?_⟩
    · rw [remove, hrun, lookup_eq_none htid]
    · split_ifs with ht
      · rw [ht, lookup_eq_none htid]
      · rfl
  · have hnd := hfocus.tids_nodup hn
    have hlist : entries h ks = entries h₁ pre ++ (n.tid, n.data) :: entries h₁ post := by
      rw [← hent, entries_focus hn]
    have hfound : (entries h ks).lookup tid = some n.data := by
      have hmiddle := lookup_middle n.data hnd tid
      rwa [if_pos htid.symm, ← hlist] at hmiddle
    obtain ⟨h', m', hwriter, hy⟩ : ∃ h' m', removeWriter preMerge h₁ m₁ cur pre.getLast? =
        some (h', m', n.data) ∧ Yields h₁ heads h' m' (entries h₁ pre ++ entries h₁ post) := by
      cases preMerge with
      | true => exact removeSingle_spec hfocus hn hcase.1
      | false => exact removeShared_spec hfocus hn (by simpa using hcase)
    refine ⟨h', m', _, ?_, hy.of_keeps hkeeps, fun t => ?_⟩
    · rw [remove, hrun, hwriter, hfound]
      rfl
    · rw [lookup_erased hnd, hlist, htid]

/-- The size of the node that `Replace` writes to, when it is found before the first merge. -/
def rewrittenSize (h : TagHeap) (m : Option Nat) (tid : UInt16) : Option Nat :=
  match search h tid h.fresh none m with
  | some (.found _ cur) => (h.nodes cur).map fun n => n.data.length
  | _ => none

theorem add_spec {tag : PacketTag} (hs : Sound h ns (m :: heads)) (hp : Path h m ks)
    (htid : tag.tid ∉ (entries h ks).map Prod.fst) :
    ∃ h' m', add h m tag = some (h', m') ∧
      Yields h heads h' m' ((tag.tid, tag.content) :: entries h ks) := by
  obtain ⟨r, hr, hdata⟩ := find_spec tag.tid h.fresh hp (hs.length_le hp)
  rw [lookup_eq_none htid] at hdata
  obtain rfl := Option.map_eq_none_iff.mp hdata
  have hfresh : h.fresh ∉ ns := fun hmem => Nat.lt_irrefl _ (hs.lt _ hmem)
  set h' := (h.alloc ⟨m, 1, tag.tid, tag.content⟩).1 with hh'
  have hbody : ∀ i, h'.body i = if i = h.fresh then some (m, tag.tid, tag.content)
      else h.body i := TagHeap.body_alloc _
  have hold : ∀ i ∈ ns, h'.body i = h.body i := fun i hi => by
    rw [hbody, if_neg (Nat.ne_of_lt (hs.lt i hi))]
  have hnew : h'.body h.fresh = some (m, tag.tid, tag.content) := by rw [hbody, if_pos rfl]
  have hkeeps : Keeps h h' (m :: heads) := by
    intro p _ ks hks
    have hsame : ∀ i ∈ ks, h'.body i = h.body i := fun i hi => hold i (hs.mem_of_path hks hi)
    exact ⟨hks.congr hsame, entries_congr fun i hi => by rw [hsame i hi]⟩
  obtain ⟨hp', hes⟩ := hkeeps m List.mem_cons_self ks hp
  have hnext : h'.next h.fresh = m := by
    rw [TagHeap.next, hnew]
    rfl
  have hpath : Path h' (some h.fresh) (h.fresh :: ks) := ⟨rfl, by rw [hnew]; rfl, hnext ▸ hp'⟩
  have hentries : entries h' (h.fresh :: ks) = (tag.tid, tag.content) :: entries h ks := by
    rw [entries_cons hnew, hes]
  have hkeeps' : Keeps h h' heads := fun p hmem => hkeeps p (List.mem_cons_of_mem m hmem)
  refine ⟨h', some h.fresh, ?_, h.fresh :: ns, ⟨List.nodup_cons.mpr ⟨hfresh, hs.nodup⟩,
    fun k => ?_, fun k hk => ?_, ?_, ?_⟩, hkeeps', _, hpath, hentries⟩
  · rw [add, hr]
    rfl
  · rw [hbody, List.mem_cons, hs.mem_iff]
    split_ifs with hk
    · simp [hk]
    · simp [hk]
  · rcases List.mem_cons.mp hk with rfl | hk
    · exact Nat.lt_succ_self _
    · exact Nat.lt_succ_of_lt (hs.lt k hk)
  · have hpointers : (pointers h' (h.fresh :: ns) (some h.fresh :: heads)).Perm
        (some h.fresh :: pointers h ns (m :: heads)) := by
      have hmap : ns.map h'.next = ns.map h.next :=
        List.map_congr_left fun i hi => next_congr (hold i hi)
      unfold pointers
      rw [List.map_cons, hnext, hmap]
      exact List.Perm.cons _ List.perm_middle
    exact (hs.counts.adopt (TagHeap.count_alloc _)).perm hpointers.symm
  · apply hs.chains_of hkeeps' hpath
    rw [hentries, List.map_cons, List.nodup_cons]
    obtain ⟨ks', hks', hnd⟩ := hs.chains m List.mem_cons_self
    rw [hks'.unique hp] at hnd
    exact ⟨htid, hnd⟩

theorem replace_spec {tag : PacketTag} (hs : Sound h ns (m :: heads)) (hp : Path h m ks)
    (hsize : ∀ size, rewrittenSize h m tag.tid = some size → size = tag.content.length) :
    ∃ h' m' es, replace h m tag =
        some (h', m', ((entries h ks).lookup tag.tid).isSome) ∧ Yields h heads h' m' es ∧
      ∀ t, es.lookup t = if t = tag.tid then some tag.content else (entries h ks).lookup t := by
  rcases cowTraverse_spec tag.tid (replaceWriter tag) hs hp with ⟨htid, hrun⟩ |
    ⟨preMerge, h₁, m₁, ns₁, pre, cur, post, n, hfocus, hn, htid, hkeeps, hent, hcase, hrun⟩
  · obtain ⟨h', m', hadd, hy⟩ := add_spec hs hp htid
    refine ⟨h', m', _, ?_, hy, fun t => ?_⟩
    · rw [replace, hrun, lookup_eq_none htid]
      simp only [Option.bind_eq_bind, Option.bind_some, hadd]
      rfl
    · rw [List.lookup_cons]
      split_ifs with ht
      · simp [ht]
      · rw [beq_eq_false_iff_ne.mpr ht]
  · have hnd := hfocus.tids_nodup hn
    have hlist : entries h ks = entries h₁ pre ++ (n.tid, n.data) :: entries h₁ post := by
      rw [← hent, entries_focus hn]
    have hfound : (entries h ks).lookup tag.tid = some n.data := by
      have hmiddle := lookup_middle n.data hnd tag.tid
      rwa [if_pos htid.symm, ← hlist] at hmiddle
    obtain ⟨h', m', hwriter, hy⟩ : ∃ h' m', replaceWriter tag preMerge h₁ m₁ cur pre.getLast? =
        some (h', m', ()) ∧ Yields h₁ heads h' m'
          (entries h₁ pre ++ (n.tid, tag.content) :: entries h₁ post) := by
      cases preMerge with
      | true =>
        obtain ⟨hone, rfl, hsearch⟩ := hcase
        apply replaceSingle_spec hfocus hn hone
        symm
        apply hsize
        rw [rewrittenSize, hsearch]
        simp only [hn, Option.map_some]
      | false => exact replaceWriterShared_spec hfocus hn (by simpa using hcase) htid.symm
    refine ⟨h', m', _, ?_, hy.of_keeps hkeeps, fun t => ?_⟩
    · rw [replace, hrun, hwriter, hfound]
      rfl
    · rw [htid] at hnd ⊢
      rw [lookup_middle _ hnd, hlist, htid]

theorem peek_spec (hs : Sound h ns heads) (hp : Path h m ks) :
    peek h m tid = some ((entries h ks).lookup tid) := by
  obtain ⟨r, hr, hdata⟩ := find_spec tid h.fresh hp (hs.length_le hp)
  rw [peek, hr, ← hdata]
  rfl

theorem copy_spec (hs : Sound h ns heads) (ho : o ∈ heads) :
    ∃ h', copy h o = some (h', o) ∧ Sound h' ns (o :: heads) ∧ Keeps h h' (o :: heads) := by
  obtain ⟨ks, hks, hnd⟩ := hs.chains o ho
  cases o with
  | none =>
    refine ⟨h, rfl, ⟨hs.nodup, hs.mem_iff, hs.lt, ?_, fun p hp => ?_⟩,
      fun p _ ks hks => ⟨hks, rfl⟩⟩
    · exact RefCount.Counts.cons_none.mpr hs.counts
    · rcases List.mem_cons.mp hp with rfl | hp
      · exact ⟨ks, hks, hnd⟩
      · exact hs.chains p hp
  | some k =>
    cases ks with
    | nil => exact absurd hks (by simp [Path])
    | cons j ks =>
      obtain rfl := Option.some.inj hks.1
      obtain ⟨n, hn, -⟩ := hks.node
      obtain ⟨h', hset, hfresh, hbody, hcount⟩ := TagHeap.setCount_spec hn (· + 1)
      have hkeeps : ∀ p ks, Path h p ks → Path h' p ks ∧ entries h' ks = entries h ks :=
        fun p ks hks => ⟨hks.congr fun i _ => hbody i, entries_congr fun i _ => by rw [hbody i]⟩
      refine ⟨h', ?_, ⟨hs.nodup, fun i => by rw [hs.mem_iff, hbody], fun i hi => ?_, ?_,
        fun p hp => ?_⟩, fun p _ ks hks => hkeeps p ks hks⟩
      · rw [copy, hset]
        rfl
      · rw [hfresh]
        exact hs.lt i hi
      · have hpointers : pointers h' ns (some k :: heads) = some k :: pointers h ns heads := by
          have hmap : ns.map h'.next = ns.map h.next :=
            List.map_congr_left fun i _ => next_congr (hbody i)
          unfold pointers
          rw [hmap]
          rfl
        rw [hpointers, hfresh]
        exact hs.counts.share (List.mem_append_left _ ho) hcount
      · have hp' : p ∈ heads := by
          rcases List.mem_cons.mp hp with rfl | hp
          · exact ho
          · exact hp
        obtain ⟨ks', hks', hnd'⟩ := hs.chains p hp'
        obtain ⟨hpath, hent⟩ := hkeeps p ks' hks'
        exact ⟨ks', hpath, by rwa [hent]⟩

/-! ### Giving up a list -/

/-- The pointer of the list at hand is taken away. -/
theorem releaseShared_spec (hs : Sound h ns (some k :: heads)) (hn : h.nodes k = some n) :
    let h' := h.set k (some { n with count := n.count - 1 })
    Sound h' ns heads ∧ Keeps h h' heads := by
  intro h'
  have hbody : ∀ i, h'.body i = h.body i := by
    intro i
    rw [TagHeap.body_set]
    split_ifs with hi
    · rw [hi, body_eq hn]
      rfl
    · rfl
  have hkeeps : ∀ p ks, Path h p ks → Path h' p ks ∧ entries h' ks = entries h ks :=
    fun p ks hks => ⟨hks.congr fun i _ => hbody i, entries_congr fun i _ => by rw [hbody i]⟩
  refine ⟨⟨hs.nodup, fun i => by rw [hs.mem_iff, hbody], hs.lt, ?_, fun p hp => ?_⟩,
    fun p _ ks hks => hkeeps p ks hks⟩
  · have hpointers : pointers h' ns heads = pointers h ns heads := by
      have hmap : ns.map h'.next = ns.map h.next :=
        List.map_congr_left fun i _ => next_congr (hbody i)
      unfold pointers
      rw [hmap]
    have hcounts : RefCount.Counts h.count h.fresh (some k :: pointers h ns heads) := hs.counts
    rw [hpointers]
    apply hcounts.drop
    intro i
    rw [TagHeap.count_set, count_eq hn]
  · obtain ⟨ks, hks, hnd⟩ := hs.chains p (List.mem_cons_of_mem _ hp)
    obtain ⟨hpath, hent⟩ := hkeeps p ks hks
    exact ⟨ks, hpath, by rwa [hent]⟩

/-- The first node belongs to the list at hand alone and is freed; the list goes on behind it. -/
theorem releaseSingle_spec (hs : Sound h ns (some k :: heads)) (hp : Path h (some k) (k :: ks))
    (hn : h.nodes k = some n) (hcount : n.count = 1) :
    Sound (h.free k) (ns.erase k) (n.next :: heads) ∧ Keeps h (h.free k) heads ∧
      Path (h.free k) n.next ks := by
  have hfocus : Focus h ns heads (some k) [] (k :: ks) := ⟨hs, hp, fun j hj => by cases hj⟩
  have hfocus' : Focus h ns heads (some k) [k] ks := by
    refine ⟨hs, hp, fun j hj => ?_⟩
    rw [List.mem_singleton.mp hj, count_eq hn, hcount]
  have hrest := hfocus.next_path hn
  have hk : k ∈ ns := hs.mem_of_path hp List.mem_cons_self
  have hbody : ∀ i, i ≠ k → (h.free k).body i = h.body i := fun i hi => by
    rw [TagHeap.free, TagHeap.body_set, if_neg hi]
  have hnone : (h.free k).body k = none := by
    rw [TagHeap.free, TagHeap.body_set, if_pos rfl]
    rfl
  have hnotin : k ∉ ks := (List.nodup_cons.mp hp.nodup).1
  have hsame : ∀ i ∈ ks, (h.free k).body i = h.body i := fun i hi =>
    hbody i fun heq => hnotin (heq ▸ hi)
  have hpath : Path (h.free k) n.next ks := hrest.congr hsame
  have hkeeps : Keeps h (h.free k) heads := hfocus'.keeps fun i _ hi =>
    hbody i fun heq => hi (by simp [heq])
  refine ⟨⟨hs.nodup.erase k, fun i => ?_, fun i hi => hs.lt i (List.mem_of_mem_erase hi), ?_, ?_⟩,
    hkeeps, hpath⟩
  · rw [hs.nodup.mem_erase_iff]
    by_cases hi : i = k
    · simp [hi, hnone]
    · rw [hbody i hi, hs.mem_iff]
      simp [hi]
  · have hnext : h.next k = n.next := by
      rw [TagHeap.next, body_eq hn]
      rfl
    have herase := pointers_erase h heads hk
    rw [hnext] at herase
    have hpointers : pointers (h.free k) (ns.erase k) (n.next :: heads) =
        n.next :: pointers h (ns.erase k) heads := by
      have hmap : (ns.erase k).map (h.free k).next = (ns.erase k).map h.next := by
        apply List.map_congr_left
        intro i hi
        apply next_congr
        apply hbody
        intro heq
        exact hs.nodup.not_mem_erase (heq ▸ hi)
      unfold pointers
      rw [hmap]
      rfl
    have hcounts : RefCount.Counts h.count h.fresh (some k :: pointers h ns heads) := hs.counts
    rw [hpointers]
    apply (hcounts.perm (herase.cons (some k))).drop
    intro i
    have hone : h.count k = 1 := (count_eq hn).trans hcount
    unfold TagHeap.count TagHeap.free
    rw [TagHeap.set_nodes]
    split_ifs with hi
    · exact (Nat.sub_eq_zero_of_le (Nat.le_of_eq hone)).symm
    · rfl
  · intro p hmem
    rcases List.mem_cons.mp hmem with rfl | hmem
    · obtain ⟨ks', hks', hnd⟩ := hs.chains (some k) List.mem_cons_self
      rw [hks'.unique hp, entries_cons (body_eq hn)] at hnd
      refine ⟨ks, hpath, ?_⟩
      have hes : entries (h.free k) ks = entries h ks :=
        entries_congr fun i hi => by rw [hsame i hi]
      rw [hes]
      exact (List.nodup_cons.mp hnd).2
    · obtain ⟨ks', hks', hnd⟩ := hs.chains p (List.mem_cons_of_mem _ hmem)
      obtain ⟨hks'', hent⟩ := hkeeps p hmem ks' hks'
      exact ⟨ks', hks'', by rwa [hent]⟩

/-- The heap once `prev` has been freed. -/
def freed (h : TagHeap) (prev : Option Nat) : TagHeap :=
  match prev with
  | none => h
  | some j => h.free j

theorem freed_nodes {prev : Option Nat} (hk : (freed h prev).nodes k = some n) :
    prev ≠ some k ∧ h.nodes k = some n := by
  cases prev with
  | none => exact ⟨by simp, hk⟩
  | some j =>
    rw [freed, TagHeap.free, TagHeap.set_nodes] at hk
    split_ifs at hk with hj
    exact ⟨fun heq => hj (Option.some.inj heq).symm, hk⟩

theorem freed_set {prev : Option Nat} (hk : prev ≠ some k) (x : Option TagData) :
    freed (h.set k x) prev = (freed h prev).set k x := by
  cases prev with
  | none => rfl
  | some j =>
    have hne : k ≠ j := fun heq => hk (by rw [heq])
    simp only [freed, TagHeap.free, TagHeap.set]
    congr 1
    funext i
    by_cases hi : i = j
    · simp [hi, Ne.symm hne]
    · simp [hi]

theorem free_set (k : Nat) (x : Option TagData) : (h.set k x).free k = h.free k := by
  unfold TagHeap.free TagHeap.set
  congr 1
  funext i
  by_cases hi : i = k <;> simp [hi]

/-- The loop of `RemoveAll`: `prev` is a node that is still to be freed. -/
theorem removeFrom_spec (fuel : Nat) (prev : Option Nat) (hs : Sound (freed h prev) ns (p :: heads))
    (hp : Path (freed h prev) p ks) (hfuel : ks.length ≤ fuel) :
    ∃ h' ns', removeFrom fuel h prev p = some h' ∧ Sound h' ns' heads ∧
      Keeps (freed h prev) h' heads := by
  induction ks generalizing h prev p ns fuel with
  | nil =>
    obtain rfl : p = none := hp
    refine ⟨freed h prev, ns, ?_, ⟨hs.nodup, hs.mem_iff, hs.lt,
      RefCount.Counts.cons_none.mp hs.counts,
      fun p hmem => hs.chains p (List.mem_cons_of_mem _ hmem)⟩, fun p _ ks hks => ⟨hks, rfl⟩⟩
    cases fuel <;> cases prev <;> rfl
  | cons k ks ih =>
    obtain ⟨n, hn, -⟩ := hp.node
    obtain rfl := hp.1
    obtain ⟨hprev, hn'⟩ := freed_nodes hn
    obtain ⟨fuel, rfl⟩ := Nat.exists_eq_add_one.mpr (Nat.lt_of_lt_of_le (Nat.succ_pos _) hfuel)
    have hpos := hs.count_pos List.mem_cons_self hp (k := k) List.mem_cons_self
    rw [count_eq hn] at hpos
    have hset := freed_set (h := h) hprev (some { n with count := n.count - 1 })
    by_cases hcount : 1 < n.count
    · obtain ⟨hs', hkeeps⟩ := releaseShared_spec hs hn
      refine ⟨_, ns, ?_, hs', hkeeps⟩
      rw [← hset, removeFrom, hn', Option.bind_eq_bind, Option.bind_some,
        if_pos (show 0 < n.count - 1 by omega)]
      cases prev <;> rfl
    · have hone : n.count = 1 := by omega
      obtain ⟨hs', hkeeps, hpath⟩ := releaseSingle_spec hs hp hn hone
      have hfree : freed (freed (h.set k (some { n with count := n.count - 1 })) prev) (some k) =
          (freed h prev).free k := by
        rw [hset]
        exact free_set k _
      rw [← hfree] at hs' hkeeps hpath
      obtain ⟨h', ns', hrun, hs'', hkeeps'⟩ := ih fuel (some k) hs' hpath (by simpa using hfuel)
      refine ⟨h', ns', ?_, hs'', hkeeps.trans hkeeps'⟩
      rw [removeFrom, hn', Option.bind_eq_bind, Option.bind_some,
        if_neg (show ¬ 0 < n.count - 1 by omega), ← hrun]
      cases prev <;> rfl

theorem removeAll_spec (hs : Sound h ns (m :: heads)) :
    ∃ h' ns', removeAll h m = some h' ∧ Sound h' ns' heads ∧ Keeps h h' heads := by
  obtain ⟨ks, hp, -⟩ := hs.chains m List.mem_cons_self
  exact removeFrom_spec h.fresh none hs hp (hs.length_le hp)

end CudaNs3.Network.PacketTagList
