import CudaNs3.Network.PacketTagMaps

/-!
# Families of packet tag lists

A program works on its packet tag lists and copies them in any order. Each of them is a map of
its own as long as `Replace` is not given a tag of another size than the one it writes over.
-/

namespace CudaNs3.Network

open Handles PacketTagList
set_option autoImplicit false

/-- A list, by its `m_next`. -/
structure TagList where
  next : Option Nat

/-- What an operation returns: the content that is found, or whether there was one. -/
inductive TagReply where
  | content (found : Option (List UInt8))
  | replaced (found : Bool)
  deriving DecidableEq

/-- The lists that were made, in order, and what was returned so far. -/
structure TagListWorld where
  heap : TagHeap
  lists : List (Option TagList)
  replies : List TagReply

/-- The operations of a program on its lists, named by their handles. -/
inductive TagListOp where
  | construct
  | add (i : Nat) (tag : PacketTag)
  | remove (i : Nat) (tid : UInt16)
  | replace (i : Nat) (tag : PacketTag)
  | peek (i : Nat) (tid : UInt16)
  | copy (i : Nat)
  | assign (i j : Nat)
  | removeAll (i : Nat)
  | destroy (i : Nat)

namespace TagListWorld

def boot : TagListWorld := ⟨⟨fun _ => none, 0⟩, [], []⟩

def put (w : TagListWorld) (i : Nat) (r : TagHeap × Option Nat) : TagListWorld :=
  ⟨r.1, w.lists.set i (some ⟨r.2⟩), w.replies⟩

def push (w : TagListWorld) (r : TagHeap × Option Nat) : TagListWorld :=
  ⟨r.1, w.lists ++ [some ⟨r.2⟩], w.replies⟩

def reply (w : TagListWorld) (r : TagReply) : TagListWorld := { w with replies := w.replies ++ [r] }

/-- An operation on a handle without a list does nothing. -/
def on (w : TagListWorld) (i : Nat) (f : Option Nat → Option TagListWorld) : Option TagListWorld :=
  match get w.lists i with
  | some l => f l.next
  | none => some w

def step (w : TagListWorld) : TagListOp → Option TagListWorld
  | .construct => some (w.push (w.heap, none))
  | .add i tag => w.on i fun m => do
    return w.put i (← PacketTagList.add w.heap m tag)
  | .remove i tid => w.on i fun m => do
    let (h, m, found) ← PacketTagList.remove w.heap m tid
    return (w.put i (h, m)).reply (.content found)
  | .replace i tag => w.on i fun m => do
    let (h, m, found) ← PacketTagList.replace w.heap m tag
    return (w.put i (h, m)).reply (.replaced found)
  | .peek i tid => w.on i fun m => do
    return w.reply (.content (← PacketTagList.peek w.heap m tid))
  | .copy i => w.on i fun m => do
    return w.push (← PacketTagList.copy w.heap m)
  | .assign i j => w.on i fun m => w.on j fun o => do
    return w.put i (← PacketTagList.assign w.heap m o)
  | .removeAll i => w.on i fun m => do
    return w.put i (← PacketTagList.removeAll w.heap m, none)
  | .destroy i => w.on i fun m => do
    return ⟨← PacketTagList.removeAll w.heap m, w.lists.set i none, w.replies⟩

/-- What `Peek` reports of every type. -/
def mapOf (h : TagHeap) (l : TagList) (tid : UInt16) : Option (List UInt8) :=
  (PacketTagList.peek h l.next tid).join

/-- `Add` is not called for a type that the list has. -/
def Precondition (w : TagListWorld) : TagListOp → Prop
  | .add i tag => ∀ l, get w.lists i = some l → mapOf w.heap l tag.tid = none
  | _ => True

/-- What `Replace` writes over, before the first merge, has the size of the tag. -/
def SameSize (w : TagListWorld) : TagListOp → Prop
  | .replace i tag => ∀ l, get w.lists i = some l →
    ∀ size, rewrittenSize w.heap l.next tag.tid = some size → size = tag.content.length
  | _ => True

instance (w : TagListWorld) (op : TagListOp) : Decidable (w.Precondition op) := by
  cases op with
  | add i tag =>
    exact inferInstanceAs (Decidable (∀ l ∈ get w.lists i, mapOf w.heap l tag.tid = none))
  | _ => exact .isTrue trivial

instance (w : TagListWorld) (op : TagListOp) : Decidable (w.SameSize op) := by
  cases op with
  | replace i tag =>
    exact inferInstanceAs (Decidable (∀ l ∈ get w.lists i,
      ∀ size ∈ rewrittenSize w.heap l.next tag.tid, size = tag.content.length))
  | _ => exact .isTrue trivial

end TagListWorld

/-! ### Maps -/

/-- Maps from tag types to contents, and what was returned so far. -/
structure TagMaps where
  maps : List (Option (UInt16 → Option (List UInt8)))
  replies : List TagReply

namespace TagMaps

def update (f : UInt16 → Option (List UInt8)) (tid : UInt16) (v : Option (List UInt8)) :
    UInt16 → Option (List UInt8) := fun t => if t = tid then v else f t

def on (s : TagMaps) (i : Nat) (f : (UInt16 → Option (List UInt8)) → TagMaps) : TagMaps :=
  match get s.maps i with
  | some m => f m
  | none => s

def step (s : TagMaps) : TagListOp → TagMaps
  | .construct => { s with maps := s.maps ++ [some fun _ => none] }
  | .add i tag => s.on i fun f =>
    { s with maps := s.maps.set i (some (update f tag.tid (some tag.content))) }
  | .remove i tid => s.on i fun f =>
    ⟨s.maps.set i (some (update f tid none)), s.replies ++ [.content (f tid)]⟩
  | .replace i tag => s.on i fun f =>
    ⟨s.maps.set i (some (update f tag.tid (some tag.content))),
      s.replies ++ [.replaced (f tag.tid).isSome]⟩
  | .peek i tid => s.on i fun f => { s with replies := s.replies ++ [.content (f tid)] }
  | .copy i => s.on i fun f => { s with maps := s.maps ++ [some f] }
  | .assign i j => s.on i fun _ => s.on j fun g => { s with maps := s.maps.set i (some g) }
  | .removeAll i => s.on i fun _ => { s with maps := s.maps.set i (some fun _ => none) }
  | .destroy i => s.on i fun _ => { s with maps := s.maps.set i none }

end TagMaps

/-! ### One step -/

namespace TagListWorld

variable {w w' : TagListWorld} {s : TagMaps} {i j : Nat} {l o : TagList} {h' : TagHeap}
  {m' : Option Nat} {es : List (UInt16 × List UInt8)}

def heads (ls : List TagList) : List (Option Nat) := ls.map TagList.next

def Sound (w : TagListWorld) : Prop := ∃ ns, PacketTagList.Sound w.heap ns (heads (live w.lists))

def maps (w : TagListWorld) : TagMaps := ⟨view (mapOf w.heap) w.lists, w.replies⟩

theorem mapOf_eq {h : TagHeap} {ns ks : List Nat} {ps : List (Option Nat)}
    (hs : PacketTagList.Sound h ns ps) (hp : Path h l.next ks) :
    mapOf h l = fun t => (entries h ks).lookup t := by
  funext t
  rw [mapOf, peek_spec hs hp]
  rfl

theorem mapOf_keeps {h : TagHeap} {ns ns' : List Nat} {ps ps' : List (Option Nat)}
    {ls : List TagList} (hs : PacketTagList.Sound h ns ps) (hs' : PacketTagList.Sound h' ns' ps')
    (hk : Keeps h h' (heads ls)) (hsub : ∀ l ∈ ls, l.next ∈ ps) :
    ∀ l ∈ ls, mapOf h' l = mapOf h l := by
  intro l hl
  obtain ⟨ks, hks, -⟩ := hs.chains l.next (hsub l hl)
  obtain ⟨hks', hent⟩ := hk l.next (List.mem_map_of_mem hl) ks hks
  rw [mapOf_eq hs hks, mapOf_eq hs' hks', hent]

theorem Sound.cons {ns : List Nat} (hs : PacketTagList.Sound w.heap ns (heads (live w.lists)))
    (hl : get w.lists i = some l) :
    PacketTagList.Sound w.heap ns (l.next :: heads (others w.lists i)) :=
  hs.perm ((live_perm hl).map _)

/-- The list under `i` has changed. -/
theorem put_spec {ns : List Nat} (hs : PacketTagList.Sound w.heap ns (heads (live w.lists)))
    (hl : get w.lists i = some l) (hy : Yields w.heap (heads (others w.lists i)) h' m' es) :
    (w.put i (h', m')).Sound ∧ (w.put i (h', m')).maps =
      ⟨w.maps.maps.set i (some fun t => es.lookup t), w.replies⟩ := by
  obtain ⟨ns', hs', hk, ks, hp, rfl⟩ := hy
  have hperm : (live (w.lists.set i (some ⟨m'⟩))).Perm (⟨m'⟩ :: others w.lists i) :=
    live_set_perm (lt_length_of_get hl)
  refine ⟨⟨ns', hs'.perm (hperm.symm.map TagList.next)⟩, ?_⟩
  have hview := view_set (t := w.lists) (i := i) (some ⟨m'⟩)
    (mapOf_keeps (Sound.cons hs hl) hs' hk fun x hx => List.mem_cons_of_mem _
      (List.mem_map_of_mem hx))
  rw [Option.map_some, mapOf_eq (l := ⟨m'⟩) hs' hp] at hview
  unfold maps put
  simp only
  rw [hview]

/-- There is a new list. -/
theorem push_spec {ns ns' ks : List Nat}
    (hs : PacketTagList.Sound w.heap ns (heads (live w.lists)))
    (hs' : PacketTagList.Sound h' ns' (m' :: heads (live w.lists)))
    (hk : Keeps w.heap h' (heads (live w.lists))) (hp : Path h' m' ks) :
    (w.push (h', m')).Sound ∧ (w.push (h', m')).maps =
      ⟨w.maps.maps ++ [some fun t => (entries h' ks).lookup t], w.replies⟩ := by
  have hperm : (⟨m'⟩ :: live w.lists).Perm (live (w.lists ++ [some ⟨m'⟩])) := by
    rw [live_push]
    exact (List.perm_append_singleton _ _).symm
  refine ⟨⟨ns', hs'.perm (hperm.map TagList.next)⟩, ?_⟩
  have hview := view_push (t := w.lists) (⟨m'⟩ : TagList)
    (mapOf_keeps hs hs' hk fun x hx => List.mem_map_of_mem hx)
  rw [mapOf_eq (l := ⟨m'⟩) hs' hp] at hview
  unfold maps push
  simp only
  rw [hview]

theorem reply_maps (w : TagListWorld) (r : TagReply) :
    (w.reply r).maps = ⟨w.maps.maps, w.maps.replies ++ [r]⟩ := rfl

theorem on_spec {f : Option Nat → Option TagListWorld}
    {g : (UInt16 → Option (List UInt8)) → TagMaps} (hw : w.Sound)
    (hf : ∀ l ns ks, get w.lists i = some l →
      PacketTagList.Sound w.heap ns (heads (live w.lists)) → Path w.heap l.next ks →
      ∃ w', f l.next = some w' ∧ w'.Sound ∧
        w'.maps = g fun t => (entries w.heap ks).lookup t) :
    ∃ w', w.on i f = some w' ∧ w'.Sound ∧ w'.maps = w.maps.on i g := by
  obtain ⟨ns, hs⟩ := hw
  unfold on TagMaps.on maps
  rw [get_view]
  rcases hl : get w.lists i with _ | l
  · exact ⟨w, rfl, ⟨ns, hs⟩, rfl⟩
  · obtain ⟨ks, hp, -⟩ := hs.chains l.next (List.mem_map_of_mem (mem_live_of_get hl))
    rw [Option.map_some, mapOf_eq hs hp]
    exact hf l ns ks hl hs hp

theorem step_spec {op : TagListOp} (hw : w.Sound) (hpre : w.Precondition op)
    (hsize : w.SameSize op) :
    ∃ w', w.step op = some w' ∧ w'.Sound ∧ w'.maps = w.maps.step op := by
  cases op with
  | construct =>
    obtain ⟨ns, hs⟩ := hw
    have hs' : PacketTagList.Sound w.heap ns (none :: heads (live w.lists)) := by
      refine ⟨hs.nodup, hs.mem_iff, hs.lt, RefCount.Counts.cons_none.mpr hs.counts, ?_⟩
      intro p hp
      rcases List.mem_cons.mp hp with rfl | hp
      · exact ⟨[], rfl, List.nodup_nil⟩
      · exact hs.chains p hp
    have hp : Path w.heap none [] := rfl
    exact ⟨_, rfl, push_spec hs hs' (fun _ _ _ hks => ⟨hks, rfl⟩) hp⟩
  | add i tag =>
    simp only [step, TagMaps.step]
    apply on_spec hw
    intro l ns ks hl hs hp
    have hnone := hpre l hl
    rw [mapOf_eq hs hp] at hnone
    have htid : tag.tid ∉ (entries w.heap ks).map Prod.fst := by
      intro hmem
      rw [← isSome_lookup] at hmem
      simp only [] at hnone
      rw [hnone] at hmem
      cases hmem
    obtain ⟨h', m', hadd, hy⟩ := add_spec (Sound.cons hs hl) hp htid
    have hes : (fun t => ((tag.tid, tag.content) :: entries w.heap ks).lookup t) =
        TagMaps.update (fun t => (entries w.heap ks).lookup t) tag.tid (some tag.content) := by
      funext t
      rw [List.lookup_cons, TagMaps.update]
      split_ifs with ht
      · simp [ht]
      · rw [beq_eq_false_iff_ne.mpr ht]
    obtain ⟨hsound, hmaps⟩ := put_spec hs hl hy
    exact ⟨w.put i (h', m'), by rw [hadd]; rfl, hsound, by rw [hmaps, hes]; rfl⟩
  | remove i tid =>
    simp only [step, TagMaps.step]
    apply on_spec hw
    intro l ns ks hl hs hp
    obtain ⟨h', m', es, hrun, hy, hes⟩ := remove_spec tid (Sound.cons hs hl) hp
    obtain ⟨hsound, hmaps⟩ := put_spec hs hl hy
    have hes' : (fun t => es.lookup t) =
        TagMaps.update (fun t => (entries w.heap ks).lookup t) tid none := funext hes
    refine ⟨(w.put i (h', m')).reply (.content ((entries w.heap ks).lookup tid)),
      by rw [hrun]; rfl, hsound, ?_⟩
    rw [reply_maps, hmaps, hes']
    rfl
  | replace i tag =>
    simp only [step, TagMaps.step]
    apply on_spec hw
    intro l ns ks hl hs hp
    obtain ⟨h', m', es, hrun, hy, hes⟩ := replace_spec (Sound.cons hs hl) hp (hsize l hl)
    obtain ⟨hsound, hmaps⟩ := put_spec hs hl hy
    have hes' : (fun t => es.lookup t) = TagMaps.update
        (fun t => (entries w.heap ks).lookup t) tag.tid (some tag.content) := funext hes
    refine ⟨(w.put i (h', m')).reply (.replaced ((entries w.heap ks).lookup tag.tid).isSome),
      by rw [hrun]; rfl, hsound, ?_⟩
    rw [reply_maps, hmaps, hes']
    rfl
  | peek i tid =>
    simp only [step, TagMaps.step]
    apply on_spec hw
    intro l ns ks hl hs hp
    exact ⟨w.reply (.content ((entries w.heap ks).lookup tid)), by rw [peek_spec hs hp]; rfl,
      ⟨ns, hs⟩, rfl⟩
  | copy i =>
    simp only [step, TagMaps.step]
    apply on_spec hw
    intro l ns ks hl hs hp
    have hmem : l.next ∈ heads (live w.lists) := List.mem_map_of_mem (mem_live_of_get hl)
    obtain ⟨h', hcopy, hs', hk⟩ := copy_spec hs hmem
    obtain ⟨hp', hent⟩ := hk l.next List.mem_cons_self ks hp
    obtain ⟨hsound, hmaps⟩ := push_spec hs hs'
      (fun p hmem => hk p (List.mem_cons_of_mem _ hmem)) hp'
    refine ⟨w.push (h', l.next), by rw [hcopy]; rfl, hsound, ?_⟩
    rw [hmaps, hent]
    rfl
  | assign i j =>
    simp only [step, TagMaps.step]
    apply on_spec hw
    intro l ns ks hl hs hp
    apply on_spec (g := fun g => ⟨w.maps.maps.set i (some g), w.replies⟩) ⟨ns, hs⟩
    intro o ns₂ ks₂ ho hs₂ hp₂
    by_cases heq : l.next = o.next
    · have hsame : PacketTagList.assign w.heap l.next o.next = some (w.heap, l.next) := if_pos heq
      rw [← heq] at hp₂
      exact ⟨w.put i (w.heap, l.next), by rw [hsame]; rfl,
        put_spec hs hl ((Sound.cons hs hl).yields_self hp₂)⟩
    · have hij : i ≠ j := by
        rintro rfl
        exact heq (by rw [Option.some.inj (hl.symm.trans ho)])
      obtain ⟨h₁, ns₁, hremove, hs₁, hk₁⟩ := removeAll_spec (Sound.cons hs hl)
      have hmem : o.next ∈ heads (others w.lists i) := List.mem_map_of_mem (mem_others ho hij)
      obtain ⟨h₂, hcopy, hs₂, hk₂⟩ := copy_spec hs₁ hmem
      have hk : Keeps w.heap h₂ (heads (others w.lists i)) :=
        hk₁.trans fun p hmem => hk₂ p (List.mem_cons_of_mem _ hmem)
      obtain ⟨hp₃, hent⟩ := hk o.next hmem ks₂ hp₂
      have hassign : PacketTagList.assign w.heap l.next o.next = some (h₂, o.next) := by
        rw [PacketTagList.assign, if_neg heq, hremove]
        exact hcopy
      exact ⟨w.put i (h₂, o.next), by rw [hassign]; rfl,
        put_spec hs hl ⟨ns₁, hs₂, hk, ks₂, hp₃, hent⟩⟩
  | removeAll i =>
    simp only [step, TagMaps.step]
    apply on_spec hw
    intro l ns ks hl hs hp
    obtain ⟨h', ns', hremove, hs', hk⟩ := removeAll_spec (Sound.cons hs hl)
    have hs'' : PacketTagList.Sound h' ns' (none :: heads (others w.lists i)) := by
      refine ⟨hs'.nodup, hs'.mem_iff, hs'.lt, RefCount.Counts.cons_none.mpr hs'.counts, ?_⟩
      intro p hmem
      rcases List.mem_cons.mp hmem with rfl | hmem
      · exact ⟨[], rfl, List.nodup_nil⟩
      · exact hs'.chains p hmem
    have hy : Yields w.heap (heads (others w.lists i)) h' none [] := ⟨ns', hs'', hk, [], rfl, rfl⟩
    exact ⟨w.put i (h', none), by rw [hremove]; rfl, put_spec hs hl hy⟩
  | destroy i =>
    simp only [step, TagMaps.step]
    apply on_spec hw
    intro l ns ks hl hs hp
    obtain ⟨h', ns', hremove, hs', hk⟩ := removeAll_spec (Sound.cons hs hl)
    refine ⟨⟨h', w.lists.set i none, w.replies⟩, by rw [hremove]; rfl, ⟨ns', hs'⟩, ?_⟩
    have hview := view_set (t := w.lists) (i := i) none
      (mapOf_keeps (Sound.cons hs hl) hs' hk fun x hx => List.mem_cons_of_mem _
        (List.mem_map_of_mem hx))
    unfold maps
    simp only
    rw [hview]
    rfl

/-- How many pointers to the node `k` there are, in the lists and in the nodes. -/
def pointersTo (w : TagListWorld) (k : Nat) : Nat :=
  (heads (live w.lists)).count (some k) + ((List.range w.heap.fresh).map w.heap.next).count (some k)

/-- Every list reports its map, and every count is the number of pointers. -/
structure Agrees (w : TagListWorld) (s : TagMaps) : Prop where
  replies : w.replies = s.replies
  peek : Related (fun l f => ∀ tid, PacketTagList.peek w.heap l.next tid = some (f tid))
    w.lists s.maps
  counts : ∀ k, w.heap.count k = w.pointersTo k

theorem count_next {h : TagHeap} {ns : List Nat} {ps : List (Option Nat)}
    (hs : PacketTagList.Sound h ns ps) (k : Nat) :
    (ns.map h.next).count (some k) = ((List.range h.fresh).map h.next).count (some k) := by
  -- a node that is not there has no pointer
  have hperm : ns.Perm ((List.range h.fresh).filter fun i => (h.body i).isSome) := by
    apply (List.perm_ext_iff_of_nodup hs.nodup (List.nodup_range.filter _)).mpr
    intro i
    rw [List.mem_filter, List.mem_range, ← hs.mem_iff]
    exact ⟨fun hi => ⟨hs.lt i hi, hi⟩, fun hi => hi.2⟩
  rw [(hperm.map h.next).count_eq]
  simp only [List.count, List.countP_map, List.countP_filter]
  apply List.countP_congr
  intro i _
  simp only [Function.comp_apply, beq_iff_eq, Bool.and_eq_true]
  constructor
  · exact fun hi => hi.1
  · intro hi
    refine ⟨hi, ?_⟩
    unfold TagHeap.next at hi
    cases hb : h.body i with
    | none => simp [hb] at hi
    | some b => rfl

theorem Sound.agrees (hw : w.Sound) : w.Agrees w.maps := by
  obtain ⟨ns, hs⟩ := hw
  refine ⟨rfl, ⟨by simp [maps], fun i => ?_⟩, fun k => ?_⟩
  · simp only [maps, get_view]
    rcases hl : get w.lists i with _ | l
    · exact .none
    · obtain ⟨ks, hp, -⟩ := hs.chains l.next (List.mem_map_of_mem (mem_live_of_get hl))
      refine .some fun tid => ?_
      rw [mapOf_eq hs hp, peek_spec hs hp]
  · have hcount := hs.counts.count_eq k
    rw [hcount, pointers, List.count_append, count_next hs]
    rfl

theorem sound_boot : boot.Sound := by
  refine ⟨[], List.nodup_nil, fun k => ?_, fun k hk => absurd hk List.not_mem_nil, ⟨fun k hk => ?_,
    fun k => rfl⟩, fun p hp => ?_⟩
  · simp [boot, TagHeap.body]
  · simp [boot, pointers, heads, live, List.reduceOption_nil] at hk
  · simp [boot, heads, live, List.reduceOption_nil] at hp

end TagListWorld

/-- Packet tag lists are maps, as long as `Replace` keeps the size of what it writes over. -/
theorem tag_lists_are_maps (ops : List TagListOp)
    (hops : Transition.Along TagListWorld.step
      (fun w op => w.Precondition op ∧ w.SameSize op) .boot ops) :
    ∃ w, Transition.exec TagListWorld.step .boot ops = some w ∧
      w.Agrees (ops.foldl TagMaps.step ⟨[], []⟩) := by
  obtain ⟨w, hrun, hw, hmaps⟩ := Transition.exec_along TagListWorld.Sound TagListWorld.maps
    TagMaps.step (fun w op hw hop => TagListWorld.step_spec hw hop.1 hop.2)
    TagListWorld.sound_boot hops
  have hagrees := hw.agrees
  rw [hmaps] at hagrees
  exact ⟨w, hrun, hagrees⟩

theorem tag_lists_are_maps_copied :
    ∃ w, Transition.exec TagListWorld.step .boot [.construct, .add 0 ⟨3, [1], by decide⟩,
        .add 0 ⟨5, [2], by decide⟩, .copy 0, .replace 1 ⟨3, [4, 4], by decide⟩, .remove 0 5]
        = some w ∧
      w.Agrees ⟨[some fun t => if t = 5 then none else if t = 5 then some [2] else
          if t = 3 then some [1] else none,
        some fun t => if t = 3 then some [4, 4] else if t = 5 then some [2] else
          if t = 3 then some [1] else none], [.replaced true, .content (some [2])]⟩ := by
  exact tag_lists_are_maps _ (by decide +kernel)

/-- A tag of two bytes is replaced by one of one byte. -/
def shrinking : List TagListOp :=
  [.construct, .add 0 ⟨3, [1, 2], by decide⟩, .replace 0 ⟨3, [7], by decide⟩, .peek 0 3]

/-- A tag of one byte is replaced by one of two bytes. -/
def growing : List TagListOp :=
  [.construct, .add 0 ⟨3, [1], by decide⟩, .replace 0 ⟨3, [7, 7], by decide⟩]

/-- The old second byte is still reported, and the longer tag does not fit into its node. -/
theorem tag_maps_differ :
    ¬ (∀ ops, Transition.Along TagListWorld.step TagListWorld.Precondition .boot ops →
        ∃ w, Transition.exec TagListWorld.step .boot ops = some w ∧
          w.Agrees (ops.foldl TagMaps.step ⟨[], []⟩)) ∧
      Transition.exec TagListWorld.step .boot growing = none := by
  refine ⟨fun hclaim => ?_, Option.isNone_iff_eq_none.mp (by decide +kernel)⟩
  obtain ⟨w, hrun, hagrees⟩ := hclaim shrinking (by decide +kernel)
  have hreplies : (Transition.exec TagListWorld.step .boot shrinking).map (·.replies) =
      some [.replaced true, .content (some [7, 2])] := by decide +kernel
  rw [hrun, Option.map_some, hagrees.replies] at hreplies
  exact absurd hreplies (by decide +kernel)

end CudaNs3.Network
