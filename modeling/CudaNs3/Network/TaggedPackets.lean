import CudaNs3.Network.PacketByteTags

/-!
# Families of packets with byte tags

A program makes packets, works on them and copies them in any order. Every packet reports the
tags that its own bytes have received.
-/

namespace CudaNs3.Network

open Spans Handles
set_option autoImplicit false

/-- The packets that were made, in order; a destroyed one leaves its place empty. -/
structure TagWorld where
  memory : TagMemory
  packets : List (Option TaggedPacket)

/-- The operations of a program on its packets, named by their handles. -/
inductive TagOp where
  | create (size : Nat)
  | addByteTag (i : Nat) (tag : Tag)
  | addByteTagRange (i : Nat) (tag : Tag) (start end_ : Nat)
  | addHeader (i size : Nat)
  | removeHeader (i deserialized : Nat)
  | addTrailer (i size : Nat)
  | removeTrailer (i deserialized : Nat)
  | addAtEnd (i j : Nat)
  | addPaddingAtEnd (i size : Nat)
  | removeAtStart (i size : Nat)
  | removeAtEnd (i size : Nat)
  | createFragment (i start length : Nat)
  | copy (i : Nat)
  | destroy (i : Nat)

namespace TagWorld

def boot (fresh : Nat → Nat → UInt8) : TagWorld :=
  ⟨⟨fun _ => ⟨0, 0, 0, fun _ => 0⟩, 0, fresh, [], 0⟩, []⟩

def put (w : TagWorld) (i : Nat) (r : TagMemory × TaggedPacket) : TagWorld :=
  ⟨r.1, w.packets.set i (some r.2)⟩

def push (w : TagWorld) (r : TagMemory × TaggedPacket) : TagWorld :=
  ⟨r.1, w.packets ++ [some r.2]⟩

/-- An operation on a handle without a packet does nothing. -/
def on (w : TagWorld) (i : Nat) (f : TaggedPacket → Option TagWorld) : Option TagWorld :=
  match get w.packets i with
  | some p => f p
  | none => some w

/-- `AddByteTag` aborts on a range that ends before it starts. -/
def step (w : TagWorld) : TagOp → Option TagWorld
  | .create size => some (w.push (w.memory, .create size))
  | .addByteTag i tag => w.on i fun p => some (w.put i (p.addByteTag w.memory tag))
  | .addByteTagRange i tag start end_ => w.on i fun p =>
    if end_ < start then none else some (w.put i (p.addByteTagRange w.memory tag start end_))
  | .addHeader i size => w.on i fun p => some (w.put i (p.addHeader w.memory size))
  | .removeHeader i deserialized => w.on i fun p =>
    some (w.put i (w.memory, p.removeHeader deserialized))
  | .addTrailer i size => w.on i fun p => some (w.put i (p.addTrailer w.memory size))
  | .removeTrailer i deserialized => w.on i fun p =>
    some (w.put i (w.memory, p.removeTrailer deserialized))
  | .addAtEnd i j => w.on i fun p => w.on j fun o => some (w.put i (p.addAtEnd w.memory o))
  | .addPaddingAtEnd i size => w.on i fun p => some (w.put i (p.addPaddingAtEnd w.memory size))
  | .removeAtStart i size => w.on i fun p => some (w.put i (w.memory, p.removeAtStart size))
  | .removeAtEnd i size => w.on i fun p => some (w.put i (w.memory, p.removeAtEnd size))
  | .createFragment i start length => w.on i fun p =>
    some (w.push (p.createFragment w.memory start length))
  | .copy i => w.on i fun p => some (w.push (p.copy w.memory))
  | .destroy i => w.on i fun p => some ⟨p.destroy w.memory, w.packets.set i none⟩

end TagWorld

/-! ### Tagged strings -/

def onTagged (s : List (Option TaggedBytes)) (i : Nat)
    (f : TaggedBytes → List (Option TaggedBytes)) : List (Option TaggedBytes) :=
  match get s i with
  | some t => f t
  | none => s

def taggedStep (s : List (Option TaggedBytes)) : TagOp → List (Option TaggedBytes)
  | .create size => s ++ [some (.create size)]
  | .addByteTag i tag => onTagged s i fun t => s.set i (some (t.addByteTag tag))
  | .addByteTagRange i tag start end_ => onTagged s i fun t =>
    s.set i (some (t.addByteTagRange tag start end_))
  | .addHeader i size => onTagged s i fun t => s.set i (some (t.addAtStart size))
  | .removeHeader i n => onTagged s i fun t => s.set i (some (t.removeAtStart n))
  | .addTrailer i size => onTagged s i fun t => s.set i (some (t.padAtEnd size))
  | .removeTrailer i n => onTagged s i fun t => s.set i (some (t.removeAtEnd n))
  | .addAtEnd i j => onTagged s i fun t => onTagged s j fun u => s.set i (some (t.append u))
  | .addPaddingAtEnd i size => onTagged s i fun t => s.set i (some (t.padAtEnd size))
  | .removeAtStart i n => onTagged s i fun t => s.set i (some (t.removeAtStart n))
  | .removeAtEnd i n => onTagged s i fun t => s.set i (some (t.removeAtEnd n))
  | .createFragment i start length => onTagged s i fun t =>
    s ++ [some (t.fragment start length)]
  | .copy i => onTagged s i fun t => s ++ [some t]
  | .destroy i => onTagged s i fun _ => s.set i none

/-- What the functions ask of the caller. -/
def TagOp.Precondition (s : List (Option TaggedBytes)) : TagOp → Prop
  | .addByteTagRange _ _ start end_ => start ≤ end_
  | .addAtEnd i j => i ≠ j
  | .createFragment i start length => ∀ t, get s i = some t → start + length ≤ t.bytes.length
  | _ => True

instance (s : List (Option TaggedBytes)) (op : TagOp) : Decidable (op.Precondition s) := by
  cases op with
  | addByteTagRange i tag start end_ => exact inferInstanceAs (Decidable (start ≤ end_))
  | addAtEnd i j => exact inferInstanceAs (Decidable (i ≠ j))
  | createFragment i start length =>
    exact inferInstanceAs (Decidable (∀ t ∈ get s i, start + length ≤ t.bytes.length))
  | _ => exact .isTrue trivial

/-- The operation leaves every packet with offsets in the range of `int32_t`. -/
def TagOp.InRange (s : List (Option TaggedBytes)) (op : TagOp) : Prop :=
  ∀ t ∈ live (taggedStep s op), t.extent < 2 ^ 31

instance (s : List (Option TaggedBytes)) (op : TagOp) : Decidable (op.InRange s) :=
  inferInstanceAs (Decidable (∀ t ∈ live (taggedStep s op), t.extent < 2 ^ 31))

/-! ### One step -/

namespace TagWorld

open ByteTagList TaggedPacket

variable {w : TagWorld} {s : List (Option TaggedBytes)} {i j : Nat} {p o : TaggedPacket}
  {t u : TaggedBytes} {h' : TagMemory}

def lists (ps : List TaggedPacket) : List ByteTagList := ps.map TaggedPacket.byteTagList

/-- Every packet puts the tags where its string has them. -/
structure Tracks (w : TagWorld) (s : List (Option TaggedBytes)) : Prop where
  holds : Holds w.memory (lists (live w.packets))
  related : Related (fun p t => ∃ rs, Follows w.memory p t rs) w.packets s

theorem Tracks.cons (hw : w.Tracks s) (hp : get w.packets i = some p) :
    Holds w.memory (p.byteTagList :: lists (others w.packets i)) :=
  hw.holds.perm ((live_perm hp).map _)

theorem follows_keeps {h : TagMemory} {ps : List TaggedPacket} (hk : Keeps h h' (lists ps)) :
    ∀ p ∈ ps, ∀ t, (∃ rs, Follows h p t rs) → ∃ rs, Follows h' p t rs := by
  intro p hp t hf
  obtain ⟨rs, hf⟩ := hf
  have hsame := hk p.byteTagList (List.mem_map_of_mem hp)
  exact ⟨rs, hf.carries.of_stored hsame, hf.within, hf.size, hf.bytes⟩

theorem put_tracks (hw : w.Tracks s) (hp : get w.packets i = some p)
    (hy : Yields w.memory (lists (others w.packets i)) h' o t) :
    (w.put i (h', o)).Tracks (s.set i (some t)) := by
  constructor
  · exact hy.holds.perm ((live_set_perm (lt_length_of_get hp)).symm.map _)
  · exact hw.related.set (follows_keeps hy.keeps) (.some hy.follows)

theorem push_tracks (hw : w.Tracks s) (hy : Yields w.memory (lists (live w.packets)) h' o t) :
    (w.push (h', o)).Tracks (s ++ [some t]) := by
  constructor
  · have hperm : (o :: live w.packets).Perm (live (w.packets ++ [some o])) := by
      rw [live_push]
      exact (List.perm_append_singleton o _).symm
    exact hy.holds.perm (hperm.map _)
  · exact hw.related.push (follows_keeps hy.keeps) hy.follows

theorem destroy_tracks (hw : w.Tracks s) (hp : get w.packets i = some p) :
    (⟨p.destroy w.memory, w.packets.set i none⟩ : TagWorld).Tracks (s.set i none) :=
  ⟨deallocate_holds (hw.cons hp),
    hw.related.set (follows_keeps (deallocate_keeps w.memory p.byteTagList.data _)) .none⟩

/-- The packet under `i` and its string, if there are any. -/
theorem on_tracks {f : TaggedPacket → Option TagWorld}
    {g : TaggedBytes → List (Option TaggedBytes)} (hw : w.Tracks s)
    (hf : ∀ p t rs, get w.packets i = some p → get s i = some t → Follows w.memory p t rs →
      ∃ w', f p = some w' ∧ w'.Tracks (g t)) :
    ∃ w', w.on i f = some w' ∧ w'.Tracks (onTagged s i g) := by
  unfold on onTagged
  rcases hp : get w.packets i with _ | p
  · rw [hw.related.none_iff.mp hp]
    exact ⟨w, rfl, hw⟩
  · obtain ⟨t, ht, rs, hfollows⟩ := hw.related.of_get hp
    rw [ht]
    exact hf p t rs hp ht hfollows

theorem extent_set {op : TagOp} (hr : op.InRange s) (hw : w.Tracks s)
    (hp : get w.packets i = some p) (hstep : taggedStep s op = s.set i (some t)) :
    t.extent < 2 ^ 31 := by
  apply hr
  rw [hstep]
  have hi : i < s.length := by
    rw [← hw.related.length_eq]
    exact lt_length_of_get hp
  exact mem_live_of_get (get_set_self hi)

theorem extent_push {op : TagOp} (hr : op.InRange s) (hstep : taggedStep s op = s ++ [some t]) :
    t.extent < 2 ^ 31 := by
  apply hr
  rw [hstep, live_push]
  exact List.mem_append_right _ List.mem_cons_self

/-- An operation that changes one packet. -/
theorem on_put {op : TagOp} {f : TaggedPacket → TagMemory × TaggedPacket}
    {g : TaggedBytes → TaggedBytes} (hw : w.Tracks s) (hr : op.InRange s)
    (hstep : taggedStep s op = onTagged s i fun t => s.set i (some (g t)))
    (hf : ∀ p t rs, Holds w.memory (p.byteTagList :: lists (others w.packets i)) →
      Follows w.memory p t rs → (g t).extent < 2 ^ 31 →
      Yields w.memory (lists (others w.packets i)) (f p).1 (f p).2 (g t)) :
    ∃ w', w.on i (fun p => some (w.put i (f p))) = some w' ∧ w'.Tracks (taggedStep s op) := by
  rw [hstep]
  apply on_tracks hw
  intro p t rs hp ht hfollows
  have hset : taggedStep s op = s.set i (some (g t)) := by rw [hstep, onTagged, ht]
  exact ⟨_, rfl, put_tracks hw hp (hf p t rs (hw.cons hp) hfollows (extent_set hr hw hp hset))⟩

/-- An operation that makes a packet out of one. -/
theorem on_push {op : TagOp} {f : TaggedPacket → TagMemory × TaggedPacket}
    {g : TaggedBytes → TaggedBytes} (hw : w.Tracks s) (hr : op.InRange s)
    (hstep : taggedStep s op = onTagged s i fun t => s ++ [some (g t)])
    (hf : ∀ p t rs, get s i = some t →
      Holds w.memory (p.byteTagList :: lists (others w.packets i)) → Follows w.memory p t rs →
      (g t).extent < 2 ^ 31 → Yields w.memory (p.byteTagList :: lists (others w.packets i))
        (f p).1 (f p).2 (g t)) :
    ∃ w', w.on i (fun p => some (w.push (f p))) = some w' ∧ w'.Tracks (taggedStep s op) := by
  rw [hstep]
  apply on_tracks hw
  intro p t rs hp ht hfollows
  have hpush : taggedStep s op = s ++ [some (g t)] := by rw [hstep, onTagged, ht]
  have hy := hf p t rs ht (hw.cons hp) hfollows (extent_push hr hpush)
  have hperm : (p.byteTagList :: lists (others w.packets i)).Perm (lists (live w.packets)) :=
    ((live_perm hp).map _).symm
  refine ⟨_, rfl, push_tracks hw ⟨hy.holds.perm (hperm.cons _), ?_, hy.follows⟩⟩
  exact hy.keeps.sub fun x hx => hperm.mem_iff.mpr hx

theorem step_tracks {op : TagOp} (hw : w.Tracks s) (hpre : op.Precondition s)
    (hr : op.InRange s) : ∃ w', w.step op = some w' ∧ w'.Tracks (taggedStep s op) := by
  cases op with
  | create size => exact ⟨_, rfl, push_tracks hw (create_yields hw.holds (extent_push hr rfl))⟩
  | addByteTag i tag =>
    exact on_put (g := fun t => t.addByteTag tag) hw hr rfl fun p t rs hh hf hx => by
      have hsize : p.addByteTag w.memory tag = p.addByteTagRange w.memory tag 0 p.getSize := rfl
      rw [hsize, hf.size]
      exact addByteTagRange_yields hh hf tag (Nat.zero_le _) hx
  | addByteTagRange i tag start end_ =>
    have hle : ¬ end_ < start := Nat.not_lt.mpr hpre
    have hrun := on_put (w := w) (i := i) (f := fun p => p.addByteTagRange w.memory tag start end_)
      hw hr rfl fun p t rs hh hf hx => addByteTagRange_yields hh hf tag hpre hx
    simpa only [step, if_neg hle] using hrun
  | addHeader i size =>
    exact on_put hw hr rfl fun p t rs hh hf hx => addAtStart_yields hh hf hx
  | removeHeader i n =>
    exact on_put hw hr rfl fun p t rs hh hf hx => removeAtStart_yields hh hf hx
  | addTrailer i size =>
    exact on_put hw hr rfl fun p t rs hh hf hx => padAtEnd_yields hh hf hx
  | removeTrailer i n =>
    exact on_put hw hr rfl fun p t rs hh hf _ => removeAtEnd_yields hh hf
  | addAtEnd i j =>
    apply on_tracks hw
    intro p t rs hp ht hf
    apply on_tracks (g := fun u => s.set i (some (t.append u))) hw
    intro o u rs' ho hu hfo
    have hset : taggedStep s (.addAtEnd i j) = s.set i (some (t.append u)) := by
      simp only [taggedStep, onTagged, ht, hu]
    have hmem : o.byteTagList ∈ lists (others w.packets i) :=
      List.mem_map_of_mem (mem_others ho hpre)
    exact ⟨_, rfl, put_tracks hw hp
      (append_yields (hw.cons hp) hf hmem hfo (extent_set hr hw hp hset))⟩
  | addPaddingAtEnd i size =>
    exact on_put hw hr rfl fun p t rs hh hf hx => padAtEnd_yields hh hf hx
  | removeAtStart i n =>
    exact on_put hw hr rfl fun p t rs hh hf hx => removeAtStart_yields hh hf hx
  | removeAtEnd i n =>
    exact on_put hw hr rfl fun p t rs hh hf _ => removeAtEnd_yields hh hf
  | createFragment i start length =>
    exact on_push hw hr rfl fun p t rs ht hh hf hx =>
      fragment_yields hh hf (hf.size ▸ hpre t ht) hx
  | copy i => exact on_push (g := id) hw hr rfl fun p t rs _ hh hf _ => copy_yields hh hf
  | destroy i =>
    exact on_tracks hw fun p t rs hp _ _ => ⟨_, rfl, destroy_tracks hw hp⟩

/-! ### What is reported -/

/-- The tags that the iterator of `p` reports over the position `q`. -/
def tagsAt (h : TagMemory) (p : TaggedPacket) (q : Int) : List Tag :=
  ((p.getByteTagIterator h).filter fun i => i.start.toInt ≤ q ∧ q < i.end_.toInt).map Item.tag

theorem tagsAt_eq (h : TagMemory) (p : TaggedPacket) (q : Int) :
    tagsAt h p q = covering ((p.getByteTagIterator h).map Item.span) q := by
  simp only [tagsAt, covering, List.filter_map, List.map_map]
  rfl

/-- Every position reports the tags of its byte, and there is no other position. -/
def Agrees (w : TagWorld) (s : List (Option TaggedBytes)) : Prop :=
  Related (fun p t => p.getSize = t.bytes.length ∧
    (∀ i : Nat, i < p.getSize → t.bytes[i]? = some (tagsAt w.memory p i)) ∧
    ∀ q : Int, q < 0 ∨ p.getSize ≤ q → tagsAt w.memory p q = []) w.packets s

theorem follows_tagsAt {h : TagMemory} {rs : List TagRecord} (hf : Follows h p t rs) (q : Int) :
    tagsAt h p q = if 0 ≤ q ∧ q < p.getSize then
      covering (rs.map (TagRecord.span p.byteTagList.adjustment)) q else [] := by
  have hroom := hf.within.room
  have hsize := hf.size
  have hitems := begin_spec hf.carries 0 (offset p.getSize)
  rw [tagsAt_eq, getByteTagIterator, hitems, covering_item hf.within, Int32.toInt_zero,
    toInt_offset (by omega)]

theorem Tracks.agrees (hw : w.Tracks s) : w.Agrees s := by
  refine ⟨hw.related.length_eq, fun i => ?_⟩
  have hrel := hw.related.get i
  rcases hp : get w.packets i with _ | p <;> rcases ht : get s i with _ | t <;>
    rw [hp, ht] at hrel
  · exact .none
  · cases hrel
  · cases hrel
  · cases hrel with
    | some hf =>
      obtain ⟨rs, hf⟩ := hf
      refine .some ⟨hf.size, fun i hi => ?_, fun q hq => ?_⟩
      · rw [follows_tagsAt hf, if_pos (by omega)]
        exact hf.bytes i hi
      · rw [follows_tagsAt hf, if_neg (by omega)]

theorem tracks_boot (fresh : Nat → Nat → UInt8) : (boot fresh).Tracks [] := by
  refine ⟨⟨⟨fun k hk => ?_, fun k => rfl⟩, fun l hl => ?_⟩, ⟨rfl, fun i => ?_⟩⟩
  · simp [boot, lists, live, List.reduceOption_nil] at hk
  · simp [boot, lists, live, List.reduceOption_nil] at hl
  · exact .none

end TagWorld

theorem TaggedBytes.getElem?_create_addByteTag {n : Nat} (tag : Tag) (hn : 0 < n) :
    ((TaggedBytes.create n).addByteTag tag).bytes[0]? = some [tag] := by
  simp [addByteTag, addByteTagRange, create, hn]

/-- A packet whose size is no `int32_t`. -/
def oversized : List TagOp := [.create (2 ^ 31), .addByteTag 0 ⟨7, [], by decide⟩]

end CudaNs3.Network
