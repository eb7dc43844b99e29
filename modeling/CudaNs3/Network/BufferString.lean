import CudaNs3.Lib.Handles
import CudaNs3.Lib.Transition
import CudaNs3.Network.BufferAppend

/-!
# Buffers as byte strings

Any number of Buffers, each under a handle, next to the byte strings that the same operations
make. A zero area is zeros, and no string knows of another.
-/

namespace CudaNs3.Network

open Buffer Handles
set_option autoImplicit false

/-- The Buffers that were made, in order; a destroyed one leaves its place empty. -/
structure World where
  memory : Memory
  buffers : List (Option Buffer)

/-- The operations of a program on its Buffers, named by their handles. The bytes that
`AddAtStart` and `AddAtEnd` make room for are written at once. -/
inductive BufferOp where
  | construct (zeroSize : Nat)
  | addAtStart (i : Nat) (ws : List Writing)
  | addAtEnd (i : Nat) (ws : List Writing)
  | addAtEndBuffer (i j : Nat)
  | removeAtStart (i n : Nat)
  | removeAtEnd (i n : Nat)
  | createFragment (i start length : Nat)
  | createFullCopy (i : Nat)
  | copy (i : Nat)
  | assign (i j : Nat)
  | destroy (i : Nat)

def written (ws : List Writing) : List UInt8 := ws.flatMap Writing.bytes

namespace World

/-- The start of the program. -/
def boot (fresh : Nat → Nat → UInt8) : World :=
  ⟨⟨fun _ => ⟨0, 0, 0, 0, fun _ => 0⟩, 0, fresh, [], 0, 0⟩, []⟩

def put (w : World) (i : Nat) (r : Memory × Buffer) : World := ⟨r.1, w.buffers.set i (some r.2)⟩

def push (w : World) (r : Memory × Buffer) : World := ⟨r.1, w.buffers ++ [some r.2]⟩

/-- An operation on a handle without a Buffer does nothing. -/
def on (w : World) (i : Nat) (f : Buffer → Except Fault World) : Except Fault World :=
  match get w.buffers i with
  | some b => f b
  | none => .ok w

def step (w : World) : BufferOp → Except Fault World
  | .construct zeroSize => .ok (w.push (construct w.memory zeroSize))
  | .addAtStart i ws => w.on i fun b => do
    let (h, b) ← Buffer.addAtStart w.memory b (written ws).length
    let (h, _) ← b.begin.performAll h ws
    return w.put i (h, b)
  | .addAtEnd i ws => w.on i fun b => do
    let (h, b) ← Buffer.addAtEnd w.memory b (written ws).length
    let it ← b.end.prev (written ws).length
    let (h, _) ← it.performAll h ws
    return w.put i (h, b)
  | .addAtEndBuffer i j => w.on i fun b => w.on j fun o => do
    return w.put i (← Buffer.addAtEndBuffer w.memory b o)
  | .removeAtStart i n => w.on i fun b => .ok (w.put i (w.memory, b.removeAtStart n))
  | .removeAtEnd i n => w.on i fun b => .ok (w.put i (w.memory, b.removeAtEnd n))
  | .createFragment i start length => w.on i fun b =>
    .ok (w.push (Buffer.createFragment w.memory b start length))
  | .createFullCopy i => w.on i fun b => do
    return w.push (← Buffer.createFullCopy w.memory b)
  | .copy i => w.on i fun b => .ok (w.push (Buffer.copy w.memory b))
  | .assign i j => w.on i fun b => w.on j fun o => .ok (w.put i (Buffer.assign w.memory b o))
  | .destroy i => w.on i fun b => .ok ⟨Buffer.destroy w.memory b, w.buffers.set i none⟩

def perform (w : World) (op : BufferOp) : Option World := (w.step op).toOption

/-- What the documentation asks of the caller. -/
def Precondition (w : World) : BufferOp → Prop
  | .addAtEndBuffer i j => i ≠ j
  | .createFragment i start length =>
    ∀ b, get w.buffers i = some b → start + length ≤ b.getSize
  | _ => True

instance (w : World) (op : BufferOp) : Decidable (w.Precondition op) := by
  cases op with
  | addAtEndBuffer i j => exact inferInstanceAs (Decidable (i ≠ j))
  | createFragment i start length =>
    exact inferInstanceAs (Decidable (∀ b ∈ get w.buffers i, start + length ≤ b.getSize))
  | _ => exact .isTrue trivial

end World

/-! ### Strings -/

def onString (s : List (Option (List UInt8))) (i : Nat)
    (f : List UInt8 → List (Option (List UInt8))) : List (Option (List UInt8)) :=
  match get s i with
  | some l => f l
  | none => s

def stringStep (s : List (Option (List UInt8))) : BufferOp → List (Option (List UInt8))
  | .construct zeroSize => s ++ [some (List.replicate zeroSize 0)]
  | .addAtStart i ws => onString s i fun l => s.set i (some (written ws ++ l))
  | .addAtEnd i ws => onString s i fun l => s.set i (some (l ++ written ws))
  | .addAtEndBuffer i j => onString s i fun l => onString s j fun l' => s.set i (some (l ++ l'))
  | .removeAtStart i n => onString s i fun l => s.set i (some (l.drop n))
  | .removeAtEnd i n => onString s i fun l => s.set i (some (l.take (l.length - n)))
  | .createFragment i start length => onString s i fun l =>
    s ++ [some ((l.drop start).take length)]
  | .createFullCopy i => onString s i fun l => s ++ [some l]
  | .copy i => onString s i fun l => s ++ [some l]
  | .assign i j => onString s i fun _ => onString s j fun l' => s.set i (some l')
  | .destroy i => onString s i fun _ => s.set i none

/-! ### One step -/

namespace World

variable {w w' : World} {i j n : Nat} {b o x : Buffer} {h' : Memory} {l : List UInt8}

def Sound (w : World) : Prop := Shares w.memory (live w.buffers)

def strings (w : World) : List (Option (List UInt8)) := view (contents w.memory) w.buffers

theorem Sound.cons (hw : w.Sound) (hb : get w.buffers i = some b) :
    Shares w.memory (b :: others w.buffers i) := hw.perm (live_perm hb)

theorem Sound.placed (hw : w.Sound) (hb : get w.buffers i = some b) : b.Placed w.memory :=
  Shares.placed hw b (mem_live_of_get hb)

theorem put_spec (hb : get w.buffers i = some b)
    (hx : Becomes w.memory (others w.buffers i) h' x l) :
    (w.put i (h', x)).Sound ∧ (w.put i (h', x)).strings = w.strings.set i (some l) := by
  constructor
  · exact hx.shares.perm (live_set_perm (lt_length_of_get hb)).symm
  · have hview := view_set (t := w.buffers) (i := i) (some x) hx.keeps
    rw [Option.map_some, hx.contents] at hview
    exact hview

theorem push_spec (hx : Becomes w.memory (live w.buffers) h' x l) :
    (w.push (h', x)).Sound ∧ (w.push (h', x)).strings = w.strings ++ [some l] := by
  constructor
  · have hperm : (x :: live w.buffers).Perm (live (w.buffers ++ [some x])) := by
      rw [live_push]
      exact (List.perm_append_singleton x _).symm
    exact hx.shares.perm hperm
  · have hview := view_push (t := w.buffers) x hx.keeps
    rw [hx.contents] at hview
    exact hview

theorem on_spec {f : Buffer → Except Fault World}
    {g : List UInt8 → List (Option (List UInt8))} (hw : w.Sound)
    (hf : ∀ b, get w.buffers i = some b →
      ∃ w', f b = .ok w' ∧ w'.Sound ∧ w'.strings = g (contents w.memory b)) :
    ∃ w', w.on i f = .ok w' ∧ w'.Sound ∧ w'.strings = onString w.strings i g := by
  unfold on onString strings
  rw [get_view]
  rcases hget : get w.buffers i with _ | b
  · exact ⟨w, rfl, hw, rfl⟩
  · exact hf b hget

theorem becomes_narrow (hw : w.Sound) (hb : get w.buffers i = some b) (hx : b.Narrows x)
    (hl : contents w.memory x = l) :
    Becomes w.memory (others w.buffers i) w.memory x l :=
  ⟨(hw.cons hb).narrow hx, Keeps.refl _ _, hl⟩

/-- The copy constructor, next to all Buffers. -/
theorem becomes_copy (hw : w.Sound) (hb : get w.buffers i = some b) :
    Becomes w.memory (live w.buffers) (Buffer.copy w.memory b).1 (Buffer.copy w.memory b).2
      (contents w.memory b) := by
  refine ⟨?_, (recounts_copy w.memory b).keeps _, contents_copy w.memory b⟩
  exact (copy_shares (hw.cons hb)).perm ((live_perm hb).symm.cons _)

theorem addAtStart_step (hw : w.Sound) (hb : get w.buffers i = some b) (ws : List Writing) :
    ∃ w', (do
        let (h, b) ← Buffer.addAtStart w.memory b (written ws).length
        let (h, _) ← b.begin.performAll h ws
        return w.put i (h, b)) = .ok w' ∧ w'.Sound ∧
      w'.strings = w.strings.set i (some (written ws ++ contents w.memory b)) := by
  obtain ⟨h', x, heq, hfit, hplaced, -, -, -, hx⟩ := addAtStart_write (hw.cons hb) (written ws)
  have hws := performAll_spec hplaced.toOrdered hplaced.stored ws hfit
  refine ⟨_, ?_, put_spec hb hx⟩
  simp only [heq, bind, Except.bind, begin, hws]
  rfl

theorem addAtEnd_step (hw : w.Sound) (hb : get w.buffers i = some b) (ws : List Writing) :
    ∃ w', (do
        let (h, b) ← Buffer.addAtEnd w.memory b (written ws).length
        let it ← b.end.prev (written ws).length
        let (h, _) ← it.performAll h ws
        return w.put i (h, b)) = .ok w' ∧ w'.Sound ∧
      w'.strings = w.strings.set i (some (contents w.memory b ++ written ws)) := by
  obtain ⟨h', x, heq, -, hle, hfit, hplaced, -, -, -, hx⟩ :=
    addAtEnd_write (hw.cons hb) (written ws)
  have hws := performAll_spec hplaced.toOrdered hplaced.stored ws hfit
  refine ⟨_, ?_, put_spec hb hx⟩
  simp only [heq, bind, Except.bind, end_prev hle, hws]
  rfl

theorem fragment_step (hw : w.Sound) (hb : get w.buffers i = some b) {start length : Nat}
    (hle : start + length ≤ b.getSize) :
    (w.push (Buffer.createFragment w.memory b start length)).Sound ∧
      (w.push (Buffer.createFragment w.memory b start length)).strings =
        w.strings ++ [some (((contents w.memory b).drop start).take length)] := by
  have hcopy := becomes_copy hw hb
  have hord := (hcopy.shares.placed _ List.mem_cons_self).toOrdered
  have hs := narrows_removeAtStart hord start
  have he := narrows_removeAtEnd hs.ordered (b.getSize - (start + length))
  have hsize := congrArg List.length (contents_removeAtStart hord
    (Buffer.copy w.memory b).1 start)
  rw [length_contents, List.length_drop, hcopy.contents, length_contents] at hsize
  have hx : Becomes w.memory (live w.buffers) (Buffer.copy w.memory b).1
      (((Buffer.copy w.memory b).2.removeAtStart start).removeAtEnd
        (b.getSize - (start + length)))
      (((contents w.memory b).drop start).take length) := by
    refine ⟨hcopy.shares.narrow (hs.trans he), hcopy.keeps, ?_⟩
    rw [contents_removeAtEnd hs.ordered, contents_removeAtStart hord, hcopy.contents, hsize]
    congr 1
    omega
  exact push_spec hx

theorem assign_step (hw : w.Sound) (hb : get w.buffers i = some b)
    (ho : get w.buffers j = some o) :
    (w.put i (Buffer.assign w.memory b o)).Sound ∧
      (w.put i (Buffer.assign w.memory b o)).strings =
        w.strings.set i (some (contents w.memory o)) := by
  have hkeeps := assign_keeps w.memory b o
  apply put_spec hb
  refine ⟨?_, hkeeps _, hkeeps [o] o List.mem_cons_self⟩
  by_cases hij : i = j
  · subst hij
    obtain rfl := Option.some.inj (hb.symm.trans ho)
    apply (hw.cons hb).congr
    exact ⟨by simp, fun x _ => ⟨(w.memory.blocks x.data).bytes, by simp⟩⟩
  · exact assign_shares (hw.cons hb) (mem_others ho hij)

theorem destroy_step (hw : w.Sound) (hb : get w.buffers i = some b) :
    (⟨Buffer.destroy w.memory b, w.buffers.set i none⟩ : World).Sound ∧
      (⟨Buffer.destroy w.memory b, w.buffers.set i none⟩ : World).strings =
        w.strings.set i none :=
  ⟨destroy_shares (hw.cons hb), view_set none (destroy_keeps w.memory b _)⟩

/-- Two uses of `AddAtEnd(const Buffer&)` are left out: joining zero areas when `o` has bytes
behind its own, and appending in place a Buffer that is on the same block. -/
def Proper (w : World) : BufferOp → Prop
  | .addAtEndBuffer i j => ∀ b, get w.buffers i = some b → ∀ o, get w.buffers j = some o →
    if joins w.memory b o then o.end_ = o.zeroAreaEnd
    else ¬ (b.zeroSize = 0 ∧ b.data = o.data ∧ growsInPlace w.memory b o.getSize)
  | _ => True

instance (w : World) (op : BufferOp) : Decidable (w.Proper op) := by
  cases op with
  | addAtEndBuffer i j =>
    exact inferInstanceAs (Decidable (∀ b ∈ get w.buffers i, ∀ o ∈ get w.buffers j,
      if joins w.memory b o then o.end_ = o.zeroAreaEnd
      else ¬ (b.zeroSize = 0 ∧ b.data = o.data ∧ growsInPlace w.memory b o.getSize)))
  | _ => exact .isTrue trivial

theorem addAtEndBuffer_step (hw : w.Sound) (hij : i ≠ j) (hb : get w.buffers i = some b)
    (ho : get w.buffers j = some o) (hproper : w.Proper (.addAtEndBuffer i j)) :
    ∃ r, Buffer.addAtEndBuffer w.memory b o = .ok r ∧ (w.put i r).Sound ∧
      (w.put i r).strings =
        w.strings.set i (some (contents w.memory b ++ contents w.memory o)) := by
  have hp := hproper b hb o ho
  have hmem : o ∈ others w.buffers i := mem_others ho hij
  split_ifs at hp with hj
  · have hrun := addAtEndBuffer_joins (hw.cons hb) hmem hj
    have hover : ¬ overruns w.memory b o := by
      unfold overruns
      omega
    rw [if_neg hover] at hrun
    obtain ⟨h', x, heq, hshares, hkeeps, hcontents⟩ := hrun
    exact ⟨_, heq, put_spec hb ⟨hshares, hkeeps, hcontents hp⟩⟩
  · have hrun := addAtEndBuffer_general (hw.cons hb) hmem hj
    rw [if_neg hp] at hrun
    obtain ⟨h', x, heq, hx⟩ := hrun
    exact ⟨_, heq, put_spec hb hx⟩

theorem step_spec {op : BufferOp} (hw : w.Sound) (hpre : w.Precondition op)
    (hproper : w.Proper op) :
    ∃ w', w.step op = .ok w' ∧ w'.Sound ∧ w'.strings = stringStep w.strings op := by
  cases op with
  | construct zeroSize =>
    exact ⟨_, rfl, push_spec ⟨construct_shares hw zeroSize, construct_keeps hw zeroSize,
      contents_construct w.memory zeroSize⟩⟩
  | addAtStart i ws => exact on_spec hw fun b hb => addAtStart_step hw hb ws
  | addAtEnd i ws => exact on_spec hw fun b hb => addAtEnd_step hw hb ws
  | addAtEndBuffer i j =>
    apply on_spec hw
    intro b hb
    apply on_spec (g := fun l' => w.strings.set i (some (contents w.memory b ++ l'))) hw
    intro o ho
    obtain ⟨r, heq, hr⟩ := addAtEndBuffer_step hw hpre hb ho hproper
    exact ⟨_, by rw [heq]; rfl, hr⟩
  | removeAtStart i n =>
    apply on_spec hw
    intro b hb
    have hord := (hw.placed hb).toOrdered
    exact ⟨_, rfl, put_spec hb (becomes_narrow hw hb (narrows_removeAtStart hord n)
      (contents_removeAtStart hord w.memory n))⟩
  | removeAtEnd i n =>
    apply on_spec hw
    intro b hb
    have hord := (hw.placed hb).toOrdered
    rw [length_contents]
    exact ⟨_, rfl, put_spec hb (becomes_narrow hw hb (narrows_removeAtEnd hord n)
      (contents_removeAtEnd hord w.memory n))⟩
  | createFragment i start length =>
    exact on_spec hw fun b hb => ⟨_, rfl, fragment_step hw hb (hpre b hb)⟩
  | createFullCopy i =>
    apply on_spec hw
    intro b hb
    obtain ⟨h', t, heq, ht, -, -⟩ := createFullCopy_spec (hw.cons hb)
    have hperm := live_perm hb
    refine ⟨_, by rw [heq]; rfl, push_spec ⟨ht.shares.perm (hperm.symm.cons t), ?_, ht.contents⟩⟩
    exact fun x hx => ht.keeps x (hperm.mem_iff.mp hx)
  | copy i => exact on_spec hw fun b hb => ⟨_, rfl, push_spec (becomes_copy hw hb)⟩
  | assign i j =>
    apply on_spec hw
    intro b hb
    apply on_spec (g := fun l' => w.strings.set i (some l')) hw
    intro o ho
    exact ⟨_, rfl, assign_step hw hb ho⟩
  | destroy i => exact on_spec hw fun b hb => ⟨_, rfl, destroy_step hw hb⟩

end World

/-! ### What is reported -/

theorem zeroes_eq (n : Nat) : zeroes n = List.replicate n 0 := by
  induction n using Nat.strongRecOn with
  | ind n ih =>
    rw [zeroes]
    split_ifs with h0
    · rw [h0]
      rfl
    · rw [ih _ (by omega), ← List.replicate_add]
      congr 1
      omega

/-- The stored bytes before the zero area, the zeros and the bytes behind it, cut off at `n`. -/
theorem Buffer.Ordered.take_contents {b : Buffer} (hb : b.Ordered) (h : Memory) (n : Nat) :
    (contents h b).take n =
      Bytes.read (h.blocks b.data).bytes b.start (min (b.zeroAreaStart - b.start) n) ++
        (List.replicate (min b.zeroSize (n - (b.zeroAreaStart - b.start))) 0 ++
          Bytes.read (h.blocks b.data).bytes b.zeroAreaStart
            (min (b.end_ - b.zeroAreaEnd) (n - (b.zeroAreaStart - b.start) - b.zeroSize))) := by
  rw [hb.contents_eq h, ← hb.read_head, ← hb.read_tail, List.take_append, List.take_append,
    Bytes.take_read, Bytes.take_read, List.take_replicate, Bytes.length_read,
    List.length_replicate, Nat.min_comm n, Nat.min_comm (n - _), Nat.min_comm (n - _ - _)]

theorem Buffer.Ordered.copyData_eq {b : Buffer} (hb : b.Ordered) (h : Memory) (n : Nat) :
    copyData h b n = (contents h b).take n := by
  rw [hb.take_contents]
  unfold copyData zeroSize
  simp only [zeroes_eq]
  generalize b.zeroAreaStart - b.start = a
  generalize b.zeroAreaEnd - b.zeroAreaStart = z
  rw [show n - min a n = n - a by omega, show n - a - min z (n - a) = n - a - z by omega]
  by_cases hn : 0 < n
  · rw [if_pos hn]
    by_cases ha : 0 < n - a
    · rw [if_pos ha]
      by_cases hz : 0 < n - a - z
      · rw [if_pos hz]
      · rw [if_neg hz, Nat.eq_zero_of_not_pos hz, Nat.min_zero, Bytes.read_zero]
    · rw [if_neg ha, Nat.eq_zero_of_not_pos ha, Nat.zero_sub, Nat.min_zero, Nat.min_zero,
        Bytes.read_zero, List.replicate_zero, List.append_nil, List.append_nil, List.append_nil]
  · rw [if_neg hn, Nat.eq_zero_of_not_pos hn]
    simp

/-- The two versions of `CopyData` report the same bytes. -/
theorem Buffer.copyDataTo_eq (h : Memory) (b : Buffer) (n : Nat) :
    copyDataTo h b n = copyData h b n := by
  unfold copyDataTo copyData
  simp only
  generalize b.zeroAreaStart - b.start = a
  generalize b.zeroAreaEnd - b.zeroAreaStart = z
  by_cases hn : 0 < n
  · rw [if_pos hn, if_pos hn]
    rw [show n - min a n = n - a by omega]
    by_cases ha : min a n < n
    · rw [if_pos ha, if_pos (show 0 < n - a by omega)]
      by_cases hz : min z (n - a) < n - a
      · rw [if_pos hz, if_pos (show 0 < n - a - min z (n - a) by omega)]
      · rw [if_neg hz, if_neg (show ¬ 0 < n - a - min z (n - a) by omega)]
    · rw [if_neg ha, if_neg (show ¬ 0 < n - a by omega)]
  · rw [if_neg hn, if_neg hn]

theorem Buffer.readU8_eq (h : Memory) (b : Buffer) {c : Nat} (hc : b.start ≤ c)
    (hlt : c < b.end_) : (b.iterator c).readU8 h =
      .ok (b.byteAt (h.blocks b.data).bytes c, b.iterator (c + 1)) := by
  unfold Iterator.readU8 Iterator.peekU8
  rw [check_pos (show (b.iterator c).dataStart ≤ (b.iterator c).current ∧
    (b.iterator c).current < (b.iterator c).dataEnd from ⟨hc, hlt⟩)]
  rfl

theorem Buffer.read_eq (h : Memory) (b : Buffer) {c n : Nat} (hc : b.start ≤ c)
    (hle : c + n ≤ b.end_) : (b.iterator c).read h n =
      .ok (Bytes.read (b.byteAt (h.blocks b.data).bytes) c n) := by
  induction n generalizing c with
  | zero => rfl
  | succ n ih =>
    have hrest := ih (c := c + 1) (by omega) (by omega)
    unfold Iterator.read
    simp only [readU8_eq h b hc (show c < b.end_ by omega), bind, Except.bind, hrest]
    rw [Nat.add_comm n 1, Bytes.read_add]
    rfl

/-- What is read from a Buffer, in whole or in part, is `l`. -/
structure Buffer.Reports (h : Memory) (b : Buffer) (l : List UInt8) : Prop where
  size : b.getSize = l.length
  copyData : ∀ n, copyData h b n = l.take n
  copyDataTo : ∀ n, copyDataTo h b n = l.take n
  read : ∀ n ≤ l.length, b.begin.read h n = .ok (l.take n)

theorem Buffer.Ordered.reports {b : Buffer} (hb : b.Ordered) (h : Memory) :
    b.Reports h (contents h b) := by
  refine ⟨(length_contents h b).symm, hb.copyData_eq h, fun n => ?_, fun n hn => ?_⟩
  · rw [copyDataTo_eq, hb.copyData_eq]
  · rw [length_contents] at hn
    have hle : b.start + n ≤ b.end_ := by
      have := hb.start_le
      have := hb.zero_le
      have := hb.le_end
      unfold getSize at hn
      omega
    rw [contents, Bytes.take_read, Nat.min_eq_left hn]
    exact read_eq h b (Nat.le_refl _) hle

/-- Every handle reports its string. -/
def World.Agrees (w : World) (s : List (Option (List UInt8))) : Prop :=
  ∀ i, match get w.buffers i, get s i with
    | some b, some l => b.Reports w.memory l
    | none, none => True
    | _, _ => False

theorem World.Sound.agrees {w : World} (hw : w.Sound) : w.Agrees w.strings := by
  intro i
  unfold World.strings
  rw [get_view]
  rcases hget : get w.buffers i with _ | b
  · trivial
  · exact (hw.placed hget).toOrdered.reports w.memory

theorem World.sound_boot (fresh : Nat → Nat → UInt8) : (World.boot fresh).Sound := by
  constructor <;> simp [World.boot, live, List.reduceOption_nil]

/-- A packet buffer is a byte string, as long as `AddAtEnd(const Buffer&)` is used properly. -/
theorem buffer_strings (fresh : Nat → Nat → UInt8) (ops : List BufferOp)
    (hops : Transition.Along World.perform (fun w op => w.Precondition op ∧ w.Proper op)
      (World.boot fresh) ops) :
    ∃ w, Transition.exec World.perform (World.boot fresh) ops = some w ∧
      w.Agrees (ops.foldl stringStep []) := by
  obtain ⟨w, hrun, hw, hview⟩ := Transition.exec_along World.Sound
    World.strings stringStep (fun w op hw hop => by
      obtain ⟨w', heq, hw', hstrings⟩ := World.step_spec hw hop.1 hop.2
      exact ⟨w', by rw [World.perform, heq]; rfl, hw', hstrings⟩)
    (World.sound_boot fresh) hops
  refine ⟨w, hrun, ?_⟩
  have hagrees := hw.agrees
  rwa [hview] at hagrees

theorem buffer_strings_appended :
    ∃ w, Transition.exec World.perform (World.boot fun _ _ => 0)
        [.construct 2, .addAtEnd 0 [.u8 7], .construct 3, .addAtEndBuffer 0 1] = some w ∧
      w.Agrees [some [0, 0, 7, 0, 0, 0], some [0, 0, 0]] := by
  exact buffer_strings _ _ (by decide +kernel)

/-- What a reading iterator reports under a handle. -/
def World.report (w : World) (i : Nat) : Option (List UInt8) :=
  (get w.buffers i).bind fun b => (b.begin.read w.memory b.getSize).toOption

theorem World.Agrees.report {w : World} {s : List (Option (List UInt8))} (hw : w.Agrees s)
    (i : Nat) : w.report i = get s i := by
  have hi := hw i
  unfold World.report
  rcases hb : get w.buffers i with _ | b <;> rcases hs : get s i with _ | l <;>
    simp only [hb, hs] at hi
  · rfl
  · rw [Option.bind_some, hi.size, hi.read _ (Nat.le_refl _), List.take_length]
    rfl

/-- The byte 7 behind the zeros is written two cells late, over an old byte. -/
def misplacing : List BufferOp :=
  [.construct 0, .addAtEnd 0 [.u32 0x09090909], .removeAtEnd 0 4, .addAtEnd 0 [], .construct 2,
    .addAtEnd 1 [.u8 7], .addAtEndBuffer 0 1]

/-- The same on a block of one byte. -/
def overrunning : List BufferOp :=
  [.construct 5, .construct 5, .addAtEnd 1 [.u8 7], .addAtEndBuffer 0 1]

/-- There is room for a Buffer behind itself. -/
def aliasing : List BufferOp :=
  [.construct 0, .addAtEnd 0 [.u16 0x0909], .removeAtEnd 0 2, .addAtEnd 0 [.u8 1], .copy 0,
    .addAtEndBuffer 0 1]

/-- With no more than the preconditions, the bytes differ, or the run does not end. -/
theorem strings_differ :
    ¬ (∀ fresh ops, Transition.Along World.perform World.Precondition (World.boot fresh) ops →
        ∃ w, Transition.exec World.perform (World.boot fresh) ops = some w ∧
          w.Agrees (ops.foldl stringStep [])) ∧
      Transition.exec World.perform (World.boot fun _ _ => 0) overrunning = none ∧
      Transition.exec World.perform (World.boot fun _ _ => 0) aliasing = none := by
  refine ⟨fun hclaim => ?_, ?_, ?_⟩
  · obtain ⟨w, hrun, hagrees⟩ := hclaim (fun _ _ => 0) misplacing (by decide +kernel)
    have hreport : (Transition.exec World.perform (World.boot fun _ _ => 0) misplacing).bind
        (·.report 0) = some [0, 0, 9] := by decide +kernel
    have hstring : get (misplacing.foldl stringStep []) 0 = some [0, 0, 7] := by decide +kernel
    rw [hrun, Option.bind_some, hagrees.report, hstring] at hreport
    exact absurd hreport (by decide)
  · exact Option.isNone_iff_eq_none.mp (by decide +kernel)
  · exact Option.isNone_iff_eq_none.mp (by decide +kernel)

end CudaNs3.Network
