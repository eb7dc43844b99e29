import Mathlib.Data.UInt

/-!
# Packet tag lists

A `PacketTagList` is a linked list of nodes, and a copy of it starts with the same node. So the
lists form a tree: two of them merge at the first node with a count above one. `Remove` and
`Replace` copy the shared nodes before the one they look for.
-/

namespace CudaNs3.Network

set_option autoImplicit false

/-- A tag as it serializes itself. `CreateTagData` refuses the largest size. -/
structure PacketTag where
  tid : UInt16
  content : List UInt8
  length_lt : content.length < 2 ^ 32 - 1
  deriving DecidableEq

namespace PacketTagList

/-- The `size` of a node is the length of its `data`. -/
structure TagData where
  next : Option Nat
  count : Nat
  tid : UInt16
  data : List UInt8

/-- The nodes under the numbers in which `malloc` returned them; a freed one is `none`. -/
structure TagHeap where
  nodes : Nat → Option TagData
  fresh : Nat

namespace TagHeap

variable (h : TagHeap)

def set (k : Nat) (n : Option TagData) : TagHeap :=
  { h with nodes := fun i => if i = k then n else h.nodes i }

def alloc (n : TagData) : TagHeap × Nat := ({ h.set h.fresh (some n) with fresh := h.fresh + 1 }, h.fresh)

def free (k : Nat) : TagHeap := h.set k none

/-- `cur->count--` and `next->count++`; `none` when there is no such node. -/
def setCount (k : Nat) (f : Nat → Nat) : Option TagHeap := do
  let n ← h.nodes k
  return h.set k (some { n with count := f n.count })

end TagHeap

/-- `*prevNext = value`, where `prevNext` points to the `next` of a node, or to the `m_next` of
the list. -/
def setNext (h : TagHeap) (m : Option Nat) (prevNext value : Option Nat) :
    Option (TagHeap × Option Nat) :=
  match prevNext with
  | none => some (h, value)
  | some k => do
    let n ← h.nodes k
    return (h.set k (some { n with next := value }), m)

/-- Where the first loop of `COWTraverse` ends. -/
inductive Stop where
  | ended
  | found (prevNext : Option Nat) (cur : Nat)
  | merge (prevNext : Option Nat) (cur : Nat)

/-- The loops follow `next`; a list has fewer nodes than the heap, so `h.fresh` is enough fuel. -/
def search (h : TagHeap) (tid : UInt16) : Nat → Option Nat → Option Nat → Option Stop
  | _, _, none => some .ended
  | 0, _, some _ => none
  | fuel + 1, prevNext, some cur => do
    let n ← h.nodes cur
    if 1 < n.count then return .merge prevNext cur
    else if n.tid = tid then return .found prevNext cur
    else search h tid fuel (some cur) n.next

/-- The node of `tid` from `cur` on: the second loop of `COWTraverse`, and that of `Peek`. -/
def find (h : TagHeap) (tid : UInt16) : Nat → Option Nat → Option (Option TagData)
  | _, none => some none
  | 0, some _ => none
  | fuel + 1, some cur => do
    let n ← h.nodes cur
    if n.tid = tid then return some n else find h tid fuel n.next

/-- The third loop of `COWTraverse`: the nodes before `tid` are copied. -/
def copyUntil (tid : UInt16) : Nat → TagHeap → Option Nat → Option Nat → Nat →
    Option (TagHeap × Option Nat × Option Nat × Nat)
  | 0, _, _, _, _ => none
  | fuel + 1, h, m, prevNext, cur => do
    let n ← h.nodes cur
    if n.tid = tid then return (h, m, prevNext, cur)
    else
      let h ← h.setCount cur (· - 1)
      let (h, copy) := h.alloc { n with count := 1 }
      let next ← n.next
      let h ← h.setCount next (· + 1)
      let (h, m) ← setNext h m prevNext (some copy)
      copyUntil tid fuel h m (some copy) next

/-- What `COWTraverse` does once it has the node: `preMerge`, the heap, `m_next`, `cur` and
`prevNext` to the heap, `m_next` and the result. -/
abbrev COWWriter (α : Type) :=
  Bool → TagHeap → Option Nat → Nat → Option Nat → Option (TagHeap × Option Nat × α)

def cowTraverse {α : Type} (h : TagHeap) (m : Option Nat) (tid : UInt16) (writer : COWWriter α) :
    Option (TagHeap × Option Nat × Option α) := do
  match ← search h tid h.fresh none m with
  | .ended => return (h, m, none)
  | .found prevNext cur =>
    let (h, m, a) ← writer true h m cur prevNext
    return (h, m, some a)
  | .merge prevNext cur =>
    match ← find h tid h.fresh (some cur) with
    | none => return (h, m, none)
    | some _ =>
      let (h, m, prevNext, cur) ← copyUntil tid h.fresh h m prevNext cur
      let (h, m, a) ← writer false h m cur prevNext
      return (h, m, some a)

/-- The content is what the tag gets back. -/
def removeWriter : COWWriter (List UInt8) := fun preMerge h m cur prevNext => do
  let n ← h.nodes cur
  let (h, m) ← setNext h m prevNext n.next
  if preMerge then return (h.free cur, m, n.data)
  else
    let h ← h.setCount cur (· - 1)
    match n.next with
    | none => return (h, m, n.data)
    | some next => return (← h.setCount next (· + 1), m, n.data)

/-- `tag.Serialize(TagBuffer(data, data + size))`; an assertion of `TagBuffer` fails when the tag
is longer. -/
def serializeInto (content data : List UInt8) : Option (List UInt8) :=
  if content.length ≤ data.length then some (content ++ data.drop content.length) else none

def replaceWriter (tag : PacketTag) : COWWriter Unit := fun preMerge h m cur prevNext => do
  let n ← h.nodes cur
  if preMerge then
    let data ← serializeInto tag.content n.data
    return (h.set cur (some { n with data := data }), m, ())
  else
    let h ← h.setCount cur (· - 1)
    let (h, copy) := h.alloc ⟨n.next, 1, tag.tid, tag.content⟩
    let h ← match n.next with
      | none => some h
      | some next => h.setCount next (· + 1)
    let (h, m) ← setNext h m prevNext (some copy)
    return (h, m, ())

def remove (h : TagHeap) (m : Option Nat) (tid : UInt16) :
    Option (TagHeap × Option Nat × Option (List UInt8)) := cowTraverse h m tid removeWriter

/-- An assertion fails when there is such a tag. -/
def add (h : TagHeap) (m : Option Nat) (tag : PacketTag) : Option (TagHeap × Option Nat) := do
  match ← find h tag.tid h.fresh m with
  | some _ => none
  | none =>
    let (h, head) := h.alloc ⟨m, 1, tag.tid, tag.content⟩
    return (h, some head)

def replace (h : TagHeap) (m : Option Nat) (tag : PacketTag) :
    Option (TagHeap × Option Nat × Bool) := do
  let (h, m, found) ← cowTraverse h m tag.tid (replaceWriter tag)
  match found with
  | some _ => return (h, m, true)
  | none =>
    let (h, m) ← add h m tag
    return (h, m, false)

def peek (h : TagHeap) (m : Option Nat) (tid : UInt16) : Option (Option (List UInt8)) := do
  let n ← find h tid h.fresh m
  return n.map TagData.data

/-- The copy constructor. -/
def copy (h : TagHeap) (o : Option Nat) : Option (TagHeap × Option Nat) :=
  match o with
  | none => some (h, none)
  | some k => do
    let h ← h.setCount k (· + 1)
    return (h, some k)

/-- The loop of `RemoveAll`, in which a node is freed once the next one has been counted. -/
def removeFrom : Nat → TagHeap → Option Nat → Option Nat → Option TagHeap
  | 0, _, _, some _ => none
  | _, h, prev, none => some (match prev with
    | none => h
    | some p => h.free p)
  | fuel + 1, h, prev, some cur => do
    let n ← h.nodes cur
    let h := h.set cur (some { n with count := n.count - 1 })
    if 0 < n.count - 1 then return (match prev with
      | none => h
      | some p => h.free p)
    else
      let h := match prev with
        | none => h
        | some p => h.free p
      removeFrom fuel h (some cur) n.next

def removeAll (h : TagHeap) (m : Option Nat) : Option TagHeap := removeFrom h.fresh h none m

/-- `operator=`. -/
def assign (h : TagHeap) (m o : Option Nat) : Option (TagHeap × Option Nat) :=
  if m = o then some (h, m)
  else do
    let h ← removeAll h m
    copy h o

end PacketTagList

end CudaNs3.Network
