import CudaNs3.Lib.Words

/-!
# File streams

A file stream as a row of bytes with a position and the two flags for its end and a failure:
writing, reading and moving on, with rules for a stream at its end and for one in front of given
bytes. Words are stored in the order of the host.
-/

namespace ByteStreams

set_option autoImplicit false

structure Stream where
  bytes : List UInt8 := []
  pos : Nat := 0
  eof : Bool := false
  failed : Bool := false

namespace Stream

def good (s : Stream) : Bool := !s.eof && !s.failed

def write (s : Stream) (bs : List UInt8) : Stream :=
  if s.good then
    { s with
      bytes := s.bytes.take s.pos ++ bs ++ s.bytes.drop (s.pos + bs.length)
      pos := s.pos + bs.length }
  else { s with failed := true }

/-- The bytes that were there, at most `n`; both flags are set when there were fewer. -/
def read (s : Stream) (n : Nat) : List UInt8 × Stream :=
  if s.good then
    let got := (s.bytes.drop s.pos).take n
    let short := decide (got.length < n)
    (got, { s with pos := s.pos + got.length, eof := short, failed := short })
  else ([], { s with failed := true })

def seek (s : Stream) (pos : Nat) : Stream := if s.failed then s else { s with pos }

/-- Moves on by `n` bytes; the flag for the end is cleared in any case. -/
def skip (s : Stream) (n : Nat) : Stream :=
  if s.failed then { s with eof := false } else { s with pos := s.pos + n, eof := false }

end Stream

variable {s : Stream} {bs rest : List UInt8} {n : Nat}

/-- The stream is at its end, where it can be written to. -/
structure AtEnd (s : Stream) : Prop where
  eof : s.eof = false
  failed : s.failed = false
  pos : s.pos = s.bytes.length

theorem atEnd_empty : AtEnd {} := ⟨rfl, rfl, rfl⟩

/-- A stream at its end has had these bytes appended. -/
structure Appends (s : Stream) (bs : List UInt8) (t : Stream) : Prop where
  bytes : t.bytes = s.bytes ++ bs
  atEnd : AtEnd t

theorem AtEnd.write (h : AtEnd s) (bs : List UInt8) : Appends s bs (s.write bs) := by
  have hgood : s.good = true := by rw [Stream.good, h.eof, h.failed]; rfl
  have hbytes : (s.write bs).bytes = s.bytes ++ bs := by
    unfold Stream.write
    rw [if_pos hgood]
    change s.bytes.take s.pos ++ bs ++ s.bytes.drop (s.pos + bs.length) = s.bytes ++ bs
    rw [h.pos, List.take_length, List.drop_eq_nil_of_le (Nat.le_add_right _ _), List.append_nil]
  refine ⟨hbytes, ?_⟩
  constructor
  · rw [Stream.write, if_pos hgood]
    exact h.eof
  · rw [Stream.write, if_pos hgood]
    exact h.failed
  · rw [hbytes, List.length_append, ← h.pos, Stream.write, if_pos hgood]

namespace Appends
variable {t u : Stream} {cs : List UInt8}

theorem trans (h : Appends s bs t) (h' : Appends t cs u) : Appends s (bs ++ cs) u where
  bytes := by rw [h'.bytes, h.bytes, List.append_assoc]
  atEnd := h'.atEnd

theorem write (h : Appends s bs t) (cs : List UInt8) : Appends s (bs ++ cs) (t.write cs) :=
  h.trans (h.atEnd.write cs)

end Appends

/-- The stream can be read and has these bytes in front of it. -/
structure Before (s : Stream) (rest : List UInt8) : Prop where
  eof : s.eof = false
  failed : s.failed = false
  rest : s.bytes.drop s.pos = rest

theorem before_start (bs : List UInt8) : Before { bytes := bs } bs := ⟨rfl, rfl, rfl⟩

namespace Before

theorem read (h : Before s (bs ++ rest)) :
    (s.read bs.length).1 = bs ∧ Before (s.read bs.length).2 rest := by
  have hgood : s.good = true := by rw [Stream.good, h.eof, h.failed]; rfl
  unfold Stream.read
  rw [if_pos hgood, h.rest]
  simp only [List.take_left, Nat.lt_irrefl, decide_false]
  refine ⟨trivial, rfl, rfl, ?_⟩
  change s.bytes.drop (s.pos + bs.length) = rest
  rw [← List.drop_drop, h.rest, List.drop_left]

/-- Nothing is read at the end. -/
theorem read_end (h : Before s []) (hn : 0 < n) :
    (s.read n).1 = [] ∧ (s.read n).2.eof = true ∧ (s.read n).2.failed = true := by
  have hgood : s.good = true := by rw [Stream.good, h.eof, h.failed]; rfl
  unfold Stream.read
  rw [if_pos hgood, h.rest, List.take_nil]
  exact ⟨rfl, decide_eq_true hn, decide_eq_true hn⟩

theorem skip (h : Before s (bs ++ rest)) : Before (s.skip bs.length) rest := by
  unfold Stream.skip
  rw [if_neg (by rw [h.failed]; exact Bool.false_ne_true)]
  refine ⟨rfl, h.failed, ?_⟩
  change s.bytes.drop (s.pos + bs.length) = rest
  rw [← List.drop_drop, h.rest, List.drop_left]

end Before

/-- A stream that has failed is not read again. -/
theorem read_failed (h : s.failed = true) : (s.read n).1 = [] ∧ (s.read n).2 = s := by
  have hgood : ¬ s.good = true := by
    rw [Stream.good, h, Bool.not_true, Bool.and_false]
    exact Bool.false_ne_true
  unfold Stream.read
  rw [if_neg hgood]
  refine ⟨rfl, ?_⟩
  cases s
  cases h
  rfl

/-! ### Words -/

section
variable (bigEndian : Bool)

def hostBytes (n x : Nat) : List UInt8 :=
  if bigEndian then Words.toBytes n x else (Words.toBytes n x).reverse

def ofHostBytes (bs : List UInt8) : Nat :=
  if bigEndian then Words.ofBytes bs else Words.ofBytes bs.reverse

@[simp] theorem length_hostBytes (n x : Nat) : (hostBytes bigEndian n x).length = n := by
  unfold hostBytes
  split
  · exact Words.length_toBytes
  · rw [List.length_reverse, Words.length_toBytes]

theorem ofHostBytes_hostBytes {n x : Nat} (hx : x < 256 ^ n) :
    ofHostBytes bigEndian (hostBytes bigEndian n x) = x := by
  unfold ofHostBytes hostBytes
  cases bigEndian with
  | true => exact Words.ofBytes_toBytes hx
  | false =>
    simp only [Bool.false_eq_true, if_false, List.reverse_reverse]
    exact Words.ofBytes_toBytes hx

/-- Reads into a word of `n` bytes; where there are fewer, they replace the first ones of it. -/
def readWord (n : Nat) (old : BitVec (8 * n)) (s : Stream) : BitVec (8 * n) × Stream :=
  let r := s.read n
  (BitVec.ofNat _ (ofHostBytes bigEndian
    (r.1 ++ (hostBytes bigEndian n old.toNat).drop r.1.length)), r.2)

def writeWord (n : Nat) (x : BitVec (8 * n)) (s : Stream) : Stream :=
  s.write (hostBytes bigEndian n x.toNat)

variable {bigEndian} in
theorem Before.readWord {x : BitVec (8 * n)} (old : BitVec (8 * n))
    (h : Before s (hostBytes bigEndian n x.toNat ++ rest)) :
    (ByteStreams.readWord bigEndian n old s).1 = x ∧
      Before (ByteStreams.readWord bigEndian n old s).2 rest := by
  have hx : x.toNat < 256 ^ n := by
    have hlt := x.isLt
    rwa [Nat.pow_mul] at hlt
  obtain ⟨hread, hrest⟩ := h.read
  rw [length_hostBytes] at hread hrest
  unfold ByteStreams.readWord
  refine ⟨?_, hrest⟩
  simp only [hread, length_hostBytes, List.drop_eq_nil_of_le, Nat.le_refl, List.append_nil,
    ofHostBytes_hostBytes bigEndian hx, BitVec.ofNat_toNat, BitVec.setWidth_eq]

end

end ByteStreams
