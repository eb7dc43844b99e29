import CudaNs3.Tcp.RxFin

/-!
# The window of the receive buffer

`MaxRxSequence` is the first number that is not accepted. `Add` cuts a segment at another number,
and not at all when the buffer is empty; the window is kept where that number is not the greater one.
The bytes themselves do not matter here, so all of them are taken to be zero.
-/

namespace CudaNs3.Tcp

open SequenceNumber TcpRxBuffer Intervals
set_option autoImplicit false

/-- The calls on the buffer. -/
inductive RxCall where
  | add (seq : SequenceNumber 32) (p : List UInt8)
  | extract (maxSize : BitVec 32)
  | setFinSequence (seq : SequenceNumber 32)
  | setMaxBufferSize (n : BitVec 32)

namespace TcpRxBuffer

def setMaxBufferSize (s : TcpRxBuffer) (n : BitVec 32) : TcpRxBuffer := { s with maxBuffer := n }

def step (s : TcpRxBuffer) : RxCall → Option TcpRxBuffer
  | .add seq p => (s.add seq p).map Prod.fst
  | .extract maxSize => (s.extract maxSize).map Prod.fst
  | .setFinSequence seq => some (s.setFinSequence seq)
  | .setMaxBufferSize n => some (s.setMaxBufferSize n)

/-- The number of a byte that is stored. -/
def Holds (s : TcpRxBuffer) (x : SequenceNumber 32) : Prop :=
  ∃ block ∈ s.data, ∃ i < block.2.length, x = block.1 + BitVec.ofNat 32 i

/-- The first number that the application has not read. -/
def unread (s : TcpRxBuffer) : SequenceNumber 32 :=
  match s.data with
  | [] => s.nextRxSeq
  | (first, _) :: _ => if gt s.nextRxSeq first then first else s.nextRxSeq

/-- Less than half the circle lies between `base` and the ends of the window and of the stream. -/
structure Near (base : SequenceNumber 32) (s : TcpRxBuffer) : Prop where
  next : (s.nextRxSeq - base).toNat + s.maxBuffer.toNat < 2 ^ 31
  window : ∀ block ∈ s.data.head?, (block.1 - base).toNat + s.maxBuffer.toNat < 2 ^ 31
  fin : s.gotFin = true → (s.finSeq - base).toNat < 2 ^ 31

/-- There is room for `n` bytes, and what is stored and the FIN are within them. -/
structure Room (s : TcpRxBuffer) (n : BitVec 32) : Prop where
  half : n.toNat + 1 < 2 ^ 31
  blocks : ∀ block ∈ s.data, (block.1 - s.unread).toNat + block.2.length ≤ n.toNat
  fin : s.gotFin = true → lt s.finSeq s.unread = true ∨ (s.finSeq - s.unread).toNat ≤ n.toNat

/-- The number at which `Add` cuts the segment, or else its end, is not beyond the first one that is
not accepted. -/
def Fitting (s : TcpRxBuffer) (seq : SequenceNumber 32) (p : List UInt8) : Prop :=
  le (seq + getSize p) s.maxRxSequence = true ∨
    ∃ first ∈ s.data.head?, le (first.1 + s.maxBuffer) s.maxRxSequence = true

def Within (s : TcpRxBuffer) : RxCall → Prop
  | .add seq p => (∃ base, Near base s ∧ (seq - base).toNat + p.length < 2 ^ 31) ∧ Fitting s seq p
  | .extract _ => True
  | .setFinSequence seq =>
      (∃ base, Near base s ∧ (seq - base).toNat < 2 ^ 31) ∧ le seq s.maxRxSequence = true
  | .setMaxBufferSize n => Room s n

/-- Any number of calls that keep to the window. -/
def Keeps : TcpRxBuffer → TcpRxBuffer → Prop :=
  Relation.ReflTransGen fun s s' => ∃ call, Within s call ∧ s.step call = some s'

end TcpRxBuffer

def zeros (k : Nat) : List UInt8 := List.replicate k 0

@[simp] theorem length_zeros (k : Nat) : (zeros k).length = k := List.length_replicate

theorem piece_zeros {a b k : Nat} (hb : b ≤ k) : piece (zeros k) a b = zeros (b - a) := by
  simp only [piece, zeros, List.drop_replicate, List.take_replicate]
  congr 1
  omega

namespace TcpRxBuffer
variable {s : TcpRxBuffer} {seq head tail size : SequenceNumber 32} {p : List UInt8} {l : RxBlocks}

def blankBlocks (l : RxBlocks) : RxBlocks := l.map fun block => (block.1, zeros block.2.length)

def blank (s : TcpRxBuffer) : TcpRxBuffer := { s with data := blankBlocks s.data }

@[simp] theorem getSize_zeros : getSize (zeros p.length) = getSize p := by simp [getSize]

theorem blankBlocks_cons (first : SequenceNumber 32) (q : List UInt8) :
    blankBlocks ((first, q) :: l) = (first, zeros q.length) :: blankBlocks l := rfl

theorem store_blank : store seq (zeros p.length) (blankBlocks l) = blankBlocks (store seq p l) := by
  induction l with
  | nil => rfl
  | cons block rest ih =>
    obtain ⟨first, q⟩ := block
    rw [blankBlocks_cons]
    unfold store
    by_cases hbefore : lt seq first = true
    · rw [if_pos hbefore, if_pos hbefore]
      rfl
    rw [if_neg hbefore, if_neg hbefore]
    by_cases hbehind : lt first seq = true
    · rw [if_pos hbehind, if_pos hbehind, ih]
      rfl
    · rw [if_neg hbehind, if_neg hbehind]
      rfl

theorem trim_blank : trim (blankBlocks l) size head tail =
    { trim l size head tail with data := blankBlocks (trim l size head tail).data } := by
  induction l generalizing size head tail with
  | nil => rfl
  | cons block rest ih =>
    obtain ⟨first, q⟩ := block
    rw [blankBlocks_cons]
    unfold trim
    simp only [getSize_zeros, ih]
    by_cases hin : le first tail = true
    · rw [if_pos hin, if_pos hin]
      by_cases hmeet : gt (first + getSize q) head = true
      · rw [if_pos hmeet, if_pos hmeet]
        by_cases hembed : (gt first head && lt (first + getSize q) tail) = true
        · rw [if_pos hembed, if_pos hembed]
        · rw [if_neg hembed, if_neg hembed]
          rfl
      · rw [if_neg hmeet, if_neg hmeet]
        rfl
    · rw [if_neg hin, if_neg hin]
      rfl

theorem fitWindow_blank : s.blank.fitWindow head tail = s.fitWindow head tail := by
  unfold fitWindow blank
  cases s.data <;> rfl

theorem maxRxSequence_blank : s.blank.maxRxSequence = s.maxRxSequence := by
  unfold maxRxSequence blank
  cases s.data <;> rfl

theorem updateSackList_blank :
    s.blank.updateSackList head tail = (s.updateSackList head tail).map blank := by
  unfold updateSackList blank
  simp only
  by_cases hgap : (!gt head s.nextRxSeq) = true
  · rw [if_pos hgap, if_pos hgap]
    rfl
  · rw [if_neg hgap, if_neg hgap, Option.map_map]
    rfl

theorem catchUp_blank : catchUp s.blank (blankBlocks l) = (catchUp s l).map blank := by
  induction l generalizing s with
  | nil => rfl
  | cons block rest ih =>
    obtain ⟨first, q⟩ := block
    rw [blankBlocks_cons]
    unfold catchUp
    have hnext : s.blank.nextRxSeq = s.nextRxSeq := rfl
    rw [hnext]
    by_cases hbelow : lt first s.nextRxSeq = true
    · rw [if_pos hbelow, if_pos hbelow]
      exact ih
    rw [if_neg hbelow, if_neg hbelow]
    by_cases habove : gt first s.nextRxSeq = true
    · rw [if_pos habove, if_pos habove]
      rfl
    · rw [if_neg habove, if_neg habove, Option.map_bind, getSize_zeros]
      congr 1
      funext sackList
      exact @ih { s with
        nextRxSeq := first + getSize q
        availBytes := s.availBytes + getSize q
        sackList := sackList }

theorem countFin_blank : s.blank.countFin = s.countFin.blank := by
  unfold countFin
  have hgot : s.blank.gotFin = s.gotFin := rfl
  have hnext : s.blank.nextRxSeq = s.nextRxSeq := rfl
  have hfin : s.blank.finSeq = s.finSeq := rfl
  rw [hgot, hnext, hfin]
  by_cases hat : (s.gotFin && decide (s.nextRxSeq = s.finSeq)) = true
  · rw [if_pos hat, if_pos hat]
    rfl
  · rw [if_neg hat, if_neg hat]

theorem insert_blank :
    s.blank.insert head tail (zeros p.length) = (s.insert head tail p).map blank := by
  unfold insert
  have hany : (s.blank.data.any fun block => block.1 = head) =
      s.data.any fun block => block.1 = head := by
    rw [blank, blankBlocks, List.any_map]
    rfl
  rw [hany]
  by_cases hthere : (s.data.any fun block => block.1 = head) = true
  · rw [if_pos hthere, if_pos hthere]
    rfl
  rw [if_neg hthere, if_neg hthere, Option.map_bind]
  have hsack : (if gt head s.nextRxSeq then
        updateSackList (blank { s with data := store head p s.data }) head tail
      else some (blank { s with data := store head p s.data })) =
      (if gt head s.nextRxSeq then updateSackList { s with data := store head p s.data } head tail
      else some { s with data := store head p s.data }).map blank := by
    by_cases hgap : gt head s.nextRxSeq = true
    · rw [if_pos hgap, if_pos hgap]
      exact updateSackList_blank
    · rw [if_neg hgap, if_neg hgap]
      rfl
  have hdata : s.blank.data = blankBlocks s.data := rfl
  simp only [hdata, store_blank]
  refine (congrArg (fun o => Option.bind o _) hsack).trans ?_
  rw [Option.bind_map]
  congr 1
  funext t
  have hcatch := @catchUp_blank { t with size := t.size + getSize p } t.data
  simp only [Function.comp_apply, getSize_zeros]
  have heq : ({ t.blank with size := t.blank.size + getSize p } : TcpRxBuffer) =
      blank { t with size := t.size + getSize p } := rfl
  rw [heq]
  have hdata : t.blank.data = blankBlocks t.data := rfl
  rw [hdata, hcatch, Option.map_map, Option.map_map]
  congr 1
  funext u
  exact countFin_blank

theorem add_blank : s.blank.add seq (zeros p.length) =
    (s.add seq p).map fun r => (r.1.blank, r.2) := by
  rw [add_eq, add_eq, getSize_zeros, fitWindow_blank]
  have htrim := @trim_blank (s.fitWindow seq (seq + getSize p)).1
    (s.fitWindow seq (seq + getSize p)).2 s.size s.data
  obtain ⟨t, ht⟩ : ∃ t, trim s.data s.size (s.fitWindow seq (seq + getSize p)).1
    (s.fitWindow seq (seq + getSize p)).2 = t := ⟨_, rfl⟩
  rw [ht] at htrim
  have hblank : trim s.blank.data s.blank.size (s.fitWindow seq (seq + getSize p)).1
      (s.fitWindow seq (seq + getSize p)).2 = { t with data := blankBlocks t.data } := htrim
  rw [hblank, ht, finishAdd, finishAdd]
  by_cases hdone : ge t.headSeq t.tailSeq = true
  · rw [if_pos hdone, if_pos hdone]
    rfl
  rw [if_neg hdone, if_neg hdone]
  have hcut : ((zeros p.length).drop (distance t.headSeq seq).toNat).take
      (distance t.tailSeq t.headSeq).toNat =
        zeros ((p.drop (distance t.headSeq seq).toNat).take
          (distance t.tailSeq t.headSeq).toNat).length := by
    simp only [zeros, List.drop_replicate, List.take_replicate, List.length_take, List.length_drop]
  simp only [hcut, getSize_zeros]
  by_cases hsize : getSize ((p.drop (distance t.headSeq seq).toNat).take
      (distance t.tailSeq t.headSeq).toNat) ≠ distance t.tailSeq t.headSeq
  · rw [if_pos hsize, if_pos hsize]
    rfl
  rw [if_neg hsize, if_neg hsize]
  have heq : ({ s.blank with data := blankBlocks t.data, size := t.size } : TcpRxBuffer) =
      blank { s with data := t.data, size := t.size } := rfl
  rw [heq, insert_blank, Option.map_map, Option.map_map]
  rfl

theorem eraseP_blank {first : SequenceNumber 32} :
    (blankBlocks l).eraseP (fun block => block.1 = first) =
      blankBlocks (l.eraseP fun block => block.1 = first) := by
  rw [blankBlocks, List.eraseP_map]
  rfl

theorem extractLoop_blank {fuel : Nat} {n : BitVec 32} : extractLoop fuel s.blank n =
    (extractLoop fuel s n).map fun r => (r.1.blank, zeros r.2.length) := by
  induction fuel generalizing s n with
  | zero => rfl
  | succ fuel ih =>
    unfold extractLoop
    by_cases hzero : n = 0
    · rw [if_pos hzero, if_pos hzero]
      rfl
    rw [if_neg hzero, if_neg hzero]
    have hnext : s.blank.nextRxSeq = s.nextRxSeq := rfl
    have hblank : s.blank.data = blankBlocks s.data := rfl
    cases hdata : s.data with
    | nil =>
      rw [hblank, hdata]
      rfl
    | cons block rest =>
      obtain ⟨first, q⟩ := block
      rw [hblank, hdata, blankBlocks_cons]
      simp only [hnext, getSize_zeros]
      by_cases hle : (!le first s.nextRxSeq) = true
      · rw [if_pos hle, if_pos hle]
        rfl
      rw [if_neg hle, if_neg hle]
      by_cases hwhole : getSize q ≤ n
      · rw [if_pos hwhole, if_pos hwhole]
        have hrest := @ih { s with
          data := rest
          size := s.size - getSize q
          availBytes := s.availBytes - getSize q } (n - getSize q)
        refine (congrArg (Option.map _) hrest).trans ?_
        rw [Option.map_map, Option.map_map]
        congr 1
        funext r
        simp [zeros]
      · rw [if_neg hwhole, if_neg hwhole]
        have hdrop : (zeros q.length).drop n.toNat = zeros (q.drop n.toNat).length := by
          simp [zeros]
        have htake : (zeros q.length).take n.toNat = zeros (q.take n.toNat).length := by
          simp [zeros]
        rw [hdrop, htake, ← blankBlocks_cons, store_blank, eraseP_blank]
        rfl

theorem extract_blank {maxSize : BitVec 32} : s.blank.extract maxSize =
    (s.extract maxSize).map fun r => (r.1.blank, zeros r.2.length) := by
  have hlen : s.blank.data.length = s.data.length := by simp [blank, blankBlocks]
  rw [extract, extract, hlen]
  exact extractLoop_blank

end TcpRxBuffer

theorem blocksOf_zeros {n : SequenceNumber 32} {l : List (Nat × Nat)} {a b : Nat}
    (ha : ∀ p ∈ l, p.2 ≤ a) (hab : a ≤ b) : blocksOf n (zeros b) l = blocksOf n (zeros a) l := by
  apply List.map_congr_left
  intro p hp
  have hp2 := ha p hp
  rw [piece_zeros hp2, piece_zeros (Nat.le_trans hp2 hab)]

theorem FinPlaces.grow {n : SequenceNumber 32} {r : Reading} {l k : List (Nat × Nat)} {m a b : Nat}
    {passed : Bool} (h : FinPlaces n (zeros a) r l m k passed) (hab : a ≤ b) :
    FinPlaces n (zeros b) r l m k passed := by
  obtain ⟨hplaces, hnext⟩ := h
  obtain ⟨hdata, hm, hsacks, hgot, hsize, havail, hout, hasc, hwithin, hspan, hle, hcov, hmiss,
    hk⟩ := hplaces
  rw [length_zeros] at hwithin
  refine ⟨⟨?_, hm, hsacks, hgot, hsize, havail, ?_, hasc, ?_, hspan, hle, hcov, hmiss, hk⟩, hnext⟩
  · rw [hdata, blocksOf_zeros hwithin hab]
  · apply hout.trans
    rw [zeros, zeros, ← Nat.add_sub_cancel' hab, List.replicate_add]
    exact List.prefix_append _ _
  · intro p hp
    rw [length_zeros]
    exact Nat.le_trans (hwithin p hp) hab

/-- The distance from `y` tells the place. -/
theorem place_eq {n : SequenceNumber 32} {x y : Nat} (hlo : y ≤ x + 2 ^ 31) (hhi : x ≤ y + 2 ^ 31)
    (hd : (at32 n x - at32 n y).toNat < 2 ^ 31) : x = y + (at32 n x - at32 n y).toNat := by
  have hn := n.isLt
  simp only [at32, BitVec.toNat_sub, BitVec.toNat_add, BitVec.toNat_ofNat] at hd ⊢
  omega

/-- The state by places in a stream of zeros, where `f` is the FIN if one is known. -/
structure Fits (n : SequenceNumber 32) (s : TcpRxBuffer) (size out : Nat) (l : List (Nat × Nat))
    (m : Nat) (k : List (Nat × Nat)) (passed : Bool) (f : Nat) : Prop where
  places : FinPlaces n (zeros size) ⟨s.blank, zeros out⟩ l m k passed
  far : 2 ^ 31 ≤ out
  half : s.maxBuffer.toNat + 1 < 2 ^ 31
  next : m ≤ out + s.maxBuffer.toNat
  ends : ∀ p ∈ l, p.2 ≤ out + s.maxBuffer.toNat + if passed then 1 else 0
  finSeq : s.gotFin = true → s.finSeq = at32 n f ∧ f ≤ out + s.maxBuffer.toNat ∧
    m < f + 2 ^ 31 ∧ ∀ p ∈ l, p.2 < f + 2 ^ 31
  passed : passed = true → s.gotFin = true ∧ f ≤ m

namespace Fits
variable {n : SequenceNumber 32} {s : TcpRxBuffer} {size out m f : Nat} {l k : List (Nat × Nat)}
  {passed : Bool}

theorem new (n : SequenceNumber 32) {maxBuffer : BitVec 32} (h : maxBuffer.toNat + 1 < 2 ^ 31) :
    Fits (n - BitVec.ofNat 32 (2 ^ 31)) (.new n maxBuffer) (2 ^ 31) (2 ^ 31) [] (2 ^ 31) [] false 0 where
  places := by
    have hn : n = at32 (n - BitVec.ofNat 32 (2 ^ 31)) (2 ^ 31) := by
      rw [at32, BitVec.sub_add_cancel]
    refine ⟨?_, ?_⟩
    · constructor <;> simp [TcpRxBuffer.new, blocksOf, sackOf, Ascending, Reading.bare, blank, blankBlocks]
    · simp only [TcpRxBuffer.new, blank, Bool.false_eq_true, if_false, Nat.add_zero]
      exact hn
  far := Nat.le_refl _
  half := h
  next := Nat.le_add_right _ _
  ends := by simp
  finSeq := by simp [TcpRxBuffer.new]
  passed := by simp

theorem out_eq (h : Fits n s size out l m k passed f) (hcov : Covers l out) :
    ∃ y rest, l = (out, y) :: rest := by
  have hasc := h.places.places.ascending
  simp only [Reading.bare, length_zeros] at hasc
  obtain ⟨y, rest, heq, -, -⟩ := hasc.head_of_covers hcov
  exact ⟨y, rest, heq⟩

theorem head_data (h : Fits n s size out l m k passed f) {q : Nat × Nat} {rest : List (Nat × Nat)}
    (hl : l = q :: rest) : ∃ p t, s.data = (at32 n q.1, p) :: t ∧ p.length = q.2 - q.1 := by
  have hdata : blankBlocks s.data = blocksOf n (zeros size) l := h.places.places.data
  have hwithin := h.places.places.within q (hl ▸ List.mem_cons_self)
  rw [length_zeros] at hwithin
  cases hs : s.data with
  | nil =>
    rw [hs, hl] at hdata
    cases hdata
  | cons block t =>
    obtain ⟨first, p⟩ := block
    rw [hs, hl, blankBlocks_cons, blocksOf, List.map_cons, piece_zeros hwithin] at hdata
    obtain ⟨hblock, -⟩ := List.cons.inj hdata
    obtain ⟨rfl, hp⟩ := Prod.mk.inj hblock
    refine ⟨p, t, rfl, ?_⟩
    simpa using congrArg List.length hp

theorem data_nil (h : Fits n s size out l m k passed f) (hl : l = []) : s.data = [] := by
  have hdata : blankBlocks s.data = blocksOf n (zeros size) l := h.places.places.data
  rw [hl] at hdata
  exact List.map_eq_nil_iff.mp hdata

/-- Where nothing is accepted any more. -/
def limit (s : TcpRxBuffer) (out f : Nat) : Nat :=
  if s.gotFin then f else out + s.maxBuffer.toNat

theorem maxRxSequence_eq (h : Fits n s size out l m k passed f) :
    s.maxRxSequence = at32 n (limit s out f) := by
  unfold maxRxSequence limit
  by_cases hgot : s.gotFin = true
  · rw [if_pos hgot, if_pos hgot, (h.finSeq hgot).1]
  rw [if_neg hgot, if_neg hgot]
  have hpass : passed = false := Bool.eq_false_iff.mpr fun hp => hgot (h.passed hp).1
  subst hpass
  have hnext : s.nextRxSeq = at32 n m := h.places.next
  have hmax (x : Nat) : at32 n x + s.maxBuffer = at32 n (x + s.maxBuffer.toNat) := by
    rw [← at32_add, BitVec.ofNat_toNat, BitVec.setWidth_eq]
  have hasc := h.places.places.ascending
  have hle := h.places.places.le
  have hcov := h.places.places.covered
  simp only [Reading.bare, length_zeros] at hasc hle hcov
  have hhalf := h.half
  have hm := h.next
  cases hl : l with
  | nil =>
    have heq : out = m := by
      rcases Nat.eq_or_lt_of_le hle with heq | hlt
      · exact heq
      · exact absurd (hcov out (Nat.le_refl _) hlt) (by simp [hl])
    simp only [h.data_nil hl, hnext, hmax, heq]
  | cons q rest =>
    obtain ⟨p, t, hdata, -⟩ := h.head_data hl
    have hq := hasc.of_mem (hl ▸ List.mem_cons_self : q ∈ l)
    have hend := h.ends q (hl ▸ List.mem_cons_self)
    simp only [Bool.false_eq_true, if_false, Nat.add_zero] at hend
    have hgt : gt (at32 n m) (at32 n q.1) = true ↔ q.1 < m := gt_at32 (by omega) (by omega)
    simp only [hdata, hnext]
    rcases Nat.eq_or_lt_of_le hle with heq | hlt
    · rw [if_neg (by rw [hgt]; omega), hmax, heq]
    · obtain ⟨y, rest', heq⟩ := h.out_eq (hcov out (Nat.le_refl _) hlt)
      obtain ⟨rfl, -⟩ := List.cons.inj (hl.symm.trans heq)
      rw [if_pos (hgt.mpr hlt), hmax]

/-- The places that are less than half the circle after `base`. -/
theorem near (h : Fits n s size out l m k passed f) {base : SequenceNumber 32} (hb : Near base s) :
    ∃ b₀, base = at32 n b₀ ∧ b₀ ≤ out ∧ m + (if passed then 1 else 0) + s.maxBuffer.toNat < b₀ + 2 ^ 31 ∧
      (∀ p ∈ l.head?, p.1 + s.maxBuffer.toNat < b₀ + 2 ^ 31) ∧
        (s.gotFin = true → b₀ ≤ f ∧ f < b₀ + 2 ^ 31) := by
  have hnext : s.nextRxSeq = at32 n (m + if passed then 1 else 0) := h.places.next
  have hle := h.places.places.le
  have hasc := h.places.places.ascending
  have hcov := h.places.places.covered
  simp only [Reading.bare, length_zeros] at hle hasc hcov
  have hm := h.next
  have hfar := h.far
  have hhalf := h.half
  obtain ⟨e, he⟩ : ∃ e, m + (if passed then 1 else 0) = e := ⟨_, rfl⟩
  have hem : m ≤ e ∧ e ≤ m + 1 := by
    rw [← he]
    split <;> omega
  have hd := hb.next
  rw [he] at hnext ⊢
  rw [hnext] at hd
  obtain ⟨d, hdist⟩ : ∃ d, (at32 n e - base).toNat = d := ⟨_, rfl⟩
  rw [hdist] at hd
  have hbase : base = at32 n (e - d) := by
    have hsub : at32 n e - base = BitVec.ofNat 32 d := by
      rw [← hdist, BitVec.ofNat_toNat, BitVec.setWidth_eq]
    have hsub' : at32 n e - at32 n (e - d) = BitVec.ofNat 32 d := by
      rw [at32_sub (by omega)]
      congr 1
      omega
    exact sub_right_injective (hsub.trans hsub'.symm)
  have hfin : s.gotFin = true → e - d ≤ f ∧ f < e - d + 2 ^ 31 := by
    intro hgot
    obtain ⟨hf, hfout, hmf, -⟩ := h.finSeq hgot
    have hdf := hb.fin hgot
    rw [hf, hbase] at hdf
    have := place_eq (by omega) (by omega) hdf
    omega
  have hhead : ∀ p ∈ l.head?, p.1 + s.maxBuffer.toNat < e - d + 2 ^ 31 ∧ e - d ≤ p.1 := by
    intro q hq
    cases hl : l with
    | nil =>
      rw [hl] at hq
      cases hq
    | cons q' rest =>
      rw [hl] at hq
      obtain rfl := Option.some.inj hq
      obtain ⟨p, t, hdata, -⟩ := h.head_data hl
      have hqlo := hasc.of_mem (hl ▸ List.mem_cons_self : q' ∈ l)
      have hqhi := h.ends q' (hl ▸ List.mem_cons_self)
      have hdq := hb.window (at32 n q'.1, p) (by simp [hdata])
      simp only [hbase] at hdq
      have hqe : q'.2 ≤ out + s.maxBuffer.toNat + 1 := by
        refine Nat.le_trans hqhi ?_
        split <;> omega
      have := place_eq (n := n) (x := q'.1) (y := e - d) (by omega) (by omega) (by omega)
      omega
  refine ⟨e - d, hbase, ?_, by omega, fun p hp => (hhead p hp).1, hfin⟩
  rcases Nat.eq_or_lt_of_le hle with heq | hlt
  · -- all that has arrived has been read
    cases hp : passed with
    | false =>
      rw [hp] at he
      simp only [Bool.false_eq_true, if_false] at he
      omega
    | true =>
      obtain ⟨hgot, hfm⟩ := h.passed hp
      have := (hfin hgot).1
      omega
  · obtain ⟨y, rest, heq⟩ := h.out_eq (hcov out (Nat.le_refl _) hlt)
    exact (hhead (out, y) (by simp [heq])).2

theorem limit_le (h : Fits n s size out l m k passed f) : limit s out f ≤ out + s.maxBuffer.toNat := by
  unfold limit
  split
  · exact (h.finSeq ‹_›).2.1
  · exact Nat.le_refl _

/-- The segment is cut no later than where nothing is accepted any more. -/
theorem cut_le_limit (h : Fits n s size out l m k passed f) {b₀ a b : Nat} {p : List UInt8}
    (hout : b₀ ≤ out) (hm : m + (if passed then 1 else 0) + s.maxBuffer.toNat < b₀ + 2 ^ 31)
    (hhead : ∀ p ∈ l.head?, p.1 + s.maxBuffer.toNat < b₀ + 2 ^ 31)
    (hf : s.gotFin = true → b₀ ≤ f ∧ f < b₀ + 2 ^ 31) (ha : b₀ ≤ a) (hab : a + p.length = b)
    (hb : b < b₀ + 2 ^ 31) (hfit : Fitting s (at32 n a) p) :
    Places.cut s.maxBuffer l b ≤ limit s out f := by
  have hle := h.places.places.le
  have hasc := h.places.places.ascending
  simp only [Reading.bare, length_zeros] at hle hasc
  have hlim : b₀ ≤ limit s out f ∧ limit s out f < b₀ + 2 ^ 31 := by
    unfold limit
    split
    · exact hf ‹_›
    · omega
  have hsize : at32 n a + getSize p = at32 n b := by
    rw [← hab, ← at32_add]
    rfl
  unfold Fitting at hfit
  rw [h.maxRxSequence_eq, hsize] at hfit
  rcases hfit with hend | ⟨first, hfirst, hend⟩
  · have := (le_at32 (by omega) (by omega)).mp hend
    exact Nat.le_trans (Places.cut_le _ _ _) this
  · cases hl : l with
    | nil =>
      rw [h.data_nil hl] at hfirst
      cases hfirst
    | cons q rest =>
      obtain ⟨q', t, hdata, -⟩ := h.head_data hl
      rw [hdata] at hfirst
      obtain rfl := Option.some.inj hfirst
      have hq := hhead q (by simp [hl])
      have hqlo := (hasc.of_mem (hl ▸ List.mem_cons_self : q ∈ l)).1
      have hmax : at32 n q.1 + s.maxBuffer = at32 n (q.1 + s.maxBuffer.toNat) := by
        rw [← at32_add, BitVec.ofNat_toNat, BitVec.setWidth_eq]
      simp only [hmax] at hend
      have := (le_at32 (by omega) (by omega)).mp hend
      exact Nat.le_trans (Nat.min_le_right _ _) this

theorem outstanding (h : Fits n s size out l m k passed f) {b₀ a b : Nat}
    (hout : b₀ ≤ out) (hm : m + (if passed then 1 else 0) + s.maxBuffer.toNat < b₀ + 2 ^ 31)
    (hhead : ∀ p ∈ l.head?, p.1 + s.maxBuffer.toNat < b₀ + 2 ^ 31) (ha : b₀ ≤ a)
    (hb : b < b₀ + 2 ^ 31) : Outstanding n ⟨s.blank, zeros out⟩ a b := by
  have hp := h.places.places
  have hdata : s.blank.data = blocksOf n (zeros size) l := hp.data
  have hle := hp.le
  have hasc := hp.ascending
  have hwithin := hp.within
  have hspan := hp.span
  simp only [Reading.bare, length_zeros] at hle hasc hspan
  refine ⟨?_, ?_, ?_, ?_⟩
  · simp only [length_zeros]
    omega
  · simp only [length_zeros]
    omega
  · intro block hblock
    rw [hdata] at hblock
    obtain ⟨q, hq, rfl⟩ := List.mem_map.mp hblock
    have hqlo := hasc.of_mem hq
    have hqhi := h.ends q hq
    have hqs := hspan q hq
    have hoff : Reading.offset ⟨s.blank, zeros out⟩ n (at32 n q.1) = q.1 - out := by
      rw [Places.offset_eq (by rw [length_zeros]; omega) (by rw [length_zeros]; omega), length_zeros]
    simp only [length_zeros, hoff, length_piece (hwithin q hq)]
    omega
  · intro block hblock
    have hblock' : block ∈ s.blank.data.head? := hblock
    rw [hdata, blocksOf, List.head?_map] at hblock'
    obtain ⟨q, hq, rfl⟩ := Option.map_eq_some_iff.mp hblock'
    have hqm := List.mem_of_mem_head? hq
    have hqlo := hasc.of_mem hqm
    have hqs := hspan q hqm
    have hqhi := hhead q hq
    have hoff : Reading.offset ⟨s.blank, zeros out⟩ n (at32 n q.1) = q.1 - out := by
      rw [Places.offset_eq (by rw [length_zeros]; omega) (by rw [length_zeros]; omega), length_zeros]
    have hmax : s.blank.maxBuffer = s.maxBuffer := rfl
    simp only [length_zeros, hoff, hmax]
    omega

/-- What is held, by places. -/
theorem holds_iff (h : Fits n s size out l m k passed f) {x : SequenceNumber 32} :
    s.Holds x ↔ ∃ y, Covers l y ∧ x = at32 n y := by
  have hdata : blankBlocks s.data = blocksOf n (zeros size) l := h.places.places.data
  have hwithin := h.places.places.within
  constructor
  · rintro ⟨block, hblock, i, hi, rfl⟩
    have hmem : (block.1, zeros block.2.length) ∈ blankBlocks s.data := List.mem_map_of_mem hblock
    rw [hdata] at hmem
    obtain ⟨q, hq, heq⟩ := List.mem_map.mp hmem
    obtain ⟨hfirst, hzeros⟩ := Prod.mk.inj heq
    have hlen := congrArg List.length hzeros
    rw [length_piece (hwithin q hq), length_zeros] at hlen
    exact ⟨q.1 + i, ⟨q, hq, by omega, by omega⟩, by rw [← hfirst, at32_add]⟩
  · rintro ⟨y, ⟨q, hq, hlo, hhi⟩, rfl⟩
    have hmem : (at32 n q.1, piece (zeros size) q.1 q.2) ∈ blankBlocks s.data := by
      rw [hdata]
      exact List.mem_map_of_mem hq
    obtain ⟨block, hblock, heq⟩ := List.mem_map.mp hmem
    obtain ⟨hfirst, hzeros⟩ := Prod.mk.inj heq
    have hlen := congrArg List.length hzeros
    rw [length_piece (hwithin q hq), length_zeros] at hlen
    refine ⟨block, hblock, y - q.1, by omega, ?_⟩
    rw [hfirst, at32_add]
    congr 1
    omega

/-- The blocks and the first missing byte stay within the window, and nothing beyond the FIN comes
in. -/
theorem of_added (h : Fits n s size out l m k false f) {s' : TcpRxBuffer} {a b size' m' : Nat}
    {ok : Bool} {l' k' : List (Nat × Nat)}
    (ha : FinPlaces.Added n (zeros size') ⟨s.blank, zeros out⟩ l m k a b s'.blank ok l' m' k')
    (hcut : Places.cut s.maxBuffer l b ≤ limit s out f) :
    Fits n s' size' out l' m' k' (ok && s.gotFin && decide (at32 n m' = s.finSeq)) f ∧
      ∀ y, Covers l' y → ¬ Covers l y → out ≤ y ∧ y < limit s out f := by
  have hp := h.places.places
  have hlim := h.limit_le
  have hends := h.ends
  simp only [Bool.false_eq_true, if_false, Nat.add_zero] at hends
  have hmax : s'.maxBuffer = s.maxBuffer := ha.maxBuffer
  have hgot : s'.gotFin = s.gotFin := ha.gotFin
  have hfin : s'.finSeq = s.finSeq := ha.finSeq
  have hle := hp.le
  simp only [Reading.bare, length_zeros] at hle
  -- a block of the new list is an old one, or ends where the segment is cut at the latest
  have hnew : ∀ p ∈ l', p ∈ l ∨ out ≤ p.1 ∧ p.2 ≤ limit s out f := by
    intro p hpl
    cases hok : ok with
    | false =>
      obtain ⟨hsub, -, -⟩ := hok ▸ ha.stored
      exact .inl (hsub.subset hpl)
    | true =>
      obtain ⟨head, tail, hs⟩ := hok ▸ ha.stored
      obtain ⟨l₁, hsub, hput, -, -⟩ := hs.places
      have hlo := hs.le_head
      have hhi := hs.tail_le
      have hmb : (⟨s.blank, zeros out⟩ : Reading).rx.maxBuffer = s.maxBuffer := rfl
      rw [hmb] at hhi
      rcases mem_put.mp (hput ▸ hpl) with rfl | hold
      · refine .inr ⟨?_, Nat.le_trans hhi hcut⟩
        simp only
        omega
      · exact .inl (hsub.subset hold)
  have hbound : ∀ p ∈ l', p.2 ≤ out + s.maxBuffer.toNat := by
    intro p hpl
    rcases hnew p hpl with hold | ⟨-, hhi⟩
    · exact hends p hold
    · exact Nat.le_trans hhi hlim
  have hnext : m' ≤ out + s.maxBuffer.toNat := by
    have := @Places.next_lt _ _ _ _ _ _ ha.fin.places (out + s.maxBuffer.toNat + 1)
      (by simp only [Reading.bare, length_zeros]; omega) fun p hpl => Nat.lt_succ_of_le (hbound p hpl)
    omega
  have hknown : s.gotFin = true → s.finSeq = at32 n f ∧ f ≤ out + s.maxBuffer.toNat ∧
      m' < f + 2 ^ 31 ∧ ∀ p ∈ l', p.2 < f + 2 ^ 31 := by
    intro hg
    obtain ⟨hfe, hfo, hmf, hlf⟩ := h.finSeq hg
    have hlf' : ∀ p ∈ l', p.2 < f + 2 ^ 31 := by
      intro p hpl
      rcases hnew p hpl with hold | ⟨-, hhi⟩
      · exact hlf p hold
      · rw [limit, if_pos hg] at hhi
        omega
    refine ⟨hfe, hfo, ?_, hlf'⟩
    exact ha.fin.places.next_lt (by simp only [Reading.bare, length_zeros]; omega) hlf'
  refine ⟨⟨ha.fin, h.far, by rw [hmax]; exact h.half, by rw [hmax]; exact hnext, ?_, ?_, ?_⟩, ?_⟩
  · intro p hpl
    rw [hmax]
    exact Nat.le_trans (hbound p hpl) (Nat.le_add_right _ _)
  · rw [hgot, hfin, hmax]
    exact hknown
  · intro hpass
    rw [Bool.and_eq_true, Bool.and_eq_true, decide_eq_true_eq] at hpass
    obtain ⟨⟨-, hg⟩, hat⟩ := hpass
    obtain ⟨hfe, hfo, hmf, -⟩ := hknown hg
    have hhalf := h.half
    have hle' := ha.fin.places.le
    simp only [Reading.bare, length_zeros] at hle'
    rw [hfe, at32_inj (by omega) (by omega)] at hat
    exact ⟨hgot.trans hg, by omega⟩
  · rintro y ⟨p, hpl, hlo, hhi⟩ hy
    rcases hnew p hpl with hold | ⟨hout, hend⟩
    · exact absurd ⟨p, hold, hlo, hhi⟩ hy
    · omega

theorem add (h : Fits n s size out l m k passed f) {seq : SequenceNumber 32} {p : List UInt8}
    (hw : Within s (.add seq p)) :
    ∃ s' ok size' l' m' k' passed', s.add seq p = some (s', ok) ∧
      Fits n s' size' out l' m' k' passed' f ∧
        ∀ x, s'.Holds x → ¬ s.Holds x → lt x s.maxRxSequence = true := by
  obtain ⟨⟨base, hbase, hseg⟩, hfit⟩ := hw
  obtain ⟨b₀, rfl, hout, hm, hhead, hf⟩ := h.near hbase
  obtain ⟨a, ha⟩ : ∃ a, b₀ + (seq - at32 n b₀).toNat = a := ⟨_, rfl⟩
  have hseq : seq = at32 n a := by
    rw [← ha, ← at32_add, BitVec.ofNat_toNat, BitVec.setWidth_eq, add_sub_cancel]
  obtain ⟨b, hb⟩ : ∃ b, a + p.length = b := ⟨_, rfl⟩
  have hab : b₀ ≤ a := by omega
  have hb31 : b < b₀ + 2 ^ 31 := by omega
  subst hseq
  have hcut := h.cut_le_limit hout hm hhead hf hab hb hb31 hfit
  have ho := h.outstanding hout hm hhead hab hb31
  have hgrow := h.places.grow (Nat.le_max_left size b)
  have hpiece : piece (zeros (max size b)) a b = zeros p.length := by
    rw [piece_zeros (Nat.le_max_right _ _)]
    congr 1
    omega
  have hrun := @add_blank s (at32 n a) p
  have hlim : b₀ ≤ limit s out f ∧ limit s out f < b₀ + 2 ^ 31 := by
    have hle := h.places.places.le
    simp only [Reading.bare, length_zeros] at hle
    unfold limit
    split
    · exact hf ‹_›
    · omega
  cases hpass : passed with
  | false =>
    subst hpass
    obtain ⟨rx, ok, l', m', k', hadd, hadded⟩ := hgrow.add (by omega)
      (by rw [length_zeros]; exact Nat.le_max_right _ _) ho
    rw [hpiece] at hadd
    obtain ⟨⟨s', ok'⟩, hs', heq⟩ := Option.map_eq_some_iff.mp (hrun.symm.trans hadd)
    obtain ⟨rfl, rfl⟩ := Prod.mk.inj heq
    obtain ⟨hfits, hstored⟩ := h.of_added hadded hcut
    refine ⟨s', ok', _, l', m', k', _, hs', hfits, ?_⟩
    intro x hx hold
    rw [hfits.holds_iff] at hx
    obtain ⟨y, hy, rfl⟩ := hx
    obtain ⟨hlo, hhi⟩ := hstored y hy fun hc => hold (h.holds_iff.mpr ⟨y, hc, rfl⟩)
    rw [h.maxRxSequence_eq]
    exact (lt_at32 (by omega) (by omega)).mpr hhi
  | true =>
    subst hpass
    obtain ⟨hgot, hfm⟩ := h.passed rfl
    have hcutm : Places.cut s.maxBuffer l b ≤ m := by
      rw [limit, if_pos hgot] at hcut
      omega
    simp only [if_true] at hm
    obtain ⟨rx, l', hadd, hplaces, hsub, hkept, hmax, hg, hfs⟩ := hgrow.add_passed (by omega)
      (by rw [length_zeros]; exact Nat.le_max_right _ _) ho
      (by simp only [length_zeros]; omega) hcutm
    rw [hpiece] at hadd
    obtain ⟨⟨s', ok'⟩, hs', heq⟩ := Option.map_eq_some_iff.mp (hrun.symm.trans hadd)
    obtain ⟨rfl, rfl⟩ := Prod.mk.inj heq
    have hmax' : s'.maxBuffer = s.maxBuffer := hmax
    have hg' : s'.gotFin = s.gotFin := hg
    have hfs' : s'.finSeq = s.finSeq := hfs
    have hfits : Fits n s' (max size b) out l' m k true f :=
      ⟨hplaces, h.far, by rw [hmax']; exact h.half, by rw [hmax']; exact h.next,
        fun p hp => by rw [hmax']; exact h.ends p (hsub.subset hp), fun hg'' => by
          obtain ⟨hfe, hfo, hmf, hlf⟩ := h.finSeq hgot
          rw [hfs', hmax']
          exact ⟨hfe, hfo, hmf, fun p hp => hlf p (hsub.subset hp)⟩, fun _ => ⟨hg'.trans hgot, hfm⟩⟩
    refine ⟨s', false, _, l', m, k, _, hs', hfits, ?_⟩
    intro x hx hold
    rw [hfits.holds_iff] at hx
    obtain ⟨y, ⟨q, hq, hy⟩, rfl⟩ := hx
    exact absurd (h.holds_iff.mpr ⟨y, ⟨q, hsub.subset hq, hy⟩, rfl⟩) hold

theorem extract (h : Fits n s size out l m k passed f) (maxSize : BitVec 32) :
    ∃ s' q out' l', s.extract maxSize = some (s', q) ∧ Fits n s' size out' l' m k passed f := by
  have hle := h.places.places.le
  have hm := h.next
  have hhalf := h.half
  simp only [Reading.bare, length_zeros] at hle
  obtain ⟨rx, q, l', hextract, hplaces, -, hends, hmax, hg, hfs⟩ :=
    h.places.extract (by simp only [length_zeros]; omega) maxSize
  obtain ⟨⟨s', q'⟩, hs', heq⟩ := Option.map_eq_some_iff.mp (extract_blank.symm.trans hextract)
  obtain ⟨rfl, rfl⟩ := Prod.mk.inj heq
  have hmax' : s'.maxBuffer = s.maxBuffer := hmax
  have hg' : s'.gotFin = s.gotFin := hg
  have hfs' : s'.finSeq = s.finSeq := hfs
  have hzeros : zeros out ++ zeros q'.length = zeros (out + q'.length) := List.replicate_append_replicate
  rw [hzeros] at hplaces
  refine ⟨s', q', out + q'.length, l', hs', hplaces, Nat.le_trans h.far (Nat.le_add_right _ _),
    by rw [hmax']; exact h.half, by rw [hmax']; omega, ?_, ?_, fun hp => ⟨hg'.trans (h.passed hp).1,
      (h.passed hp).2⟩⟩
  · intro p hp
    obtain ⟨p', hp', heq⟩ := hends p hp
    have := h.ends p' hp'
    rw [hmax', heq]
    omega
  · intro hgot
    obtain ⟨hfe, hfo, hmf, hlf⟩ := h.finSeq (hg'.symm.trans hgot)
    rw [hfs', hmax']
    refine ⟨hfe, by omega, hmf, fun p hp => ?_⟩
    obtain ⟨p', hp', heq⟩ := hends p hp
    rw [heq]
    exact hlf p' hp'

theorem setFinSequence (h : Fits n s size out l m k passed f) {seq : SequenceNumber 32}
    (hw : Within s (.setFinSequence seq)) :
    ∃ passed' f', Fits n (s.setFinSequence seq) size out l m k passed' f' := by
  obtain ⟨⟨base, hbase, hseq⟩, hle⟩ := hw
  obtain ⟨b₀, rfl, hout, hm, hhead, hf⟩ := h.near hbase
  obtain ⟨f', hf'⟩ : ∃ f', b₀ + (seq - at32 n b₀).toNat = f' := ⟨_, rfl⟩
  obtain rfl : seq = at32 n f' := by
    rw [← hf', ← at32_add, BitVec.ofNat_toNat, BitVec.setWidth_eq, add_sub_cancel]
  have hlo := h.places.places.le
  have hlim := h.limit_le
  have hmiss := h.places.places.missing
  simp only [Reading.bare, length_zeros] at hlo
  have hlim' : b₀ ≤ limit s out f ∧ limit s out f < b₀ + 2 ^ 31 := by
    unfold limit
    split
    · exact hf ‹_›
    · omega
  rw [h.maxRxSequence_eq, le_at32 (by omega) (by omega)] at hle
  have hpassed : passed = true → f' ≤ m := by
    intro hp
    obtain ⟨hg, hfm⟩ := h.passed hp
    rw [limit, if_pos hg] at hle
    omega
  have hplaces := h.places.setFinSequence (at32 n f') fun hp => by
    have := hpassed hp
    rw [hp, if_pos rfl] at hm
    rw [Ne, at32_inj (by omega) (by omega)]
    omega
  refine ⟨passed || decide (at32 n m = at32 n f'), f', hplaces, h.far, h.half, h.next, ?_, ?_, ?_⟩
  · intro p hp
    refine Nat.le_trans (h.ends p hp) (Nat.add_le_add_left ?_ _)
    cases passed
    · exact Nat.zero_le _
    · exact Nat.le_refl _
  · intro _
    refine ⟨rfl, Nat.le_trans hle hlim, by omega, fun p hp => ?_⟩
    have hend := h.ends p hp
    have hgot := h.finSeq
    have hmax : (s.setFinSequence (at32 n f')).maxBuffer = s.maxBuffer := rfl
    omega
  · intro hp
    refine ⟨rfl, ?_⟩
    rw [Bool.or_eq_true, decide_eq_true_eq] at hp
    rcases hp with hp | hp
    · exact hpassed hp
    · rw [at32_inj (by omega) (by omega)] at hp
      omega

theorem unread_eq (h : Fits n s size out l m k passed f) :
    s.unread = at32 n (out + if out = m ∧ passed then 1 else 0) := by
  have hnext : s.nextRxSeq = at32 n (m + if passed then 1 else 0) := h.places.next
  have hle := h.places.places.le
  have hasc := h.places.places.ascending
  have hcov := h.places.places.covered
  have hmiss := h.places.places.missing
  simp only [Reading.bare, length_zeros] at hle hasc hcov
  have hm := h.next
  have hhalf := h.half
  unfold unread
  cases hl : l with
  | nil =>
    have heq : out = m := by
      rcases Nat.eq_or_lt_of_le hle with heq | hlt
      · exact heq
      · exact absurd (hcov out (Nat.le_refl _) hlt) (by simp [hl])
    simp only [h.data_nil hl, hnext, heq, true_and]
  | cons q rest =>
    obtain ⟨p, t, hdata, -⟩ := h.head_data hl
    have hq := hasc.of_mem (hl ▸ List.mem_cons_self : q ∈ l)
    have hend := h.ends q (hl ▸ List.mem_cons_self)
    simp only [hdata, hnext]
    rcases Nat.eq_or_lt_of_le hle with heq | hlt
    · have hqm : m < q.1 := by
        by_contra hqm
        exact hmiss ⟨q, hl ▸ List.mem_cons_self, by omega, by omega⟩
      have hgt : gt (at32 n (m + if passed then 1 else 0)) (at32 n q.1) = true ↔
          q.1 < m + if passed then 1 else 0 := gt_at32 (by split <;> omega) (by split at hend <;> omega)
      rw [if_neg (by rw [hgt]; split <;> omega), heq]
      simp
    · obtain ⟨y, rest', heq⟩ := h.out_eq (hcov out (Nat.le_refl _) hlt)
      obtain ⟨rfl, -⟩ := List.cons.inj (hl.symm.trans heq)
      have hgt : gt (at32 n (m + if passed then 1 else 0)) (at32 n out) = true ↔
          out < m + if passed then 1 else 0 := gt_at32 (by split <;> omega) (by omega)
      rw [if_pos (by rw [hgt]; omega), if_neg (by omega), Nat.add_zero]

theorem setMaxBufferSize (h : Fits n s size out l m k passed f) {maxBuffer : BitVec 32}
    (hw : Within s (.setMaxBufferSize maxBuffer)) :
    Fits n (s.setMaxBufferSize maxBuffer) size out l m k passed f := by
  obtain ⟨hdata, hnext, hsacks, hgot, hsize, havail, hout, hasc, hwithin, hspan, hle, hcov, hmiss,
    hk⟩ := h.places.places
  have hunread := h.unread_eq
  have hhalf := hw.half
  have hm := h.next
  have hhalf' := h.half
  have hblank : blankBlocks s.data = blocksOf n (zeros size) l := hdata
  simp only [Reading.bare, length_zeros] at hasc hle hcov
  have hends : ∀ p ∈ l, p.2 ≤ out + maxBuffer.toNat + if out = m ∧ passed then 1 else 0 := by
    intro p hp
    have hmem : (at32 n p.1, piece (zeros size) p.1 p.2) ∈ blankBlocks s.data := by
      rw [hblank]
      exact List.mem_map_of_mem hp
    obtain ⟨block, hblock, heq⟩ := List.mem_map.mp hmem
    obtain ⟨hfirst, hzeros⟩ := Prod.mk.inj heq
    have hlen := congrArg List.length hzeros
    rw [length_piece (hwithin p hp), length_zeros] at hlen
    have hplo := hasc.of_mem hp
    have hend := h.ends p hp
    have hlo : out + (if out = m ∧ passed then 1 else 0) ≤ p.1 := by
      split
      · rename_i hat
        by_contra hlt
        exact hmiss ⟨p, hp, by omega, by omega⟩
      · exact hplo.1
    have hroom := hw.blocks block hblock
    rw [hunread, hfirst, hlen, at32_sub hlo, BitVec.toNat_ofNat, Nat.mod_eq_of_lt (by
      split at hend <;> omega)] at hroom
    omega
  refine ⟨⟨⟨hdata, hnext, hsacks, hgot, hsize, havail, hout, ?_, hwithin, hspan, ?_, ?_, hmiss, hk⟩,
    h.places.next⟩, h.far, hhalf, ?_, ?_, ?_, h.passed⟩
  · simpa only [Reading.bare, length_zeros] using hasc
  · simpa only [Reading.bare, length_zeros] using hle
  · simpa only [Reading.bare, length_zeros] using hcov
  · have hmax : (s.setMaxBufferSize maxBuffer).maxBuffer = maxBuffer := rfl
    rw [hmax]
    rcases Nat.eq_or_lt_of_le hle with heq | hlt
    · rw [← heq]
      exact Nat.le_add_right _ _
    · obtain ⟨p, hp, -, hlast⟩ := hcov (m - 1) (by omega) (by omega)
      have hend := hends p hp
      rw [if_neg (by omega)] at hend
      omega
  · intro p hp
    refine Nat.le_trans (hends p hp) (Nat.add_le_add_left ?_ _)
    by_cases hat : out = m ∧ passed = true
    · rw [if_pos hat, if_pos hat.2]
    · rw [if_neg hat]
      exact Nat.zero_le _
  · intro hg
    obtain ⟨hfe, hfo, hmf, hlf⟩ := h.finSeq hg
    refine ⟨hfe, ?_, hmf, hlf⟩
    have hmax : (s.setMaxBufferSize maxBuffer).maxBuffer = maxBuffer := rfl
    rw [hmax]
    by_cases hat : out = m ∧ passed = true
    · have := (h.passed hat.2).2
      omega
    · rw [if_neg hat, Nat.add_zero] at hunread
      have hroom := hw.fin hg
      rw [hunread, hfe, lt_at32 (by omega) (by omega)] at hroom
      rcases hroom with hlt | hroom
      · omega
      · have := place_eq (n := n) (x := f) (y := out) (by omega) (by omega) (by omega)
        omega

theorem size_le (h : Fits n s size out l m k passed f) : s.size ≤ s.maxBuffer := by
  have hsize : s.size = BitVec.ofNat 32 (total l) := h.places.places.size
  have hasc := h.places.places.ascending
  have hle := h.places.places.le
  have hends := h.ends
  have hm := h.next
  have hhalf := h.half
  simp only [Reading.bare, length_zeros] at hasc hle
  have htotal : total l ≤ s.maxBuffer.toNat := by
    cases passed with
    | false =>
      have := hasc.total_le hends (by omega)
      simp only [Bool.false_eq_true, if_false] at this
      omega
    | true =>
      simp only [if_true] at hends
      have := hasc.total_lt hends hle (by omega) h.places.places.missing
      omega
  rw [BitVec.le_def, hsize, BitVec.toNat_ofNat]
  omega

end Fits

theorem fits_of_keeps {n : SequenceNumber 32} {maxBuffer : BitVec 32} {s : TcpRxBuffer}
    (hn : maxBuffer.toNat + 1 < 2 ^ 31) (h : Keeps (.new n maxBuffer) s) :
    ∃ size out l m k passed f,
      Fits (n - BitVec.ofNat 32 (2 ^ 31)) s size out l m k passed f := by
  induction h with
  | refl => exact ⟨_, _, _, _, _, _, _, Fits.new n hn⟩
  | tail _ hstep ih =>
    obtain ⟨size, out, l, m, k, passed, f, hfits⟩ := ih
    obtain ⟨call, hw, hstep⟩ := hstep
    cases call with
    | add seq p =>
      obtain ⟨s', ok, size', l', m', k', passed', hadd, hfits', -⟩ := hfits.add hw
      rw [step, hadd] at hstep
      obtain rfl := Option.some.inj hstep
      exact ⟨_, _, _, _, _, _, _, hfits'⟩
    | extract maxSize =>
      obtain ⟨s', q, out', l', hextract, hfits'⟩ := hfits.extract maxSize
      rw [step, hextract] at hstep
      obtain rfl := Option.some.inj hstep
      exact ⟨_, _, _, _, _, _, _, hfits'⟩
    | setFinSequence seq =>
      obtain ⟨passed', f', hfits'⟩ := hfits.setFinSequence hw
      obtain rfl := Option.some.inj hstep
      exact ⟨_, _, _, _, _, _, _, hfits'⟩
    | setMaxBufferSize size' =>
      obtain rfl := Option.some.inj hstep
      exact ⟨_, _, _, _, _, _, _, hfits.setMaxBufferSize hw⟩

/-- In a run that keeps to the window no call fails and there are never more bytes than the maximum;
what a segment adds is before the first number that is not accepted, and before the FIN. -/
theorem keeps_window {n : SequenceNumber 32} {maxBuffer : BitVec 32} {s : TcpRxBuffer}
    (hn : maxBuffer.toNat + 1 < 2 ^ 31) (h : Keeps (.new n maxBuffer) s) :
    s.size ≤ s.maxBuffer ∧ ∀ seq p, Within s (.add seq p) →
      ∃ s' ok, s.add seq p = some (s', ok) ∧ s'.size ≤ s'.maxBuffer ∧
        ∀ x, s'.Holds x → ¬ s.Holds x →
          lt x s.maxRxSequence = true ∧ (s.gotFin = true → lt x s.finSeq = true) := by
  obtain ⟨size, out, l, m, k, passed, f, hfits⟩ := fits_of_keeps hn h
  refine ⟨hfits.size_le, fun seq p hw => ?_⟩
  obtain ⟨s', ok, size', l', m', k', passed', hadd, hfits', hnew⟩ := hfits.add hw
  refine ⟨s', ok, hadd, hfits'.size_le, fun x hx hold => ⟨hnew x hx hold, fun hg => ?_⟩⟩
  have hmax : s.maxRxSequence = s.finSeq := by rw [maxRxSequence, if_pos hg]
  rw [← hmax]
  exact hnew x hx hold

theorem keeps_window_of_two : ∃ s : TcpRxBuffer, s.size = 2 ∧ s.size ≤ s.maxBuffer := by
  obtain ⟨s, hadd⟩ := Option.isSome_iff_exists.mp
    (by decide : ((TcpRxBuffer.new 0 2).step (.add 0 [5, 6])).isSome)
  have hwithin : Within (.new 0 2) (.add 0 [5, 6]) := by
    refine ⟨⟨0, ⟨by decide, ?_, ?_⟩, by decide⟩, .inl (by decide)⟩
    · intro block hblock
      cases hblock
    · intro hgot
      cases hgot
  have hsize : ((TcpRxBuffer.new 0 2).step (.add 0 [5, 6])).map size = some 2 := by decide +kernel
  rw [hadd] at hsize
  have hrun : Keeps (.new 0 2) s := .single ⟨_, hwithin, hadd⟩
  exact ⟨s, Option.some.inj hsize, (keeps_window (by decide) hrun).1⟩

/-- Two bytes come in at the start of a window of one, and both are stored. -/
theorem window_overrun : ∃ s' : TcpRxBuffer, (TcpRxBuffer.new 0 1).add 0 [5, 6] = some (s', true) ∧
    lt 0 (TcpRxBuffer.new 0 1).maxRxSequence = true ∧ s'.Holds 1 ∧
      ¬ lt 1 (TcpRxBuffer.new 0 1).maxRxSequence = true ∧ ¬ s'.size ≤ s'.maxBuffer := by
  refine ⟨_, rfl, by decide, ⟨(0, [5, 6]), by decide, 1, by decide, by decide⟩, by decide, by decide⟩

end CudaNs3.Tcp
