import CudaNs3.Internet.Fragmentation

/-!
# IPv4 reassembly

`Ipv4L3Protocol::Fragments`, `ProcessFragment` and `LocalDeliver`. Fragments that wait too long
are not dropped here: everything happens within the expiration time.
-/

namespace CudaNs3.Internet

open Pieces
set_option autoImplicit false

/-- `m_fragments` is in ascending order of the offsets. -/
structure Fragments where
  moreFragment : Bool
  fragments : List (List UInt8 × BitVec 16)
  deriving DecidableEq

namespace Fragments

def new : Fragments := ⟨false, []⟩

/-- The iterator stops at the first fragment with a larger offset. -/
def insertFragment (fragment : List UInt8) (fragmentOffset : BitVec 16) :
    List (List UInt8 × BitVec 16) → List (List UInt8 × BitVec 16)
  | [] => [(fragment, fragmentOffset)]
  | it :: rest =>
    if fragmentOffset < it.2 then (fragment, fragmentOffset) :: it :: rest
    else it :: insertFragment fragment fragmentOffset rest

def addFragment (s : Fragments) (fragment : List UInt8) (fragmentOffset : BitVec 16)
    (moreFragment : Bool) : Fragments where
  moreFragment := if s.fragments.any fun it => fragmentOffset < it.2 then s.moreFragment else moreFragment
  fragments := insertFragment fragment fragmentOffset s.fragments

/-- The loop of `IsEntire`. -/
def entireFrom (lastEndOffset : BitVec 16) : List (List UInt8 × BitVec 16) → Bool
  | [] => true
  | it :: rest =>
    if lastEndOffset < it.2 then false
    else
      let fragmentEnd := (getSize it.1 + it.2.setWidth 32).setWidth 16
      entireFrom (if lastEndOffset < fragmentEnd then fragmentEnd else lastEndOffset) rest

def isEntire (s : Fragments) : Bool :=
  !s.moreFragment && decide (0 < s.fragments.length) && entireFrom 0 s.fragments

/-- The loop of `GetPacket`; `lastEndOffset` is the size of what is joined so far. -/
def joinFrom (p : List UInt8) : List (List UInt8 × BitVec 16) → Option (List UInt8)
  | [] => some p
  | it :: rest =>
    let lastEndOffset := (getSize p).setWidth 16
    if it.2 < lastEndOffset then
      let newStart := lastEndOffset.setWidth 32 - it.2.setWidth 32
      if newStart < getSize it.1 then do
        let tempFragment ← createFragment it.1 newStart (getSize it.1 - newStart)
        joinFrom (p ++ tempFragment) rest
      else joinFrom p rest
    else joinFrom (p ++ it.1) rest

def getPacket (s : Fragments) : Option (List UInt8) :=
  match s.fragments with
  | [] => none
  | it :: rest => joinFrom it.1 rest

end Fragments

/-- `m_fragments` of the protocol. -/
abbrev FragmentMap := FragmentKey → Option Fragments

def FragmentMap.set (m : FragmentMap) (key : FragmentKey) (f : Option Fragments) : FragmentMap :=
  fun k => if k = key then f else m k

/-- The new map, the packet and the result. -/
def processFragment (m : FragmentMap) (packet : List UInt8) (ipHeader : Ipv4Header) :
    Option (FragmentMap × List UInt8 × Bool) := do
  let key := ipHeader.fragmentKey
  let fragments := (m key).getD Fragments.new
  let fragments := fragments.addFragment packet ipHeader.fragmentOffset (!ipHeader.isLastFragment)
  if fragments.isEntire then
    let packet ← fragments.getPacket
    some (m.set key none, packet, true)
  else some (m.set key (some fragments), packet, false)

/-- The test by which `LocalDeliver` tells a fragment. -/
def Datagram.isFragment (d : Datagram) : Bool := !d.2.isLastFragment || d.2.fragmentOffset != 0

/-- What goes up to the transport protocol, if anything does. -/
def localDeliver (m : FragmentMap) (d : Datagram) : Option (FragmentMap × Option Datagram) :=
  if Datagram.isFragment d then do
    let (m, p, isPacketComplete) ← processFragment m d.1 d.2
    if isPacketComplete then
      let ipHeader ← d.2.setFragmentOffset 0
      some (m, some (p, ipHeader.setPayloadSize ((getSize p).setWidth 16)))
    else some (m, none)
  else some (m, some d)

/-- The fragments held since the last completion contain every byte of `n`. -/
def Received (held : List Datagram) (n : Nat) : Prop :=
  ∀ x, x < n → Covers (held.map Datagram.piece) x

instance (held : List Datagram) (n : Nat) : Decidable (Received held n) :=
  inferInstanceAs (Decidable (∀ x, x < n → ∃ p ∈ held.map Datagram.piece, p.start ≤ x ∧ x < p.stop))

/-- Of the fragments held, the one that starts last is the end of the datagram; of several that
start there, the one that came last. -/
def EndsLast (held : List Datagram) : Prop :=
  ∃ a d b, held = a ++ d :: b ∧ d.2.isLastFragment = true ∧
    (∀ f ∈ a, f.2.fragmentOffset ≤ d.2.fragmentOffset) ∧
    ∀ f ∈ b, f.2.fragmentOffset < d.2.fragmentOffset

namespace Fragments

def toPiece (it : List UInt8 × BitVec 16) : Piece UInt8 := ⟨it.2.toNat, it.1⟩

def pieces (s : Fragments) : List (Piece UInt8) := s.fragments.map toPiece

/-- All fragments of a datagram that came so far, added one after the other. -/
def collect (held : List Datagram) : Fragments :=
  held.foldl (fun s d => s.addFragment d.1 d.2.fragmentOffset (!d.2.isLastFragment)) new

variable {payload : List UInt8} {held : List Datagram} {d : Datagram}
variable {p : List UInt8} {offset : BitVec 16} {l : List (List UInt8 × BitVec 16)}

theorem collect_append : collect (held ++ [d]) =
    (collect held).addFragment d.1 d.2.fragmentOffset (!d.2.isLastFragment) := by
  simp [collect]

theorem mem_insertFragment {it : List UInt8 × BitVec 16} :
    it ∈ insertFragment p offset l ↔ it = (p, offset) ∨ it ∈ l := by
  induction l with
  | nil => simp [insertFragment]
  | cons it' rest ih =>
    unfold insertFragment
    split
    · exact List.mem_cons
    · simp only [List.mem_cons, ih]
      exact or_left_comm

theorem sorted_insertFragment (h : l.Pairwise fun a b => a.2 ≤ b.2) :
    (insertFragment p offset l).Pairwise fun a b => a.2 ≤ b.2 := by
  induction l with
  | nil => exact List.pairwise_singleton _ _
  | cons it rest ih =>
    obtain ⟨hit, hrest⟩ := List.pairwise_cons.mp h
    unfold insertFragment
    split
    · rename_i hlt
      apply List.pairwise_cons.mpr
      refine ⟨List.forall_mem_cons.mpr ⟨BitVec.le_of_lt hlt, ?_⟩, h⟩
      intro q hq
      exact BitVec.le_trans (BitVec.le_of_lt hlt) (hit q hq)
    · rename_i hge
      apply List.pairwise_cons.mpr
      refine ⟨?_, ih hrest⟩
      intro q hq
      rcases mem_insertFragment.mp hq with rfl | hq
      · exact BitVec.not_lt.mp hge
      · exact hit q hq

theorem mem_collect {it : List UInt8 × BitVec 16} :
    it ∈ (collect held).fragments ↔ ∃ d ∈ held, it = (d.1, d.2.fragmentOffset) := by
  induction held using List.reverseRecOn with
  | nil => simp [collect, new]
  | append_singleton held d ih =>
    rw [collect_append, addFragment, mem_insertFragment, ih]
    simp only [List.mem_append, List.mem_singleton]
    constructor
    · rintro (rfl | ⟨e, he, rfl⟩)
      · exact ⟨d, .inr rfl, rfl⟩
      · exact ⟨e, .inl he, rfl⟩
    · rintro ⟨e, he | rfl, rfl⟩
      · exact .inr ⟨e, he, rfl⟩
      · exact .inl rfl

theorem exists_of_mem_collect {it : List UInt8 × BitVec 16} (h : it ∈ (collect held).fragments) :
    ∃ d ∈ held, it = (d.1, d.2.fragmentOffset) :=
  mem_collect.mp h

theorem mem_collect_of_mem {d : Datagram} (hd : d ∈ held) :
    (d.1, d.2.fragmentOffset) ∈ (collect held).fragments :=
  mem_collect.mpr ⟨d, hd, rfl⟩

theorem sorted_collect : (collect held).fragments.Pairwise fun a b => a.2 ≤ b.2 := by
  induction held using List.reverseRecOn with
  | nil => exact .nil
  | append_singleton held d ih =>
    rw [collect_append]
    exact sorted_insertFragment ih

theorem covers_collect {x : Nat} :
    Covers (collect held).pieces x ↔ Covers (held.map Datagram.piece) x := by
  apply covers_congr
  intro q
  simp only [pieces, List.mem_map]
  constructor
  · rintro ⟨it, hit, rfl⟩
    obtain ⟨d, hd, rfl⟩ := exists_of_mem_collect hit
    exact ⟨d, hd, rfl⟩
  · rintro ⟨d, hd, rfl⟩
    exact ⟨_, mem_collect_of_mem hd, rfl⟩

/-- A fragment put before another one leaves the end of the list, and the flag, as they are. -/
theorem endsLast_append_of_lt {e : Datagram} (he : e ∈ held)
    (hlt : d.2.fragmentOffset < e.2.fragmentOffset) : EndsLast (held ++ [d]) ↔ EndsLast held := by
  constructor
  · rintro ⟨a, t, b, heq, hlast, ha, hb⟩
    induction b using List.reverseRecOn with
    | nil =>
      obtain ⟨rfl, hdt⟩ := List.append_inj' heq rfl
      cases hdt
      exact absurd hlt (BitVec.not_lt.mpr (ha e he))
    | append_singleton b u _ =>
      have heq' : held ++ [d] = (a ++ t :: b) ++ [u] := by rw [heq, List.append_assoc]; rfl
      obtain ⟨rfl, -⟩ := List.append_inj' heq' rfl
      exact ⟨a, t, b, rfl, hlast, ha, fun f hf => hb f (List.mem_append_left _ hf)⟩
  · rintro ⟨a, t, b, rfl, hlast, ha, hb⟩
    refine ⟨a, t, b ++ [d], by simp, hlast, ha, ?_⟩
    intro f hf
    rcases List.mem_append.mp hf with hf | hf
    · exact hb f hf
    · cases List.mem_singleton.mp hf
      have hle : e.2.fragmentOffset ≤ t.2.fragmentOffset := by
        rcases List.mem_append.mp he with he | he
        · exact ha e he
        · rcases List.mem_cons.mp he with rfl | he
          · exact BitVec.le_refl _
          · exact BitVec.le_of_lt (hb e he)
      bv_omega

theorem endsLast_append_of_le (h : ∀ f ∈ held, f.2.fragmentOffset ≤ d.2.fragmentOffset) :
    EndsLast (held ++ [d]) ↔ d.2.isLastFragment = true := by
  constructor
  · rintro ⟨a, t, b, heq, hlast, ha, hb⟩
    induction b using List.reverseRecOn with
    | nil =>
      obtain ⟨-, hdt⟩ := List.append_inj' heq rfl
      cases hdt
      exact hlast
    | append_singleton b u _ =>
      have heq' : held ++ [d] = (a ++ t :: b) ++ [u] := by rw [heq, List.append_assoc]; rfl
      obtain ⟨rfl, hu⟩ := List.append_inj' heq' rfl
      cases hu
      have hlt := hb d (List.mem_append_right b (List.mem_singleton_self d))
      exact absurd hlt (BitVec.not_lt.mpr (h t (by simp)))
  · intro hlast
    exact ⟨held, d, [], rfl, hlast, h, by simp⟩

/-- `m_moreFragment` is the flag of the fragment at the end of the list. -/
theorem moreFragment_collect (hne : held ≠ []) :
    (collect held).moreFragment = false ↔ EndsLast held := by
  induction held using List.reverseRecOn with
  | nil => exact absurd rfl hne
  | append_singleton held d ih =>
    rw [collect_append, addFragment]
    by_cases hany : ∃ e ∈ held, d.2.fragmentOffset < e.2.fragmentOffset
    · obtain ⟨e, he, hlt⟩ := hany
      have hfound : ((collect held).fragments.any fun it => d.2.fragmentOffset < it.2) = true := by
        apply List.any_eq_true.mpr
        exact ⟨_, mem_collect_of_mem he, by simpa using hlt⟩
      have hheld : held ≠ [] := List.ne_nil_of_mem he
      rw [endsLast_append_of_lt he hlt, ← ih hheld]
      simp only [hfound, if_true]
    · have hall : ∀ e ∈ held, e.2.fragmentOffset ≤ d.2.fragmentOffset := by
        intro e he
        exact BitVec.not_lt.mp fun hlt => hany ⟨e, he, hlt⟩
      have hnone : ((collect held).fragments.any fun it => d.2.fragmentOffset < it.2) = false := by
        apply List.any_eq_false.mpr
        intro it hit
        obtain ⟨e, he, rfl⟩ := exists_of_mem_collect hit
        simpa using hall e he
      rw [endsLast_append_of_le hall]
      simp [hnone]

theorem toNat_fragmentEnd {it : List UInt8 × BitVec 16} (h : (toPiece it).stop < 2 ^ 16) :
    ((getSize it.1 + it.2.setWidth 32).setWidth 16).toNat = (toPiece it).stop := by
  simp only [toPiece, Piece.stop] at h ⊢
  have := it.2.isLt
  rw [BitVec.toNat_setWidth, BitVec.toNat_add, getSize, BitVec.toNat_ofNat, BitVec.toNat_setWidth]
  omega

/-- As long as nothing ends beyond 65535, the loop finds the holes. -/
theorem entireFrom_iff {n : BitVec 16} (h : ∀ it ∈ l, (toPiece it).stop < 2 ^ 16) :
    entireFrom n l = true ↔ Gapless n.toNat (l.map toPiece) := by
  induction l generalizing n with
  | nil => exact iff_of_true rfl trivial
  | cons it rest ih =>
    obtain ⟨hit, hrest⟩ := List.forall_mem_cons.mp h
    have hend := toNat_fragmentEnd hit
    rw [entireFrom, List.map_cons, Gapless]
    by_cases hhole : n < it.2
    · rw [if_pos hhole]
      apply iff_of_false Bool.false_ne_true
      rintro ⟨hstart, -⟩
      exact absurd hhole (BitVec.not_lt.mpr hstart)
    · have hstart : (toPiece it).start ≤ n.toNat := BitVec.not_lt.mp hhole
      rw [if_neg hhole, ih hrest, and_iff_right hstart]
      have hmax : (if n < (getSize it.1 + it.2.setWidth 32).setWidth 16 then
          (getSize it.1 + it.2.setWidth 32).setWidth 16 else n).toNat =
          max n.toNat (toPiece it).stop := by
        split
        · rename_i hlt
          have : n.toNat < (toPiece it).stop := hend ▸ hlt
          omega
        · rename_i hge
          have : ¬ n.toNat < (toPiece it).stop := fun hlt => hge (by rw [BitVec.lt_def, hend]; exact hlt)
          omega
      rw [hmax]

/-- The loop joins the pieces of a payload to its beginning. -/
theorem joinFrom_take {n : Nat} (hlen : payload.length < 2 ^ 16)
    (h : ∀ it ∈ l, (toPiece it).Of payload) (hgap : Gapless n (l.map toPiece))
    (hn : n ≤ payload.length) :
    joinFrom (payload.take n) l = some (payload.take (reach n (l.map toPiece))) := by
  induction l generalizing n with
  | nil => rfl
  | cons it rest ih =>
    obtain ⟨hit, hrest⟩ := List.forall_mem_cons.mp h
    obtain ⟨hstart, hgap⟩ := hgap
    have hstop := hit.stop_le
    have hnext := hit.take_append_drop hstart
    have ih := ih hrest hgap (Nat.max_le.mpr ⟨hn, hstop⟩)
    have htake : (payload.take n).length = n := List.length_take_of_le hn
    have hlast : ((getSize (payload.take n)).setWidth 16).toNat = n := by
      rw [getSize, htake, BitVec.toNat_setWidth, BitVec.toNat_ofNat]
      omega
    rw [List.map_cons, reach, ← ih, ← hnext, joinFrom]
    simp only [toPiece, Piece.stop] at hstart hstop ⊢
    have hsize : (getSize it.1).toNat = it.1.length := by
      rw [getSize, BitVec.toNat_ofNat]
      omega
    have hoffset := it.2.isLt
    have hnew : (((getSize (payload.take n)).setWidth 16).setWidth 32 - it.2.setWidth 32).toNat =
        n - it.2.toNat := by
      rw [BitVec.toNat_sub, BitVec.toNat_setWidth, BitVec.toNat_setWidth, hlast]
      omega
    generalize ((getSize (payload.take n)).setWidth 16).setWidth 32 - it.2.setWidth 32 = newStart at hnew
    by_cases hlt : it.2 < (getSize (payload.take n)).setWidth 16
    · rw [if_pos hlt]
      by_cases hmore : newStart < getSize it.1
      · have hrestLen : (getSize it.1 - newStart).toNat = it.1.length - newStart.toNat := by
          rw [BitVec.toNat_sub, hsize]
          have : newStart.toNat < it.1.length := hsize ▸ hmore
          omega
        have hcut : createFragment it.1 newStart (getSize it.1 - newStart) =
            some (it.1.drop (n - it.2.toNat)) := by
          have : newStart.toNat < it.1.length := hsize ▸ hmore
          rw [createFragment_eq (by omega) (by omega), hrestLen, hnew, ← List.length_drop,
            List.take_length]
        rw [if_pos hmore, hcut]
        rfl
      · have hnil : it.1.drop (n - it.2.toNat) = [] := by
          apply List.drop_eq_nil_of_le
          have : ¬ newStart.toNat < it.1.length := fun hlt => hmore (by rw [BitVec.lt_def, hsize]; exact hlt)
          omega
        rw [if_neg hmore, hnil, List.append_nil]
    · have hzero : n - it.2.toNat = 0 := by
        have : ¬ it.2.toNat < n := fun hlt' => hlt (by rw [BitVec.lt_def, hlast]; exact hlt')
        omega
      rw [if_neg hlt, hzero, List.drop_zero]

theorem pieces_collect {q : Piece UInt8} :
    q ∈ (collect held).pieces ↔ ∃ d ∈ held, q = Datagram.piece d := by
  simp only [pieces, List.mem_map]
  constructor
  · rintro ⟨it, hit, rfl⟩
    obtain ⟨d, hd, rfl⟩ := exists_of_mem_collect hit
    exact ⟨d, hd, rfl⟩
  · rintro ⟨d, hd, rfl⟩
    exact ⟨_, mem_collect_of_mem hd, rfl⟩

theorem fragments_collect_ne_nil (hne : held ≠ []) : (collect held).fragments ≠ [] := by
  obtain ⟨d, hd⟩ := List.exists_mem_of_ne_nil held hne
  exact List.ne_nil_of_mem (mem_collect_of_mem hd)

section Datagrams

variable {key : FragmentKey} (hheld : ∀ d ∈ held, FragmentOf payload key d)
  (hlen : payload.length ≤ 65515)
include hheld

theorem of_collect : ∀ it ∈ (collect held).fragments, (toPiece it).Of payload := by
  intro it hit
  obtain ⟨d, hd, rfl⟩ := exists_of_mem_collect hit
  exact (hheld d hd).piece

theorem reach_collect (hlast : EndsLast held) : reach 0 (collect held).pieces = payload.length := by
  obtain ⟨a, d, b, rfl, hd, -, -⟩ := hlast
  apply Nat.le_antisymm
  · apply reach_le (Nat.zero_le _)
    intro q hq
    obtain ⟨e, he, rfl⟩ := pieces_collect.mp hq
    exact (hheld e he).piece.stop_le
  · have hmem : d ∈ a ++ d :: b := by simp
    rw [← (hheld d hmem).last.mp hd]
    exact stop_le_reach (pieces_collect.mpr ⟨d, hmem, rfl⟩)

include hlen

/-- `IsEntire` tells that everything is there, if the last fragment is at the end of the list. -/
theorem isEntire_collect (hne : held ≠ []) :
    (collect held).isEntire = true ↔ EndsLast held ∧ Received held payload.length := by
  have hpos : 0 < (collect held).fragments.length :=
    List.length_pos_of_ne_nil (fragments_collect_ne_nil hne)
  have hshort : ∀ it ∈ (collect held).fragments, (toPiece it).stop < 2 ^ 16 := by
    intro it hit
    have := (of_collect hheld it hit).stop_le
    omega
  have hsorted : (collect held).pieces.Pairwise fun p q => p.start ≤ q.start :=
    List.pairwise_map.mpr sorted_collect
  have hzero : (0 : BitVec 16).toNat = 0 := rfl
  rw [isEntire, Bool.and_eq_true, Bool.and_eq_true, Bool.not_eq_true', moreFragment_collect hne,
    entireFrom_iff hshort, decide_eq_true_iff, and_iff_left hpos, hzero]
  apply and_congr_right
  intro hlast
  have hreach := reach_collect hheld hlast
  rw [pieces] at hsorted hreach
  rw [gapless_iff hsorted, hreach]
  constructor
  · intro h x hx
    exact covers_collect.mp (h x (Nat.zero_le x) hx)
  · intro h x _ hx
    exact covers_collect.mpr (h x hx)

/-- Then `GetPacket` gives the payload back. -/
theorem getPacket_collect (hne : held ≠ []) (h : (collect held).isEntire = true) :
    (collect held).getPacket = some payload := by
  have hlast := ((isEntire_collect hheld hlen hne).mp h).1
  have hreach := reach_collect hheld hlast
  have hof := of_collect hheld
  have hentire : entireFrom 0 (collect held).fragments = true := by
    rw [isEntire, Bool.and_eq_true] at h
    exact h.2
  have hshort : ∀ it ∈ (collect held).fragments, (toPiece it).stop < 2 ^ 16 := by
    intro it hit
    have := (hof it hit).stop_le
    omega
  have hgap := (entireFrom_iff hshort).mp hentire
  have hpos := fragments_collect_ne_nil hne
  rw [pieces] at hreach
  unfold getPacket
  generalize (collect held).fragments = l at *
  cases l with
  | nil => exact absurd rfl hpos
  | cons it rest =>
    obtain ⟨hit, hrest⟩ := List.forall_mem_cons.mp hof
    obtain ⟨hstart, hgap⟩ := hgap
    have hfirst := hit.take_append_drop hstart
    have hzero : (0 : BitVec 16).toNat = 0 := rfl
    rw [hzero] at hfirst hgap
    rw [List.take_zero, Nat.zero_sub, List.drop_zero, List.nil_append] at hfirst
    have hmax : max 0 (toPiece it).stop ≤ payload.length := by
      have := hit.stop_le
      omega
    have hjoin := joinFrom_take (by omega) hrest hgap hmax
    rw [← hfirst, ← reach, ← List.map_cons, hreach, List.take_length] at hjoin
    exact hjoin

end Datagrams

/-- Whatever is joined, no piece is asked for more than it has. -/
theorem joinFrom_isSome : ∃ q, joinFrom p l = some q := by
  induction l generalizing p with
  | nil => exact ⟨p, rfl⟩
  | cons it rest ih =>
    unfold joinFrom
    simp only
    split
    · split
      · have hcut : ∀ start : BitVec 32, start + (getSize it.1 - start) ≤ getSize it.1 := by
          intro start
          rw [BitVec.add_comm, BitVec.sub_add_cancel]
          exact BitVec.le_refl _
        rw [createFragment, if_pos (hcut _)]
        exact ih
      · exact ih
    · exact ih

end Fragments

open Fragments

namespace FragmentMap

variable {m : FragmentMap} {key k : FragmentKey} {f : Option Fragments}

@[simp] theorem set_self : m.set key f key = f := if_pos rfl

theorem set_of_ne (h : k ≠ key) : m.set key f k = m k := if_neg h

end FragmentMap

section ProcessFragment

variable {m : FragmentMap} {payload : List UInt8} {held : List Datagram} {d : Datagram}
variable {key : FragmentKey}

/-- The reassembly of a datagram after the fragments `held`. -/
def Holds (m : FragmentMap) (key : FragmentKey) (held : List Datagram) : Prop :=
  (m key).getD Fragments.new = collect held

/-- A fragment of another datagram changes nothing, and nothing fails. -/
theorem processFragment_other (h : d.2.fragmentKey ≠ key) :
    ∃ m' p complete, processFragment m d.1 d.2 = some (m', p, complete) ∧ m' key = m key := by
  unfold processFragment
  simp only
  split
  · have hne : (((m d.2.fragmentKey).getD Fragments.new).addFragment d.1 d.2.fragmentOffset
        (!d.2.isLastFragment)).fragments ≠ [] :=
      List.ne_nil_of_mem (mem_insertFragment.mpr (.inl rfl))
    unfold getPacket
    split
    · rename_i hnil
      exact absurd hnil hne
    · obtain ⟨q, hq⟩ := joinFrom_isSome
      rw [hq]
      exact ⟨_, q, true, rfl, FragmentMap.set_of_ne (Ne.symm h)⟩
  · exact ⟨_, d.1, false, rfl, FragmentMap.set_of_ne (Ne.symm h)⟩

/-- `ProcessFragment` reports completion when every byte is there and the last fragment is at the
end of the list, and then gives the payload. -/
theorem processFragment_own (hm : Holds m key held) (hheld : ∀ f ∈ held ++ [d], FragmentOf payload key f)
    (hlen : payload.length ≤ 65515) :
    ∃ m' p complete, processFragment m d.1 d.2 = some (m', p, complete) ∧
      (complete = true ↔ EndsLast (held ++ [d]) ∧ Received (held ++ [d]) payload.length) ∧
      (complete = true → p = payload) ∧
      Holds m' key (if complete then [] else held ++ [d]) := by
  have hne : held ++ [d] ≠ [] := by simp
  have hkey : d.2.fragmentKey = key := (hheld d (by simp)).key
  have hadd : ((m key).getD Fragments.new).addFragment d.1 d.2.fragmentOffset
      (!d.2.isLastFragment) = collect (held ++ [d]) := by
    rw [collect_append, hm]
  have hiff := isEntire_collect hheld hlen hne
  unfold processFragment
  simp only [hkey, hadd]
  by_cases hentire : (collect (held ++ [d])).isEntire = true
  · rw [if_pos hentire, getPacket_collect hheld hlen hne hentire]
    refine ⟨_, payload, true, rfl, iff_of_true rfl (hiff.mp hentire), fun _ => rfl, ?_⟩
    rw [Holds, FragmentMap.set_self]
    rfl
  · rw [if_neg hentire]
    refine ⟨_, d.1, false, rfl, ?_, fun h => absurd h Bool.false_ne_true, ?_⟩
    · exact iff_of_false Bool.false_ne_true fun h => hentire (hiff.mpr h)
    · rw [Holds, FragmentMap.set_self]
      rfl

theorem localDeliver_of_processFragment {m' : FragmentMap} {p : List UInt8} {complete : Bool}
    (hfragment : Datagram.isFragment d = true)
    (h : processFragment m d.1 d.2 = some (m', p, complete)) :
    ∃ out, localDeliver m d = some (m', out) ∧ (out.isSome = complete) ∧
      ∀ u ∈ out, u.1 = p := by
  have hzero : d.2.setFragmentOffset 0 = some { d.2 with fragmentOffset := 0 } :=
    setFragmentOffset_of_dvd ⟨0, rfl⟩
  rw [localDeliver, if_pos hfragment, h, Option.bind_eq_bind, Option.bind_some]
  cases complete with
  | false => exact ⟨none, rfl, rfl, by simp⟩
  | true =>
    simp only [if_true, hzero, Option.bind_eq_bind, Option.bind_some]
    refine ⟨_, rfl, rfl, ?_⟩
    rintro u ⟨rfl⟩
    rfl

theorem localDeliver_whole (hwhole : Datagram.isFragment d = false) :
    localDeliver m d = some (m, some d) := by
  rw [localDeliver, hwhole]
  rfl

end ProcessFragment

/-- What counts as held after the fragment `d`: nothing, when it was the missing one. -/
def receive (n : Nat) (held : List Datagram) (d : Datagram) : List Datagram :=
  if Received (held ++ [d]) n then [] else held ++ [d]

/-- `d` is a fragment with the key of `origin`. -/
def Concerns (origin d : Datagram) : Prop :=
  Datagram.isFragment d = true ∧ d.2.fragmentKey = origin.2.fragmentKey

instance (origin d : Datagram) : Decidable (Concerns origin d) :=
  inferInstanceAs (Decidable (_ ∧ _))

/-- Every datagram of the run is processed without a failure. At each fragment of `origin`,
completion is reported when every byte is there and only then, with the payload. -/
def Reassembles (origin : Datagram) : FragmentMap → List Datagram → List Datagram → Prop
  | _, _, [] => True
  | m, held, d :: ds =>
    ∃ m' out, localDeliver m d = some (m', out) ∧
      if Concerns origin d then
        (out.isSome = true ↔ Received (held ++ [d]) origin.1.length) ∧
        (∀ u ∈ out, u.1 = origin.1) ∧
        Reassembles origin m' (receive origin.1.length held d) ds
      else Reassembles origin m' held ds

/-- Whenever every byte is there, the last fragment is not followed by another one. -/
def EndsLastWhenReceived (origin : Datagram) : List Datagram → List Datagram → Prop
  | _, [] => True
  | held, d :: ds =>
    if Concerns origin d then
      (Received (held ++ [d]) origin.1.length → EndsLast (held ++ [d])) ∧
      EndsLastWhenReceived origin (receive origin.1.length held d) ds
    else EndsLastWhenReceived origin held ds

/-- From any point of a run on. -/
theorem reassembles_from {origin : Datagram} (horigin : Whole origin) {ds : List Datagram}
    (hds : ∀ d ∈ ds, d.2.fragmentKey = origin.2.fragmentKey → Travels origin d) {m : FragmentMap}
    {held : List Datagram} (hm : Holds m origin.2.fragmentKey held)
    (hheld : ∀ f ∈ held, FragmentOf origin.1 origin.2.fragmentKey f) :
    Reassembles origin m held ds ↔ EndsLastWhenReceived origin held ds := by
  induction ds generalizing m held with
  | nil => exact Iff.rfl
  | cons d ds ih =>
    obtain ⟨hd, hds⟩ := List.forall_mem_cons.mp hds
    have hlen := horigin.length_le
    rw [Reassembles, EndsLastWhenReceived]
    by_cases hown : Concerns origin d
    · have hall : ∀ f ∈ held ++ [d], FragmentOf origin.1 origin.2.fragmentKey f := by
        intro f hf
        rcases List.mem_append.mp hf with hf | hf
        · exact hheld f hf
        · cases List.mem_singleton.mp hf
          exact (hd hown.2).fragmentOf horigin
      obtain ⟨m', p, complete, heq, hcomplete, hp, hm'⟩ := processFragment_own hm hall hlen
      obtain ⟨out, hout, hsome, hpay⟩ := localDeliver_of_processFragment hown.1 heq
      have hnext : ∀ f ∈ receive origin.1.length held d,
          FragmentOf origin.1 origin.2.fragmentKey f := by
        unfold receive
        split
        · simp
        · exact hall
      have hstate : (Received (held ++ [d]) origin.1.length → EndsLast (held ++ [d])) →
          Holds m' origin.2.fragmentKey (receive origin.1.length held d) := by
        intro hends
        have hif : (if complete then [] else held ++ [d]) = receive origin.1.length held d :=
          if_congr ⟨fun h => (hcomplete.mp h).2, fun h => hcomplete.mpr ⟨hends h, h⟩⟩ rfl rfl
        exact hif ▸ hm'
      simp only [hown, if_true]
      constructor
      · rintro ⟨m'', out', heq', hiff, -, hrest⟩
        cases hout.symm.trans heq'
        rw [hsome] at hiff
        have hends : Received (held ++ [d]) origin.1.length → EndsLast (held ++ [d]) :=
          fun h => (hcomplete.mp (hiff.mpr h)).1
        exact ⟨hends, (ih hds (hstate hends) hnext).mp hrest⟩
      · rintro ⟨hends, hrest⟩
        refine ⟨m', out, hout, ?_, ?_, (ih hds (hstate hends) hnext).mpr hrest⟩
        · rw [hsome, hcomplete]
          exact ⟨And.right, fun h => ⟨hends h, h⟩⟩
        · intro u hu
          have hcompl : complete = true := by
            rw [← hsome]
            exact Option.isSome_of_mem hu
          rw [hpay u hu]
          exact hp hcompl
    · simp only [hown, if_false]
      obtain ⟨m', out, hout, hkeep⟩ : ∃ m' out, localDeliver m d = some (m', out) ∧
          m' origin.2.fragmentKey = m origin.2.fragmentKey := by
        by_cases hfragment : Datagram.isFragment d = true
        · have hkey : d.2.fragmentKey ≠ origin.2.fragmentKey := fun hkey => hown ⟨hfragment, hkey⟩
          obtain ⟨m', p, complete, heq, hkeep⟩ := processFragment_other (m := m) hkey
          obtain ⟨out, hout, -⟩ := localDeliver_of_processFragment hfragment heq
          exact ⟨m', out, hout, hkeep⟩
        · exact ⟨m, some d, localDeliver_whole (Bool.not_eq_true _ ▸ hfragment), rfl⟩
      have hm' : Holds m' origin.2.fragmentKey held := by
        rw [Holds, hkeep]
        exact hm
      constructor
      · rintro ⟨m'', out', heq', hrest⟩
        cases hout.symm.trans heq'
        exact (ih hds hm' hheld).mp hrest
      · intro hrest
        exact ⟨m', out, hout, (ih hds hm' hheld).mpr hrest⟩

/-- Reassembly of a datagram whose fragments come over any paths, in any order and any number of
times, between those of others: it is right just when the end of the datagram is not followed by
a fragment cut elsewhere, at the moment when all is there. -/
theorem reassembly_exact_iff {origin : Datagram} (horigin : Whole origin) {ds : List Datagram}
    (hds : ∀ d ∈ ds, d.2.fragmentKey = origin.2.fragmentKey → Travels origin d) :
    Reassembles origin (fun _ => none) [] ds ↔ EndsLastWhenReceived origin [] ds := by
  apply reassembles_from horigin hds
  · rfl
  · simp

/-- 145 bytes, which make two fragments at an MTU of 116 and four at 68. -/
def sampleDatagram : Datagram :=
  (List.replicate 145 7, ⟨145, 1, 64, 17, 0, 0, 0x0a000001, 0x0a000002, 20⟩)

def sampleFragments (mtu : BitVec 16) : List Datagram := (sendRealOut mtu sampleDatagram).getD []

theorem whole_sampleDatagram : Whole sampleDatagram where
  length_le := by simp [sampleDatagram]
  offset := rfl
  last := by decide
  headerSize := rfl

theorem travels_sampleFragments {mtu : BitVec 16} (hmtu : 68 ≤ mtu.toNat) {d : Datagram}
    (hd : d ∈ sampleFragments mtu) : Travels sampleDatagram d := by
  unfold sampleFragments at hd
  cases heq : sendRealOut mtu sampleDatagram with
  | none => simp [heq] at hd
  | some fs =>
    rw [heq] at hd
    exact .sent hmtu heq hd

/-- The two fragments of one path, the second one first. -/
theorem reassembly_exact_iff_reversed :
    Reassembles sampleDatagram (fun _ => none) [] (sampleFragments 116).reverse ↔
      EndsLastWhenReceived sampleDatagram [] (sampleFragments 116).reverse :=
  reassembly_exact_iff whole_sampleDatagram fun _ hd _ =>
    travels_sampleFragments (by decide) (List.mem_reverse.mp hd)

/-- `size` bytes of the datagram from `offset` on. -/
def samplePart (size : Nat) (flags : BitVec 3) (offset : BitVec 16) : Datagram :=
  (List.replicate size 7,
    { sampleDatagram.2 with
      payloadSize := BitVec.ofNat 16 size
      flags := flags
      fragmentOffset := offset })

/-- The end of the datagram from the wide path, the third fragment of the narrow one, which starts
at the same byte and is not the last, and then the beginning: every byte is there, and completion is
not reported. -/
theorem reassembly_misses_completion : ∃ origin ds, Whole origin ∧ (∀ d ∈ ds, Travels origin d) ∧
    ¬ Reassembles origin (fun _ => none) [] ds := by
  let b := samplePart 49 0 96
  let c := samplePart 48 2 96
  let a := samplePart 96 2 0
  have hb : b ∈ sampleFragments 116 := by decide +kernel
  have hc : c ∈ sampleFragments 68 := by decide +kernel
  have ha : a ∈ sampleFragments 116 := by decide +kernel
  have hds : ∀ d ∈ [b, c, a], Travels sampleDatagram d := by
    simp only [List.forall_mem_cons, List.not_mem_nil, false_imp_iff, implies_true, and_true]
    exact ⟨travels_sampleFragments (by decide) hb, travels_sampleFragments (by decide) hc,
      travels_sampleFragments (by decide) ha⟩
  refine ⟨sampleDatagram, [b, c, a], whole_sampleDatagram, hds, ?_⟩
  have hconcerns : Concerns sampleDatagram b ∧ Concerns sampleDatagram c ∧
      Concerns sampleDatagram a := by decide +kernel
  have hfirst : receive 145 [] b = [b] := by decide +kernel
  have hsecond : receive 145 [b] c = [b, c] := by decide +kernel
  have hall : Received [b, c, a] 145 := by decide +kernel
  have hflag : (collect [b, c, a]).moreFragment = true := by decide +kernel
  have hlen : sampleDatagram.1.length = 145 := List.length_replicate
  intro h
  have hstart : Holds (fun _ => none) sampleDatagram.2.fragmentKey [] := rfl
  have hends :=
    (reassembles_from whole_sampleDatagram (fun d hd _ => hds d hd) hstart (by simp)).mp h
  simp only [EndsLastWhenReceived, hconcerns, if_true, hlen, List.nil_append, hfirst,
    hsecond, List.cons_append] at hends
  have hfalse := (moreFragment_collect (List.cons_ne_nil b [c, a])).mpr (hends.2.2.1 hall)
  exact Bool.false_ne_true (hfalse.symm.trans hflag)

end CudaNs3.Internet
