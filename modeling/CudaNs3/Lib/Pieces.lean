import Mathlib.Data.List.Infix

/-!
# Pieces of a sequence

A piece is a run of elements and the place where it starts. Lists of pieces in ascending order of
their starts: whether they follow each other without a hole, and what they are joined to when
each gives only what goes beyond the ones before it; and the pieces that a sequence is cut into.
-/

namespace Pieces

set_option autoImplicit false

universe u

structure Piece (α : Type u) where
  start : Nat
  data : List α

variable {α : Type u}

def Piece.stop (p : Piece α) : Nat := p.start + p.data.length

/-- `p` is cut out of `whole`. -/
structure Piece.Of (whole : List α) (p : Piece α) : Prop where
  stop_le : p.stop ≤ whole.length
  isPrefix : p.data <+: whole.drop p.start

def Covers (l : List (Piece α)) (x : Nat) : Prop := ∃ p ∈ l, p.start ≤ x ∧ x < p.stop

/-- Where the furthest of the pieces ends, `n` at least. -/
def reach : Nat → List (Piece α) → Nat
  | n, [] => n
  | n, p :: l => reach (max n p.stop) l

/-- No piece starts beyond what those before it reach. -/
def Gapless : Nat → List (Piece α) → Prop
  | _, [] => True
  | n, p :: l => p.start ≤ n ∧ Gapless (max n p.stop) l

/-- What each piece has beyond the elements that are there. -/
def join : List α → List (Piece α) → List α
  | acc, [] => acc
  | acc, p :: l => join (acc ++ p.data.drop (acc.length - p.start)) l

variable {whole : List α} {l l' : List (Piece α)} {p : Piece α} {n x : Nat}

@[simp] theorem covers_nil : ¬ Covers ([] : List (Piece α)) x := by simp [Covers]

@[simp] theorem covers_cons : Covers (p :: l) x ↔ (p.start ≤ x ∧ x < p.stop) ∨ Covers l x := by
  simp [Covers]

theorem covers_congr (h : ∀ p, p ∈ l ↔ p ∈ l') : Covers l x ↔ Covers l' x := by
  simp only [Covers, h]

theorem le_reach : n ≤ reach n l := by
  induction l generalizing n with
  | nil => exact Nat.le_refl n
  | cons p rest ih => exact Nat.le_trans (Nat.le_max_left n p.stop) ih

theorem stop_le_reach (hp : p ∈ l) : p.stop ≤ reach n l := by
  induction l generalizing n with
  | nil => cases hp
  | cons q rest ih =>
    rcases List.mem_cons.mp hp with rfl | hp
    · exact Nat.le_trans (Nat.le_max_right n p.stop) le_reach
    · exact ih hp

theorem reach_le {hi : Nat} (hn : n ≤ hi) (h : ∀ p ∈ l, p.stop ≤ hi) : reach n l ≤ hi := by
  induction l generalizing n with
  | nil => exact hn
  | cons p rest ih =>
    obtain ⟨hp, hrest⟩ := List.forall_mem_cons.mp h
    exact ih (Nat.max_le.mpr ⟨hn, hp⟩) hrest

/-- In ascending order a hole is never filled later. -/
theorem gapless_iff (h : l.Pairwise fun p q => p.start ≤ q.start) :
    Gapless n l ↔ ∀ x, n ≤ x → x < reach n l → Covers l x := by
  induction l generalizing n with
  | nil =>
    apply iff_of_true trivial
    intro x hx hlt
    exact absurd hlt (Nat.not_lt.mpr hx)
  | cons p rest ih =>
    obtain ⟨hp, hrest⟩ := List.pairwise_cons.mp h
    constructor
    · rintro ⟨hstart, hgap⟩ x hx hlt
      apply covers_cons.mpr
      by_cases hin : x < p.stop
      · exact .inl ⟨by omega, hin⟩
      · exact .inr ((ih hrest).mp hgap x (by omega) hlt)
    · intro hcov
      have hstart : p.start ≤ n := by
        by_contra hgt
        have hstop : p.stop ≤ reach n (p :: rest) := stop_le_reach List.mem_cons_self
        have hlt : n < reach n (p :: rest) := by
          unfold Piece.stop at hstop
          omega
        rcases covers_cons.mp (hcov n (Nat.le_refl n) hlt) with hin | ⟨q, hq, hle, -⟩
        · omega
        · have := hp q hq
          omega
      refine ⟨hstart, (ih hrest).mpr ?_⟩
      intro x hx hlt
      rcases covers_cons.mp (hcov x (by omega) hlt) with hin | hin
      · omega
      · exact hin

/-- The part of a piece beyond `n` continues the first `n` elements. -/
theorem Piece.Of.take_append_drop (h : p.Of whole) (hstart : p.start ≤ n) :
    whole.take n ++ p.data.drop (n - p.start) = whole.take (max n p.stop) := by
  obtain ⟨hstop, b, hb⟩ := h
  have hlen : p.data.length = p.stop - p.start := by
    unfold Piece.stop
    omega
  have hsplit : whole.drop n = p.data.drop (n - p.start) ++ b.drop (n - p.start - p.data.length) := by
    have hdrop : whole.drop n = (whole.drop p.start).drop (n - p.start) := by
      rw [List.drop_drop, Nat.add_sub_cancel' hstart]
    rw [hdrop, ← hb, List.drop_append]
  have htake : (whole.drop n).take (max n p.stop - n) = p.data.drop (n - p.start) := by
    by_cases hle : p.stop ≤ n
    · have hmax : max n p.stop - n = 0 := by omega
      have hnil : p.data.drop (n - p.start) = [] := by
        apply List.drop_eq_nil_of_le
        omega
      rw [hmax, hnil, List.take_zero]
    · have hlen' : max n p.stop - n = (p.data.drop (n - p.start)).length := by
        rw [List.length_drop]
        omega
      rw [hsplit, hlen', List.take_left]
  have hmax : max n p.stop = n + (max n p.stop - n) := by omega
  rw [hmax, List.take_add, htake]

/-- Gapless pieces of one sequence give back its beginning. -/
theorem join_take (h : ∀ p ∈ l, p.Of whole) (hgap : Gapless n l) (hn : n ≤ whole.length) :
    join (whole.take n) l = whole.take (reach n l) := by
  induction l generalizing n with
  | nil => rfl
  | cons p rest ih =>
    obtain ⟨hp, hrest⟩ := List.forall_mem_cons.mp h
    obtain ⟨hstart, hgap⟩ := hgap
    have hlen : (whole.take n).length = n := List.length_take_of_le hn
    have hmax : max n p.stop ≤ whole.length := Nat.max_le.mpr ⟨hn, hp.stop_le⟩
    rw [join, hlen, hp.take_append_drop hstart]
    exact ih hrest hgap hmax

/-! ## Cuts -/

section Cuts
variable {held : List (Piece α)} {q : Piece α}

/-- The pieces follow each other from `n` to the end, and only the last one ends there. -/
inductive Cut (whole : List α) : Nat → List (Piece α) → Prop
  | last {n : Nat} {p : Piece α} (hp : p.Of whole) (hn : p.start = n)
      (hstop : p.stop = whole.length) : Cut whole n [p]
  | cons {n : Nat} {p : Piece α} {l : List (Piece α)} (hp : p.Of whole) (hn : p.start = n)
      (hpos : n < p.stop) (hstop : p.stop < whole.length) (hl : Cut whole p.stop l) :
      Cut whole n (p :: l)

namespace Cut

theorem of (h : Cut whole n l) : ∀ p ∈ l, p.Of whole := by
  induction h with
  | last hp hn hstop =>
    intro q hq
    rw [List.mem_singleton.mp hq]
    exact hp
  | cons hp hn hpos hstop hl ih =>
    intro q hq
    rcases List.mem_cons.mp hq with hq | hq
    · rw [hq]
      exact hp
    · exact ih q hq

theorem le_start (h : Cut whole n l) : ∀ p ∈ l, n ≤ p.start := by
  induction h with
  | last hp hn hstop =>
    intro q hq
    rw [List.mem_singleton.mp hq, hn]
  | cons hp hn hpos hstop hl ih =>
    intro q hq
    rcases List.mem_cons.mp hq with hq | hq
    · rw [hq, hn]
    · exact Nat.le_trans (Nat.le_of_lt hpos) (ih q hq)

theorem ascending (h : Cut whole n l) : l.Pairwise fun p q => p.start < q.start := by
  induction h with
  | last hp hn hstop => exact List.pairwise_singleton _ _
  | cons hp hn hpos hstop hl ih =>
    refine List.pairwise_cons.mpr ⟨?_, ih⟩
    intro q hq
    have hle := hl.le_start q hq
    omega

/-- A piece that starts later starts where the other one has ended, which is not the last. -/
theorem stop_le (h : Cut whole n l) : p ∈ l → q ∈ l → p.start < q.start →
    p.stop ≤ q.start ∧ p.stop < whole.length := by
  induction h with
  | last hp hn hstop =>
    intro hpl hql hlt
    rw [List.mem_singleton.mp hpl, List.mem_singleton.mp hql] at hlt
    exact absurd hlt (Nat.lt_irrefl _)
  | cons hr hn hpos hstop hl ih =>
    intro hpl hql hlt
    rcases List.mem_cons.mp hpl with hpr | hpl
    · rcases List.mem_cons.mp hql with hqr | hql
      · rw [hpr, hqr] at hlt
        exact absurd hlt (Nat.lt_irrefl _)
      · rw [hpr]
        exact ⟨hl.le_start q hql, hstop⟩
    · rcases List.mem_cons.mp hql with hqr | hql
      · have hle := hl.le_start p hpl
        rw [hqr, hn] at hlt
        omega
      · exact ih hpl hql hlt

/-- Pieces are told apart by where they start. -/
theorem eq_of_start (h : Cut whole n l) : p ∈ l → q ∈ l → p.start = q.start → p = q := by
  induction h with
  | last hp hn hstop =>
    intro hpl hql _
    rw [List.mem_singleton.mp hpl, List.mem_singleton.mp hql]
  | cons hr hn hpos hstop hl ih =>
    intro hpl hql heq
    rcases List.mem_cons.mp hpl with hpr | hpl
    · rcases List.mem_cons.mp hql with hqr | hql
      · rw [hpr, hqr]
      · have hle := hl.le_start q hql
        rw [← heq, hpr, hn] at hle
        omega
    · rcases List.mem_cons.mp hql with hqr | hql
      · have hle := hl.le_start p hpl
        rw [heq, hqr, hn] at hle
        omega
      · exact ih hpl hql heq

theorem exists_last (h : Cut whole n l) : ∃ p ∈ l, p.stop = whole.length := by
  induction h with
  | last hp hn hstop => exact ⟨_, List.mem_singleton.mpr rfl, hstop⟩
  | cons hp hn hpos hstop hl ih =>
    obtain ⟨q, hq, hlast⟩ := ih
    exact ⟨q, List.mem_cons_of_mem _ hq, hlast⟩

/-- Only the first piece may start at the end, when there is nothing to cut. -/
theorem start_lt (h : Cut whole n l) : ∀ p ∈ l, p.start < whole.length ∨ p.start = n := by
  induction h with
  | last hp hn hstop =>
    intro q hq
    rw [List.mem_singleton.mp hq]
    exact .inr hn
  | cons hp hn hpos hstop hl ih =>
    intro q hq
    rcases List.mem_cons.mp hq with hq | hq
    · rw [hq]
      exact .inr hn
    · rcases ih q hq with hlt | heq
      · exact .inl hlt
      · exact .inl (heq ▸ hstop)

theorem covers (h : Cut whole n l) : n ≤ x → x < whole.length → Covers l x := by
  induction h with
  | last hp hn hstop =>
    intro hle hx
    exact ⟨_, List.mem_singleton.mpr rfl, hn ▸ hle, hstop ▸ hx⟩
  | @cons n p l hp hn hpos hstop hl ih =>
    intro hle hx
    rw [covers_cons]
    by_cases hlt : x < p.stop
    · exact .inl ⟨hn ▸ hle, hlt⟩
    · exact .inr (ih (Nat.not_lt.mp hlt) hx)

/-- Some of the pieces are everything when none is missing. -/
theorem covers_iff (h : Cut whole 0 l) (hsub : ∀ p ∈ held, p ∈ l) (hne : held ≠ []) :
    (∀ x, x < whole.length → Covers held x) ↔ ∀ p ∈ l, p ∈ held := by
  constructor
  · intro hall p hp
    by_cases hlt : p.start < whole.length
    · obtain ⟨q, hq, hle, hstop⟩ := hall p.start hlt
      rcases Nat.lt_or_eq_of_le hle with hbefore | heq
      · have hend := (h.stop_le (hsub q hq) hp hbefore).1
        omega
      · rw [← h.eq_of_start (hsub q hq) hp heq]
        exact hq
    · -- there is nothing to cut, and one piece
      have hfirst := (h.start_lt p hp).resolve_left hlt
      obtain ⟨q, hq⟩ := List.exists_mem_of_ne_nil held hne
      have hother : q.start = 0 := by
        rcases h.start_lt q (hsub q hq) with hpos | heq
        · omega
        · exact heq
      rw [h.eq_of_start hp (hsub q hq) (hfirst.trans hother.symm)]
      exact hq
  · intro hall x hx
    obtain ⟨p, hp, hcover⟩ := h.covers (Nat.zero_le x) hx
    exact ⟨p, hall p hp, hcover⟩

/-- The pieces put together again. -/
theorem flatMap_data (h : Cut whole n l) : l.flatMap Piece.data = whole.drop n := by
  induction h with
  | @last n p hp hn hstop =>
    rw [List.flatMap_singleton, ← hn]
    apply hp.isPrefix.eq_of_length
    rw [List.length_drop]
    unfold Piece.stop at hstop
    omega
  | @cons n p l hp hn hpos hstop hl ih =>
    obtain ⟨rest, hrest⟩ := hp.isPrefix
    have htail : whole.drop p.stop = rest := by
      rw [Piece.stop, ← List.drop_drop, ← hrest, List.drop_left]
    rw [List.flatMap_cons, ih, htail, hrest, hn]

end Cut
end Cuts

/-! ### The longest prefix -/

section Prefixes

variable {q : List α}

/-- Each element of `q` is that of a piece at its place, and no piece has the one after them. -/
structure LongestPrefix (l : List (Piece α)) (q : List α) : Prop where
  element : ∀ x < q.length, ∃ p ∈ l, p.start ≤ x ∧ x < p.stop ∧ p.data[x - p.start]? = q[x]?
  stops : ¬Covers l q.length

theorem LongestPrefix.nil : LongestPrefix ([] : List (Piece α)) [] where
  element _ hx := absurd hx (Nat.not_lt_zero _)
  stops := covers_nil

theorem LongestPrefix.congr (h : LongestPrefix l q) (hmem : ∀ p, p ∈ l ↔ p ∈ l') :
    LongestPrefix l' q where
  element x hx := by
    obtain ⟨p, hp, hcover⟩ := h.element x hx
    exact ⟨p, (hmem p).mp hp, hcover⟩
  stops hcover := h.stops ((covers_congr hmem).mpr hcover)

/-- A piece that starts behind the prefix leaves it as it is. -/
theorem LongestPrefix.skip (h : LongestPrefix l q) (hp : q.length < p.start) :
    LongestPrefix (l ++ [p]) q where
  element x hx := by
    obtain ⟨p', hp', hcover⟩ := h.element x hx
    exact ⟨p', List.mem_append_left _ hp', hcover⟩
  stops hcover := by
    obtain ⟨p', hp', hstart, hstop⟩ := hcover
    rcases List.mem_append.mp hp' with hp' | hp'
    · exact h.stops ⟨p', hp', hstart, hstop⟩
    · rw [List.mem_singleton.mp hp'] at hstart
      omega

/-- Another one gives what it has beyond the prefix. -/
theorem LongestPrefix.extend (h : LongestPrefix l q) (hl : ∀ a ∈ l, a.start ≤ p.start)
    (hp : p.start ≤ q.length) :
    LongestPrefix (l ++ [p]) (q ++ p.data.drop (q.length - p.start)) where
  element x hx := by
    by_cases hold : x < q.length
    · obtain ⟨p', hp', hstart, hstop, hdata⟩ := h.element x hold
      rw [List.getElem?_append_left hold]
      exact ⟨p', List.mem_append_left _ hp', hstart, hstop, hdata⟩
    · rw [List.length_append, List.length_drop] at hx
      refine ⟨p, List.mem_append_right _ (List.mem_singleton_self p), by omega, ?_, ?_⟩
      · unfold Piece.stop
        omega
      · rw [List.getElem?_append_right (by omega), List.getElem?_drop]
        congr 1
        omega
  stops hcover := by
    obtain ⟨p', hp', hstart, hstop⟩ := hcover
    rw [List.length_append, List.length_drop] at hstart hstop
    rcases List.mem_append.mp hp' with hp' | hp'
    · -- a piece from before that went so far would have covered the old end
      have hle := hl p' hp'
      exact h.stops ⟨p', hp', by omega, by omega⟩
    · rw [List.mem_singleton.mp hp'] at hstop
      unfold Piece.stop at hstop
      omega

end Prefixes
end Pieces
