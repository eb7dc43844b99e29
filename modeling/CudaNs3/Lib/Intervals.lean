import Mathlib.Algebra.GroupWithZero.Nat
import Mathlib.Order.Basic

/-!
# Lists of half-open intervals

Ascending lists of non-empty intervals `[p.1, p.2)` of natural numbers, by the numbers they
cover: putting an interval into a gap, how far the numbers from a given one on are covered
without a hole, and how many numbers that are.
-/

namespace Intervals

set_option autoImplicit false

/-- `x` is in one of the intervals. -/
def Covers (l : List (Nat × Nat)) (x : Nat) : Prop := ∃ p ∈ l, p.1 ≤ x ∧ x < p.2

/-- Non-empty intervals that follow each other, the first one not before `lo`. -/
def Ascending : Nat → List (Nat × Nat) → Prop
  | _, [] => True
  | lo, p :: rest => lo ≤ p.1 ∧ p.1 < p.2 ∧ Ascending p.2 rest

/-- The interval is put in front of the first one that starts after it. -/
def put (p : Nat × Nat) : List (Nat × Nat) → List (Nat × Nat)
  | [] => [p]
  | q :: rest => if p.1 < q.1 then p :: q :: rest else q :: put p rest

def total (l : List (Nat × Nat)) : Nat := (l.map fun p => p.2 - p.1).sum

/-- The end of what is covered from `n` on without a hole. -/
def reach : Nat → List (Nat × Nat) → Nat
  | n, [] => n
  | n, p :: rest => if p.1 < n then reach n rest else if n < p.1 then n else reach p.2 rest

variable {lo hi n x : Nat} {p : Nat × Nat} {l : List (Nat × Nat)}

@[simp] theorem covers_nil : ¬ Covers [] x := by simp [Covers]

@[simp] theorem covers_cons : Covers (p :: l) x ↔ (p.1 ≤ x ∧ x < p.2) ∨ Covers l x := by
  simp [Covers]

@[simp] theorem total_nil : total [] = 0 := rfl

@[simp] theorem total_cons : total (p :: l) = p.2 - p.1 + total l := rfl

namespace Ascending

theorem mono {lo' : Nat} (h : Ascending lo l) (hle : lo' ≤ lo) : Ascending lo' l := by
  cases l with
  | nil => trivial
  | cons p rest => exact ⟨Nat.le_trans hle h.1, h.2⟩

theorem of_mem (h : Ascending lo l) (hp : p ∈ l) : lo ≤ p.1 ∧ p.1 < p.2 := by
  induction l generalizing lo with
  | nil => cases hp
  | cons q rest ih =>
    obtain ⟨hlo, hq, hrest⟩ := h
    rcases List.mem_cons.mp hp with rfl | hp
    · exact ⟨hlo, hq⟩
    · have := ih hrest hp
      omega

theorem le_of_covers (h : Ascending lo l) (hx : Covers l x) : lo ≤ x := by
  obtain ⟨p, hp, hle, -⟩ := hx
  exact Nat.le_trans (h.of_mem hp).1 hle

/-- A number is in one interval only. -/
theorem eq_of_covers {q : Nat × Nat} (h : Ascending lo l) (hp : p ∈ l) (hq : q ∈ l)
    (hxp : p.1 ≤ x ∧ x < p.2) (hxq : q.1 ≤ x ∧ x < q.2) : p = q := by
  induction l generalizing lo with
  | nil => cases hp
  | cons r rest ih =>
    obtain ⟨-, -, hrest⟩ := h
    rcases List.mem_cons.mp hp with hpr | hpr <;> rcases List.mem_cons.mp hq with hqr | hqr
    · exact hpr.trans hqr.symm
    · have := (hrest.of_mem hqr).1
      rw [hpr] at hxp
      omega
    · have := (hrest.of_mem hpr).1
      rw [hqr] at hxq
      omega
    · exact ih hrest hpr hqr

theorem sublist {l' : List (Nat × Nat)} (h : Ascending lo l) (hsub : l'.Sublist l) :
    Ascending lo l' := by
  induction hsub generalizing lo with
  | slnil => trivial
  | cons p _ ih =>
    apply ih
    exact h.2.2.mono (by have := h.1; have := h.2.1; omega)
  | cons_cons p _ ih => exact ⟨h.1, h.2.1, ih h.2.2⟩

theorem pairwise (h : Ascending lo l) : l.Pairwise fun p q => p.2 ≤ q.1 := by
  induction l generalizing lo with
  | nil => exact .nil
  | cons p rest ih =>
    apply List.pairwise_cons.mpr
    exact ⟨fun q hq => (h.2.2.of_mem hq).1, ih h.2.2⟩

/-- An interval that none of the others meets fits into the list. -/
theorem put (h : Ascending lo l) (hlo : lo ≤ p.1) (hp : p.1 < p.2)
    (hfree : ∀ q ∈ l, q.2 ≤ p.1 ∨ p.2 ≤ q.1) : Ascending lo (put p l) := by
  induction l generalizing lo with
  | nil => exact ⟨hlo, hp, trivial⟩
  | cons q rest ih =>
    obtain ⟨hq, hrest⟩ := List.forall_mem_cons.mp hfree
    obtain ⟨hloq, hne, hasc⟩ := h
    unfold Intervals.put
    split
    · exact ⟨hlo, hp, by omega, hne, hasc⟩
    · exact ⟨hloq, hne, ih hasc (by omega) hrest⟩

theorem total_le (h : Ascending lo l) (hhi : ∀ p ∈ l, p.2 ≤ hi) (hle : lo ≤ hi) :
    total l ≤ hi - lo := by
  induction l generalizing lo with
  | nil => exact Nat.zero_le _
  | cons p rest ih =>
    obtain ⟨hp, hrest⟩ := List.forall_mem_cons.mp hhi
    obtain ⟨hlo, hne, hasc⟩ := h
    have := ih hasc hrest hp
    rw [total_cons]
    omega

/-- A number that is not covered does not count. -/
theorem total_lt (h : Ascending lo l) (hhi : ∀ p ∈ l, p.2 ≤ hi) (hle : lo ≤ n) (hlt : n < hi)
    (hmiss : ¬ Covers l n) : total l < hi - lo := by
  induction l generalizing lo with
  | nil => exact Nat.sub_pos_of_lt (Nat.lt_of_le_of_lt hle hlt)
  | cons p rest ih =>
    obtain ⟨hp, hrest⟩ := List.forall_mem_cons.mp hhi
    obtain ⟨hlo, hne, hasc⟩ := h
    rw [covers_cons, not_or] at hmiss
    rw [total_cons]
    by_cases hbefore : n < p.1
    · have := hasc.total_le hrest hp
      omega
    · have := ih hasc hrest (by omega) hmiss.2
      omega

/-- What covers `lo` comes first. -/
theorem head_of_covers (h : Ascending lo l) (hx : Covers l lo) :
    ∃ y rest, l = (lo, y) :: rest ∧ lo < y ∧ Ascending y rest := by
  cases l with
  | nil => exact absurd hx covers_nil
  | cons p rest =>
    obtain ⟨hlo, hne, hasc⟩ := h
    have heq : p.1 = lo := by
      rcases covers_cons.mp hx with hx | hx
      · omega
      · have := hasc.le_of_covers hx
        omega
    exact ⟨p.2, rest, by rw [← heq], by omega, hasc⟩

/-- The intervals below the first number that is not covered have no hole. -/
theorem total_below (h : Ascending lo l) (hle : lo ≤ n)
    (hcov : ∀ x, lo ≤ x → x < n → Covers l x) (hmiss : ¬ Covers l n) :
    total (l.filter fun p => p.1 < n) = n - lo := by
  induction l generalizing lo with
  | nil =>
    have heq : lo = n := by
      by_contra hne
      exact covers_nil (hcov lo (Nat.le_refl lo) (by omega))
    simp [heq]
  | cons p rest ih =>
    rcases Nat.eq_or_lt_of_le hle with rfl | hlt
    · have hnone : ∀ q ∈ p :: rest, ¬ (decide (q.1 < lo) = true) := by
        intro q hq
        have := (h.of_mem hq).1
        simpa using this
      rw [List.filter_eq_nil_iff.mpr hnone]
      simp
    · obtain ⟨y, rest', heq, hlt', hasc⟩ := h.head_of_covers (hcov lo (Nat.le_refl lo) hlt)
      obtain ⟨rfl, rfl⟩ := List.cons.inj heq
      have hy : y ≤ n := by
        by_contra hgt
        exact hmiss (covers_cons.mpr (.inl ⟨by omega, by omega⟩))
      have hrest : ∀ x, y ≤ x → x < n → Covers rest x := by
        intro x hx hxn
        rcases covers_cons.mp (hcov x (by omega) hxn) with hin | hin
        · exact absurd hin.2 (by omega)
        · exact hin
      have htail := ih hasc hy hrest fun hx => hmiss (covers_cons.mpr (.inr hx))
      rw [List.filter_cons_of_pos (by simpa using hlt), total_cons, htail]
      simp only
      omega

end Ascending

theorem covers_put : Covers (put p l) x ↔ (p.1 ≤ x ∧ x < p.2) ∨ Covers l x := by
  induction l with
  | nil => simp [put]
  | cons q rest ih =>
    unfold put
    split
    · simp
    · simp only [covers_cons, ih]
      exact or_left_comm

theorem total_put : total (put p l) = p.2 - p.1 + total l := by
  induction l with
  | nil => rfl
  | cons q rest ih =>
    unfold put
    split
    · rfl
    · rw [total_cons, ih, total_cons]
      omega

theorem mem_put {q : Nat × Nat} : q ∈ put p l ↔ q = p ∨ q ∈ l := by
  induction l with
  | nil => simp [put]
  | cons a rest ih =>
    unfold put
    split
    · simp
    · simp only [List.mem_cons, ih]
      exact or_left_comm

theorem Ascending.le_reach (h : Ascending lo l) : n ≤ reach n l := by
  induction l generalizing lo n with
  | nil => exact Nat.le_refl n
  | cons p rest ih =>
    obtain ⟨hlo, hne, hasc⟩ := h
    unfold reach
    split
    · exact ih hasc
    split
    · exact Nat.le_refl n
    · have hend : p.2 ≤ reach p.2 rest := ih hasc
      omega

theorem reach_le (hhi : ∀ p ∈ l, p.2 ≤ hi) (hn : n ≤ hi) : reach n l ≤ hi := by
  induction l generalizing n with
  | nil => exact hn
  | cons p rest ih =>
    obtain ⟨hp, hrest⟩ := List.forall_mem_cons.mp hhi
    unfold reach
    split
    · exact ih hrest hn
    split
    · exact hn
    · exact ih hrest hp

/-- Nothing that starts before `n` goes beyond it: then all up to `reach n l` is covered, and
what comes next is not. -/
theorem reach_spec (h : Ascending lo l) (hbelow : ∀ p ∈ l, p.1 < n → p.2 ≤ n) :
    (∀ x, n ≤ x → x < reach n l → Covers l x) ∧ ¬ Covers l (reach n l) := by
  induction l generalizing lo n with
  | nil => exact ⟨fun x hx hlt => absurd hlt (Nat.not_lt.mpr hx), covers_nil⟩
  | cons p rest ih =>
    obtain ⟨hp, hrest⟩ := List.forall_mem_cons.mp hbelow
    obtain ⟨hlo, hne, hasc⟩ := h
    unfold reach
    split
    · rename_i hlt
      obtain ⟨hcov, hmiss⟩ := ih hasc hrest
      have hend := hp hlt
      have hle := hasc.le_reach (n := n)
      refine ⟨fun x hx hxr => covers_cons.mpr (.inr (hcov x hx hxr)), ?_⟩
      intro hx
      rcases covers_cons.mp hx with hx | hx
      · omega
      · exact hmiss hx
    split
    · rename_i hgt
      refine ⟨fun x hx hxn => absurd hxn (by omega), ?_⟩
      intro hx
      rcases covers_cons.mp hx with hx | hx
      · omega
      · have := hasc.le_of_covers hx
        omega
    · have heq : p.1 = n := by omega
      have hnone : ∀ q ∈ rest, q.1 < p.2 → q.2 ≤ p.2 := by
        intro q hq hlt
        have := (hasc.of_mem hq).1
        omega
      obtain ⟨hcov, hmiss⟩ := ih hasc hnone
      have hle := hasc.le_reach (n := p.2)
      refine ⟨?_, ?_⟩
      · intro x hx hxr
        by_cases hin : x < p.2
        · exact covers_cons.mpr (.inl ⟨by omega, hin⟩)
        · exact covers_cons.mpr (.inr (hcov x (by omega) hxr))
      · intro hx
        rcases covers_cons.mp hx with hx | hx
        · omega
        · exact hmiss hx

/-! ### Joining intervals that touch -/

/-- At least one number lies between the two. -/
def Apart (p q : Nat × Nat) : Prop := p.2 < q.1 ∨ q.2 < p.1

/-- The first interval that begins where `b` ends, or ends where it begins, is joined with `b`. -/
def join (b : Nat × Nat) : List (Nat × Nat) → Option ((Nat × Nat) × List (Nat × Nat))
  | [] => none
  | c :: rest =>
    if b.1 = c.2 then some ((c.1, b.2), rest)
    else if b.2 = c.1 then some ((b.1, c.2), rest)
    else (join b rest).map fun r => (r.1, c :: r.2)

/-- `b` comes first, joined with what touches it. -/
def absorb : Nat → Nat × Nat → List (Nat × Nat) → List (Nat × Nat)
  | 0, b, l => b :: l
  | fuel + 1, b, l =>
    match join b l with
    | none => b :: l
    | some (m, l) => absorb fuel m l

section Absorb
variable {b m : Nat × Nat} {l' : List (Nat × Nat)} {fuel : Nat} {P : Nat × Nat → Prop}

theorem join_none (h : join b l = none) : ∀ c ∈ l, b.1 ≠ c.2 ∧ b.2 ≠ c.1 := by
  induction l with
  | nil => exact fun c hc => absurd hc List.not_mem_nil
  | cons c rest ih =>
    unfold join at h
    split at h
    · cases h
    split at h
    · cases h
    · rename_i hleft hright
      exact List.forall_mem_cons.mpr ⟨⟨hleft, hright⟩, ih (Option.map_eq_none_iff.mp h)⟩

/-- The interval `c` that `b` is joined with. -/
structure Joined (b c m : Nat × Nat) (l l' : List (Nat × Nat)) : Prop where
  perm : l.Perm (c :: l')
  touch : (b.1 = c.2 ∧ m = (c.1, b.2)) ∨ (b.2 = c.1 ∧ m = (b.1, c.2))

theorem join_some (h : join b l = some (m, l')) : ∃ c, Joined b c m l l' := by
  induction l generalizing l' with
  | nil => cases h
  | cons c rest ih =>
    unfold join at h
    split at h
    · rename_i hleft
      obtain ⟨rfl, rfl⟩ := Prod.mk.inj (Option.some.inj h)
      exact ⟨c, .refl _, .inl ⟨hleft, rfl⟩⟩
    split at h
    · rename_i hright
      obtain ⟨rfl, rfl⟩ := Prod.mk.inj (Option.some.inj h)
      exact ⟨c, .refl _, .inr ⟨hright, rfl⟩⟩
    · obtain ⟨⟨m', rest'⟩, hjoin, heq⟩ := Option.map_eq_some_iff.mp h
      obtain ⟨rfl, rfl⟩ := Prod.mk.inj heq
      obtain ⟨d, hd⟩ := ih hjoin
      exact ⟨d, (hd.perm.cons c).trans (.swap d c rest'), hd.touch⟩

theorem Joined.forall {c : Nat × Nat} (h : Joined b c m l l') (hl : ∀ p ∈ l, P p) :
    P c ∧ ∀ p ∈ l', P p :=
  List.forall_mem_cons.mp fun p hp => hl p (h.perm.mem_iff.mpr hp)

theorem absorb_forall (hjoin : ∀ x y z, P (x, y) → P (y, z) → P (x, z)) (hb : P b)
    (hl : ∀ p ∈ l, P p) : ∀ p ∈ absorb fuel b l, P p := by
  induction fuel generalizing b l with
  | zero => exact List.forall_mem_cons.mpr ⟨hb, hl⟩
  | succ fuel ih =>
    unfold absorb
    split
    · exact List.forall_mem_cons.mpr ⟨hb, hl⟩
    · rename_i m l' heq
      obtain ⟨c, hc⟩ := join_some heq
      obtain ⟨hPc, hrest⟩ := hc.forall hl
      refine ih ?_ hrest
      rcases hc.touch with ⟨htouch, rfl⟩ | ⟨htouch, rfl⟩
      · exact hjoin c.1 c.2 b.2 hPc (htouch ▸ hb)
      · exact hjoin b.1 b.2 c.2 hb (htouch ▸ hPc)

theorem length_absorb : (absorb fuel b l).length ≤ l.length + 1 := by
  induction fuel generalizing b l with
  | zero => simp [absorb]
  | succ fuel ih =>
    unfold absorb
    split
    · simp
    · rename_i m l' heq
      obtain ⟨c, hc⟩ := join_some heq
      have hlen := hc.perm.length_eq
      have := ih (b := m) (l := l')
      rw [List.length_cons] at hlen
      omega

/-- The first interval contains `b`. -/
theorem absorb_head (hl : ∀ p ∈ l, p.1 < p.2) :
    ∃ m rest, absorb fuel b l = m :: rest ∧ m.1 ≤ b.1 ∧ b.2 ≤ m.2 := by
  induction fuel generalizing b l with
  | zero => exact ⟨b, l, rfl, Nat.le_refl _, Nat.le_refl _⟩
  | succ fuel ih =>
    unfold absorb
    split
    · exact ⟨b, l, rfl, Nat.le_refl _, Nat.le_refl _⟩
    · rename_i m l' heq
      obtain ⟨c, hc⟩ := join_some heq
      obtain ⟨hne, hrest⟩ := hc.forall hl
      obtain ⟨m', rest, hm', hlo, hhi⟩ := ih (b := m) hrest
      refine ⟨m', rest, hm', ?_⟩
      rcases hc.touch with ⟨htouch, rfl⟩ | ⟨htouch, rfl⟩
      · exact ⟨by omega, hhi⟩
      · exact ⟨hlo, by omega⟩

/-- What `b` does not meet, and what is apart, is apart when all that touches `b` is joined with
it. -/
theorem absorb_apart (hl : l.Pairwise Apart) (hne : ∀ p ∈ l, p.1 < p.2)
    (hfree : ∀ p ∈ l, b.2 ≤ p.1 ∨ p.2 ≤ b.1) (hfuel : l.length ≤ fuel) :
    (absorb fuel b l).Pairwise Apart := by
  induction fuel generalizing b l with
  | zero =>
    obtain rfl := List.length_eq_zero_iff.mp (Nat.le_zero.mp hfuel)
    exact List.pairwise_singleton _ _
  | succ fuel ih =>
    unfold absorb
    split
    · rename_i heq
      refine List.pairwise_cons.mpr ⟨fun p hp => ?_, hl⟩
      have htouch := join_none heq p hp
      rcases hfree p hp with hlt | hlt
      · exact .inl (by omega)
      · exact .inr (by omega)
    · rename_i m l' heq
      obtain ⟨c, hc⟩ := join_some heq
      obtain ⟨hnec, hnerest⟩ := hc.forall hne
      obtain ⟨hfreec, hfreerest⟩ := hc.forall hfree
      have hsymm : ∀ {p q : Nat × Nat}, Apart p q → Apart q p := Or.symm
      obtain ⟨hapart, hrest⟩ := List.pairwise_cons.mp (hl.perm hc.perm hsymm)
      have hlen := hc.perm.length_eq
      rw [List.length_cons] at hlen
      refine ih hrest hnerest (fun p hp => ?_) (by omega)
      have hb := hfreerest p hp
      have hp' := hnerest p hp
      have hcp := hapart p hp
      unfold Apart at hcp
      rcases hc.touch with ⟨htouch, rfl⟩ | ⟨htouch, rfl⟩
      · simp only
        omega
      · simp only
        omega

end Absorb

end Intervals
