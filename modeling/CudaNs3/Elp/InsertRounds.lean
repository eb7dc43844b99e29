import Mathlib.Algebra.BigOperators.Group.Finset.Basic
import Mathlib.Algebra.BigOperators.Fin
import Mathlib.Algebra.Order.BigOperators.Group.Finset
import CudaNs3.Elp.NextEvents
import CudaNs3.Lib.Schedules

/-!
# The passes of `d_insert` within one kernel

While a kernel runs the host waits for it and drains nothing. The threads insert their events
by passes of the loop of `d_insert`, in any fair order. Of the buffers only the number of free
slots of each thread matters; the calls all return exactly when no thread has more events than
free slots, and no two threads can force each other to and fro between the buffers.
-/

namespace CudaNs3.Elp

set_option autoImplicit false

/-- What each thread still inserts, and its free slots in the two buffers. -/
@[ext] structure Rounds (T : Nat) where
  need : Fin T → Nat
  free : Buf → Fin T → Nat
  cur : Buf

namespace Rounds
variable {T : Nat}

/-- One pass of a thread: it takes a slot, or it turns to the other buffer. -/
def step (c : Rounds T) (t : Fin T) : Rounds T :=
  if c.need t = 0 then c
  else if c.free c.cur t = 0 then { c with cur := c.cur.other }
  else
    { c with
      need := Function.update c.need t (c.need t - 1)
      free := Function.update c.free c.cur
        (Function.update (c.free c.cur) t (c.free c.cur t - 1)) }

/-- In every fair order all the calls return. -/
def Returns (c : Rounds T) : Prop :=
  ∀ order, Schedules.Fair order → ∃ k, ∀ t, (Schedules.run step c order k).need t = 0

/-- No thread inserts more than it has free slots, and no two threads overrun different
buffers. -/
structure Enough (c : Rounds T) : Prop where
  slots : ∀ t, c.need t ≤ c.free .q1 t + c.free .q2 t
  apart : ∀ t u, t ≠ u → c.need t ≤ c.free .q1 t ∨ c.need u ≤ c.free .q2 u

/-- No thread will find its slots in the current buffer full. -/
def Settled (c : Rounds T) : Prop := ∀ t, c.need t ≤ c.free c.cur t

variable {c : Rounds T} {t u : Fin T} {h : Buf}

theorem step_idle (ht : c.need t = 0) : c.step t = c := if_pos ht

theorem step_full (ht : c.need t ≠ 0) (hfull : c.free c.cur t = 0) :
    c.step t = { c with cur := c.cur.other } := by
  rw [step, if_neg ht, if_pos hfull]

theorem step_store (ht : c.need t ≠ 0) (hfree : c.free c.cur t ≠ 0) :
    c.step t = { c with
      need := Function.update c.need t (c.need t - 1)
      free := Function.update c.free c.cur
        (Function.update (c.free c.cur) t (c.free c.cur t - 1)) } := by
  rw [step, if_neg ht, if_neg hfree]

/-- A store takes as much from the need as from the slots. -/
theorem step_store_free (ht : c.need t ≠ 0) (hfree : c.free c.cur t ≠ 0) :
    (c.step t).free c.cur t + 1 = c.free c.cur t ∧
      (c.step t).free c.cur.other t = c.free c.cur.other t ∧ (c.step t).need t + 1 = c.need t ∧
      (c.step t).cur = c.cur := by
  rw [step_store ht hfree]
  refine ⟨?_, ?_, ?_, rfl⟩
  · simp only [Function.update_self]
    omega
  · simp
  · simp only [Function.update_self]
    omega

/-- The slots and the need of the other threads stay as they are. -/
theorem step_of_ne (hu : u ≠ t) (h : Buf) :
    (c.step t).need u = c.need u ∧ (c.step t).free h u = c.free h u := by
  by_cases ht : c.need t = 0
  · rw [step_idle ht]
    exact ⟨rfl, rfl⟩
  by_cases hfull : c.free c.cur t = 0
  · rw [step_full ht hfull]
    exact ⟨rfl, rfl⟩
  rw [step_store ht hfull]
  constructor
  · exact Function.update_of_ne hu _ _
  · by_cases hh : h = c.cur
    · subst hh
      simp [Function.update_of_ne hu]
    · simp [Function.update_of_ne hh]

/-- What a step takes from the need of a thread it takes from its slots, in one buffer. -/
theorem step_counts (t u : Fin T) (h : Buf) :
    ∃ k, (c.step t).need u + k = c.need u ∧
      ((c.step t).free h u + k = c.free h u ∧ (c.step t).free h.other u = c.free h.other u ∨
        (c.step t).free h u = c.free h u ∧ (c.step t).free h.other u + k = c.free h.other u) := by
  by_cases hu : u = t
  · subst hu
    by_cases ht : c.need u = 0
    · rw [step_idle ht]
      exact ⟨0, rfl, Or.inl ⟨rfl, rfl⟩⟩
    by_cases hfull : c.free c.cur u = 0
    · rw [step_full ht hfull]
      exact ⟨0, rfl, Or.inl ⟨rfl, rfl⟩⟩
    obtain ⟨hcur, hother, hneed, -⟩ := step_store_free ht hfull
    refine ⟨1, hneed, ?_⟩
    rcases h.eq_or_other c.cur with heq | heq
    · rw [← heq]
      exact Or.inl ⟨hcur, hother⟩
    · rw [heq, Buf.other_other] at hother
      rw [heq] at hcur
      exact Or.inr ⟨hother, hcur⟩
  · obtain ⟨hneed, hfree⟩ := step_of_ne (c := c) hu h
    exact ⟨0, hneed, Or.inl ⟨hfree, (step_of_ne hu h.other).2⟩⟩

theorem Enough.step (hc : c.Enough) (t : Fin T) : (c.step t).Enough := by
  constructor
  · intro u
    have hslots := hc.slots u
    obtain ⟨k, hneed, hfree⟩ := step_counts (c := c) t u .q1
    rw [show Buf.other .q1 = .q2 from rfl] at hfree
    omega
  · intro u v huv
    obtain ⟨k, hneed, hfree⟩ := step_counts (c := c) t u .q1
    obtain ⟨l, hneed', hfree'⟩ := step_counts (c := c) t v .q1
    rw [show Buf.other .q1 = .q2 from rfl] at hfree hfree'
    have hapart := hc.apart u v huv
    omega

theorem Settled.step (hc : c.Settled) (t : Fin T) : (c.step t).Settled := by
  by_cases ht : c.need t = 0
  · rwa [step_idle ht]
  have hfull : c.free c.cur t ≠ 0 := by
    have := hc t
    omega
  obtain ⟨hfree, -, hneed, hcur⟩ := step_store_free ht hfull
  intro u
  rw [hcur]
  have hu := hc u
  by_cases hut : u = t
  · subst hut
    omega
  · obtain ⟨hneed', hfree'⟩ := step_of_ne (c := c) hut c.cur
    omega

/-- A thread that turns the buffers because its slots are full is the last to do so. -/
theorem Enough.settled_step (hc : c.Enough) (ht : c.need t ≠ 0) (hfull : c.free c.cur t = 0) :
    (c.step t).Settled := by
  rw [step_full ht hfull]
  intro u
  change c.need u ≤ c.free c.cur.other u
  by_cases hut : u = t
  · subst hut
    have hslots := hc.slots u
    cases hcur : c.cur with
    | q1 => rw [hcur] at hfull; simp only [Buf.other]; omega
    | q2 => rw [hcur] at hfull; simp only [Buf.other]; omega
  · cases hcur : c.cur with
    | q1 =>
      rw [hcur] at hfull
      have hapart := hc.apart t u (Ne.symm hut)
      simp only [Buf.other]
      omega
    | q2 =>
      rw [hcur] at hfull
      have hapart := hc.apart u t hut
      simp only [Buf.other]
      omega

open Classical in
/-- The events left, and one more as long as the buffers may still be turned. -/
noncomputable def left (c : Rounds T) : Nat := (∑ t, c.need t) + if c.Settled then 0 else 1

theorem Enough.left_lt (hc : c.Enough) (ht : c.need t ≠ 0) : (c.step t).left < c.left := by
  unfold left
  by_cases hfull : c.free c.cur t = 0
  · have hbefore : ¬ c.Settled := by
      intro hset
      have := hset t
      omega
    have hsum : ∑ u, (c.step t).need u = ∑ u, c.need u := by rw [step_full ht hfull]
    rw [if_pos (hc.settled_step ht hfull), if_neg hbefore, hsum]
    omega
  · have hlt : ∑ u, (c.step t).need u < ∑ u, c.need u := by
      apply Finset.sum_lt_sum
      · intro u _
        obtain ⟨k, hneed, -⟩ := step_counts (c := c) t u .q1
        omega
      · refine ⟨t, Finset.mem_univ t, ?_⟩
        have hneed := (step_store_free ht hfull).2.2.1
        omega
    by_cases hset : c.Settled
    · rw [if_pos hset, if_pos (hset.step t)]
      omega
    · rw [if_neg hset]
      split
      · omega
      · omega

theorem Enough.returns (hc : c.Enough) : c.Returns := by
  intro order hfair
  have hidle : ∃ k, ∀ t, ¬ (Schedules.run Rounds.step c order k).need t ≠ 0 :=
    Schedules.eventually_idle (fun c t => c.need t ≠ 0) left
      (fun c t ht => step_idle (not_not.mp ht)) (fun c t hc ht => ⟨hc.step t, hc.left_lt ht⟩)
      hfair hc
  obtain ⟨k, hk⟩ := hidle
  exact ⟨k, fun t => not_not.mp (hk t)⟩

theorem Returns.step (hc : c.Returns) (t : Fin T) : (c.step t).Returns := by
  intro order hfair
  obtain ⟨order', hfair', hrun⟩ := Schedules.exists_order_cons Rounds.step c hfair t
  obtain ⟨k, hk⟩ := hc order' hfair'
  cases k with
  | zero =>
    have hidle : c.step t = c := step_idle (hk t)
    refine ⟨0, ?_⟩
    rw [hidle]
    exact hk
  | succ k =>
    rw [hrun] at hk
    exact ⟨k, hk⟩

/-- A thread with more events than slots never returns from one of its calls. -/
theorem Returns.slots (hc : c.Returns) (t : Fin T) : c.need t ≤ c.free .q1 t + c.free .q2 t := by
  by_contra hlt
  have hfair := Schedules.fair_mod (Nat.lt_of_le_of_lt (Nat.zero_le _) t.isLt)
  set order : Nat → Fin T := fun k => ⟨k % T, _⟩
  obtain ⟨k, hk⟩ := hc order hfair
  have hstays : ∀ c u, c.free .q1 t + c.free .q2 t < c.need t →
      (Rounds.step c u).free .q1 t + (Rounds.step c u).free .q2 t < (Rounds.step c u).need t := by
    intro c u hover
    obtain ⟨k, hneed, hfree⟩ := step_counts (c := c) u t .q1
    rw [show Buf.other .q1 = .q2 from rfl] at hfree
    omega
  have hend := Schedules.run_invariant hstays (Nat.not_le.mp hlt) order k
  rw [hk t] at hend
  exact Nat.not_lt_zero _ hend

/-- Two threads with events left, the slots of one full in a buffer and those of the other in
the other buffer. -/
structure Locked (c : Rounds T) (x y : Fin T) (h : Buf) : Prop where
  ne : x ≠ y
  needs : c.need x ≠ 0 ∧ c.need y ≠ 0
  full : c.free h x = 0 ∧ c.free h.other y = 0

/-- The one of the two threads that can only turn the buffers. -/
def turner (c : Rounds T) (x y : Fin T) (h : Buf) : Fin T := if c.cur = h then x else y

theorem Locked.turn {x y : Fin T} (hc : c.Locked x y h) :
    c.step (c.turner x y h) = { c with cur := c.cur.other } := by
  unfold turner
  split
  · rename_i hcur
    apply step_full hc.needs.1
    rw [hcur]
    exact hc.full.1
  · rename_i hcur
    apply step_full hc.needs.2
    rw [Buf.eq_other_of_ne hcur]
    exact hc.full.2

theorem Locked.step_turner {x y : Fin T} (hc : c.Locked x y h) :
    (c.step (c.turner x y h)).Locked x y h := by
  rw [hc.turn]
  exact ⟨hc.ne, hc.needs, hc.full⟩

theorem Locked.step_of_ne {x y : Fin T} (hc : c.Locked x y h) (hx : x ≠ t) (hy : y ≠ t) :
    (c.step t).Locked x y h := by
  refine ⟨hc.ne, ⟨?_, ?_⟩, ?_, ?_⟩
  · rw [(Rounds.step_of_ne hx h).1]
    exact hc.needs.1
  · rw [(Rounds.step_of_ne hy h).1]
    exact hc.needs.2
  · rw [(Rounds.step_of_ne hx h).2]
    exact hc.full.1
  · rw [(Rounds.step_of_ne hy h.other).2]
    exact hc.full.2

/-- Of three turns the first is that of `base`, unless it belongs to one of the two threads; the
others are for the one of the two that turns the buffers. -/
def adversary (base : Nat → Fin T) (x y : Fin T) (h : Buf) (k : Nat) (c : Rounds T) : Fin T :=
  if k % 3 = 0 ∧ x ≠ base (k / 3) ∧ y ≠ base (k / 3) then base (k / 3) else c.turner x y h

theorem Locked.not_returns {x y : Fin T} (hc : c.Locked x y h) : ¬ c.Returns := by
  intro hret
  have hbase := Schedules.fair_mod (Nat.lt_of_le_of_lt (Nat.zero_le _) x.isLt)
  set base : Nat → Fin T := fun k => ⟨k % T, _⟩
  obtain ⟨order, horder⟩ := Schedules.exists_order Rounds.step (adversary base x y h) c
  have hlocked : ∀ k, (Schedules.run Rounds.step c order k).Locked x y h := by
    intro k
    induction k with
    | zero => exact hc
    | succ k ih =>
      rw [Schedules.run, horder]
      unfold adversary
      split
      · rename_i hturn
        exact ih.step_of_ne hturn.2.1 hturn.2.2
      · exact ih.step_turner
  have hturner (k : Nat) (hk : k % 3 ≠ 0) :
      order k = (Schedules.run Rounds.step c order k).turner x y h := by
    rw [horder, adversary, if_neg (fun hturn => hk hturn.1)]
  -- in the two turns after that of `base` both threads turn the buffers
  have hboth (k : Nat) : ∀ t, t = x ∨ t = y →
      order (3 * k + 1) = t ∨ order (3 * k + 2) = t := by
    intro t ht
    have hnext : (Schedules.run Rounds.step c order (3 * k + 2)).cur =
        (Schedules.run Rounds.step c order (3 * k + 1)).cur.other := by
      rw [show 3 * k + 2 = 3 * k + 1 + 1 from rfl, Schedules.run, hturner _ (by omega),
        (hlocked _).turn]
    rw [hturner _ (by omega), hturner _ (by omega), turner, turner, hnext]
    by_cases hcur : (Schedules.run Rounds.step c order (3 * k + 1)).cur = h
    · rw [if_pos hcur, hcur, if_neg (Buf.other_ne h)]
      rcases ht with rfl | rfl
      · exact Or.inl rfl
      · exact Or.inr rfl
    · have hother := Buf.eq_other_of_ne hcur
      rw [if_neg hcur, hother, Buf.other_other, if_pos rfl]
      rcases ht with rfl | rfl
      · exact Or.inr rfl
      · exact Or.inl rfl
  have hfair : Schedules.Fair order := by
    intro t k
    by_cases ht : t = x ∨ t = y
    · rcases hboth k t ht with h1 | h2
      · exact ⟨3 * k + 1, by omega, h1⟩
      · exact ⟨3 * k + 2, by omega, h2⟩
    · obtain ⟨hx, hy⟩ := not_or.mp ht
      obtain ⟨j, hj, hbj⟩ := hbase t k
      refine ⟨3 * j, by omega, ?_⟩
      rw [horder, adversary, Nat.mul_div_cancel_left j (by decide), if_pos, hbj]
      rw [hbj]
      exact ⟨Nat.mul_mod_right 3 j, Ne.symm hx, Ne.symm hy⟩
  obtain ⟨k, hk⟩ := hret order hfair
  exact (hlocked k).needs.1 (hk x)

/-- A thread with more events than slots in the current buffer can fill them up. -/
theorem Returns.fill (hc : c.Returns) (ht : c.free c.cur t < c.need t) :
    ∃ c' : Rounds T, c'.Returns ∧ c'.cur = c.cur ∧ c'.free c.cur t = 0 ∧ c'.need t ≠ 0 ∧
      ∀ u ≠ t, c'.need u = c.need u ∧ ∀ h, c'.free h u = c.free h u := by
  induction hn : c.free c.cur t generalizing c with
  | zero => exact ⟨c, hc, rfl, hn, by omega, fun u _ => ⟨rfl, fun _ => rfl⟩⟩
  | succ n ih =>
    obtain ⟨hfree, -, hneed, hcur⟩ := step_store_free (c := c) (t := t) (by omega) (by omega)
    have hleft : (c.step t).free (c.step t).cur t = n := by
      rw [hcur]
      omega
    obtain ⟨c', hret, hcur', hfull, hneed', hrest⟩ := ih (hc.step t) (by omega) hleft
    refine ⟨c', hret, hcur'.trans hcur, ?_, hneed', ?_⟩
    · rw [← hcur]
      exact hfull
    · intro u hu
      obtain ⟨hsame, hslots⟩ := hrest u hu
      refine ⟨hsame.trans (step_of_ne hu .q1).1, ?_⟩
      intro h
      exact (hslots h).trans (step_of_ne hu h).2

theorem not_returns_of_cross {x y : Fin T} (hne : x ≠ y) (hx : c.free c.cur x < c.need x)
    (hy : c.free c.cur.other y < c.need y) : ¬ c.Returns := by
  intro hc
  obtain ⟨c₁, hret, hcur, hfull, hneed, hrest⟩ := hc.fill hx
  have hstep : c₁.step x = { c₁ with cur := c₁.cur.other } := by
    apply step_full hneed
    rw [hcur]
    exact hfull
  have hret₂ := hret.step x
  rw [hstep] at hret₂
  obtain ⟨hneed_y, hfree_y⟩ := hrest y (Ne.symm hne)
  have hy₂ : c₁.free c₁.cur.other y < c₁.need y := by
    rw [hcur, hneed_y, hfree_y]
    exact hy
  obtain ⟨c₃, hret₃, -, hfull₃, hneed₃, hrest₃⟩ := hret₂.fill hy₂
  obtain ⟨hneed_x, hfree_x⟩ := hrest₃ x hne
  have hlocked : c₃.Locked x y c.cur := by
    refine ⟨hne, ⟨?_, hneed₃⟩, ?_, ?_⟩
    · rw [hneed_x]
      exact hneed
    · rw [hfree_x]
      exact hfull
    · rw [← hcur]
      exact hfull₃
  exact hlocked.not_returns hret₃

theorem Returns.enough (hc : c.Returns) : c.Enough := by
  refine ⟨hc.slots, ?_⟩
  intro t u htu
  by_contra hcross
  obtain ⟨ht, hu⟩ := not_or.mp hcross
  rw [Nat.not_le] at ht hu
  cases hcur : c.cur with
  | q1 =>
    apply not_returns_of_cross htu _ _ hc
    · rwa [hcur]
    · rwa [hcur]
  | q2 =>
    apply not_returns_of_cross (Ne.symm htu) _ _ hc
    · rwa [hcur]
    · rwa [hcur]

end Rounds

/-- The buffers while a kernel of `T` threads runs, and the events each thread has still to
insert, the one of its current call first. A pass is one step: the lock of the queue change is
taken and released within it. -/
structure Launch (T : Nat) where
  buffers : NextEvents
  pending : Fin T → List EventArgs

namespace Launch
variable {T : Nat} {s : Launch T} {t : Fin T}

def pass (s : Launch T) (t : Fin T) : Launch T :=
  match s.pending t with
  | [] => s
  | a :: as =>
    match s.buffers.dInsertRound t a with
    | (b, some _) => { buffers := b, pending := Function.update s.pending t as }
    | (b, none) => { s with buffers := b }

/-- The free slots of a thread in a buffer. -/
def freeSlots (b : NextEvents) (h : Buf) (t : Fin T) : Nat :=
  SlotBuffer.freeSlots (b.dNextEventQueue h) maxNewEvents (t * maxNewEvents)

def counts (s : Launch T) : Rounds T where
  need := fun t => (s.pending t).length
  free := freeSlots s.buffers
  cur := s.buffers.dCurDevBuf

/-- Without a drain, every call of every thread returns in every fair order of the passes. -/
def Returns (s : Launch T) : Prop :=
  ∀ order, Schedules.Fair order → ∃ k, ∀ t, (Schedules.run pass s order k).pending t = []

/-- Each thread has as many free slots as events to insert, and of two threads not the one has
more events than free slots in the first buffer and the other than in the second. -/
def Fits (s : Launch T) : Prop :=
  (∀ t, (s.pending t).length ≤ freeSlots s.buffers .q1 t + freeSlots s.buffers .q2 t) ∧
    ∀ t u, t ≠ u → (s.pending t).length ≤ freeSlots s.buffers .q1 t ∨
      (s.pending u).length ≤ freeSlots s.buffers .q2 u

theorem fits_iff_enough : s.Fits ↔ s.counts.Enough :=
  ⟨fun h => ⟨h.1, h.2⟩, fun h => ⟨h.slots, h.apart⟩⟩

/-- A store takes one of the thread's slots in the current buffer and no other. -/
theorem freeSlots_store {b : NextEvents} {i : Nat} {ev : DeviceEvent}
    (hi : SlotBuffer.firstFree (b.dNextEventQueue b.dCurDevBuf) maxNewEvents
      (t * maxNewEvents) = some i) :
    freeSlots (b.store i ev) = Function.update (freeSlots b) b.dCurDevBuf
      (Function.update (freeSlots b b.dCurDevBuf) t (freeSlots b b.dCurDevBuf t - 1)) := by
  funext h u
  by_cases hh : h = b.dCurDevBuf
  · subst hh
    rw [Function.update_self, freeSlots, NextEvents.store]
    dsimp only
    rw [Function.update_self]
    by_cases hu : u = t
    · subst hu
      rw [Function.update_self, freeSlots, ← SlotBuffer.freeSlots_write hi ev, Nat.add_sub_cancel]
    · rw [Function.update_of_ne hu, freeSlots]
      obtain ⟨hlo, hhi, -⟩ := SlotBuffer.firstFree_some hi
      apply SlotBuffer.freeSlots_congr
      intro k hk hkw
      apply Function.update_of_ne
      rintro rfl
      apply hu
      apply Fin.ext
      unfold maxNewEvents at *
      omega
  · rw [Function.update_of_ne hh, freeSlots, NextEvents.store]
    dsimp only
    rw [Function.update_of_ne hh, freeSlots]

theorem pass_nil (hp : s.pending t = []) : s.pass t = s := by
  unfold pass
  rw [hp]

/-- What a pass of a thread with a call under way does. -/
theorem pass_cons {a : EventArgs} {as : List EventArgs} (hp : s.pending t = a :: as) :
    (∃ i, SlotBuffer.firstFree (s.buffers.dNextEventQueue s.buffers.dCurDevBuf) maxNewEvents
        (t * maxNewEvents) = some i ∧
      s.pass t = ⟨s.buffers.store i a.toDevice, Function.update s.pending t as⟩) ∨
    (freeSlots s.buffers s.buffers.dCurDevBuf t = 0 ∧
      s.pass t = ⟨s.buffers.changeDevQueue, s.pending⟩) := by
  unfold pass
  rw [hp]
  dsimp only
  rcases s.buffers.dInsertRound_cases t a with ⟨i, hi, hround⟩ | ⟨hfull, hround⟩
  · rw [hround]
    exact Or.inl ⟨i, hi, rfl⟩
  · rw [hround]
    exact Or.inr ⟨SlotBuffer.firstFree_eq_none_iff.mp hfull, rfl⟩

/-- A pass does to the numbers of events and slots what a round does. -/
theorem counts_pass (s : Launch T) (t : Fin T) : (s.pass t).counts = s.counts.step t := by
  cases hp : s.pending t with
  | nil =>
    have hneed : s.counts.need t = 0 := congrArg List.length hp
    rw [Rounds.step_idle hneed, pass_nil hp]
  | cons a as =>
    have hlen : s.counts.need t = as.length + 1 := congrArg List.length hp
    have hneed : s.counts.need t ≠ 0 := by omega
    rcases pass_cons hp with ⟨i, hi, hpass⟩ | ⟨hfull, hpass⟩
    · have hfree : s.counts.free s.counts.cur t ≠ 0 := by
        intro hzero
        have hnone := SlotBuffer.firstFree_eq_none_iff.mpr hzero
        exact absurd (hi.symm.trans hnone) (Option.some_ne_none i)
      rw [hpass, Rounds.step_store hneed hfree, hlen]
      apply Rounds.ext
      · funext u
        by_cases hu : u = t
        · subst hu
          simp [counts]
        · simp [counts, hu]
      · exact freeSlots_store hi
      · rfl
    · rw [hpass, Rounds.step_full hneed hfull]
      rfl

theorem counts_run (order : Nat → Fin T) (k : Nat) :
    (Schedules.run pass s order k).counts = Schedules.run Rounds.step s.counts order k := by
  induction k with
  | zero => rfl
  | succ k ih => rw [Schedules.run, Schedules.run, counts_pass, ih]

theorem returns_iff_counts : s.Returns ↔ s.counts.Returns := by
  apply forall_congr'
  intro order
  apply imp_congr_right
  intro _
  apply exists_congr
  intro k
  apply forall_congr'
  intro t
  rw [← counts_run, counts, List.length_eq_zero_iff]

/-- Threads that insert the same number of events into empty buffers. -/
private def alike (T n : Nat) : Launch T :=
  ⟨NextEvents.empty, fun _ => List.replicate n ⟨0, 0, 0, .send, 0, none⟩⟩

end Launch
end CudaNs3.Elp
