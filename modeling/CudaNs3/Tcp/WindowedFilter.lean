import Mathlib.Data.BitVec
import Mathlib.Data.List.Induction
import Mathlib.Order.Defs.LinearOrder

/-!
# Windowed filters

The filter keeps the best three of a stream of samples, each with the time it was taken. Every
branch of `Update` keeps them in the order of their times and of their values, and a sample that
is kept exceeds, or equals, everything that came after it.
-/

namespace CudaNs3.Tcp

set_option autoImplicit false

universe u

/-- `WindowedFilter::Sample`; the times are of an unsigned type. -/
structure Sample (T : Type u) (w : Nat) where
  sample : T
  time : BitVec w
  deriving DecidableEq, Repr

/-- `m_samples0` to `m_samples2` are the elements of the array `m_samples`. -/
structure WindowedFilter (T : Type u) (w : Nat) where
  m_windowLength : BitVec w
  m_zeroValue : T
  m_samples0 : Sample T w
  m_samples1 : Sample T w
  m_samples2 : Sample T w
  deriving DecidableEq, Repr

namespace WindowedFilter

section Source
variable {T : Type u} [LinearOrder T] [Zero T] {w : Nat}

/-- The comparison of `MaxFilter`. -/
def maxFilter (lhs rhs : T) : Bool := if rhs = 0 ∨ lhs = 0 then false else rhs ≤ lhs

/-- A filter of which no sample has been set yet. -/
def init (windowLength : BitVec w) (zeroValue : T) (zeroTime : BitVec w) : WindowedFilter T w :=
  ⟨windowLength, zeroValue, ⟨zeroValue, zeroTime⟩, ⟨zeroValue, zeroTime⟩, ⟨zeroValue, zeroTime⟩⟩

def reset (f : WindowedFilter T w) (new : Sample T w) : WindowedFilter T w :=
  { f with m_samples0 := new, m_samples1 := new, m_samples2 := new }

/-- The new sample takes the place of the second or the third estimate. -/
def improve (compare : T → T → Bool) (f : WindowedFilter T w) (new : Sample T w) :
    WindowedFilter T w :=
  if compare new.sample f.m_samples1.sample then { f with m_samples1 := new, m_samples2 := new }
  else if compare new.sample f.m_samples2.sample then { f with m_samples2 := new }
  else f

/-- The second and third estimate are promoted, twice if the second is too old as well. -/
def expire (f : WindowedFilter T w) (new : Sample T w) : WindowedFilter T w :=
  let once := { f with
    m_samples0 := f.m_samples1, m_samples1 := f.m_samples2, m_samples2 := new }
  if once.m_windowLength < new.time - once.m_samples0.time then
    { once with m_samples0 := once.m_samples1, m_samples1 := once.m_samples2 }
  else once

/-- A second or third estimate that has stood for too long is taken anew. -/
def refresh (f : WindowedFilter T w) (new : Sample T w) : WindowedFilter T w :=
  if f.m_samples1.sample = f.m_samples0.sample ∧
      f.m_windowLength >>> 2 < new.time - f.m_samples1.time then
    { f with m_samples1 := new, m_samples2 := new }
  else if f.m_samples2.sample = f.m_samples1.sample ∧
      f.m_windowLength >>> 1 < new.time - f.m_samples2.time then
    { f with m_samples2 := new }
  else f

def update (compare : T → T → Bool) (f : WindowedFilter T w) (new : Sample T w) :
    WindowedFilter T w :=
  if f.m_samples0.sample = f.m_zeroValue ∨ compare new.sample f.m_samples0.sample ∨
      f.m_windowLength < new.time - f.m_samples2.time then
    reset f new
  else
    let improved := improve compare f new
    if improved.m_windowLength < new.time - improved.m_samples0.time then expire improved new
    else refresh improved new

/-- A sequence of calls of `Update`. -/
def run (compare : T → T → Bool) (f : WindowedFilter T w) (updates : List (Sample T w)) :
    WindowedFilter T w :=
  updates.foldl (update compare) f

end Source

variable {T : Type u} [LinearOrder T] {w : Nat}

/-- A sample of the history that nothing received after it exceeds. -/
def Covers (history : List (Sample T w)) (e : Sample T w) : Prop :=
  ∃ before after, history = before ++ e :: after ∧ ∀ s ∈ after, s.sample ≤ e.sample

theorem Covers.mem {history : List (Sample T w)} {e : Sample T w} (h : Covers history e) :
    e ∈ history := by
  obtain ⟨before, after, rfl, -⟩ := h
  exact List.mem_append_right before List.mem_cons_self

theorem Covers.snoc {history : List (Sample T w)} {e new : Sample T w} (h : Covers history e)
    (hle : new.sample ≤ e.sample) : Covers (history ++ [new]) e := by
  obtain ⟨before, after, rfl, hafter⟩ := h
  refine ⟨before, after ++ [new], by simp, fun s hs => ?_⟩
  rcases List.mem_append.mp hs with hs | hs
  · exact hafter s hs
  · rw [List.mem_singleton.mp hs]
    exact hle

theorem covers_last (history : List (Sample T w)) (new : Sample T w) :
    Covers (history ++ [new]) new :=
  ⟨history, [], rfl, fun _ hs => absurd hs List.not_mem_nil⟩

/-- Where the times do not decrease, what is later in time is later in the history. -/
theorem Covers.le_of_time_lt {history : List (Sample T w)} {e s : Sample T w}
    (h : Covers history e) (hsorted : history.Pairwise fun a b => a.time ≤ b.time)
    (hs : s ∈ history) (hlt : e.time < s.time) : s.sample ≤ e.sample := by
  obtain ⟨before, after, rfl, hafter⟩ := h
  rcases List.mem_append.mp hs with hs | hs
  · have hle := (List.pairwise_append.mp hsorted).2.2 s hs e List.mem_cons_self
    exact absurd hle (BitVec.not_le.mpr hlt)
  · rcases List.mem_cons.mp hs with rfl | hs
    · exact le_rfl
    · exact hafter s hs

/-- The order of the three estimates, and what each says about the samples after it. -/
structure Tracks (history : List (Sample T w)) (f : WindowedFilter T w) : Prop where
  time01 : f.m_samples0.time ≤ f.m_samples1.time
  time12 : f.m_samples1.time ≤ f.m_samples2.time
  value01 : f.m_samples1.sample ≤ f.m_samples0.sample
  value12 : f.m_samples2.sample ≤ f.m_samples1.sample
  covers0 : Covers history f.m_samples0
  covers1 : Covers history f.m_samples1
  covers2 : Covers history f.m_samples2

section Steps
variable {history : List (Sample T w)} {f : WindowedFilter T w} {new : Sample T w}

theorem tracks_reset (f : WindowedFilter T w) (new : Sample T w) :
    Tracks (history ++ [new]) (reset f new) :=
  ⟨BitVec.le_refl _, BitVec.le_refl _, le_rfl, le_rfl, covers_last _ _, covers_last _ _,
    covers_last _ _⟩

/-- What is known of the filter once the new sample has been entered: it is below the third
estimate and no estimate is later. -/
structure Entered (history : List (Sample T w)) (new : Sample T w) (f : WindowedFilter T w) :
    Prop extends Tracks (history ++ [new]) f where
  below : new.sample ≤ f.m_samples2.sample
  recent : f.m_samples2.time ≤ new.time

theorem entered_improve [Zero T] (h : Tracks history f) (hhistory : ∀ s ∈ history, s.sample ≠ 0)
    (hnew : new.sample ≠ 0) (htime : ∀ s ∈ history, s.time ≤ new.time)
    (hbest : maxFilter new.sample f.m_samples0.sample = false) :
    Entered history new (improve maxFilter f new) := by
  have hcompare {e : Sample T w} (he : Covers history e) :
      maxFilter new.sample e.sample = true ↔ e.sample ≤ new.sample := by
    rw [maxFilter, if_neg (not_or.mpr ⟨hhistory e he.mem, hnew⟩), decide_eq_true_eq]
  have hlt0 : new.sample ≤ f.m_samples0.sample :=
    (not_le.mp fun hle => Bool.false_ne_true (hbest ▸ (hcompare h.covers0).mpr hle)).le
  have ht0 := htime _ h.covers0.mem
  have ht1 := htime _ h.covers1.mem
  unfold improve
  split_ifs with h1 h2
  · exact ⟨⟨ht0, BitVec.le_refl _, hlt0, le_rfl, h.covers0.snoc hlt0, covers_last _ _,
      covers_last _ _⟩, le_rfl, BitVec.le_refl _⟩
  · have hlt1 : new.sample ≤ f.m_samples1.sample :=
      (not_le.mp fun hle => h1 ((hcompare h.covers1).mpr hle)).le
    exact ⟨⟨h.time01, ht1, h.value01, hlt1, h.covers0.snoc hlt0, h.covers1.snoc hlt1,
      covers_last _ _⟩, le_rfl, BitVec.le_refl _⟩
  · have hlt1 : new.sample ≤ f.m_samples1.sample :=
      (not_le.mp fun hle => h1 ((hcompare h.covers1).mpr hle)).le
    have hlt2 : new.sample ≤ f.m_samples2.sample :=
      (not_le.mp fun hle => h2 ((hcompare h.covers2).mpr hle)).le
    exact ⟨⟨h.time01, h.time12, h.value01, h.value12, h.covers0.snoc hlt0, h.covers1.snoc hlt1,
      h.covers2.snoc hlt2⟩, hlt2, htime _ h.covers2.mem⟩

theorem tracks_expire (h : Entered history new f) : Tracks (history ++ [new]) (expire f new) := by
  simp only [expire]
  split_ifs
  · exact ⟨h.recent, BitVec.le_refl _, h.below, le_rfl, h.covers2, covers_last _ _,
      covers_last _ _⟩
  · exact ⟨h.time12, h.recent, h.value12, h.below, h.covers1, h.covers2, covers_last _ _⟩

theorem tracks_refresh (h : Entered history new f) :
    Tracks (history ++ [new]) (refresh f new) := by
  have hbelow1 := h.below.trans h.value12
  have hrecent1 := BitVec.le_trans h.time12 h.recent
  unfold refresh
  split_ifs
  · exact ⟨BitVec.le_trans h.time01 hrecent1, BitVec.le_refl _, hbelow1.trans h.value01, le_rfl,
      h.covers0, covers_last _ _, covers_last _ _⟩
  · exact ⟨h.time01, hrecent1, h.value01, hbelow1, h.covers0, h.covers1, covers_last _ _⟩
  · exact h.toTracks

/-- The best estimate is no older than the window. -/
def Fresh (f : WindowedFilter T w) (now : BitVec w) : Prop :=
  ¬ f.m_windowLength < now - f.m_samples0.time

omit [LinearOrder T] in
theorem fresh_reset (f : WindowedFilter T w) (new : Sample T w) :
    Fresh (reset f new) new.time := by
  rw [Fresh, reset, BitVec.sub_self]
  exact BitVec.not_lt_zero

omit [LinearOrder T] in
theorem improve_fields (compare : T → T → Bool) (f : WindowedFilter T w) (new : Sample T w) :
    (improve compare f new).m_windowLength = f.m_windowLength ∧
      (improve compare f new).m_samples0 = f.m_samples0 ∧
      ((improve compare f new).m_samples2 = f.m_samples2 ∨
        (improve compare f new).m_samples2 = new) := by
  unfold improve
  split_ifs
  · exact ⟨rfl, rfl, Or.inr rfl⟩
  · exact ⟨rfl, rfl, Or.inr rfl⟩
  · exact ⟨rfl, rfl, Or.inl rfl⟩

omit [LinearOrder T] in
/-- Two promotions suffice: the third estimate is not too old. -/
theorem fresh_expire (hthird : ¬ f.m_windowLength < new.time - f.m_samples2.time) :
    Fresh (expire f new) new.time := by
  simp only [expire]
  split_ifs with h
  · exact hthird
  · exact h

omit [LinearOrder T] in
theorem expire_window (f : WindowedFilter T w) (new : Sample T w) :
    (expire f new).m_windowLength = f.m_windowLength := by
  simp only [expire]
  split_ifs <;> rfl

theorem refresh_fields (f : WindowedFilter T w) (new : Sample T w) :
    (refresh f new).m_windowLength = f.m_windowLength ∧
      (refresh f new).m_samples0 = f.m_samples0 := by
  unfold refresh
  split_ifs <;> exact ⟨rfl, rfl⟩

theorem update_window (compare : T → T → Bool) (f : WindowedFilter T w) (new : Sample T w) :
    (update compare f new).m_windowLength = f.m_windowLength := by
  have himprove := (improve_fields compare f new).1
  simp only [update]
  split_ifs
  · rfl
  · rw [expire_window, himprove]
  · rw [(refresh_fields _ _).1, himprove]

theorem fresh_update (compare : T → T → Bool) (f : WindowedFilter T w) (new : Sample T w) :
    Fresh (update compare f new) new.time := by
  obtain ⟨hwindow, -, hthird⟩ := improve_fields compare f new
  simp only [update]
  split_ifs with hreset hold
  · exact fresh_reset f new
  · refine fresh_expire ?_
    rw [hwindow]
    rcases hthird with h | h
    · rw [h]
      exact fun hlt => hreset (Or.inr (Or.inr hlt))
    · rw [h, BitVec.sub_self]
      exact BitVec.not_lt_zero
  · rw [Fresh, (refresh_fields _ _).1, (refresh_fields _ _).2]
    exact hold

/-- One call keeps the three estimates in order, whichever of its branches it takes. -/
theorem tracks_update [Zero T] (h : Tracks history f) (hhistory : ∀ s ∈ history, s.sample ≠ 0)
    (hnew : new.sample ≠ 0) (htime : ∀ s ∈ history, s.time ≤ new.time) :
    Tracks (history ++ [new]) (update maxFilter f new) := by
  simp only [update]
  split_ifs with hreset
  · exact tracks_reset f new
  all_goals
    have hbest : maxFilter new.sample f.m_samples0.sample = false :=
      Bool.eq_false_iff.mpr fun hbest => hreset (Or.inr (Or.inl hbest))
    have hentered := entered_improve h hhistory hnew htime hbest
  · exact tracks_expire hentered
  · exact tracks_refresh hentered

end Steps

theorem run_snoc (compare : T → T → Bool) (f : WindowedFilter T w) (history : List (Sample T w))
    (new : Sample T w) :
    run compare f (history ++ [new]) = update compare (run compare f history) new := by
  rw [run, List.foldl_append]
  rfl

theorem run_window (compare : T → T → Bool) (f : WindowedFilter T w)
    (history : List (Sample T w)) :
    (run compare f history).m_windowLength = f.m_windowLength := by
  induction history using List.reverseRecOn with
  | nil => rfl
  | append_singleton history new ih => rw [run_snoc, update_window, ih]

/-- A filter that has been updated at least once tracks what it was given. The first update
finds the value of an unset estimate. -/
theorem tracks_run [Zero T] (windowLength zeroTime : BitVec w) (zeroValue : T)
    (history : List (Sample T w)) (hne : history ≠ [])
    (hnonzero : ∀ s ∈ history, s.sample ≠ 0)
    (hsorted : history.Pairwise fun a b => a.time ≤ b.time) :
    Tracks history (run maxFilter (init windowLength zeroValue zeroTime) history) := by
  induction history using List.reverseRecOn with
  | nil => exact absurd rfl hne
  | append_singleton history new ih =>
    rw [run_snoc]
    rcases List.eq_nil_or_concat history with rfl | ⟨_, _, rfl⟩
    · have hunset : (run maxFilter (init windowLength zeroValue zeroTime) []).m_samples0.sample =
          (run maxFilter (init windowLength zeroValue zeroTime) []).m_zeroValue := rfl
      rw [update, if_pos (Or.inl hunset)]
      exact tracks_reset _ new
    · have hsplit := List.pairwise_append.mp hsorted
      refine tracks_update (ih (by simp) ?_ hsplit.1) ?_ (hnonzero new (by simp)) ?_
      · exact fun s hs => hnonzero s (List.mem_append_left _ hs)
      · exact fun s hs => hnonzero s (List.mem_append_left _ hs)
      · exact fun s hs => hsplit.2.2 s hs new List.mem_cons_self

/-- What the estimates of a maximum filter promise at the time `now`. -/
structure Honest (windowLength : BitVec w) (history : List (Sample T w)) (now : BitVec w)
    (f : WindowedFilter T w) : Prop where
  times : f.m_samples0.time ≤ f.m_samples1.time ∧ f.m_samples1.time ≤ f.m_samples2.time
  values : f.m_samples1.sample ≤ f.m_samples0.sample ∧
    f.m_samples2.sample ≤ f.m_samples1.sample
  best_taken : f.m_samples0 ∈ history ∧
    now.toNat ≤ f.m_samples0.time.toNat + windowLength.toNat
  covers : ∀ e ∈ [f.m_samples0, f.m_samples1, f.m_samples2],
    Covers history e ∧ ∀ s ∈ history, e.time < s.time → s.sample ≤ e.sample

theorem honest_update [Zero T] (windowLength zeroTime : BitVec w) (zeroValue : T)
    (history : List (Sample T w)) (new : Sample T w)
    (hnonzero : ∀ s ∈ history ++ [new], s.sample ≠ 0)
    (hsorted : (history ++ [new]).Pairwise fun a b => a.time ≤ b.time) :
    Honest windowLength (history ++ [new]) new.time
      (run maxFilter (init windowLength zeroValue zeroTime) (history ++ [new])) := by
  have htracks := tracks_run windowLength zeroTime zeroValue _ (by simp) hnonzero hsorted
  have hfresh : Fresh (run maxFilter (init windowLength zeroValue zeroTime) (history ++ [new]))
      new.time := by
    rw [run_snoc]
    exact fresh_update _ _ _
  have hwindow : (init windowLength zeroValue zeroTime).m_windowLength = windowLength := rfl
  rw [Fresh, run_window, hwindow] at hfresh
  generalize run maxFilter (init windowLength zeroValue zeroTime) (history ++ [new]) = f
    at htracks hfresh
  refine ⟨⟨htracks.time01, htracks.time12⟩, ⟨htracks.value01, htracks.value12⟩,
    ⟨htracks.covers0.mem, ?_⟩, ?_⟩
  · have hle : f.m_samples0.time ≤ new.time := by
      rcases List.mem_append.mp htracks.covers0.mem with hs | hs
      · exact (List.pairwise_append.mp hsorted).2.2 _ hs new List.mem_cons_self
      · rw [List.mem_singleton.mp hs]
        exact BitVec.le_refl _
    rw [BitVec.not_lt, BitVec.le_def, BitVec.toNat_sub_of_le hle] at hfresh
    omega
  · intro e he
    have hcovers : Covers (history ++ [new]) e := by
      simp only [List.mem_cons, List.not_mem_nil, or_false] at he
      rcases he with rfl | rfl | rfl
      · exact htracks.covers0
      · exact htracks.covers1
      · exact htracks.covers2
    exact ⟨hcovers, fun s hs hlt => hcovers.le_of_time_lt hsorted hs hlt⟩

/-- The best of three samples expires with the third one. -/
theorem honest_update_expired :
    Honest (10 : BitVec 32) [⟨9, 1⟩, ⟨7, 5⟩, ⟨3, 12⟩] 12
      (run maxFilter (init (10 : BitVec 32) (0 : Nat) 0) [⟨9, 1⟩, ⟨7, 5⟩, ⟨3, 12⟩]) :=
  honest_update 10 0 0 [⟨9, 1⟩, ⟨7, 5⟩] ⟨3, 12⟩ (by decide) (by decide)

end WindowedFilter

end CudaNs3.Tcp
