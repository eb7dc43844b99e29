import CudaNs3.Lib.Transition
import CudaNs3.Network.DynamicQueueLimits

/-!
# Dynamic queue limits over unbounded totals

The same algorithm with totals that never wrap, for which a difference of natural numbers is
the positive difference of the code. The 32-bit counters follow it as long as the totals that
are compared as signed numbers do not lie on both sides of 2^31, no completion that may
decrease the limit is of 2^30 or more, and the limits are reset only while their adjusted limit
is zero.
-/

namespace CudaNs3.Network

set_option autoImplicit false

/-- What `DynamicQueueLimits` keeps, with totals of any size. -/
structure Totals where
  attributes : QueueLimitsAttributes
  numQueued : Nat := 0
  numCompleted : Nat := 0
  prevNumQueued : Nat := 0
  lastObjCnt : Nat := 0
  prevLastObjCnt : Nat := 0
  limit : Nat := 0
  prevOvlimit : Nat := 0
  lowestSlack : Nat := 2 ^ 32 - 1
  slackStartTime : Int := 0

inductive LimitsCall where
  | reset (now : Int)
  | queued (count : BitVec 32)
  | completed (count : BitVec 32) (now : Int)

namespace Totals

def reset (t : Totals) (now : Int) : Totals :=
  { attributes := t.attributes, slackStartTime := now }

def queued (t : Totals) (count : Nat) : Totals :=
  { t with lastObjCnt := count, numQueued := t.numQueued + count }

section Completed
variable (t : Totals) (count : Nat) (now : Int)

def inFlight : Nat := t.numQueued - t.numCompleted

def ovlimit : Nat := t.inFlight - t.limit

def starved : Prop :=
  (t.ovlimit ≠ 0 ∧ t.numQueued = t.numCompleted + count) ∨
    (t.prevOvlimit ≠ 0 ∧ t.prevNumQueued ≤ t.numCompleted + count)

def busy : Prop :=
  t.numQueued ≠ t.numCompleted + count ∧ t.prevNumQueued ≠ t.numCompleted ∧
    ¬ t.prevNumQueued ≤ t.numCompleted + count

instance : Decidable (t.starved count) := inferInstanceAs (Decidable (_ ∨ _))

instance : Decidable (t.busy count) := inferInstanceAs (Decidable (_ ∧ _))

def slack : Nat :=
  max (t.limit + t.prevOvlimit - 2 * count)
    (if t.prevOvlimit ≠ 0 then t.prevLastObjCnt - t.prevOvlimit else 0)

def adjust : Nat × Nat × Int :=
  if t.starved count then
    (t.limit + (t.numCompleted + count - t.prevNumQueued + t.prevOvlimit), 2 ^ 32 - 1, now)
  else if t.busy count then
    let lowestSlack := min (t.slack count) t.lowestSlack
    if t.slackStartTime + t.attributes.slackHoldTime < now then
      (t.limit - lowestSlack, 2 ^ 32 - 1, now)
    else (t.limit, lowestSlack, t.slackStartTime)
  else (t.limit, t.lowestSlack, t.slackStartTime)

def newLimit : Nat :=
  min (max (t.adjust count now).1 t.attributes.minLimit.toNat) t.attributes.maxLimit.toNat

def completed : Totals :=
  { t with
    limit := t.newLimit count now
    prevOvlimit := if t.newLimit count now ≠ t.limit then 0 else t.ovlimit
    prevLastObjCnt := t.lastObjCnt
    numCompleted := t.numCompleted + count
    prevNumQueued := t.numQueued
    lowestSlack := (t.adjust count now).2.1
    slackStartTime := (t.adjust count now).2.2 }

end Completed

def step (t : Totals) : LimitsCall → Totals
  | .reset now => t.reset now
  | .queued count => t.queued count.toNat
  | .completed count now => t.completed count.toNat now

end Totals

namespace DynamicQueueLimits

/-- `none` when an assertion fails. -/
def step (q : DynamicQueueLimits) : LimitsCall → Option DynamicQueueLimits
  | .reset now => some (q.reset now)
  | .queued count => q.queued count
  | .completed count now => q.completed count now

/-- The arguments of `Posdiff` on the way through `Completed`. -/
def posdiffs (q : DynamicQueueLimits) (count : BitVec 32) (now : Int) :
    List (BitVec 32 × BitVec 32) :=
  [(q.numQueued - q.numCompleted, q.limit)] ++
    if q.starved count then [(q.numCompleted + count, q.prevNumQueued)]
    else if q.busy count then
      [(q.limit + q.prevOvlimit, 2 * (q.numCompleted + count - q.numCompleted))] ++
        (if q.prevOvlimit ≠ 0 then [(q.prevLastObjCnt, q.prevOvlimit)] else []) ++
        if q.slackStartTime + q.attributes.slackHoldTime < now then
          [(q.limit, if q.slack count < q.lowestSlack then q.slack count else q.lowestSlack)]
        else []
    else []

/-- The subtraction of signed numbers does not overflow. -/
def Fits (p : BitVec 32 × BitVec 32) : Prop :=
  -2 ^ 31 ≤ p.1.toInt - p.2.toInt ∧ p.1.toInt - p.2.toInt < 2 ^ 31

instance (p : BitVec 32 × BitVec 32) : Decidable (Fits p) := inferInstanceAs (Decidable (_ ∧ _))

/-- What the callers keep to. -/
def Allowed (q : DynamicQueueLimits) : LimitsCall → Prop
  | .reset _ => True
  | .queued count => count ≤ dqlMaxObject ∧ 0 ≤ q.available
  | .completed count _ => count ≤ q.numQueued - q.numCompleted

instance (q : DynamicQueueLimits) : (call : LimitsCall) → Decidable (q.Allowed call)
  | .reset _ => inferInstanceAs (Decidable True)
  | .queued _ => inferInstanceAs (Decidable (_ ∧ _))
  | .completed count _ => inferInstanceAs (Decidable (count ≤ q.numQueued - q.numCompleted))

/-- A call that the wrapped counters and the signed differences do not disturb. -/
def Undisturbed (q : DynamicQueueLimits) : LimitsCall → Prop
  | .reset _ => q.adjLimit = 0
  | .queued _ => True
  | .completed count _ =>
    if q.starved count then ¬ (q.prevNumQueued.toNat < 2 ^ 31 ∧
      2 ^ 31 ≤ (q.numCompleted + count).toNat)
    else if q.busy count then count.toNat < 2 ^ 30
    else True

instance (q : DynamicQueueLimits) : (call : LimitsCall) → Decidable (q.Undisturbed call)
  | .reset _ => inferInstanceAs (Decidable (q.adjLimit = 0))
  | .queued _ => inferInstanceAs (Decidable True)
  | .completed count _ => inferInstanceAs (Decidable (if q.starved count then
      ¬ (q.prevNumQueued.toNat < 2 ^ 31 ∧ 2 ^ 31 ≤ (q.numCompleted + count).toNat)
    else if q.busy count then count.toNat < 2 ^ 30 else True))

/-! ### Differences of counters -/

section Counters
variable {a b : Nat} {x y : BitVec 32}

theorem counter_sub (hle : b ≤ a) (hlt : a < b + 2 ^ 32) :
    (BitVec.ofNat 32 a - BitVec.ofNat 32 b).toNat = a - b := by
  rw [BitVec.toNat_sub, BitVec.toNat_ofNat, BitVec.toNat_ofNat]
  omega

theorem counter_sub_eq_zero_iff (hle : b ≤ a) (hlt : a < b + 2 ^ 32) :
    BitVec.ofNat 32 a - BitVec.ofNat 32 b = 0 ↔ a = b := by
  rw [← BitVec.toNat_inj, counter_sub hle hlt]
  change a - b = 0 ↔ _
  omega

/-- The sign of a difference tells which of two totals is ahead. -/
theorem counter_nonneg_iff (hlt : a < b + 2 ^ 31) (hgt : b ≤ a + 2 ^ 31) :
    0 ≤ (BitVec.ofNat 32 a - BitVec.ofNat 32 b).toInt ↔ b ≤ a := by
  rw [BitVec.toInt_eq_toNat_cond, BitVec.toNat_sub, BitVec.toNat_ofNat, BitVec.toNat_ofNat]
  split
  · omega
  · omega

theorem toNat_max : (if x < y then y else x).toNat = max x.toNat y.toNat := by
  split
  · rename_i hlt
    exact (Nat.max_eq_right (BitVec.lt_def.mp hlt).le).symm
  · rename_i hnot
    exact (Nat.max_eq_left (BitVec.le_def.mp (BitVec.not_lt.mp hnot))).symm

theorem toNat_min : (if x < y then x else y).toNat = min x.toNat y.toNat := by
  split
  · rename_i hlt
    exact (Nat.min_eq_left (BitVec.lt_def.mp hlt).le).symm
  · rename_i hnot
    exact (Nat.min_eq_right (BitVec.le_def.mp (BitVec.not_lt.mp hnot))).symm

theorem toNat_posdiff_of_fits (h : Fits (x, y)) :
    (posdiff x y).toNat = (x.toInt - y.toInt).toNat := by
  obtain ⟨-, hlt⟩ := h
  change x.toInt - y.toInt < 2 ^ 31 at hlt
  unfold posdiff
  rw [BitVec.toNat_ofInt]
  omega

theorem fits_of_lt (hx : x.toNat < 2 ^ 31) (hy : y.toNat < 2 ^ 31) : Fits (x, y) := by
  change -2 ^ 31 ≤ x.toInt - y.toInt ∧ x.toInt - y.toInt < 2 ^ 31
  rw [BitVec.toInt_eq_toNat_of_lt (by omega), BitVec.toInt_eq_toNat_of_lt (by omega)]
  omega

theorem toNat_posdiff (hx : x.toNat < 2 ^ 31) (hy : y.toNat < 2 ^ 31) :
    (posdiff x y).toNat = x.toNat - y.toNat := by
  rw [toNat_posdiff_of_fits (fits_of_lt hx hy), BitVec.toInt_eq_toNat_of_lt (by omega),
    BitVec.toInt_eq_toNat_of_lt (by omega)]
  omega

/-- Two totals on the same side of 2^31, or that lie on both sides of 2^32. -/
theorem counter_fits (hle : b ≤ a) (hlt : a < b + 2 ^ 31)
    (hside : ¬ (b % 2 ^ 32 < 2 ^ 31 ∧ 2 ^ 31 ≤ a % 2 ^ 32)) :
    Fits (BitVec.ofNat 32 a, BitVec.ofNat 32 b) ∧
      (posdiff (BitVec.ofNat 32 a) (BitVec.ofNat 32 b)).toNat = a - b := by
  have hdiff : (BitVec.ofNat 32 a).toInt - (BitVec.ofNat 32 b).toInt = a - b := by
    rw [BitVec.toInt_eq_toNat_cond, BitVec.toInt_eq_toNat_cond, BitVec.toNat_ofNat,
      BitVec.toNat_ofNat]
    split
    · split
      · omega
      · omega
    · split
      · omega
      · omega
  have hfits : Fits (BitVec.ofNat 32 a, BitVec.ofNat 32 b) := by
    change -2 ^ 31 ≤ (BitVec.ofNat 32 a).toInt - (BitVec.ofNat 32 b).toInt ∧
      (BitVec.ofNat 32 a).toInt - (BitVec.ofNat 32 b).toInt < 2 ^ 31
    omega
  refine ⟨hfits, ?_⟩
  rw [toNat_posdiff_of_fits hfits, hdiff]
  omega

end Counters

/-! ### The counters follow the totals -/

structure Follows (q : DynamicQueueLimits) (t : Totals) : Prop where
  attributes : q.attributes = t.attributes
  numQueued : q.numQueued = .ofNat 32 t.numQueued
  numCompleted : q.numCompleted = .ofNat 32 t.numCompleted
  prevNumQueued : q.prevNumQueued = .ofNat 32 t.prevNumQueued
  lastObjCnt : q.lastObjCnt.toNat = t.lastObjCnt
  prevLastObjCnt : q.prevLastObjCnt.toNat = t.prevLastObjCnt
  limit : q.limit.toNat = t.limit
  prevOvlimit : q.prevOvlimit.toNat = t.prevOvlimit
  lowestSlack : q.lowestSlack.toNat = t.lowestSlack
  slackStartTime : q.slackStartTime = t.slackStartTime
  adjLimit : q.adjLimit = q.limit + q.numCompleted
  completed_le : t.numCompleted ≤ t.prevNumQueued
  prev_le : t.prevNumQueued ≤ t.numQueued
  inFlight_lt : t.numQueued < t.numCompleted + 2 ^ 31
  limit_le : t.limit ≤ t.attributes.maxLimit.toNat
  over_lt : t.limit + t.prevOvlimit < 2 ^ 31
  lastObjCnt_le : t.lastObjCnt ≤ dqlMaxObject.toNat
  prevLastObjCnt_le : t.prevLastObjCnt ≤ dqlMaxObject.toNat

theorem maxLimit_add_maxObject (a : QueueLimitsAttributes) :
    a.maxLimit.toNat + dqlMaxObject.toNat < 2 ^ 31 := by
  have hle := BitVec.le_def.mp a.maxLimit_le
  have hmax : dqlMaxLimit.toNat = 1879048192 := by decide
  have hobject : dqlMaxObject.toNat = 268435455 := by decide
  omega

variable {q : DynamicQueueLimits} {t : Totals} {count : BitVec 32} {now : Int}

theorem Follows.construct (a : QueueLimitsAttributes) (now : Int) :
    Follows (construct a now) { attributes := a, slackStartTime := now } where
  attributes := rfl
  numQueued := rfl
  numCompleted := rfl
  prevNumQueued := rfl
  lastObjCnt := rfl
  prevLastObjCnt := rfl
  limit := rfl
  prevOvlimit := rfl
  lowestSlack := rfl
  slackStartTime := rfl
  adjLimit := rfl
  completed_le := Nat.le_refl 0
  prev_le := Nat.le_refl 0
  inFlight_lt := (by decide : 0 < 0 + 2 ^ 31)
  limit_le := Nat.zero_le _
  over_lt := (by decide : 0 + 0 < 2 ^ 31)
  lastObjCnt_le := Nat.zero_le _
  prevLastObjCnt_le := Nat.zero_le _

theorem toNat_twice (hsmall : count.toNat < 2 ^ 30) :
    (2 * (q.numCompleted + count - q.numCompleted)).toNat = 2 * count.toNat := by
  rw [add_sub_cancel_left, BitVec.toNat_mul]
  change 2 * count.toNat % 2 ^ 32 = _
  exact Nat.mod_eq_of_lt (by omega)

namespace Follows
variable (h : Follows q t)
include h

theorem limit_lt : t.limit < 2 ^ 31 := by
  have hmax := maxLimit_add_maxObject t.attributes
  have hle := h.limit_le
  omega

theorem inFlight : (q.numQueued - q.numCompleted).toNat = t.inFlight := by
  have hle := h.completed_le.trans h.prev_le
  have hlt := h.inFlight_lt
  rw [h.numQueued, h.numCompleted]
  exact counter_sub hle (by omega)

theorem available : q.available = (t.limit : Int) - t.inFlight := by
  have hle := h.completed_le.trans h.prev_le
  have hlt := h.inFlight_lt
  have hlimit := h.limit_lt
  have hvalue : q.limit = .ofNat 32 t.limit := by
    rw [← h.limit, BitVec.ofNat_toNat, BitVec.setWidth_eq]
  unfold DynamicQueueLimits.available Totals.inFlight
  rw [h.adjLimit, hvalue, h.numCompleted, h.numQueued, BitVec.toInt_eq_toNat_cond,
    BitVec.toNat_sub, BitVec.toNat_add, BitVec.toNat_ofNat, BitVec.toNat_ofNat,
    BitVec.toNat_ofNat]
  split
  · omega
  · omega

theorem ovlimit : q.ovlimit.toNat = t.ovlimit := by
  have hin := h.inFlight
  have hlt := h.inFlight_lt
  have hlimit := h.limit_lt
  unfold DynamicQueueLimits.ovlimit Totals.ovlimit
  rw [toNat_posdiff, hin, h.limit]
  · rw [hin, Totals.inFlight]
    omega
  · rw [h.limit]
    exact hlimit

theorem reset (now : Int) (hadj : q.adjLimit = 0) : Follows (q.reset now) (t.reset now) := by
  have hstart := Follows.construct t.attributes now
  refine { hstart with attributes := h.attributes, adjLimit := ?_ }
  change q.adjLimit = 0 + 0
  rw [hadj, add_zero]

theorem queued (hcount : count ≤ dqlMaxObject) (havail : 0 ≤ q.available) :
    ∃ q', q.queued count = some q' ∧ Follows q' (t.queued count.toNat) := by
  have hobject := BitVec.le_def.mp hcount
  have hmax := maxLimit_add_maxObject t.attributes
  have hle := h.completed_le.trans h.prev_le
  have hlimit := h.limit_le
  rw [h.available, Totals.inFlight] at havail
  refine ⟨_, if_pos hcount, ?_⟩
  refine { h with numQueued := ?_, lastObjCnt := rfl, prev_le := ?_, inFlight_lt := ?_,
                  lastObjCnt_le := hobject }
  · change q.numQueued + count = .ofNat 32 (t.numQueued + count.toNat)
    rw [h.numQueued, BitVec.ofNat_add, BitVec.ofNat_toNat, BitVec.setWidth_eq]
  · exact h.prev_le.trans (Nat.le_add_right _ _)
  · change t.numQueued + count.toNat < t.numCompleted + 2 ^ 31
    omega

theorem completedTotal : q.numCompleted + count = .ofNat 32 (t.numCompleted + count.toNat) := by
  rw [h.numCompleted, BitVec.ofNat_add, BitVec.ofNat_toNat, BitVec.setWidth_eq]

theorem prev_le_of_starved (hstarved : t.starved count.toNat) :
    t.prevNumQueued ≤ t.numCompleted + count.toNat := by
  rcases hstarved with ⟨-, hall⟩ | ⟨-, hprev⟩
  · rw [← hall]
    exact h.prev_le
  · exact hprev

section Completed
variable (hcount : count ≤ q.numQueued - q.numCompleted)
include hcount

theorem count_le : t.numCompleted + count.toNat ≤ t.numQueued := by
  have hle := BitVec.le_def.mp hcount
  have hin := h.inFlight
  have hall := h.completed_le.trans h.prev_le
  rw [hin, Totals.inFlight] at hle
  omega

theorem inprogress_iff : q.inprogress count = 0 ↔ t.numQueued = t.numCompleted + count.toNat := by
  have hle := h.count_le hcount
  have hlt := h.inFlight_lt
  unfold inprogress
  rw [h.completedTotal, h.numQueued]
  exact counter_sub_eq_zero_iff hle (by omega)

theorem allPrevCompleted_iff : q.allPrevCompleted count = true ↔
    t.prevNumQueued ≤ t.numCompleted + count.toNat := by
  have hle := h.count_le hcount
  have hlt := h.inFlight_lt
  have hprev := h.prev_le
  have hcomp := h.completed_le
  unfold allPrevCompleted
  rw [decide_eq_true_iff, h.completedTotal, h.prevNumQueued]
  exact counter_nonneg_iff (by omega) (by omega)

theorem starved_iff : q.starved count = true ↔ t.starved count.toNat := by
  have hov : q.ovlimit ≠ 0 ↔ t.ovlimit ≠ 0 := by
    rw [← h.ovlimit, Ne, ← BitVec.toNat_inj]
    exact Iff.rfl
  have hprev : q.prevOvlimit ≠ 0 ↔ t.prevOvlimit ≠ 0 := by
    rw [← h.prevOvlimit, Ne, ← BitVec.toNat_inj]
    exact Iff.rfl
  unfold starved Totals.starved
  rw [Bool.or_eq_true, Bool.and_eq_true, Bool.and_eq_true, decide_eq_true_iff, decide_eq_true_iff,
    decide_eq_true_iff, hov, hprev, h.inprogress_iff hcount, h.allPrevCompleted_iff hcount]

theorem busy_iff : q.busy count = true ↔ t.busy count.toNat := by
  have hlt := h.inFlight_lt
  have hle := h.prev_le
  have hprev : q.prevNumQueued - q.numCompleted ≠ 0 ↔ t.prevNumQueued ≠ t.numCompleted := by
    rw [h.prevNumQueued, h.numCompleted]
    exact not_congr (counter_sub_eq_zero_iff h.completed_le (by omega))
  unfold busy Totals.busy
  rw [Bool.and_eq_true, Bool.and_eq_true, Bool.not_eq_true', decide_eq_true_iff,
    decide_eq_true_iff, hprev, Ne, h.inprogress_iff hcount, ← Bool.not_eq_true,
    h.allPrevCompleted_iff hcount, and_assoc]

/-- The total of what is completed and the previous total, compared when the queue starves. -/
theorem starved_posdiff (hstarved : q.starved count = true)
    (hside : ¬ (q.prevNumQueued.toNat < 2 ^ 31 ∧ 2 ^ 31 ≤ (q.numCompleted + count).toNat)) :
    Fits (q.numCompleted + count, q.prevNumQueued) ∧
      (posdiff (q.numCompleted + count) q.prevNumQueued).toNat =
        t.numCompleted + count.toNat - t.prevNumQueued := by
  have hprev := h.prev_le_of_starved ((h.starved_iff hcount).mp hstarved)
  have hle := h.count_le hcount
  have hlt := h.inFlight_lt
  have hcomp := h.completed_le
  rw [h.completedTotal, h.prevNumQueued] at hside ⊢
  rw [BitVec.toNat_ofNat, BitVec.toNat_ofNat] at hside
  exact counter_fits hprev (by omega) hside

end Completed

theorem toNat_limit_add : (q.limit + q.prevOvlimit).toNat = t.limit + t.prevOvlimit := by
  have hlt := h.over_lt
  rw [BitVec.toNat_add, h.limit, h.prevOvlimit, Nat.mod_eq_of_lt (by omega)]

theorem prevOvlimit_ne_iff : q.prevOvlimit ≠ 0 ↔ t.prevOvlimit ≠ 0 := by
  rw [← h.prevOvlimit, Ne, ← BitVec.toNat_inj]
  exact Iff.rfl

/-- What the last objects queued leave of the previous excess. -/
theorem lastObjs_fits : Fits (q.prevLastObjCnt, q.prevOvlimit) ∧
    (posdiff q.prevLastObjCnt q.prevOvlimit).toNat = t.prevLastObjCnt - t.prevOvlimit := by
  have hmax := maxLimit_add_maxObject t.attributes
  have hlast := h.prevLastObjCnt_le
  have hover := h.over_lt
  have hx : q.prevLastObjCnt.toNat < 2 ^ 31 := by
    rw [h.prevLastObjCnt]
    omega
  have hy : q.prevOvlimit.toNat < 2 ^ 31 := by
    rw [h.prevOvlimit]
    omega
  refine ⟨fits_of_lt hx hy, ?_⟩
  rw [toNat_posdiff hx hy, h.prevLastObjCnt, h.prevOvlimit]

theorem slack (hsmall : count.toNat < 2 ^ 30) :
    Fits (q.limit + q.prevOvlimit, 2 * (q.numCompleted + count - q.numCompleted)) ∧
      (q.slack count).toNat = t.slack count.toNat := by
  have hx : (q.limit + q.prevOvlimit).toNat < 2 ^ 31 := by
    rw [h.toNat_limit_add]
    exact h.over_lt
  have hy : (2 * (q.numCompleted + count - q.numCompleted)).toNat < 2 ^ 31 := by
    rw [toNat_twice hsmall]
    omega
  refine ⟨fits_of_lt hx hy, ?_⟩
  have hfirst := toNat_posdiff hx hy
  rw [h.toNat_limit_add, toNat_twice hsmall] at hfirst
  have hlast : (if q.prevOvlimit ≠ 0 then posdiff q.prevLastObjCnt q.prevOvlimit else 0).toNat =
      if t.prevOvlimit ≠ 0 then t.prevLastObjCnt - t.prevOvlimit else 0 := by
    by_cases hover : q.prevOvlimit ≠ 0
    · rw [if_pos hover, if_pos (h.prevOvlimit_ne_iff.mp hover)]
      exact h.lastObjs_fits.2
    · rw [if_neg hover, if_neg (mt h.prevOvlimit_ne_iff.mpr hover)]
      rfl
  unfold DynamicQueueLimits.slack Totals.slack
  rw [toNat_max, hfirst, hlast]

theorem slack_lt : t.slack count.toNat < 2 ^ 31 := by
  have hover := h.over_lt
  have hmax := maxLimit_add_maxObject t.attributes
  have hlast := h.prevLastObjCnt_le
  unfold Totals.slack
  apply max_lt
  · omega
  · split
    · omega
    · omega

/-- The lowest slack with the slack of now. -/
theorem lowestSlack_min (hsmall : count.toNat < 2 ^ 30) :
    (if q.slack count < q.lowestSlack then q.slack count else q.lowestSlack).toNat =
      min (t.slack count.toNat) t.lowestSlack := by
  rw [toNat_min, (h.slack hsmall).2, h.lowestSlack]

/-- What `Completed` makes of the limit and the slack before the bounds are enforced. -/
theorem adjust (hcount : count ≤ q.numQueued - q.numCompleted)
    (hund : q.Undisturbed (.completed count now)) :
    (q.adjust count now).1.toNat = (t.adjust count.toNat now).1 ∧
      (q.adjust count now).2.1.toNat = (t.adjust count.toNat now).2.1 ∧
      (q.adjust count now).2.2 = (t.adjust count.toNat now).2.2 := by
  change if q.starved count then _ else if q.busy count then _ else True at hund
  unfold DynamicQueueLimits.adjust Totals.adjust
  by_cases hstarved : q.starved count = true
  · rw [if_pos hstarved] at hund
    rw [if_pos hstarved, if_pos ((h.starved_iff hcount).mp hstarved)]
    refine ⟨?_, rfl, rfl⟩
    have hdiff := (h.starved_posdiff hcount hstarved hund).2
    have hover := h.over_lt
    have hle := h.count_le hcount
    have hin := h.inFlight_lt
    have hcomp := h.completed_le
    change (q.limit + (posdiff (q.numCompleted + count) q.prevNumQueued + q.prevOvlimit)).toNat =
      t.limit + (t.numCompleted + count.toNat - t.prevNumQueued + t.prevOvlimit)
    rw [BitVec.toNat_add, BitVec.toNat_add, hdiff, h.limit, h.prevOvlimit]
    omega
  · rw [if_neg hstarved] at hund
    rw [if_neg hstarved, if_neg (mt (h.starved_iff hcount).mpr hstarved)]
    by_cases hbusy : q.busy count = true
    · rw [if_pos hbusy] at hund
      rw [if_pos hbusy, if_pos ((h.busy_iff hcount).mp hbusy), h.slackStartTime, h.attributes]
      have hmin := h.lowestSlack_min hund
      have hslack : t.slack count.toNat < 2 ^ 31 := h.slack_lt
      have hlimit := h.limit_lt
      by_cases hlate : t.slackStartTime + t.attributes.slackHoldTime < now
      · rw [if_pos hlate, if_pos hlate]
        refine ⟨?_, rfl, rfl⟩
        refine (toNat_posdiff (by rwa [h.limit]) (by rw [hmin]; omega)).trans ?_
        rw [hmin, h.limit]
      · rw [if_neg hlate, if_neg hlate]
        exact ⟨h.limit, hmin, rfl⟩
    · rw [if_neg hbusy, if_neg (mt (h.busy_iff hcount).mpr hbusy)]
      exact ⟨h.limit, h.lowestSlack, h.slackStartTime⟩

theorem posdiffs_fit (hcount : count ≤ q.numQueued - q.numCompleted)
    (hund : q.Undisturbed (.completed count now)) : ∀ p ∈ q.posdiffs count now, Fits p := by
  change if q.starved count then _ else if q.busy count then _ else True at hund
  have hlimit : q.limit.toNat < 2 ^ 31 := by
    rw [h.limit]
    exact h.limit_lt
  have hfirst : Fits (q.numQueued - q.numCompleted, q.limit) := by
    refine fits_of_lt ?_ hlimit
    have hin := h.inFlight_lt
    rw [h.inFlight, Totals.inFlight]
    omega
  unfold posdiffs
  rw [List.singleton_append]
  refine List.forall_mem_cons.mpr ⟨hfirst, ?_⟩
  by_cases hstarved : q.starved count = true
  · rw [if_pos hstarved] at hund
    rw [if_pos hstarved]
    exact List.forall_mem_singleton.mpr (h.starved_posdiff hcount hstarved hund).1
  · rw [if_neg hstarved] at hund
    rw [if_neg hstarved]
    by_cases hbusy : q.busy count = true
    · rw [if_pos hbusy] at hund
      rw [if_pos hbusy, List.append_assoc, List.singleton_append]
      refine List.forall_mem_cons.mpr ⟨(h.slack hund).1, ?_⟩
      refine List.forall_mem_append.mpr ⟨?_, ?_⟩
      · split
        · exact List.forall_mem_singleton.mpr h.lastObjs_fits.1
        · exact fun p hp => absurd hp List.not_mem_nil
      · split
        · refine List.forall_mem_singleton.mpr (fits_of_lt hlimit ?_)
          have hslack : t.slack count.toNat < 2 ^ 31 := h.slack_lt
          rw [h.lowestSlack_min hund]
          omega
        · exact fun p hp => absurd hp List.not_mem_nil
    · rw [if_neg hbusy]
      exact fun p hp => absurd hp List.not_mem_nil

theorem newLimit (hcount : count ≤ q.numQueued - q.numCompleted)
    (hund : q.Undisturbed (.completed count now)) :
    (q.newLimit count now).toNat = t.newLimit count.toNat now := by
  have hadjust := (h.adjust hcount hund).1
  unfold DynamicQueueLimits.newLimit Totals.newLimit
  rw [← hadjust, ← h.attributes, ← toNat_max]
  rw [Nat.min_comm, ← toNat_min]

theorem completed (hcount : count ≤ q.numQueued - q.numCompleted)
    (hund : q.Undisturbed (.completed count now)) :
    ∃ q', q.completed count now = some q' ∧ Follows q' (t.completed count.toNat now) := by
  obtain ⟨-, hslack, hstart⟩ := h.adjust hcount hund
  have hlimit := h.newLimit hcount hund
  have hmax := maxLimit_add_maxObject t.attributes
  have hle := h.count_le hcount
  have hin := h.inFlight_lt
  have hcomp := h.completed_le
  have hprev := h.prev_le
  have hbound : t.newLimit count.toNat now ≤ t.attributes.maxLimit.toNat := Nat.min_le_right _ _
  have hsame : q.newLimit count now ≠ q.limit ↔ t.newLimit count.toNat now ≠ t.limit := by
    rw [← hlimit, ← h.limit, Ne, ← BitVec.toNat_inj]
  refine ⟨_, if_pos hcount, ?_⟩
  refine { attributes := h.attributes, numQueued := h.numQueued, numCompleted := h.completedTotal
           prevNumQueued := h.numQueued, lastObjCnt := h.lastObjCnt
           prevLastObjCnt := h.lastObjCnt, limit := hlimit, prevOvlimit := ?_
           lowestSlack := hslack, slackStartTime := hstart, adjLimit := rfl, completed_le := hle
           prev_le := Nat.le_refl _, inFlight_lt := ?_, limit_le := hbound, over_lt := ?_
           lastObjCnt_le := h.lastObjCnt_le, prevLastObjCnt_le := h.lastObjCnt_le }
  · change (if q.newLimit count now ≠ q.limit then 0 else q.ovlimit).toNat =
      if t.newLimit count.toNat now ≠ t.limit then 0 else t.ovlimit
    by_cases hnew : q.newLimit count now ≠ q.limit
    · rw [if_pos hnew, if_pos (hsame.mp hnew)]
      rfl
    · rw [if_neg hnew, if_neg (mt hsame.mpr hnew)]
      exact h.ovlimit
  · change t.numQueued < t.numCompleted + count.toNat + 2 ^ 31
    omega
  · change t.newLimit count.toNat now +
      (if t.newLimit count.toNat now ≠ t.limit then 0 else t.ovlimit) < 2 ^ 31
    split
    · omega
    · rename_i hkept
      have hover := h.over_lt
      rw [not_ne_iff.mp hkept, Totals.ovlimit, Totals.inFlight]
      omega

theorem step {call : LimitsCall} (hallowed : q.Allowed call) (hund : q.Undisturbed call) :
    ∃ q', q.step call = some q' ∧ Follows q' (t.step call) := by
  cases call with
  | reset now => exact ⟨_, rfl, h.reset now hund⟩
  | queued count => exact h.queued hallowed.1 hallowed.2
  | completed count now => exact h.completed hallowed hund

end Follows

/-- In a run of calls that are not disturbed no signed subtraction overflows, the limit is the
one that the algorithm computes over unbounded totals and lies within its bounds, and what is
available is the limit less the amount in flight. -/
theorem limits_exact {a : QueueLimitsAttributes} {now : Int} {calls : List LimitsCall}
    (hcalls : Transition.Along step (fun q call => q.Allowed call ∧ q.Undisturbed call)
      (construct a now) calls) :
    ∃ q t, Transition.exec step (construct a now) calls = some q ∧
      t = calls.foldl Totals.step { attributes := a, slackStartTime := now } ∧
      q.limit.toNat = t.limit ∧ q.available = (t.limit : Int) - t.inFlight ∧
      ∀ count later, q.Allowed (.completed count later) → q.Undisturbed (.completed count later) →
        (∀ p ∈ q.posdiffs count later, Fits p) ∧
        ∀ q' ∈ q.completed count later,
          q'.limit.toNat = (t.completed count.toNat later).limit ∧
          min a.minLimit.toNat a.maxLimit.toNat ≤ q'.limit.toNat ∧
          q'.limit.toNat ≤ a.maxLimit.toNat := by
  have hkeep : ∀ q t call, Follows q t ∧ t.attributes = a → q.Allowed call ∧ q.Undisturbed call →
      ∃ q', q.step call = some q' ∧ Follows q' (t.step call) ∧ (t.step call).attributes = a := by
    rintro q t call ⟨h, ha⟩ ⟨hallowed, hund⟩
    obtain ⟨q', hq', h'⟩ := h.step hallowed hund
    refine ⟨q', hq', h', ?_⟩
    cases call with
    | reset now => exact ha
    | queued count => exact ha
    | completed count now => exact ha
  obtain ⟨q, hq, h, ha⟩ := Transition.exec_related hkeep ⟨Follows.construct a now, rfl⟩ hcalls
  refine ⟨q, _, hq, rfl, h.limit, h.available, ?_⟩
  generalize calls.foldl Totals.step { attributes := a, slackStartTime := now } = t at h ha
  intro count later hallowed hund
  refine ⟨h.posdiffs_fit hallowed hund, ?_⟩
  intro q' hq'
  obtain ⟨q'', hq'', h'⟩ := h.completed hallowed hund
  obtain rfl := Option.some.inj (hq''.symm.trans hq')
  subst ha
  rw [h'.limit]
  exact ⟨rfl, min_le_min_right _ (Nat.le_max_right _ _), Nat.min_le_right _ _⟩

section
/-- Everything is over the limit, so that the limit is to be increased each time. -/
def tightLimits : QueueLimitsAttributes := ⟨1000, 0, 1000, by decide⟩

def rounds (n : Nat) : List LimitsCall :=
  (List.replicate n [LimitsCall.queued dqlMaxObject, .completed dqlMaxObject 0]).flatten

theorem limits_exact_rounds : ∃ q,
    Transition.exec step (construct tightLimits 0) (rounds 8) = some q ∧ q.limit.toNat = 1000 := by
  have hcalls : Transition.Along step (fun q call => q.Allowed call ∧ q.Undisturbed call)
      (construct tightLimits 0) (rounds 8) := by
    decide +kernel
  obtain ⟨q, t, hq, ht, hlimit, -⟩ := limits_exact hcalls
  refine ⟨q, hq, ?_⟩
  rw [hlimit, ht]
  decide +kernel

/-- The total of what is completed passes 2^31 while the previous one lies below it. -/
theorem not_limits_exact : ¬ ∀ (a : QueueLimitsAttributes) (now : Int) (calls : List LimitsCall),
    Transition.Along step Allowed (construct a now) calls →
      ∀ q ∈ Transition.exec step (construct a now) calls, ∀ count later,
        q.Allowed (.completed count later) → ∀ p ∈ q.posdiffs count later, Fits p := by
  intro h
  have hcalls : Transition.Along step Allowed (construct tightLimits 0)
      (rounds 8 ++ [.queued dqlMaxObject]) := by
    decide +kernel
  have hbad : ∃ q ∈ Transition.exec step (construct tightLimits 0)
      (rounds 8 ++ [.queued dqlMaxObject]), q.Allowed (.completed dqlMaxObject 0) ∧
        ∃ p ∈ q.posdiffs dqlMaxObject 0, ¬ Fits p := by
    decide +kernel
  obtain ⟨q, hq, hallowed, p, hp, hnot⟩ := hbad
  exact hnot (h _ _ _ hcalls q hq _ _ hallowed p hp)

end

end DynamicQueueLimits
end CudaNs3.Network
