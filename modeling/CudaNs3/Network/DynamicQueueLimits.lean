import Mathlib.Data.BitVec

/-!
# Dynamic queue limits

The byte limit of a device queue, computed anew at each completion from what was queued and
completed since the last one. All the counters are 32 bits wide and wrap; a limit never
exceeds `dqlMaxLimit`, so that read as a signed number it is never negative.
-/

namespace CudaNs3.Network

set_option autoImplicit false

def dqlMaxObject : BitVec 32 := BitVec.allOnes 32 / 16

def dqlMaxLimit : BitVec 32 := BitVec.allOnes 32 / 2 - dqlMaxObject

/-- The configuration; the checker of `MaxLimit` admits no value above `dqlMaxLimit`. -/
structure QueueLimitsAttributes where
  maxLimit : BitVec 32
  minLimit : BitVec 32
  slackHoldTime : Int
  maxLimit_le : maxLimit ≤ dqlMaxLimit

structure DynamicQueueLimits where
  attributes : QueueLimitsAttributes
  numQueued : BitVec 32 := 0
  adjLimit : BitVec 32 := 0
  lastObjCnt : BitVec 32 := 0
  limit : BitVec 32 := 0
  numCompleted : BitVec 32 := 0
  prevOvlimit : BitVec 32 := 0
  prevNumQueued : BitVec 32 := 0
  prevLastObjCnt : BitVec 32 := 0
  lowestSlack : BitVec 32 := BitVec.allOnes 32
  slackStartTime : Int := 0

/-- The difference of two signed numbers, or 0 when it is negative. -/
def posdiff (a b : BitVec 32) : BitVec 32 := BitVec.ofInt 32 (max (a.toInt - b.toInt) 0)

namespace DynamicQueueLimits

/-- The adjusted limit is the one counter that keeps its value. -/
def reset (q : DynamicQueueLimits) (now : Int) : DynamicQueueLimits :=
  { attributes := q.attributes, adjLimit := q.adjLimit, slackStartTime := now }

def construct (a : QueueLimitsAttributes) (now : Int) : DynamicQueueLimits :=
  reset { attributes := a } now

def available (q : DynamicQueueLimits) : Int := (q.adjLimit - q.numQueued).toInt

/-- `none` when the assertion on the count fails. -/
def queued (q : DynamicQueueLimits) (count : BitVec 32) : Option DynamicQueueLimits :=
  if count ≤ dqlMaxObject then
    some { q with lastObjCnt := count, numQueued := q.numQueued + count }
  else none

section Completed
variable (q : DynamicQueueLimits) (count : BitVec 32) (now : Int)

def ovlimit : BitVec 32 := posdiff (q.numQueued - q.numCompleted) q.limit

def inprogress : BitVec 32 := q.numQueued - (q.numCompleted + count)

def allPrevCompleted : Bool := 0 ≤ (q.numCompleted + count - q.prevNumQueued).toInt

def starved : Bool :=
  (q.ovlimit ≠ 0 && q.inprogress count = 0) || (q.prevOvlimit ≠ 0 && q.allPrevCompleted count)

/-- The queue was busy in the whole interval. -/
def busy : Bool :=
  q.inprogress count ≠ 0 && q.prevNumQueued - q.numCompleted ≠ 0 && !q.allPrevCompleted count

def slack : BitVec 32 :=
  let slack := posdiff (q.limit + q.prevOvlimit) (2 * (q.numCompleted + count - q.numCompleted))
  let slackLastObjs := if q.prevOvlimit ≠ 0 then posdiff q.prevLastObjCnt q.prevOvlimit else 0
  if slack < slackLastObjs then slackLastObjs else slack

/-- The limit before its bounds are enforced, and the slack and its start time kept with it. -/
def adjust : BitVec 32 × BitVec 32 × Int :=
  if q.starved count then
    (q.limit + (posdiff (q.numCompleted + count) q.prevNumQueued + q.prevOvlimit),
      BitVec.allOnes 32, now)
  else if q.busy count then
    let lowestSlack := if q.slack count < q.lowestSlack then q.slack count else q.lowestSlack
    if q.slackStartTime + q.attributes.slackHoldTime < now then
      (posdiff q.limit lowestSlack, BitVec.allOnes 32, now)
    else (q.limit, lowestSlack, q.slackStartTime)
  else (q.limit, q.lowestSlack, q.slackStartTime)

/-- The bounds enforced on the limit. -/
def newLimit : BitVec 32 :=
  let limit := (q.adjust count now).1
  let atLeast := if limit < q.attributes.minLimit then q.attributes.minLimit else limit
  if q.attributes.maxLimit < atLeast then q.attributes.maxLimit else atLeast

/-- `none` when the assertion fails: no more is completed than is queued. -/
def completed : Option DynamicQueueLimits :=
  if count ≤ q.numQueued - q.numCompleted then
    let (_, lowestSlack, slackStartTime) := q.adjust count now
    let limit := q.newLimit count now
    some { q with
      limit := limit
      adjLimit := limit + (q.numCompleted + count)
      prevOvlimit := if limit ≠ q.limit then 0 else q.ovlimit
      prevLastObjCnt := q.lastObjCnt
      numCompleted := q.numCompleted + count
      prevNumQueued := q.numQueued
      lowestSlack := lowestSlack
      slackStartTime := slackStartTime }
  else none

end Completed

section
variable {q q' : DynamicQueueLimits} {count : BitVec 32} {now : Int}

theorem queued_spec (h : count ≤ dqlMaxObject) :
    ∃ q', q.queued count = some q' ∧ q'.numQueued = q.numQueued + count ∧
      q'.numCompleted = q.numCompleted :=
  ⟨_, if_pos h, rfl, rfl⟩

theorem newLimit_lt : (q.newLimit count now).toNat < 2 ^ 31 := by
  have hmin (x m : BitVec 32) : (if m < x then m else x) ≤ m := by
    split
    · exact BitVec.le_refl _
    · rename_i hle
      exact BitVec.not_lt.mp hle
  have hbound : q.newLimit count now ≤ q.attributes.maxLimit := hmin _ _
  have hmax : dqlMaxLimit.toNat < 2 ^ 31 := by decide
  have hle := BitVec.le_def.mp (BitVec.le_trans hbound q.attributes.maxLimit_le)
  omega

/-- Once all that is queued is completed the limit itself is available. -/
theorem completed_spec (now : Int) (h : count ≤ q.numQueued - q.numCompleted) :
    ∃ q', q.completed count now = some q' ∧ q'.numQueued = q.numQueued ∧
      q'.numCompleted = q.numCompleted + count ∧
      (q'.numQueued = q'.numCompleted → 0 ≤ q'.available) := by
  refine ⟨_, if_pos h, rfl, rfl, ?_⟩
  intro hall
  have havail : (q.newLimit count now + (q.numCompleted + count) - q.numQueued) =
      q.newLimit count now := by
    change q.numQueued = q.numCompleted + count at hall
    rw [hall, add_sub_cancel_right]
  change 0 ≤ (q.newLimit count now + (q.numCompleted + count) - q.numQueued).toInt
  rw [havail, BitVec.toInt_eq_toNat_of_lt]
  · exact Int.natCast_nonneg _
  · have hlt : (q.newLimit count now).toNat < 2 ^ 31 := newLimit_lt
    omega

end

end DynamicQueueLimits
end CudaNs3.Network
