import CudaNs3.Lib.Transition
import Mathlib.Data.Multiset.Bind
import Mathlib.Data.Multiset.Range
import Mathlib.Data.Nat.Bitwise
import Mathlib.Data.Nat.ModEq

/-!
# The delivery ring under concurrent calls

The device path of `Cuda_PairList::Add` and `pop_front`, cut at each load, store and
`atomicCAS`. `front` and `rear` are kept as the number of times they were claimed; the code sees
them modulo `2 ^ 32`. A pair is stored and loaded field by field.
-/

namespace CudaNs3.Device.PairList

open Transition
set_option autoImplicit false

universe u v
variable {α : Type u} {β : Type v}

structure CudaPair (α : Type u) (β : Type v) where
  first : α
  second : β

/-- The next shared access of a call, or what it has returned; with it stands the place of the
pair, which the code does not return. -/
inductive Pc (α : Type u) (β : Type v) where
  | add (pair : CudaPair α β)
  | addRear (pair : CudaPair α β)
  | addFront (pair : CudaPair α β) (rear : Nat)
  | addClaim (pair : CudaPair α β) (rear : Nat)
  | addFirst (pair : CudaPair α β) (index : Nat)
  | addSecond (pair : CudaPair α β) (index : Nat)
  | added (place : Option Nat)
  | popRear
  | popFront (rear : Nat)
  | popClaim (rear front : Nat)
  | popFirst (index : Nat)
  | popSecond (index : Nat) (first : Option α)
  | popped (pair : Option (Nat × Option α × Option β))

/-- The fields, and a record of the run: the pairs in the order in which they were claimed a
place, and what was returned, each with the place it was taken from. -/
structure Ring (α : Type u) (β : Type v) where
  front : Nat
  rear : Nat
  mSize : Nat
  mCapacity : Nat
  first : Nat → Option α
  second : Nat → Option β
  placed : List (CudaPair α β)
  returned : List (Nat × Option α × Option β)

structure System (α : Type u) (β : Type v) where
  ring : Ring α β
  calls : Multiset (Pc α β)

/-- The value of the counter as the code sees it. -/
def counter (n : Nat) : Nat := n % 2 ^ 32

/-- `(unsigned int) (rear_val - front_val)` -/
def distance (rear front : Nat) : Nat := (((rear : Int) - front) % 2 ^ 32).toNat

theorem distance_eq {rear front : Nat} (hle : front ≤ rear) (hsmall : rear - front < 2 ^ 32) :
    distance rear front = rear - front := by
  unfold distance
  omega

theorem distance_self (n : Nat) : distance n n = 0 := by
  rw [distance_eq (le_refl n) (by omega), Nat.sub_self]

namespace Ring

def new (capacity : Nat) : Ring α β where
  front := 0
  rear := 0
  mSize := 0
  mCapacity := capacity
  first := fun _ => none
  second := fun _ => none
  placed := []
  returned := []

/-- `index & (m_capacity - 1)`, which needs the capacity to be a power of 2. -/
def slot (s : Ring α β) (index : Nat) : Nat := counter index &&& (s.mCapacity - 1)

/-- One step of a call; none when it has returned. -/
def move (s : Ring α β) : Pc α β → Option (Ring α β × Pc α β)
  | .add pair => some (s, if s.mSize < s.mCapacity then .addRear pair else .added none)
  | .addRear pair => some (s, .addFront pair s.rear)
  | .addFront pair rear =>
    some (s, if s.mCapacity ≤ distance rear s.front then .added none else .addClaim pair rear)
  | .addClaim pair rear =>
    if counter s.rear = counter rear then
      some ({ s with rear := s.rear + 1, placed := s.placed ++ [pair] }, .addFirst pair s.rear)
    else some (s, .addRear pair)
  | .addFirst pair i =>
    some ({ s with first := Function.update s.first (s.slot i) (some pair.first) },
      .addSecond pair i)
  | .addSecond pair i =>
    some ({ s with second := Function.update s.second (s.slot i) (some pair.second) },
      .added (some i))
  | .popRear => some (s, .popFront s.rear)
  | .popFront rear =>
    some (s, if distance rear s.front = 0 then .popped none else .popClaim rear s.front)
  | .popClaim rear front =>
    if counter s.front = counter front then
      some ({ s with front := s.front + 1 }, .popFirst s.front)
    else some (s, .popFront rear)
  | .popFirst i => some (s, .popSecond i (s.first (s.slot i)))
  | .popSecond i x =>
    some ({ s with returned := s.returned ++ [(i, x, s.second (s.slot i))] },
      .popped (some (i, x, s.second (s.slot i))))
  | .added _ => none
  | .popped _ => none

theorem move_popFront {s : Ring α β} {rear : Nat} (h : distance rear s.front ≠ 0) :
    s.move (.popFront rear) = some (s, .popClaim rear s.front) := by
  rw [move, if_neg h]

end Ring

namespace Pc

/-- The place a call has claimed and stored nothing to. -/
def unbegun : Pc α β → Multiset Nat
  | .addFirst _ i => {i}
  | _ => 0

/-- The place a call has stored the first field of its pair to. -/
def begun : Pc α β → Multiset Nat
  | .addSecond _ i => {i}
  | _ => 0

/-- The place a call has claimed and not yet stored its pair to. -/
def storing (c : Pc α β) : Multiset Nat := c.unbegun + c.begun

/-- The place a call has taken and not yet loaded the pair from. -/
def taking : Pc α β → Multiset Nat
  | .popFirst i | .popSecond i _ => {i}
  | _ => 0

/-- The first access of a call. -/
def Enters : Pc α β → Prop
  | .add _ | .popRear => True
  | _ => False

def Returned : Pc α β → Prop
  | .added _ | .popped _ => True
  | _ => False

end Pc

/-- The step of `c` does not run into one of the races of this code, given the other calls: the
test for emptiness is not made with a rear that front has passed; a counter is not found
unchanged because it has come round; a pair is loaded once it has been stored, and stored once
the pair that was in its slot has been loaded. -/
def Clean (s : Ring α β) (others : Multiset (Pc α β)) : Pc α β → Prop
  | .addClaim _ rear => counter s.rear = counter rear → s.rear = rear
  | .addFirst _ i => ∀ c ∈ others, ∀ j ∈ c.taking, s.slot j = s.slot i → j = i
  | .popFront rear => s.front ≤ rear
  | .popClaim _ front => counter s.front = counter front → s.front = front
  | .popFirst i => ∀ c ∈ others, i ∉ c.storing
  | _ => True

/-- Any number of calls at any moments, whose steps are all allowed. -/
inductive Step (Allowed : Ring α β → Multiset (Pc α β) → Pc α β → Prop) :
    System α β → System α β → Prop where
  | call {s : Ring α β} {calls : Multiset (Pc α β)} {c : Pc α β} : c.Enters →
      Step Allowed ⟨s, calls⟩ ⟨s, c ::ₘ calls⟩
  | move {s t : Ring α β} {c d : Pc α β} {others : Multiset (Pc α β)} : Allowed s others c →
      s.move c = some (t, d) → Step Allowed ⟨s, c ::ₘ others⟩ ⟨t, d ::ₘ others⟩

abbrev AnyStep : System α β → System α β → Prop := Step fun _ _ _ => True

abbrev CleanStep : System α β → System α β → Prop := Step Clean

/-- What was loaded from the place is the pair that was placed there. -/
def Genuine (s : Ring α β) (r : Nat × Option α × Option β) : Prop :=
  ∃ pair, s.placed[r.1]? = some pair ∧ r.2 = (some pair.first, some pair.second)

/-- The ring is a queue: places are taken in the order in which they are claimed, at most
`m_capacity` of them are held, none is returned from twice, and what is returned was placed there;
once no call is in progress everything that was taken has been returned. -/
structure IsQueue (s : Ring α β) (calls : Multiset (Pc α β)) : Prop where
  order : s.front ≤ s.rear
  held : s.rear ≤ s.front + s.mCapacity
  length : s.placed.length = s.rear
  once : (s.returned.map Prod.fst).Nodup
  taken : ∀ r ∈ s.returned, r.1 < s.front
  genuine : ∀ r ∈ s.returned, Genuine s r
  complete : (∀ c ∈ calls, c.Returned) → ∀ i < s.front, i ∈ s.returned.map Prod.fst

def unbegunBy (calls : Multiset (Pc α β)) : Multiset Nat := calls.bind Pc.unbegun
def begunBy (calls : Multiset (Pc α β)) : Multiset Nat := calls.bind Pc.begun
def storedBy (calls : Multiset (Pc α β)) : Multiset Nat := calls.bind Pc.storing
def takenBy (calls : Multiset (Pc α β)) : Multiset Nat := calls.bind Pc.taking

theorem unbegunBy_cons (c : Pc α β) (calls : Multiset (Pc α β)) :
    unbegunBy (c ::ₘ calls) = c.unbegun + unbegunBy calls := Multiset.cons_bind _ _ _

theorem begunBy_cons (c : Pc α β) (calls : Multiset (Pc α β)) :
    begunBy (c ::ₘ calls) = c.begun + begunBy calls := Multiset.cons_bind _ _ _

theorem storedBy_cons (c : Pc α β) (calls : Multiset (Pc α β)) :
    storedBy (c ::ₘ calls) = c.storing + storedBy calls := Multiset.cons_bind _ _ _

theorem takenBy_cons (c : Pc α β) (calls : Multiset (Pc α β)) :
    takenBy (c ::ₘ calls) = c.taking + takenBy calls := Multiset.cons_bind _ _ _

theorem storedBy_eq (calls : Multiset (Pc α β)) :
    storedBy calls = unbegunBy calls + begunBy calls := Multiset.bind_add _ _ _

/-- What a call can rely on at its next access. -/
def Pc.Ok (s : Ring α β) : Pc α β → Prop
  | .addFront _ rear => rear ≤ s.rear
  | .addClaim _ rear => rear ≤ s.rear ∧ (s.front ≤ rear → rear < s.front + s.mCapacity)
  | .addFirst pair i | .addSecond pair i => s.placed[i]? = some pair
  | .popFront rear => rear ≤ s.rear
  | .popClaim rear front => rear ≤ s.rear ∧ front < s.rear
  | .popSecond i x => ∃ pair, s.placed[i]? = some pair ∧ x = some pair.first
  | _ => True

/-- The slot holds the pair that was placed at `i`. -/
def Holds (s : Ring α β) (i : Nat) : Prop :=
  ∃ pair, s.placed[i]? = some pair ∧ s.first (s.slot i) = some pair.first ∧
    s.second (s.slot i) = some pair.second

/-- A place is open from the claim of `rear` until it is stored to, and from the claim of `front`
until it is returned from. While it is, nothing is stored to its slot for a later place. -/
structure Inv (s : Ring α β) (calls : Multiset (Pc α β)) : Prop where
  capacity : ∃ k ≤ 30, s.mCapacity = 2 ^ k
  order : s.front ≤ s.rear
  room : s.rear ≤ s.front + s.mCapacity
  length : s.placed.length = s.rear
  ok : ∀ c ∈ calls, c.Ok s
  claimed : (storedBy calls).Nodup ∧ ∀ i ∈ storedBy calls, i < s.rear
  /-- The places taken are those being returned from and those returned from. -/
  balance : takenBy calls + (s.returned.map Prod.fst : Multiset Nat) = Multiset.range s.front
  unread : ∀ i ∈ storedBy calls, i ∉ s.returned.map Prod.fst
  loading : ∀ i x, .popSecond i x ∈ calls → i ∉ storedBy calls
  half : ∀ pair i, .addSecond pair i ∈ calls → s.first (s.slot i) = some pair.first
  later : ∀ j, j ∈ storedBy calls ∨ j ∈ takenBy calls →
    ∀ i < s.rear, j < i → s.slot i = s.slot j → i ∈ unbegunBy calls
  content : ∀ i < s.rear, i ∉ storedBy calls → s.front ≤ i ∨ i ∈ takenBy calls → Holds s i
  genuine : ∀ r ∈ s.returned, Genuine s r

theorem Inv.new {k : Nat} (hk : k ≤ 30) : Inv (.new (2 ^ k) : Ring α β) 0 where
  capacity := ⟨k, hk, rfl⟩
  order := le_refl _
  room := Nat.zero_le _
  length := rfl
  ok := fun c hc => absurd hc (Multiset.notMem_zero c)
  claimed := ⟨Multiset.nodup_zero, fun i hi => absurd hi (Multiset.notMem_zero i)⟩
  balance := rfl
  unread := fun i hi => absurd hi (Multiset.notMem_zero i)
  loading := fun _ _ hc => absurd hc (Multiset.notMem_zero _)
  half := fun _ _ hc => absurd hc (Multiset.notMem_zero _)
  later := fun j hj => hj.elim (fun hj => absurd hj (Multiset.notMem_zero j))
    (fun hj => absurd hj (Multiset.notMem_zero j))
  content := fun i hi => absurd hi (Nat.not_lt_zero i)
  genuine := fun _ hr => absurd hr List.not_mem_nil

theorem Pc.Ok.mono {s t : Ring α β} {c : Pc α β} (h : c.Ok s) (hrear : s.rear ≤ t.rear)
    (hfront : s.front ≤ t.front) (hcapacity : t.mCapacity = s.mCapacity)
    (hplaced : ∀ (i : Nat) pair, s.placed[i]? = some pair → t.placed[i]? = some pair) :
    c.Ok t := by
  cases c with
  | addFront pair rear => exact Nat.le_trans h hrear
  | addClaim pair rear =>
    obtain ⟨hle, hroom⟩ := h
    refine ⟨hle.trans hrear, fun hpassed => ?_⟩
    rw [hcapacity]
    have := hroom (hfront.trans hpassed)
    omega
  | addFirst pair i => exact hplaced i pair h
  | addSecond pair i => exact hplaced i pair h
  | popFront rear => exact Nat.le_trans h hrear
  | popClaim rear front => exact ⟨h.1.trans hrear, h.2.trans_le hrear⟩
  | popSecond i x =>
    obtain ⟨pair, hpair, hx⟩ := h
    exact ⟨pair, hplaced i pair hpair, hx⟩
  | _ => trivial

namespace Inv
variable {s : Ring α β} {calls : Multiset (Pc α β)}

theorem slot_eq (h : Inv s calls) (i : Nat) : s.slot i = i % s.mCapacity := by
  obtain ⟨k, hk, hcapacity⟩ := h.capacity
  have hdvd : 2 ^ k ∣ 2 ^ 32 := Nat.pow_dvd_pow 2 (by omega)
  rw [Ring.slot, counter, hcapacity, Nat.and_two_pow_sub_one_eq_mod, Nat.mod_mod_of_dvd _ hdvd]

theorem slot_ne (h : Inv s calls) {i j : Nat} (hij : i < j) (hj : j < i + s.mCapacity) :
    s.slot j ≠ s.slot i := by
  rw [h.slot_eq, h.slot_eq]
  intro heq
  have hdvd : s.mCapacity ∣ j - i := (Nat.modEq_iff_dvd' (Nat.le_of_lt hij)).mp heq.symm
  have hle := Nat.le_of_dvd (by omega) hdvd
  omega

theorem lt_of_taken (h : Inv s calls) {i : Nat} (hi : i ∈ takenBy calls) : i < s.front := by
  rw [← Multiset.mem_range, ← h.balance]
  exact Multiset.mem_add.mpr (Or.inl hi)

/-- A place that is still to be stored to has not been returned from. -/
theorem taken_of_stored (h : Inv s calls) {i : Nat} (hi : i ∈ storedBy calls)
    (hlt : i < s.front) : i ∈ takenBy calls := by
  rw [← Multiset.mem_range, ← h.balance] at hlt
  rcases Multiset.mem_add.mp hlt with htaken | hreturned
  · exact htaken
  · exact absurd (Multiset.mem_coe.mp hreturned) (h.unread i hi)

theorem unbegun_stored {i : Nat} (hi : i ∈ unbegunBy calls) : i ∈ storedBy calls := by
  rw [storedBy_eq]
  exact Multiset.mem_add.mpr (Or.inl hi)

theorem begun_stored {i : Nat} (hi : i ∈ begunBy calls) : i ∈ storedBy calls := by
  rw [storedBy_eq]
  exact Multiset.mem_add.mpr (Or.inr hi)

theorem not_unbegun (h : Inv s calls) {i : Nat} (hi : i ∈ begunBy calls) :
    i ∉ unbegunBy calls := by
  intro hun
  have hnodup := h.claimed.1
  rw [storedBy_eq, Multiset.nodup_add] at hnodup
  exact Multiset.disjoint_left.mp hnodup.2.2 hun hi

/-- Two places in the window between `front` and `rear` have different slots. -/
theorem window_ne (h : Inv s calls) {i j : Nat} (hi : s.front ≤ i) (hij : i < j)
    (hj : j < s.rear) : s.slot j ≠ s.slot i := by
  have hroom := h.room
  exact h.slot_ne hij (by omega)

end Inv

section Steps
variable {s t : Ring α β} {c d : Pc α β} {others : Multiset (Pc α β)}

/-- The calls other than `c` rely on what they did before. -/
theorem Inv.ok_others (h : Inv s (c ::ₘ others)) (hrear : s.rear ≤ t.rear)
    (hfront : s.front ≤ t.front) (hcapacity : t.mCapacity = s.mCapacity)
    (hplaced : ∀ (i : Nat) pair, s.placed[i]? = some pair → t.placed[i]? = some pair)
    (hd : d.Ok t) : ∀ e ∈ d ::ₘ others, e.Ok t := by
  intro e he
  rcases Multiset.mem_cons.mp he with rfl | he
  · exact hd
  · exact (h.ok e (Multiset.mem_cons_of_mem he)).mono hrear hfront hcapacity hplaced

/-- A step that only loads a counter, or whose `atomicCAS` fails. -/
theorem Inv.advance (h : Inv s (c ::ₘ others)) (hunbegun : d.unbegun = c.unbegun)
    (hbegun : d.begun = c.begun) (htaking : d.taking = c.taking) (hok : d.Ok s)
    (hhalf : ∀ pair i, d ≠ .addSecond pair i) (hload : ∀ i x, d ≠ .popSecond i x) :
    Inv s (d ::ₘ others) := by
  have hun : unbegunBy (d ::ₘ others) = unbegunBy (c ::ₘ others) := by
    rw [unbegunBy_cons, unbegunBy_cons, hunbegun]
  have hst : storedBy (d ::ₘ others) = storedBy (c ::ₘ others) := by
    rw [storedBy_cons, storedBy_cons, Pc.storing, Pc.storing, hunbegun, hbegun]
  have htk : takenBy (d ::ₘ others) = takenBy (c ::ₘ others) := by
    rw [takenBy_cons, takenBy_cons, htaking]
  refine ⟨h.capacity, h.order, h.room, h.length, ?_, ?_, ?_, ?_, ?_, ?_, ?_, ?_, h.genuine⟩
  · exact h.ok_others (le_refl _) (le_refl _) rfl (fun _ _ hp => hp) hok
  · rw [hst]
    exact h.claimed
  · rw [htk]
    exact h.balance
  · rw [hst]
    exact h.unread
  · rw [hst]
    intro i x hmem
    rcases Multiset.mem_cons.mp hmem with heq | hmem
    · exact absurd heq.symm (hload i x)
    · exact h.loading i x (Multiset.mem_cons_of_mem hmem)
  · intro pair i hmem
    rcases Multiset.mem_cons.mp hmem with heq | hmem
    · exact absurd heq.symm (hhalf pair i)
    · exact h.half pair i (Multiset.mem_cons_of_mem hmem)
  · rw [hst, htk, hun]
    exact h.later
  · rw [hst, htk]
    exact h.content

/-- One call after another of the same thread. -/
theorem Inv.again (h : Inv s (c ::ₘ others)) (hc : c.Returned) (hd : d.Returned ∨ d.Enters) :
    Inv s (d ::ₘ others) := by
  have hplaces (e : Pc α β) (he : e.Returned ∨ e.Enters) :
      e.unbegun = 0 ∧ e.begun = 0 ∧ e.taking = 0 ∧ e.Ok s := by
    cases e with
    | add pair => exact ⟨rfl, rfl, rfl, trivial⟩
    | popRear => exact ⟨rfl, rfl, rfl, trivial⟩
    | added place => exact ⟨rfl, rfl, rfl, trivial⟩
    | popped pair => exact ⟨rfl, rfl, rfl, trivial⟩
    | _ => exact absurd he (not_or.mpr ⟨id, id⟩)
  obtain ⟨hun, hbegun, htaking, _⟩ := hplaces c (Or.inl hc)
  obtain ⟨hun', hbegun', htaking', hok⟩ := hplaces d hd
  refine h.advance (hun'.trans hun.symm) (hbegun'.trans hbegun.symm) (htaking'.trans htaking.symm)
    hok (fun pair i => ?_) (fun i x => ?_)
  · rintro rfl
    exact absurd hbegun' (Multiset.singleton_ne_zero i)
  · rintro rfl
    exact absurd htaking' (Multiset.singleton_ne_zero i)

/-- `atomicCAS (rear, ...)` succeeds. -/
theorem Inv.claimRear {pair : CudaPair α β}
    (h : Inv s (.addClaim pair s.rear ::ₘ others)) :
    Inv { s with rear := s.rear + 1, placed := s.placed ++ [pair] }
      (.addFirst pair s.rear ::ₘ others) := by
  obtain ⟨_, hroom⟩ := h.ok _ (Multiset.mem_cons_self _ _)
  have hfree := hroom h.order
  have horder := h.order
  have hun : unbegunBy (.addFirst pair s.rear ::ₘ others) = s.rear ::ₘ unbegunBy others := by
    simp [unbegunBy_cons, Pc.unbegun]
  have hst : storedBy (.addFirst pair s.rear ::ₘ others) = s.rear ::ₘ storedBy others := by
    simp [storedBy_cons, Pc.storing, Pc.unbegun, Pc.begun]
  have hst' : storedBy (.addClaim pair s.rear ::ₘ others) = storedBy others := by
    simp [storedBy_cons, Pc.storing, Pc.unbegun, Pc.begun]
  have hun' : unbegunBy (.addClaim pair s.rear ::ₘ others) = unbegunBy others := by
    simp [unbegunBy_cons, Pc.unbegun]
  have htk : takenBy (.addFirst pair s.rear ::ₘ others) =
      takenBy (.addClaim pair s.rear ::ₘ others) := by
    simp [takenBy_cons, Pc.taking]
  have hplaced (i : Nat) (p : CudaPair α β) (hp : s.placed[i]? = some p) :
      (s.placed ++ [pair])[i]? = some p := by
    obtain ⟨hi, _⟩ := List.getElem?_eq_some_iff.mp hp
    rw [List.getElem?_append_left hi]
    exact hp
  have hnew : (s.placed ++ [pair])[s.rear]? = some pair := by
    rw [← h.length, List.getElem?_concat_length]
  obtain ⟨hnodup, hlt⟩ := h.claimed
  rw [hst'] at hnodup hlt
  refine ⟨h.capacity, Nat.le_succ_of_le horder, hfree, ?_, ?_, ?_, ?_, ?_, ?_, ?_, ?_, ?_, ?_⟩
  · rw [List.length_append, h.length]
    rfl
  · exact h.ok_others (Nat.le_succ _) (le_refl _) rfl hplaced hnew
  · rw [hst]
    refine ⟨Multiset.nodup_cons.mpr ⟨fun hmem => Nat.lt_irrefl _ (hlt _ hmem), hnodup⟩, ?_⟩
    intro i hi
    rcases Multiset.mem_cons.mp hi with rfl | hi
    · exact Nat.lt_succ_self _
    · exact Nat.lt_succ_of_lt (hlt i hi)
  · rw [htk]
    exact h.balance
  · rw [hst]
    intro i hi
    rcases Multiset.mem_cons.mp hi with rfl | hi
    · intro hreturned
      have hmem : s.rear ∈ Multiset.range s.front := by
        rw [← h.balance]
        exact Multiset.mem_add.mpr (Or.inr (Multiset.mem_coe.mpr hreturned))
      exact absurd (Multiset.mem_range.mp hmem) (not_lt.mpr horder)
    · exact h.unread i (hst' ▸ hi)
  · rw [hst]
    intro i x hmem hi
    have hmem : .popSecond i x ∈ others := by
      rcases Multiset.mem_cons.mp hmem with heq | hmem
      · cases heq
      · exact hmem
    have hold := h.loading i x (Multiset.mem_cons_of_mem hmem)
    rcases Multiset.mem_cons.mp hi with rfl | hi
    · have htaken : s.rear ∈ takenBy (.addClaim pair s.rear ::ₘ others) := by
        refine Multiset.mem_bind.mpr ⟨_, Multiset.mem_cons_of_mem hmem, ?_⟩
        exact Multiset.mem_singleton_self _
      exact absurd (h.lt_of_taken htaken) (not_lt.mpr horder)
    · exact hold (hst' ▸ hi)
  · intro p i hmem
    rcases Multiset.mem_cons.mp hmem with heq | hmem
    · cases heq
    · exact h.half p i (Multiset.mem_cons_of_mem hmem)
  · rw [hst, htk, hun]
    intro j hj i hi hji hslot
    rcases Nat.lt_succ_iff_lt_or_eq.mp hi with hi | rfl
    · refine Multiset.mem_cons_of_mem (hun' ▸ h.later j ?_ i hi hji hslot)
      rcases hj with hj | hj
      · rcases Multiset.mem_cons.mp hj with rfl | hj
        · omega
        · exact Or.inl (hst'.symm ▸ hj)
      · exact Or.inr hj
    · exact Multiset.mem_cons_self _ _
  · rw [hst, htk]
    intro i hi hnot hopen
    have hne : i ≠ s.rear := fun heq => hnot (heq ▸ Multiset.mem_cons_self _ _)
    have hold : i ∉ storedBy (.addClaim pair s.rear ::ₘ others) := by
      rw [hst']
      exact fun hmem => hnot (Multiset.mem_cons_of_mem hmem)
    have hi' : i < s.rear := by
      have : i < s.rear + 1 := hi
      omega
    obtain ⟨p, hp, hfirst, hsecond⟩ := h.content i hi' hold hopen
    exact ⟨p, hplaced i p hp, hfirst, hsecond⟩
  · intro r hr
    obtain ⟨p, hp, heq⟩ := h.genuine r hr
    exact ⟨p, hplaced r.1 p hp, heq⟩

/-- Before its first store, no earlier place with the slot of `i` is open. -/
theorem Inv.none_open {pair : CudaPair α β} {i : Nat} (h : Inv s (.addFirst pair i ::ₘ others))
    (hclean : Clean s others (.addFirst pair i)) {j : Nat}
    (hj : j ∈ storedBy (.addFirst pair i ::ₘ others) ∨ j ∈ takenBy (.addFirst pair i ::ₘ others))
    (hji : j < i) (hslot : s.slot i = s.slot j) : False := by
  have htaken (hj : j ∈ takenBy (.addFirst pair i ::ₘ others)) : False := by
    obtain ⟨e, he, hje⟩ := Multiset.mem_bind.mp hj
    rcases Multiset.mem_cons.mp he with rfl | he
    · exact absurd hje (Multiset.notMem_zero j)
    · exact absurd (hclean e he j hje hslot.symm) (Nat.ne_of_lt hji)
  have hi : i ∈ storedBy (.addFirst pair i ::ₘ others) := by
    simp [storedBy_cons, Pc.storing, Pc.unbegun, Pc.begun]
  rcases hj with hj | hj
  · by_cases hlt : j < s.front
    · exact htaken (h.taken_of_stored hj hlt)
    · exact h.window_ne (not_lt.mp hlt) hji (h.claimed.2 i hi) hslot
  · exact htaken hj

theorem Inv.storeFirst {pair : CudaPair α β} {i : Nat} (h : Inv s (.addFirst pair i ::ₘ others))
    (hclean : Clean s others (.addFirst pair i)) :
    Inv { s with first := Function.update s.first (s.slot i) (some pair.first) }
      (.addSecond pair i ::ₘ others) := by
  have hun : unbegunBy (.addFirst pair i ::ₘ others) = i ::ₘ unbegunBy others := by
    simp [unbegunBy_cons, Pc.unbegun]
  have hun' : unbegunBy (.addSecond pair i ::ₘ others) = unbegunBy others := by
    simp [unbegunBy_cons, Pc.unbegun]
  have hst : storedBy (.addSecond pair i ::ₘ others) = storedBy (.addFirst pair i ::ₘ others) := by
    simp [storedBy_cons, Pc.storing, Pc.unbegun, Pc.begun]
  have htk : takenBy (.addSecond pair i ::ₘ others) = takenBy (.addFirst pair i ::ₘ others) := by
    simp [takenBy_cons, Pc.taking]
  have hstored : i ∈ storedBy (.addFirst pair i ::ₘ others) :=
    Inv.unbegun_stored (hun ▸ Multiset.mem_cons_self _ _)
  have hrear := h.claimed.2 i hstored
  -- a later place with this slot has not begun either
  have hlater {k : Nat} (hk : k < s.rear) (hik : i < k) (hslot : s.slot k = s.slot i) :
      k ∈ unbegunBy (.addFirst pair i ::ₘ others) :=
    h.later i (Or.inl hstored) k hk hik hslot
  have hok : (Pc.addSecond pair i).Ok
      { s with first := Function.update s.first (s.slot i) (some pair.first) } :=
    h.ok (.addFirst pair i) (Multiset.mem_cons_self _ _)
  refine ⟨h.capacity, h.order, h.room, h.length, ?_, ?_, ?_, ?_, ?_, ?_, ?_, ?_, h.genuine⟩
  · exact h.ok_others (le_refl _) (le_refl _) rfl (fun _ _ hp => hp) hok
  · rw [hst]
    exact h.claimed
  · rw [htk]
    exact h.balance
  · rw [hst]
    exact h.unread
  · rw [hst]
    intro j x hmem
    rcases Multiset.mem_cons.mp hmem with heq | hmem
    · cases heq
    · exact h.loading j x (Multiset.mem_cons_of_mem hmem)
  · intro p k hmem
    rcases Multiset.mem_cons.mp hmem with heq | hmem
    · obtain ⟨rfl, rfl⟩ := Pc.addSecond.inj heq
      exact Function.update_self _ _ _
    · have hbegun : k ∈ begunBy (.addFirst pair i ::ₘ others) :=
        Multiset.mem_bind.mpr ⟨_, Multiset.mem_cons_of_mem hmem, Multiset.mem_singleton_self k⟩
      have hne : s.slot k ≠ s.slot i := by
        intro hslot
        rcases Nat.lt_trichotomy k i with hki | rfl | hik
        · exact h.none_open hclean (Or.inl (Inv.begun_stored hbegun)) hki hslot.symm
        · exact h.not_unbegun hbegun (hun ▸ Multiset.mem_cons_self _ _)
        · have hk := h.claimed.2 k (Inv.begun_stored hbegun)
          exact h.not_unbegun hbegun (hlater hk hik hslot)
      exact (Function.update_of_ne hne _ _).trans (h.half p k (Multiset.mem_cons_of_mem hmem))
  · rw [hst, htk, hun']
    intro j hj k hk hjk hslot
    have hmem := h.later j hj k hk hjk hslot
    rw [hun] at hmem
    rcases Multiset.mem_cons.mp hmem with rfl | hmem
    · exact (h.none_open hclean hj hjk hslot).elim
    · exact hmem
  · rw [hst, htk]
    intro k hk hnot hopen
    obtain ⟨p, hp, hfirst, hsecond⟩ := h.content k hk hnot hopen
    have hne : s.slot k ≠ s.slot i := by
      intro hslot
      rcases Nat.lt_trichotomy k i with hki | rfl | hik
      · rcases hopen with hfront | htaken
        · exact h.window_ne hfront hki hrear hslot.symm
        · exact h.none_open hclean (Or.inr htaken) hki hslot.symm
      · exact hnot hstored
      · exact hnot (Inv.unbegun_stored (hlater hk hik hslot))
    exact ⟨p, hp, (Function.update_of_ne hne _ _).trans hfirst, hsecond⟩

theorem Inv.storeSecond {pair : CudaPair α β} {i : Nat}
    (h : Inv s (.addSecond pair i ::ₘ others)) :
    Inv { s with second := Function.update s.second (s.slot i) (some pair.second) }
      (.added (some i) ::ₘ others) := by
  have hun : unbegunBy (.added (some i) ::ₘ others) = unbegunBy (.addSecond pair i ::ₘ others) := by
    simp [unbegunBy_cons, Pc.unbegun]
  have hst : storedBy (.addSecond pair i ::ₘ others) = i ::ₘ storedBy others := by
    simp [storedBy_cons, Pc.storing, Pc.unbegun, Pc.begun]
  have hst' : storedBy ((.added (some i) : Pc α β) ::ₘ others) = storedBy others := by
    simp [storedBy_cons, Pc.storing, Pc.unbegun, Pc.begun]
  have htk : takenBy (.added (some i) ::ₘ others) = takenBy (.addSecond pair i ::ₘ others) := by
    simp [takenBy_cons, Pc.taking]
  have hbegun : i ∈ begunBy (.addSecond pair i ::ₘ others) := by
    simp [begunBy_cons, Pc.begun]
  have hstored := Inv.begun_stored hbegun
  have hrear := h.claimed.2 i hstored
  obtain ⟨hnodup, hlt⟩ := h.claimed
  rw [hst] at hnodup hlt
  have hsub {j : Nat} (hj : j ∈ storedBy others) : j ∈ storedBy (.addSecond pair i ::ₘ others) :=
    hst ▸ Multiset.mem_cons_of_mem hj
  refine ⟨h.capacity, h.order, h.room, h.length, ?_, ?_, ?_, ?_, ?_, ?_, ?_, ?_, h.genuine⟩
  · exact h.ok_others (le_refl _) (le_refl _) rfl (fun _ _ hp => hp) trivial
  · rw [hst']
    exact ⟨(Multiset.nodup_cons.mp hnodup).2, fun j hj => hlt j (Multiset.mem_cons_of_mem hj)⟩
  · rw [htk]
    exact h.balance
  · rw [hst']
    exact fun j hj => h.unread j (hsub hj)
  · rw [hst']
    intro j x hmem hj
    rcases Multiset.mem_cons.mp hmem with heq | hmem
    · cases heq
    · exact h.loading j x (Multiset.mem_cons_of_mem hmem) (hsub hj)
  · intro p k hmem
    rcases Multiset.mem_cons.mp hmem with heq | hmem
    · cases heq
    · exact h.half p k (Multiset.mem_cons_of_mem hmem)
  · rw [hst', htk, hun]
    exact fun j hj => h.later j (hj.imp hsub id)
  · rw [hst', htk]
    intro k hk hnot hopen
    by_cases hki : k = i
    · subst hki
      refine ⟨pair, h.ok _ (Multiset.mem_cons_self _ _), ?_, Function.update_self _ _ _⟩
      exact h.half pair k (Multiset.mem_cons_self _ _)
    · have hnot' : k ∉ storedBy (.addSecond pair i ::ₘ others) := by
        rw [hst]
        intro hmem
        exact hnot ((Multiset.mem_cons.mp hmem).resolve_left hki)
      obtain ⟨p, hp, hfirst, hsecond⟩ := h.content k hk hnot' hopen
      have hne : s.slot k ≠ s.slot i := by
        intro hslot
        rcases Nat.lt_or_gt_of_ne hki with hlt | hgt
        · rcases hopen with hfront | htaken
          · exact h.window_ne hfront hlt hrear hslot.symm
          · exact h.not_unbegun hbegun (h.later k (Or.inr htaken) i hrear hlt hslot.symm)
        · exact hnot' (Inv.unbegun_stored (h.later i (Or.inl hstored) k hk hgt hslot))
      exact ⟨p, hp, hfirst, (Function.update_of_ne hne _ _).trans hsecond⟩

/-- `atomicCAS (front, ...)` succeeds. -/
theorem Inv.claimFront {rear : Nat} (h : Inv s (.popClaim rear s.front ::ₘ others)) :
    Inv { s with front := s.front + 1 } (.popFirst s.front ::ₘ others) := by
  obtain ⟨_, hlt⟩ := h.ok _ (Multiset.mem_cons_self _ _)
  have hroom := h.room
  have hun : unbegunBy (.popFirst s.front ::ₘ others) =
      unbegunBy (.popClaim rear s.front ::ₘ others) := by
    simp [unbegunBy_cons, Pc.unbegun]
  have hst : storedBy (.popFirst s.front ::ₘ others) =
      storedBy (.popClaim rear s.front ::ₘ others) := by
    simp [storedBy_cons, Pc.storing, Pc.unbegun, Pc.begun]
  have htk : takenBy (.popFirst s.front ::ₘ others) =
      s.front ::ₘ takenBy (.popClaim rear s.front ::ₘ others) := by
    simp [takenBy_cons, Pc.taking]
  refine ⟨h.capacity, hlt, ?_, h.length, ?_, ?_, ?_, ?_, ?_, ?_, ?_, ?_, h.genuine⟩
  · exact hroom.trans (Nat.add_le_add_right (Nat.le_succ _) _)
  · exact h.ok_others (le_refl _) (Nat.le_succ _) rfl (fun _ _ hp => hp) trivial
  · rw [hst]
    exact h.claimed
  · rw [htk, Multiset.cons_add, h.balance]
    exact (Multiset.range_succ _).symm
  · rw [hst]
    exact h.unread
  · rw [hst]
    intro j x hmem
    rcases Multiset.mem_cons.mp hmem with heq | hmem
    · cases heq
    · exact h.loading j x (Multiset.mem_cons_of_mem hmem)
  · intro p k hmem
    rcases Multiset.mem_cons.mp hmem with heq | hmem
    · cases heq
    · exact h.half p k (Multiset.mem_cons_of_mem hmem)
  · rw [hst, htk, hun]
    intro j hj k hk hjk hslot
    rcases hj with hj | hj
    · exact h.later j (Or.inl hj) k hk hjk hslot
    · rcases Multiset.mem_cons.mp hj with rfl | hj
      · exact absurd hslot (h.window_ne (le_refl _) hjk hk)
      · exact h.later j (Or.inr hj) k hk hjk hslot
  · rw [hst, htk]
    intro k hk hnot hopen
    rcases hopen with hfront | htaken
    · exact h.content k hk hnot (Or.inl (Nat.le_of_succ_le hfront))
    · rcases Multiset.mem_cons.mp htaken with rfl | htaken
      · exact h.content s.front hk hnot (Or.inl (le_refl _))
      · exact h.content k hk hnot (Or.inr htaken)

theorem Inv.loadFirst {i : Nat} (h : Inv s (.popFirst i ::ₘ others))
    (hclean : Clean s others (.popFirst i)) :
    Inv s (.popSecond i (s.first (s.slot i)) ::ₘ others) := by
  have hun : unbegunBy (.popSecond i (s.first (s.slot i)) ::ₘ others) =
      unbegunBy (.popFirst i ::ₘ others) := by
    simp [unbegunBy_cons, Pc.unbegun]
  have hst : storedBy (.popSecond i (s.first (s.slot i)) ::ₘ others) =
      storedBy (.popFirst i ::ₘ others) := by
    simp [storedBy_cons, Pc.storing, Pc.unbegun, Pc.begun]
  have htk : takenBy (.popSecond i (s.first (s.slot i)) ::ₘ others) =
      takenBy (.popFirst i ::ₘ others) := by
    simp [takenBy_cons, Pc.taking]
  have htaken : i ∈ takenBy (.popFirst i ::ₘ others) := by
    simp [takenBy_cons, Pc.taking]
  have hstored : i ∉ storedBy (.popFirst i ::ₘ others) := by
    intro hmem
    obtain ⟨e, he, hie⟩ := Multiset.mem_bind.mp hmem
    rcases Multiset.mem_cons.mp he with rfl | he
    · exact Multiset.notMem_zero i hie
    · exact hclean e he hie
  have hrear : i < s.rear := (h.lt_of_taken htaken).trans_le h.order
  obtain ⟨pair, hpair, hfirst, _⟩ := h.content i hrear hstored (Or.inr htaken)
  refine ⟨h.capacity, h.order, h.room, h.length, ?_, ?_, ?_, ?_, ?_, ?_, ?_, ?_, h.genuine⟩
  · exact h.ok_others (le_refl _) (le_refl _) rfl (fun _ _ hp => hp) ⟨pair, hpair, hfirst⟩
  · rw [hst]
    exact h.claimed
  · rw [htk]
    exact h.balance
  · rw [hst]
    exact h.unread
  · rw [hst]
    intro j x hmem
    rcases Multiset.mem_cons.mp hmem with heq | hmem
    · obtain ⟨rfl, _⟩ := Pc.popSecond.inj heq
      exact hstored
    · exact h.loading j x (Multiset.mem_cons_of_mem hmem)
  · intro p k hmem
    rcases Multiset.mem_cons.mp hmem with heq | hmem
    · cases heq
    · exact h.half p k (Multiset.mem_cons_of_mem hmem)
  · rw [hst, htk, hun]
    exact h.later
  · rw [hst, htk]
    exact h.content

theorem Inv.loadSecond {i : Nat} {x : Option α} (h : Inv s (.popSecond i x ::ₘ others)) :
    Inv { s with returned := s.returned ++ [(i, x, s.second (s.slot i))] }
      (.popped (some (i, x, s.second (s.slot i))) ::ₘ others) := by
  let d : Pc α β := .popped (some (i, x, s.second (s.slot i)))
  have hun : unbegunBy (d ::ₘ others) = unbegunBy (.popSecond i x ::ₘ others) := by
    simp [unbegunBy_cons, Pc.unbegun, d]
  have hst : storedBy (d ::ₘ others) = storedBy (.popSecond i x ::ₘ others) := by
    simp [storedBy_cons, Pc.storing, Pc.unbegun, Pc.begun, d]
  have htk : takenBy (.popSecond i x ::ₘ others) = i ::ₘ takenBy (d ::ₘ others) := by
    simp [takenBy_cons, Pc.taking, d]
  have hself : .popSecond i x ∈ Pc.popSecond i x ::ₘ others := Multiset.mem_cons_self _ _
  have htaken : i ∈ takenBy (.popSecond i x ::ₘ others) := htk ▸ Multiset.mem_cons_self _ _
  have hstored := h.loading i x hself
  have hrear : i < s.rear := (h.lt_of_taken htaken).trans_le h.order
  have hsub {j : Nat} (hj : j ∈ takenBy (d ::ₘ others)) :
      j ∈ takenBy (.popSecond i x ::ₘ others) := htk ▸ Multiset.mem_cons_of_mem hj
  refine ⟨h.capacity, h.order, h.room, h.length, ?_, ?_, ?_, ?_, ?_, ?_, ?_, ?_, ?_⟩
  · exact h.ok_others (le_refl _) (le_refl _) rfl (fun _ _ hp => hp) trivial
  · rw [hst]
    exact h.claimed
  · have hbalance := h.balance
    rw [htk] at hbalance
    rw [List.map_append, ← Multiset.coe_add, ← add_assoc, ← hbalance, Multiset.cons_add]
    exact add_comm _ _
  · rw [hst]
    intro j hj hmem
    rw [List.map_append] at hmem
    rcases List.mem_append.mp hmem with hmem | hmem
    · exact h.unread j hj hmem
    · obtain rfl := List.mem_singleton.mp hmem
      exact hstored hj
  · rw [hst]
    intro j y hmem
    rcases Multiset.mem_cons.mp hmem with heq | hmem
    · cases heq
    · exact h.loading j y (Multiset.mem_cons_of_mem hmem)
  · intro p k hmem
    rcases Multiset.mem_cons.mp hmem with heq | hmem
    · cases heq
    · exact h.half p k (Multiset.mem_cons_of_mem hmem)
  · rw [hst, hun]
    exact fun j hj => h.later j (hj.imp id hsub)
  · rw [hst]
    exact fun k hk hnot hopen => h.content k hk hnot (hopen.imp id hsub)
  · intro r hr
    rcases List.mem_append.mp hr with hr | hr
    · exact h.genuine r hr
    · obtain rfl := List.mem_singleton.mp hr
      obtain ⟨pair, hpair, rfl⟩ := h.ok _ hself
      obtain ⟨pair', hpair', _, hsecond⟩ := h.content i hrear hstored (Or.inr htaken)
      obtain rfl := Option.some.inj (hpair.symm.trans hpair')
      exact ⟨pair, hpair, Prod.ext rfl hsecond⟩

theorem Inv.move (h : Inv s (c ::ₘ others)) (hclean : Clean s others c)
    (hmove : s.move c = some (t, d)) : Inv t (d ::ₘ others) := by
  have hc := h.ok c (Multiset.mem_cons_self _ _)
  cases c with
  | add pair =>
    obtain ⟨rfl, rfl⟩ := Prod.mk.inj (Option.some.inj hmove)
    split
    · exact h.advance rfl rfl rfl trivial (fun _ _ => nofun) (fun _ _ => nofun)
    · exact h.advance rfl rfl rfl trivial (fun _ _ => nofun) (fun _ _ => nofun)
  | addRear pair =>
    obtain ⟨rfl, rfl⟩ := Prod.mk.inj (Option.some.inj hmove)
    exact h.advance rfl rfl rfl (le_refl s.rear) (fun _ _ => nofun) (fun _ _ => nofun)
  | addFront pair rear =>
    obtain ⟨rfl, rfl⟩ := Prod.mk.inj (Option.some.inj hmove)
    split
    · exact h.advance rfl rfl rfl trivial (fun _ _ => nofun) (fun _ _ => nofun)
    · rename_i hroom
      have hrear : rear ≤ s.rear := hc
      obtain ⟨k, hk, hcapacity⟩ := h.capacity
      have hsmall : s.mCapacity ≤ 2 ^ 30 :=
        hcapacity ▸ Nat.pow_le_pow_right Nat.two_pos hk
      have hheld := h.room
      have hok : s.front ≤ rear → rear < s.front + s.mCapacity := by
        intro hle
        rw [distance_eq hle (by omega)] at hroom
        omega
      exact h.advance rfl rfl rfl ⟨hrear, hok⟩ (fun _ _ => nofun) (fun _ _ => nofun)
  | addClaim pair rear =>
    simp only [Ring.move] at hmove
    split at hmove
    · rename_i hcounter
      obtain rfl := hclean hcounter
      obtain ⟨rfl, rfl⟩ := Prod.mk.inj (Option.some.inj hmove)
      exact h.claimRear
    · obtain ⟨rfl, rfl⟩ := Prod.mk.inj (Option.some.inj hmove)
      exact h.advance rfl rfl rfl trivial (fun _ _ => nofun) (fun _ _ => nofun)
  | addFirst pair i =>
    obtain ⟨rfl, rfl⟩ := Prod.mk.inj (Option.some.inj hmove)
    exact h.storeFirst hclean
  | addSecond pair i =>
    obtain ⟨rfl, rfl⟩ := Prod.mk.inj (Option.some.inj hmove)
    exact h.storeSecond
  | popRear =>
    obtain ⟨rfl, rfl⟩ := Prod.mk.inj (Option.some.inj hmove)
    exact h.advance rfl rfl rfl (le_refl s.rear) (fun _ _ => nofun) (fun _ _ => nofun)
  | popFront rear =>
    obtain ⟨rfl, rfl⟩ := Prod.mk.inj (Option.some.inj hmove)
    split
    · exact h.advance rfl rfl rfl trivial (fun _ _ => nofun) (fun _ _ => nofun)
    · rename_i hsome
      have hrear : rear ≤ s.rear := hc
      have hfront : s.front ≤ rear := hclean
      have hne : rear ≠ s.front := by
        rintro rfl
        exact hsome (distance_self _)
      exact h.advance rfl rfl rfl ⟨hrear, by omega⟩ (fun _ _ => nofun) (fun _ _ => nofun)
  | popClaim rear front =>
    simp only [Ring.move] at hmove
    split at hmove
    · rename_i hcounter
      obtain rfl := hclean hcounter
      obtain ⟨rfl, rfl⟩ := Prod.mk.inj (Option.some.inj hmove)
      exact h.claimFront
    · obtain ⟨rfl, rfl⟩ := Prod.mk.inj (Option.some.inj hmove)
      exact h.advance rfl rfl rfl hc.1 (fun _ _ => nofun) (fun _ _ => nofun)
  | popFirst i =>
    obtain ⟨rfl, rfl⟩ := Prod.mk.inj (Option.some.inj hmove)
    exact h.loadFirst hclean
  | popSecond i x =>
    obtain ⟨rfl, rfl⟩ := Prod.mk.inj (Option.some.inj hmove)
    exact h.loadSecond
  | added place => cases hmove
  | popped pair => cases hmove

end Steps

section Runs
variable {s : Ring α β} {calls : Multiset (Pc α β)}

/-- A call that has no place yet, such as one that begins. -/
theorem Inv.cons (h : Inv s calls) {c : Pc α β} (hunbegun : c.unbegun = 0) (hbegun : c.begun = 0)
    (htaking : c.taking = 0) (hok : c.Ok s) : Inv s (c ::ₘ calls) := by
  have hun : unbegunBy (c ::ₘ calls) = unbegunBy calls := by
    rw [unbegunBy_cons, hunbegun, zero_add]
  have hst : storedBy (c ::ₘ calls) = storedBy calls := by
    rw [storedBy_cons, Pc.storing, hunbegun, hbegun, zero_add, zero_add]
  have htk : takenBy (c ::ₘ calls) = takenBy calls := by
    rw [takenBy_cons, htaking, zero_add]
  refine ⟨h.capacity, h.order, h.room, h.length, ?_, ?_, ?_, ?_, ?_, ?_, ?_, ?_, h.genuine⟩
  · intro e he
    rcases Multiset.mem_cons.mp he with rfl | he
    · exact hok
    · exact h.ok e he
  · rw [hst]
    exact h.claimed
  · rw [htk]
    exact h.balance
  · rw [hst]
    exact h.unread
  · rw [hst]
    intro i x hmem
    rcases Multiset.mem_cons.mp hmem with rfl | hmem
    · exact absurd htaking (Multiset.singleton_ne_zero i)
    · exact h.loading i x hmem
  · intro pair i hmem
    rcases Multiset.mem_cons.mp hmem with rfl | hmem
    · exact absurd hbegun (Multiset.singleton_ne_zero i)
    · exact h.half pair i hmem
  · rw [hst, htk, hun]
    exact h.later
  · rw [hst, htk]
    exact h.content

theorem Inv.call (h : Inv s calls) {c : Pc α β} (hc : c.Enters) : Inv s (c ::ₘ calls) := by
  cases c with
  | add pair => exact h.cons rfl rfl rfl trivial
  | popRear => exact h.cons rfl rfl rfl trivial
  | _ => exact hc.elim

theorem Inv.step {x y : System α β} (h : Inv x.ring x.calls) (hstep : CleanStep x y) :
    Inv y.ring y.calls := by
  cases hstep with
  | call hc => exact h.call hc
  | move hclean hmove => exact h.move hclean hmove

theorem Inv.isQueue (h : Inv s calls) : IsQueue s calls := by
  have hmem {i : Nat} (hi : i ∈ s.returned.map Prod.fst) : i < s.front := by
    rw [← Multiset.mem_range, ← h.balance]
    exact Multiset.mem_add.mpr (Or.inr (Multiset.mem_coe.mpr hi))
  refine ⟨h.order, h.room, h.length, ?_, ?_, h.genuine, ?_⟩
  · have hnodup := Multiset.nodup_range s.front
    rw [← h.balance, Multiset.nodup_add] at hnodup
    exact Multiset.coe_nodup.mp hnodup.2.1
  · exact fun r hr => hmem (List.mem_map_of_mem hr)
  · intro hquiet i hi
    have hnone : takenBy calls = 0 := by
      refine Multiset.eq_zero_of_forall_notMem fun j hj => ?_
      obtain ⟨c, hc, hjc⟩ := Multiset.mem_bind.mp hj
      have hreturned := hquiet c hc
      cases c with
      | popFirst k => exact hreturned
      | popSecond k x => exact hreturned
      | _ => exact Multiset.notMem_zero j hjc
    have hbalance := h.balance
    rw [hnone, zero_add] at hbalance
    rw [← Multiset.mem_range, ← hbalance] at hi
    exact Multiset.mem_coe.mp hi

end Runs

/-- As long as no step runs into one of the races, a ring whose capacity is a power of 2 is a
queue at every moment. -/
theorem isQueue_of_clean {k : Nat} (hk : k ≤ 30) {x : System α β}
    (h : Relation.ReflTransGen CleanStep ⟨.new (2 ^ k), 0⟩ x) : IsQueue x.ring x.calls := by
  have hinv : Inv x.ring x.calls :=
    run_invariant (P := fun y : System α β => Inv y.ring y.calls)
      (fun _ _ hy hstep => hy.step hstep) (Inv.new hk) h
  exact hinv.isQueue

/-- A pair is added and popped. -/
theorem isQueue_add_pop : ∃ x : System Nat Nat,
    Relation.ReflTransGen CleanStep ⟨.new 2, 0⟩ x ∧ x.ring.returned = [(0, some 7, some 0)] ∧
    IsQueue x.ring x.calls := by
  have hrun : Relation.ReflTransGen CleanStep (⟨.new 2, 0⟩ : System Nat Nat)
      ⟨_, .add ⟨7, 0⟩ ::ₘ 0⟩ := .single (.call trivial)
  have hrun := hrun.tail (.move trivial rfl)
  have hrun := hrun.tail (.move trivial rfl)
  have hrun := hrun.tail (.move trivial rfl)
  have hrun := hrun.tail (.move (fun _ => rfl) rfl)
  have hrun := hrun.tail (.move (fun _ hc => absurd hc (Multiset.notMem_zero _)) rfl)
  have hrun := hrun.tail (.move trivial rfl)
  have hrun := hrun.tail (.call (c := .popRear) trivial)
  have hrun := hrun.tail (.move trivial rfl)
  have hrun := hrun.tail (.move (Nat.zero_le _) rfl)
  have hrun := hrun.tail (.move (fun _ => rfl) rfl)
  have hrun := hrun.tail (.move (fun c hc hi => by
    obtain rfl := Multiset.mem_singleton.mp hc
    exact Multiset.notMem_zero 0 hi) rfl)
  have hrun := hrun.tail (.move trivial rfl)
  exact ⟨_, hrun, rfl, isQueue_of_clean (k := 1) (by decide) hrun⟩

/-- One call loads `rear` while the ring is empty; a pair is added and popped by others, and then
the call finds `front` past the `rear` it loaded, takes the ring for not empty and pops. -/
theorem front_passes_rear : ¬ ∀ k ≤ 30, ∀ x : System Nat Nat,
    Relation.ReflTransGen AnyStep ⟨.new (2 ^ k), 0⟩ x → IsQueue x.ring x.calls := by
  intro h
  have hrun : Relation.ReflTransGen AnyStep (⟨.new (2 ^ 1), 0⟩ : System Nat Nat)
      ⟨_, .popRear ::ₘ 0⟩ := .single (.call trivial)
  have hrun := hrun.tail (.move trivial rfl)
  have hrun := hrun.tail (.call (c := .add ⟨7, 0⟩) trivial)
  have hrun := hrun.tail (.move trivial rfl)
  have hrun := hrun.tail (.move trivial rfl)
  have hrun := hrun.tail (.move trivial rfl)
  have hrun := hrun.tail (.move trivial rfl)
  have hrun := hrun.tail (.move trivial rfl)
  have hrun := hrun.tail (.move trivial rfl)
  have hrun := hrun.tail (.call (c := .popRear) trivial)
  have hrun := hrun.tail (.move trivial rfl)
  have hrun := hrun.tail (.move trivial rfl)
  have hrun := hrun.tail (.move trivial rfl)
  have hrun : Relation.ReflTransGen AnyStep (⟨.new (2 ^ 1), 0⟩ : System Nat Nat)
      ⟨_, Pc.popFirst 0 ::ₘ Pc.added (some 0) ::ₘ Pc.popFront 0 ::ₘ 0⟩ := hrun
  rw [Multiset.cons_swap (Pc.added (some 0)), Multiset.cons_swap (Pc.popFirst 0)] at hrun
  have hpassed : distance 0 1 ≠ 0 := by
    unfold distance
    omega
  have hrun := hrun.tail (.move trivial (Ring.move_popFront hpassed))
  have hrun := hrun.tail (.move trivial rfl)
  have horder := (h 1 (by decide) _ hrun).order
  exact Nat.not_succ_le_self 1 horder

end CudaNs3.Device.PairList
