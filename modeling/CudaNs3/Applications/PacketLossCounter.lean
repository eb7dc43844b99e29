import Mathlib.Data.List.Infix
import CudaNs3.Lib.BitStrings
import CudaNs3.Lib.MovingWindow
import CudaNs3.Lib.Transition

/-!
# The packet loss counter

`PacketLossCounter` counts the packets of a numbered stream that were not received while they
were in the window. It has one bit for each place of the window: the bit of a number is cleared
when the highest number received passes it, set when the number is received, and read when the
number one window later passes.
-/

namespace CudaNs3.Applications

set_option autoImplicit false

structure PacketLossCounter where
  lost : BitVec 32
  /-- In bytes. -/
  bitMapSize : Nat
  lastMaxSeqNum : BitVec 32
  receiveBitMap : List (BitVec 8)
  sized : receiveBitMap.length = bitMapSize

namespace PacketLossCounter

/-- What the constructor starts from, before it sets the size of the window. -/
def blank : PacketLossCounter where
  lost := 0
  bitMapSize := 0
  lastMaxSeqNum := 0
  receiveBitMap := []
  sized := rfl

/-- `none` when the size is not a multiple of 8. -/
def setBitMapSize (c : PacketLossCounter) (winSize : BitVec 16) : Option PacketLossCounter :=
  if winSize.toNat % 8 = 0 then
    some { c with
      bitMapSize := winSize.toNat / 8
      receiveBitMap := List.replicate (winSize.toNat / 8) 0xFF
      sized := List.length_replicate }
  else none

def getBitMapSize (c : PacketLossCounter) : Nat := c.bitMapSize * 8

def getLost (c : PacketLossCounter) : BitVec 32 := c.lost

def getBit (c : PacketLossCounter) (seqNum : BitVec 32) : Bool :=
  let byte := c.receiveBitMap.getD (seqNum.toNat % (c.bitMapSize * 8) / 8) 0
  decide ((byte >>> (7 - seqNum.toNat % 8)) &&& 0x01 ≠ 0)

def setBit (c : PacketLossCounter) (seqNum : BitVec 32) (val : Bool) : PacketLossCounter :=
  let mask := 0x80#8 >>> (seqNum.toNat % 8)
  { c with
    receiveBitMap := c.receiveBitMap.modify (seqNum.toNat % (c.bitMapSize * 8) / 8) fun byte =>
      if val then byte ||| mask else byte &&& ~~~mask
    sized := by rw [List.length_modify, c.sized] }

/-- The body of the loop. -/
def passNumber (c : PacketLossCounter) (i : BitVec 32) : PacketLossCounter :=
  let c := if c.getBit i ≠ true then { c with lost := c.lost + 1 } else c
  c.setBit i false

/-- The loop from the counter `i` on; `none` when it is not over after so many rounds. -/
def passNumbers : Nat → PacketLossCounter → BitVec 32 → BitVec 32 → Option PacketLossCounter
  | 0, _, _, _ => none
  | rounds + 1, c, i, seqNum =>
    if i ≤ seqNum then passNumbers rounds (c.passNumber i) (i + 1) seqNum else some c

def notifyReceived (rounds : Nat) (c : PacketLossCounter) (seqNum : BitVec 32) :
    Option PacketLossCounter :=
  (passNumbers rounds c (c.lastMaxSeqNum + 1) seqNum).map fun c =>
    let c := c.setBit seqNum true
    if c.lastMaxSeqNum < seqNum then { c with lastMaxSeqNum := seqNum } else c

end PacketLossCounter

/-! ### What is to be counted -/

/-- The largest number received so far. -/
def largest (calls : List (BitVec 32)) : Nat := calls.foldl (fun most s => max most s.toNat) 0

/-- The number was received before the largest one first reached `n + W`. -/
def InTime (W : Nat) (calls : List (BitVec 32)) (n : Nat) : Prop :=
  ∃ done ∈ calls.inits, largest done < n + W ∧ n ∈ done.map BitVec.toNat

/-- There is a last call, and `p` holds of its number. -/
def LastIs (calls : List (BitVec 32)) (p : BitVec 32 → Prop) : Prop := ∃ s ∈ calls.getLast?, p s

/-- At some call the number was in the window and the number received had the residue of it. -/
def Touched (W : Nat) (calls : List (BitVec 32)) (n : Nat) : Prop :=
  ∃ done ∈ calls.inits, n ≤ largest done ∧ largest done < n + W ∧
    LastIs done fun s => n % W = s.toNat % W

/-- The same, where the number received was an older one. -/
def TouchedLate (W : Nat) (calls : List (BitVec 32)) (n : Nat) : Prop :=
  ∃ done ∈ calls.inits, n ≤ largest done ∧ largest done < n + W ∧
    LastIs done fun s => s.toNat < n ∧ n % W = s.toNat % W

instance LastIs.decidable (calls : List (BitVec 32)) {p : BitVec 32 → Prop} [DecidablePred p] :
    Decidable (LastIs calls p) :=
  decidable_of_iff (calls.getLast?.any p = true) (by simp [LastIs, Option.any_eq_true])

instance (W : Nat) (calls : List (BitVec 32)) : DecidablePred (InTime W calls) :=
  fun n => inferInstanceAs (Decidable (∃ done ∈ calls.inits, largest done < n + W ∧
    n ∈ done.map BitVec.toNat))

instance (W : Nat) (calls : List (BitVec 32)) : DecidablePred (Touched W calls) :=
  fun n => inferInstanceAs (Decidable (∃ done ∈ calls.inits, n ≤ largest done ∧
    largest done < n + W ∧ LastIs done fun s => n % W = s.toNat % W))

instance (W : Nat) (calls : List (BitVec 32)) : DecidablePred (TouchedLate W calls) :=
  fun n => inferInstanceAs (Decidable (∃ done ∈ calls.inits, n ≤ largest done ∧
    largest done < n + W ∧ LastIs done fun s => s.toNat < n ∧ n % W = s.toNat % W))

/-- The numbers that had not been received when the largest one reached the next window. -/
def lostNumbers (W : Nat) (calls : List (BitVec 32)) : Nat :=
  MovingWindow.missed W (largest calls) (InTime W calls)

section Calls
variable {W n : Nat} {calls done : List (BitVec 32)} {s : BitVec 32}

theorem largest_concat : largest (calls ++ [s]) = max (largest calls) s.toNat := by
  rw [largest, List.foldl_append]
  rfl

theorem le_largest (h : s ∈ calls) : s.toNat ≤ largest calls := by
  induction calls using List.reverseRecOn with
  | nil => exact absurd h List.not_mem_nil
  | append_singleton calls t ih =>
    rw [largest_concat]
    rcases List.mem_append.mp h with hold | hnew
    · exact (ih hold).trans (Nat.le_max_left _ _)
    · obtain rfl := List.mem_singleton.mp hnew
      exact Nat.le_max_right _ _

theorem largest_mono (h : done <+: calls) : largest done ≤ largest calls := by
  induction calls using List.reverseRecOn with
  | nil => rw [List.prefix_nil.mp h]
  | append_singleton calls s ih =>
    rcases List.prefix_concat_iff.mp h with rfl | hold
    · exact Nat.le_refl _
    · rw [largest_concat]
      exact (ih hold).trans (Nat.le_max_left _ _)

theorem not_touched_nil : ¬ Touched W [] n := by
  rintro ⟨done, hdone, -, -, s, hs, -⟩
  rw [List.mem_inits, List.prefix_nil] at hdone
  rw [hdone] at hs
  exact absurd hs (Option.not_mem_none s)

theorem touched_concat : Touched W (calls ++ [s]) n ↔ Touched W calls n ∨
    n ≤ largest (calls ++ [s]) ∧ largest (calls ++ [s]) < n + W ∧ n % W = s.toNat % W := by
  constructor
  · rintro ⟨done, hdone, hle, hlt, t, ht, hmod⟩
    rcases List.prefix_concat_iff.mp ((List.mem_inits done _).mp hdone) with rfl | hold
    · rw [List.getLast?_concat, Option.mem_some_iff] at ht
      exact .inr ⟨hle, hlt, ht ▸ hmod⟩
    · exact .inl ⟨done, (List.mem_inits done _).mpr hold, hle, hlt, t, ht, hmod⟩
  · rintro (⟨done, hdone, hrest⟩ | ⟨hle, hlt, hmod⟩)
    · have hold := ((List.mem_inits done _).mp hdone).trans (List.prefix_append calls [s])
      exact ⟨done, (List.mem_inits done _).mpr hold, hrest⟩
    · refine ⟨calls ++ [s], (List.mem_inits _ _).mpr (List.prefix_refl _), hle, hlt, s, ?_, hmod⟩
      rw [List.getLast?_concat]
      exact Option.mem_some_self s

theorem Touched.le_largest (h : Touched W calls n) : n ≤ largest calls := by
  obtain ⟨done, hdone, hle, -⟩ := h
  exact hle.trans (largest_mono ((List.mem_inits done _).mp hdone))

/-- A packet received in time finds its own number in the window. -/
theorem InTime.touched (h : InTime W calls n) : Touched W calls n := by
  obtain ⟨done, hdone, hlt, hmem⟩ := h
  obtain ⟨s, hs, rfl⟩ := List.mem_map.mp hmem
  obtain ⟨before, after, rfl⟩ := List.append_of_mem hs
  have hpre : before ++ [s] <+: before ++ s :: after := by
    rw [List.append_cons before s after]
    exact List.prefix_append _ _
  refine ⟨before ++ [s], ?_, ?_, Nat.lt_of_le_of_lt (largest_mono hpre) hlt, s, ?_, rfl⟩
  · exact (List.mem_inits _ _).mpr (hpre.trans ((List.mem_inits _ _).mp hdone))
  · rw [largest_concat]
    exact Nat.le_max_right _ _
  · rw [List.getLast?_concat]
    exact Option.mem_some_self s

/-- What touches the cell of a number is the number or an older one. -/
theorem Touched.inTime_or (h : Touched W calls n) : InTime W calls n ∨ TouchedLate W calls n := by
  obtain ⟨done, hdone, hle, hlt, s, hs, hmod⟩ := h
  have hmem : s ∈ done := List.mem_of_getLast? hs
  have hs' : s.toNat ≤ largest done := CudaNs3.Applications.le_largest hmem
  rcases Nat.lt_trichotomy s.toNat n with hbelow | heq | habove
  · exact .inr ⟨done, hdone, hle, hlt, s, hs, hbelow, hmod⟩
  · exact .inl ⟨done, hdone, hlt, List.mem_map.mpr ⟨s, hmem, heq⟩⟩
  · have hnext := MovingWindow.eq_of_mod_eq habove (by omega) hmod.symm
    omega

theorem TouchedLate.touched (h : TouchedLate W calls n) : Touched W calls n := by
  obtain ⟨done, hdone, hle, hlt, s, hs, -, hmod⟩ := h
  exact ⟨done, hdone, hle, hlt, s, hs, hmod⟩

theorem TouchedLate.mono (hpre : done <+: calls) (h : TouchedLate W done n) :
    TouchedLate W calls n := by
  obtain ⟨first, hfirst, hrest⟩ := h
  exact ⟨first, (List.mem_inits _ _).mpr (((List.mem_inits _ _).mp hfirst).trans hpre), hrest⟩

/-- Once the next window is reached, later calls do not change what was received in time. -/
theorem InTime.restrict (hpre : done <+: calls) (hreach : n + W ≤ largest done)
    (h : InTime W calls n) : InTime W done n := by
  obtain ⟨first, hfirst, hlt, hmem⟩ := h
  rcases List.prefix_or_prefix_of_prefix ((List.mem_inits _ _).mp hfirst) hpre with hle | hge
  · exact ⟨first, (List.mem_inits _ _).mpr hle, hlt, hmem⟩
  · have hmono := largest_mono hge
    omega

end Calls

/-! ### The bits of the window -/

namespace PacketLossCounter
variable {c c' : PacketLossCounter} {i seqNum : BitVec 32} {v : Bool} {j r rounds : Nat}
  {P : Nat → Prop} [DecidablePred P]

/-- The bit at place `r` of the map, as the map is addressed. -/
def bit (c : PacketLossCounter) (r : Nat) : Bool :=
  (c.receiveBitMap.getD (r / 8) 0).getLsbD (7 - r % 8)

theorem getBit_eq : c.getBit seqNum = c.bit (seqNum.toNat % c.getBitMapSize) := by
  have hmod : seqNum.toNat % (c.bitMapSize * 8) % 8 = seqNum.toNat % 8 :=
    Nat.mod_mod_of_dvd _ (Nat.dvd_mul_left 8 c.bitMapSize)
  rw [getBit, BitStrings.decide_and_ne_zero (n := 0) (by decide) rfl, bit, getBitMapSize, hmod,
    BitVec.testBit_toNat, BitVec.getLsbD_ushiftRight, Nat.add_zero]

theorem mask_getLsbD : ∀ j < 8, ∀ i < 8, (0x80#8 >>> j).getLsbD i = decide (i = 7 - j) := by
  decide +kernel

/-- Setting a bit of a byte leaves the others. -/
theorem byte_getLsbD (byte : BitVec 8) (hj : j < 8) (hr : r < 8) :
    (if v then byte ||| 0x80#8 >>> j else byte &&& ~~~(0x80#8 >>> j)).getLsbD (7 - r) =
      if r = j then v else byte.getLsbD (7 - r) := by
  have hmask : (0x80#8 >>> j).getLsbD (7 - r) = decide (r = j) := by
    rw [mask_getLsbD j hj (7 - r) (by omega), decide_eq_decide]
    omega
  have hlt : 7 - r < 8 := by omega
  cases v with
  | true =>
    rw [if_pos rfl, BitVec.getLsbD_or, hmask]
    by_cases h : r = j
    · simp [h]
    · simp [h]
  | false =>
    rw [if_neg Bool.false_ne_true, BitVec.getLsbD_and, BitVec.getLsbD_not, hmask]
    by_cases h : r = j
    · simp [h]
    · simp [h, hlt]

theorem getD_modify {l : List (BitVec 8)} {f : BitVec 8 → BitVec 8} {p : Nat}
    (hin : p < l.length) (q : Nat) :
    (l.modify p f).getD q 0 = if p = q then f (l.getD q 0) else l.getD q 0 := by
  rw [List.getD_eq_getElem?_getD, List.getD_eq_getElem?_getD, List.getElem?_modify]
  by_cases h : p = q
  · rw [if_pos h, ← h, List.getElem?_eq_getElem hin]
    simp
  · rw [if_neg h]
    simp [h]

@[simp] theorem getBitMapSize_setBit : (c.setBit i v).getBitMapSize = c.getBitMapSize := rfl
@[simp] theorem lost_setBit : (c.setBit i v).lost = c.lost := rfl
@[simp] theorem lastMaxSeqNum_setBit : (c.setBit i v).lastMaxSeqNum = c.lastMaxSeqNum := rfl

theorem setBit_bit (hpos : 0 < c.getBitMapSize) :
    (c.setBit i v).bit = MovingWindow.put c.getBitMapSize c.bit i.toNat v := by
  funext r
  have hmod : i.toNat % c.getBitMapSize % 8 = i.toNat % 8 :=
    Nat.mod_mod_of_dvd _ (Nat.dvd_mul_left 8 c.bitMapSize)
  have hin : i.toNat % c.getBitMapSize / 8 < c.receiveBitMap.length := by
    rw [c.sized]
    exact Nat.div_lt_of_lt_mul ((Nat.mul_comm 8 _).symm ▸ Nat.mod_lt _ hpos)
  have hsplit : r = i.toNat % c.getBitMapSize ↔
      i.toNat % c.getBitMapSize / 8 = r / 8 ∧ r % 8 = i.toNat % 8 := by omega
  rw [bit, setBit, MovingWindow.put, Function.update_apply]
  change (List.getD (c.receiveBitMap.modify (i.toNat % c.getBitMapSize / 8) _) _ 0).getLsbD _ = _
  rw [getD_modify hin]
  by_cases hq : i.toNat % c.getBitMapSize / 8 = r / 8
  · rw [if_pos hq, byte_getLsbD _ (Nat.mod_lt _ (by decide)) (Nat.mod_lt _ (by decide))]
    simp only [hsplit, hq, true_and]
    rfl
  · rw [if_neg hq, if_neg (fun h => hq (hsplit.mp h).1)]
    rfl

/-! ### The loop -/

/-- Every number up to `j` has been passed, and the numbers counted are those of the window that
`P` did not mark. -/
structure Counts (W j : Nat) (P : Nat → Prop) [DecidablePred P] (c : PacketLossCounter) : Prop where
  window : c.getBitMapSize = W
  tells : MovingWindow.Tells W j c.bit P
  lost : c.lost.toNat = MovingWindow.missed W j P

variable {W : Nat}

@[simp] theorem lastMaxSeqNum_passNumber : (c.passNumber i).lastMaxSeqNum = c.lastMaxSeqNum := by
  rw [passNumber, lastMaxSeqNum_setBit]
  split
  · rfl
  · rfl

theorem lt_allOnes (h : i ≠ BitVec.allOnes 32) : i.toNat < 2 ^ 32 - 1 := by
  have hne : i.toNat ≠ 2 ^ 32 - 1 := fun heq => h (BitVec.eq_of_toNat_eq heq)
  have hlt := i.isLt
  omega

theorem toNat_add_one (h : i.toNat < 2 ^ 32 - 1) : (i + 1).toNat = i.toNat + 1 := by
  have hone : (1 : BitVec 32).toNat = 1 := rfl
  rw [BitVec.toNat_add, hone, Nat.mod_eq_of_lt (by omega)]

theorem passNumber_counts (hW : 0 < W) (h : Counts W j P c) (hi : i.toNat = j + 1)
    (hnot : ¬ P (j + 1)) : Counts W (j + 1) P (c.passNumber i) := by
  have hread : c.getBit i = c.bit ((j + 1) % W) := by rw [getBit_eq, h.window, hi]
  have hpass := h.tells.missed_pass hW
  have hput := h.tells.pass hnot
  rw [← hread] at hpass
  have hbit : (c.setBit i false).bit = MovingWindow.put W c.bit (j + 1) false := by
    rw [setBit_bit (h.window ▸ hW), h.window, hi]
  by_cases hset : c.getBit i = true
  · rw [if_pos hset, Nat.add_zero] at hpass
    rw [passNumber, if_neg (not_not_intro hset)]
    exact ⟨h.window, hbit ▸ hput, h.lost.trans hpass.symm⟩
  · rw [if_neg hset] at hpass
    rw [passNumber, if_pos hset]
    have hroom : c.lost.toNat < 2 ^ 32 - 1 := by
      have hle := MovingWindow.missed_le (W := W) (j := j) (P := P)
      have hlt := i.isLt
      rw [h.lost]
      omega
    refine ⟨h.window, hbit ▸ hput, ?_⟩
    rw [lost_setBit, toNat_add_one hroom, h.lost, hpass]

/-- No counter of 32 bits exceeds the last number. -/
theorem passNumbers_allOnes : passNumbers rounds c i (BitVec.allOnes 32) = none := by
  induction rounds generalizing c i with
  | zero => rfl
  | succ rounds ih =>
    have hle : i ≤ BitVec.allOnes 32 := Nat.le_sub_one_of_lt i.isLt
    rw [passNumbers, if_pos hle, ih]

theorem exists_passNumbers (hs : seqNum.toNat < 2 ^ 32 - 1)
    (hrounds : seqNum.toNat + 1 - i.toNat < rounds) :
    ∃ c', passNumbers rounds c i seqNum = some c' := by
  induction rounds generalizing c i with
  | zero => omega
  | succ rounds ih =>
    rw [passNumbers]
    by_cases hle : i ≤ seqNum
    · have hi : i.toNat ≤ seqNum.toNat := hle
      rw [if_pos hle]
      apply ih
      rw [toNat_add_one (by omega)]
      omega
    · exact ⟨c, if_neg hle⟩

theorem passNumbers_counts (hW : 0 < W) (hs : seqNum.toNat < 2 ^ 32 - 1) (h : Counts W j P c)
    (hi : i.toNat = j + 1) (hnot : ∀ n, j < n → ¬ P n)
    (hpass : passNumbers rounds c i seqNum = some c') :
    Counts W (max j seqNum.toNat) P c' ∧ c'.lastMaxSeqNum = c.lastMaxSeqNum := by
  induction rounds generalizing c i j with
  | zero => cases hpass
  | succ rounds ih =>
    rw [passNumbers] at hpass
    by_cases hle : i ≤ seqNum
    · rw [if_pos hle] at hpass
      have hile : i.toNat ≤ seqNum.toNat := hle
      have hnext := passNumber_counts hW h hi (hnot _ (Nat.lt_succ_self j))
      have hi' : (i + 1).toNat = j + 1 + 1 := by rw [toNat_add_one (by omega), hi]
      have hrest := ih hnext hi' (fun n hn => hnot n (by omega)) hpass
      have hmax : max (j + 1) seqNum.toNat = max j seqNum.toNat := by omega
      rw [hmax, lastMaxSeqNum_passNumber] at hrest
      exact hrest
    · rw [if_neg hle] at hpass
      have hlt : ¬ i.toNat ≤ seqNum.toNat := hle
      obtain rfl := Option.some.inj hpass
      rw [Nat.max_eq_left (by omega)]
      exact ⟨h, rfl⟩

/-! ### Runs -/

/-- Where the calls have led. -/
structure Standing (W : Nat) (calls : List (BitVec 32)) (c : PacketLossCounter) : Prop
    extends Counts W (largest calls) (Touched W calls) c where
  last : c.lastMaxSeqNum.toNat = largest calls
  below : largest calls < 2 ^ 32 - 1

variable {calls : List (BitVec 32)}

/-- The number received sets the bit of the number of the window that has its residue. -/
theorem Counts.mark_touched (hW : 0 < W)
    (h : Counts W (largest (calls ++ [seqNum])) (Touched W calls) c) :
    Counts W (largest (calls ++ [seqNum])) (Touched W (calls ++ [seqNum]))
      (c.setBit seqNum true) where
  window := h.window
  tells := by
    rw [setBit_bit (h.window ▸ hW), h.window]
    refine (h.tells.mark seqNum.toNat).congr fun n hle hlt => ?_
    rw [touched_concat]
    simp [hle, hlt]
  lost := by
    rw [lost_setBit, h.lost]
    refine MovingWindow.missed_congr fun n _ hle => ?_
    rw [touched_concat]
    have hnot : ¬ largest (calls ++ [seqNum]) < n + W := Nat.not_lt.mpr hle
    simp [hnot]

theorem standing_notifyReceived (hW : 0 < W) (h : Standing W calls c)
    (hcall : notifyReceived rounds c seqNum = some c') :
    seqNum ≠ BitVec.allOnes 32 ∧ Standing W (calls ++ [seqNum]) c' := by
  rw [notifyReceived, Option.map_eq_some_iff] at hcall
  obtain ⟨d, hd, rfl⟩ := hcall
  have hs : seqNum ≠ BitVec.allOnes 32 := by
    rintro rfl
    rw [passNumbers_allOnes] at hd
    cases hd
  have hlt := lt_allOnes hs
  have hi : (c.lastMaxSeqNum + 1).toNat = largest calls + 1 := by
    rw [toNat_add_one (h.last ▸ h.below), h.last]
  have hnot : ∀ n, largest calls < n → ¬ Touched W calls n := fun n hn htouched =>
    Nat.not_le_of_lt hn htouched.le_largest
  obtain ⟨hcounts, hlast⟩ := passNumbers_counts hW hlt h.toCounts hi hnot hd
  rw [← largest_concat] at hcounts
  have hmark := hcounts.mark_touched hW
  have hbelow : largest (calls ++ [seqNum]) < 2 ^ 32 - 1 := by
    rw [largest_concat]
    exact max_lt h.below hlt
  refine ⟨hs, ?_⟩
  by_cases hmore : (d.setBit seqNum true).lastMaxSeqNum < seqNum
  · have hmore' : c.lastMaxSeqNum.toNat < seqNum.toNat := hlast ▸ hmore
    rw [if_pos hmore]
    refine ⟨⟨hmark.window, hmark.tells, hmark.lost⟩, ?_, hbelow⟩
    rw [largest_concat, ← h.last, Nat.max_eq_right (Nat.le_of_lt hmore')]
  · have hmore' : ¬ c.lastMaxSeqNum.toNat < seqNum.toNat := hlast ▸ hmore
    rw [if_neg hmore]
    refine ⟨hmark, ?_, hbelow⟩
    rw [lastMaxSeqNum_setBit, hlast, largest_concat, ← h.last,
      Nat.max_eq_left (Nat.le_of_not_lt hmore')]

theorem exists_notifyReceived (hs : seqNum ≠ BitVec.allOnes 32) (hrounds : 2 ^ 32 ≤ rounds) :
    ∃ c', notifyReceived rounds c seqNum = some c' := by
  have hlt := lt_allOnes hs
  obtain ⟨d, hd⟩ := exists_passNumbers (c := c) (i := c.lastMaxSeqNum + 1) hlt
    (by omega : _ < rounds)
  rw [notifyReceived, hd]
  exact ⟨_, rfl⟩

/-- A run that comes to its end has counted the numbers whose bit nothing touched. -/
theorem standing_exec {c₀ : PacketLossCounter} (hW : 0 < W) (h : Standing W [] c₀)
    (hexec : Transition.exec (notifyReceived rounds) c₀ calls = some c) :
    BitVec.allOnes 32 ∉ calls ∧ Standing W calls c := by
  induction calls using List.reverseRecOn generalizing c with
  | nil =>
    obtain rfl := Option.some.inj hexec
    exact ⟨List.not_mem_nil, h⟩
  | append_singleton calls s ih =>
    obtain ⟨d, hd, hlast⟩ := Transition.exec_append.mp hexec
    obtain ⟨t, ht, hend⟩ := Transition.exec_cons_eq_some.mp hlast
    obtain rfl := Option.some.inj hend
    obtain ⟨hnot, hstand⟩ := ih hd
    obtain ⟨hs, hnext⟩ := standing_notifyReceived hW hstand ht
    refine ⟨?_, hnext⟩
    rw [List.mem_append, List.mem_singleton, not_or]
    exact ⟨hnot, hs.symm⟩

theorem exists_exec (hnot : BitVec.allOnes 32 ∉ calls) (hrounds : 2 ^ 32 ≤ rounds) :
    ∃ c', Transition.exec (notifyReceived rounds) c calls = some c' := by
  induction calls generalizing c with
  | nil => exact ⟨c, rfl⟩
  | cons s calls ih =>
    rw [List.mem_cons, not_or] at hnot
    obtain ⟨d, hd⟩ := exists_notifyReceived (c := c) (Ne.symm hnot.1) hrounds
    obtain ⟨c', hc'⟩ := ih hnot.2 (c := d)
    exact ⟨c', Transition.exec_cons_eq_some.mpr ⟨d, hd, hc'⟩⟩

theorem ones_getLsbD : ∀ i < 8, (0xFF#8).getLsbD i = true := by decide +kernel

theorem standing_setBitMapSize {winSize : BitVec 16}
    (hset : blank.setBitMapSize winSize = some c) : Standing winSize.toNat [] c := by
  rw [setBitMapSize] at hset
  by_cases h8 : winSize.toNat % 8 = 0
  · rw [if_pos h8] at hset
    obtain rfl := Option.some.inj hset
    refine ⟨⟨Nat.div_mul_cancel (Nat.dvd_of_mod_eq_zero h8), ?_, ?_⟩, rfl, by decide⟩
    · intro m hlt hle
      have hin : m ≤ winSize.toNat := by
        rw [← Nat.zero_add winSize.toNat]
        exact hle
      have hplace : m % winSize.toNat / 8 < winSize.toNat / 8 := by
        have hmod := Nat.mod_lt m (Nat.lt_of_lt_of_le hlt hin)
        omega
      refine iff_of_true ?_ (.inl hin)
      rw [bit, List.getD_eq_getElem?_getD, List.getElem?_replicate_of_lt hplace, Option.getD_some]
      exact ones_getLsbD _ (by omega)
    · exact (MovingWindow.missed_of_le (Nat.zero_le _)).symm
  · rw [if_neg h8] at hset
    cases hset

/-- Every call ends with exactly the lost numbers counted, if and only if no call is given the last
number of 32 bits and each number whose bit a late packet set was received in time itself. -/
theorem lost_exact {winSize : BitVec 16} {c₀ : PacketLossCounter} (hpos : 0 < winSize.toNat)
    (hset : blank.setBitMapSize winSize = some c₀) (calls : List (BitVec 32)) :
    (∀ done ∈ calls.inits, ∃ rounds c, Transition.exec (notifyReceived rounds) c₀ done = some c ∧
      c.getLost.toNat = lostNumbers winSize.toNat done) ↔
    BitVec.allOnes 32 ∉ calls ∧ ∀ n, 1 ≤ n → n + winSize.toNat ≤ largest calls →
      TouchedLate winSize.toNat calls n → InTime winSize.toNat calls n := by
  have hstart := standing_setBitMapSize hset
  constructor
  · intro h
    obtain ⟨rounds, c, hexec, hlost⟩ := h calls ((List.mem_inits _ _).mpr (List.prefix_refl _))
    obtain ⟨hnot, hstand⟩ := standing_exec hpos hstart hexec
    refine ⟨hnot, fun n hn hle hlate => ?_⟩
    rw [getLost, hstand.lost, lostNumbers] at hlost
    exact (MovingWindow.missed_eq_iff fun m _ _ hm => hm.touched).mp hlost n hn hle hlate.touched
  · rintro ⟨hnot, hlate⟩ done hdone
    have hpre := (List.mem_inits _ _).mp hdone
    obtain ⟨rounds, hrounds⟩ : ∃ rounds, 2 ^ 32 ≤ rounds := ⟨_, Nat.le_refl _⟩
    obtain ⟨c, hexec⟩ := exists_exec (c := c₀) (fun hmem => hnot (hpre.subset hmem)) hrounds
    obtain ⟨-, hstand⟩ := standing_exec hpos hstart hexec
    refine ⟨rounds, c, hexec, ?_⟩
    rw [getLost, hstand.lost, lostNumbers]
    apply (MovingWindow.missed_eq_iff fun m _ _ hm => hm.touched).mpr
    intro n hn hle htouched
    rcases htouched.inTime_or with htime | hold
    · exact htime
    · exact (hlate n hn (hle.trans (largest_mono hpre)) (hold.mono hpre)).restrict hpre hle

theorem lost_exact_gap : ∃ c₀, blank.setBitMapSize 8 = some c₀ ∧
    ∀ done ∈ [3#32, 2, 12, 9].inits, ∃ rounds c,
      Transition.exec (notifyReceived rounds) c₀ done = some c ∧
      c.getLost.toNat = lostNumbers 8 done := by
  obtain ⟨c₀, hset⟩ : ∃ c₀, blank.setBitMapSize 8 = some c₀ := ⟨_, rfl⟩
  have hall : ∀ n < 5, TouchedLate 8 [3, 2, 12, 9] n → InTime 8 [3, 2, 12, 9] n := by
    decide +kernel
  have hmost : largest [3, 2, 12, 9] = 12 := rfl
  refine ⟨c₀, hset, (lost_exact (by decide) hset [3, 2, 12, 9]).mpr ⟨by decide +kernel, ?_⟩⟩
  intro n _ hle
  have hsize : (8 : BitVec 16).toNat = 8 := rfl
  rw [hmost, hsize] at hle
  exact hall n (by omega)

/-- With a window of 8 packets, packet 1 comes after packet 10 and sets the bit of packet 9, which
is then not counted when packet 17 comes: 8 losses are reported where 9 packets were lost. -/
theorem not_lost_exact : ¬ ∀ (winSize : BitVec 16) (c₀ : PacketLossCounter), 0 < winSize.toNat →
    blank.setBitMapSize winSize = some c₀ → ∀ calls : List (BitVec 32), ∀ done ∈ calls.inits,
      ∃ rounds c, Transition.exec (notifyReceived rounds) c₀ done = some c ∧
        c.getLost.toNat = lostNumbers winSize.toNat done := by
  intro h
  obtain ⟨c₀, hset⟩ : ∃ c₀, blank.setBitMapSize 8 = some c₀ := ⟨_, rfl⟩
  have hpos : 0 < (8 : BitVec 16).toNat := by decide
  obtain ⟨rounds, c, hexec, hlost⟩ := h 8 c₀ hpos hset [10, 1, 17] [10, 1, 17] (by decide)
  obtain ⟨-, hstand⟩ := standing_exec hpos (standing_setBitMapSize hset) hexec
  rw [getLost, hstand.lost] at hlost
  revert hlost
  decide +kernel

end PacketLossCounter

end CudaNs3.Applications
