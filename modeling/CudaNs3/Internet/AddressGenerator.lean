import CudaNs3.Internet.RipTable
import CudaNs3.Lib.Intervals
import CudaNs3.Lib.Transition

/-!
# The generator of IPv4 addresses

For each length of mask a network and an address that are counted up, and the addresses
allocated so far as an ascending list of blocks. A block grows at either end by one address or
a new one is inserted; blocks that come to touch each other are not joined. Whether a network
has addresses allocated is asked of the ends of the blocks only, so that a block that reaches
over a whole network is missed.
-/

namespace CudaNs3.Internet

set_option autoImplicit false

namespace Ipv4AddressGenerator

structure NetworkState where
  mask : BitVec 32
  shift : Nat
  network : BitVec 32
  addr : BitVec 32
  addrMax : BitVec 32

structure Entry where
  addrLow : Ipv4Address
  addrHigh : Ipv4Address

end Ipv4AddressGenerator

structure Ipv4AddressGenerator where
  netTable : List Ipv4AddressGenerator.NetworkState
  entries : List Ipv4AddressGenerator.Entry
  test : Bool

namespace Ipv4AddressGenerator

/-- The state of the networks of `i` bits. -/
def initialState (i : Nat) : NetworkState :=
  let mask := BitVec.allOnes 32 <<< (32 - i)
  { mask, shift := 32 - i, network := 1, addr := 1, addrMax := ~~~mask }

def reset : Ipv4AddressGenerator :=
  { netTable := (List.range 32).map initialState, entries := [], test := false }

def testMode (s : Ipv4AddressGenerator) : Ipv4AddressGenerator := { s with test := true }

/-- Shifts to the right until the lowest bit is set. -/
def zeroBits : Nat → Ipv4Mask → Option Nat
  | 0, _ => none
  | n + 1, mask => if mask.getLsbD 0 then some 0 else (zeroBits n (mask >>> 1)).map (· + 1)

/-- `none` for an illegal mask. -/
def maskToIndex (mask : Ipv4Mask) : Option Nat :=
  (zeroBits 32 mask).bind fun i => if 0 < 32 - i ∧ 32 - i < 32 then some (32 - i) else none

def NetworkState.addressOf (n : NetworkState) : Ipv4Address := (n.network <<< n.shift) ||| n.addr

def setNetwork (s : Ipv4AddressGenerator) (index : Nat) (n : NetworkState) :
    Ipv4AddressGenerator := { s with netTable := s.netTable.set index n }

/-- `none` when the network or the address does not agree with the mask. -/
def init (s : Ipv4AddressGenerator) (net : Ipv4Address) (mask : Ipv4Mask) (addr : Ipv4Address) :
    Option Ipv4AddressGenerator :=
  if net &&& ~~~mask = 0 ∧ addr &&& mask = 0 then do
    let index ← maskToIndex mask
    let n ← s.netTable[index]?
    if addr ≤ n.addrMax then
      some (s.setNetwork index { n with network := net >>> n.shift, addr := addr })
    else none
  else none

def nextNetwork (s : Ipv4AddressGenerator) (mask : Ipv4Mask) :
    Option (Ipv4Address × Ipv4AddressGenerator) := do
  let index ← maskToIndex mask
  let n ← s.netTable[index]?
  let n := { n with network := n.network + 1 }
  some (n.network <<< n.shift, s.setNetwork index n)

/-- The loop of `AddAllocated` over the blocks; `none` at a collision. -/
def addTo (addr : Ipv4Address) : List Entry → Option (List Entry)
  | [] => some [⟨addr, addr⟩]
  | e :: rest =>
    if e.addrLow ≤ addr ∧ addr ≤ e.addrHigh then none
    else if addr < e.addrLow - 1 then some (⟨addr, addr⟩ :: e :: rest)
    else if addr = e.addrHigh + 1 then
      if rest.head?.any (addr = ·.addrLow) then none else some (⟨e.addrLow, addr⟩ :: rest)
    else if addr = e.addrLow - 1 then some (⟨addr, e.addrHigh⟩ :: rest)
    else (addTo addr rest).map (e :: ·)

/-- `none` for the address 0, and at a collision unless in test mode. -/
def addAllocated (s : Ipv4AddressGenerator) (addr : Ipv4Address) :
    Option (Bool × Ipv4AddressGenerator) :=
  if addr = 0 then none
  else match addTo addr s.entries with
    | none => if s.test then some (false, s) else none
    | some entries => some (true, { s with entries })

/-- The address, whether it was added, and the state. -/
def nextAddress (s : Ipv4AddressGenerator) (mask : Ipv4Mask) :
    Option (Ipv4Address × Bool × Ipv4AddressGenerator) := do
  let index ← maskToIndex mask
  let n ← s.netTable[index]?
  if n.addr ≤ n.addrMax then
    let (added, s) ← (s.setNetwork index { n with addr := n.addr + 1 }).addAllocated n.addressOf
    some (n.addressOf, added, s)
  else none

/-- Whether the address is free. -/
def isAddressAllocated (s : Ipv4AddressGenerator) (addr : Ipv4Address) : Option Bool :=
  if addr = 0 then none
  else some (s.entries.all fun e => !(e.addrLow ≤ addr && addr ≤ e.addrHigh))

/-- Whether the network is free. -/
def isNetworkAllocated (s : Ipv4AddressGenerator) (addr : Ipv4Address) (mask : Ipv4Mask) :
    Option Bool :=
  if addr = addr.combineMask mask then
    some (s.entries.all fun e =>
      !(addr = e.addrLow.combineMask mask || addr = e.addrHigh.combineMask mask))
  else none

/-! ### The blocks -/

namespace Entry

def Contains (e : Entry) (a : Ipv4Address) : Prop := e.addrLow ≤ a ∧ a ≤ e.addrHigh

/-- The block as a half-open interval. -/
def interval (e : Entry) : Nat × Nat := (e.addrLow.toNat, e.addrHigh.toNat + 1)

end Entry

/-- Blocks that are in order and do not meet, none with the address 0. -/
def Ordered (entries : List Entry) : Prop := Intervals.Ascending 1 (entries.map Entry.interval)

section
variable {a b : Ipv4Address} {e : Entry} {entries : List Entry} {lo : Nat}

theorem Entry.contains_iff : e.Contains a ↔ e.interval.1 ≤ a.toNat ∧ a.toNat < e.interval.2 := by
  unfold Contains interval
  rw [BitVec.le_def, BitVec.le_def, Nat.lt_succ_iff]

theorem covers_iff : Intervals.Covers (entries.map Entry.interval) a.toNat ↔
    ∃ e ∈ entries, e.Contains a := by
  unfold Intervals.Covers
  constructor
  · rintro ⟨p, hp, hin⟩
    obtain ⟨e, he, rfl⟩ := List.mem_map.mp hp
    exact ⟨e, he, Entry.contains_iff.mpr hin⟩
  · rintro ⟨e, he, hin⟩
    exact ⟨e.interval, List.mem_map_of_mem he, Entry.contains_iff.mp hin⟩

theorem forall_below (h : Intervals.Ascending lo (entries.map Entry.interval)) (hlt : a.toNat < lo) :
    ¬ ∃ e ∈ entries, e.Contains a := by
  intro hin
  have hle := h.le_of_covers (covers_iff.mpr hin)
  omega

theorem exists_cons {f : Entry} : (∃ e ∈ f :: entries, e.Contains b) ↔
    f.Contains b ∨ ∃ e ∈ entries, e.Contains b := by
  simp only [List.mem_cons, exists_eq_or_imp]

theorem sub_one_lt_iff (hlow : 0 < e.addrLow.toNat) :
    a < e.addrLow - 1 ↔ a.toNat + 1 < e.addrLow.toNat := by
  rw [BitVec.lt_def, BitVec.toNat_sub]
  change a.toNat < (2 ^ 32 - 1 + e.addrLow.toNat) % 2 ^ 32 ↔ _
  have hlt := e.addrLow.isLt
  omega

theorem eq_sub_one_iff (hlow : 0 < e.addrLow.toNat) :
    a = e.addrLow - 1 ↔ a.toNat + 1 = e.addrLow.toNat := by
  rw [← BitVec.toNat_inj, BitVec.toNat_sub]
  change a.toNat = (2 ^ 32 - 1 + e.addrLow.toNat) % 2 ^ 32 ↔ _
  have hlt := e.addrLow.isLt
  omega

theorem eq_add_one_iff (ha : 0 < a.toNat) :
    a = e.addrHigh + 1 ↔ a.toNat = e.addrHigh.toNat + 1 := by
  rw [← BitVec.toNat_inj, BitVec.toNat_add]
  change a.toNat = (e.addrHigh.toNat + 1) % 2 ^ 32 ↔ _
  have hlt := a.isLt
  have hhigh := e.addrHigh.isLt
  omega

theorem contains_nat : e.Contains b ↔
    e.addrLow.toNat ≤ b.toNat ∧ b.toNat ≤ e.addrHigh.toNat := by
  rw [Entry.Contains, BitVec.le_def, BitVec.le_def]

/-- What the loop makes of the blocks, all of them from `lo` on. -/
def Adds (a : Ipv4Address) (lo : Nat) (entries : List Entry) : Option (List Entry) → Prop
  | none => ∃ e ∈ entries, e.Contains a
  | some entries' => (¬ ∃ e ∈ entries, e.Contains a) ∧
      Intervals.Ascending lo (entries'.map Entry.interval) ∧
      ∀ b : Ipv4Address, (∃ e ∈ entries', e.Contains b) ↔ b = a ∨ ∃ e ∈ entries, e.Contains b

/-- A block that has become another one with one address more. -/
theorem adds_of_contains {f : Entry} {rest : List Entry}
    (hasc : Intervals.Ascending lo ((f :: rest).map Entry.interval)) (hout : ¬ e.Contains a)
    (hrest : ¬ ∃ e ∈ rest, e.Contains a)
    (hf : ∀ b : Ipv4Address, f.Contains b ↔ b = a ∨ e.Contains b) :
    Adds a lo (e :: rest) (some (f :: rest)) := by
  refine ⟨?_, hasc, ?_⟩
  · rw [exists_cons]
    exact not_or.mpr ⟨hout, hrest⟩
  · intro b
    rw [exists_cons, exists_cons, hf, or_assoc]

theorem addTo_spec (h : Intervals.Ascending lo (entries.map Entry.interval)) (hpos : 0 < lo)
    (hlo : lo ≤ a.toNat) : Adds a lo entries (addTo a entries) := by
  have hsingle (b : Ipv4Address) : (⟨a, a⟩ : Entry).Contains b ↔ b = a := by
    rw [contains_nat, ← BitVec.toNat_inj]
    exact ⟨fun h => Nat.le_antisymm h.2 h.1, fun h => ⟨h.ge, h.le⟩⟩
  have hone : (⟨a, a⟩ : Entry).interval.1 < (⟨a, a⟩ : Entry).interval.2 := Nat.lt_succ_self _
  induction entries generalizing lo with
  | nil =>
    refine ⟨by simp, ⟨hlo, hone, trivial⟩, ?_⟩
    intro b
    rw [exists_cons, hsingle]
  | cons e rest ih =>
    obtain ⟨hlow, hne, hrest⟩ := h
    change lo ≤ e.addrLow.toNat at hlow
    change e.addrLow.toNat < e.addrHigh.toNat + 1 at hne
    change Intervals.Ascending (e.addrHigh.toNat + 1) _ at hrest
    unfold addTo
    by_cases hin : e.Contains a
    · rw [if_pos (show e.addrLow ≤ a ∧ a ≤ e.addrHigh from hin)]
      exact ⟨e, List.mem_cons_self, hin⟩
    rw [if_neg (show ¬ (e.addrLow ≤ a ∧ a ≤ e.addrHigh) from hin)]
    have hout := hin
    rw [contains_nat] at hout
    have hbelow (hlt : a.toNat < e.addrHigh.toNat + 1) : ¬ ∃ e ∈ rest, e.Contains a :=
      forall_below hrest hlt
    by_cases hbefore : a < e.addrLow - 1
    · rw [if_pos hbefore]
      have hlt := (sub_one_lt_iff (by omega)).mp hbefore
      refine ⟨?_, ⟨hlo, hone, ?_, hne, hrest⟩, ?_⟩
      · rw [exists_cons]
        exact not_or.mpr ⟨hin, hbelow (by omega)⟩
      · change a.toNat + 1 ≤ e.addrLow.toNat
        omega
      · intro b
        rw [exists_cons, hsingle]
    rw [if_neg hbefore]
    rw [sub_one_lt_iff (by omega)] at hbefore
    by_cases hend : a = e.addrHigh + 1
    · rw [if_pos hend]
      rw [eq_add_one_iff (by omega)] at hend
      by_cases hnext : rest.head?.any (a = ·.addrLow) = true
      · -- the next block begins with this address
        rw [if_pos hnext]
        obtain ⟨f, hf, ha⟩ := Option.any_eq_true _ _ |>.mp hnext
        have ha' : a = f.addrLow := of_decide_eq_true ha
        have hmem : f ∈ rest := List.mem_of_mem_head? hf
        refine ⟨f, List.mem_cons_of_mem e hmem, contains_nat.mpr ?_⟩
        have hfne : f.addrLow.toNat < f.addrHigh.toNat + 1 :=
          (hrest.of_mem (List.mem_map_of_mem hmem)).2
        rw [ha']
        omega
      · rw [if_neg hnext]
        have hgap : Intervals.Ascending (a.toNat + 1) (rest.map Entry.interval) := by
          cases rest with
          | nil => trivial
          | cons f more =>
            obtain ⟨hf, hmore⟩ := hrest
            change e.addrHigh.toNat + 1 ≤ f.addrLow.toNat at hf
            refine ⟨?_, hmore⟩
            have hneq : a.toNat ≠ f.addrLow.toNat := by
              intro heq
              exact hnext (decide_eq_true (BitVec.toNat_inj.mp heq))
            change a.toNat + 1 ≤ f.addrLow.toNat
            omega
        refine adds_of_contains ⟨hlow, ?_, hgap⟩ hin (forall_below hgap (Nat.lt_succ_self _)) ?_
        · change e.addrLow.toNat < a.toNat + 1
          omega
        · intro b
          rw [contains_nat, contains_nat, ← BitVec.toNat_inj]
          change e.addrLow.toNat ≤ b.toNat ∧ b.toNat ≤ a.toNat ↔ _
          omega
    rw [if_neg hend]
    rw [eq_add_one_iff (by omega)] at hend
    by_cases hstart : a = e.addrLow - 1
    · rw [if_pos hstart]
      rw [eq_sub_one_iff (by omega)] at hstart
      refine adds_of_contains ⟨hlo, ?_, hrest⟩ hin (hbelow (by omega)) ?_
      · change a.toNat < e.addrHigh.toNat + 1
        omega
      · intro b
        rw [contains_nat, contains_nat, ← BitVec.toNat_inj]
        change a.toNat ≤ b.toNat ∧ b.toNat ≤ e.addrHigh.toNat ↔ _
        omega
    rw [if_neg hstart]
    rw [eq_sub_one_iff (by omega)] at hstart
    -- the address lies above the block and does not touch it
    have hmore := ih hrest (Nat.succ_pos _) (by omega)
    cases hadd : addTo a rest with
    | none =>
      rw [hadd] at hmore
      obtain ⟨f, hf, hfa⟩ := hmore
      exact ⟨f, List.mem_cons_of_mem e hf, hfa⟩
    | some rest' =>
      rw [hadd] at hmore
      obtain ⟨hnot, hasc, hunion⟩ := hmore
      refine ⟨?_, ⟨hlow, hne, hasc⟩, ?_⟩
      · rw [exists_cons]
        exact not_or.mpr ⟨hin, hnot⟩
      · intro b
        rw [exists_cons, exists_cons, hunion]
        exact or_left_comm

theorem Ordered.addTo_spec (h : Ordered entries) (hne : a ≠ 0) :
    Adds a 1 entries (addTo a entries) := by
  have hone : a.toNat ≠ 0 := fun hz => hne (BitVec.toNat_inj.mp hz)
  exact Ipv4AddressGenerator.addTo_spec h Nat.one_pos (by omega)

variable {s s' : Ipv4AddressGenerator} {added : Bool}

theorem addAllocated_eq_none_iff (h : Ordered s.entries) (hne : a ≠ 0) :
    s.addAllocated a = none ↔ s.test = false ∧ ∃ e ∈ s.entries, e.Contains a := by
  have hspec := h.addTo_spec hne
  unfold addAllocated
  rw [if_neg hne]
  cases hadd : addTo a s.entries with
  | none =>
    rw [hadd] at hspec
    cases s.test with
    | true => exact iff_of_false (Option.some_ne_none _) fun hin => Bool.false_ne_true hin.1.symm
    | false => exact iff_of_true rfl ⟨rfl, hspec⟩
  | some entries =>
    rw [hadd] at hspec
    exact iff_of_false (Option.some_ne_none _) fun hin => hspec.1 hin.2

theorem ne_zero_of_addAllocated (hs : s.addAllocated a = some (added, s')) : a ≠ 0 := by
  intro hz
  unfold addAllocated at hs
  rw [if_pos hz] at hs
  cases hs

theorem addAllocated_spec (h : Ordered s.entries) (hs : s.addAllocated a = some (added, s')) :
    (added = true ↔ ¬ ∃ e ∈ s.entries, e.Contains a) ∧ s'.test = s.test ∧ Ordered s'.entries ∧
      ∀ b : Ipv4Address, (∃ e ∈ s'.entries, e.Contains b) ↔
        b = a ∨ ∃ e ∈ s.entries, e.Contains b := by
  have hne := ne_zero_of_addAllocated hs
  have hspec := h.addTo_spec hne
  unfold addAllocated at hs
  rw [if_neg hne] at hs
  cases hadd : addTo a s.entries with
  | none =>
    rw [hadd] at hs hspec
    change (if s.test then some (false, s) else none) = some (added, s') at hs
    split at hs
    · obtain ⟨rfl, rfl⟩ := Prod.mk.inj (Option.some.inj hs)
      refine ⟨iff_of_false Bool.false_ne_true (not_not_intro hspec), rfl, h, ?_⟩
      intro b
      rw [iff_or_self]
      rintro rfl
      exact hspec
    · cases hs
  | some entries =>
    rw [hadd] at hs hspec
    obtain ⟨rfl, rfl⟩ := Prod.mk.inj (Option.some.inj hs)
    exact ⟨iff_of_true rfl hspec.1, rfl, hspec.2⟩

end

/-! ### Runs -/

/-- The generator with the addresses that were added. -/
structure Recorded where
  gen : Ipv4AddressGenerator
  allocated : List Ipv4Address := []

inductive Call where
  | init (net : Ipv4Address) (mask : Ipv4Mask) (addr : Ipv4Address)
  | nextNetwork (mask : Ipv4Mask)
  | nextAddress (mask : Ipv4Mask)
  | addAllocated (addr : Ipv4Address)

namespace Recorded

def record (s : Recorded) (addr : Ipv4Address) (added : Bool) (gen : Ipv4AddressGenerator) :
    Recorded :=
  { gen, allocated := if added then addr :: s.allocated else s.allocated }

def step (s : Recorded) : Call → Option Recorded
  | .init net mask addr => (s.gen.init net mask addr).map fun gen => { s with gen }
  | .nextNetwork mask => (s.gen.nextNetwork mask).map fun r => { s with gen := r.2 }
  | .nextAddress mask => (s.gen.nextAddress mask).map fun r => s.record r.1 r.2.1 r.2.2
  | .addAllocated addr => (s.gen.addAllocated addr).map fun r => s.record addr r.1 r.2

def start : Recorded := { gen := reset.testMode }

/-- The blocks hold what was added and nothing else. -/
structure Exact (s : Recorded) : Prop where
  test : s.gen.test = true
  ordered : Ordered s.gen.entries
  union : ∀ a, a ∈ s.allocated ↔ ∃ e ∈ s.gen.entries, e.Contains a

variable {s : Recorded} {addr : Ipv4Address}

theorem exact_start : Exact start where
  test := rfl
  ordered := trivial
  union := by simp [start, testMode, reset]

namespace Exact
variable (h : Exact s)
include h

theorem record {added : Bool} {gen : Ipv4AddressGenerator}
    (hs : s.gen.addAllocated addr = some (added, gen)) :
    (added = true ↔ addr ∉ s.allocated) ∧ Exact (s.record addr added gen) := by
  obtain ⟨hadded, htest, hord, hunion⟩ := addAllocated_spec h.ordered hs
  rw [← h.union] at hadded
  refine ⟨hadded, htest.trans h.test, hord, ?_⟩
  intro b
  change b ∈ (if added then addr :: s.allocated else s.allocated) ↔ ∃ e ∈ gen.entries, e.Contains b
  rw [hunion, ← h.union]
  cases added with
  | true => exact List.mem_cons
  | false =>
    have hin : addr ∈ s.allocated := by
      by_contra hnot
      exact Bool.false_ne_true (hadded.mpr hnot)
    refine iff_or_self.mpr ?_
    rintro rfl
    exact hin

theorem addAllocated (hne : addr ≠ 0) : ∃ added gen, s.gen.addAllocated addr = some (added, gen) ∧
    (added = true ↔ addr ∉ s.allocated) := by
  cases hs : s.gen.addAllocated addr with
  | none =>
    obtain ⟨htest, -⟩ := (addAllocated_eq_none_iff h.ordered hne).mp hs
    exact absurd (htest.symm.trans h.test) Bool.false_ne_true
  | some r => exact ⟨r.1, r.2, rfl, (h.record hs).1⟩

theorem setNetwork (index : Nat) (n : NetworkState) :
    Exact { s with gen := s.gen.setNetwork index n } :=
  ⟨h.test, h.ordered, h.union⟩

theorem step {call : Call} {s' : Recorded} (hs : s.step call = some s') : Exact s' := by
  cases call with
  | init net mask addr =>
    obtain ⟨gen, hgen, rfl⟩ := Option.map_eq_some_iff.mp hs
    unfold init at hgen
    split at hgen
    · obtain ⟨index, -, hgen⟩ := Option.bind_eq_some_iff.mp hgen
      obtain ⟨n, -, hgen⟩ := Option.bind_eq_some_iff.mp hgen
      split at hgen
      · obtain rfl := Option.some.inj hgen
        exact h.setNetwork _ _
      · cases hgen
    · cases hgen
  | nextNetwork mask =>
    obtain ⟨r, hr, rfl⟩ := Option.map_eq_some_iff.mp hs
    obtain ⟨index, -, hr⟩ := Option.bind_eq_some_iff.mp hr
    obtain ⟨n, -, hr⟩ := Option.bind_eq_some_iff.mp hr
    obtain rfl := Option.some.inj hr
    exact h.setNetwork _ _
  | nextAddress mask =>
    obtain ⟨r, hr, rfl⟩ := Option.map_eq_some_iff.mp hs
    obtain ⟨index, -, hr⟩ := Option.bind_eq_some_iff.mp hr
    obtain ⟨n, -, hr⟩ := Option.bind_eq_some_iff.mp hr
    split at hr
    · obtain ⟨added, hadded, hr⟩ := Option.bind_eq_some_iff.mp hr
      obtain rfl := Option.some.inj hr
      exact ((h.setNetwork index { n with addr := n.addr + 1 }).record hadded).2
    · cases hr
  | addAllocated addr =>
    obtain ⟨r, hr, rfl⟩ := Option.map_eq_some_iff.mp hs
    exact (h.record hr).2

theorem isAddressAllocated (hne : addr ≠ 0) : ∃ free,
    s.gen.isAddressAllocated addr = some free ∧ (free = true ↔ addr ∉ s.allocated) := by
  refine ⟨_, if_neg hne, ?_⟩
  rw [h.union, List.all_eq_true]
  simp only [not_exists, not_and]
  apply forall₂_congr
  intro e he
  rw [Bool.not_eq_true', ← Bool.not_eq_true, Bool.and_eq_true, decide_eq_true_iff,
    decide_eq_true_iff]
  rfl

end Exact

/-- The network has addresses in the block, but neither end of it is one. -/
def ReachesOver (e : Entry) (net : Ipv4Address) (mask : Ipv4Mask) : Prop :=
  e.addrLow.combineMask mask ≠ net ∧ e.addrHigh.combineMask mask ≠ net ∧
    ∃ a, e.Contains a ∧ a.combineMask mask = net

/-- A block has an end in the network. -/
def Meets (e : Entry) (net : Ipv4Address) (mask : Ipv4Mask) : Prop :=
  e.addrLow.combineMask mask = net ∨ e.addrHigh.combineMask mask = net

theorem toNat_prefix (a : Ipv4Address) (k : Nat) :
    (a.combineMask (BitVec.allOnes 32 <<< k)).toNat = a.toNat / 2 ^ k * 2 ^ k := by
  have hshift : a &&& (BitVec.allOnes 32 <<< k) = (a >>> k) <<< k := by
    apply BitVec.eq_of_getLsbD_eq
    intro i hi
    rw [BitVec.getLsbD_and, BitVec.getLsbD_shiftLeft, BitVec.getLsbD_shiftLeft,
      BitVec.getLsbD_ushiftRight, BitVec.getLsbD_allOnes]
    by_cases hik : i < k
    · rw [decide_eq_true hik, Bool.not_true, Bool.and_false, Bool.false_and, Bool.and_false,
        Bool.false_and]
    · rw [decide_eq_true (show i - k < 32 by omega), decide_eq_true hi,
        show k + (i - k) = i by omega, Bool.and_true, Bool.and_comm]
  have hle : a.toNat / 2 ^ k * 2 ^ k ≤ a.toNat := Nat.div_mul_le_self _ _
  unfold Ipv4Address.combineMask
  rw [hshift, BitVec.toNat_shiftLeft, BitVec.toNat_ushiftRight, Nat.shiftLeft_eq,
    Nat.shiftRight_eq_div_pow]
  exact Nat.mod_eq_of_lt (Nat.lt_of_le_of_lt hle a.isLt)

/-- The numbers with the prefix of `n` are those of its block. -/
theorem prefix_eq_iff {a n p : Nat} (hp : 0 < p) (hn : n / p * p = n) :
    a / p * p = n ↔ n ≤ a ∧ a < n + p := by
  rw [← hn, Nat.mul_left_inj (by omega), Nat.div_eq_iff hp]
  have := Nat.sub_add_cancel hp
  omega

theorem combineMask_eq_iff {net : Ipv4Address} {k : Nat}
    (hnet : net.combineMask (BitVec.allOnes 32 <<< k) = net) {a : Ipv4Address} :
    a.combineMask (BitVec.allOnes 32 <<< k) = net ↔
      net.toNat ≤ a.toNat ∧ a.toNat < net.toNat + 2 ^ k := by
  have hprefix : net.toNat / 2 ^ k * 2 ^ k = net.toNat := by
    rw [← toNat_prefix, hnet]
  rw [← BitVec.toNat_inj, toNat_prefix, prefix_eq_iff (Nat.two_pow_pos k) hprefix]

/-- For a contiguous mask the block begins below the network and ends above it. -/
theorem reachesOver_iff {e : Entry} {net : Ipv4Address} {k : Nat}
    (hnet : net.combineMask (BitVec.allOnes 32 <<< k) = net) :
    ReachesOver e net (BitVec.allOnes 32 <<< k) ↔
      e.addrLow.toNat < net.toNat ∧ net.toNat + 2 ^ k ≤ e.addrHigh.toNat := by
  have hpow : 0 < 2 ^ k := Nat.two_pow_pos k
  unfold ReachesOver
  rw [Ne, Ne, combineMask_eq_iff hnet, combineMask_eq_iff hnet]
  constructor
  · rintro ⟨hlow, hhigh, a, ha, hnear⟩
    rw [contains_nat] at ha
    rw [combineMask_eq_iff hnet] at hnear
    omega
  · rintro ⟨hlow, hhigh⟩
    refine ⟨by omega, by omega, net, contains_nat.mpr ⟨by omega, by omega⟩, hnet⟩

theorem Exact.isNetworkAllocated (h : Exact s) {net : Ipv4Address} {mask : Ipv4Mask}
    (hnet : net.combineMask mask = net) :
    ∃ free, s.gen.isNetworkAllocated net mask = some free ∧
      ((free = true ↔ ∀ a ∈ s.allocated, a.combineMask mask ≠ net) ↔
        (∃ e ∈ s.gen.entries, Meets e net mask) ∨
          ∀ e ∈ s.gen.entries, ¬ ReachesOver e net mask) := by
  refine ⟨_, if_pos hnet.symm, ?_⟩
  have hfree : (s.gen.entries.all fun e => !(net = e.addrLow.combineMask mask ||
      net = e.addrHigh.combineMask mask)) = true ↔ ¬ ∃ e ∈ s.gen.entries, Meets e net mask := by
    rw [List.all_eq_true]
    simp only [not_exists, not_and]
    apply forall₂_congr
    intro e he
    rw [Bool.not_eq_true', ← Bool.not_eq_true, Bool.or_eq_true, decide_eq_true_iff,
      decide_eq_true_iff, Meets, eq_comm, eq_comm (a := net)]
  rw [hfree]
  have hends {e : Entry} (he : e ∈ s.gen.entries) : e.Contains e.addrLow ∧ e.Contains e.addrHigh := by
    have hne := (h.ordered.of_mem (List.mem_map_of_mem he)).2
    change e.addrLow.toNat < e.addrHigh.toNat + 1 at hne
    rw [contains_nat, contains_nat]
    omega
  by_cases hmeets : ∃ e ∈ s.gen.entries, Meets e net mask
  · -- an end is an address that was added
    obtain ⟨e, he, hend⟩ := hmeets
    refine iff_of_true (iff_of_false (not_not_intro ⟨e, he, hend⟩) ?_) (Or.inl ⟨e, he, hend⟩)
    intro hall
    rcases hend with hlow | hhigh
    · exact hall _ ((h.union _).mpr ⟨e, he, (hends he).1⟩) hlow
    · exact hall _ ((h.union _).mpr ⟨e, he, (hends he).2⟩) hhigh
  · rw [iff_true_left hmeets, or_iff_right hmeets]
    constructor
    · rintro hall e he ⟨-, -, a, ha, hmask⟩
      exact hall a ((h.union a).mpr ⟨e, he, ha⟩) hmask
    · intro hnone a ha hmask
      obtain ⟨e, he, hin⟩ := (h.union a).mp ha
      refine hnone e he ⟨?_, ?_, a, hin, hmask⟩
      · exact fun hlow => hmeets ⟨e, he, Or.inl hlow⟩
      · exact fun hhigh => hmeets ⟨e, he, Or.inr hhigh⟩

/-- With a contiguous mask the answer is right unless a block begins below the network and ends
above it. -/
theorem Exact.isNetworkAllocated_contiguous (h : Exact s) {net : Ipv4Address} {k : Nat}
    (hnet : net.combineMask (BitVec.allOnes 32 <<< k) = net) :
    ∃ free, s.gen.isNetworkAllocated net (BitVec.allOnes 32 <<< k) = some free ∧
      ((free = true ↔ ∀ a ∈ s.allocated, a.combineMask (BitVec.allOnes 32 <<< k) ≠ net) ↔
        ¬ ∃ e ∈ s.gen.entries,
          e.addrLow.toNat < net.toNat ∧ net.toNat + 2 ^ k ≤ e.addrHigh.toNat) := by
  obtain ⟨free, hfree, hiff⟩ := h.isNetworkAllocated hnet
  refine ⟨free, hfree, hiff.trans ?_⟩
  have hle {e : Entry} (he : e ∈ s.gen.entries) : e.addrLow ≤ e.addrHigh := by
    have hne := (h.ordered.of_mem (List.mem_map_of_mem he)).2
    exact BitVec.le_def.mpr (Nat.le_of_lt_succ hne)
  simp only [not_exists, not_and]
  constructor
  · rintro hcond e he hlow hhigh
    have hover := (reachesOver_iff hnet).mpr ⟨hlow, hhigh⟩
    rcases hcond with ⟨f, hf, hmeets⟩ | hnone
    · -- the block that reaches over the network leaves no place for another
      have hin (a : Ipv4Address) (ha : a.combineMask (BitVec.allOnes 32 <<< k) = net) :
          e.interval.1 ≤ a.toNat ∧ a.toNat < e.interval.2 := by
        rw [combineMask_eq_iff hnet] at ha
        change e.addrLow.toNat ≤ a.toNat ∧ a.toNat < e.addrHigh.toNat + 1
        omega
      have hboth {a : Ipv4Address} (ha : a.combineMask (BitVec.allOnes 32 <<< k) = net)
          (hfa : f.Contains a) : e.interval = f.interval :=
        h.ordered.eq_of_covers (List.mem_map_of_mem he) (List.mem_map_of_mem hf) (hin a ha)
          (Entry.contains_iff.mp hfa)
      have hends := hle hf
      rcases hmeets with hend | hend
      · have heq := hboth hend ⟨BitVec.le_refl _, hends⟩
        have hlows : e.addrLow.toNat = f.addrLow.toNat := congrArg Prod.fst heq
        rw [combineMask_eq_iff hnet] at hend
        omega
      · have heq := hboth hend ⟨hends, BitVec.le_refl _⟩
        have hhighs : e.addrHigh.toNat + 1 = f.addrHigh.toNat + 1 := congrArg Prod.snd heq
        rw [combineMask_eq_iff hnet] at hend
        omega
    · exact hnone e he hover
  · intro hnone
    right
    intro e he hover
    obtain ⟨hlow, hhigh⟩ := (reachesOver_iff hnet).mp hover
    exact hnone e he hlow hhigh

/-- In test mode the blocks are in order, do not meet, and hold what was added; adding and asking
for an address is exact, and asking for a network is just when no block reaches over it. -/
theorem allocated_exact {calls : List Call} (hs : Transition.exec step start calls = some s) :
    (s.gen.entries.Pairwise fun e f => e.addrHigh < f.addrLow) ∧
    (∀ a, a ∈ s.allocated ↔ ∃ e ∈ s.gen.entries, e.Contains a) ∧
    (∀ a, a ≠ 0 → ∃ added gen, s.gen.addAllocated a = some (added, gen) ∧
      (added = true ↔ a ∉ s.allocated)) ∧
    (∀ a, a ≠ 0 → ∃ free, s.gen.isAddressAllocated a = some free ∧
      (free = true ↔ a ∉ s.allocated)) ∧
    ∀ net mask, net.combineMask mask = net →
      ∃ free, s.gen.isNetworkAllocated net mask = some free ∧
        ((free = true ↔ ∀ a ∈ s.allocated, a.combineMask mask ≠ net) ↔
          (∃ e ∈ s.gen.entries, Meets e net mask) ∨
            ∀ e ∈ s.gen.entries, ¬ ReachesOver e net mask) := by
  have h : Exact s :=
    Transition.exec_invariant (fun _ _ _ h hstep => h.step hstep) exact_start hs
  refine ⟨?_, h.union, fun a hne => h.addAllocated hne, fun a hne => h.isAddressAllocated hne,
    fun net mask hnet => h.isNetworkAllocated hnet⟩
  have hpairs := List.pairwise_map.mp h.ordered.pairwise
  apply hpairs.imp
  intro e f hef
  exact BitVec.lt_def.mpr hef

section
def fourAddresses : List Call := [1, 2, 3, 4].map Call.addAllocated

theorem allocated_exact_four : ∃ s, Transition.exec step start fourAddresses = some s ∧
    ∀ a, a ∈ s.allocated ↔ ∃ e ∈ s.gen.entries, e.Contains a := by
  obtain ⟨s, hs, -⟩ : ∃ s ∈ Transition.exec step start fourAddresses, True := by
    decide +kernel
  exact ⟨s, hs, (allocated_exact hs).2.1⟩

/-- The network of the addresses 2 and 3 lies within the block from 1 to 4. -/
theorem not_allocated_exact : ¬ ∀ (calls : List Call) (s : Recorded),
    Transition.exec step start calls = some s → ∀ net mask, net.combineMask mask = net →
      ∀ free, s.gen.isNetworkAllocated net mask = some free →
        (free = true ↔ ∀ a ∈ s.allocated, a.combineMask mask ≠ net) := by
  intro h
  obtain ⟨s, hs, hfree, hmem⟩ : ∃ s ∈ Transition.exec step start fourAddresses,
      s.gen.isNetworkAllocated 2 0xfffffffe = some true ∧ 3 ∈ s.allocated := by
    decide +kernel
  exact (h _ s hs 2 0xfffffffe (by decide) true hfree).mp rfl 3 hmem (by decide)

end

end Recorded

end Ipv4AddressGenerator
end CudaNs3.Internet
