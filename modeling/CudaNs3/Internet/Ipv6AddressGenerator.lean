import CudaNs3.Internet.Ipv6Header
import CudaNs3.Lib.ByteShifts
import CudaNs3.Lib.Intervals
import CudaNs3.Lib.Transition
import Mathlib.Data.Fintype.Basic

/-!
# The generator of IPv6 addresses

For each length of prefix a network and an address in 16 bytes that are counted up byte by byte,
and the addresses allocated so far as blocks. The network is kept shifted to the right by the
length of the identifiers; the loop of `Init` that shifts it does not stop before it has left the
array when that length is below 8. The ends of a block are compared with an address after one was
added to or taken from their last byte only, so that the address before a block whose lowest
address ends in a zero byte comes out above the block.
-/

namespace CudaNs3.Internet

set_option autoImplicit false

abbrev Ipv6Prefix := BitVec 128

namespace Ipv6AddressGenerator

structure NetworkState where
  shift : Nat
  network : List UInt8
  addr : List UInt8

structure Entry where
  addrLow : Ipv6Address
  addrHigh : Ipv6Address
deriving DecidableEq

end Ipv6AddressGenerator

structure Ipv6AddressGenerator where
  netTable : Fin 128 → Ipv6AddressGenerator.NetworkState
  entries : List Ipv6AddressGenerator.Entry
  base : Ipv6Address
  test : Bool
  shift_eq : ∀ i, (netTable i).shift = 128 - i

namespace Ipv6AddressGenerator

def getBytes (a : BitVec 128) : List UInt8 := Words.toBytes 16 a.toNat

/-- The constructor of `Ipv6Address`. -/
def ofBytes (bytes : List UInt8) : Ipv6Address := BitVec.ofNat 128 (Words.ofBytes bytes)

def reset : Ipv6AddressGenerator where
  netTable i := { shift := 128 - i, network := getBytes 1, addr := getBytes 1 }
  entries := []
  base := 1
  test := false
  shift_eq _ := rfl

def testMode (s : Ipv6AddressGenerator) : Ipv6AddressGenerator := { s with test := true }

/-- The lowest bit of a byte that is set. -/
def lowestBit (byte : UInt8) : Option Nat :=
  (List.range 8).find? fun j => (byte >>> UInt8.ofNat j) &&& 1 ≠ 0

/-- The zero bits at the end, with the last byte first. -/
def zeroBits : List UInt8 → Option Nat
  | [] => none
  | byte :: before =>
    match lowestBit byte with
    | some j => some j
    | none => (zeroBits before).map (· + 8)

/-- `none` for an illegal prefix. -/
def prefixToIndex (pre : Ipv6Prefix) : Option (Fin 128) :=
  (zeroBits (getBytes pre).reverse).bind fun zeros =>
    if h : 0 < 128 - zeros ∧ 128 - zeros < 128 then some ⟨128 - zeros, h.2⟩ else none

def setNetwork (s : Ipv6AddressGenerator) (index : Fin 128) (network addr : List UInt8) :
    Ipv6AddressGenerator where
  netTable := Function.update s.netTable index { s.netTable index with network, addr }
  entries := s.entries
  base := s.base
  test := s.test
  shift_eq i := by
    by_cases h : i = index
    · rw [h, Function.update_self]
      exact s.shift_eq index
    · rw [Function.update_of_ne h]
      exact s.shift_eq i

/-- The loop of `Init` from byte `j` down to byte `a`. As `j` is unsigned it does not stop when `a`
is zero, and goes on with the byte before the array: `none`. -/
def normalize (a b : Nat) : Nat → List UInt8 → Option (List UInt8)
  | 0, network => if a = 0 then none else some network
  | j + 1, network =>
    if a ≤ j + 1 then
      normalize a b j
        (network.set (j + 1) (ByteShifts.joinDown b (network.getD j 0) (network.getD (j + 1) 0)))
    else some network

/-- `none` for an illegal prefix, and where the source reads outside the array. -/
def init (s : Ipv6AddressGenerator) (net : Ipv6Address) (pre : Ipv6Prefix)
    (interfaceId : Ipv6Address) : Option Ipv6AddressGenerator := do
  let index ← prefixToIndex pre
  let a := (s.netTable index).shift / 8
  let b := (s.netTable index).shift % 8
  let network ← normalize a b 15 (List.replicate a 0 ++ (getBytes net).take (16 - a))
  some ({ s with base := interfaceId }.setNetwork index network (getBytes interfaceId))

/-- The network in its place. -/
def NetworkState.shifted (n : NetworkState) : List UInt8 :=
  ByteShifts.shiftUp (n.shift % 8)
    (n.network.drop (n.shift / 8) ++ List.replicate (n.shift / 8) 0)

def getNetwork (s : Ipv6AddressGenerator) (pre : Ipv6Prefix) : Option Ipv6Address := do
  let index ← prefixToIndex pre
  some (ofBytes (s.netTable index).shifted)

def nextNetwork (s : Ipv6AddressGenerator) (pre : Ipv6Prefix) :
    Option (Ipv6Address × Ipv6AddressGenerator) := do
  let index ← prefixToIndex pre
  let network := ByteShifts.increment (s.netTable index).network
  let s := s.setNetwork index network (getBytes s.base)
  some (ofBytes (s.netTable index).shifted, s)

/-- `taddr[15] += d` -/
def addToLast (d : BitVec 8) (taddr : Ipv6Address) : Ipv6Address :=
  taddr.extractLsb' 8 120 ++ (taddr.extractLsb' 0 8 + d)

/-- The loop of `AddAllocated` over the blocks; `none` at a collision. -/
def addTo (addr : Ipv6Address) : List Entry → Option (List Entry)
  | [] => some [⟨addr, addr⟩]
  | e :: rest =>
    if ¬ addr < e.addrLow ∧ (addr < e.addrHigh ∨ addr = e.addrHigh) then none
    else if addr < addToLast (-1) e.addrLow then some (⟨addr, addr⟩ :: e :: rest)
    else if addr = addToLast 1 e.addrLow then
      if rest.head?.any (addr = ·.addrLow) then none else some (⟨e.addrLow, addr⟩ :: rest)
    else if addr = addToLast (-1) e.addrLow then some (⟨addr, e.addrHigh⟩ :: rest)
    else (addTo addr rest).map (e :: ·)

/-- `none` at a collision unless in test mode. -/
def addAllocated (s : Ipv6AddressGenerator) (address : Ipv6Address) :
    Option (Bool × Ipv6AddressGenerator) :=
  match addTo address s.entries with
  | none => if s.test then some (false, s) else none
  | some entries => some (true, { s with entries })

def nextAddress (s : Ipv6AddressGenerator) (pre : Ipv6Prefix) :
    Option (Ipv6Address × Ipv6AddressGenerator) := do
  let index ← prefixToIndex pre
  let n := s.netTable index
  let addr := ofBytes (n.shifted.zipWith (· ||| ·) n.addr)
  ((s.setNetwork index n.network (ByteShifts.increment n.addr)).addAllocated addr).map
    fun r => (addr, r.2)

/-- Whether the address is free. -/
def isAddressAllocated (s : Ipv6AddressGenerator) (address : Ipv6Address) : Bool :=
  s.entries.all fun e =>
    !(!(address < e.addrLow) && (address < e.addrHigh || address = e.addrHigh))

/-! ### What the networks and addresses are counted by -/

inductive Call where
  | getNetwork
  | nextNetwork
  | nextAddress

def answer (pre : Ipv6Prefix) (s : Ipv6AddressGenerator) :
    Call → Option (Ipv6Address × Ipv6AddressGenerator)
  | .getNetwork => (s.getNetwork pre).map fun network => (network, s)
  | .nextNetwork => s.nextNetwork pre
  | .nextAddress => s.nextAddress pre

/-- A network and an identifier. -/
structure Counter where
  network : Ipv6Address
  identifier : Ipv6Address

/-- Networks are `size` addresses apart, and each begins with the identifier `base`. -/
def Counter.answer (size base : Ipv6Address) (c : Counter) : Call → Ipv6Address × Counter
  | .getNetwork => (c.network, c)
  | .nextNetwork => (c.network + size, { network := c.network + size, identifier := base })
  | .nextAddress => (c.network ||| c.identifier, { c with identifier := c.identifier + 1 })

/-- The prefix of the given length. -/
def contiguous (length : Nat) : Ipv6Prefix := BitVec.allOnes 128 <<< (128 - length)

/-- After `Init` every run of calls is answered by counting; in test mode every run is completed. -/
def CountsFrom (s : Ipv6AddressGenerator) (length : Nat) (net interfaceId : Ipv6Address) : Prop :=
  ∃ t, s.init net (contiguous length) interfaceId = some t ∧ ∀ calls,
    (∀ addresses, Transition.answers (answer (contiguous length)) t calls = some addresses →
      Transition.answers
        (fun (c : Counter) call => some (c.answer (BitVec.twoPow 128 (128 - length)) interfaceId call))
        ⟨net, interfaceId⟩ calls = some addresses) ∧
    (s.test = true → (Transition.answers (answer (contiguous length)) t calls).isSome = true)

/-! ### Prefixes and bytes -/

theorem lowestBit_eq {byte : UInt8} {z : Nat} (hz : z < 8) (hset : byte.toNat.testBit z = true)
    (hclear : ∀ j < z, byte.toNat.testBit j = false) : lowestBit byte = some z := by
  have hbit {j : Nat} (hj : j < 8) :
      decide ((byte >>> UInt8.ofNat j) &&& 1 ≠ 0) = byte.toNat.testBit j := by
    rw [Nat.testBit_eq_decide_div_mod_eq, decide_eq_decide, ne_eq, ← UInt8.toNat_inj,
      UInt8.toNat_and, UInt8.toNat_shiftRight, UInt8.toNat_ofNat', UInt8.toNat_one,
      Nat.and_one_is_mod, Nat.shiftRight_eq_div_pow, Nat.mod_eq_of_lt (show j < 2 ^ 8 by omega),
      Nat.mod_eq_of_lt hj, UInt8.toNat_zero]
    omega
  refine List.find?_range_eq_some.mpr ⟨(hbit hz).trans hset, List.mem_range.mpr hz, ?_⟩
  intro j hj
  rw [hbit (by omega), hclear j hj]
  rfl

theorem zeroBits_toBytes {n m z : Nat} (hm : m % 2 = 1) (hz : z < 8 * n) :
    zeroBits (Words.toBytes n (m * 2 ^ z)).reverse = some z := by
  induction n generalizing z with
  | zero => omega
  | succ n ih =>
    rw [Words.toBytes, List.reverse_append, List.reverse_singleton, List.singleton_append, zeroBits]
    have htest {j : Nat} (hj : j < 8) :
        (UInt8.ofNat (m * 2 ^ z)).toNat.testBit j = (decide (z ≤ j) && m.testBit (j - z)) := by
      rw [UInt8.toNat_ofNat', Nat.testBit_mod_two_pow, decide_eq_true hj, Bool.true_and,
        ← Nat.shiftLeft_eq, Nat.testBit_shiftLeft]
    by_cases hlt : z < 8
    · have hset : (UInt8.ofNat (m * 2 ^ z)).toNat.testBit z = true := by
        rw [htest hlt, Nat.sub_self, decide_eq_true (Nat.le_refl z), Bool.true_and,
          Nat.testBit_zero, decide_eq_true hm]
      rw [lowestBit_eq hlt hset]
      intro j hj
      rw [htest (by omega), decide_eq_false (by omega), Bool.false_and]
    · -- the byte is zero
      obtain ⟨k, rfl⟩ := Nat.exists_eq_add_of_le' (show 8 ≤ z by omega)
      have hshift : m * 2 ^ (k + 8) = m * 2 ^ k * 256 := by
        rw [Nat.pow_add, ← Nat.mul_assoc]
      have hbyte : UInt8.ofNat (m * 2 ^ (k + 8)) = 0 := by
        rw [← UInt8.toNat_inj, UInt8.toNat_ofNat', hshift]
        exact Nat.mul_mod_left _ _
      have hnone : lowestBit 0 = none := by decide
      rw [hbyte, hnone, hshift, Nat.mul_div_cancel _ (by decide), ih (by omega)]
      rfl

theorem toNat_contiguous {length : Nat} (h : length ≤ 128) :
    (contiguous length).toNat = (2 ^ length - 1) * 2 ^ (128 - length) := by
  have hsplit : 2 ^ 128 = 2 ^ length * 2 ^ (128 - length) := by
    rw [← Nat.pow_add, Nat.add_sub_cancel' h]
  have hpos := Nat.two_pow_pos length
  have hrest := Nat.two_pow_pos (128 - length)
  have hones : 2 ^ 128 - 1 = 2 ^ length * (2 ^ (128 - length) - 1) + (2 ^ length - 1) := by
    rw [hsplit, Nat.mul_sub_one]
    have hle := Nat.le_mul_of_pos_right (2 ^ length) hrest
    omega
  unfold contiguous
  rw [BitVec.toNat_shiftLeft, BitVec.toNat_allOnes, hones, Nat.shiftLeft_eq, hsplit,
    Nat.mul_mod_mul_right, Nat.mul_add_mod, Nat.mod_eq_of_lt (by omega)]

theorem prefixToIndex_contiguous (index : Fin 128) (h : 0 < index) :
    prefixToIndex (contiguous index) = some index := by
  have hpos : 0 < (index : Nat) := Fin.lt_def.mp h
  have hlt := index.isLt
  have hodd : (2 ^ (index : Nat) - 1) % 2 = 1 := by
    obtain ⟨k, hk⟩ := Nat.exists_eq_add_one.mpr hpos
    have hpow := Nat.two_pow_pos k
    rw [hk, Nat.pow_succ]
    omega
  have hzeros : zeroBits (getBytes (contiguous index)).reverse = some (128 - (index : Nat)) := by
    unfold getBytes
    rw [toNat_contiguous (Nat.le_of_lt hlt)]
    exact zeroBits_toBytes hodd (by omega)
  have hback : 128 - (128 - (index : Nat)) = index := by omega
  unfold prefixToIndex
  rw [hzeros, Option.bind_some, dif_pos (by omega)]
  exact congrArg some (Fin.ext hback)

theorem pow_bytes : 256 ^ 16 = 2 ^ 128 := by decide +kernel

@[simp] theorem length_getBytes (a : BitVec 128) : (getBytes a).length = 16 := Words.length_toBytes

@[simp] theorem ofBytes_getBytes (a : BitVec 128) : Words.ofBytes (getBytes a) = a.toNat := by
  apply Words.ofBytes_toBytes
  rw [pow_bytes]
  exact a.isLt

section
variable {a b j : Nat} {p : UInt8} {first mid done : List UInt8}

/-- The loop shifts the bytes between those it does not reach and those it has shifted. -/
theorem normalize_spec (hfirst : first.length + 1 = a) (hj : j + 1 = a + mid.length) :
    normalize a b j (first ++ p :: (mid ++ done)) =
      some (first ++ p :: (ByteShifts.shiftDown b p mid ++ done)) := by
  induction mid using List.reverseRecOn generalizing j done with
  | nil =>
    cases j with
    | zero => exact if_neg (by omega)
    | succ j =>
      rw [List.length_nil] at hj
      exact if_neg (by omega)
  | append_singleton mid y ih =>
    rw [List.length_append, List.length_singleton] at hj
    obtain ⟨j, rfl⟩ : ∃ i, j = i + 1 := Nat.exists_eq_add_one.mpr (by omega)
    have hplace : j + 1 = (first ++ p :: mid).length := by
      rw [List.length_append, List.length_cons]
      omega
    have hrow : first ++ p :: (mid ++ [y] ++ done) = (first ++ p :: mid) ++ y :: done := by simp
    have hcur : (first ++ p :: (mid ++ [y] ++ done)).getD (j + 1) 0 = y := by
      rw [hrow, hplace, List.getD_eq_getElem?_getD, List.getElem?_append_right (Nat.le_refl _),
        Nat.sub_self]
      rfl
    have hbefore : (first ++ p :: (mid ++ [y] ++ done)).getD j 0 = mid.getLastD p := by
      have hlast : j = (first ++ p :: mid).length - 1 := by omega
      have hlt : j < (first ++ p :: mid).length := by omega
      rw [hrow, List.getD_eq_getElem?_getD, List.getElem?_append_left hlt, hlast,
        ← List.getLast?_eq_getElem?, List.getLast?_append, List.getLast?_cons,
        List.getLastD_eq_getLast?]
      rfl
    have hset (z : UInt8) : (first ++ p :: (mid ++ [y] ++ done)).set (j + 1) z =
        first ++ p :: (mid ++ z :: done) := by
      rw [hrow, hplace, List.set_append_right _ _ (Nat.le_refl _), Nat.sub_self]
      simp
    unfold normalize
    rw [if_pos (by omega), hcur, hbefore, hset, ih (by omega),
      ByteShifts.shiftDown_append_singleton]
    simp

end

/-- The loop stops when it does not come down to the first byte, and has then divided. -/
theorem normalize_eq {a b : Nat} {bs : List UInt8} (hlength : bs.length = 16) (ha : 0 < a)
    (ha16 : a ≤ 16) :
    normalize a b 15 (List.replicate a 0 ++ bs.take (16 - a)) =
      some (List.replicate a 0 ++ ByteShifts.shiftDown b 0 (bs.take (16 - a))) := by
  obtain ⟨n, rfl⟩ := Nat.exists_eq_add_one.mpr ha
  have hmid : (bs.take (16 - (n + 1))).length = 16 - (n + 1) := by
    rw [List.length_take, hlength, Nat.min_eq_left (Nat.sub_le _ _)]
  have hfirst : (List.replicate n (0 : UInt8)).length + 1 = n + 1 := by rw [List.length_replicate]
  have hloop := @normalize_spec (n + 1) b 15 0 _ (bs.take (16 - (n + 1))) [] hfirst (by omega)
  rw [List.append_nil, List.append_nil] at hloop
  rw [List.replicate_succ', List.append_assoc, List.append_assoc]
  exact hloop

theorem normalize_zero (b j : Nat) (network : List UInt8) : normalize 0 b j network = none := by
  induction j generalizing network with
  | zero => rfl
  | succ j ih => exact (if_pos (Nat.zero_le _)).trans (ih _)

theorem ofNat_mod (n k : Nat) : BitVec.ofNat 128 (n % 2 ^ 128 * k) = BitVec.ofNat 128 (n * k) := by
  rw [← BitVec.toNat_inj, BitVec.toNat_ofNat, BitVec.toNat_ofNat, Nat.mod_mul_mod]

/-! ### Counting -/

/-- The bytes of a state hold the network, shifted, and the identifier. -/
structure Holds (n : NetworkState) (c : Counter) : Prop where
  shift_le : n.shift ≤ 128
  length_network : n.network.length = 16
  length_addr : n.addr.length = 16
  network : c.network = BitVec.ofNat 128 (Words.ofBytes n.network * 2 ^ n.shift)
  identifier : c.identifier = BitVec.ofNat 128 (Words.ofBytes n.addr)

namespace Holds
variable {n : NetworkState} {c : Counter} (h : Holds n c)
include h

theorem length_shifted : n.shifted.length = 16 := by
  have hle := h.shift_le
  unfold NetworkState.shifted
  rw [ByteShifts.length_shiftUp, List.length_append, List.length_drop, List.length_replicate,
    h.length_network]
  omega

theorem shifted : ofBytes n.shifted = c.network := by
  have hle := h.shift_le
  have hlength := h.length_network
  unfold NetworkState.shifted ofBytes
  rw [ByteShifts.ofBytes_shiftUp_drop (by omega) (by omega), Nat.div_add_mod, hlength, h.network,
    pow_bytes]
  have hmod := ofNat_mod (Words.ofBytes n.network * 2 ^ n.shift) 1
  rwa [Nat.mul_one, Nat.mul_one] at hmod

theorem joined : ofBytes (n.shifted.zipWith (· ||| ·) n.addr) = c.network ||| c.identifier := by
  unfold ofBytes
  rw [ByteShifts.ofBytes_or (h.length_shifted.trans h.length_addr.symm), BitVec.ofNat_or,
    h.identifier]
  exact congrArg (· ||| _) h.shifted

theorem nextNetwork (base : Ipv6Address) :
    Holds { n with network := ByteShifts.increment n.network, addr := getBytes base }
      ⟨c.network + BitVec.twoPow 128 n.shift, base⟩ where
  shift_le := h.shift_le
  length_network := (ByteShifts.length_increment _).trans h.length_network
  length_addr := length_getBytes base
  network := by
    change c.network + BitVec.twoPow 128 n.shift =
      BitVec.ofNat 128 (Words.ofBytes (ByteShifts.increment n.network) * 2 ^ n.shift)
    have hpow : BitVec.twoPow 128 n.shift = BitVec.ofNat 128 (2 ^ n.shift) := by
      rw [← BitVec.toNat_inj, BitVec.toNat_twoPow, BitVec.toNat_ofNat]
    rw [ByteShifts.ofBytes_increment, h.length_network, pow_bytes, ofNat_mod, h.network, hpow,
      ← BitVec.ofNat_add, ← Nat.succ_mul]
  identifier := by
    change base = BitVec.ofNat 128 (Words.ofBytes (getBytes base))
    rw [ofBytes_getBytes, BitVec.ofNat_toNat, BitVec.setWidth_eq]

theorem nextAddress :
    Holds { n with addr := ByteShifts.increment n.addr }
      { c with identifier := c.identifier + 1 } where
  shift_le := h.shift_le
  length_network := h.length_network
  length_addr := (ByteShifts.length_increment _).trans h.length_addr
  network := h.network
  identifier := by
    change c.identifier + 1 = BitVec.ofNat 128 (Words.ofBytes (ByteShifts.increment n.addr))
    have hmod := ofNat_mod (Words.ofBytes n.addr + 1) 1
    rw [Nat.mul_one, Nat.mul_one] at hmod
    rw [ByteShifts.ofBytes_increment, h.length_addr, pow_bytes, hmod, h.identifier, BitVec.ofNat_add]
    rfl

end Holds

section
variable {s t : Ipv6AddressGenerator} {index : Fin 128} {c : Counter} {call : Call}
  {net interfaceId addr : Ipv6Address} {added : Bool}

@[simp] theorem netTable_setNetwork (s : Ipv6AddressGenerator) (index : Fin 128)
    (network addr : List UInt8) : (s.setNetwork index network addr).netTable index =
      { s.netTable index with network, addr } := Function.update_self ..

theorem addAllocated_frame (h : s.addAllocated addr = some (added, t)) :
    t.netTable = s.netTable ∧ t.base = s.base ∧ t.test = s.test := by
  unfold addAllocated at h
  split at h
  · split at h
    · obtain ⟨-, rfl⟩ := Prod.mk.inj (Option.some.inj h)
      exact ⟨rfl, rfl, rfl⟩
    · cases h
  · obtain ⟨-, rfl⟩ := Prod.mk.inj (Option.some.inj h)
    exact ⟨rfl, rfl, rfl⟩

theorem addAllocated_test (h : s.test = true) (addr : Ipv6Address) :
    ∃ added t, s.addAllocated addr = some (added, t) := by
  unfold addAllocated
  split
  · exact ⟨_, _, if_pos h⟩
  · exact ⟨_, _, rfl⟩

/-- The generator at a prefix and what it is counted by. -/
structure At (index : Fin 128) (base : Ipv6Address) (s : Ipv6AddressGenerator) (c : Counter) :
    Prop where
  holds : Holds (s.netTable index) c
  base : s.base = base

/-- What a call does with a prefix whose index is known. -/
theorem nextAddress_eq {pre : Ipv6Prefix} (hpre : prefixToIndex pre = some index) :
    s.nextAddress pre =
      ((s.setNetwork index (s.netTable index).network
        (ByteShifts.increment (s.netTable index).addr)).addAllocated
          (ofBytes ((s.netTable index).shifted.zipWith (· ||| ·) (s.netTable index).addr))).map
        fun r => (ofBytes ((s.netTable index).shifted.zipWith (· ||| ·) (s.netTable index).addr),
          r.2) := by
  unfold nextAddress
  rw [hpre]
  rfl

theorem At.answer {pre : Ipv6Prefix} {base : Ipv6Address} {r : Ipv6Address × Ipv6AddressGenerator}
    (hpre : prefixToIndex pre = some index) (h : At index base s c)
    (hr : answer pre s call = some r) :
    r.1 = (c.answer (BitVec.twoPow 128 (128 - index)) base call).1 ∧
      At index base r.2 (c.answer (BitVec.twoPow 128 (128 - index)) base call).2 := by
  cases call with
  | getNetwork =>
    unfold Ipv6AddressGenerator.answer getNetwork at hr
    rw [hpre] at hr
    obtain rfl := Option.some.inj hr
    exact ⟨h.holds.shifted, h⟩
  | nextNetwork =>
    unfold Ipv6AddressGenerator.answer Ipv6AddressGenerator.nextNetwork at hr
    rw [hpre] at hr
    obtain rfl := Option.some.inj hr
    have hnext := h.holds.nextNetwork base
    rw [← s.shift_eq index]
    refine ⟨?_, ?_, h.base⟩
    · change ofBytes ((s.setNetwork index _ _).netTable index).shifted = _
      rw [netTable_setNetwork, h.base]
      exact hnext.shifted
    · change Holds ((s.setNetwork index _ _).netTable index) _
      rw [netTable_setNetwork, h.base]
      exact hnext
  | nextAddress =>
    unfold Ipv6AddressGenerator.answer at hr
    rw [nextAddress_eq hpre] at hr
    obtain ⟨q, hq, rfl⟩ := Option.map_eq_some_iff.mp hr
    obtain ⟨htable, hbase, -⟩ := addAllocated_frame hq
    refine ⟨h.holds.joined, ?_, hbase.trans h.base⟩
    rw [htable, netTable_setNetwork]
    exact h.holds.nextAddress

theorem answer_test {pre : Ipv6Prefix} (hpre : prefixToIndex pre = some index)
    (h : s.test = true) (call : Call) :
    ∃ r, answer pre s call = some r ∧ r.2.test = true := by
  cases call with
  | getNetwork =>
    refine ⟨(ofBytes (s.netTable index).shifted, s), ?_, h⟩
    unfold Ipv6AddressGenerator.answer getNetwork
    rw [hpre]
    rfl
  | nextNetwork =>
    unfold Ipv6AddressGenerator.answer Ipv6AddressGenerator.nextNetwork
    rw [hpre]
    exact ⟨_, rfl, h⟩
  | nextAddress =>
    unfold Ipv6AddressGenerator.answer
    rw [nextAddress_eq hpre]
    have htest : (s.setNetwork index (s.netTable index).network
        (ByteShifts.increment (s.netTable index).addr)).test = true := h
    obtain ⟨added, t, ht⟩ := addAllocated_test htest
      (ofBytes ((s.netTable index).shifted.zipWith (· ||| ·) (s.netTable index).addr))
    rw [ht]
    exact ⟨_, rfl, (addAllocated_frame ht).2.2.trans htest⟩

/-- Up to a length of 120 the network is brought down by at least one whole byte. -/
theorem init_at (hpos : 0 < index) (hle : (index : Nat) ≤ 120)
    (hnet : 2 ^ (128 - (index : Nat)) ∣ net.toNat) :
    ∃ t, s.init net (contiguous index) interfaceId = some t ∧
      At index interfaceId t ⟨net, interfaceId⟩ ∧ t.test = s.test := by
  have hshift := s.shift_eq index
  have hnormal := normalize_eq (b := (s.netTable index).shift % 8) (length_getBytes net)
    (show 0 < (s.netTable index).shift / 8 by omega) (by omega)
  have hbytes : (s.netTable index).shift / 8 ≤ (getBytes net).length := by
    rw [length_getBytes]
    omega
  have hbits : (s.netTable index).shift % 8 ≤ 8 := by omega
  have hvalue := ByteShifts.ofBytes_shiftDown_take hbytes hbits
  rw [length_getBytes, Nat.div_add_mod, ofBytes_getBytes] at hvalue
  have hinit : s.init net (contiguous index) interfaceId =
      some ({ s with base := interfaceId }.setNetwork index
        (List.replicate ((s.netTable index).shift / 8) 0 ++
          ByteShifts.shiftDown ((s.netTable index).shift % 8) 0
            ((getBytes net).take (16 - (s.netTable index).shift / 8))) (getBytes interfaceId)) := by
    unfold init
    rw [prefixToIndex_contiguous index hpos]
    change (normalize _ _ 15 _).bind _ = _
    rw [hnormal]
    rfl
  refine ⟨_, hinit, ⟨?_, rfl⟩, rfl⟩
  rw [netTable_setNetwork]
  refine ⟨?_, ?_, length_getBytes interfaceId, ?_, ?_⟩
  · change (s.netTable index).shift ≤ 128
    omega
  · change (_ ++ _ : List UInt8).length = 16
    rw [List.length_append, List.length_replicate, ByteShifts.length_shiftDown, List.length_take,
      length_getBytes]
    omega
  · change net = BitVec.ofNat 128 (Words.ofBytes _ * 2 ^ (s.netTable index).shift)
    rw [hvalue, hshift, Nat.div_mul_cancel hnet, BitVec.ofNat_toNat, BitVec.setWidth_eq]
  · change interfaceId = BitVec.ofNat 128 (Words.ofBytes (getBytes interfaceId))
    rw [ofBytes_getBytes, BitVec.ofNat_toNat, BitVec.setWidth_eq]

/-- Beyond a length of 120 the loop leaves the array. -/
theorem init_none (hlt : 120 < (index : Nat)) : s.init net (contiguous index) interfaceId = none := by
  have hshift := s.shift_eq index
  have hzero : (s.netTable index).shift / 8 = 0 := by omega
  unfold init
  rw [prefixToIndex_contiguous index (Fin.lt_def.mpr (by change 0 < (index : Nat); omega))]
  change (normalize ((s.netTable index).shift / 8) _ 15 _).bind _ = _
  rw [hzero, normalize_zero]
  rfl

/-- The arithmetic is that of 128 bits exactly for prefixes that leave a whole byte or more. -/
theorem countsFrom_iff (hpos : 0 < index) (hnet : 2 ^ (128 - (index : Nat)) ∣ net.toNat) :
    CountsFrom s index net interfaceId ↔ (index : Nat) ≤ 120 := by
  constructor
  · rintro ⟨t, ht, -⟩
    by_contra hgt
    rw [init_none (by omega)] at ht
    cases ht
  · intro hle
    obtain ⟨t, ht, hat, htest⟩ : ∃ t, s.init net (contiguous index) interfaceId = some t ∧
        At index interfaceId t ⟨net, interfaceId⟩ ∧ t.test = s.test := init_at hpos hle hnet
    have hpre := prefixToIndex_contiguous index hpos
    refine ⟨t, ht, fun calls => ⟨fun addresses haddresses => ?_, fun hmode => ?_⟩⟩
    · exact Transition.answers_refines (fun _ _ _ _ h hr => h.answer hpre hr) hat haddresses
    · exact Transition.isSome_answers (P := fun s => s.test = true)
        (fun _ call h => answer_test hpre h call) (htest.trans hmode) calls

end

/-! ### The blocks -/

namespace Entry

def Contains (e : Entry) (a : Ipv6Address) : Prop := e.addrLow ≤ a ∧ a ≤ e.addrHigh

/-- The block as a half-open interval. -/
def interval (e : Entry) : Nat × Nat := (e.addrLow.toNat, e.addrHigh.toNat + 1)

/-- The block does not begin with a zero byte in the last place, or the address is not one of the
256 from there on that are above the block. -/
def Clear (e : Entry) (a : Ipv6Address) : Prop :=
  e.addrLow.toNat % 256 = 0 → ¬ (e.addrHigh.toNat < a.toNat ∧ a.toNat ≤ e.addrLow.toNat + 255)

instance (e : Entry) (a : Ipv6Address) : Decidable (e.Clear a) :=
  inferInstanceAs (Decidable (_ → _))

end Entry

/-- Blocks that are in order and do not meet. -/
def Ordered (entries : List Entry) : Prop := Intervals.Ascending 0 (entries.map Entry.interval)

section
variable {a b : Ipv6Address} {e f : Entry} {entries rest : List Entry} {lo : Nat}

theorem Entry.contains_iff : e.Contains a ↔
    e.addrLow.toNat ≤ a.toNat ∧ a.toNat ≤ e.addrHigh.toNat := by
  rw [Entry.Contains, BitVec.le_def, BitVec.le_def]

theorem collides_iff : (¬ a < e.addrLow ∧ (a < e.addrHigh ∨ a = e.addrHigh)) ↔ e.Contains a := by
  rw [Entry.contains_iff, BitVec.lt_def, BitVec.lt_def, ← BitVec.toNat_inj, Nat.not_lt,
    ← Nat.le_iff_lt_or_eq]

theorem forall_below (h : Intervals.Ascending lo (entries.map Entry.interval)) (hlt : a.toNat < lo) :
    ¬ ∃ e ∈ entries, e.Contains a := by
  rintro ⟨e, he, hin⟩
  have hlow := (h.of_mem (List.mem_map_of_mem he)).1
  change lo ≤ e.addrLow.toNat at hlow
  rw [Entry.contains_iff] at hin
  omega

theorem exists_cons : (∃ f ∈ e :: entries, f.Contains b) ↔
    e.Contains b ∨ ∃ f ∈ entries, f.Contains b := by
  simp only [List.mem_cons, exists_eq_or_imp]

theorem toNat_addToLast (d : BitVec 8) (a : Ipv6Address) :
    (addToLast d a).toNat = a.toNat / 256 * 256 + (a.toNat % 256 + d.toNat) % 256 := by
  have hlow : (a.extractLsb' 0 8 + d).toNat = (a.toNat % 256 + d.toNat) % 256 := by
    rw [BitVec.toNat_add, BitVec.extractLsb'_toNat]
    rfl
  have hhigh : (a.extractLsb' 8 120).toNat = a.toNat / 256 := by
    have hlt := a.isLt
    rw [BitVec.extractLsb'_toNat, Nat.shiftRight_eq_div_pow, Nat.mod_eq_of_lt (by omega)]
  unfold addToLast
  rw [BitVec.toNat_append, ← Nat.shiftLeft_add_eq_or_of_lt (BitVec.isLt _), hlow, hhigh,
    Nat.shiftLeft_eq]

/-- What the loop does with a block that does not hold the address. -/
theorem addTo_cases (hout : ¬ e.Contains a) (hle : e.addrLow.toNat ≤ e.addrHigh.toNat)
    (hclear : e.Clear a) :
    (a.toNat < e.addrLow.toNat ∧ addTo a (e :: rest) = some (⟨a, a⟩ :: e :: rest)) ∨
    (a.toNat = e.addrHigh.toNat + 1 ∧ addTo a (e :: rest) =
      if rest.head?.any (a = ·.addrLow) then none else some (⟨e.addrLow, a⟩ :: rest)) ∨
    (a.toNat + 1 = e.addrLow.toNat ∧ addTo a (e :: rest) = some (⟨a, e.addrHigh⟩ :: rest)) ∨
    (e.addrHigh.toNat < a.toNat ∧ addTo a (e :: rest) = (addTo a rest).map (e :: ·)) := by
  have hdown := toNat_addToLast (-1) e.addrLow
  have hup := toNat_addToLast 1 e.addrLow
  change _ = _ + (_ + 255) % 256 at hdown
  change _ = _ + (_ + 1) % 256 at hup
  rw [addTo, if_neg (fun h => hout (collides_iff.mp h))]
  rw [Entry.contains_iff] at hout
  unfold Entry.Clear at hclear
  by_cases hbefore : a < addToLast (-1) e.addrLow
  · left
    rw [if_pos hbefore]
    rw [BitVec.lt_def, hdown] at hbefore
    exact ⟨by omega, rfl⟩
  rw [if_neg hbefore]
  rw [BitVec.lt_def, hdown] at hbefore
  by_cases hend : a = addToLast 1 e.addrLow
  · right; left
    rw [if_pos hend]
    rw [← BitVec.toNat_inj, hup] at hend
    exact ⟨by omega, rfl⟩
  rw [if_neg hend]
  by_cases hstart : a = addToLast (-1) e.addrLow
  · right; right; left
    rw [if_pos hstart]
    rw [← BitVec.toNat_inj, hdown] at hstart
    exact ⟨by omega, rfl⟩
  · right; right; right
    rw [if_neg hstart]
    rw [← BitVec.toNat_inj, hdown] at hstart
    exact ⟨by omega, rfl⟩

/-- What the loop makes of the blocks, all of them from `lo` on. -/
structure Adds (a : Ipv6Address) (lo : Nat) (entries entries' : List Entry) : Prop where
  free : ¬ ∃ e ∈ entries, e.Contains a
  ascending : Intervals.Ascending lo (entries'.map Entry.interval)
  union : ∀ b, (∃ e ∈ entries', e.Contains b) ↔ b = a ∨ ∃ e ∈ entries, e.Contains b
  keeps : ∀ e ∈ entries, ∃ e' ∈ entries', ∀ b, e.Contains b → e'.Contains b

/-- The first block has become another one with one address more. -/
theorem Adds.grow (hasc : Intervals.Ascending lo ((f :: rest).map Entry.interval))
    (hout : ¬ e.Contains a) (hrest : ¬ ∃ e ∈ rest, e.Contains a)
    (hf : ∀ b, f.Contains b ↔ b = a ∨ e.Contains b) : Adds a lo (e :: rest) (f :: rest) where
  free := exists_cons.not.mpr (not_or.mpr ⟨hout, hrest⟩)
  ascending := hasc
  union b := by rw [exists_cons, exists_cons, hf, or_assoc]
  keeps := by
    intro e' he'
    rcases List.mem_cons.mp he' with rfl | hmem
    · exact ⟨f, List.mem_cons_self, fun b hb => (hf b).mpr (Or.inr hb)⟩
    · exact ⟨e', List.mem_cons_of_mem f hmem, fun _ hb => hb⟩

/-- A block of one address is put in front. -/
theorem Adds.insert (hasc : Intervals.Ascending lo ((⟨a, a⟩ :: entries).map Entry.interval))
    (hfree : ¬ ∃ e ∈ entries, e.Contains a) : Adds a lo entries (⟨a, a⟩ :: entries) where
  free := hfree
  ascending := hasc
  union b := by
    have hsingle : (⟨a, a⟩ : Entry).Contains b ↔ b = a := by
      rw [Entry.contains_iff, ← BitVec.toNat_inj]
      exact ⟨fun h => Nat.le_antisymm h.2 h.1, fun h => ⟨h.ge, h.le⟩⟩
    rw [exists_cons, hsingle]
  keeps e he := ⟨e, List.mem_cons_of_mem _ he, fun _ hb => hb⟩

/-- The loop goes on behind the first block. -/
theorem Adds.cons {rest' : List Entry} (h : Adds a (e.addrHigh.toNat + 1) rest rest')
    (hlow : lo ≤ e.addrLow.toNat) (hne : e.addrLow.toNat < e.addrHigh.toNat + 1)
    (hout : ¬ e.Contains a) : Adds a lo (e :: rest) (e :: rest') where
  free := exists_cons.not.mpr (not_or.mpr ⟨hout, h.free⟩)
  ascending := ⟨hlow, hne, h.ascending⟩
  union b := by
    rw [exists_cons, exists_cons, h.union]
    exact or_left_comm
  keeps := by
    intro e' he'
    rcases List.mem_cons.mp he' with rfl | hmem
    · exact ⟨e', List.mem_cons_self, fun _ hb => hb⟩
    · obtain ⟨f, hf, hkeep⟩ := h.keeps e' hmem
      exact ⟨f, List.mem_cons_of_mem e hf, hkeep⟩

theorem addTo_spec (h : Intervals.Ascending lo (entries.map Entry.interval)) (hlo : lo ≤ a.toNat)
    (hclear : ∀ e ∈ entries, e.Clear a) :
    (addTo a entries = none ∧ ∃ e ∈ entries, e.Contains a) ∨
      ∃ entries', addTo a entries = some entries' ∧ Adds a lo entries entries' := by
  have hone : (⟨a, a⟩ : Entry).interval.1 < (⟨a, a⟩ : Entry).interval.2 := Nat.lt_succ_self _
  induction entries generalizing lo with
  | nil => exact Or.inr ⟨_, rfl, Adds.insert ⟨hlo, hone, trivial⟩ (by simp)⟩
  | cons e rest ih =>
    obtain ⟨hlow, hne, hrest⟩ := h
    change lo ≤ e.addrLow.toNat at hlow
    change e.addrLow.toNat < e.addrHigh.toNat + 1 at hne
    change Intervals.Ascending (e.addrHigh.toNat + 1) _ at hrest
    by_cases hin : e.Contains a
    · exact Or.inl ⟨if_pos (collides_iff.mpr hin), e, List.mem_cons_self, hin⟩
    have hbelow (hlt : a.toNat < e.addrHigh.toNat + 1) : ¬ ∃ e ∈ rest, e.Contains a :=
      forall_below hrest hlt
    have hcases := @addTo_cases a e rest hin (Nat.le_of_lt_succ hne) (hclear e List.mem_cons_self)
    rcases hcases with ⟨hlt, heq⟩ | ⟨hend, heq⟩ | ⟨hstart, heq⟩ | ⟨hgt, heq⟩
    · -- a new block before this one
      refine Or.inr ⟨_, heq, Adds.insert ⟨hlo, hone, hlt, hne, hrest⟩ ?_⟩
      exact exists_cons.not.mpr (not_or.mpr ⟨hin, hbelow (by omega)⟩)
    · -- the address next to the block; the block behind may begin with it
      by_cases hnext : rest.head?.any (a = ·.addrLow) = true
      · rw [if_pos hnext] at heq
        obtain ⟨f, hf, ha⟩ := (Option.any_eq_true _ _).mp hnext
        obtain rfl : a = f.addrLow := of_decide_eq_true ha
        have hmem : f ∈ rest := List.mem_of_mem_head? hf
        have hfne := (hrest.of_mem (List.mem_map_of_mem hmem)).2
        exact Or.inl ⟨heq, f, List.mem_cons_of_mem e hmem,
          Entry.contains_iff.mpr ⟨Nat.le_refl _, Nat.le_of_lt_succ hfne⟩⟩
      · rw [if_neg hnext] at heq
        have hgap : Intervals.Ascending (a.toNat + 1) (rest.map Entry.interval) := by
          cases rest with
          | nil => trivial
          | cons f more =>
            obtain ⟨hf, hmore⟩ := hrest
            change e.addrHigh.toNat + 1 ≤ f.addrLow.toNat at hf
            have hneq : a.toNat ≠ f.addrLow.toNat := by
              intro heq
              exact hnext (decide_eq_true (BitVec.toNat_inj.mp heq))
            refine ⟨?_, hmore⟩
            change a.toNat + 1 ≤ f.addrLow.toNat
            omega
        refine Or.inr ⟨_, heq, Adds.grow ⟨hlow, ?_, hgap⟩ hin
          (forall_below hgap (Nat.lt_succ_self _)) ?_⟩
        · change e.addrLow.toNat < a.toNat + 1
          omega
        · intro b
          rw [Entry.contains_iff, Entry.contains_iff, ← BitVec.toNat_inj]
          change e.addrLow.toNat ≤ b.toNat ∧ b.toNat ≤ a.toNat ↔ _
          omega
    · -- the address before the block
      refine Or.inr ⟨_, heq, Adds.grow ⟨hlo, ?_, hrest⟩ hin (hbelow (by omega)) ?_⟩
      · change a.toNat < e.addrHigh.toNat + 1
        omega
      · intro b
        rw [Entry.contains_iff, Entry.contains_iff, ← BitVec.toNat_inj]
        change a.toNat ≤ b.toNat ∧ b.toNat ≤ e.addrHigh.toNat ↔ _
        omega
    · rcases ih hrest hgt (fun f hf => hclear f (List.mem_cons_of_mem e hf)) with
        ⟨hnone, f, hf, hfa⟩ | ⟨rest', hsome, hadds⟩
      · rw [hnone] at heq
        exact Or.inl ⟨heq, f, List.mem_cons_of_mem e hf, hfa⟩
      · rw [hsome] at heq
        exact Or.inr ⟨_, heq, hadds.cons hlow hne hin⟩

end

/-! ### Runs -/

/-- A call of `AddAllocated`, as a step. -/
def add (s : Ipv6AddressGenerator) (address : Ipv6Address) : Option Ipv6AddressGenerator :=
  (s.addAllocated address).map (·.2)

def Clear (s : Ipv6AddressGenerator) (a : Ipv6Address) : Prop := ∀ e ∈ s.entries, e.Clear a

instance (s : Ipv6AddressGenerator) (a : Ipv6Address) : Decidable (s.Clear a) :=
  inferInstanceAs (Decidable (∀ e ∈ s.entries, e.Clear a))

/-- Adding the address tells whether it was among those added before, and every block is still
within one. -/
def AddsExactly (s : Ipv6AddressGenerator) (past : List Ipv6Address) (a : Ipv6Address) : Prop :=
  ∃ added t, s.addAllocated a = some (added, t) ∧ (added = true ↔ a ∉ past) ∧
    ∀ e ∈ s.entries, ∃ e' ∈ t.entries, ∀ b, e.Contains b → e'.Contains b

/-- The blocks hold what was added and nothing else. -/
structure Exact (s : Ipv6AddressGenerator) (past : List Ipv6Address) : Prop where
  test : s.test = true
  ordered : Ordered s.entries
  union : ∀ a, a ∈ past ↔ ∃ e ∈ s.entries, e.Contains a

theorem exact_start : Exact reset.testMode [] where
  test := rfl
  ordered := trivial
  union := by simp [testMode, reset]

namespace Exact
variable {s : Ipv6AddressGenerator} {past : List Ipv6Address} (h : Exact s past)
include h

theorem addAllocated {a : Ipv6Address} (hclear : s.Clear a) :
    AddsExactly s past a ∧ ∃ t, s.add a = some t ∧ Exact t (past ++ [a]) := by
  rcases addTo_spec h.ordered (Nat.zero_le a.toNat) hclear with ⟨hnone, hin⟩ | ⟨entries, hsome, hadds⟩
  · have hadd : s.addAllocated a = some (false, s) := by
      unfold Ipv6AddressGenerator.addAllocated
      rw [hnone]
      exact if_pos h.test
    have hpast := (h.union a).mpr hin
    refine ⟨⟨false, s, hadd, iff_of_false Bool.false_ne_true (not_not_intro hpast),
      fun e he => ⟨e, he, fun _ hb => hb⟩⟩, s, ?_, h.test, h.ordered, fun b => ?_⟩
    · rw [add, hadd]
      rfl
    · rw [List.mem_append, List.mem_singleton, ← h.union, or_iff_left_iff_imp]
      rintro rfl
      exact hpast
  · have hadd : s.addAllocated a = some (true, { s with entries }) := by
      unfold Ipv6AddressGenerator.addAllocated
      rw [hsome]
    have hpast : a ∉ past := (h.union a).not.mpr hadds.free
    refine ⟨⟨true, _, hadd, iff_of_true rfl hpast, hadds.keeps⟩, { s with entries }, ?_, h.test,
      hadds.ascending, fun b => ?_⟩
    · rw [add, hadd]
      rfl
    · rw [List.mem_append, List.mem_singleton, h.union, or_comm]
      exact (hadds.union b).symm

theorem run {calls : List Ipv6Address} (hclear : Transition.Along add Clear s calls) :
    ∃ t, Transition.exec add s calls = some t ∧ Exact t (past ++ calls) := by
  induction calls generalizing s past with
  | nil => exact ⟨s, rfl, by rwa [List.append_nil]⟩
  | cons a calls ih =>
    obtain ⟨-, u, hu, hexact⟩ := h.addAllocated hclear.1
    obtain ⟨t, ht, hrun⟩ := ih hexact (hclear.2 u hu)
    refine ⟨t, Transition.exec_cons_eq_some.mpr ⟨u, hu, ht⟩, ?_⟩
    rwa [List.append_assoc] at hrun

theorem isAddressAllocated (a : Ipv6Address) : s.isAddressAllocated a = true ↔ a ∉ past := by
  unfold Ipv6AddressGenerator.isAddressAllocated
  rw [h.union, List.all_eq_true]
  simp only [not_exists, not_and]
  apply forall₂_congr
  intro e he
  rw [← collides_iff, Bool.not_eq_true', ← Bool.not_eq_true, Bool.and_eq_true, Bool.or_eq_true,
    Bool.not_eq_true', decide_eq_false_iff_not, decide_eq_true_iff, decide_eq_true_iff]

end Exact

/-- The networks and addresses are counted as numbers of 128 bits exactly for prefixes up to a
length of 120, and the blocks are exact as long as no address is added that lies above a block but
not above the last byte of its lowest address, where this ends in a zero byte. -/
theorem generator_exact (s : Ipv6AddressGenerator) (length : Nat) (net interfaceId : Ipv6Address)
    (calls : List Ipv6Address) :
    (1 ≤ length → length ≤ 127 → 2 ^ (128 - length) ∣ net.toNat →
      (CountsFrom s length net interfaceId ↔ length ≤ 120)) ∧
    (Transition.Along add Clear reset.testMode calls →
      ∃ t, Transition.exec add reset.testMode calls = some t ∧
        (∀ a, t.isAddressAllocated a = true ↔ a ∉ calls) ∧
        ∀ a, t.Clear a → AddsExactly t calls a) := by
  constructor
  · intro hpos hle hnet
    obtain ⟨index, rfl⟩ : ∃ index : Fin 128, length = index := ⟨⟨length, by omega⟩, rfl⟩
    exact countsFrom_iff (Fin.lt_def.mpr hpos) hnet
  · intro hclear
    obtain ⟨t, ht, hexact⟩ := exact_start.run hclear
    exact ⟨t, ht, hexact.isAddressAllocated, fun a ha => (hexact.addAllocated ha).1⟩

theorem generator_exact_64 :
    CountsFrom reset 64 0x20010db8000000000000000000000000 1 ∧
    ∃ t, Transition.exec add reset.testMode [1, 2, 4] = some t ∧ AddsExactly t [1, 2, 4] 3 := by
  obtain ⟨hcounts, hadds⟩ :=
    generator_exact reset 64 0x20010db8000000000000000000000000 1 [1, 2, 4]
  refine ⟨(hcounts (by decide) (by decide) (by decide +kernel)).mpr (by decide), ?_⟩
  obtain ⟨t, ht, -, hexact⟩ := hadds (by decide +kernel)
  refine ⟨t, ht, hexact 3 ?_⟩
  obtain ⟨u, hu, hclear⟩ : ∃ u ∈ Transition.exec add reset.testMode [1, 2, 4], u.Clear 3 := by
    decide +kernel
  obtain rfl : t = u := Option.some.inj (ht.symm.trans hu)
  exact hclear

/-- Seven bits of identifier are fewer than a byte; and the address 256, with 257 added after it,
can be added again. -/
theorem not_generator_exact :
    (¬ ∀ (s : Ipv6AddressGenerator) (length : Nat) (net interfaceId : Ipv6Address),
      1 ≤ length → length ≤ 127 → 2 ^ (128 - length) ∣ net.toNat →
      CountsFrom s length net interfaceId) ∧
    ¬ ∀ calls, ∃ s, Transition.exec add reset.testMode calls = some s ∧
      (∀ a, s.isAddressAllocated a = true ↔ a ∉ calls) ∧ ∀ a, AddsExactly s calls a := by
  constructor
  · intro h
    obtain ⟨t, ht, -⟩ := h reset 121 0 1 (by decide) (by decide) (Nat.dvd_zero _)
    have hnone : reset.init 0 (contiguous ((⟨121, by decide⟩ : Fin 128) : Nat)) 1 = none :=
      init_none (by decide)
    cases hnone.symm.trans ht
  · intro h
    obtain ⟨s, hs, -, hadds⟩ := h [0x100, 0x101]
    obtain ⟨added, t, ht, hadded, -⟩ := hadds 0x100
    obtain ⟨u, hu, hagain⟩ : ∃ u ∈ Transition.exec add reset.testMode [0x100, 0x101],
        (u.addAllocated 0x100).map (·.1) = some true := by
      decide +kernel
    obtain rfl : s = u := Option.some.inj (hs.symm.trans hu)
    rw [ht] at hagain
    exact hadded.mp (Option.some.inj hagain) (by decide)

end Ipv6AddressGenerator
end CudaNs3.Internet
