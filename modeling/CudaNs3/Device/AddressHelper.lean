import CudaNs3.Internet.AddressGenerator

/-!
# The address helper of the CUDA devices

The helper ORs a counted-up host part into its network. The largest host part is computed when
the base is set and not looked at again, so that the addresses stay in the subnet as long as no
more are requested than it holds, or the generator stops the program before.
-/

namespace CudaNs3.Device

open Internet

set_option autoImplicit false

structure CudaIpv4AddressHelper where
  network : BitVec 32
  mask : BitVec 32
  address : BitVec 32
  base : BitVec 32
  shift : Nat
  max : BitVec 32

namespace CudaIpv4AddressHelper

def numAddressBits (maskbits : BitVec 32) : Nat :=
  (Ipv4AddressGenerator.zeroBits 32 maskbits).getD 0

def setBase (network : Ipv4Address) (mask : Ipv4Mask) (address : Ipv4Address) :
    CudaIpv4AddressHelper :=
  let shift := numAddressBits mask
  { network := network >>> shift, mask, address, base := address, shift,
    max := (1 <<< shift) - 2 }

def next (h : CudaIpv4AddressHelper) : Ipv4Address := (h.network <<< h.shift) ||| h.address

/-- `none` when the generator stops the program; whether it added the address is not looked at. -/
def newAddress (h : CudaIpv4AddressHelper) (gen : Ipv4AddressGenerator) :
    Option (Ipv4Address × CudaIpv4AddressHelper × Ipv4AddressGenerator) := do
  let r ← gen.addAllocated h.next
  some (h.next, { h with address := h.address + 1 }, r.2)

/-- The addresses that `n` requests return, up to one that stops the program. -/
def newAddresses : Nat → CudaIpv4AddressHelper → Ipv4AddressGenerator → List Ipv4Address
  | 0, _, _ => []
  | n + 1, h, gen =>
    match h.newAddress gen with
    | none => []
    | some (addr, h, gen) => addr :: newAddresses n h gen

/-- An address of the subnet with `k` host bits that is neither its first nor its last. -/
def Usable (network : Ipv4Address) (k : Nat) (a : Ipv4Address) : Prop :=
  a >>> k = network >>> k ∧ 1 ≤ a.toNat % 2 ^ k ∧ a.toNat % 2 ^ k ≤ 2 ^ k - 2

/-- What `n` requests return stays in the subnet. -/
structure Stays (network : Ipv4Address) (k n : Nat) (h : CudaIpv4AddressHelper)
    (gen : Ipv4AddressGenerator) : Prop where
  usable : ∀ a ∈ newAddresses n h gen, Usable network k a
  distinct : (newAddresses n h gen).Nodup
  exhausted : ∀ m ≤ n, (∀ a, Usable network k a → a ∈ newAddresses m h gen) →
    newAddresses n h gen = newAddresses m h gen

/-- An address of the subnet from the base on is in the generator, which is not in test mode. -/
def Stopped (network : Ipv4Address) (k : Nat) (base : Ipv4Address)
    (gen : Ipv4AddressGenerator) : Prop :=
  gen.test = false ∧ ∃ a : Ipv4Address, a >>> k = network >>> k ∧ base.toNat ≤ a.toNat % 2 ^ k ∧
    ∃ e ∈ gen.entries, e.Contains a

theorem zeroBits_shiftLeft {n k : Nat} {mask : BitVec 32} (hlow : ∀ i < k, mask.getLsbD i = false)
    (hbit : mask.getLsbD k = true) (hn : k < n) :
    Ipv4AddressGenerator.zeroBits n mask = some k := by
  induction n generalizing k mask with
  | zero => omega
  | succ n ih =>
    unfold Ipv4AddressGenerator.zeroBits
    cases k with
    | zero => rw [if_pos hbit]
    | succ k =>
      rw [hlow 0 (Nat.succ_pos k), if_neg Bool.false_ne_true]
      have hshift (i : Nat) : (mask >>> 1).getLsbD i = mask.getLsbD (i + 1) := by
        rw [BitVec.getLsbD_ushiftRight, Nat.add_comm]
      have hrest : Ipv4AddressGenerator.zeroBits n (mask >>> 1) = some k := by
        apply ih
        · intro i hi
          rw [hshift]
          exact hlow (i + 1) (by omega)
        · rw [hshift]
          exact hbit
        · omega
      rw [hrest, Option.map_some]

/-- The bits below the contiguous ones. -/
theorem numAddressBits_prefixLength {k : Nat} (hk : k < 32) :
    numAddressBits (BitVec.allOnes 32 <<< k) = k := by
  have hbits (i : Nat) : (BitVec.allOnes 32 <<< k).getLsbD i =
      (decide (i < 32) && !decide (i < k) && decide (i - k < 32)) := by
    rw [BitVec.getLsbD_shiftLeft, BitVec.getLsbD_allOnes]
  unfold numAddressBits
  rw [zeroBits_shiftLeft _ _ hk, Option.getD_some]
  · intro i hi
    rw [hbits, decide_eq_true hi, Bool.not_true, Bool.and_false, Bool.false_and]
  · rw [hbits]
    simp [hk]

/-! ### Addresses by their host parts -/

/-- The address of the subnet with the host part `j`. -/
def host (network : Ipv4Address) (k j : Nat) : Ipv4Address :=
  ((network >>> k) <<< k) ||| BitVec.ofNat 32 j

section
variable {network a : Ipv4Address} {k i j n : Nat}

theorem toNat_host (hk : k < 32) (hj : j < 2 ^ k) :
    (host network k j).toNat = network.toNat / 2 ^ k * 2 ^ k + j := by
  have hpow : 2 ^ k ≤ 2 ^ 32 := Nat.pow_le_pow_right (by omega) (by omega)
  have hle : network.toNat / 2 ^ k * 2 ^ k ≤ network.toNat := Nat.div_mul_le_self _ _
  unfold host
  rw [BitVec.toNat_or, BitVec.toNat_shiftLeft, BitVec.toNat_ushiftRight, BitVec.toNat_ofNat,
    Nat.mod_eq_of_lt (show j < 2 ^ 32 by omega), Nat.shiftRight_eq_div_pow, Nat.shiftLeft_eq,
    Nat.mod_eq_of_lt (Nat.lt_of_le_of_lt hle network.isLt), ← Nat.shiftLeft_eq,
    ← Nat.shiftLeft_add_eq_or_of_lt hj]

theorem ushiftRight_eq_iff : a >>> k = network >>> k ↔ a.toNat / 2 ^ k = network.toNat / 2 ^ k := by
  rw [← BitVec.toNat_inj, BitVec.toNat_ushiftRight, BitVec.toNat_ushiftRight,
    Nat.shiftRight_eq_div_pow, Nat.shiftRight_eq_div_pow]

theorem host_div (hk : k < 32) (hj : j < 2 ^ k) :
    (host network k j).toNat / 2 ^ k = network.toNat / 2 ^ k := by
  rw [toNat_host hk hj, Nat.add_comm, Nat.add_mul_div_right _ _ (Nat.two_pow_pos k),
    Nat.div_eq_of_lt hj, Nat.zero_add]

theorem host_mod (hk : k < 32) (hj : j < 2 ^ k) : (host network k j).toNat % 2 ^ k = j := by
  rw [toNat_host hk hj, Nat.add_comm, Nat.add_mul_mod_self_right, Nat.mod_eq_of_lt hj]

theorem usable_host_iff (hk : k < 32) (hj : j < 2 ^ k) :
    Usable network k (host network k j) ↔ 1 ≤ j ∧ j ≤ 2 ^ k - 2 := by
  unfold Usable
  rw [ushiftRight_eq_iff, host_div hk hj, host_mod hk hj, eq_self, true_and]

theorem host_ne_zero (hk : k < 32) (hj : j < 2 ^ k) (hpos : 0 < j) : host network k j ≠ 0 := by
  intro hz
  have hmod : (host network k j).toNat % 2 ^ k = j := host_mod hk hj
  rw [hz] at hmod
  change 0 % 2 ^ k = j at hmod
  rw [Nat.zero_mod] at hmod
  omega

theorem eq_host (hk : k < 32) (ha : a >>> k = network >>> k) :
    a = host network k (a.toNat % 2 ^ k) := by
  rw [← BitVec.toNat_inj, toNat_host hk (Nat.mod_lt _ (Nat.two_pow_pos k)),
    ← ushiftRight_eq_iff.mp ha, Nat.div_add_mod']

/-! ### The requests -/

variable {h : CudaIpv4AddressHelper} {gen : Ipv4AddressGenerator}

/-- The helper is at the host part `j`. -/
structure At (network : Ipv4Address) (k j : Nat) (h : CudaIpv4AddressHelper) : Prop where
  network : h.network = network >>> k
  shift : h.shift = k
  address : h.address = BitVec.ofNat 32 j

theorem at_setBase (hk : k < 32) (base : Ipv4Address) :
    At network k base.toNat (setBase network (BitVec.allOnes 32 <<< k) base) where
  network := congrArg (network >>> ·) (numAddressBits_prefixLength hk)
  shift := numAddressBits_prefixLength hk
  address := ((BitVec.ofNat_toNat 32 base).trans (BitVec.setWidth_eq base)).symm

namespace At
variable (hat : At network k j h)
include hat

theorem next : h.next = host network k j := by
  unfold CudaIpv4AddressHelper.next host
  rw [hat.network, hat.shift, hat.address]

theorem succ : At network k (j + 1) { h with address := h.address + 1 } where
  network := hat.network
  shift := hat.shift
  address := by
    change h.address + 1 = BitVec.ofNat 32 (j + 1)
    rw [hat.address, BitVec.ofNat_add]
    rfl

/-- The returned addresses are those of the host parts in order, as far as they go. -/
theorem newAddresses_prefix (n : Nat) :
    newAddresses n h gen <+: (List.range' j n).map (host network k) := by
  induction n generalizing j h gen with
  | zero => exact List.prefix_refl _
  | succ n ih =>
    rw [List.range'_succ, List.map_cons]
    unfold newAddresses CudaIpv4AddressHelper.newAddress
    rw [hat.next]
    cases gen.addAllocated (host network k j) with
    | none => exact List.nil_prefix
    | some r => exact List.cons_prefix_cons.mpr ⟨rfl, ih hat.succ⟩

/-- Unless the generator stops the program, every request returns an address. -/
theorem length_newAddresses (hk : k < 32) (hpos : 0 < j) (hj : j + n ≤ 2 ^ k)
    (hord : Ipv4AddressGenerator.Ordered gen.entries)
    (hgo : gen.test = true ∨
      ∀ i, j ≤ i → i < 2 ^ k → ¬ ∃ e ∈ gen.entries, e.Contains (host network k i)) :
    (newAddresses n h gen).length = n := by
  induction n generalizing j h gen with
  | zero => rfl
  | succ n ih =>
    have hne : host network k j ≠ 0 := host_ne_zero hk (by omega) hpos
    unfold newAddresses CudaIpv4AddressHelper.newAddress
    rw [hat.next]
    cases hadd : gen.addAllocated (host network k j) with
    | none =>
      obtain ⟨htest, hin⟩ := (Ipv4AddressGenerator.addAllocated_eq_none_iff hord hne).mp hadd
      rcases hgo with hgo | hgo
      · exact absurd (htest.symm.trans hgo) Bool.false_ne_true
      · exact absurd hin (hgo j (Nat.le_refl j) (by omega))
    | some r =>
      obtain ⟨-, htest, hord', hunion⟩ := Ipv4AddressGenerator.addAllocated_spec hord hadd
      refine congrArg (· + 1) (ih hat.succ (Nat.succ_pos j) (by omega) hord' ?_)
      rcases hgo with hgo | hgo
      · exact Or.inl (htest.trans hgo)
      · right
        intro i hle hlt
        rw [hunion, not_or]
        refine ⟨?_, hgo i (by omega) hlt⟩
        intro heq
        have hmod := congrArg (fun a : Ipv4Address => a.toNat % 2 ^ k) heq
        change (host network k i).toNat % 2 ^ k = (host network k j).toNat % 2 ^ k at hmod
        rw [host_mod hk hlt, host_mod hk (by omega)] at hmod
        omega

/-- An address that is in the generator is not reached. -/
theorem length_newAddresses_le (hk : k < 32) (hpos : 0 < j) (hji : j ≤ i) (hi : i < 2 ^ k)
    (hord : Ipv4AddressGenerator.Ordered gen.entries) (htest : gen.test = false)
    (hin : ∃ e ∈ gen.entries, e.Contains (host network k i)) :
    (newAddresses n h gen).length ≤ i - j := by
  induction n generalizing j h gen with
  | zero => exact Nat.zero_le _
  | succ n ih =>
    have hne : host network k j ≠ 0 := host_ne_zero hk (by omega) hpos
    unfold newAddresses CudaIpv4AddressHelper.newAddress
    rw [hat.next]
    cases hadd : gen.addAllocated (host network k j) with
    | none => exact Nat.zero_le _
    | some r =>
      obtain ⟨-, htest', hord', hunion⟩ := Ipv4AddressGenerator.addAllocated_spec hord hadd
      have hlt : j ≠ i := by
        rintro rfl
        have hnone := (Ipv4AddressGenerator.addAllocated_eq_none_iff hord hne).mpr ⟨htest, hin⟩
        exact Option.some_ne_none _ (hadd.symm.trans hnone)
      have hrest := ih (j := j + 1) hat.succ (Nat.succ_pos j) (by omega) hord' (htest'.trans htest)
        ((hunion _).mpr (Or.inr hin))
      change (newAddresses n _ r.2).length + 1 ≤ i - j
      omega

end At

theorem newAddresses_mono {m : Nat} (hle : m ≤ n) :
    newAddresses m h gen <+: newAddresses n h gen := by
  induction n generalizing m h gen with
  | zero =>
    rw [Nat.le_zero.mp hle]
  | succ n ih =>
    cases m with
    | zero => exact List.nil_prefix
    | succ m =>
      unfold newAddresses
      cases h.newAddress gen with
      | none => exact List.prefix_refl _
      | some r => exact List.cons_prefix_cons.mpr ⟨rfl, ih (Nat.le_of_succ_le_succ hle)⟩

/-- Usable addresses without a repetition leave nothing to return when there are no others. -/
theorem stays_of_usable (husable : ∀ a ∈ newAddresses n h gen, Usable network k a)
    (hnodup : (newAddresses n h gen).Nodup) : Stays network k n h gen where
  usable := husable
  distinct := hnodup
  exhausted := by
    intro m hle hall
    obtain ⟨rest, hrest⟩ : newAddresses m h gen <+: newAddresses _ h gen := newAddresses_mono hle
    cases rest with
    | nil => rw [← hrest, List.append_nil]
    | cons a rest =>
      have hmem : a ∈ newAddresses m h gen := by
        apply hall a
        apply husable a
        rw [← hrest]
        exact List.mem_append_right _ List.mem_cons_self
      rw [← hrest] at hnodup
      exact absurd rfl ((List.nodup_append.mp hnodup).2.2 a hmem a List.mem_cons_self)

/-- As many addresses as there are host parts from `j` up to the last but one are usable. -/
theorem At.stays (hat : At network k j h) (hk : k < 32) (hpos : 0 < j) (hj : j < 2 ^ k)
    (hlen : (newAddresses n h gen).length ≤ 2 ^ k - 1 - j) : Stays network k n h gen := by
  have hprefix : newAddresses n h gen <+: _ := hat.newAddresses_prefix n
  have hle : (newAddresses n h gen).length ≤ n := by
    have hlength := hprefix.length_le
    rwa [List.length_map, List.length_range'] at hlength
  have hlist : newAddresses n h gen =
      (List.range' j (newAddresses n h gen).length).map (host network k) := by
    have htake := List.prefix_iff_eq_take.mp hprefix
    rwa [← List.map_take, List.take_range'_of_length_ge hle] at htake
  apply stays_of_usable
  · intro a ha
    rw [hlist] at ha
    obtain ⟨i, hi, rfl⟩ := List.mem_map.mp ha
    rw [List.mem_range'_1] at hi
    exact (usable_host_iff hk (by omega)).mpr (by omega)
  · rw [hlist]
    apply List.Nodup.map_on _ (List.nodup_range' _)
    intro i hi i' hi' heq
    rw [List.mem_range'_1] at hi hi'
    have hmod := congrArg (fun a : Ipv4Address => a.toNat % 2 ^ k) heq
    rwa [host_mod hk (by omega), host_mod hk (by omega)] at hmod

end

/-- What is requested stays in the subnet if and only if no more is requested than the subnet
holds from the base on, or the generator stops the program before. -/
theorem stays_iff {len : Nat} (hlen : 1 ≤ len ∧ len ≤ 30) (network : Ipv4Address)
    {base : Ipv4Address} (hbase : 1 ≤ base.toNat ∧ base.toNat ≤ 2 ^ (32 - len) - 2) (n : Nat)
    {gen : Ipv4AddressGenerator} (hgen : Ipv4AddressGenerator.Ordered gen.entries) :
    Stays network (32 - len) n (setBase network (BitVec.allOnes 32 <<< (32 - len)) base) gen ↔
      n ≤ 2 ^ (32 - len) - 1 - base.toNat ∨ Stopped network (32 - len) base gen := by
  have hk : 32 - len < 32 := by omega
  have hat : At network (32 - len) base.toNat _ := at_setBase hk base
  generalize setBase network (BitVec.allOnes 32 <<< (32 - len)) base = h at hat ⊢
  constructor
  · intro hstays
    by_contra hcond
    obtain ⟨hmore, hgo⟩ := not_or.mp hcond
    -- the address with all ones for its host part is returned
    have hall : (newAddresses (2 ^ (32 - len) - base.toNat) h gen).length =
        2 ^ (32 - len) - base.toNat := by
      apply hat.length_newAddresses hk (by omega) (by omega) hgen
      by_cases htest : gen.test = true
      · exact Or.inl htest
      · right
        intro i hle hlt hin
        refine hgo ⟨Bool.eq_false_iff.mpr htest, host network _ i, ?_, ?_, hin⟩
        · exact ushiftRight_eq_iff.mpr (host_div hk hlt)
        · rw [host_mod hk hlt]
          exact hle
    have hlast : host network (32 - len) (2 ^ (32 - len) - 1) ∈
        newAddresses n h gen := by
      apply (newAddresses_mono (show 2 ^ (32 - len) - base.toNat ≤ n by omega)).subset
      have hprefix : newAddresses (2 ^ (32 - len) - base.toNat) h gen <+: _ :=
        hat.newAddresses_prefix _
      have hfull := hprefix.eq_of_length_le (by
        rw [hall, List.length_map, List.length_range'])
      rw [hfull]
      apply List.mem_map_of_mem
      rw [List.mem_range'_1]
      omega
    have husable := (usable_host_iff hk (by omega)).mp (hstays.usable _ hlast)
    omega
  · intro hcond
    apply hat.stays hk (by omega) (by omega)
    rcases hcond with hle | ⟨htest, a, hnet, hlow, hin⟩
    · have hprefix : newAddresses n h gen <+: _ := hat.newAddresses_prefix n
      have hlength := hprefix.length_le
      rw [List.length_map, List.length_range'] at hlength
      omega
    · have hlt : a.toNat % 2 ^ (32 - len) < 2 ^ (32 - len) := Nat.mod_lt _ (Nat.two_pow_pos _)
      rw [eq_host hk hnet] at hin
      have hlength := hat.length_newAddresses_le (n := n) hk (by omega) hlow hlt hgen htest hin
      omega

theorem stays_iff_two : Stays 0x0a010100 8 2
    (setBase 0x0a010100 (BitVec.allOnes 32 <<< 8) 1) Ipv4AddressGenerator.reset :=
  (@stays_iff 24 (by decide) 0x0a010100 1 (by decide) 2 Ipv4AddressGenerator.reset trivial).mpr (Or.inl (by decide))

/-- The third address of a network with two is its broadcast address. -/
theorem not_stays : ¬ ∀ len : Nat, 1 ≤ len ∧ len ≤ 30 → ∀ network base : Ipv4Address,
    1 ≤ base.toNat ∧ base.toNat ≤ 2 ^ (32 - len) - 2 → ∀ (n : Nat) (gen : Ipv4AddressGenerator),
      Ipv4AddressGenerator.Ordered gen.entries →
        Stays network (32 - len) n (setBase network (BitVec.allOnes 32 <<< (32 - len)) base)
          gen := by
  intro h
  have hstays := h 30 (by decide) 0x0a010100 1 (by decide) 3 Ipv4AddressGenerator.reset trivial
  have husable := hstays.usable 0x0a010103 (by decide +kernel)
  exact absurd husable.2.2 (by decide)

end CudaIpv4AddressHelper
end CudaNs3.Device
