import CudaNs3.Device.HeaderPaths
import CudaNs3.Lib.Words

/-!
# The checksums of the CUDA protocols

What is compiled under `CHECKSUM_CHECK`. The senders fold the carries of a 32-bit sum before
they complement it; the receivers compare theirs with 0xFFFF as it is. The sums that are only
kept for a trace are left out.
-/

namespace CudaNs3.Device

open Words
set_option autoImplicit false

def protNumber : UInt32 := 17

/-- A pointer to the first of the bytes. -/
def pointer (bytes : List UInt8) : Nat → UInt8 := fun i => bytes.getD i 0

/-- `(p[i * 2] << 8) | p[i * 2 + 1]`. -/
def word (p : Nat → UInt8) (i : Nat) : UInt32 :=
  (p (i * 2)).toUInt32 <<< 8 ||| (p (i * 2 + 1)).toUInt32

theorem toNat_word (p : Nat → UInt8) (i : Nat) :
    (word p i).toNat = 256 * (p (i * 2)).toNat + (p (i * 2 + 1)).toNat := by
  have hhigh := (p (i * 2)).toNat_lt
  have hlow := (p (i * 2 + 1)).toNat_lt
  have hshift : ((p (i * 2)).toUInt32 <<< 8).toNat = (p (i * 2)).toNat * 2 ^ 8 := by
    rw [UInt32.toNat_shiftLeft, UInt8.toNat_toUInt32, Nat.shiftLeft_eq]
    exact Nat.mod_eq_of_lt (by simp; omega)
  rw [word, UInt32.toNat_or, hshift, UInt8.toNat_toUInt32, Nat.mul_comm,
    ← Nat.two_pow_add_eq_or_of_lt hlow]

theorem shiftRight_eq_zero_iff (sum : UInt32) : sum >>> 16 = 0 ↔ sum.toNat < 65536 := by
  rw [← UInt32.toNat_inj, UInt32.toNat_shiftRight, Nat.shiftRight_eq_div_pow]
  show sum.toNat / 65536 = 0 ↔ _
  omega

theorem toNat_addCarry (sum : UInt32) :
    ((sum &&& (0xFFFF : UInt32)) + (sum >>> 16)).toNat = sum.toNat % 65536 + sum.toNat / 65536 := by
  have hlt := sum.toNat_lt
  have hand : (sum &&& (0xFFFF : UInt32)).toNat = sum.toNat % 65536 := by
    rw [UInt32.toNat_and]
    exact Nat.and_two_pow_sub_one_eq_mod sum.toNat 16
  have hshift : (sum >>> 16).toNat = sum.toNat / 65536 := by
    rw [UInt32.toNat_shiftRight, Nat.shiftRight_eq_div_pow]
    rfl
  rw [UInt32.toNat_add, hand, hshift]
  omega

/-- Fold 32-bit sum to 16-bit. -/
def foldCarries (sum : UInt32) : UInt32 :=
  if sum >>> 16 = 0 then sum else foldCarries ((sum &&& (0xFFFF : UInt32)) + (sum >>> 16))
termination_by sum.toNat
decreasing_by
  rename_i h
  rw [shiftRight_eq_zero_iff] at h
  rw [toNat_addCarry]
  omega

def onesComplementSum (sum : UInt32) : UInt16 := (~~~foldCarries sum).toUInt16

def computeIpv4Checksum (header : Nat → UInt8) : UInt16 :=
  onesComplementSum
    ((List.range 10).foldl (fun sum i => if i = 5 then sum else sum + word header i) 0)

def verifyIpv4Checksum (header : Nat → UInt8) : Bool :=
  (List.range 10).foldl (fun sum i => sum + word header i) 0 = 0xFFFF

/-- The loops that `compute_udp_checksum` and `verify_udp_checksum` share. -/
def udpSum (udpHeader payload : Nat → UInt8) (length : Nat) (pseudoHeaderSum : UInt32) : UInt32 :=
  let sum := (List.range 4).foldl (fun sum i => sum + word udpHeader i) pseudoHeaderSum
  let sum := (List.range (length / 2)).foldl (fun sum i => sum + word payload i) sum
  if length % 2 ≠ 0 then sum + (payload (length - 1)).toUInt32 <<< 8 else sum

def computeUdpChecksum (udpHeader payload : Nat → UInt8) (length : Nat)
    (pseudoHeaderSum : UInt32) : UInt16 :=
  onesComplementSum (udpSum udpHeader payload length pseudoHeaderSum)

def verifyUdpChecksum (udpHeader payload : Nat → UInt8) (length : Nat)
    (pseudoHeaderSum : UInt32) : Bool :=
  udpSum udpHeader payload length pseudoHeaderSum = 0xFFFF

/-! ### What the sums are -/

theorem toNat_foldCarries (sum : UInt32) : (foldCarries sum).toNat = fold sum.toNat := by
  induction sum using foldCarries.induct with
  | case1 sum h =>
    rw [foldCarries, if_pos h, fold, if_pos ((shiftRight_eq_zero_iff sum).mp h)]
  | case2 sum h ih =>
    rw [foldCarries, if_neg h, ih, toNat_addCarry, fold.eq_def sum.toNat,
      if_neg (mt (shiftRight_eq_zero_iff sum).mpr h)]

theorem toNat_onesComplementSum (sum : UInt32) :
    (onesComplementSum sum).toNat = 65535 - fold sum.toNat := by
  have hlt := fold_lt sum.toNat
  rw [onesComplementSum, UInt32.toNat_toUInt16, UInt32.toNat_not, toNat_foldCarries,
    show UInt32.size = 2 ^ 32 from rfl]
  omega

/-- The plain sum of 16-bit words. -/
def wordSum (p : Nat → UInt8) (n : Nat) : Nat :=
  ((List.range n).map fun i => 256 * (p (i * 2)).toNat + (p (i * 2 + 1)).toNat).sum

theorem wordSum_succ (p : Nat → UInt8) (n : Nat) : wordSum p (n + 1) =
    wordSum p n + (256 * (p (n * 2)).toNat + (p (n * 2 + 1)).toNat) := by
  simp only [wordSum, List.range_succ, List.map_append, List.map_singleton, List.sum_append,
    List.sum_singleton]

theorem toNat_addWords (p : Nat → UInt8) (n : Nat) (sum : UInt32) :
    ((List.range n).foldl (fun sum i => sum + word p i) sum).toNat =
      (sum.toNat + wordSum p n) % 2 ^ 32 := by
  induction n with
  | zero => exact (Nat.mod_eq_of_lt sum.toNat_lt).symm
  | succ n ih =>
    rw [List.range_succ, List.foldl_append, List.foldl_cons, List.foldl_nil, UInt32.toNat_add, ih,
      toNat_word, wordSum_succ, Nat.mod_add_mod, Nat.add_assoc]

/-- The payload, with a last odd byte padded with 0. -/
def payloadSum (payload : Nat → UInt8) (length : Nat) : Nat :=
  wordSum payload (length / 2) + if length % 2 ≠ 0 then 256 * (payload (length - 1)).toNat else 0

theorem toNat_udpSum (udpHeader payload : Nat → UInt8) (length : Nat) (sum : UInt32) :
    (udpSum udpHeader payload length sum).toNat =
      (sum.toNat + wordSum udpHeader 4 + payloadSum payload length) % 2 ^ 32 := by
  have hbyte := (payload (length - 1)).toNat_lt
  have hlast : ((payload (length - 1)).toUInt32 <<< 8).toNat =
      256 * (payload (length - 1)).toNat := by
    rw [UInt32.toNat_shiftLeft, UInt8.toNat_toUInt32, Nat.shiftLeft_eq]
    refine (Nat.mod_eq_of_lt (by simp; omega)).trans (Nat.mul_comm _ _)
  unfold udpSum payloadSum
  dsimp only
  split
  · rw [UInt32.toNat_add, toNat_addWords, toNat_addWords, hlast]
    omega
  · rw [toNat_addWords, toNat_addWords]
    omega

/-! ### The IPv4 header -/

/-- The header with its checksum in bytes 10 and 11. -/
def withIpv4Checksum (header : Nat → UInt8) : Nat → UInt8 :=
  Bytes.write header 10 (be16 (computeIpv4Checksum header))

/-- The words of the header without the one of the checksum. -/
def ipv4WordSum (header : Nat → UInt8) : Nat :=
  wordSum header 5 + wordSum (fun i => header (i + 12)) 4

/-- Nothing is left to carry and the sum is all ones only if the sum did not pass 16 bits. -/
theorem add_complement_iff {sum checksum : Nat} (hsum : sum < 2 ^ 32)
    (hchecksum : checksum = 65535 - fold sum) :
    (sum + checksum) % 2 ^ 32 = 65535 ↔ sum ≤ 65535 := by
  have hzero := @fold_eq_zero_iff sum
  have hlt := fold_lt sum
  constructor
  · intro h
    omega
  · intro h
    have hfold : fold sum = sum := by rw [fold, if_pos (by omega)]
    omega

theorem be16_sum (x : UInt16) : 256 * (x >>> 8).toUInt8.toNat + x.toUInt8.toNat = x.toNat := by
  have hx := x.toNat_lt
  simp only [UInt16.toNat_toUInt8, UInt16.toNat_shiftRight, Nat.shiftRight_eq_div_pow]
  show 256 * (x.toNat / 256 % 256) + x.toNat % 256 = x.toNat
  omega

theorem wordSum_le (p : Nat → UInt8) (n : Nat) : wordSum p n ≤ 65535 * n := by
  induction n with
  | zero => exact Nat.le_refl 0
  | succ n ih =>
    have hhigh := (p (n * 2)).toNat_lt
    have hlow := (p (n * 2 + 1)).toNat_lt
    rw [wordSum_succ]
    omega

theorem wordSum_congr {p q : Nat → UInt8} {n : Nat} (h : ∀ i < n * 2, p i = q i) :
    wordSum p n = wordSum q n := by
  induction n with
  | zero => rfl
  | succ n ih =>
    rw [wordSum_succ, wordSum_succ, ih fun i hi => h i (by omega), h (n * 2) (by omega),
      h (n * 2 + 1) (by omega)]

theorem wordSum_add (p : Nat → UInt8) (n m : Nat) :
    wordSum p (n + m) = wordSum p n + wordSum (fun i => p (i + n * 2)) m := by
  induction m with
  | zero => rfl
  | succ m ih =>
    rw [← Nat.add_assoc, wordSum_succ, wordSum_succ, ih, Nat.add_mul, Nat.add_comm (n * 2)]
    have hodd : m * 2 + n * 2 + 1 = m * 2 + 1 + n * 2 := by omega
    rw [hodd, Nat.add_assoc]

theorem toNat_ipv4Sum (header : Nat → UInt8) :
    ((List.range 10).foldl (fun sum i => if i = 5 then sum else sum + word header i) 0).toNat =
      ipv4WordSum header := by
  have hskip : (List.range 10).foldl (fun sum i => if i = 5 then sum else sum + word header i) 0 =
      (List.range 4).foldl (fun sum i => sum + word (fun i => header (i + 12)) i)
        ((List.range 5).foldl (fun sum i => sum + word header i) 0) := rfl
  have hlow := wordSum_le header 5
  have hhigh := wordSum_le (fun i => header (i + 12)) 4
  rw [hskip, toNat_addWords, toNat_addWords, ipv4WordSum, UInt32.toNat_zero]
  omega

theorem wordSum_withIpv4Checksum (header : Nat → UInt8) : wordSum (withIpv4Checksum header) 10 =
    ipv4WordSum header + (computeIpv4Checksum header).toNat := by
  have hbelow : ∀ i < 5 * 2, withIpv4Checksum header i = header i :=
    fun i hi => Bytes.write_apply_of_lt header hi
  have habove : ∀ i < 4 * 2, withIpv4Checksum header (i + 6 * 2) = header (i + 12) :=
    fun i _ => Bytes.write_apply_of_le header (Nat.le_add_left 12 i)
  have hhigh : withIpv4Checksum header 10 = (computeIpv4Checksum header >>> 8).toUInt8 := rfl
  have hlow : withIpv4Checksum header 11 = (computeIpv4Checksum header).toUInt8 := rfl
  have hsplit := wordSum_add (withIpv4Checksum header) 6 4
  rw [wordSum_succ _ 5, wordSum_congr hbelow, wordSum_congr habove] at hsplit
  rw [hsplit, hhigh, hlow, be16_sum, ipv4WordSum]
  omega

theorem verifyIpv4Checksum_iff (header : Nat → UInt8) :
    verifyIpv4Checksum (withIpv4Checksum header) = true ↔ ipv4WordSum header ≤ 0xFFFF := by
  have hlow := wordSum_le header 5
  have hhigh := wordSum_le (fun i => header (i + 12)) 4
  have hchecksum : (computeIpv4Checksum header).toNat = 65535 - fold (ipv4WordSum header) := by
    rw [computeIpv4Checksum, toNat_onesComplementSum, toNat_ipv4Sum]
  unfold verifyIpv4Checksum
  rw [decide_eq_true_iff, ← UInt32.toNat_inj, toNat_addWords, wordSum_withIpv4Checksum,
    UInt32.toNat_zero, Nat.zero_add]
  exact add_complement_iff (by unfold ipv4WordSum; omega) hchecksum

/-! ### UDP datagrams -/

/-- The fields of a datagram with `size` bytes of payload, as `CudaUdpL4Protocol::Send` has them. -/
def sentFields (saddr daddr : UInt32) (sport dport : UInt16) (size : Nat) : HeaderFields :=
  ⟨saddr, daddr, sport, dport, .ofNat (size + 8)⟩

def sendPseudoHeaderSum (f : HeaderFields) : UInt32 :=
  let low : UInt32 := 0xFFFF
  (f.saddr >>> 16 &&& low) + (f.saddr &&& low) + (f.daddr >>> 16 &&& low) + (f.daddr &&& low) +
    protNumber + f.udpLength.toUInt32

/-- `udp_header` once its checksum is set. -/
def udpHeaderSent (f : HeaderFields) (payload : Nat → UInt8) (size : Nat) : Nat → UInt8 :=
  Bytes.write (pointer (udpHeader f)) 6
    (be16 (computeUdpChecksum (pointer (udpHeader f)) payload size (sendPseudoHeaderSum f)))

/-- A little-endian 16-bit value, as `Receive` takes the addresses apart. -/
def wordLe (p : Nat → UInt8) (i : Nat) : UInt32 := (p (i + 1)).toUInt32 <<< 8 ||| (p i).toUInt32

def receivePseudoHeaderSum (ipv4Header udpHeader : Nat → UInt8) : UInt32 :=
  wordLe ipv4Header 12 + wordLe ipv4Header 14 + wordLe ipv4Header 16 + wordLe ipv4Header 18 +
    protNumber + word udpHeader 2

/-- The check of `CudaUdpL4Protocol::Receive` on what was sent with these fields. -/
def receives (ipv4Header : Nat → UInt8) (f : HeaderFields) (payload : Nat → UInt8) (size : Nat) :
    Bool :=
  verifyUdpChecksum (udpHeaderSent f payload size) payload size
    (receivePseudoHeaderSum ipv4Header (udpHeaderSent f payload size))

def halves (address : UInt32) : Nat := address.toNat / 65536 + address.toNat % 65536

/-- All words of the pseudo-header, of the header without a checksum and of the payload. -/
def udpWordSum (f : HeaderFields) (payload : Nat → UInt8) (size : Nat) : Nat :=
  halves f.saddr + halves f.daddr + 17 + 2 * f.udpLength.toNat + f.sport.toNat + f.dport.toNat +
    payloadSum payload size

theorem toNat_low (x : UInt32) : (x &&& (0xFFFF : UInt32)).toNat = x.toNat % 65536 := by
  rw [UInt32.toNat_and]
  exact Nat.and_two_pow_sub_one_eq_mod x.toNat 16

theorem toNat_high (x : UInt32) : (x >>> 16 &&& (0xFFFF : UInt32)).toNat = x.toNat / 65536 := by
  have hlt := x.toNat_lt
  have hshift : (x >>> 16).toNat = x.toNat / 65536 := by
    rw [UInt32.toNat_shiftRight, Nat.shiftRight_eq_div_pow]
    rfl
  rw [toNat_low, hshift]
  omega

theorem toNat_sendPseudoHeaderSum (f : HeaderFields) : (sendPseudoHeaderSum f).toNat =
    halves f.saddr + halves f.daddr + 17 + f.udpLength.toNat := by
  have hs := f.saddr.toNat_lt
  have hd := f.daddr.toNat_lt
  have hl := f.udpLength.toNat_lt
  have hprot : protNumber.toNat = 17 := rfl
  unfold sendPseudoHeaderSum halves
  simp only [UInt32.toNat_add, toNat_high]
  simp only [toNat_low, hprot, UInt16.toNat_toUInt32]
  omega

theorem toNat_wordLe (p : Nat → UInt8) (i : Nat) :
    (wordLe p i).toNat = 256 * (p (i + 1)).toNat + (p i).toNat := by
  have hword := toNat_word (fun k => if k = 0 then p (i + 1) else p i) 0
  simpa [word, wordLe] using hword

theorem le32_halves (x : UInt32) :
    256 * (x >>> 8).toUInt8.toNat + x.toUInt8.toNat = x.toNat % 65536 ∧
      256 * (x >>> 24).toUInt8.toNat + (x >>> 16).toUInt8.toNat = x.toNat / 65536 := by
  have hx := x.toNat_lt
  simp [Nat.shiftRight_eq_div_pow]
  omega

theorem wordSum_four (p : Nat → UInt8) : wordSum p 4 =
    (256 * (p 0).toNat + (p 1).toNat) + (256 * (p 2).toNat + (p 3).toNat) +
      (256 * (p 4).toNat + (p 5).toNat) + (256 * (p 6).toNat + (p 7).toNat) := by
  rw [wordSum_succ, wordSum_succ, wordSum_succ, wordSum_succ]
  exact congrArg (· + _ + _ + _) (Nat.zero_add _)

section Datagram
variable (f : HeaderFields) (payload : Nat → UInt8) (size : Nat)

def udpChecksum : UInt16 :=
  computeUdpChecksum (pointer (udpHeader f)) payload size (sendPseudoHeaderSum f)

theorem wordSum_udpHeader :
    wordSum (pointer (udpHeader f)) 4 = f.sport.toNat + f.dport.toNat + f.udpLength.toNat := by
  rw [wordSum_four, ← be16_sum f.sport, ← be16_sum f.dport, ← be16_sum f.udpLength]
  rfl

theorem wordSum_udpHeaderSent : wordSum (udpHeaderSent f payload size) 4 =
    f.sport.toNat + f.dport.toNat + f.udpLength.toNat + (udpChecksum f payload size).toNat := by
  rw [wordSum_four, ← be16_sum f.sport, ← be16_sum f.dport, ← be16_sum f.udpLength,
    ← be16_sum (udpChecksum f payload size)]
  rfl

theorem toNat_receivePseudoHeaderSum (stack : Nat → UInt8) (ipSize : Nat) (protocol : UInt8) :
    (receivePseudoHeaderSum (pointer (ipHeader stack ipSize f.saddr f.daddr protocol))
      (udpHeaderSent f payload size)).toNat =
      halves f.saddr + halves f.daddr + 17 + f.udpLength.toNat := by
  obtain ⟨hs₁, hs₂⟩ := le32_halves f.saddr
  obtain ⟨hd₁, hd₂⟩ := le32_halves f.daddr
  have hl := f.udpLength.toNat_lt
  have hs := f.saddr.toNat_lt
  have hd := f.daddr.toNat_lt
  have hprot : protNumber.toNat = 17 := rfl
  have hlength : (word (udpHeaderSent f payload size) 2).toNat = f.udpLength.toNat :=
    (toNat_word _ 2).trans (be16_sum f.udpLength)
  generalize hip : pointer (ipHeader stack ipSize f.saddr f.daddr protocol) = ip
  have h12 : (wordLe ip 12).toNat = f.saddr.toNat % 65536 := by
    rw [toNat_wordLe, ← hip, ← hs₁]
    rfl
  have h14 : (wordLe ip 14).toNat = f.saddr.toNat / 65536 := by
    rw [toNat_wordLe, ← hip, ← hs₂]
    rfl
  have h16 : (wordLe ip 16).toNat = f.daddr.toNat % 65536 := by
    rw [toNat_wordLe, ← hip, ← hd₁]
    rfl
  have h18 : (wordLe ip 18).toNat = f.daddr.toNat / 65536 := by
    rw [toNat_wordLe, ← hip, ← hd₂]
    rfl
  unfold receivePseudoHeaderSum halves
  simp only [UInt32.toNat_add, h12, h14, h16, h18, hprot, hlength]
  omega

theorem receives_iff (stack : Nat → UInt8) (ipSize : Nat) (protocol : UInt8) :
    receives (pointer (ipHeader stack ipSize f.saddr f.daddr protocol)) f payload size = true ↔
      udpWordSum f payload size % 2 ^ 32 ≤ 0xFFFF := by
  have hsent : (udpSum (pointer (udpHeader f)) payload size (sendPseudoHeaderSum f)).toNat =
      udpWordSum f payload size % 2 ^ 32 := by
    rw [toNat_udpSum, toNat_sendPseudoHeaderSum, wordSum_udpHeader, udpWordSum]
    refine congrArg (· % 2 ^ 32) ?_
    omega
  have hchecksum : (udpChecksum f payload size).toNat =
      65535 - fold (udpWordSum f payload size % 2 ^ 32) := by
    rw [udpChecksum, computeUdpChecksum, toNat_onesComplementSum, hsent]
  unfold receives verifyUdpChecksum
  rw [decide_eq_true_iff, ← UInt32.toNat_inj, toNat_udpSum, toNat_receivePseudoHeaderSum,
    wordSum_udpHeaderSent]
  refine Iff.trans ?_ (add_complement_iff (Nat.mod_lt _ (by decide)) hchecksum)
  have hsum : (halves f.saddr + halves f.daddr + 17 + f.udpLength.toNat +
      (f.sport.toNat + f.dport.toNat + f.udpLength.toNat + (udpChecksum f payload size).toNat) +
      payloadSum payload size) % 2 ^ 32 =
      (udpWordSum f payload size % 2 ^ 32 + (udpChecksum f payload size).toNat) % 2 ^ 32 := by
    unfold udpWordSum
    omega
  rw [hsum]
  rfl

end Datagram

/-- A checksum verifies exactly when the words it covers add up without a carry. -/
theorem checksums_verify_iff (header : Nat → UInt8) :
    (verifyIpv4Checksum (withIpv4Checksum header) = true ↔ ipv4WordSum header ≤ 0xFFFF) ∧
    ∀ (saddr daddr : UInt32) (sport dport : UInt16) (payload : Nat → UInt8) (size : Nat)
      (stack : Nat → UInt8) (ipSize : Nat) (protocol : UInt8),
      let f := sentFields saddr daddr sport dport size
      receives (pointer (ipHeader stack ipSize saddr daddr protocol)) f payload size = true ↔
        udpWordSum f payload size % 2 ^ 32 ≤ 0xFFFF := by
  refine ⟨verifyIpv4Checksum_iff header, ?_⟩
  intro saddr daddr sport dport payload size stack ipSize protocol
  exact receives_iff (sentFields saddr daddr sport dport size) payload size stack ipSize protocol

/-- From 192.168.0.1 to 192.168.0.2: the two upper halves of the addresses carry. -/
theorem checksums_rejected :
    (¬∀ header : Nat → UInt8, verifyIpv4Checksum (withIpv4Checksum header) = true) ∧
    ¬∀ (saddr daddr : UInt32) (sport dport : UInt16) (payload : Nat → UInt8) (size : Nat)
      (stack : Nat → UInt8) (ipSize : Nat) (protocol : UInt8),
      receives (pointer (ipHeader stack ipSize saddr daddr protocol))
        (sentFields saddr daddr sport dport size) payload size = true := by
  constructor
  · intro h
    have hheader := h (pointer (ipHeader (fun _ => 0) 28 0xC0A80001 0xC0A80002 17))
    rw [verifyIpv4Checksum_iff] at hheader
    revert hheader
    decide +kernel
  · intro h
    have hdatagram := h 0xC0A80001 0xC0A80002 9 9 (fun _ => 0) 0 (fun _ => 0) 8 17
    have hsum := (receives_iff (sentFields 0xC0A80001 0xC0A80002 9 9 0) (fun _ => 0) 0
      (fun _ => 0) 8 17).mp hdatagram
    revert hsum
    decide +kernel

end CudaNs3.Device
