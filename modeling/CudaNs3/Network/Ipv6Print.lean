import CudaNs3.Internet.Ipv6Header
import CudaNs3.Network.Ipv6Text

/-!
# Printing IPv6 addresses

`Print` leaves out the longest run of zero groups, and writes the last four bytes of a mapped
address as an IPv4 address, a form that is not read back. What it writes of any other address is
a text of the grammar that denotes the address.
-/

namespace CudaNs3.Network.Ipv6Text

open Internet

set_option autoImplicit false

/-- The bytes of `m_address`. -/
def octets (a : Ipv6Address) : List UInt8 := Words.toBytes 16 a.toNat

def isIpv4MappedAddress (a : Ipv6Address) : Bool :=
  (octets a).take 12 == [0, 0, 0, 0, 0, 0, 0, 0, 0, 0, 0xff, 0xff]

/-- `address[i] = (m_address[2 * i] << 8) | m_address[2 * i + 1]` -/
def hextets : List UInt8 → List Nat
  | hi :: lo :: rest => (hi.toNat <<< 8 ||| lo.toNat) :: hextets rest
  | _ => []

/-- The runs of zeros; `none` where the source has the base -1. -/
structure Runs where
  bestBase : Option Nat := none
  bestLen : Nat := 0
  curBase : Option Nat := none
  curLen : Nat := 0

def Runs.close (r : Runs) : Runs :=
  match r.curBase with
  | none => r
  | some base =>
    if r.bestBase = none ∨ r.bestLen < r.curLen then
      { r with bestBase := some base, bestLen := r.curLen }
    else r

def Runs.look (address : List Nat) (r : Runs) (i : Nat) : Runs :=
  if address.getD i 0 = 0 then
    match r.curBase with
    | none => { r with curBase := some i, curLen := 1 }
    | some _ => { r with curLen := r.curLen + 1 }
  else { r.close with curBase := none }

/-- The base and the length of the run that is left out. -/
def bestRun (address : List Nat) : Option (Nat × Nat) :=
  let r := ((List.range 8).foldl (Runs.look address) {}).close
  r.bestBase.bind fun base => if r.bestLen < 2 then none else some (base, r.bestLen)

def hex (n : Nat) : List Char := Nat.toDigits 16 n

/-- The loop that writes the groups from `i` on. -/
def printFrom (address : List Nat) (best : Option (Nat × Nat)) : Nat → Nat → List Char
  | 0, _ => []
  | fuel + 1, i =>
    if 8 ≤ i then []
    else match best with
      | some (base, len) =>
        if i = base then ':' :: printFrom address best fuel (i + len)
        else (if i = 0 then [] else [':']) ++ hex (address.getD i 0) ++
          printFrom address best fuel (i + 1)
      | none => (if i = 0 then [] else [':']) ++ hex (address.getD i 0) ++
          printFrom address best fuel (i + 1)

def decimal (b : UInt8) : List Char := Nat.toDigits 10 b.toNat

def print (a : Ipv6Address) : List Char :=
  let m := octets a
  if isIpv4MappedAddress a then
    "::ffff:".toList ++ decimal (m.getD 12 0) ++ '.' :: decimal (m.getD 13 0) ++
      '.' :: decimal (m.getD 14 0) ++ '.' :: decimal (m.getD 15 0)
  else
    let address := hextets m
    let best := bestRun address
    printFrom address best 8 0 ++
      if best.any fun r => r.1 + r.2 = 8 then [':'] else []

/-- `Ipv6Address(const char*)` in memory that holds `addr`. -/
def construct (text : List Char) (addr : List UInt8) : List UInt8 := (asciiToIpv6Host text addr).2

/-! ### Groups -/

theorem xdigit_digitChar : ∀ d < 16, xdigit (Nat.digitChar d) = some d := by decide +kernel

theorem hex_of_lt {n : Nat} (h : n < 16) : hex n = [Nat.digitChar n] := Nat.toDigits_of_lt_base h

theorem hex_of_le {n : Nat} (h : 16 ≤ n) : hex n = hex (n / 16) ++ [Nat.digitChar (n % 16)] :=
  Nat.toDigits_of_base_le (by decide) h

theorem hex_spec (n : Nat) : (∀ ch ∈ hex n, (xdigit ch).isSome) ∧ value (hex n) = n := by
  induction n using Nat.strongRecOn with
  | ind n ih =>
    have hdigit : xdigit (Nat.digitChar (n % 16)) = some (n % 16) :=
      xdigit_digitChar _ (Nat.mod_lt n (by decide))
    by_cases h : n < 16
    · rw [Nat.mod_eq_of_lt h] at hdigit
      rw [hex_of_lt h]
      constructor
      · intro ch hch
        rw [List.mem_singleton.mp hch, hdigit]
        rfl
      · have hone := value_append_singleton [] (Nat.digitChar n)
        rw [hdigit] at hone
        exact hone.trans (Nat.zero_add n)
    · obtain ⟨hdigits, hvalue⟩ := ih (n / 16) (by omega)
      rw [hex_of_le (Nat.le_of_not_lt h)]
      constructor
      · intro ch hch
        rcases List.mem_append.mp hch with hch | hch
        · exact hdigits ch hch
        · rw [List.mem_singleton.mp hch, hdigit]
          rfl
      · rw [value_append_singleton, hvalue, hdigit]
        exact Nat.div_add_mod n 16

theorem isGroup_hex {n : Nat} (h : n < 65536) : IsGroup (hex n) where
  pos := Nat.length_toDigits_pos
  le := (Nat.length_toDigits_le_iff (by decide) (by decide)).mpr h
  digits := (hex_spec n).1

theorem hextet_eq (hi lo : UInt8) : hi.toNat <<< 8 ||| lo.toNat = 256 * hi.toNat + lo.toNat := by
  rw [← Nat.shiftLeft_add_eq_or_of_lt lo.toNat_lt, Nat.shiftLeft_eq, Nat.mul_comm]

theorem groupBytes_hextet (hi lo : UInt8) :
    groupBytes (hex (hi.toNat <<< 8 ||| lo.toNat)) = [hi, lo] := by
  have hlo := lo.toNat_lt
  have hhi := hi.toNat_lt
  unfold groupBytes
  rw [(hex_spec _).2, hextet_eq]
  have hdiv : (256 * hi.toNat + lo.toNat) / 256 = hi.toNat := by omega
  have hlow : UInt8.ofNat (256 * hi.toNat + lo.toNat) = lo := by
    rw [← UInt8.toNat_inj, UInt8.toNat_ofNat']
    omega
  rw [hdiv, UInt8.ofNat_toNat, hlow]

theorem hextets_spec (k : Nat) {o : List UInt8} (h : o.length = 2 * k) :
    (hextets o).length = k ∧ (∀ n ∈ hextets o, n < 65536) ∧
      ((hextets o).map hex).flatMap groupBytes = o := by
  induction k generalizing o with
  | zero =>
    obtain rfl := List.length_eq_zero_iff.mp h
    exact ⟨rfl, fun n hn => (by cases hn), rfl⟩
  | succ k ih =>
    match o, h with
    | hi :: lo :: rest, h =>
      obtain ⟨hlen, hlt, hbytes⟩ := ih (o := rest) (by simp only [List.length_cons] at h; omega)
      refine ⟨congrArg (· + 1) hlen, ?_, ?_⟩
      · intro n hn
        rcases List.mem_cons.mp hn with rfl | hn
        · have hlo := lo.toNat_lt
          have hhi := hi.toNat_lt
          rw [hextet_eq]
          omega
        · exact hlt n hn
      · rw [hextets, List.map_cons, List.flatMap_cons, hbytes, groupBytes_hextet]
        rfl

/-! ### The run of zeros -/

/-- There are zeros in the `len` groups from `base` on. -/
def ZeroRun (address : List Nat) (base len : Nat) : Prop :=
  ∀ j, base ≤ j → j < base + len → address.getD j 0 = 0

/-- The runs found among the first `n` groups. -/
structure Runs.Found (address : List Nat) (n : Nat) (r : Runs) : Prop where
  best : ∀ base ∈ r.bestBase, base + r.bestLen ≤ n ∧ ZeroRun address base r.bestLen
  cur : ∀ base ∈ r.curBase, base + r.curLen = n ∧ ZeroRun address base r.curLen

namespace Runs.Found
variable {address : List Nat} {n : Nat} {r : Runs}

theorem close (h : r.Found address n) : r.close.Found address n := by
  rcases r with ⟨bestBase, bestLen, curBase, curLen⟩
  cases curBase with
  | none => exact h
  | some base =>
    obtain ⟨hend, hrun⟩ := h.cur base rfl
    change Found address n (if bestBase = none ∨ bestLen < curLen then
      ⟨some base, curLen, some base, curLen⟩ else ⟨bestBase, bestLen, some base, curLen⟩)
    split
    · refine ⟨?_, h.cur⟩
      rintro base' ⟨rfl⟩
      exact ⟨hend.le, hrun⟩
    · exact h

theorem best_succ (h : r.Found address n) : ∀ base ∈ r.bestBase,
    base + r.bestLen ≤ n + 1 ∧ ZeroRun address base r.bestLen := by
  intro base hbase
  obtain ⟨hend, hrun⟩ := h.best base hbase
  exact ⟨Nat.le_succ_of_le hend, hrun⟩

theorem look (h : r.Found address n) : (Runs.look address r n).Found address (n + 1) := by
  unfold Runs.look
  by_cases hzero : address.getD n 0 = 0
  · rw [if_pos hzero]
    rcases r with ⟨bestBase, bestLen, curBase, curLen⟩
    cases curBase with
    | none =>
      change Found address (n + 1) ⟨bestBase, bestLen, some n, 1⟩
      refine ⟨h.best_succ, ?_⟩
      rintro base ⟨rfl⟩
      refine ⟨rfl, ?_⟩
      intro j hle hlt
      change j < n + 1 at hlt
      obtain rfl : j = n := by omega
      exact hzero
    | some base =>
      obtain ⟨hend, hrun⟩ := h.cur base rfl
      change base + curLen = n at hend
      change Found address (n + 1) ⟨bestBase, bestLen, some base, curLen + 1⟩
      refine ⟨h.best_succ, ?_⟩
      rintro base' ⟨rfl⟩
      refine ⟨congrArg (· + 1) hend, ?_⟩
      intro j hle hlt
      change j < base + (curLen + 1) at hlt
      by_cases hj : j < base + curLen
      · exact hrun j hle hj
      · obtain rfl : j = n := by omega
        exact hzero
  · rw [if_neg hzero]
    exact ⟨h.close.best_succ, fun base hbase => by cases hbase⟩

end Runs.Found

theorem bestRun_spec {address : List Nat} {base len : Nat}
    (h : bestRun address = some (base, len)) :
    2 ≤ len ∧ base + len ≤ 8 ∧ ZeroRun address base len := by
  have hfound (n : Nat) : ((List.range n).foldl (Runs.look address) {}).Found address n := by
    induction n with
    | zero => exact ⟨fun base hbase => (by cases hbase), fun base hbase => by cases hbase⟩
    | succ n ih =>
      rw [List.range_succ, List.foldl_append]
      exact ih.look
  obtain ⟨base', hbase, hsome⟩ := Option.bind_eq_some_iff.mp h
  split at hsome
  · cases hsome
  · rename_i hlen
    obtain ⟨rfl, rfl⟩ := Prod.mk.inj (Option.some.inj hsome)
    exact ⟨Nat.le_of_not_lt hlen, (hfound 8).close.best base' hbase⟩

/-! ### The text -/

/-- Groups with a colon in front of each. -/
def led (gs : List Nat) : List Char := gs.flatMap fun n => ':' :: hex n

theorem join_map_hex (n : Nat) (gs : List Nat) :
    join ((n :: gs).map hex) = hex n ++ led gs := by
  induction gs generalizing n with
  | nil => exact List.intercalate_singleton.trans (List.append_nil _).symm
  | cons m gs ih =>
    have hrest := ih m
    have hled : led (m :: gs) = [':'] ++ (hex m ++ led gs) := List.flatMap_cons
    unfold join at hrest ⊢
    rw [hled, ← hrest, List.map_cons, List.map_cons, List.intercalate_cons_cons, List.append_assoc]

/-- A colon and groups that are led by colons: a double colon and the groups. -/
theorem colon_led (gs : List Nat) :
    ':' :: led gs ++ (if gs = [] then [':'] else []) = [':', ':'] ++ join (gs.map hex) := by
  cases gs with
  | nil => rfl
  | cons n gs =>
    rw [join_map_hex, if_neg (List.cons_ne_nil n gs), List.append_nil]
    rfl

section
variable {address : List Nat} {best : Option (Nat × Nat)} {base len i fuel : Nat}

theorem drop_eq_cons (hlen : address.length = 8) (hi : i < 8) :
    address.drop i = address.getD i 0 :: address.drop (i + 1) := by
  rw [List.drop_eq_getElem_cons (by omega), List.getD_eq_getElem?_getD,
    List.getElem?_eq_getElem (by omega), Option.getD_some]

/-- One round that writes a group. -/
theorem printFrom_group (hi : i < 8) (hbest : ∀ r ∈ best, i ≠ r.1) :
    printFrom address best (fuel + 1) i =
      (if i = 0 then [] else [':']) ++ hex (address.getD i 0) ++
        printFrom address best fuel (i + 1) := by
  cases best with
  | none =>
    rw [printFrom, if_neg (Nat.not_le.mpr hi)]
  | some r =>
    rw [printFrom, if_neg (Nat.not_le.mpr hi)]
    exact if_neg (hbest r rfl)

theorem printFrom_end (hi : 8 ≤ i) : printFrom address best fuel i = [] := by
  cases fuel with
  | zero => rfl
  | succ fuel => cases best <;> rw [printFrom, if_pos hi]

/-- Behind the run, or where there is none. -/
theorem printFrom_led (hlen : address.length = 8) (hpos : 0 < i) (hfuel : 8 - i ≤ fuel)
    (hbest : ∀ r ∈ best, r.1 < i) : printFrom address best fuel i = led (address.drop i) := by
  induction fuel generalizing i with
  | zero =>
    rw [List.drop_eq_nil_of_le (by omega)]
    rfl
  | succ fuel ih =>
    by_cases hi : i < 8
    · rw [printFrom_group hi fun r hr => (hbest r hr).ne', drop_eq_cons hlen hi,
        ih (Nat.succ_pos i) (by omega) fun r hr => Nat.lt_succ_of_lt (hbest r hr),
        if_neg (Nat.pos_iff_ne_zero.mp hpos)]
      rfl
    · rw [List.drop_eq_nil_of_le (by omega), printFrom_end (by omega)]
      rfl

/-- The groups up to the run. -/
theorem printFrom_run (hlen : address.length = 8) (hpos : 0 < i) (hi : i ≤ base) (hbase : base < 8)
    (hzeros : 0 < len) (hfuel : 8 - i ≤ fuel) :
    printFrom address (some (base, len)) fuel i =
      led ((address.take base).drop i) ++ ':' :: led (address.drop (base + len)) := by
  induction fuel generalizing i with
  | zero => omega
  | succ fuel ih =>
    by_cases heq : i = base
    · subst heq
      rw [printFrom, if_neg (by omega)]
      rw [if_pos rfl, List.drop_eq_nil_of_le (List.length_take_le i address),
        printFrom_led hlen (by omega) (by omega)]
      · rfl
      · rintro r ⟨rfl⟩
        change i < i + len
        omega
    · have hcons : (address.take base).drop i =
          address.getD i 0 :: (address.take base).drop (i + 1) := by
        rw [List.drop_take, List.drop_take, drop_eq_cons hlen (by omega),
          show base - i = base - (i + 1) + 1 by omega, List.take_succ_cons]
      rw [printFrom_group (by omega) (by rintro r ⟨rfl⟩; exact heq), hcons,
        ih (Nat.succ_pos i) (by omega) (by omega), if_neg (Nat.pos_iff_ne_zero.mp hpos)]
      exact (List.append_assoc _ _ _).symm

theorem printFrom_none (hlen : address.length = 8) :
    printFrom address none 8 0 = join (address.map hex) := by
  have hcons : address = address.getD 0 0 :: address.drop 1 := drop_eq_cons (i := 0) hlen (by omega)
  rw [printFrom_group (by omega) fun r hr => (by cases hr),
    printFrom_led hlen (by omega) (by omega) fun r hr => by cases hr]
  conv_rhs => rw [hcons, join_map_hex]
  rfl

theorem printFrom_some (hlen : address.length = 8) (hzeros : 0 < len) (hend : base + len ≤ 8) :
    printFrom address (some (base, len)) 8 0 =
      join ((address.take base).map hex) ++ ':' :: led (address.drop (base + len)) := by
  cases base with
  | zero =>
    rw [printFrom, if_neg (by omega)]
    change ':' :: printFrom address (some (0, len)) 7 (0 + len) = _
    rw [printFrom_led hlen (by omega) (by omega)]
    · rfl
    · rintro r ⟨rfl⟩
      change 0 < 0 + len
      omega
  | succ base =>
    have hcons : address = address.getD 0 0 :: address.drop 1 := drop_eq_cons (i := 0) hlen (by omega)
    have htake : address.take (base + 1) = address.getD 0 0 :: (address.take (base + 1)).drop 1 := by
      conv_lhs => rw [hcons, List.take_succ_cons]
      rw [List.drop_take, Nat.add_sub_cancel]
    rw [printFrom_group (by omega) (by rintro r ⟨rfl⟩; exact (Nat.succ_ne_zero base).symm),
      printFrom_run hlen (by omega) (by omega) (by omega) hzeros (by omega)]
    conv_rhs => rw [htake, join_map_hex]
    exact (List.append_assoc _ _ _).symm

end

theorem eq_append_zeros {address : List Nat} {base len : Nat} (hlen : address.length = 8)
    (hend : base + len ≤ 8) (hrun : ZeroRun address base len) :
    address = address.take base ++ (List.replicate len 0 ++ address.drop (base + len)) := by
  have hzeros : (address.drop base).take len = List.replicate len 0 := by
    apply List.eq_replicate_iff.mpr
    constructor
    · rw [List.length_take, List.length_drop, hlen]
      omega
    · intro n hn
      obtain ⟨j, hj, rfl⟩ := List.mem_iff_getElem.mp hn
      rw [List.length_take, List.length_drop, hlen] at hj
      have hzero := hrun (base + j) (by omega) (by omega)
      rw [List.getD_eq_getElem?_getD, List.getElem?_eq_getElem (by omega), Option.getD_some] at hzero
      rw [List.getElem_take, List.getElem_drop]
      exact hzero
  rw [← hzeros, ← List.drop_drop, List.take_append_drop, List.take_append_drop]

theorem flatMap_zeros (len : Nat) :
    ((List.replicate len 0).map hex).flatMap groupBytes = zeros (2 * len) := by
  induction len with
  | zero => rfl
  | succ len ih =>
    rw [List.replicate_succ, List.map_cons, List.flatMap_cons, ih]
    rfl

/-- What is written of an address that is not mapped denotes it. -/
theorem denotes_print {a : Ipv6Address} (h : isIpv4MappedAddress a = false) :
    Denotes (print a) (octets a) := by
  have hoctets : (octets a).length = 2 * 8 := Words.length_toBytes
  obtain ⟨hlen, hlt, hbytes⟩ := hextets_spec 8 hoctets
  have hgroups {gs : List Nat} (hsub : gs ⊆ hextets (octets a)) : ∀ g ∈ gs.map hex, IsGroup g := by
    intro g hg
    obtain ⟨n, hn, rfl⟩ := List.mem_map.mp hg
    exact isGroup_hex (hlt n (hsub hn))
  unfold print
  simp only [h, Bool.false_eq_true, if_false]
  generalize hextets (octets a) = address at *
  cases hbest : bestRun address with
  | none =>
    rw [printFrom_none hlen, ← hbytes]
    have hplain := Denotes.plain (address.map hex) (by rw [List.length_map, hlen])
      (hgroups (List.Subset.refl _))
    rwa [← List.append_nil (join _)] at hplain
  | some r =>
    obtain ⟨base, len⟩ := r
    obtain ⟨htwo, hend, hrun⟩ := bestRun_spec hbest
    have hdrop : (address.drop (base + len)).length = 8 - (base + len) := by
      rw [List.length_drop, hlen]
    have htake : (address.take base).length = base := by
      rw [List.length_take, hlen]
      omega
    have htrail : (if (some (base, len)).any fun r => decide (r.1 + r.2 = 8) then [':'] else []) =
        if address.drop (base + len) = [] then [':'] else [] := by
      have hiff : ((some (base, len)).any fun r => decide (r.1 + r.2 = 8)) = true ↔
          address.drop (base + len) = [] := by
        rw [← List.length_eq_zero_iff, hdrop, Option.any_some, decide_eq_true_iff]
        omega
      exact if_congr hiff rfl rfl
    rw [printFrom_some hlen (by omega) hend, htrail, List.append_assoc, colon_led, ← hbytes]
    have hcompressed := Denotes.compressed ((address.take base).map hex)
      ((address.drop (base + len)).map hex)
      (by rw [List.length_map, List.length_map, hdrop, htake]; omega)
      (hgroups (List.take_subset _ _)) (hgroups (List.drop_subset _ _))
    have hzeros : 16 - 2 * (((address.take base).map hex).length +
        ((address.drop (base + len)).map hex).length) = 2 * len := by
      rw [List.length_map, List.length_map, hdrop, htake]
      omega
    have hsplit := congrArg (fun gs => (gs.map hex).flatMap groupBytes)
      (eq_append_zeros hlen hend hrun)
    simp only [List.map_append, List.flatMap_append, flatMap_zeros] at hsplit
    rw [hzeros, List.append_assoc (List.flatMap _ _), ← hsplit, List.append_assoc] at hcompressed
    exact hcompressed

/-- The text of a mapped address is not read. -/
theorem parse_print_mapped {a : Ipv6Address} (h : isIpv4MappedAddress a = true) :
    parse (print a) = none := by
  have hdot : '.' ∈ print a := by
    unfold print
    simp only [h, if_true]
    exact List.mem_append_right _ List.mem_cons_self
  have hnot : ¬ ((xdigit '.').isSome ∨ '.' = ':') := by decide +kernel
  cases hparse : parse (print a) with
  | none => rfl
  | some b => exact absurd (chars_of_parse hparse '.' hdot) hnot

/-- An address is constructed from its own text unless it is mapped. -/
theorem construct_iff (a : Ipv6Address) :
    (∀ addr, addr.length = 16 → construct (print a) addr = octets a) ↔
      isIpv4MappedAddress a = false := by
  unfold construct asciiToIpv6Host
  constructor
  · intro h
    by_contra hmapped
    have hmap := eq_true_of_ne_false hmapped
    have hzeros := h (zeros 16) List.length_replicate
    rw [parse_print_mapped hmap] at hzeros
    have hprefix := eq_of_beq hmap
    rw [← hzeros] at hprefix
    exact absurd hprefix (by decide)
  · intro h addr hlen
    rw [parse_iff.mpr (Or.inl (denotes_print h))]

/-- The text form of addresses: what is written is read back unless the address is mapped, and
what is read is the grammar apart from a colon behind a group at the end. -/
theorem text_exact (a : Ipv6Address) (text : List Char) :
    ((∀ addr, addr.length = 16 → construct (print a) addr = octets a) ↔
      isIpv4MappedAddress a = false) ∧
    (Exact text ↔ ¬ ∃ w b, EndsInGroup w ∧ Denotes w b ∧ text = w ++ [':']) :=
  ⟨construct_iff a, exact_iff text⟩

/-- `::ffff:1.2.3.4` is not read back, and `1::2:` is accepted. -/
theorem not_text_exact :
    (¬ ∀ (a : Ipv6Address) (addr : List UInt8), addr.length = 16 →
      construct (print a) addr = octets a) ∧ ¬ ∀ text, Exact text := by
  constructor
  · intro h
    exact absurd (h 0xffff01020304 (zeros 16) (by decide)) (by decide +kernel)
  · intro h
    have haccepted : (asciiToIpv6Host "1::2:".toList []).1 = true := by decide +kernel
    obtain ⟨b, hb⟩ := (h "1::2:".toList []).1.mp haccepted
    exact not_denotes_colon (w := "1::2".toList) (by unfold EndsInGroup; decide) hb

end CudaNs3.Network.Ipv6Text
