import CudaNs3.Network.PcapFile

/-!
# Comparing PCAP files

`Diff` reads two files side by side until a packet differs or a file ends. It tells whether the
packets differ, and reports the first different one, unless one file has fewer packets than the
other: then it reports the packet before.
-/

namespace CudaNs3.Network

open ByteStreams

set_option autoImplicit false

namespace PcapFile

section
variable (bigEndian : Bool)

structure Comparison where
  pcap1 : PcapFile
  pcap2 : PcapFile
  out1 : Fetched
  out2 : Fetched
  packets : BitVec 32

/-- The loop of `Diff` with at most `fuel` rounds: whether a difference was found, and the state
at the end. -/
def diffLoop (snapLen : BitVec 32) : Nat → Comparison → Option (Bool × Comparison)
  | 0, _ => none
  | fuel + 1, c =>
    if c.pcap1.eof || c.pcap2.eof then some (false, c)
    else
      let (out1, pcap1) := read bigEndian c.pcap1 snapLen c.out1
      let (out2, pcap2) := read bigEndian c.pcap2 snapLen c.out2
      let c := { c with pcap1, pcap2, out1, out2 }
      if pcap1.fail ≠ pcap2.fail then some (true, c)
      else if pcap1.eof then some (false, c)
      else
        let c := { c with packets := c.packets + 1 }
        if out1.tsSec ≠ out2.tsSec ∨ out1.tsUsec ≠ out2.tsUsec then some (true, c)
        else if out1.readLen ≠ out2.readLen then some (true, c)
        else if out1.data.take out1.readLen.toNat ≠ out2.data.take out1.readLen.toNat then
          some (true, c)
        else diffLoop snapLen fuel c

structure Verdict where
  diff : Bool
  sec : BitVec 32
  usec : BitVec 32
  packets : BitVec 32

/-- `none` when the rounds do not suffice. -/
def diff (new : PcapFile) (f1 f2 : List UInt8) (sec usec packets snapLen : BitVec 32)
    (fuel : Nat) : Option Verdict :=
  let pcap1 := openFile bigEndian new f1
  let pcap2 := openFile bigEndian new f2
  if pcap1.fail || pcap2.fail then some { diff := true, sec, usec, packets }
  else
    let data := List.replicate snapLen.toNat 0
    (diffLoop bigEndian snapLen fuel
      { pcap1, pcap2, out1 := { data }, out2 := { data }, packets }).map fun r =>
        let bad := r.2.pcap1.fail || r.2.pcap2.fail
        let eof := r.2.pcap1.eof && r.2.pcap2.eof
        { diff := r.1 || bad && !eof, sec := r.2.out1.tsSec, usec := r.2.out1.tsUsec,
          packets := r.2.packets }

end

/-! ### Packets as they are compared -/

/-- What is compared of a packet. -/
structure Key where
  tsSec : BitVec 32
  tsUsec : BitVec 32
  len : Nat
  data : List UInt8
  deriving DecidableEq

def key (snapLen : BitVec 32) (r : Record) : Key where
  tsSec := r.header.tsSec
  tsUsec := r.header.tsUsec
  len := min snapLen.toNat r.header.inclLen.toNat
  data := r.data.take (min snapLen.toNat r.header.inclLen.toNat)

/-- Whether packets differ, how many were compared, and the timestamps of the last one of the
first list that was looked at. -/
def outcome : BitVec 32 × BitVec 32 → List Key → List Key → Bool × Nat × BitVec 32 × BitVec 32
  | t, [], [] => (false, 0, t)
  | t, [], _ :: _ => (true, 0, t)
  | _, a :: _, [] => (true, 0, a.tsSec, a.tsUsec)
  | _, a :: as, b :: bs =>
    if a = b then
      let r := outcome (a.tsSec, a.tsUsec) as bs
      (r.1, r.2.1 + 1, r.2.2)
    else (true, 1, a.tsSec, a.tsUsec)

/-- The lists agree below `k` and differ there. -/
def FirstDifference (as bs : List Key) (k : Nat) : Prop := as.take k = bs.take k ∧ as[k]? ≠ bs[k]?

section
variable {t : BitVec 32 × BitVec 32} {a b : Key} {as bs : List Key} {k : Nat}

theorem firstDifference_zero (h : a ≠ b) : FirstDifference (a :: as) (b :: bs) 0 := by
  refine ⟨rfl, ?_⟩
  intro heq
  exact h (Option.some.inj heq)

theorem firstDifference_cons_iff :
    FirstDifference (a :: as) (a :: bs) (k + 1) ↔ FirstDifference as bs k := by
  unfold FirstDifference
  rw [List.take_succ_cons, List.take_succ_cons, List.cons_inj_right]
  rfl

theorem firstDifference_unique {l : Nat} (hk : FirstDifference as bs k)
    (hl : FirstDifference as bs l) : k = l := by
  have hle {m n : Nat} (hm : FirstDifference as bs m) (hn : FirstDifference as bs n) : n ≤ m := by
    by_contra hlt
    have hsame := congrArg (·[m]?) hn.1
    simp only [List.getElem?_take_of_lt (Nat.lt_of_not_le hlt)] at hsame
    exact hm.2 hsame
  exact Nat.le_antisymm (hle hl hk) (hle hk hl)

theorem outcome_fst : (outcome t as bs).1 = false ↔ as = bs := by
  induction as generalizing t bs with
  | nil =>
    cases bs with
    | nil => exact iff_of_true rfl rfl
    | cons b bs => exact iff_of_false Bool.true_eq_false.mp (List.cons_ne_nil b bs).symm
  | cons a as ih =>
    cases bs with
    | nil => exact iff_of_false Bool.true_eq_false.mp (List.cons_ne_nil a as)
    | cons b bs =>
      unfold outcome
      by_cases hab : a = b
      · rw [if_pos hab, List.cons.injEq, and_iff_right hab]
        exact ih
      · rw [if_neg hab, List.cons.injEq]
        exact iff_of_false Bool.true_eq_false.mp fun h => hab h.1

/-- The packet that differs is reported when both lists have it, else the number before it. -/
theorem outcome_of_firstDifference (h : FirstDifference as bs k) :
    (∀ a ∈ as[k]?, ∀ b ∈ bs[k]?, (outcome t as bs).2 = (k + 1, a.tsSec, a.tsUsec)) ∧
      (as[k]? = none ∨ bs[k]? = none → (outcome t as bs).2.1 = k) := by
  induction as generalizing t bs k with
  | nil =>
    cases bs with
    | nil => exact absurd rfl h.2
    | cons b bs =>
      cases k with
      | zero =>
        refine ⟨?_, fun _ => rfl⟩
        intro a' ha
        cases ha
      | succ k => exact absurd h.1.symm (List.cons_ne_nil _ _)
  | cons a as ih =>
    cases bs with
    | nil =>
      cases k with
      | zero =>
        refine ⟨?_, fun _ => rfl⟩
        intro a' ha b' hb
        cases hb
      | succ k => exact absurd h.1 (List.cons_ne_nil _ _)
    | cons b bs =>
      unfold outcome
      cases k with
      | zero =>
        have hab : a ≠ b := by
          rintro rfl
          exact h.2 rfl
        rw [if_neg hab]
        refine ⟨?_, ?_⟩
        · intro a' ha b' hb
          obtain rfl := Option.some.inj ha
          rfl
        · rintro (hnone | hnone) <;> cases hnone
      | succ k =>
        obtain rfl : a = b := (List.cons.inj h.1).1
        obtain ⟨hboth, hone⟩ := ih (t := (a.tsSec, a.tsUsec)) (firstDifference_cons_iff.mp h)
        rw [if_pos rfl]
        refine ⟨?_, ?_⟩
        · intro a' ha b' hb
          have hrest := hboth a' ha b' hb
          simp only [hrest]
        · intro hnone
          exact congrArg (· + 1) (hone hnone)

/-- Lists that differ do so first at some place, which one of them lacks if and only if it is the
beginning of the other. -/
theorem exists_firstDifference (h : as ≠ bs) : ∃ k, FirstDifference as bs k ∧
    ((as[k]? = none ∨ bs[k]? = none) ↔ (as <+: bs ∨ bs <+: as)) := by
  induction as generalizing bs with
  | nil =>
    cases bs with
    | nil => exact absurd rfl h
    | cons b bs =>
      refine ⟨0, ⟨rfl, ?_⟩, iff_of_true (Or.inl rfl) (Or.inl List.nil_prefix)⟩
      intro heq
      cases heq
  | cons a as ih =>
    cases bs with
    | nil =>
      refine ⟨0, ⟨rfl, ?_⟩, iff_of_true (Or.inr rfl) (Or.inr List.nil_prefix)⟩
      intro heq
      cases heq
    | cons b bs =>
      by_cases hab : a = b
      · subst hab
        have hne : as ≠ bs := fun heq => h (congrArg (a :: ·) heq)
        obtain ⟨k, hk, hlacks⟩ := ih hne
        refine ⟨k + 1, firstDifference_cons_iff.mpr hk, ?_⟩
        rw [List.cons_prefix_cons, List.cons_prefix_cons, and_iff_right rfl, and_iff_right rfl]
        exact hlacks
      · refine ⟨0, firstDifference_zero hab, iff_of_false ?_ ?_⟩
        · rintro (hnone | hnone) <;> cases hnone
        · rw [List.cons_prefix_cons, List.cons_prefix_cons]
          rintro (hpre | hpre)
          · exact hab hpre.1
          · exact hab hpre.1.symm

end

/-! ### The comparison of two files -/

section
variable {bigEndian : Bool} {snapLen : BitVec 32} {c1 c2 : Settings} {c : Comparison}
  {rs1 rs2 : List Record} {fuel : Nat}

/-- The bytes of these records in a file with the settings. -/
def recordsBytes (bigEndian : Bool) (c : Settings) (rs : List Record) : List UInt8 :=
  rs.flatMap (recordBytes bigEndian (c.swapMode || bigEndian))

/-- Both files are open with their records in front of them. -/
structure Comparing (bigEndian : Bool) (c1 c2 : Settings) (rs1 rs2 : List Record)
    (c : Comparison) : Prop where
  first : Opened bigEndian c1 (recordsBytes bigEndian c1 rs1) c.pcap1
  second : Opened bigEndian c2 (recordsBytes bigEndian c2 rs2) c.pcap2

/-- What `diffLoop` returns agrees with what the lists of packets say. -/
structure Agrees (c : Comparison) (o : Bool × Nat × BitVec 32 × BitVec 32)
    (r : Bool × Comparison) : Prop where
  diff : r.1 = o.1
  packets : r.2.packets = c.packets + BitVec.ofNat 32 o.2.1
  stamps : (r.2.out1.tsSec, r.2.out1.tsUsec) = o.2.2
  ended : r.1 = false → r.2.pcap1.eof = true ∧ r.2.pcap2.eof = true

theorem key_eq_iff (snapLen : BitVec 32) (r1 r2 : Record) (out1 out2 : Fetched) :
    key snapLen r1 = key snapLen r2 ↔
      ((fetch r1 snapLen out1).tsSec = (fetch r2 snapLen out2).tsSec ∧
        (fetch r1 snapLen out1).tsUsec = (fetch r2 snapLen out2).tsUsec) ∧
      (fetch r1 snapLen out1).readLen = (fetch r2 snapLen out2).readLen ∧
      (fetch r1 snapLen out1).data.take (fetch r1 snapLen out1).readLen.toNat =
        (fetch r2 snapLen out2).data.take (fetch r1 snapLen out1).readLen.toNat := by
  have hdata1 := data_fetch r1 snapLen out1
  have hdata2 := data_fetch r2 snapLen out2
  have hlen1 := toNat_readLen r1 snapLen out1
  have hlen2 := toNat_readLen r2 snapLen out2
  have hkey (r : Record) (out : Fetched) (hlen : (fetch r snapLen out).readLen.toNat =
      min snapLen.toNat r.header.inclLen.toNat) : key snapLen r =
        ⟨(fetch r snapLen out).tsSec, (fetch r snapLen out).tsUsec,
          (fetch r snapLen out).readLen.toNat, r.data.take (fetch r snapLen out).readLen.toNat⟩ := by
    rw [hlen]
    rfl
  rw [hkey r1 out1 hlen1, hkey r2 out2 hlen2, Key.mk.injEq, BitVec.toNat_inj, and_assoc]
  refine and_congr_right' (and_congr_right' (and_congr_right ?_))
  intro heq
  rw [hdata1, heq, hdata2]

/-- A round in which both files have a packet. -/
theorem diffLoop_cons (fuel : Nat) {r1 r2 : Record}
    (hc : Comparing bigEndian c1 c2 (r1 :: rs1) (r2 :: rs2) c) :
    ∃ d : Comparison, Comparing bigEndian c1 c2 rs1 rs2 d ∧ d.packets = c.packets + 1 ∧
      d.out1.tsSec = r1.header.tsSec ∧ d.out1.tsUsec = r1.header.tsUsec ∧
      diffLoop bigEndian snapLen (fuel + 1) c =
        if key snapLen r1 = key snapLen r2 then diffLoop bigEndian snapLen fuel d
        else some (true, d) := by
  obtain ⟨hout1, hrest1⟩ := read_spec hc.first snapLen c.out1
  obtain ⟨hout2, hrest2⟩ := read_spec hc.second snapLen c.out2
  have hfail1 : (read bigEndian c.pcap1 snapLen c.out1).2.fail = false := hrest1.before.failed
  have hfail2 : (read bigEndian c.pcap2 snapLen c.out2).2.fail = false := hrest2.before.failed
  have heof1 : (read bigEndian c.pcap1 snapLen c.out1).2.eof = false := hrest1.before.eof
  have hstart1 : c.pcap1.eof = false := hc.first.before.eof
  have hstart2 : c.pcap2.eof = false := hc.second.before.eof
  refine ⟨⟨_, _, fetch r1 snapLen c.out1, fetch r2 snapLen c.out2, c.packets + 1⟩,
    ⟨hrest1, hrest2⟩, rfl, rfl, rfl, ?_⟩
  rw [if_congr (key_eq_iff snapLen r1 r2 c.out1 c.out2) rfl rfl, diffLoop]
  simp only [hstart1, hstart2, hout1, hout2, hfail1, hfail2, heof1, Bool.or_self,
    Bool.false_eq_true, if_false, ne_eq, not_true_eq_false, ← not_and_or, ite_not, ite_and]

/-- The state after a round in which no packet was compared. -/
def afterReads (bigEndian : Bool) (snapLen : BitVec 32) (c : Comparison) : Comparison where
  pcap1 := (read bigEndian c.pcap1 snapLen c.out1).2
  pcap2 := (read bigEndian c.pcap2 snapLen c.out2).2
  out1 := (read bigEndian c.pcap1 snapLen c.out1).1
  out2 := (read bigEndian c.pcap2 snapLen c.out2).1
  packets := c.packets

/-- One file has ended and the other has not. -/
theorem diffLoop_of_fail (hc : Comparing bigEndian c1 c2 rs1 rs2 c)
    (hfail : (afterReads bigEndian snapLen c).pcap1.fail ≠
      (afterReads bigEndian snapLen c).pcap2.fail) :
    diffLoop bigEndian snapLen (fuel + 1) c = some (true, afterReads bigEndian snapLen c) := by
  have hstart1 : c.pcap1.eof = false := hc.first.before.eof
  have hstart2 : c.pcap2.eof = false := hc.second.before.eof
  rw [diffLoop]
  simp only [hstart1, hstart2, Bool.or_self, Bool.false_eq_true, if_false]
  exact if_pos hfail

/-- Both files have ended. -/
theorem diffLoop_nil (hc : Comparing bigEndian c1 c2 [] [] c) :
    diffLoop bigEndian snapLen (fuel + 1) c = some (false, afterReads bigEndian snapLen c) := by
  obtain ⟨-, heof1, hfail1⟩ := read_end hc.first snapLen c.out1
  obtain ⟨-, -, hfail2⟩ := read_end hc.second snapLen c.out2
  have hstart1 : c.pcap1.eof = false := hc.first.before.eof
  have hstart2 : c.pcap2.eof = false := hc.second.before.eof
  rw [diffLoop]
  simp only [hstart1, hstart2, Bool.or_self, Bool.false_eq_true, if_false]
  rw [if_neg (not_not_intro (hfail1.trans hfail2.symm)), if_pos heof1]
  rfl

theorem diffLoop_spec (snapLen : BitVec 32) (hc : Comparing bigEndian c1 c2 rs1 rs2 c)
    (hfuel : rs1.length < fuel) :
    ∃ r, diffLoop bigEndian snapLen fuel c = some r ∧
      Agrees c (outcome (c.out1.tsSec, c.out1.tsUsec) (rs1.map (key snapLen))
        (rs2.map (key snapLen))) r := by
  have hnone : c.packets = c.packets + BitVec.ofNat 32 0 := (BitVec.add_zero _).symm
  induction rs1 generalizing rs2 c fuel with
  | nil =>
    obtain ⟨fuel, rfl⟩ : ∃ n, fuel = n + 1 := ⟨fuel - 1, by omega⟩
    obtain ⟨hout1, heof1, hfail1⟩ := read_end hc.first snapLen c.out1
    have hstamps : ((afterReads bigEndian snapLen c).out1.tsSec,
        (afterReads bigEndian snapLen c).out1.tsUsec) = (c.out1.tsSec, c.out1.tsUsec) := by
      rw [← hout1]
      rfl
    cases rs2 with
    | nil =>
      obtain ⟨-, heof2, -⟩ := read_end hc.second snapLen c.out2
      exact ⟨_, diffLoop_nil hc, rfl, hnone, hstamps, fun _ => ⟨heof1, heof2⟩⟩
    | cons r2 rs2 =>
      have hfail2 := (read_spec hc.second snapLen c.out2).2.before.failed
      have hfail : (afterReads bigEndian snapLen c).pcap1.fail ≠
          (afterReads bigEndian snapLen c).pcap2.fail := by
        intro heq
        exact Bool.false_ne_true (hfail2.symm.trans (heq.symm.trans hfail1))
      exact ⟨_, diffLoop_of_fail hc hfail, rfl, hnone, hstamps, fun h => by cases h⟩
  | cons r1 rs1 ih =>
    obtain ⟨fuel, rfl⟩ : ∃ n, fuel = n + 1 := ⟨fuel - 1, by omega⟩
    cases rs2 with
    | nil =>
      obtain ⟨hout1, hrest1⟩ := read_spec hc.first snapLen c.out1
      obtain ⟨-, -, hfail2⟩ := read_end hc.second snapLen c.out2
      have hfail : (afterReads bigEndian snapLen c).pcap1.fail ≠
          (afterReads bigEndian snapLen c).pcap2.fail := by
        intro heq
        exact Bool.false_ne_true (hrest1.before.failed.symm.trans (heq.trans hfail2))
      refine ⟨_, diffLoop_of_fail hc hfail, rfl, hnone, ?_, fun h => by cases h⟩
      change ((read bigEndian c.pcap1 snapLen c.out1).1.tsSec,
        (read bigEndian c.pcap1 snapLen c.out1).1.tsUsec) = _
      rw [hout1]
      rfl
    | cons r2 rs2 =>
      obtain ⟨d, hd, hpackets, hsec, husec, hloop⟩ := diffLoop_cons fuel hc
      rw [hloop, List.map_cons, List.map_cons, outcome]
      by_cases hkey : key snapLen r1 = key snapLen r2
      · rw [if_pos hkey, if_pos hkey]
        obtain ⟨r, hr, hagrees⟩ := ih hd (Nat.lt_of_succ_lt_succ hfuel) (BitVec.add_zero _).symm
        rw [hsec, husec] at hagrees
        refine ⟨r, hr, hagrees.diff, ?_, hagrees.stamps, hagrees.ended⟩
        rw [hagrees.packets, hpackets, BitVec.add_assoc, BitVec.add_comm 1, BitVec.ofNat_add]
        rfl
      · rw [if_neg hkey, if_neg hkey]
        refine ⟨_, rfl, rfl, hpackets, ?_, fun h => by cases h⟩
        rw [hsec, husec]
        rfl

/-- The packets of a file as they are compared. -/
def keys (snapLen : BitVec 32) (c : Settings) (calls : List WriteCall) : List Key :=
  calls.map fun call => key snapLen (record c.snapLen call)

/-- The first packet that differs is reported, of the first file if that has it. -/
def Reports (as bs : List Key) (v : Verdict) : Prop :=
  ∀ k, FirstDifference as bs k → v.packets = BitVec.ofNat 32 (k + 1) ∧
    ∀ a ∈ as[k]?.or bs[k]?, v.sec = a.tsSec ∧ v.usec = a.tsUsec

theorem diff_spec (snapLen : BitVec 32) (new : PcapFile) {f1 f2 : List UInt8}
    (h1 : Opened bigEndian c1 (recordsBytes bigEndian c1 rs1) (openFile bigEndian new f1))
    (h2 : Opened bigEndian c2 (recordsBytes bigEndian c2 rs2) (openFile bigEndian new f2))
    (sec usec packets : BitVec 32) (hfuel : rs1.length < fuel) :
    ∃ v, diff bigEndian new f1 f2 sec usec packets snapLen fuel = some v ∧
      let o := outcome (0, 0) (rs1.map (key snapLen)) (rs2.map (key snapLen))
      v.diff = o.1 ∧ v.packets = packets + BitVec.ofNat 32 o.2.1 ∧ (v.sec, v.usec) = o.2.2 := by
  have hc : Comparing bigEndian c1 c2 rs1 rs2
      ⟨openFile bigEndian new f1, openFile bigEndian new f2,
        { data := List.replicate snapLen.toNat 0 }, { data := List.replicate snapLen.toNat 0 },
        packets⟩ := ⟨h1, h2⟩
  obtain ⟨r, hr, hagrees⟩ := diffLoop_spec snapLen hc hfuel
  have hfail1 : (openFile bigEndian new f1).fail = false := h1.before.failed
  have hfail2 : (openFile bigEndian new f2).fail = false := h2.before.failed
  unfold diff
  simp only [hfail1, hfail2, Bool.or_self, Bool.false_eq_true, if_false, hr, Option.map_some]
  refine ⟨_, rfl, ?_, hagrees.packets, hagrees.stamps⟩
  rw [← hagrees.diff]
  cases hdiff : r.1 with
  | true => rfl
  | false =>
    obtain ⟨heof1, heof2⟩ := hagrees.ended hdiff
    rw [heof1, heof2]
    exact Bool.and_false _

theorem reports_iff {as bs : List Key} {v : Verdict} {t : BitVec 32 × BitVec 32}
    (hpackets : v.packets = BitVec.ofNat 32 (outcome t as bs).2.1)
    (hstamps : (v.sec, v.usec) = (outcome t as bs).2.2) :
    Reports as bs v ↔ as = bs ∨ ¬ (as <+: bs ∨ bs <+: as) := by
  by_cases heq : as = bs
  · refine iff_of_true ?_ (Or.inl heq)
    intro k hk
    exact absurd (congrArg (·[k]?) heq) hk.2
  · rw [or_iff_right heq]
    obtain ⟨k, hk, hlacks⟩ := exists_firstDifference heq
    obtain ⟨hboth, hone⟩ := outcome_of_firstDifference (t := t) hk
    rw [← hlacks]
    constructor
    · intro hreports hnone
      have hnumber := (hreports k hk).1
      rw [hpackets, hone hnone, ← BitVec.toNat_inj, BitVec.toNat_ofNat, BitVec.toNat_ofNat]
        at hnumber
      omega
    · intro hsome l hl
      obtain rfl := firstDifference_unique hl hk
      cases ha : as[l]? with
      | none => exact absurd (Or.inl ha) hsome
      | some a =>
        cases hb : bs[l]? with
        | none => exact absurd (Or.inr hb) hsome
        | some b =>
          have houtcome := hboth a ha b hb
          rw [houtcome] at hpackets hstamps
          refine ⟨hpackets, ?_⟩
          intro a' ha'
          obtain rfl := Option.some.inj ha'
          exact Prod.mk.inj hstamps

/-- Every file gives back what was written to it, and the comparison of two files tells whether
their packets differ; it reports the first different packet unless one file has only the first
packets of the other. -/
theorem pcap_exact (bigEndian : Bool) (new : PcapFile) (calls1 calls2 : List WriteCall)
    (hzone1 : -12 ≤ c1.timeZoneCorrection.toInt ∧ c1.timeZoneCorrection.toInt ≤ 12)
    (hzone2 : -12 ≤ c2.timeZoneCorrection.toInt ∧ c2.timeZoneCorrection.toInt ≤ 12)
    (sec usec snapLen : BitVec 32) :
    let f1 := (written bigEndian new c1 calls1).file.bytes
    let f2 := (written bigEndian new c2 calls2).file.bytes
    let keys1 := keys snapLen c1 calls1
    let keys2 := keys snapLen c2 calls2
    (∀ args : List (BitVec 32 × Fetched), args.length = calls1.length →
      RoundTrips bigEndian c1 calls1 args (openFile bigEndian new f1)) ∧
    ∀ fuel, calls1.length < fuel →
      ∃ v, diff bigEndian new f1 f2 sec usec 0 snapLen fuel = some v ∧
        (v.diff = false ↔ keys1 = keys2) ∧
        (Reports keys1 keys2 v ↔ keys1 = keys2 ∨ ¬ (keys1 <+: keys2 ∨ keys2 <+: keys1)) := by
  intro f1 f2 keys1 keys2
  refine ⟨fun args hlen => roundTrips bigEndian new calls1 hlen hzone1, ?_⟩
  intro fuel hfuel
  have hopened {c : Settings} (calls : List WriteCall)
      (hzone : -12 ≤ c.timeZoneCorrection.toInt ∧ c.timeZoneCorrection.toInt ≤ 12) :
      Opened bigEndian c (recordsBytes bigEndian c (calls.map (record c.snapLen)))
        (openFile bigEndian new (written bigEndian new c calls).file.bytes) := by
    rw [bytes_written, recordsBytes, List.flatMap_map]
    exact openFile_spec new _ hzone
  have hlen : (calls1.map (record c1.snapLen)).length < fuel := by rwa [List.length_map]
  obtain ⟨v, hv, hdiff, hpackets, hstamps⟩ := diff_spec snapLen new
    (hopened calls1 hzone1) (hopened calls2 hzone2) sec usec 0 hlen
  rw [List.map_map, List.map_map] at hdiff hpackets hstamps
  refine ⟨v, hv, ?_, reports_iff (hpackets.trans (BitVec.zero_add _)) hstamps⟩
  rw [hdiff]
  exact outcome_fst

end

section
def noFile : PcapFile where
  file := {}
  fileHeader := ⟨0, 0, 0, 0, 0, 0, 0⟩
  swapMode := false
  nanosecMode := false

def ethernet : Settings where
  dataLinkType := 1
  snapLen := 65535
  timeZoneCorrection := 0
  swapMode := false
  nanosecMode := false

def oneOctet (sec : BitVec 32) : WriteCall where
  tsSec := sec
  tsUsec := 0
  payload := .packet ⟨[7], by decide⟩

/-- A file does not differ from itself. -/
theorem pcap_exact_same : ∃ v, diff false noFile
    (written false noFile ethernet [oneOctet 1]).file.bytes
    (written false noFile ethernet [oneOctet 1]).file.bytes 0 0 0 64 2 = some v ∧
      v.diff = false := by
  have hzone : -12 ≤ ethernet.timeZoneCorrection.toInt ∧ ethernet.timeZoneCorrection.toInt ≤ 12 := by
    decide +kernel
  obtain ⟨v, hv, hdiff, -⟩ := (pcap_exact false noFile [oneOctet 1] [oneOctet 1] hzone hzone
    0 0 64).2 2 (by decide)
  exact ⟨v, hv, hdiff.mpr rfl⟩

/-- The second packet of the second file is reported as the first one. -/
theorem not_pcap_exact : ¬ ∀ (bigEndian : Bool) (new : PcapFile) (c1 c2 : Settings)
    (calls1 calls2 : List WriteCall) (sec usec snapLen : BitVec 32) (fuel : Nat) (v : Verdict),
    -12 ≤ c1.timeZoneCorrection.toInt ∧ c1.timeZoneCorrection.toInt ≤ 12 →
    -12 ≤ c2.timeZoneCorrection.toInt ∧ c2.timeZoneCorrection.toInt ≤ 12 →
    diff bigEndian new (written bigEndian new c1 calls1).file.bytes
      (written bigEndian new c2 calls2).file.bytes sec usec 0 snapLen fuel = some v →
    Reports (keys snapLen c1 calls1) (keys snapLen c2 calls2) v := by
  intro h
  obtain ⟨v, hv, hpackets⟩ : ∃ v ∈ diff false noFile
      (written false noFile ethernet [oneOctet 1]).file.bytes
      (written false noFile ethernet [oneOctet 1, oneOctet 2]).file.bytes 0 0 0 64 2,
      v.packets = 1 := by
    decide +kernel
  have hreports := h false noFile ethernet ethernet _ _ 0 0 64 2 v (by decide) (by decide) hv 1
    ⟨by decide, by decide⟩
  rw [hpackets] at hreports
  exact absurd hreports.1 (by decide)

end

end PcapFile

end CudaNs3.Network
