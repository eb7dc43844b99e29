import CudaNs3.Tcp.HeaderRoundTrip

/-!
# Headers from anywhere

What `Deserialize` makes of a buffer with any bytes in it: for which option areas it ends, stays
within the area and returns the size that the data offset gives.
-/

namespace CudaNs3.Tcp.TcpHeader

open Words TcpOption
set_option autoImplicit false

/-- The option areas that are read as they should be: options one after the other, and at the end
at most three bytes that make no option, or `END` and at most three bytes more. -/
inductive Acceptable : List UInt8 → Prop where
  | nil : Acceptable []
  | padding {area : List UInt8} : head area = .padding → area.length ≤ 4 → Acceptable area
  | option {area : List UInt8} {size : Nat} :
      head area = .option size → Acceptable (area.drop size) → Acceptable area
  | malformed {area : List UInt8} : head area = .malformed → area.length ≤ 3 → Acceptable area

section Heads

variable {area : List UInt8}

theorem acceptable_of_padding (hh : head area = .padding) : Acceptable area ↔ area.length ≤ 4 := by
  constructor
  · intro h
    cases h with
    | nil => cases hh
    | padding _ hle => exact hle
    | option h' _ => cases hh.symm.trans h'
    | malformed h' _ => cases hh.symm.trans h'
  · exact .padding hh

theorem acceptable_of_option {size : Nat} (hh : head area = .option size) :
    Acceptable area ↔ Acceptable (area.drop size) := by
  constructor
  · intro h
    cases h with
    | nil => cases hh
    | padding h' _ => cases hh.symm.trans h'
    | option h' hrest =>
      cases hh.symm.trans h'
      exact hrest
    | malformed h' _ => cases hh.symm.trans h'
  · exact .option hh

theorem acceptable_of_malformed (hh : head area = .malformed) :
    Acceptable area ↔ area.length ≤ 3 := by
  constructor
  · intro h
    cases h with
    | nil => cases hh
    | padding h' _ => cases hh.symm.trans h'
    | option h' _ => cases hh.symm.trans h'
    | malformed _ hle => exact hle
  · exact .malformed hh

theorem not_acceptable_of_broken (hne : area ≠ []) (hh : head area = .broken) :
    ¬ Acceptable area := by
  intro h
  cases h with
  | nil => exact hne rfl
  | padding h' _ => cases hh.symm.trans h'
  | option h' _ => cases hh.symm.trans h'
  | malformed h' _ => cases hh.symm.trans h'

end Heads

variable {b : List UInt8} {fuel pos n : Nat} {s t : Reading}

/-- One round with an option that is not all of the rest. -/
theorem optionLoop_succ {kind : UInt8} {p : Parsed} (hn : n ≠ 0) (hkind : b[pos]? = some kind)
    (hp : deserializeOption b pos kind = some p) : optionLoop b (fuel + 1) pos n s =
      if p.optionSize ≠ p.op.getSerializedSize then some { s with readTo := max s.readTo p.readTo }
      else if p.optionSize ≤ n then
        if p.op.getKind = 0 then
          some ⟨s.options ++ [p.op], s.optionsLen + p.optionSize + (n - p.optionSize),
            max s.readTo p.readTo⟩
        else optionLoop b fuel (pos + p.optionSize) (n - p.optionSize)
          ⟨s.options ++ [p.op], s.optionsLen + p.optionSize, max s.readTo p.readTo⟩
      else some { s with readTo := max s.readTo p.readTo } := by
  rw [optionLoop, if_neg hn, hkind, Option.bind_eq_bind, Option.bind_some, hp, Option.bind_eq_bind,
    Option.bind_some]

/-- What the loop has read it keeps, and it takes no option that the area does not hold. -/
theorem optionLoop_bounds (h : optionLoop b fuel pos n s = some t) :
    s.readTo ≤ t.readTo ∧ optionBytes t.options ≤ optionBytes s.options + n := by
  induction fuel generalizing pos n s with
  | zero => cases h
  | succ fuel ih =>
    by_cases hn : n = 0
    · rw [optionLoop, if_pos hn] at h
      cases h
      exact ⟨Nat.le_refl _, Nat.le_add_right _ _⟩
    · cases hkind : b[pos]? with
      | none =>
        rw [optionLoop, if_neg hn, hkind] at h
        cases h
      | some kind =>
        cases hp : deserializeOption b pos kind with
        | none =>
          rw [optionLoop, if_neg hn, hkind, Option.bind_eq_bind, Option.bind_some, hp] at h
          cases h
        | some p =>
          rw [optionLoop_succ hn hkind hp] at h
          split at h
          · cases h
            exact ⟨Nat.le_max_left _ _, Nat.le_add_right _ _⟩
          · rename_i hsize
            have hsize : p.optionSize = p.op.getSerializedSize := not_not.mp hsize
            split at h
            · split at h
              · cases h
                refine ⟨Nat.le_max_left _ _, ?_⟩
                simp only [optionBytes_append, optionBytes_cons, optionBytes_nil]
                omega
              · obtain ⟨hread, hbytes⟩ := ih h
                simp only [optionBytes_append, optionBytes_cons, optionBytes_nil] at hread hbytes
                exact ⟨Nat.le_trans (Nat.le_max_left _ _) hread, by omega⟩
            · cases h
              exact ⟨Nat.le_max_left _ _, Nat.le_add_right _ _⟩

theorem readTo_le_of_optionLoop {kind : UInt8} {p : Parsed} (hn : n ≠ 0) (hkind : b[pos]? = some kind)
    (hp : deserializeOption b pos kind = some p) (h : optionLoop b (fuel + 1) pos n s = some t) :
    p.readTo ≤ t.readTo := by
  rw [optionLoop_succ hn hkind hp] at h
  split at h
  · cases h
    exact Nat.le_max_right _ _
  split at h
  · split at h
    · cases h
      exact Nat.le_max_right _ _
    · exact Nat.le_trans (Nat.le_max_right _ _) (optionLoop_bounds h).1
  · cases h
    exact Nat.le_max_right _ _

/-- An unknown option of size 0 is taken again and again. -/
theorem optionLoop_stuck {kind : UInt8} {p : Parsed} (hn : n ≠ 0) (hkind : b[pos]? = some kind)
    (hp : deserializeOption b pos kind = some p) (hzero : p.optionSize = 0)
    (hsize : p.op.getSerializedSize = 0) (hk : p.op.getKind ≠ 0) :
    optionLoop b fuel pos n s = none := by
  induction fuel generalizing s with
  | zero => rfl
  | succ fuel ih =>
    rw [optionLoop_succ hn hkind hp, hzero, hsize, if_neg (not_not.mpr rfl), if_pos (Nat.zero_le n),
      if_neg hk, Nat.add_zero, Nat.sub_zero]
    exact ih

/-- The loop ends, has read nothing beyond the area, and has taken all of it but three bytes. -/
def Reads (b : List UInt8) (pos n : Nat) (s : Reading) : Prop :=
  ∃ fuel t, optionLoop b fuel pos n s = some t ∧ t.readTo ≤ pos + n ∧
    optionBytes s.options + n ≤ optionBytes t.options + 3

theorem reads_iff_acceptable (hle : n ≤ (b.drop pos).length) (hread : s.readTo ≤ pos) :
    Reads b pos n s ↔ Acceptable ((b.drop pos).take n) := by
  induction n using Nat.strongRecOn generalizing pos s with
  | ind n ih =>
  by_cases hn : n = 0
  · subst n
    rw [List.take_zero]
    apply iff_of_true _ .nil
    exact ⟨1, s, rfl, Nat.le_add_right_of_le hread, Nat.le_add_right _ _⟩
  · have hlt : pos < b.length := by
      rw [List.length_drop] at hle
      omega
    have hkind : b[pos]? = some b[pos] := List.getElem?_eq_getElem hlt
    have hlen : ((b.drop pos).take n).length = n := List.length_take_of_le hle
    have hhead := outcome_head (Nat.pos_of_ne_zero hn) hle hkind
    cases hh : head ((b.drop pos).take n) with
    | padding =>
      rw [hh] at hhead
      obtain ⟨p, hp, hop, hsize, hto⟩ := hhead
      have heol : p.op.getSerializedSize = 1 ∧ p.op.getKind = 0 := by
        rw [hop]
        exact ⟨rfl, rfl⟩
      have hstep : ∀ fuel, optionLoop b (fuel + 1) pos n s =
          some ⟨s.options ++ [p.op], s.optionsLen + 1 + (n - 1), max s.readTo (pos + 1)⟩ := by
        intro fuel
        rw [optionLoop_succ hn hkind hp, hsize, heol.1, if_neg (not_not.mpr rfl),
          if_pos (show 1 ≤ n by omega), if_pos heol.2, hto]
      rw [acceptable_of_padding hh, hlen]
      constructor
      · rintro ⟨fuel, t, hrun, -, hbytes⟩
        cases fuel with
        | zero => cases hrun
        | succ fuel =>
          cases (hstep fuel).symm.trans hrun
          simp only [optionBytes_append, optionBytes_cons, optionBytes_nil, heol.1] at hbytes
          omega
      · intro hle4
        refine ⟨1, _, hstep 0, Nat.max_le.mpr ⟨by omega, by omega⟩, ?_⟩
        simp only [optionBytes_append, optionBytes_cons, optionBytes_nil, heol.1]
        omega
    | option size =>
      rw [hh] at hhead
      obtain ⟨p, hp, hk, hsize, hopt, hto, hpos, hin⟩ := hhead
      let u : Reading := ⟨s.options ++ [p.op], s.optionsLen + size, max s.readTo (pos + size)⟩
      have hstep : ∀ fuel, optionLoop b (fuel + 1) pos n s =
          optionLoop b fuel (pos + size) (n - size) u := by
        intro fuel
        rw [optionLoop_succ hn hkind hp, hopt, hsize, if_neg (not_not.mpr rfl), if_pos hin,
          if_neg hk, hto]
      have hdrop : ((b.drop pos).take n).drop size = (b.drop (pos + size)).take (n - size) := by
        rw [List.drop_take, List.drop_drop]
      have hle' : n - size ≤ (b.drop (pos + size)).length := by
        rw [List.length_drop] at hle ⊢
        omega
      have hread' : u.readTo ≤ pos + size := Nat.max_le.mpr ⟨by omega, Nat.le_refl _⟩
      have hbytes : optionBytes u.options + (n - size) = optionBytes s.options + n := by
        simp only [u, optionBytes_append, optionBytes_cons, optionBytes_nil, hsize]
        omega
      have hend : pos + size + (n - size) = pos + n := by omega
      rw [acceptable_of_option hh, hdrop, ← ih (n - size) (by omega) hle' hread']
      constructor
      · rintro ⟨fuel, t, hrun, hto', hall⟩
        cases fuel with
        | zero => cases hrun
        | succ fuel =>
          rw [hstep] at hrun
          exact ⟨fuel, t, hrun, hend ▸ hto', hbytes ▸ hall⟩
      · rintro ⟨fuel, t, hrun, hto', hall⟩
        exact ⟨fuel + 1, t, (hstep fuel).trans hrun, hend ▸ hto', hbytes ▸ hall⟩
    | malformed =>
      rw [hh] at hhead
      obtain ⟨p, hp, hsize, hto⟩ := hhead
      have hstep : ∀ fuel, optionLoop b (fuel + 1) pos n s =
          some { s with readTo := max s.readTo p.readTo } := by
        intro fuel
        rw [optionLoop_succ hn hkind hp, if_pos hsize]
      rw [acceptable_of_malformed hh, hlen]
      constructor
      · rintro ⟨fuel, t, hrun, -, hbytes⟩
        cases fuel with
        | zero => cases hrun
        | succ fuel =>
          cases (hstep fuel).symm.trans hrun
          exact Nat.le_of_add_le_add_left hbytes
      · intro hle3
        exact ⟨1, _, hstep 0, Nat.max_le.mpr ⟨by omega, hto⟩, Nat.add_le_add_left hle3 _⟩
    | broken =>
      rw [hh] at hhead
      have hne : (b.drop pos).take n ≠ [] := List.ne_nil_of_length_pos (by omega)
      apply iff_of_false _ (not_acceptable_of_broken hne hh)
      rintro ⟨fuel, t, hrun, hto, -⟩
      cases fuel with
      | zero => cases hrun
      | succ fuel =>
        cases hp : deserializeOption b pos b[pos] with
        | none =>
          rw [optionLoop, if_neg hn, hkind, Option.bind_eq_bind, Option.bind_some, hp] at hrun
          cases hrun
        | some p =>
          rcases hhead p hp with hbeyond | ⟨hzero, hsize, hk⟩
          · have hread := readTo_le_of_optionLoop hn hkind hp hrun
            omega
          · rw [optionLoop_stuck hn hkind hp hzero hsize hk] at hrun
            cases hrun

/-- The upper half of byte 12. -/
def dataOffset (b : List UInt8) : Nat := (b[12]?.getD 0).toNat / 16

/-- The bytes that the data offset announces for the options. -/
def announced (b : List UInt8) : List UInt8 := (b.drop 20).take ((dataOffset b - 5) * 4)

/-- `Deserialize` ends, has read nothing beyond the options, and returns what the data offset says
if that is the size of a header. -/
def Exact (r : TcpHeader) (b : List UInt8) : Prop :=
  ∃ fuel d, deserialize fuel r b = some d ∧ d.readTo ≤ max 20 (4 * dataOffset b) ∧
    (5 ≤ dataOffset b → d.size = 4 * dataOffset b)

theorem dataOffset_lt (b : List UInt8) : dataOffset b < 16 := by
  have := (b[12]?.getD 0).toNat_lt
  unfold dataOffset
  omega

theorem readWord_offset (hb : 60 ≤ b.length) :
    ∃ field, readWord b 12 2 = some field ∧ field / 4096 = dataOffset b := by
  have h12 : b[12]? = some b[12] := List.getElem?_eq_getElem (by omega)
  have h13 : b[13]? = some b[13] := List.getElem?_eq_getElem (by omega)
  have hlow := b[13].toNat_lt
  have hdrop : b.drop 12 = [b[12], b[13]] ++ b.drop 14 := by
    rw [List.drop_eq_getElem_cons (by omega), List.drop_eq_getElem_cons (by omega)]
    rfl
  have hread := readBytes_of_drop _ hdrop
  refine ⟨b[12].toNat * 256 + b[13].toNat, ?_, ?_⟩
  · rw [readWord]
    rw [List.length_cons, List.length_singleton] at hread
    rw [hread]
    simp [ofBytes]
  · rw [dataOffset, h12]
    simp only [Option.getD_some]
    omega

theorem exists_readFields (hb : 60 ≤ b.length) (r : TcpHeader) :
    ∃ h, r.readFields b = some h ∧ h.length = dataOffset b := by
  obtain ⟨w0, h0⟩ := exists_readWord b 0 2 (by omega)
  obtain ⟨w2, h2⟩ := exists_readWord b 2 2 (by omega)
  obtain ⟨w4, h4⟩ := exists_readWord b 4 4 (by omega)
  obtain ⟨w8, h8⟩ := exists_readWord b 8 4 (by omega)
  obtain ⟨field, hfield, hoffset⟩ := readWord_offset hb
  obtain ⟨w14, h14⟩ := exists_readWord b 14 2 (by omega)
  obtain ⟨w18, h18⟩ := exists_readWord b 18 2 (by omega)
  rw [readFields, h0, h2, h4, h8, hfield, h14, h18]
  exact ⟨_, rfl, hoffset⟩

/-- A data offset below 5 makes a huge size of the difference, and the loop is not reached. -/
theorem optionLen_short {k : Nat} (hk : k < 5) :
    maxOptionsLen < ((BitVec.ofNat 32 k - 5) * 4).toNat := by
  have hall : ∀ k : Fin 5, 40 < ((BitVec.ofNat 32 k.val - 5) * 4).toNat := by decide +kernel
  exact hall ⟨k, hk⟩

/-- For which buffers `Deserialize` does what it should. -/
theorem exact_iff (hb : 60 ≤ b.length) (r : TcpHeader) :
    Exact r b ↔ (5 ≤ dataOffset b → Acceptable (announced b)) := by
  obtain ⟨h, hfields, hlength⟩ := exists_readFields hb r
  have hlt := dataOffset_lt b
  by_cases hlong : 5 ≤ dataOffset b
  · let n := (dataOffset b - 5) * 4
    have hn : n ≤ (b.drop 20).length := by
      rw [List.length_drop]
      omega
    let s : Reading := ⟨[], 0, 20⟩
    have hread : s.readTo ≤ 20 := Nat.le_refl 20
    have hzero : optionBytes s.options = 0 := rfl
    have hrun : ∀ fuel, deserialize fuel r b = (optionLoop b fuel 20 n s).bind fun t =>
        let h := { h with options := t.options, optionsLen := t.optionsLen }.doChecksum b
        some ⟨h, h.getSerializedSize, t.readTo⟩ := by
      intro fuel
      have hfit : ¬ maxOptionsLen < (dataOffset b - 5) * 4 := by
        unfold maxOptionsLen
        omega
      rw [deserialize, hfields, Option.bind_eq_bind, Option.bind_some]
      simp only
      rw [hlength, optionLen_eq hlong hlt, if_neg hfit]
      rfl
    rw [announced, ← reads_iff_acceptable hn hread]
    constructor
    · rintro ⟨fuel, d, hd, hto, hsize⟩ _
      obtain ⟨t, ht, heq⟩ := Option.bind_eq_some_iff.mp ((hrun fuel).symm.trans hd)
      cases heq
      have hsize := hsize hlong
      have hle := (optionLoop_bounds ht).2
      simp only [getSerializedSize_eq, doChecksum_options] at hsize hto
      exact ⟨fuel, t, ht, by omega, by omega⟩
    · intro hall
      obtain ⟨fuel, t, ht, hto, hbytes⟩ := hall hlong
      have hle := (optionLoop_bounds ht).2
      refine ⟨fuel, _, (hrun fuel).trans (Option.bind_eq_some_iff.mpr ⟨t, ht, rfl⟩), ?_, ?_⟩
      · simp only
        omega
      · intro _
        simp only [getSerializedSize_eq, doChecksum_options]
        omega
  · have hshort : maxOptionsLen < ((BitVec.ofNat 32 h.length - 5) * 4).toNat := by
      rw [hlength]
      exact optionLen_short (Nat.lt_of_not_le hlong)
    apply iff_of_true
    · refine ⟨0, ⟨h, 20, 20⟩, ?_, Nat.le_max_left _ _, fun h5 => absurd h5 hlong⟩
      rw [deserialize, hfields, Option.bind_eq_bind, Option.bind_some]
      exact if_pos hshort
    · exact fun h5 => absurd h5 hlong

/-- Both addresses are of one family. -/
def Addressed (h : TcpHeader) : Prop :=
  (∃ a b, h.source = .ipv4 a ∧ h.destination = .ipv4 b) ∨
    ∃ a b, h.source = .ipv6 a ∧ h.destination = .ipv6 b

/-- A receiver that checks the segments between the same addresses. -/
structure Checks (h r : TcpHeader) : Prop where
  calcChecksum : r.calcChecksum = true
  source : r.source = h.source
  destination : r.destination = h.destination
  protocol : r.protocol = h.protocol

/-- Every segment that fits into a packet can be verified. -/
theorem verifiable_of_lt {start : List UInt8} {h : TcpHeader} (hlow : 20 ≤ start.length)
    (hhigh : start.length < 65536) : h.Verifiable start :=
  .inl (by omega)

/-- What is built and written is read back, with a right checksum in every segment that can be
verified; and any other buffer is read as it should be when its option area is acceptable, and
only then. -/
theorem header_codec (r : TcpHeader) :
    (∀ h, Built h → ∀ room payload, room.length = h.getSerializedSize →
      ∃ fuel d, deserialize fuel r (h.serialize (room ++ payload)) = some d ∧ Restores h r d ∧
        (h.calcChecksum = true → Addressed h → Checks h r →
          (d.header.goodChecksum = true ↔ h.Verifiable (room ++ payload)))) ∧
    ∀ b, 60 ≤ b.length → (Exact r b ↔ (5 ≤ dataOffset b → Acceptable (announced b))) := by
  refine ⟨?_, fun b hb => exact_iff hb r⟩
  intro h hbuilt room payload hroom
  obtain ⟨fuel, d, hd, hrestores, hgood⟩ := deserialize_restores hbuilt.formed (room ++ payload) r
  refine ⟨fuel, d, hd, hrestores, ?_⟩
  intro hcalc _ hchecks
  have hsum : ∀ n, r.calculateHeaderChecksum n = h.calculateHeaderChecksum n := by
    intro n
    rw [calculateHeaderChecksum, pseudoHeader, hchecks.source, hchecks.destination, hchecks.protocol]
    rfl
  have hlen : h.getSerializedSize ≤ (room ++ payload).length := by
    rw [List.length_append, hroom]
    exact Nat.le_add_right _ _
  rw [hgood hchecks.calcChecksum]
  exact goodOf_serialize hbuilt.formed hcalc hsum hlen

/-- A header of six words whose option has an unknown kind and the size 0. -/
def stuckSegment : List UInt8 :=
  List.replicate 12 0 ++ [0x60] ++ List.replicate 7 0 ++ [254, 0] ++ List.replicate 38 0

/-- No number of rounds is enough for it. -/
theorem deserialize_never_ends : ∃ b : List UInt8, 60 ≤ b.length ∧
    (∀ fuel r, deserialize fuel r b = none) ∧ ∀ r, ¬ Exact r b := by
  have hlen : 60 ≤ stuckSegment.length := by decide +kernel
  have hnone : ∀ fuel r, deserialize fuel r stuckSegment = none := by
    intro fuel r
    obtain ⟨h, hfields, hlength⟩ := exists_readFields hlen r
    have hoffset : dataOffset stuckSegment = 6 := by decide +kernel
    have hkind : stuckSegment[20]? = some 254 := by decide +kernel
    have hp : deserializeOption stuckSegment 20 254 = some ⟨0, .unknown 254 0 [], 22⟩ := rfl
    have hstuck : optionLoop stuckSegment fuel 20 4 ⟨[], 0, 20⟩ = none :=
      optionLoop_stuck (by decide) hkind hp rfl rfl (by decide)
    have hlen4 : ((BitVec.ofNat 32 6 - 5) * 4).toNat = 4 := by decide
    have hfit : ¬ maxOptionsLen < 4 := by decide
    rw [deserialize, hfields, Option.bind_eq_bind, Option.bind_some]
    simp only
    rw [hlength, hoffset, hlen4, if_neg hfit, hstuck]
    rfl
  refine ⟨stuckSegment, hlen, hnone, ?_⟩
  rintro r ⟨fuel, d, hd, -⟩
  rw [hnone fuel r] at hd
  cases hd

end CudaNs3.Tcp.TcpHeader
