import CudaNs3.Tcp.Header

/-!
# Headers that are built, written and read

What holds of every header that a program makes with the setters and `AppendOption`, and that
`Deserialize` reads such a header back.
-/

namespace CudaNs3.Tcp.TcpHeader

open Words TcpOption
set_option autoImplicit false

/-- A header made with the setters and with options that are taken. -/
inductive Built : TcpHeader → Prop where
  | new : Built new
  | set {h : TcpHeader} (s : Setting) : Built h → Built (h.set s)
  | append {h h' : TcpHeader} {o : TcpOption} :
      Built h → Known o → h.appendOption o = (h', true) → Built h'

structure Formed (h : TcpHeader) : Prop where
  known : ∀ o ∈ h.options, Known o
  no_eol : ∀ o ∈ h.options, o.getKind ≠ 0
  optionsLen : h.optionsLen = optionBytes h.options
  fits : optionBytes h.options ≤ 40
  length : h.length = (20 + 3 + optionBytes h.options) / 4

variable {h : TcpHeader} {b rest : List UInt8} {pos : Nat}

@[simp] theorem optionBytes_nil : optionBytes [] = 0 := rfl

@[simp] theorem optionBytes_cons (o : TcpOption) (l : List TcpOption) :
    optionBytes (o :: l) = o.getSerializedSize + optionBytes l := by
  simp [optionBytes]

@[simp] theorem optionBytes_append (l l' : List TcpOption) :
    optionBytes (l ++ l') = optionBytes l + optionBytes l' := by
  simp [optionBytes]

theorem Formed.set {s : Setting} (hf : Formed h) : Formed (h.set s) := by
  cases s with
  | _ => exact ⟨hf.known, hf.no_eol, hf.optionsLen, hf.fits, hf.length⟩

theorem Formed.append {h' : TcpHeader} {o : TcpOption} (hf : Formed h) (ho : Known o)
    (heq : h.appendOption o = (h', true)) : Formed h' := by
  unfold appendOption at heq
  split at heq
  · rename_i hle
    split at heq
    · split at heq
      · rename_i hkind
        obtain ⟨rfl, -⟩ := Prod.mk.inj heq
        have hlen := hf.optionsLen
        unfold maxOptionsLen at hle
        exact {
          known := by
            intro p hp
            rcases List.mem_append.mp hp with hp | hp
            · exact hf.known p hp
            · cases List.mem_singleton.mp hp
              exact ho
          no_eol := by
            intro p hp
            rcases List.mem_append.mp hp with hp | hp
            · exact hf.no_eol p hp
            · cases List.mem_singleton.mp hp
              exact hkind
          optionsLen := by simp only [optionBytes_append, optionBytes_cons, optionBytes_nil, hlen,
            Nat.add_zero]
          fits := by
            simp only [optionBytes_append, optionBytes_cons, optionBytes_nil]
            omega
          length := by simp only [optionBytes_append, optionBytes_cons, optionBytes_nil, hlen,
            Nat.add_zero] }
      · obtain ⟨rfl, -⟩ := Prod.mk.inj heq
        exact hf
    · exact absurd (Prod.mk.inj heq).2 Bool.false_ne_true
  · exact absurd (Prod.mk.inj heq).2 Bool.false_ne_true

theorem Built.formed (hb : Built h) : Formed h := by
  induction hb with
  | new => exact ⟨by simp [TcpHeader.new], by simp [TcpHeader.new], rfl, by simp [TcpHeader.new], rfl⟩
  | set s _ ih => exact ih.set
  | append _ ho happend ih => exact ih.append ho happend

/-- The size is four times the data offset. -/
theorem Formed.getSerializedSize (hf : Formed h) : h.getSerializedSize = 4 * h.length := by
  have hlen := hf.length
  unfold TcpHeader.getSerializedSize calculateHeaderLength
  simp only
  split
  · omega
  · omega

theorem length_options {l : List TcpOption} (hl : ∀ o ∈ l, Known o) :
    (l.flatMap TcpOption.serialize).length = optionBytes l := by
  induction l with
  | nil => rfl
  | cons o l ih =>
    obtain ⟨ho, hl⟩ := List.forall_mem_cons.mp hl
    rw [List.flatMap_cons, List.length_append, length_serialize ho, ih hl, optionBytes_cons]

/-- The loop reads the options and the padding behind them. -/
theorem optionLoop_options {l : List TcpOption} {pad fuel : Nat} {s : Reading}
    (hl : ∀ o ∈ l, Known o) (hkind : ∀ o ∈ l, o.getKind ≠ 0) (hsize : optionBytes l ≤ 40)
    (hdrop : b.drop pos = l.flatMap TcpOption.serialize ++ List.replicate pad 0 ++ rest)
    (hread : s.readTo ≤ pos) (hfuel : l.length + 1 < fuel) :
    ∃ readTo, readTo ≤ pos + optionBytes l + pad ∧
      optionLoop b fuel pos (optionBytes l + pad) s =
        some ⟨s.options ++ l ++ (if pad = 0 then [] else [eol]),
          s.optionsLen + optionBytes l + pad, readTo⟩ := by
  induction l generalizing pos fuel s with
  | nil =>
    obtain ⟨fuel, rfl⟩ : ∃ k, fuel = k + 1 := ⟨fuel - 1, by omega⟩
    cases pad with
    | zero =>
      refine ⟨s.readTo, hread, ?_⟩
      simp [optionLoop]
    | succ pad =>
      have hk : b[pos]? = some 0 := getElem?_of_drop hdrop
      have hop : deserializeOption b pos 0 = some ⟨1, eol, pos + 1⟩ := by
        simp [deserializeOption, deserializeKind, hk, getKind]
      refine ⟨max s.readTo (pos + 1), by omega, ?_⟩
      have hlen : s.optionsLen + 1 + (pad + 1 - 1) = s.optionsLen + 0 + (pad + 1) := by omega
      rw [optionBytes_nil, Nat.zero_add, optionLoop, if_neg (Nat.succ_ne_zero pad), hk,
        Option.bind_eq_bind, Option.bind_some, hop, Option.bind_eq_bind, Option.bind_some]
      simp only [TcpOption.getSerializedSize, ne_eq, not_true_eq_false, if_false, Nat.succ_le_iff,
        Nat.zero_lt_succ, if_true, getKind, hlen, List.append_nil, Nat.succ_ne_zero]
  | cons o l ih =>
    obtain ⟨ho, hl⟩ := List.forall_mem_cons.mp hl
    obtain ⟨hk, hkind⟩ := List.forall_mem_cons.mp hkind
    obtain ⟨fuel, rfl⟩ : ∃ k, fuel = k + 1 := ⟨fuel - 1, by omega⟩
    rw [List.flatMap_cons, List.append_assoc, List.append_assoc] at hdrop
    rw [optionBytes_cons] at hsize
    have hlen := length_serialize ho
    have hpos : 0 < o.getSerializedSize := getSerializedSize_pos ho
    have hop := deserializeOption_serialize ho (by omega) hdrop
    have hpeek : b[pos]? = some o.getKind := getElem?_kind ho hdrop
    have hnext := drop_append_of_drop hdrop
    rw [hlen, ← List.append_assoc] at hnext
    rw [List.length_cons] at hfuel
    let t : Reading := ⟨s.options ++ [o], s.optionsLen + o.getSerializedSize,
      max s.readTo (pos + o.getSerializedSize)⟩
    have hread' : t.readTo ≤ pos + o.getSerializedSize := Nat.max_le.mpr ⟨by omega, Nat.le_refl _⟩
    have hfuel' : l.length + 1 < fuel := Nat.lt_of_succ_lt_succ hfuel
    obtain ⟨readTo, hle, hrun⟩ := ih hl hkind (by omega) hnext hread' hfuel'
    refine ⟨readTo, by rw [optionBytes_cons]; omega, ?_⟩
    have hne : o.getSerializedSize + optionBytes l + pad ≠ 0 := by omega
    have hle' : o.getSerializedSize ≤ o.getSerializedSize + optionBytes l + pad := by omega
    have hsub : o.getSerializedSize + optionBytes l + pad - o.getSerializedSize =
        optionBytes l + pad := by omega
    rw [optionBytes_cons, optionLoop, if_neg hne, hpeek, Option.bind_eq_bind, Option.bind_some, hop,
      Option.bind_eq_bind, Option.bind_some]
    simp only [ne_eq, not_true_eq_false, if_false, hle', if_true, hk, hsub]
    rw [hrun]
    simp [t, Nat.add_assoc]

/-- The fixed part with its two checksum bytes. -/
def fieldsWith (h : TcpHeader) (c : List UInt8) : List UInt8 :=
  toBytes 2 h.sourcePort.toNat ++ (toBytes 2 h.destinationPort.toNat ++
    (toBytes 4 h.sequenceNumber.toNat ++ (toBytes 4 h.ackNumber.toNat ++
      (toBytes 2 (h.length * 4096 + h.flags.toNat) ++ (toBytes 2 h.windowSize.toNat ++
        (c ++ toBytes 2 h.urgentPointer.toNat))))))

theorem fixedPart_eq (h : TcpHeader) : h.fixedPart = fieldsWith h [0, 0] := by
  simp only [fixedPart, fieldsWith, List.append_assoc]

theorem length_fieldsWith {c : List UInt8} (hc : c.length = 2) : (fieldsWith h c).length = 20 := by
  simp only [fieldsWith, List.length_append, length_toBytes, hc]

theorem putChecksum_fieldsWith (h : TcpHeader) (rest : List UInt8) (checksum : Nat) :
    putChecksum (fieldsWith h [0, 0] ++ rest) checksum =
      fieldsWith h [UInt8.ofNat checksum, UInt8.ofNat (checksum / 256)] ++ rest := by
  simp [putChecksum, fieldsWith, toBytes]

/-- The options and the padding. -/
def optionArea (h : TcpHeader) : List UInt8 :=
  h.options.flatMap TcpOption.serialize ++ List.replicate (paddingLen (optionBytes h.options)) 0

theorem length_optionArea (hf : Formed h) : h.optionArea.length = (h.length - 5) * 4 := by
  have hlen := hf.length
  rw [optionArea, List.length_append, length_options hf.known, List.length_replicate, paddingLen]
  omega

theorem length_written (hf : Formed h) : h.written.length = h.getSerializedSize := by
  have hlen := hf.length
  have harea := length_optionArea hf
  rw [written, fixedPart_eq, List.append_assoc, List.length_append, length_fieldsWith rfl,
    hf.getSerializedSize]
  unfold optionArea at harea
  omega

/-- What `Serialize` leaves in the buffer, whatever the checksum. -/
theorem serialize_eq (hf : Formed h) (start : List UInt8) : ∃ c : List UInt8, c.length = 2 ∧
    h.serialize start = fieldsWith h c ++ (h.optionArea ++ start.drop h.getSerializedSize) := by
  have hwritten : h.written ++ start.drop h.written.length =
      fieldsWith h [0, 0] ++ (h.optionArea ++ start.drop h.getSerializedSize) := by
    rw [length_written hf, written, fixedPart_eq, optionArea, List.append_assoc, List.append_assoc,
      List.append_assoc]
  rw [serialize, hwritten]
  split
  · exact ⟨_, rfl, putChecksum_fieldsWith h _ _⟩
  · exact ⟨[0, 0], rfl, rfl⟩

/-- `END` stands for the padding, if there is any. -/
def padding (h : TcpHeader) : List TcpOption :=
  if paddingLen (optionBytes h.options) = 0 then [] else [eol]

/-- `d` is what a receiver `r` has read when it has the fields and options of `h`. -/
structure Restores (h r : TcpHeader) (d : Deserialized) : Prop where
  fields : { d.header with goodChecksum := r.goodChecksum } =
    { h with
      source := r.source
      destination := r.destination
      protocol := r.protocol
      calcChecksum := r.calcChecksum
      goodChecksum := r.goodChecksum
      options := h.options ++ h.padding
      optionsLen := h.optionsLen + paddingLen h.optionsLen }
  size : d.size = h.getSerializedSize
  offset : d.size = 4 * d.header.length

theorem optionBytes_padding (hf : Formed h) :
    (20 + optionBytes (h.options ++ h.padding) + 3) / 4 = h.length := by
  have hlen := hf.length
  rw [optionBytes_append, padding]
  unfold paddingLen
  split
  · rw [optionBytes_nil]
    omega
  · rw [optionBytes_cons, optionBytes_nil, TcpOption.getSerializedSize]
    omega

theorem getSerializedSize_eq (h : TcpHeader) :
    h.getSerializedSize = (20 + optionBytes h.options + 3) / 4 * 4 := by
  unfold getSerializedSize calculateHeaderLength
  simp only
  split
  · omega
  · omega

/-- The fields of a buffer that begins with a header. -/
theorem readWords_fieldsWith {c : List UInt8} (hc : c.length = 2) (hlen : h.length < 16)
    (hb : b = fieldsWith h c ++ rest) :
    readWord b 0 2 = some h.sourcePort.toNat ∧ readWord b 2 2 = some h.destinationPort.toNat ∧
    readWord b 4 4 = some h.sequenceNumber.toNat ∧ readWord b 8 4 = some h.ackNumber.toNat ∧
    readWord b 12 2 = some (h.length * 4096 + h.flags.toNat) ∧
    readWord b 14 2 = some h.windowSize.toNat ∧ readWord b 18 2 = some h.urgentPointer.toNat ∧
    b.drop 20 = rest := by
  have hflags := h.flags.toNat_lt
  have h0 : b.drop 0 = fieldsWith h c ++ rest := hb
  unfold fieldsWith at h0
  simp only [List.append_assoc] at h0
  have h2 := drop_append_of_drop h0
  have h4 := drop_append_of_drop h2
  have h8 := drop_append_of_drop h4
  have h12 := drop_append_of_drop h8
  have h14 := drop_append_of_drop h12
  have h16 := drop_append_of_drop h14
  have h18 := drop_append_of_drop h16
  have h20 := drop_append_of_drop h18
  simp only [length_toBytes, hc, Nat.zero_add, Nat.reduceAdd] at h2 h4 h8 h12 h14 h16 h18 h20
  exact ⟨readWord_of_drop h.sourcePort.isLt h0, readWord_of_drop h.destinationPort.isLt h2,
    readWord_of_drop h.sequenceNumber.isLt h4, readWord_of_drop h.ackNumber.isLt h8,
    readWord_of_drop (by omega) h12, readWord_of_drop h.windowSize.isLt h14,
    readWord_of_drop h.urgentPointer.isLt h18, h20⟩

/-- The bytes after the fixed part, by the data offset. -/
theorem optionLen_eq {n : Nat} (h5 : 5 ≤ n) (h15 : n < 16) :
    ((BitVec.ofNat 32 n - 5) * 4).toNat = (n - 5) * 4 := by
  have hsub : (BitVec.ofNat 32 n - 5).toNat = n - 5 := by
    bv_omega
  rw [BitVec.toNat_mul, hsub]
  have h4 : (4 : BitVec 32).toNat = 4 := rfl
  rw [h4]
  omega

/-- The fields are read as they were written. -/
theorem readFields_eq {c : List UInt8} {r : TcpHeader} (hc : c.length = 2) (hlen : h.length < 16)
    (hb : b = fieldsWith h c ++ rest) : r.readFields b = some { h with
      source := r.source
      destination := r.destination
      protocol := r.protocol
      calcChecksum := r.calcChecksum
      goodChecksum := r.goodChecksum
      options := []
      optionsLen := 0 } := by
  obtain ⟨hsp, hdp, hseq, hack, hfield, hwin, hurg, -⟩ := readWords_fieldsWith hc hlen hb
  have hflags := h.flags.toNat_lt
  have hlength : (h.length * 4096 + h.flags.toNat) / 4096 = h.length := by omega
  have hbyte : UInt8.ofNat (h.length * 4096 + h.flags.toNat) = h.flags := by
    apply UInt8.toNat_inj.mp
    rw [UInt8.toNat_ofNat']
    omega
  simp only [readFields, hsp, hdp, hseq, hack, hfield, hwin, hurg, Option.bind_eq_bind,
    Option.bind_some, hlength, hbyte, BitVec.ofNat_toNat, BitVec.setWidth_eq]

@[simp] theorem doChecksum_options (h : TcpHeader) (b : List UInt8) :
    (h.doChecksum b).options = h.options := by
  unfold doChecksum
  split
  · rfl
  · rfl

@[simp] theorem doChecksum_length (h : TcpHeader) (b : List UInt8) :
    (h.doChecksum b).length = h.length := by
  unfold doChecksum
  split
  · rfl
  · rfl

theorem doChecksum_eq (h : TcpHeader) (b : List UInt8) (good : Bool) :
    { h.doChecksum b with goodChecksum := good } = { h with goodChecksum := good } := by
  unfold doChecksum
  split
  · rfl
  · rfl

theorem deserialize_restores (hf : Formed h) (start : List UInt8) (r : TcpHeader) :
    ∃ fuel d, deserialize fuel r (h.serialize start) = some d ∧ Restores h r d ∧
      (r.calcChecksum = true → d.header.goodChecksum = r.goodOf (h.serialize start)) := by
  obtain ⟨c, hc, hb⟩ := serialize_eq hf start
  have hlen := hf.length
  have hfits := hf.fits
  have hlt : h.length < 16 := by omega
  obtain ⟨-, -, -, -, -, -, -, hdrop⟩ := readWords_fieldsWith hc hlt hb
  rw [optionArea] at hdrop
  have hpad : optionBytes h.options + paddingLen (optionBytes h.options) = (h.length - 5) * 4 := by
    have harea := length_optionArea hf
    rw [optionArea, List.length_append, length_options hf.known, List.length_replicate] at harea
    exact harea
  let s : Reading := ⟨[], 0, 20⟩
  have hread : s.readTo ≤ 20 := Nat.le_refl 20
  obtain ⟨readTo, -, hloop⟩ := optionLoop_options (s := s) hf.known hf.no_eol hfits hdrop hread
    (Nat.lt_succ_self (h.options.length + 1))
  rw [hpad] at hloop
  have hwords := optionBytes_padding hf
  have hsize := hf.getSerializedSize
  have hoption := optionLen_eq (show 5 ≤ h.length by omega) hlt
  have hfit : ¬ maxOptionsLen < (h.length - 5) * 4 := by
    unfold maxOptionsLen
    omega
  refine ⟨h.options.length + 1 + 1, ?_⟩
  unfold deserialize
  rw [readFields_eq hc hlt hb, Option.bind_eq_bind, Option.bind_some]
  simp only
  rw [hoption, if_neg hfit, hloop, Option.bind_eq_bind, Option.bind_some]
  refine ⟨_, rfl, ⟨?_, ?_, ?_⟩, ?_⟩
  · rw [doChecksum_eq]
    simp only [s, List.nil_append, Nat.zero_add, padding, hf.optionsLen]
  · rw [getSerializedSize_eq, doChecksum_options, hsize, Nat.mul_comm 4]
    exact congrArg (· * 4) hwords
  · rw [getSerializedSize_eq, doChecksum_options, doChecksum_length, Nat.mul_comm 4]
    exact congrArg (· * 4) hwords
  · intro hcalc
    rw [doChecksum, if_pos hcalc]
    rfl

/-- The sum of the pseudo header and of the bytes of the segment that count, before the checksum
is put in. -/
def segmentSum (h : TcpHeader) (start : List UInt8) : Nat :=
  fold (h.calculateHeaderChecksum start.length +
    sum16 ((h.written ++ start.drop h.written.length).take (start.length % 65536)))

/-- The 16-bit length reaches beyond the checksum, as that of every segment below 65536 bytes does;
or the sum is such that no checksum is needed. -/
def Verifiable (h : TcpHeader) (start : List UInt8) : Prop :=
  18 ≤ start.length % 65536 ∨ (start.length % 65536 = 17 ∧ 65280 ≤ h.segmentSum start) ∨
    h.segmentSum start = 65535

section Summed

variable {a : List UInt8} {n : Nat} (ha : a.length = 16) (x y : UInt8) (tail : List UInt8)
include ha

theorem sum16_take_below (hn : n ≤ 16) : sum16 ((a ++ [x, y] ++ tail).take n) = sum16 (a.take n) := by
  rw [List.append_assoc, List.take_append_of_le_length (by omega)]

theorem sum16_take_across :
    sum16 ((a ++ [x, y] ++ tail).take 17) = sum16 a + x.toNat := by
  have htake : (a ++ [x, y] ++ tail).take 17 = a ++ [x] := by
    rw [List.append_assoc, List.take_append, ha, List.take_of_length_le (by omega)]
    rfl
  rw [htake, sum16_append (by omega)]
  rfl

theorem sum16_take_beyond (hn : 18 ≤ n) : sum16 ((a ++ [x, y] ++ tail).take n) =
      sum16 a + (x.toNat + 256 * y.toNat) + sum16 (tail.take (n - 18)) := by
  have hlen : (a ++ [x, y]).length = 18 := by
    rw [List.length_append, ha]
    rfl
  rw [List.take_append, hlen, List.take_of_length_le (by omega), sum16_append (by omega),
    sum16_append (by omega)]
  rfl

/-- A checksum put into two bytes that were 0, seen by a sum that reaches `n` bytes far. -/
theorem fold_with_checksum (n s : Nat) :
    let f := fold (s + sum16 ((a ++ [0, 0] ++ tail).take n))
    let c := [UInt8.ofNat (65535 - f), UInt8.ofNat ((65535 - f) / 256)]
    fold (s + sum16 ((a ++ c ++ tail).take n)) = 65535 ↔
      18 ≤ n ∨ (n = 17 ∧ 65280 ≤ f) ∨ f = 65535 := by
  intro f c
  have hflt : f < 65536 := fold_lt _
  have hlow : (UInt8.ofNat (65535 - f)).toNat = (65535 - f) % 256 := UInt8.toNat_ofNat'
  have hhigh : (UInt8.ofNat ((65535 - f) / 256)).toNat = (65535 - f) / 256 % 256 := UInt8.toNat_ofNat'
  by_cases h16 : n ≤ 16
  · have hsame : fold (s + sum16 ((a ++ c ++ tail).take n)) = f := by
      rw [sum16_take_below ha _ _ tail h16]
      exact (congrArg (fun x => fold (s + x)) (sum16_take_below ha 0 0 tail h16)).symm
    rw [hsame]
    omega
  by_cases h17 : n = 17
  · subst n
    have hzero : (0 : UInt8).toNat = 0 := rfl
    have hf : fold (s + sum16 a) = f := by
      have heq := sum16_take_across ha 0 0 tail
      rw [hzero, Nat.add_zero] at heq
      exact congrArg (fun x => fold (s + x)) heq.symm
    rw [sum16_take_across ha _ _ tail, hlow, fold_eq_ones_iff]
    have hmod : fold (s + sum16 a) % 65535 = (s + sum16 a) % 65535 := fold_modEq _
    have hnil := @fold_eq_zero_iff (s + sum16 a)
    rw [hf] at hmod hnil
    omega
  · have hf : fold (s + (sum16 a + sum16 (tail.take (n - 18)))) = f := by
      have heq := sum16_take_beyond ha 0 0 tail (show 18 ≤ n by omega)
      exact congrArg (fun x => fold (s + x)) heq.symm
    have hsum := fold_add_complement (s + (sum16 a + sum16 (tail.take (n - 18))))
    have hword : (65535 - f) % 256 + 256 * ((65535 - f) / 256 % 256) = 65535 - f := by omega
    rw [hf] at hsum
    rw [sum16_take_beyond ha _ _ tail (by omega), hlow, hhigh, hword]
    apply iff_of_true
    · rw [← hsum]
      congr 1
      omega
    · exact .inl (by omega)

end Summed

theorem fieldsWith_split (h : TcpHeader) : ∃ a : List UInt8, a.length = 16 ∧
    ∀ c, fieldsWith h c = a ++ c ++ toBytes 2 h.urgentPointer.toNat := by
  refine ⟨toBytes 2 h.sourcePort.toNat ++ toBytes 2 h.destinationPort.toNat ++
    toBytes 4 h.sequenceNumber.toNat ++ toBytes 4 h.ackNumber.toNat ++
    toBytes 2 (h.length * 4096 + h.flags.toNat) ++ toBytes 2 h.windowSize.toNat, ?_, ?_⟩
  · simp only [List.length_append, length_toBytes]
  · intro c
    simp only [fieldsWith, List.append_assoc]

/-- A receiver with the same addresses finds the checksum right. -/
theorem goodOf_serialize {r : TcpHeader} {start : List UInt8} (hf : Formed h)
    (hcalc : h.calcChecksum = true) (hsum : ∀ n, r.calculateHeaderChecksum n = h.calculateHeaderChecksum n)
    (hroom : h.getSerializedSize ≤ start.length) :
    r.goodOf (h.serialize start) = true ↔ h.Verifiable start := by
  obtain ⟨a, ha, hsplit⟩ := fieldsWith_split h
  have hb : h.written ++ start.drop h.written.length =
      a ++ [0, 0] ++ (toBytes 2 h.urgentPointer.toNat ++
        (h.optionArea ++ start.drop h.getSerializedSize)) := by
    rw [length_written hf, written, fixedPart_eq, hsplit, optionArea]
    simp only [List.append_assoc]
  have hlen : (h.written ++ start.drop h.written.length).length = start.length := by
    rw [List.length_append, List.length_drop, length_written hf]
    omega
  have hset : ∀ checksum,
      putChecksum (h.written ++ start.drop h.written.length) checksum =
        a ++ [UInt8.ofNat checksum, UInt8.ofNat (checksum / 256)] ++
          (toBytes 2 h.urgentPointer.toNat ++ (h.optionArea ++ start.drop h.getSerializedSize)) := by
    intro checksum
    have hput := putChecksum_fieldsWith h (h.optionArea ++ start.drop h.getSerializedSize) checksum
    rw [hsplit, hsplit] at hput
    rw [hb]
    simpa only [List.append_assoc] using hput
  have hserialize : h.serialize start =
      putChecksum (h.written ++ start.drop h.written.length)
        (calculateIpChecksum (h.written ++ start.drop h.written.length) start.length
          (h.calculateHeaderChecksum start.length)) := by
    rw [serialize, if_pos hcalc, hlen]
  have hlen' : (h.serialize start).length = start.length := by
    rw [hserialize, putChecksum, List.length_set, List.length_set, hlen]
  have hiff := fold_with_checksum ha (toBytes 2 h.urgentPointer.toNat ++
    (h.optionArea ++ start.drop h.getSerializedSize)) (start.length % 65536)
    (h.calculateHeaderChecksum start.length)
  simp only at hiff
  rw [← hb] at hiff
  have hgood : r.goodOf (h.serialize start) = true ↔
      fold (h.calculateHeaderChecksum start.length +
        sum16 ((h.serialize start).take (start.length % 65536))) = 65535 := by
    have hlt := fold_lt (h.calculateHeaderChecksum start.length +
      sum16 ((h.serialize start).take (start.length % 65536)))
    rw [goodOf, calculateIpChecksum, hlen', hsum, beq_iff_eq]
    omega
  rw [hgood, Verifiable, segmentSum, ← hiff, hserialize, hset]
  rfl

end CudaNs3.Tcp.TcpHeader
