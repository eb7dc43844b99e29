import CudaNs3.Internet.Ipv6Extensions
import CudaNs3.Lib.WhileLoops

/-!
# Processing of IPv6 options

`Process` of a hop-by-hop or a destination extension hands the bytes of the options to
`ProcessOptions`, which walks over them and returns how far it got. Offset, length and size are
of 8 bits, while the options may take up to 2046 bytes.
-/

namespace CudaNs3.Internet

open WhileLoops
set_option autoImplicit false

namespace OptionProcessing

/-- The variables of the loop of `ProcessOptions`. What is sent in `SendErrorParameterError` is
the pointer to the option; `inspected` are the places of `data` that have been read. -/
structure Loop where
  processedSize : UInt8 := 0
  isDropped : Bool := false
  stopProcessing : Bool := false
  dropUnknownOption : Bool := false
  parameterErrors : List Nat := []
  inspected : List Nat := []
  deriving DecidableEq, Repr

section Source

-- the types that have an `Ipv6Option`, and what its `Process` returns for the bytes from there
variable (known : UInt8 → Bool) (process : List UInt8 → UInt8)
variable (offset : UInt8) (multicast : Bool) (data : List UInt8)

def Loop.drop (s : Loop) : Loop :=
  { s with isDropped := true, stopProcessing := true, dropUnknownOption := true }

def Loop.body (s : Loop) : Loop :=
  let place := s.processedSize.toNat
  let optionType := data.getD place 0
  let typed := { s with inspected := s.inspected ++ [place] }
  let pointer := offset.toNat + place
  if known optionType then
    { typed with processedSize := s.processedSize + process (data.drop place) }
  else if optionType >>> 6 = 0 then
    { typed with
      inspected := typed.inspected ++ [place + 1]
      processedSize := s.processedSize + (data.getD (place + 1) 0 + 2) }
  else if optionType >>> 6 = 1 then typed.drop
  else if optionType >>> 6 = 2 then
    { typed.drop with parameterErrors := s.parameterErrors ++ [pointer] }
  else if !multicast then
    { typed.drop with parameterErrors := s.parameterErrors ++ [pointer] }
  else typed.drop

/-- `length > processedSize && !isDropped` -/
def Loop.test (length : UInt8) (s : Loop) : Bool := s.processedSize < length && !s.isDropped

/-- `ProcessOptions` leaves its loop in the state `t`. -/
def ProcessOptions (length : UInt8) (t : Loop) : Prop :=
  Ends (Loop.test length) (Loop.body known process offset multicast data) {} t

/-- The offset that `Process` hands on. -/
def optionsOffset (offset : UInt8) : UInt8 := offset + 2

/-- The length that `Process` hands on. -/
def optionsLength (length : UInt8) : UInt8 := UInt8.ofNat (extensionLength length - 2)

/-- `Process` of an extension with this length field that starts at `offset`: the options are
processed up to `t`. -/
def Process (packet : List UInt8) (length : UInt8) (t : Loop) : Prop :=
  ProcessOptions known process (optionsOffset offset) multicast
    (packet.drop (optionsOffset offset).toNat) (optionsLength length) t

/-- What `Process` returns. -/
def Loop.returned (t : Loop) : UInt8 := 2 + t.processedSize

end Source

/-- The bytes that the option in front takes on the wire: one for `Pad1`. -/
def optionSize (rest : List UInt8) : Nat :=
  if rest.headD 0 = 0 then 1 else (rest.getD 1 0).toNat + 2

section Walk
variable (known : UInt8 → Bool) (data : List UInt8)

/-- The option at `q` makes the packet be dropped. -/
def Drops (q : Nat) : Prop := known (data.getD q 0) = false ∧ data.getD q 0 >>> 6 ≠ 0

/-- The size of the option at `q`, where an unknown one is taken to have a length. -/
def sizeAt (q : Nat) : Nat :=
  if known (data.getD q 0) then optionSize (data.drop q) else (data.getD (q + 1) 0).toNat + 2

/-- From `q` on the options are laid end to end up to the last of `size` bytes, which are less
than 254, or up to an option that drops the packet before `length`. -/
inductive Tiled (size length : Nat) : Nat → Prop
  | done (hsize : size < 254) (hlength : length = size) : Tiled size length size
  | dropped {q : Nat} (hq : q < length) (hdrops : Drops known data q) : Tiled size length q
  | option {q : Nat} (hq : q < length) (hkeeps : ¬ Drops known data q)
      (hrest : Tiled size length (q + sizeAt known data q)) : Tiled size length q

/-- The places at which options are found. -/
inductive Found (length : Nat) : Nat → Prop
  | start : Found length 0
  | next {q : Nat} (hq : q < length) (hkeeps : ¬ Drops known data q) (hfound : Found length q) :
      Found length (q + sizeAt known data q)

/-- No option that is found ends where 8 bits do not reach. -/
def Representable (length : Nat) : Prop :=
  ∀ q, Found known data length q → q < length → ¬ Drops known data q →
    q + sizeAt known data q < 256

end Walk

variable {known : UInt8 → Bool} {process : List UInt8 → UInt8} {offset : UInt8}
  {multicast : Bool} {data : List UInt8} {s t : Loop} {length : UInt8} {size q : Nat}

theorem optionSize_pos (rest : List UInt8) : 0 < optionSize rest := by
  unfold optionSize
  split_ifs <;> omega

theorem sizeAt_pos (known : UInt8 → Bool) (data : List UInt8) (q : Nat) :
    0 < sizeAt known data q := by
  unfold sizeAt
  split_ifs
  · exact optionSize_pos _
  · omega

theorem Tiled.le {m : Nat} (h : Tiled known data size m q) : q ≤ m := by
  cases h with
  | done _ hlength => exact hlength.ge
  | dropped hq => exact hq.le
  | option hq => exact hq.le

theorem test_iff : s.test length = true ↔
    s.processedSize.toNat < length.toNat ∧ s.isDropped = false := by
  simp [Loop.test, UInt8.lt_iff_toNat_lt]

/-- An option that drops the packet ends the loop. -/
theorem body_drops (process : List UInt8 → UInt8) (offset : UInt8) (multicast : Bool)
    (h : Drops known data s.processedSize.toNat) :
    (s.body known process offset multicast data).isDropped = true ∧
      (s.body known process offset multicast data).inspected =
        s.inspected ++ [s.processedSize.toNat] := by
  simp only [Loop.body, h.1, Bool.false_eq_true, if_false, if_neg h.2]
  split_ifs <;> exact ⟨rfl, rfl⟩

/-- What a turn does with any other option. -/
theorem body_keeps (hprocess : ∀ rest, (process rest).toNat = optionSize rest % 256)
    (offset : UInt8) (multicast : Bool) (h : ¬ Drops known data s.processedSize.toNat) :
    (s.body known process offset multicast data).isDropped = s.isDropped ∧
      (s.body known process offset multicast data).processedSize.toNat =
        (s.processedSize.toNat + sizeAt known data s.processedSize.toNat) % 256 ∧
      ∀ i ∈ (s.body known process offset multicast data).inspected,
        i ∈ s.inspected ∨ i < s.processedSize.toNat + sizeAt known data s.processedSize.toNat := by
  set q := s.processedSize.toNat with hq
  have hpos := sizeAt_pos known data q
  by_cases hknown : known (data.getD q 0) = true
  · have hsize : sizeAt known data q = optionSize (data.drop q) := if_pos hknown
    simp only [Loop.body, ← hq, hknown, if_true]
    refine ⟨trivial, ?_, fun i hi => ?_⟩
    · rw [UInt8.toNat_add, hprocess, hsize, ← hq]
      omega
    · rcases List.mem_append.mp hi with hi | hi
      · exact Or.inl hi
      · rw [List.mem_singleton.mp hi]
        exact Or.inr (by omega)
  · have haction : data.getD q 0 >>> 6 = 0 := by
      by_contra hne
      exact h ⟨Bool.eq_false_iff.mpr hknown, hne⟩
    have hsize : sizeAt known data q = (data.getD (q + 1) 0).toNat + 2 := if_neg hknown
    simp only [Loop.body, ← hq, if_neg hknown, if_pos haction]
    refine ⟨trivial, ?_, fun i hi => ?_⟩
    · rw [UInt8.toNat_add, UInt8.toNat_add, hsize, ← hq]
      have htwo : (2 : UInt8).toNat = 2 := rfl
      omega
    · simp only [List.mem_append, List.mem_singleton] at hi
      rcases hi with (hi | rfl) | rfl
      · exact Or.inl hi
      · exact Or.inr (by omega)
      · exact Or.inr (by omega)

/-- Options that tile the bytes are walked to the end, or to the one that drops the packet. -/
theorem ends_of_tiled (offset : UInt8) (multicast : Bool)
    (hprocess : ∀ rest, (process rest).toNat = optionSize rest % 256)
    (h : Tiled known data size length.toNat q) (hs : s.processedSize.toNat = q)
    (hkept : s.isDropped = false) (hlength : length.toNat ≤ size)
    (hinspected : ∀ i ∈ s.inspected, i < size) :
    ∃ t, Ends (Loop.test length) (Loop.body known process offset multicast data) s t ∧
      (∀ i ∈ t.inspected, i < size) ∧
      (t.isDropped = false → t.processedSize.toNat = size ∧ size < 254) := by
  induction h generalizing s with
  | done hsize heq =>
    have htest : s.test length = false :=
      Bool.eq_false_iff.mpr fun htest => absurd (test_iff.mp htest).1 (by omega)
    exact ⟨s, (ends_exit htest).mpr rfl, hinspected, fun _ => ⟨hs, hsize⟩⟩
  | @dropped q hq hdrops =>
    subst hs
    obtain ⟨hdropped, hreads⟩ := body_drops process offset multicast hdrops
    have htest : (s.body known process offset multicast data).test length = false :=
      Bool.eq_false_iff.mpr fun htest => by
        rw [(test_iff.mp htest).2] at hdropped
        exact Bool.false_ne_true hdropped
    refine ⟨_, (ends_turn (test_iff.mpr ⟨hq, hkept⟩)).mpr ((ends_exit htest).mpr rfl),
      fun i hi => ?_, fun hfalse => ?_⟩
    · rw [hreads] at hi
      rcases List.mem_append.mp hi with hi | hi
      · exact hinspected i hi
      · rw [List.mem_singleton.mp hi]
        omega
    · rw [hdropped] at hfalse
      exact absurd hfalse.symm Bool.false_ne_true
  | @option q hq hkeeps hrest ih =>
    subst hs
    obtain ⟨hstill, hnext, hreads⟩ := body_keeps hprocess offset multicast hkeeps
    have hle := hrest.le
    have hlt := length.toNat_lt
    -- the option may end with the last of 254 bytes, so its end is below 256
    obtain ⟨t, hends, hresult⟩ := ih (s := s.body known process offset multicast data)
      (by rw [hnext]; exact Nat.mod_eq_of_lt (by omega)) (hstill.trans hkept)
      (fun i hi => (hreads i hi).elim (hinspected i) (fun hi => by omega))
    exact ⟨t, (ends_turn (test_iff.mpr ⟨hq, hkept⟩)).mpr hends, hresult⟩

/-- Conversely, where no sum of the walk is cut off, a loop that ends as it should has walked
over options that tile the bytes. -/
theorem tiled_of_ends (hprocess : ∀ rest, (process rest).toNat = optionSize rest % 256)
    (hrep : Representable known data length.toNat) (hsize : 6 ≤ size)
    (hlength : length.toNat = size % 256)
    (hends : Ends (Loop.test length) (Loop.body known process offset multicast data) s t)
    (hreturned : t.isDropped = false → t.returned.toNat = size + 2)
    (hfound : Found known data length.toNat q) (hs : s.processedSize.toNat = q)
    (hkept : s.isDropped = false) : Tiled known data size length.toNat q := by
  induction hn : 256 - q using Nat.strongRecOn generalizing s q with
  | ind n ih =>
    subst hs
    have hlt := s.processedSize.toNat_lt
    by_cases hq : s.processedSize.toNat < length.toNat
    · by_cases hdrops : Drops known data s.processedSize.toNat
      · exact Tiled.dropped hq hdrops
      · obtain ⟨hstill, hnext, -⟩ := body_keeps hprocess offset multicast hdrops
        have hpos := sizeAt_pos known data s.processedSize.toNat
        have hfit := hrep _ hfound hq hdrops
        rw [Nat.mod_eq_of_lt hfit] at hnext
        have hturn := (ends_turn (test_iff.mpr ⟨hq, hkept⟩)).mp hends
        exact Tiled.option hq hdrops (ih _ (by omega) hturn (Found.next hq hdrops hfound) hnext
          (hstill.trans hkept) rfl)
    · have htest : s.test length = false :=
        Bool.eq_false_iff.mpr fun htest => hq (test_iff.mp htest).1
      obtain rfl := (ends_exit htest).mp hends
      have hret := hreturned hkept
      have htwo : (2 : UInt8).toNat = 2 := rfl
      rw [Loop.returned, UInt8.toNat_add, htwo] at hret
      have hplace : t.processedSize.toNat = size := by omega
      rw [hplace]
      exact Tiled.done (by omega) (by omega)

/-- A turn reads the byte it has got to, and forgets none of those read before. -/
theorem inspected_body (known : UInt8 → Bool) (process : List UInt8 → UInt8) (offset : UInt8)
    (multicast : Bool) (data : List UInt8) (s : Loop) :
    s.inspected ++ [s.processedSize.toNat] <+:
      (s.body known process offset multicast data).inspected := by
  simp only [Loop.body]
  split_ifs
  · exact List.prefix_rfl
  · exact List.prefix_append _ _
  all_goals exact List.prefix_rfl

theorem inspected_of_ends {i : Nat}
    (h : Ends (Loop.test length) (Loop.body known process offset multicast data) s t)
    (hi : i ∈ s.inspected) : i ∈ t.inspected := by
  refine Transition.run_invariant (P := fun v => i ∈ v.inspected) (fun v u hv hturn => ?_) hi h.1
  rw [hturn.2]
  exact (inspected_body known process offset multicast data v).subset
    (List.mem_append_left _ hv)

theorem optionsLength_toNat (length : UInt8) :
    (optionsLength length).toNat = (extensionLength length - 2) % 256 := by
  rw [optionsLength, UInt8.toNat_ofNat']

theorem optionsLength_ge (length : UInt8) : 6 ≤ (optionsLength length).toNat := by
  rw [optionsLength_toNat, extensionLength]
  omega

/-- What the processing of an extension is to do: it ends, with the bytes it has read inside the
extension, which starts at `start`, and returns the extension's size if it keeps the packet. -/
def Correct (known : UInt8 → Bool) (process : List UInt8 → UInt8) (offset : UInt8)
    (multicast : Bool) (packet : List UInt8) (length : UInt8) (start : Nat) : Prop :=
  ∃ t, Process known process offset multicast packet length t ∧
    (∀ i ∈ t.inspected, start ≤ (optionsOffset offset).toNat + i ∧
      (optionsOffset offset).toNat + i < start + extensionLength length) ∧
    (t.isDropped = false → t.returned.toNat = extensionLength length)

/-- An offset so large that the options' is cut off: the first byte read lies before the
extension. -/
theorem offset_lt_of_correct {packet : List UInt8} {start : Nat} (hstart : start = offset.toNat)
    (h : Correct known process offset multicast packet length start) : offset.toNat < 254 := by
  obtain ⟨t, hends, hinside, -⟩ := h
  have hfirst : (0 : Nat) ∈ t.inspected := by
    have hlength := optionsLength_ge length
    have htest : Loop.test (optionsLength length) {} = true :=
      test_iff.mpr ⟨Nat.lt_of_lt_of_le (by decide) hlength, rfl⟩
    refine inspected_of_ends ((ends_turn htest).mp hends) ?_
    exact (inspected_body _ _ _ _ _ {}).subset (List.mem_append_right _ List.mem_cons_self)
  have hplace := (hinside 0 hfirst).1
  have hlt := offset.toNat_lt
  have htwo : (2 : UInt8).toNat = 2 := rfl
  rw [optionsOffset, UInt8.toNat_add, htwo] at hplace
  omega

theorem drop_optionsOffset (before area after : List UInt8) (nextHeader length : UInt8)
    (hoffset : before.length = offset.toNat) (hlt : offset.toNat < 254) :
    (optionsOffset offset).toNat = before.length + 2 ∧
      (before ++ nextHeader :: length :: area ++ after).drop (optionsOffset offset).toNat =
        area ++ after := by
  have hplace : (optionsOffset offset).toNat = before.length + 2 := by
    have htwo : (2 : UInt8).toNat = 2 := rfl
    rw [optionsOffset, UInt8.toNat_add, htwo]
    omega
  refine ⟨hplace, ?_⟩
  rw [hplace, List.append_assoc, List.drop_append, List.drop_eq_nil_of_le (by omega),
    Nat.add_sub_cancel_left]
  rfl

/-- The options that have an `Ipv6Option`: `Pad1`, `PadN`, the router alert and the
jumbogram. -/
def registered (type : UInt8) : Bool := type ∈ [0, 1, 5, 194]

def processRegistered (rest : List UInt8) : UInt8 := UInt8.ofNat (optionSize rest)

theorem processRegistered_toNat (rest : List UInt8) :
    (processRegistered rest).toNat = optionSize rest % 256 :=
  UInt8.toNat_ofNat'

end OptionProcessing

end CudaNs3.Internet
