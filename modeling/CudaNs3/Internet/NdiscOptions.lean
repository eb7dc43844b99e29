import CudaNs3.Lib.WhileLoops
import Mathlib.Data.UInt
import Mathlib.Data.List.Count

/-!
# The options of neighbour discovery messages

`HandleRA` and `HandleNS` go through the options behind the fixed header of a message. A loop
looks at the type of the first option and removes the option, except that an option of which
only the first is taken into account stays where it is when it comes a second time.
-/

namespace CudaNs3.Internet

open WhileLoops
set_option autoImplicit false

namespace NdiscOptions

def linkLayerSource : UInt8 := 1

def prefixInformation : UInt8 := 3

def mtu : UInt8 := 5

/-- `CopyData` of one byte into a variable that holds `type`. -/
def copyType (type : UInt8) (packet : List UInt8) : UInt8 := packet.headD type

/-- The variables of the loop of `HandleRA`; `removed` are the option headers taken off the
packet, of which the prefixes configure addresses and the link-layer address is received. -/
structure RaLoop where
  packet : List UInt8
  next : Bool := true
  hasLla : Bool := false
  hasMtu : Bool := false
  removed : List (List UInt8) := []
  deriving DecidableEq, Repr

/-- The variables of the loop of `HandleNS`. -/
structure NsLoop where
  packet : List UInt8
  next : Bool := true
  hasSllao : Bool := false
  removed : List (List UInt8) := []
  deriving DecidableEq, Repr

section Source

-- `RemoveHeader` takes off as many bytes as the header of this type reads from the packet
variable (deserialized : UInt8 → List UInt8 → Nat)

def RaLoop.removeHeader (s : RaLoop) (type : UInt8) : RaLoop :=
  { s with
    packet := s.packet.drop (deserialized type s.packet)
    removed := s.removed ++ [s.packet.take (deserialized type s.packet)] }

def RaLoop.body (s : RaLoop) : RaLoop :=
  let type := copyType 0 s.packet
  if type = prefixInformation then s.removeHeader deserialized type
  else if type = mtu then
    if !s.hasMtu then { s.removeHeader deserialized type with hasMtu := true } else s
  else if type = linkLayerSource then
    if !s.hasLla then { s.removeHeader deserialized type with hasLla := true } else s
  else { s with next := false }

def NsLoop.removeHeader (s : NsLoop) (type : UInt8) : NsLoop :=
  { s with
    packet := s.packet.drop (deserialized type s.packet)
    removed := s.removed ++ [s.packet.take (deserialized type s.packet)] }

/-- `uninitialized` is what the variable for the type holds before anything is copied. -/
def NsLoop.body (uninitialized : UInt8) (s : NsLoop) : NsLoop :=
  let type := copyType uninitialized s.packet
  let switched :=
    if type = linkLayerSource then
      if !s.hasSllao then { s.removeHeader deserialized type with hasSllao := true } else s
    else { s with next := false }
  if switched.packet.length = 0 then { switched with next := false } else switched

/-- The types of the options at the front of the packet, up to the first one that is not
`known`. -/
def optionTypes (known : List UInt8) : Nat → List UInt8 → List UInt8
  | 0, _ => []
  | _, [] => []
  | fuel + 1, type :: rest =>
    if type ∈ known then
      type :: optionTypes known fuel ((type :: rest).drop (deserialized type (type :: rest)))
    else []

end Source

/-- What `HandleRA` has options for. -/
def raTypes : List UInt8 := [prefixInformation, mtu, linkLayerSource]

section Loops
variable {deserialized : UInt8 → List UInt8 → Nat}

/-- The loop halts and takes an option off the packet in every turn but the last. -/
def RaLoop.Terminates (deserialized : UInt8 → List UInt8 → Nat) (s : RaLoop) : Prop :=
  Steady RaLoop.next (RaLoop.body deserialized) (fun s => s.packet.length) s

def NsLoop.Terminates (deserialized : UInt8 → List UInt8 → Nat) (uninitialized : UInt8)
    (s : NsLoop) : Prop :=
  Steady NsLoop.next (NsLoop.body deserialized uninitialized) (fun s => s.packet.length) s

theorem length_drop_lt {type : UInt8} {rest : List UInt8}
    (h : 0 < deserialized type (type :: rest)) :
    ((type :: rest).drop (deserialized type (type :: rest))).length <
      (type :: rest).length := by
  rw [List.length_drop, List.length_cons]
  omega

theorem optionTypes_cons {known : List UInt8} {type : UInt8} {rest : List UInt8} {n : Nat}
    (h : type ∈ known) :
    optionTypes deserialized known (n + 1) (type :: rest) =
      type :: optionTypes deserialized known n
        ((type :: rest).drop (deserialized type (type :: rest))) := by
  rw [optionTypes, if_pos h]

theorem optionTypes_quit {known packet : List UInt8} {n : Nat}
    (h : ∀ type rest, packet = type :: rest → type ∉ known) :
    optionTypes deserialized known n packet = [] := by
  cases n with
  | zero => rfl
  | succ n =>
    cases packet with
    | nil => rfl
    | cons type rest => rw [optionTypes, if_neg (h type rest rfl)]

section Ra
variable {s : RaLoop} {rest : List UInt8}

theorem RaLoop.body_quit (h : ∀ type rest, s.packet = type :: rest → type ∉ raTypes) :
    s.body deserialized = { s with next := false } := by
  have hquit : copyType 0 s.packet ∉ raTypes := by
    cases hp : s.packet with
    | nil => decide
    | cons type rest => exact h type rest hp
  simp only [raTypes, List.mem_cons, List.not_mem_nil, or_false, not_or] at hquit
  simp only [RaLoop.body, if_neg hquit.1, if_neg hquit.2.1, if_neg hquit.2.2]

theorem RaLoop.body_prefix (h : s.packet = prefixInformation :: rest) :
    s.body deserialized = s.removeHeader deserialized prefixInformation := by
  simp only [RaLoop.body, h, copyType, List.headD_cons, if_true]

theorem RaLoop.body_mtu (h : s.packet = mtu :: rest) : s.body deserialized =
    if !s.hasMtu then { s.removeHeader deserialized mtu with hasMtu := true } else s := by
  simp only [RaLoop.body, h, copyType, List.headD_cons, if_true]
  rfl

theorem RaLoop.body_linkLayer (h : s.packet = linkLayerSource :: rest) : s.body deserialized =
    if !s.hasLla then { s.removeHeader deserialized linkLayerSource with hasLla := true }
    else s := by
  simp only [RaLoop.body, h, copyType, List.headD_cons, if_true]
  rfl

/-- A turn that takes an option off. -/
theorem RaLoop.terminates_turn {t : RaLoop} {type : UInt8} (hnext : s.next = true)
    (hbody : s.body deserialized = t) (hpacket : s.packet = type :: rest)
    (hpos : 0 < deserialized type (type :: rest))
    (ht : t.packet = s.packet.drop (deserialized type s.packet)) :
    s.Terminates deserialized ↔ t.Terminates deserialized := by
  subst hbody
  refine steady_turn hnext fun _ => ?_
  rw [ht, hpacket]
  exact length_drop_lt hpos

/-- A loop of `HandleRA` whose flags stand for the options already taken off. -/
theorem RaLoop.terminates_iff (n : Nat) (s : RaLoop) (hlen : s.packet.length ≤ n)
    (hnext : s.next = true)
    (hpos : ∀ type ∈ raTypes, ∀ rest, 0 < deserialized type (type :: rest)) :
    s.Terminates deserialized ↔
      (optionTypes deserialized raTypes n s.packet).count mtu + s.hasMtu.toNat ≤ 1 ∧
        (optionTypes deserialized raTypes n s.packet).count linkLayerSource +
          s.hasLla.toNat ≤ 1 := by
  by_cases hquit : ∀ type rest, s.packet = type :: rest → type ∉ raTypes
  · have hexit : s.Terminates deserialized := by
      refine (steady_turn hnext ?_).mpr (steady_exit ?_)
      · rw [RaLoop.body_quit hquit]
        exact fun h => absurd h Bool.false_ne_true
      · rw [RaLoop.body_quit hquit]
    rw [optionTypes_quit hquit]
    exact iff_of_true hexit
      ⟨by simpa using Bool.toNat_le s.hasMtu, by simpa using Bool.toNat_le s.hasLla⟩
  simp only [not_forall, not_not] at hquit
  obtain ⟨type, rest, hpacket, htype⟩ := hquit
  cases n with
  | zero => rw [hpacket, List.length_cons] at hlen; omega
  | succ n =>
    have hdrop := length_drop_lt (hpos type htype rest)
    rw [hpacket] at hlen
    have hle : ((type :: rest).drop (deserialized type (type :: rest))).length ≤ n := by omega
    have htypes : optionTypes deserialized raTypes (n + 1) s.packet =
        type :: optionTypes deserialized raTypes n
          ((type :: rest).drop (deserialized type (type :: rest))) := by
      rw [hpacket, optionTypes_cons htype]
    have hcases : type = prefixInformation ∨ type = mtu ∨ type = linkLayerSource := by
      simpa [raTypes] using htype
    rw [htypes]
    rcases hcases with rfl | rfl | rfl
    · have hrest := RaLoop.terminates_iff n (s.removeHeader deserialized prefixInformation)
        (by simpa only [RaLoop.removeHeader, hpacket] using hle) hnext hpos
      rw [RaLoop.terminates_turn hnext (RaLoop.body_prefix hpacket) hpacket
        (hpos _ htype rest) rfl, hrest]
      simp only [RaLoop.removeHeader, hpacket]
      rw [List.count_cons_of_ne (by decide), List.count_cons_of_ne (by decide)]
    · cases hmtu : s.hasMtu with
      | true =>
        have hfixed : s.body deserialized = s := by
          rw [RaLoop.body_mtu hpacket, hmtu]
          rfl
        refine iff_of_false (not_steady_of_fixed hnext hfixed) fun h => ?_
        have hmany := h.1
        rw [List.count_cons_self, Bool.toNat_true] at hmany
        omega
      | false =>
        have hbody : s.body deserialized =
            { s.removeHeader deserialized mtu with hasMtu := true } := by
          rw [RaLoop.body_mtu hpacket, hmtu]
          rfl
        have hrest := RaLoop.terminates_iff n
          { s.removeHeader deserialized mtu with hasMtu := true }
          (by simpa only [RaLoop.removeHeader, hpacket] using hle) hnext hpos
        rw [RaLoop.terminates_turn hnext hbody hpacket (hpos _ htype rest) rfl, hrest]
        simp only [RaLoop.removeHeader, hpacket]
        rw [List.count_cons_self, List.count_cons_of_ne (by decide), Bool.toNat_true,
          Bool.toNat_false, Nat.add_zero]
    · cases hlla : s.hasLla with
      | true =>
        have hfixed : s.body deserialized = s := by
          rw [RaLoop.body_linkLayer hpacket, hlla]
          rfl
        refine iff_of_false (not_steady_of_fixed hnext hfixed) fun h => ?_
        have hmany := h.2
        rw [List.count_cons_self, Bool.toNat_true] at hmany
        omega
      | false =>
        have hbody : s.body deserialized =
            { s.removeHeader deserialized linkLayerSource with hasLla := true } := by
          rw [RaLoop.body_linkLayer hpacket, hlla]
          rfl
        have hrest := RaLoop.terminates_iff n
          { s.removeHeader deserialized linkLayerSource with hasLla := true }
          (by simpa only [RaLoop.removeHeader, hpacket] using hle) hnext hpos
        rw [RaLoop.terminates_turn hnext hbody hpacket (hpos _ htype rest) rfl, hrest]
        simp only [RaLoop.removeHeader, hpacket]
        rw [List.count_cons_self, List.count_cons_of_ne (by decide), Bool.toNat_true,
          Bool.toNat_false, Nat.add_zero]

end Ra

section Ns
variable {s : NsLoop} {rest : List UInt8} {uninitialized : UInt8}

/-- Nothing is left to remove, whatever the variable for the type holds. -/
theorem NsLoop.next_body_nil (h : s.packet = []) :
    (s.body deserialized uninitialized).next = false := by
  simp only [NsLoop.body, h]
  split_ifs with h1 h2 h3 h4 h5
  all_goals first
    | rfl
    | simp_all [NsLoop.removeHeader]

theorem NsLoop.next_body_quit {type : UInt8} (h : s.packet = type :: rest)
    (htype : type ≠ linkLayerSource) : (s.body deserialized uninitialized).next = false := by
  simp only [NsLoop.body, h, copyType, List.headD_cons, if_neg htype]
  split_ifs <;> rfl

theorem NsLoop.body_fixed (h : s.packet = linkLayerSource :: rest) (hs : s.hasSllao = true) :
    s.body deserialized uninitialized = s := by
  have hlen : s.packet.length ≠ 0 := by simp [h]
  have htype : copyType uninitialized s.packet = linkLayerSource := by rw [h]; rfl
  simp only [NsLoop.body, htype, if_true, hs, Bool.not_true, Bool.false_eq_true, if_false,
    if_neg hlen]

/-- The first option, taken off. -/
theorem NsLoop.body_first (h : s.packet = linkLayerSource :: rest) (hs : s.hasSllao = false) :
    s.body deserialized uninitialized =
      if (s.packet.drop (deserialized linkLayerSource s.packet)).length = 0 then
        { s.removeHeader deserialized linkLayerSource with hasSllao := true, next := false }
      else { s.removeHeader deserialized linkLayerSource with hasSllao := true } := by
  have htype : copyType uninitialized s.packet = linkLayerSource := by rw [h]; rfl
  simp only [NsLoop.body, htype, if_true, hs, Bool.not_false]
  rfl

/-- A loop of `HandleNS` whose flag stands for the option already taken off. -/
theorem NsLoop.terminates_iff (n : Nat) (s : NsLoop) (hlen : s.packet.length ≤ n)
    (hnext : s.next = true) (hpos : ∀ rest, 0 < deserialized linkLayerSource
      (linkLayerSource :: rest)) :
    s.Terminates deserialized uninitialized ↔
      (optionTypes deserialized [linkLayerSource] n s.packet).count linkLayerSource +
        s.hasSllao.toNat ≤ 1 := by
  have hexit (hbody : (s.body deserialized uninitialized).next = false) :
      s.Terminates deserialized uninitialized :=
    (steady_turn hnext fun h => absurd (hbody.symm.trans h) Bool.false_ne_true).mpr
      (steady_exit hbody)
  by_cases hquit : ∀ type rest, s.packet = type :: rest → type ∉ [linkLayerSource]
  · rw [optionTypes_quit hquit]
    refine iff_of_true (hexit ?_) (by simpa using Bool.toNat_le s.hasSllao)
    cases hpacket : s.packet with
    | nil => exact NsLoop.next_body_nil hpacket
    | cons type rest =>
      exact NsLoop.next_body_quit hpacket fun h => hquit type rest hpacket (by simp [h])
  simp only [not_forall, not_not, List.mem_singleton] at hquit
  obtain ⟨_, rest, hpacket, rfl⟩ := hquit
  cases n with
  | zero => rw [hpacket, List.length_cons] at hlen; omega
  | succ n =>
    have hdrop := length_drop_lt (hpos rest)
    rw [hpacket] at hlen
    have hle : ((linkLayerSource :: rest).drop
        (deserialized linkLayerSource (linkLayerSource :: rest))).length ≤ n := by omega
    have htypes : optionTypes deserialized [linkLayerSource] (n + 1) s.packet =
        linkLayerSource :: optionTypes deserialized [linkLayerSource] n
          ((linkLayerSource :: rest).drop
            (deserialized linkLayerSource (linkLayerSource :: rest))) := by
      rw [hpacket, optionTypes_cons (List.mem_singleton_self _)]
    rw [htypes, List.count_cons_self]
    cases hs : s.hasSllao with
    | true =>
      refine iff_of_false (not_steady_of_fixed hnext (NsLoop.body_fixed hpacket hs)) fun h => ?_
      rw [Bool.toNat_true] at h
      omega
    | false =>
      have hbody : s.body deserialized uninitialized = _ := NsLoop.body_first hpacket hs
      rw [hpacket] at hbody
      by_cases hlast : ((linkLayerSource :: rest).drop
          (deserialized linkLayerSource (linkLayerSource :: rest))).length = 0
      · rw [if_pos hlast] at hbody
        refine iff_of_true (hexit (by rw [hbody])) ?_
        rw [List.length_eq_zero_iff.mp hlast, optionTypes_quit (fun _ _ h => by cases h)]
        rfl
      · rw [if_neg hlast] at hbody
        have hturn : s.Terminates deserialized uninitialized ↔
            (s.body deserialized uninitialized).Terminates deserialized uninitialized := by
          refine steady_turn hnext fun _ => ?_
          rw [hbody]
          simpa only [NsLoop.removeHeader, hpacket] using hdrop
        have hrest := NsLoop.terminates_iff n
          { s.removeHeader deserialized linkLayerSource with hasSllao := true }
          (by simpa only [NsLoop.removeHeader, hpacket] using hle) hnext hpos
        rw [hturn, hbody, hrest]
        simp only [NsLoop.removeHeader, hpacket, Bool.toNat_true, Bool.toNat_false, Nat.add_zero]

end Ns

end Loops

/-- `HandleRA` and `HandleNS` get through the options of a message exactly if it repeats none of
those that are taken into account once. -/
theorem options_terminate_iff (deserialized : UInt8 → List UInt8 → Nat)
    (hpos : ∀ type ∈ raTypes, ∀ rest, 0 < deserialized type (type :: rest))
    (content : List UInt8) :
    (RaLoop.Terminates deserialized { packet := content } ↔
      (optionTypes deserialized raTypes content.length content).count mtu ≤ 1 ∧
        (optionTypes deserialized raTypes content.length content).count linkLayerSource ≤ 1) ∧
      ∀ uninitialized,
        (NsLoop.Terminates deserialized uninitialized { packet := content } ↔
          (optionTypes deserialized [linkLayerSource] content.length content).count
            linkLayerSource ≤ 1) :=
  ⟨RaLoop.terminates_iff content.length { packet := content } le_rfl rfl hpos,
    fun _ => NsLoop.terminates_iff content.length { packet := content } le_rfl rfl
      (hpos linkLayerSource (by decide))⟩

/-- The sizes of the options: a prefix has 32 bytes, an MTU 8, a link-layer address as many
times 8 as its second byte says. -/
def optionSize (type : UInt8) (packet : List UInt8) : Nat :=
  if type = prefixInformation then 32 else if type = mtu then 8
  else max 1 ((packet.getD 1 0).toNat * 8)

theorem optionSize_pos (type : UInt8) (packet : List UInt8) : 0 < optionSize type packet := by
  unfold optionSize
  split_ifs <;> omega

/-- A link-layer address and an MTU, once each. -/
theorem options_terminate_iff_once :
    (RaLoop.Terminates optionSize
        { packet := [1, 1, 0, 0, 0, 0, 0, 9, 5, 1, 0, 0, 0, 0, 5, 220] } ↔
      (optionTypes optionSize raTypes 16
          [1, 1, 0, 0, 0, 0, 0, 9, 5, 1, 0, 0, 0, 0, 5, 220]).count mtu ≤ 1 ∧
        (optionTypes optionSize raTypes 16
          [1, 1, 0, 0, 0, 0, 0, 9, 5, 1, 0, 0, 0, 0, 5, 220]).count linkLayerSource ≤ 1) ∧
      ∀ uninitialized,
        (NsLoop.Terminates optionSize uninitialized
          { packet := [1, 1, 0, 0, 0, 0, 0, 9, 5, 1, 0, 0, 0, 0, 5, 220] } ↔
          (optionTypes optionSize [linkLayerSource] 16
            [1, 1, 0, 0, 0, 0, 0, 9, 5, 1, 0, 0, 0, 0, 5, 220]).count linkLayerSource ≤ 1) :=
  options_terminate_iff optionSize (fun type _ rest => optionSize_pos type (type :: rest))
    [1, 1, 0, 0, 0, 0, 0, 9, 5, 1, 0, 0, 0, 0, 5, 220]

/-- A router advertisement with two MTU options is never left. -/
theorem not_options_terminate :
    ¬ ∀ deserialized : UInt8 → List UInt8 → Nat,
      (∀ type ∈ raTypes, ∀ rest, 0 < deserialized type (type :: rest)) →
      ∀ content, RaLoop.Terminates deserialized { packet := content } ∧
        ∀ uninitialized, NsLoop.Terminates deserialized uninitialized { packet := content } := by
  intro h
  have hboth := (h optionSize (fun type _ rest => optionSize_pos type (type :: rest))
    [5, 1, 0, 0, 0, 0, 5, 220, 5, 1, 0, 0, 0, 0, 5, 220]).1
  rw [RaLoop.terminates_iff 16 _ (by decide) rfl
    (fun type _ rest => optionSize_pos type (type :: rest))] at hboth
  exact absurd hboth.1 (by decide +kernel)

end NdiscOptions

end CudaNs3.Internet
