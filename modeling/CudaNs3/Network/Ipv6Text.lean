import CudaNs3.Lib.Transition
import CudaNs3.Lib.Words

/-!
# Reading IPv6 addresses

`AsciiToIpv6Host` goes through the text with a few counters and shifts what follows a double
colon to the end of the address. It accepts the texts of the grammar, and also those of them that
end in a group with one more colon behind.
-/

namespace CudaNs3.Network.Ipv6Text

set_option autoImplicit false

def xdigitsLower : List Char := "0123456789abcdef".toList

def xdigitsUpper : List Char := "0123456789ABCDEF".toList

def xdigit (ch : Char) : Option Nat := (xdigitsLower.idxOf? ch).or (xdigitsUpper.idxOf? ch)

structure Scan where
  tmp : List UInt8 := List.replicate 16 0
  tp : Nat := 0
  colonp : Option Nat := none
  seenXdigits : Nat := 0
  val : Nat := 0

namespace Scan

/-- The two bytes of `val` are written at `tp`. -/
def store (s : Scan) : Option Scan :=
  if 16 - s.tp < 2 then none
  else some { s with
    tmp := (s.tmp.set s.tp (UInt8.ofNat (s.val >>> 8))).set (s.tp + 1) (UInt8.ofNat s.val)
    tp := s.tp + 2 }

def step (s : Scan) (ch : Char) : Option Scan :=
  match xdigit ch with
  | some d =>
    if 4 < s.seenXdigits + 1 then none
    else some { s with val := s.val <<< 4 ||| d, seenXdigits := s.seenXdigits + 1 }
  | none =>
    if ch = ':' then
      if s.seenXdigits = 0 then
        if s.colonp.isSome then none else some { s with colonp := some s.tp }
      else s.store.map fun s => { s with seenXdigits := 0, val := 0 }
    else none

/-- `endp[-i] = colonp[n - i]; colonp[n - i] = 0` -/
def moveByte (colonp n : Nat) (tmp : List UInt8) (i : Nat) : List UInt8 :=
  (tmp.set (16 - i) (tmp.getD (colonp + (n - i)) 0)).set (colonp + (n - i)) 0

/-- The bytes behind the double colon are moved to the end, and all must be there. -/
def shift (s : Scan) : Option (List UInt8) :=
  match s.colonp with
  | some colonp =>
    let n := s.tp - colonp
    if s.tp = 16 then none else some ((List.range' 1 n).foldl (moveByte colonp n) s.tmp)
  | none => if s.tp = 16 then some s.tmp else none

/-- What follows the loop over the characters. -/
def finish (s : Scan) : Option (List UInt8) :=
  (if s.seenXdigits = 0 then some s else s.store).bind shift

end Scan

def scan (text : List Char) : Option (List UInt8) :=
  (Transition.exec Scan.step {} text).bind Scan.finish

/-- The bytes read; a colon at the start must be followed by another one, which is read on. -/
def parse : List Char → Option (List UInt8)
  | ':' :: rest => if rest.head? = some ':' then scan rest else none
  | text => scan text

def asciiToIpv6Host (address : List Char) (addr : List UInt8) : Bool × List UInt8 :=
  match parse address with
  | some tmp => (true, tmp)
  | none => (false, addr)

/-! ### The grammar -/

structure IsGroup (g : List Char) : Prop where
  pos : 1 ≤ g.length
  le : g.length ≤ 4
  digits : ∀ ch ∈ g, (xdigit ch).isSome

def value (g : List Char) : Nat := g.foldl (fun v ch => 16 * v + (xdigit ch).getD 0) 0

def groupBytes (g : List Char) : List UInt8 := [UInt8.ofNat (value g / 256), UInt8.ofNat (value g)]

def join (gs : List (List Char)) : List Char := [':'].intercalate gs

def zeros (n : Nat) : List UInt8 := List.replicate n 0

/-- Eight groups separated by colons, or fewer with one double colon. -/
inductive Denotes : List Char → List UInt8 → Prop where
  | plain (gs : List (List Char)) (hlen : gs.length = 8) (hgs : ∀ g ∈ gs, IsGroup g) :
      Denotes (join gs) (gs.flatMap groupBytes)
  | compressed (ls rs : List (List Char)) (hlen : ls.length + rs.length < 8)
      (hls : ∀ g ∈ ls, IsGroup g) (hrs : ∀ g ∈ rs, IsGroup g) :
      Denotes (join ls ++ [':', ':'] ++ join rs)
        (ls.flatMap groupBytes ++ zeros (16 - 2 * (ls.length + rs.length)) ++
          rs.flatMap groupBytes)

/-! ### What has been read -/

/-- The groups before the double colon and after it, if it has been read, and the digits of a
group that has begun. -/
structure Parsed where
  before : List (List Char) := []
  after : Option (List (List Char)) := none
  digits : List Char := []

namespace Parsed

def groups (p : Parsed) : List (List Char) := p.before ++ p.after.getD []

def addGroup (p : Parsed) (g : List Char) : Parsed :=
  match p.after with
  | none => { before := p.before ++ [g] }
  | some rs => { before := p.before, after := some (rs ++ [g]) }

def next (p : Parsed) (ch : Char) : Option Parsed :=
  if (xdigit ch).isSome then
    if p.digits.length < 4 then some { p with digits := p.digits ++ [ch] } else none
  else if ch = ':' then
    if p.digits = [] then
      if p.after.isSome then none else some { p with after := some [] }
    else if p.groups.length < 8 then some (p.addGroup p.digits) else none
  else none

structure Valid (p : Parsed) : Prop where
  before : ∀ g ∈ p.before, IsGroup g
  after : ∀ rs ∈ p.after, ∀ g ∈ rs, IsGroup g
  count : p.groups.length ≤ 8
  length : p.digits.length ≤ 4
  digits : ∀ ch ∈ p.digits, (xdigit ch).isSome

/-- The state of the scanner. -/
def state (p : Parsed) : Scan where
  tmp := p.groups.flatMap groupBytes ++ zeros (16 - 2 * p.groups.length)
  tp := 2 * p.groups.length
  colonp := p.after.map fun _ => 2 * p.before.length
  seenXdigits := p.digits.length
  val := value p.digits

/-- Groups with a colon behind each. -/
def closed (gs : List (List Char)) : List Char := gs.flatMap (· ++ [':'])

def text (p : Parsed) : List Char :=
  closed p.before ++ (p.after.elim [] fun rs => ':' :: closed rs) ++ p.digits

end Parsed

section
variable {p q : Parsed} {ch : Char} {g : List Char} {t : List Char} {d : Nat}

theorem xdigit_lt (h : xdigit ch = some d) : d < 16 := by
  rcases Option.or_eq_some_iff.mp h with hlow | ⟨-, hhigh⟩
  · exact (List.idxOf?_eq_some_iff.mp hlow).1
  · exact (List.idxOf?_eq_some_iff.mp hhigh).1

theorem xdigit_colon : xdigit ':' = none := by decide +kernel

theorem ne_colon (h : (xdigit ch).isSome) : ch ≠ ':' := by
  rintro rfl
  rw [xdigit_colon] at h
  cases h

theorem value_append_singleton (g : List Char) (ch : Char) :
    value (g ++ [ch]) = 16 * value g + (xdigit ch).getD 0 := by
  rw [value, List.foldl_append]
  rfl

@[simp] theorem length_groupBytes : (groupBytes g).length = 2 := rfl

theorem length_flatMap_groupBytes (gs : List (List Char)) :
    (gs.flatMap groupBytes).length = 2 * gs.length := by
  induction gs with
  | nil => rfl
  | cons g gs ih =>
    rw [List.flatMap_cons, List.length_append, ih, length_groupBytes, List.length_cons]
    omega

namespace Parsed

theorem groups_addGroup (p : Parsed) (g : List Char) : (p.addGroup g).groups = p.groups ++ [g] := by
  unfold addGroup groups
  cases p.after with
  | none => exact (List.append_nil _).trans (congrArg (· ++ [g]) (List.append_nil _).symm)
  | some rs => exact (List.append_assoc _ _ _).symm

theorem colonp_addGroup (p : Parsed) (g : List Char) :
    (p.addGroup g).state.colonp = p.state.colonp := by
  rcases p with ⟨before, after, digits⟩
  cases after <;> rfl

theorem state_addGroup (p : Parsed) (g : List Char) : (p.addGroup g).state =
    { tmp := (p.groups ++ [g]).flatMap groupBytes ++ zeros (16 - 2 * (p.groups.length + 1))
      tp := 2 * (p.groups.length + 1), colonp := p.state.colonp } := by
  have hdigits : (p.addGroup g).digits = [] := by
    unfold addGroup
    cases p.after <;> rfl
  rw [← colonp_addGroup p g]
  unfold state
  rw [groups_addGroup, hdigits, List.length_append]
  rfl

theorem store_state (p : Parsed) : p.state.store =
    if p.groups.length < 8 then some { (p.addGroup p.digits).state with
      seenXdigits := p.digits.length, val := value p.digits } else none := by
  have hset (xs zs : List UInt8) (a b : UInt8) :
      ((xs ++ 0 :: 0 :: zs).set xs.length a).set (xs.length + 1) b = xs ++ a :: b :: zs := by
    have hsub : xs.length + 1 - xs.length = 1 := Nat.add_sub_cancel_left _ _
    rw [List.set_append_right _ _ (Nat.le_refl _), Nat.sub_self,
      List.set_append_right _ _ (Nat.le_add_right _ 1), hsub]
    rfl
  unfold Scan.store
  change (if 16 - 2 * p.groups.length < 2 then _ else _) = _
  by_cases hlt : p.groups.length < 8
  · have hzeros : zeros (16 - 2 * p.groups.length) =
        0 :: 0 :: zeros (16 - 2 * (p.groups.length + 1)) := by
      rw [show 16 - 2 * p.groups.length = 16 - 2 * (p.groups.length + 1) + 2 by omega]
      rfl
    have hbytes := hset (p.groups.flatMap groupBytes) (zeros (16 - 2 * (p.groups.length + 1)))
      (UInt8.ofNat (value p.digits / 256)) (UInt8.ofNat (value p.digits))
    rw [length_flatMap_groupBytes, ← hzeros] at hbytes
    have hshift : value p.digits >>> 8 = value p.digits / 256 := Nat.shiftRight_eq_div_pow _ 8
    rw [if_neg (by omega), if_pos hlt, state_addGroup, List.flatMap_append, List.append_assoc]
    unfold state
    simp only [hshift, hbytes]
    rfl
  · rw [if_pos (by omega), if_neg hlt]

theorem step_state (p : Parsed) (ch : Char) : p.state.step ch = (p.next ch).map state := by
  unfold Scan.step next
  cases hd : xdigit ch with
  | some d =>
    have hlt := xdigit_lt hd
    have hval : value p.digits <<< 4 ||| d = value (p.digits ++ [ch]) := by
      rw [value_append_singleton, hd, ← Nat.shiftLeft_add_eq_or_of_lt hlt, Nat.shiftLeft_eq,
        Nat.mul_comm]
      rfl
    rw [if_pos (show (some d).isSome = true from rfl)]
    change (if 4 < p.digits.length + 1 then none else _) = _
    by_cases hlen : p.digits.length < 4
    · rw [if_neg (by omega), if_pos hlen, Option.map_some]
      unfold state
      rw [← hval, List.length_append]
      rfl
    · rw [if_pos (by omega), if_neg hlen]
      rfl
  | none =>
    rw [if_neg (show ¬ (none : Option Nat).isSome = true from Bool.false_ne_true)]
    change (if ch = ':' then if p.digits.length = 0 then _ else _ else none) = _
    by_cases hch : ch = ':'
    · rw [if_pos hch, if_pos hch]
      by_cases hdigits : p.digits = []
      · rw [if_pos hdigits, if_pos (List.length_eq_zero_iff.mpr hdigits)]
        rcases p with ⟨before, after, digits⟩
        cases after with
        | none =>
          change some _ = some _
          simp only [state, groups, Option.getD_none, Option.getD_some, List.append_nil,
            Option.map_some]
        | some rs => rfl
      · rw [if_neg hdigits, if_neg (mt List.length_eq_zero_iff.mp hdigits), store_state]
        by_cases hlt : p.groups.length < 8
        · rw [if_pos hlt, if_pos hlt, Option.map_some, Option.map_some, state_addGroup]
        · rw [if_neg hlt, if_neg hlt]
          rfl
    · rw [if_neg hch, if_neg hch]
      rfl

theorem Valid.isGroup (hv : p.Valid) (hdigits : p.digits ≠ []) : IsGroup p.digits where
  pos := List.length_pos_iff.mpr hdigits
  le := hv.length
  digits := hv.digits

theorem Valid.addGroup (hv : p.Valid) (hlt : p.groups.length < 8) (hdigits : p.digits ≠ []) :
    (p.addGroup p.digits).Valid := by
  have hgroup := hv.isGroup hdigits
  have hcount : (p.addGroup p.digits).groups.length ≤ 8 := by
    rw [groups_addGroup, List.length_append]
    exact hlt
  have hmem {gs : List (List Char)} (hgs : ∀ g ∈ gs, IsGroup g) :
      ∀ g ∈ gs ++ [p.digits], IsGroup g := by
    intro g hg
    rcases List.mem_append.mp hg with hg | hg
    · exact hgs g hg
    · rw [List.mem_singleton.mp hg]
      exact hgroup
  unfold Parsed.addGroup at hcount ⊢
  cases hafter : p.after with
  | none =>
    rw [hafter] at hcount
    exact ⟨hmem hv.before, fun rs hrs => (by cases hrs), hcount, Nat.zero_le _, fun c hc => by cases hc⟩
  | some rs =>
    rw [hafter] at hcount
    refine ⟨hv.before, ?_, hcount, Nat.zero_le _, fun c hc => by cases hc⟩
    rintro rs' ⟨rfl⟩
    exact hmem (hv.after rs hafter)

theorem closed_append_singleton (gs : List (List Char)) (g : List Char) :
    closed (gs ++ [g]) = closed gs ++ g ++ [':'] := by
  rw [closed, List.flatMap_append, List.append_assoc]
  exact congrArg (closed gs ++ ·) (List.append_nil _)

theorem text_addGroup (p : Parsed) : (p.addGroup p.digits).text = p.text ++ [':'] := by
  rcases p with ⟨before, after, digits⟩
  cases after with
  | none =>
    change closed (before ++ [digits]) ++ [] ++ [] = closed before ++ [] ++ digits ++ [':']
    rw [closed_append_singleton]
    simp only [List.append_nil]
  | some rs =>
    change closed before ++ ':' :: closed (rs ++ [digits]) ++ [] =
      closed before ++ ':' :: closed rs ++ digits ++ [':']
    rw [closed_append_singleton]
    simp only [List.append_nil, List.append_assoc, List.cons_append]

theorem next_valid (hv : p.Valid) (h : p.next ch = some q) : q.Valid := by
  unfold next at h
  split at h
  · rename_i hdigit
    split at h
    · rename_i hlen
      obtain rfl := Option.some.inj h
      refine ⟨hv.before, hv.after, hv.count, ?_, ?_⟩
      · rw [List.length_append]
        exact hlen
      · intro c hc
        rcases List.mem_append.mp hc with hc | hc
        · exact hv.digits c hc
        · rw [List.mem_singleton.mp hc]
          exact hdigit
    · cases h
  · split at h
    · split at h
      · split at h
        · cases h
        · rename_i hdigits hafter
          obtain rfl := Option.some.inj h
          refine ⟨hv.before, ?_, ?_, hv.length, hv.digits⟩
          · rintro rs ⟨rfl⟩ g hg
            cases hg
          · have hcount := hv.count
            rw [groups, Option.not_isSome_iff_eq_none.mp hafter] at hcount
            exact hcount
      · rename_i hdigits
        split at h
        · rename_i hlt
          obtain rfl := Option.some.inj h
          exact hv.addGroup hlt hdigits
        · cases h
    · cases h

theorem next_text (h : p.next ch = some q) : q.text = p.text ++ [ch] := by
  unfold next at h
  split at h
  · split at h
    · obtain rfl := Option.some.inj h
      exact (List.append_assoc _ _ _).symm
    · cases h
  · split at h
    · rename_i hch
      split at h
      · split at h
        · cases h
        · rename_i hdigits hafter
          obtain rfl := Option.some.inj h
          unfold text
          rw [hdigits, hch, Option.not_isSome_iff_eq_none.mp hafter]
          simp only [Option.elim, closed, List.flatMap_nil, List.append_nil]
      · split at h
        · obtain rfl := Option.some.inj h
          rw [hch]
          exact text_addGroup p
        · cases h
    · cases h

/-- The scanner does what is said about the groups it has read. -/
theorem exec_state (p : Parsed) (t : List Char) :
    Transition.exec Scan.step p.state t = (Transition.exec next p t).map state := by
  induction t generalizing p with
  | nil => rfl
  | cons ch t ih =>
    unfold Transition.exec
    rw [step_state]
    cases p.next ch with
    | none => rfl
    | some q => exact ih q

theorem exec_valid (hv : p.Valid) (h : Transition.exec next p t = some q) :
    q.Valid ∧ q.text = p.text ++ t := by
  induction t generalizing p with
  | nil =>
    obtain rfl := Option.some.inj h
    exact ⟨hv, (List.append_nil _).symm⟩
  | cons ch t ih =>
    obtain ⟨r, hr, hrest⟩ := Transition.exec_cons_eq_some.mp h
    obtain ⟨hq, htext⟩ := ih (next_valid hv hr) hrest
    refine ⟨hq, ?_⟩
    rw [htext, next_text hr, List.append_assoc]
    rfl

theorem exec_digits {ds : List Char} (hds : ∀ ch ∈ ds, (xdigit ch).isSome)
    (hlen : p.digits.length + ds.length ≤ 4) :
    Transition.exec next p ds = some { p with digits := p.digits ++ ds } := by
  induction ds generalizing p with
  | nil => rw [List.append_nil]; rfl
  | cons ch ds ih =>
    rw [List.length_cons] at hlen
    have hone : p.next ch = some { p with digits := p.digits ++ [ch] } := by
      unfold next
      rw [if_pos (hds ch List.mem_cons_self), if_pos (by omega)]
    unfold Transition.exec
    rw [hone, Option.bind_some, ih (fun c hc => hds c (List.mem_cons_of_mem ch hc)),
      List.append_assoc]
    · rfl
    · rw [List.length_append, List.length_singleton]
      omega

theorem exec_group (hg : IsGroup g) (hdigits : p.digits = []) (hlt : p.groups.length < 8) :
    Transition.exec next p (g ++ [':']) = some (p.addGroup g) := by
  have hcolon : ({ p with digits := g } : Parsed).next ':' = some (p.addGroup g) := by
    have hne : g ≠ [] := List.length_pos_iff.mp hg.pos
    unfold next
    rw [xdigit_colon, if_neg (show ¬ (none : Option Nat).isSome = true from Bool.false_ne_true),
      if_pos rfl, if_neg hne]
    exact if_pos hlt
  refine Transition.exec_append.mpr ⟨{ p with digits := g }, ?_, ?_⟩
  · rw [exec_digits hg.digits (by rw [hdigits]; exact (Nat.zero_add _).trans_le hg.le), hdigits]
    rfl
  · exact Transition.exec_cons_eq_some.mpr ⟨_, hcolon, rfl⟩

def addGroups (p : Parsed) (gs : List (List Char)) : Parsed := gs.foldl addGroup p

theorem exec_groups {gs : List (List Char)} (hgs : ∀ g ∈ gs, IsGroup g) (hdigits : p.digits = [])
    (hle : p.groups.length + gs.length ≤ 8) :
    Transition.exec next p (closed gs) = some (p.addGroups gs) := by
  induction gs generalizing p with
  | nil => rfl
  | cons g gs ih =>
    rw [List.length_cons] at hle
    refine Transition.exec_append.mpr ⟨p.addGroup g, ?_, ?_⟩
    · exact exec_group (hgs g List.mem_cons_self) hdigits (by omega)
    · apply ih (fun c hc => hgs c (List.mem_cons_of_mem g hc))
      · unfold addGroup
        cases p.after <;> rfl
      · rw [groups_addGroup, List.length_append, List.length_singleton]
        omega

theorem addGroups_before (bs gs : List (List Char)) :
    ({ before := bs } : Parsed).addGroups gs = { before := bs ++ gs } := by
  induction gs generalizing bs with
  | nil => rw [List.append_nil]; rfl
  | cons g gs ih =>
    refine (ih (bs ++ [g])).trans ?_
    rw [List.append_assoc]
    rfl

theorem addGroups_after (bs rs gs : List (List Char)) :
    ({ before := bs, after := some rs } : Parsed).addGroups gs =
      { before := bs, after := some (rs ++ gs) } := by
  induction gs generalizing rs with
  | nil => rw [List.append_nil]; rfl
  | cons g gs ih =>
    refine (ih (rs ++ [g])).trans ?_
    rw [List.append_assoc]
    rfl

/-- What is valid is read from its own text. -/
theorem exec_text (hv : p.Valid) : Transition.exec next {} p.text = some p := by
  rcases p with ⟨before, after, digits⟩
  have hcount := hv.count
  rw [groups, List.length_append] at hcount
  change before.length + (after.getD []).length ≤ 8 at hcount
  have hbefore : Transition.exec next {} (closed before) = some { before } := by
    rw [exec_groups hv.before rfl (by change 0 + before.length ≤ 8; omega), addGroups_before]
    rfl
  refine Transition.exec_append.mpr ⟨{ before, after }, ?_, exec_digits hv.digits ?_⟩
  · refine Transition.exec_append.mpr ⟨{ before }, hbefore, ?_⟩
    cases after with
    | none => rfl
    | some rs =>
      refine Transition.exec_cons_eq_some.mpr ⟨{ before, after := some [] }, ?_, ?_⟩
      · unfold next
        rw [xdigit_colon]
        rfl
      · rw [exec_groups (hv.after rs rfl) rfl, addGroups_after]
        · rfl
        · rw [groups, Option.getD_some, List.append_nil]
          exact hcount
  · exact (Nat.zero_add _).trans_le hv.length

/-! ### The end of the text -/

/-- The group that has begun is ended. -/
def close (p : Parsed) : Option Parsed :=
  if p.digits = [] then some p
  else if p.groups.length < 8 then some (p.addGroup p.digits) else none

/-- The bytes of the groups, with zeros at the double colon. -/
def bytes (p : Parsed) : Option (List UInt8) :=
  match p.after with
  | none => if p.groups.length = 8 then some (p.before.flatMap groupBytes) else none
  | some rs =>
    if p.groups.length = 8 then none
    else some (p.before.flatMap groupBytes ++ zeros (16 - 2 * (p.before.length + rs.length)) ++
      rs.flatMap groupBytes)

end Parsed

theorem set_at (xs ys : List UInt8) (a b : UInt8) :
    (xs ++ a :: ys).set xs.length b = xs ++ b :: ys := by
  rw [List.set_append_right _ _ (Nat.le_refl _), Nat.sub_self]
  rfl

theorem getD_at (xs ys : List UInt8) (a : UInt8) : (xs ++ a :: ys).getD xs.length 0 = a := by
  rw [List.getD_eq_getElem?_getD, List.getElem?_append_right (Nat.le_refl _), Nat.sub_self]
  rfl

/-- The bytes `mid` in front of the zeros are moved behind them, after `ys.length` others. -/
theorem foldl_moveByte {pre mid ys : List UInt8} {z : Nat} (hz : 0 < z)
    (hlen : pre.length + mid.length + z + ys.length = 16) :
    (List.range' (ys.length + 1) mid.length).foldl
        (Scan.moveByte pre.length (mid.length + ys.length)) (pre ++ mid ++ zeros z ++ ys) =
      pre ++ zeros z ++ mid ++ ys := by
  induction mid using List.reverseRecOn generalizing ys with
  | nil => simp only [List.append_nil, List.length_nil, List.range'_zero, List.foldl_nil]
  | append_singleton mid x ih =>
    rw [List.length_append, List.length_singleton] at hlen
    obtain ⟨z, rfl⟩ : ∃ y, z = y + 1 := ⟨z - 1, by omega⟩
    have hzeros (l : List UInt8) : zeros (z + 1) ++ l = zeros z ++ 0 :: l := by
      unfold zeros
      rw [List.replicate_succ', List.append_assoc]
      rfl
    have hmove : Scan.moveByte pre.length (mid.length + 1 + ys.length)
        (pre ++ (mid ++ [x]) ++ zeros (z + 1) ++ ys) (ys.length + 1) =
        pre ++ mid ++ zeros (z + 1) ++ (x :: ys) := by
      have hsource : pre.length + (mid.length + 1 + ys.length - (ys.length + 1)) =
          (pre ++ mid).length := by
        rw [List.length_append]
        omega
      have htarget : 16 - (ys.length + 1) = (pre ++ mid ++ x :: zeros z).length := by
        simp only [List.length_append, List.length_cons, zeros, List.length_replicate]
        omega
      have hlist : pre ++ (mid ++ [x]) ++ zeros (z + 1) ++ ys =
          (pre ++ mid) ++ x :: (zeros (z + 1) ++ ys) := by
        simp only [List.append_assoc, List.cons_append, List.nil_append]
      have hsplit : (pre ++ mid) ++ x :: (zeros (z + 1) ++ ys) =
          (pre ++ mid ++ x :: zeros z) ++ 0 :: ys := by
        rw [hzeros]
        simp only [List.append_assoc, List.cons_append]
      unfold Scan.moveByte
      rw [hsource, htarget, hlist, getD_at, hsplit, set_at]
      have hback : (pre ++ mid ++ x :: zeros z) ++ x :: ys =
          (pre ++ mid) ++ x :: (zeros z ++ x :: ys) := by
        simp only [List.append_assoc, List.cons_append]
      rw [hback, set_at, List.append_assoc (pre ++ mid)]
      rfl
    rw [List.length_append, List.length_singleton, List.range'_succ, List.foldl_cons, hmove]
    have hrest := @ih (x :: ys) (by rw [List.length_cons]; omega)
    rw [List.length_cons, Nat.add_comm ys.length 1, ← Nat.add_assoc] at hrest
    rw [Nat.add_comm ys.length 1, hrest]
    simp only [List.append_assoc, List.cons_append, List.nil_append]

namespace Parsed

theorem shift_state (hcount : p.groups.length ≤ 8) : p.state.shift = p.bytes := by
  rcases p with ⟨before, after, digits⟩
  cases after with
  | none =>
    have hgroups : groups ⟨before, none, digits⟩ = before := List.append_nil before
    rw [bytes, Scan.shift, hgroups]
    change (if 2 * (groups ⟨before, none, digits⟩).length = 16 then some (state _).tmp else none) = _
    by_cases hlen : before.length = 8
    · rw [hgroups, if_pos (by omega), if_pos hlen, state, hgroups, hlen]
      exact congrArg some (List.append_nil _)
    · rw [hgroups, if_neg (by omega), if_neg hlen]
  | some rs =>
    have hgroups : groups ⟨before, some rs, digits⟩ = before ++ rs := rfl
    rw [hgroups, List.length_append] at hcount
    have hlen : (before ++ rs).length = before.length + rs.length := List.length_append
    rw [bytes, Scan.shift]
    simp only [state, hgroups, hlen, Option.map_some]
    by_cases hfull : before.length + rs.length = 8
    · rw [if_pos (by omega), if_pos hfull]
    · rw [if_neg (by omega), if_neg hfull]
      have hmove := @foldl_moveByte (before.flatMap groupBytes) (rs.flatMap groupBytes) []
        (16 - 2 * (before.length + rs.length)) (by omega) (by
          rw [length_flatMap_groupBytes, length_flatMap_groupBytes, List.length_nil]
          omega)
      simp only [length_flatMap_groupBytes, List.length_nil, Nat.add_zero, List.append_nil,
        Nat.zero_add] at hmove
      have hn : 2 * (before.length + rs.length) - 2 * before.length = 2 * rs.length := by omega
      rw [hn, List.flatMap_append, hmove]

theorem finish_state (hcount : p.groups.length ≤ 8) : p.state.finish = p.close.bind bytes := by
  unfold Scan.finish close
  change (if p.digits.length = 0 then some p.state else p.state.store).bind Scan.shift = _
  by_cases hdigits : p.digits = []
  · rw [if_pos hdigits, if_pos (List.length_eq_zero_iff.mpr hdigits)]
    exact shift_state hcount
  · rw [if_neg hdigits, if_neg (mt List.length_eq_zero_iff.mp hdigits), store_state]
    by_cases hlt : p.groups.length < 8
    · rw [if_pos hlt, if_pos hlt, Option.bind_some, Option.bind_some, ← shift_state]
      · rfl
      · rw [groups_addGroup, List.length_append]
        exact hlt
    · rw [if_neg hlt, if_neg hlt]
      rfl

/-! ### Texts -/

/-- The text with the first colon of a double colon at its start. -/
def fullText (p : Parsed) : List Char :=
  (if p.before = [] ∧ p.after.isSome then [':'] else []) ++ p.text

theorem scan_text (hv : p.Valid) : scan p.text = p.close.bind bytes := by
  have hexec := exec_state {} p.text
  rw [exec_text hv, Option.map_some] at hexec
  unfold scan
  rw [show ({} : Scan) = state {} from rfl, hexec, Option.bind_some, finish_state hv.count]

theorem valid_empty : Valid {} :=
  ⟨fun g hg => (by cases hg), fun rs hrs => (by cases hrs), Nat.zero_le _, Nat.zero_le _,
    fun c hc => by cases hc⟩

/-- What is accepted is the text of what was read. -/
theorem scan_spec {b : List UInt8} (h : scan t = some b) :
    ∃ p : Parsed, p.Valid ∧ p.text = t ∧ p.close.bind bytes = some b := by
  obtain ⟨s, hs, hfinish⟩ := Option.bind_eq_some_iff.mp h
  rw [show ({} : Scan) = state {} from rfl, exec_state] at hs
  obtain ⟨p, hp, rfl⟩ := Option.map_eq_some_iff.mp hs
  obtain ⟨hv, htext⟩ := exec_valid valid_empty hp
  rw [finish_state hv.count] at hfinish
  exact ⟨p, hv, htext, hfinish⟩

/-- Only a text that begins with the double colon begins with a colon. -/
theorem head?_text (hv : p.Valid) : p.text.head? = some ':' ↔ p.before = [] ∧ p.after.isSome := by
  have hdigits {g : List Char} (hg : ∀ ch ∈ g, (xdigit ch).isSome) : g.head? ≠ some ':' := by
    intro hhead
    exact ne_colon (hg ':' (List.mem_of_mem_head? hhead)) rfl
  rcases p with ⟨before, after, digits⟩
  cases before with
  | nil =>
    cases after with
    | none => exact iff_of_false (hdigits hv.digits) fun h => by cases h.2
    | some rs => exact iff_of_true rfl ⟨rfl, rfl⟩
  | cons g gs =>
    refine iff_of_false ?_ fun h => by cases h.1
    have hg := hv.before g List.mem_cons_self
    have hpos := hg.pos
    cases g with
    | nil => cases hpos
    | cons ch g =>
      intro hhead
      exact ne_colon (hg.digits ch List.mem_cons_self) (Option.some.inj hhead)

theorem parse_of_head (h : t.head? ≠ some ':') : parse t = scan t := by
  unfold parse
  split
  · exact absurd rfl h
  · rfl

theorem parse_fullText (hv : p.Valid) : parse p.fullText = p.close.bind bytes := by
  have hhead := head?_text hv
  unfold fullText
  by_cases h : p.before = [] ∧ p.after.isSome
  · rw [if_pos h]
    change (if p.text.head? = some ':' then scan p.text else none) = _
    rw [if_pos (hhead.mpr h), scan_text hv]
  · rw [if_neg h, List.nil_append, parse_of_head (mt hhead.mp h), scan_text hv]

theorem parse_spec {b : List UInt8} (h : parse t = some b) :
    ∃ p : Parsed, p.Valid ∧ p.fullText = t ∧ p.close.bind bytes = some b := by
  unfold parse at h
  split at h
  · split at h
    · rename_i rest hhead
      obtain ⟨p, hv, rfl, hbytes⟩ := scan_spec h
      refine ⟨p, hv, ?_, hbytes⟩
      unfold fullText
      rw [if_pos ((head?_text hv).mp hhead)]
      rfl
    · cases h
  · rename_i hnot
    obtain ⟨p, hv, rfl, hbytes⟩ := scan_spec h
    refine ⟨p, hv, ?_, hbytes⟩
    unfold fullText
    rw [if_neg, List.nil_append]
    intro hcolon
    obtain ⟨rest, hrest⟩ := List.head?_eq_some_iff.mp ((head?_text hv).mpr hcolon)
    exact hnot rest hrest

end Parsed

/-! ### What is accepted -/

/-- The text of the grammar ends in a group. -/
def EndsInGroup (t : List Char) : Prop := t.getLast? ≠ some ':'

theorem join_append_singleton (gs : List (List Char)) (g : List Char) :
    join (gs ++ [g]) = Parsed.closed gs ++ g := by
  induction gs with
  | nil => exact List.intercalate_singleton
  | cons g' gs ih =>
    have hne : gs ++ [g] ≠ [] := List.append_ne_nil_of_right_ne_nil _ (List.cons_ne_nil g [])
    unfold join at ih ⊢
    have hclosed : Parsed.closed (g' :: gs) = g' ++ [':'] ++ Parsed.closed gs := List.flatMap_cons
    rw [List.cons_append, List.intercalate_cons_of_ne_nil hne, ih, hclosed]
    exact (List.append_assoc _ _ _).symm

theorem closed_eq_join {gs : List (List Char)} (h : gs ≠ []) :
    Parsed.closed gs = join gs ++ [':'] := by
  rcases List.eq_nil_or_concat gs with rfl | ⟨bs, g, rfl⟩
  · exact absurd rfl h
  · rw [List.concat_eq_append, Parsed.closed_append_singleton, join_append_singleton]

theorem fullText_before (before : List (List Char)) (digits : List Char) :
    (Parsed.mk before none digits).fullText = Parsed.closed before ++ digits := by
  have hnot : ¬ (before = [] ∧ (none : Option (List (List Char))).isSome) := fun h => by cases h.2
  unfold Parsed.fullText Parsed.text
  rw [if_neg hnot]
  change Parsed.closed before ++ [] ++ digits = _
  rw [List.append_nil]

theorem fullText_after (before rs : List (List Char)) (digits : List Char) :
    (Parsed.mk before (some rs) digits).fullText =
      join before ++ [':', ':'] ++ (Parsed.closed rs ++ digits) := by
  unfold Parsed.fullText Parsed.text
  by_cases h : before = []
  · rw [h, if_pos ⟨rfl, rfl⟩]
    rfl
  · rw [if_neg fun hnil => h hnil.1]
    change Parsed.closed before ++ ':' :: Parsed.closed rs ++ digits = _
    rw [closed_eq_join h]
    simp only [List.append_assoc, List.cons_append, List.nil_append]

theorem endsInGroup_append (xs : List Char) (hg : IsGroup g) : EndsInGroup (xs ++ g) := by
  have hne : g ≠ [] := List.length_pos_iff.mp hg.pos
  unfold EndsInGroup
  rw [List.getLast?_append_of_ne_nil _ hne]
  intro hlast
  exact ne_colon (hg.digits ':' (List.mem_of_getLast? hlast)) rfl

theorem endsInGroup_join (xs : List Char) {gs : List (List Char)} (hgs : ∀ g ∈ gs, IsGroup g)
    (hne : gs ≠ []) : EndsInGroup (xs ++ join gs) := by
  rcases List.eq_nil_or_concat gs with rfl | ⟨bs, g, rfl⟩
  · exact absurd rfl hne
  · rw [List.concat_eq_append] at hgs ⊢
    rw [join_append_singleton, ← List.append_assoc]
    exact endsInGroup_append _ (hgs g (List.mem_append_right _ List.mem_cons_self))

theorem bytes_before {b : List UInt8} {before : List (List Char)} {digits : List Char} :
    (Parsed.mk before none digits).bytes = some b ↔
      before.length = 8 ∧ before.flatMap groupBytes = b := by
  have hgroups : (Parsed.mk before none digits).groups = before := List.append_nil before
  unfold Parsed.bytes
  rw [hgroups, Option.ite_none_right_eq_some, Option.some_inj]

theorem bytes_after {b : List UInt8} {before rs : List (List Char)} {digits : List Char} :
    (Parsed.mk before (some rs) digits).bytes = some b ↔ before.length + rs.length ≠ 8 ∧
      before.flatMap groupBytes ++ zeros (16 - 2 * (before.length + rs.length)) ++
        rs.flatMap groupBytes = b := by
  have hlen : (Parsed.mk before (some rs) digits).groups.length = before.length + rs.length :=
    List.length_append
  unfold Parsed.bytes
  rw [hlen, Option.ite_none_left_eq_some, Option.some_inj]

/-- What has been read denotes its bytes; a group that was closed by a colon at the end is not
told from one that was not. -/
theorem denotes_of_close {b : List UInt8} (hv : p.Valid) (hq : p.close = some q)
    (hb : q.bytes = some b) : Denotes p.fullText b ∨
      ∃ w, EndsInGroup w ∧ Denotes w b ∧ p.fullText = w ++ [':'] := by
  rcases p with ⟨before, after, digits⟩
  have hcount := hv.count
  by_cases hdigits : digits = []
  · obtain rfl : ⟨before, after, digits⟩ = q := by
      rw [Parsed.close, if_pos hdigits] at hq
      exact Option.some.inj hq
    subst hdigits
    cases after with
    | none =>
      right
      obtain ⟨hlen, rfl⟩ := bytes_before.mp hb
      have hne : before ≠ [] := by
        rintro rfl
        cases hlen
      refine ⟨join before, endsInGroup_join [] hv.before hne, .plain before hlen hv.before, ?_⟩
      rw [fullText_before, closed_eq_join hne, List.append_nil]
    | some rs =>
      obtain ⟨hlen, rfl⟩ := bytes_after.mp hb
      have hrs := hv.after rs rfl
      rw [Parsed.groups, List.length_append, Option.getD_some] at hcount
      have hdenotes := Denotes.compressed before rs (Nat.lt_of_le_of_ne hcount hlen) hv.before hrs
      rw [fullText_after, List.append_nil]
      by_cases hnil : rs = []
      · left
        subst hnil
        exact hdenotes
      · right
        refine ⟨_, endsInGroup_join _ hrs hnil, hdenotes, ?_⟩
        rw [closed_eq_join hnil, List.append_assoc _ (join rs)]
  · left
    rw [Parsed.close, if_neg hdigits, Option.ite_none_right_eq_some] at hq
    obtain ⟨hlt, hq⟩ := hq
    obtain rfl := Option.some.inj hq
    have hvalid := hv.addGroup hlt hdigits
    have hcount' := hvalid.count
    cases after with
    | none =>
      obtain ⟨hlen, rfl⟩ := bytes_before.mp hb
      rw [fullText_before, ← join_append_singleton]
      exact .plain _ hlen hvalid.before
    | some rs =>
      obtain ⟨hlen, rfl⟩ := bytes_after.mp hb
      rw [Parsed.groups, List.length_append] at hcount'
      rw [fullText_after, ← join_append_singleton]
      exact .compressed before (rs ++ [digits]) (Nat.lt_of_le_of_ne hcount' hlen) hv.before
        (hvalid.after _ rfl)

theorem Parsed.valid_closed {before : List (List Char)} {after : Option (List (List Char))}
    (hbefore : ∀ g ∈ before, IsGroup g) (hafter : ∀ rs ∈ after, ∀ g ∈ rs, IsGroup g)
    (hcount : before.length + (after.getD []).length ≤ 8) : (Parsed.mk before after []).Valid where
  before := hbefore
  after := hafter
  count := by
    rw [groups, List.length_append]
    exact hcount
  length := Nat.zero_le _
  digits := fun ch hch => by cases hch

theorem Parsed.valid_digits {before : List (List Char)} {after : Option (List (List Char))}
    (h : (Parsed.mk before after []).Valid) (hg : IsGroup g) : (Parsed.mk before after g).Valid where
  before := h.before
  after := h.after
  count := h.count
  length := hg.le
  digits := hg.digits

/-- A group at the end of what is read. -/
theorem Parsed.close_group {before : List (List Char)} {after : Option (List (List Char))}
    (hg : IsGroup g) (hlt : (Parsed.mk before after []).groups.length < 8) :
    (Parsed.mk before after g).close = some ((Parsed.mk before after []).addGroup g) := by
  have hne : g ≠ [] := List.length_pos_iff.mp hg.pos
  unfold close
  rw [if_neg hne]
  exact if_pos hlt

/-- A text of the grammar is read, also with one more colon when it ends in a group. -/
theorem parse_of_denotes {b : List UInt8} (h : Denotes t b) :
    parse t = some b ∧ (EndsInGroup t → parse (t ++ [':']) = some b) := by
  cases h with
  | plain gs hlen hgs =>
    have hclosed : (Parsed.mk gs none []).Valid :=
      Parsed.valid_closed hgs (fun rs hrs => by cases hrs) hlen.le
    have hbytes : (Parsed.mk gs none []).bytes = some (gs.flatMap groupBytes) :=
      bytes_before.mpr ⟨hlen, rfl⟩
    rcases List.eq_nil_or_concat gs with rfl | ⟨bs, g, rfl⟩
    · cases hlen
    rw [List.concat_eq_append] at *
    constructor
    · rw [List.length_append, List.length_singleton] at hlen
      have hg : IsGroup g := hgs g (List.mem_append_right _ List.mem_cons_self)
      have hbs : (Parsed.mk bs none []).Valid :=
        Parsed.valid_closed (fun c hc => hgs c (List.mem_append_left _ hc))
          (fun rs hrs => by cases hrs) (by change bs.length + 0 ≤ 8; omega)
      have hparse := Parsed.parse_fullText (Parsed.valid_digits hbs hg)
      rw [Parsed.close_group hg, Option.bind_some, fullText_before,
        ← join_append_singleton] at hparse
      · exact hparse.trans hbytes
      · rw [Parsed.groups, List.length_append]
        change bs.length + 0 < 8
        omega
    · intro hends
      have hparse := Parsed.parse_fullText hclosed
      rw [fullText_before, closed_eq_join, List.append_nil] at hparse
      · exact hparse.trans hbytes
      · exact List.append_ne_nil_of_right_ne_nil _ (List.cons_ne_nil g [])
  | compressed ls rs hlen hls hrs =>
    have hclosed : (Parsed.mk ls (some rs) []).Valid :=
      Parsed.valid_closed hls (fun rs' hrs' => Option.some.inj hrs' ▸ hrs) hlen.le
    have hbytes := (@bytes_after _ ls rs []).mpr ⟨hlen.ne, rfl⟩
    have hparse := Parsed.parse_fullText hclosed
    rw [fullText_after, List.append_nil] at hparse
    rcases List.eq_nil_or_concat rs with rfl | ⟨rs', g, rfl⟩
    · refine ⟨hparse.trans hbytes, fun hends => absurd ?_ hends⟩
      rw [show join [] = ([] : List Char) from rfl, List.append_nil]
      exact List.getLast?_append_of_ne_nil _ (List.cons_ne_nil ':' [':'])
    rw [List.concat_eq_append] at *
    constructor
    · rw [List.length_append, List.length_singleton] at hlen
      have hg : IsGroup g := hrs g (List.mem_append_right _ List.mem_cons_self)
      have hfewer : (Parsed.mk ls (some rs') []).Valid :=
        Parsed.valid_closed hls (fun rs hrs' c hc =>
          hrs c (List.mem_append_left _ (Option.some.inj hrs' ▸ hc)))
          (by change ls.length + rs'.length ≤ 8; omega)
      have hgroup := Parsed.parse_fullText (Parsed.valid_digits hfewer hg)
      rw [Parsed.close_group hg, Option.bind_some, fullText_after,
        ← join_append_singleton] at hgroup
      · exact hgroup.trans hbytes
      · rw [Parsed.groups, List.length_append]
        change ls.length + rs'.length < 8
        omega
    · intro hends
      have hne : rs' ++ [g] ≠ [] := List.append_ne_nil_of_right_ne_nil _ (List.cons_ne_nil g [])
      rw [closed_eq_join hne, ← List.append_assoc] at hparse
      exact hparse.trans hbytes

/-- What is accepted: the texts of the grammar, and those that end in a group with a colon more. -/
theorem parse_iff {b : List UInt8} : parse t = some b ↔
    Denotes t b ∨ ∃ w, EndsInGroup w ∧ Denotes w b ∧ t = w ++ [':'] := by
  constructor
  · intro h
    obtain ⟨p, hv, rfl, hbytes⟩ := Parsed.parse_spec h
    obtain ⟨q, hq, hb⟩ := Option.bind_eq_some_iff.mp hbytes
    exact denotes_of_close hv hq hb
  · rintro (h | ⟨w, hw, hdenotes, rfl⟩)
    · exact (parse_of_denotes h).1
    · exact (parse_of_denotes hdenotes).2 hw

/-- A text with a single colon at its end is not one of the grammar. -/
theorem not_denotes_colon {b : List UInt8} {w : List Char} (hw : EndsInGroup w) :
    ¬ Denotes (w ++ [':']) b := by
  have hlast : ¬ EndsInGroup (w ++ [':']) := fun h => h List.getLast?_concat
  intro h
  generalize ht : w ++ [':'] = t at h hlast
  cases h with
  | plain gs hlen hgs =>
    apply hlast
    apply endsInGroup_join [] hgs
    rintro rfl
    cases hlen
  | compressed ls rs hlen hls hrs =>
    by_cases hnil : rs = []
    · subst hnil
      have hjoin : join ls ++ [':', ':'] ++ join [] = (join ls ++ [':']) ++ [':'] := by
        rw [List.append_assoc (join ls) [':']]
        exact List.append_nil _
      rw [hjoin] at ht
      obtain ⟨rfl, -⟩ := List.append_inj' ht rfl
      exact hw List.getLast?_concat
    · exact hlast (endsInGroup_join _ hrs hnil)

/-- Only hexadecimal digits and colons are read. -/
theorem chars_of_parse {b : List UInt8} (h : parse t = some b) :
    ∀ ch ∈ t, (xdigit ch).isSome ∨ ch = ':' := by
  have hexec {s s' : Scan} {t : List Char} (hs : Transition.exec Scan.step s t = some s') :
      ∀ ch ∈ t, (xdigit ch).isSome ∨ ch = ':' := by
    induction t generalizing s with
    | nil =>
      intro ch hch
      cases hch
    | cons c t ih =>
      obtain ⟨r, hr, hrest⟩ := Transition.exec_cons_eq_some.mp hs
      intro ch hch
      rcases List.mem_cons.mp hch with rfl | hch
      · unfold Scan.step at hr
        split at hr
        · rename_i hd
          exact Or.inl (Option.isSome_of_eq_some hd)
        · split at hr
          · rename_i hcolon
            exact Or.inr hcolon
          · cases hr
      · exact ih hrest ch hch
  have hscan {t : List Char} (h : scan t = some b) : ∀ ch ∈ t, (xdigit ch).isSome ∨ ch = ':' := by
    obtain ⟨s, hs, -⟩ := Option.bind_eq_some_iff.mp h
    exact hexec hs
  unfold parse at h
  split at h
  · split at h
    · intro ch hch
      rcases List.mem_cons.mp hch with rfl | hch
      · exact Or.inr rfl
      · exact hscan h ch hch
    · cases h
  · exact hscan h

/-- The text is accepted just when it is one of the grammar, with the bytes it denotes; else the
output is left alone. -/
def Exact (text : List Char) : Prop :=
  ∀ addr, ((asciiToIpv6Host text addr).1 = true ↔ ∃ b, Denotes text b) ∧
    (∀ b, Denotes text b → (asciiToIpv6Host text addr).2 = b) ∧
    ((asciiToIpv6Host text addr).1 = false → (asciiToIpv6Host text addr).2 = addr)

theorem exact_iff (text : List Char) : Exact text ↔
    ¬ ∃ w b, EndsInGroup w ∧ Denotes w b ∧ text = w ++ [':'] := by
  constructor
  · rintro hexact ⟨w, b, hw, hdenotes, rfl⟩
    have haccepted : (asciiToIpv6Host (w ++ [':']) []).1 = true := by
      unfold asciiToIpv6Host
      rw [parse_iff.mpr (Or.inr ⟨w, hw, hdenotes, rfl⟩)]
    obtain ⟨b', hb'⟩ := (hexact []).1.mp haccepted
    exact not_denotes_colon hw hb'
  · intro hnone addr
    unfold asciiToIpv6Host
    cases hparse : parse text with
    | some b =>
      have hdenotes : Denotes text b := by
        rcases parse_iff.mp hparse with h | ⟨w, hw, hdenotes, rfl⟩
        · exact h
        · exact absurd ⟨w, b, hw, hdenotes, rfl⟩ hnone
      refine ⟨iff_of_true rfl ⟨b, hdenotes⟩, ?_, fun h => by cases h⟩
      intro b' hb'
      exact Option.some.inj (hparse.symm.trans (parse_iff.mpr (Or.inl hb')))
    | none =>
      have hnot (b : List UInt8) (hb : Denotes text b) : False :=
        Option.some_ne_none _ ((parse_iff.mpr (Or.inl hb)).symm.trans hparse)
      refine ⟨iff_of_false Bool.false_ne_true ?_, fun b hb => (hnot b hb).elim, fun _ => rfl⟩
      rintro ⟨b, hb⟩
      exact hnot b hb

end

end CudaNs3.Network.Ipv6Text
