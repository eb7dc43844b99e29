import CudaNs3.Lib.Words
import Mathlib.Tactic.Ring

/-!
# Shifting a row of bytes

A number in a row of bytes, the most significant byte first, is shifted to the left and to the
right byte by byte, counted up with a carry, and joined with another one.
-/

namespace ByteShifts

set_option autoImplicit false

/-- Each byte is shifted to the left and takes the highest bits of the next one. -/
def shiftUp (b : Nat) : List UInt8 → List UInt8
  | [] => []
  | [x] => [UInt8.ofNat (x.toNat <<< b)]
  | x :: y :: rest =>
    (UInt8.ofNat (x.toNat <<< b) ||| UInt8.ofNat (y.toNat >>> (8 - b))) :: shiftUp b (y :: rest)

/-- A byte shifted to the right, with the lowest bits of the one before it. -/
def joinDown (b : Nat) (before x : UInt8) : UInt8 :=
  UInt8.ofNat (x.toNat >>> b) ||| UInt8.ofNat (before.toNat <<< (8 - b))

/-- Each byte is shifted to the right and takes the lowest bits of the one before it. -/
def shiftDown (b : Nat) : UInt8 → List UInt8 → List UInt8
  | _, [] => []
  | before, x :: rest => joinDown b before x :: shiftDown b x rest

/-- Counts up from the last byte, the lowest of the reversed row, as long as there is a carry. -/
def carryUp : List UInt8 → List UInt8
  | [] => []
  | x :: rest => if x < 0xff then (x + 1) :: rest else (x + 1) :: carryUp rest

def increment (bs : List UInt8) : List UInt8 := (carryUp bs.reverse).reverse

variable {a b m : Nat} {x y before : UInt8} {bs cs : List UInt8}

theorem ofBytes_append (bs cs : List UInt8) :
    Words.ofBytes (bs ++ cs) = Words.ofBytes bs * 256 ^ cs.length + Words.ofBytes cs := by
  induction cs using List.reverseRecOn with
  | nil => simp [Words.ofBytes]
  | append_singleton cs c ih =>
    rw [← List.append_assoc, Words.ofBytes_append_singleton, Words.ofBytes_append_singleton, ih,
      List.length_append, List.length_singleton, Nat.pow_succ]
    ring

theorem ofBytes_cons (x : UInt8) (bs : List UInt8) :
    Words.ofBytes (x :: bs) = x.toNat * 256 ^ bs.length + Words.ofBytes bs := by
  have happend := ofBytes_append [x] bs
  have hone : Words.ofBytes [x] = x.toNat := Nat.zero_add _
  rwa [hone] at happend

theorem ofBytes_replicate_zero (n : Nat) : Words.ofBytes (List.replicate n 0) = 0 := by
  induction n with
  | zero => rfl
  | succ n ih => rw [List.replicate_succ, ofBytes_cons, ih, UInt8.toNat_zero, Nat.zero_mul]

theorem two_pow_split (hb : b ≤ 8) : 2 ^ (8 - b) * 2 ^ b = 256 := by
  rw [← Nat.pow_add, Nat.sub_add_cancel hb]

/-! ### Bytes side by side -/

/-- A number below `2 ^ b` in the place that a shift by `b` has left free. -/
theorem shift_or (hb : b ≤ 8) (n : Nat) (hm : m < 2 ^ b) :
    (UInt8.ofNat (n <<< b) ||| UInt8.ofNat m).toNat = n % 2 ^ (8 - b) * 2 ^ b + m := by
  have hle : 2 ^ b ≤ 256 := Nat.pow_le_pow_right (by decide) hb
  have hhigh : (n <<< b) % 2 ^ 8 = (n % 2 ^ (8 - b)) <<< b := by
    rw [Nat.shiftLeft_eq, Nat.shiftLeft_eq, ← Nat.mul_mod_mul_right, two_pow_split hb]
    rfl
  rw [UInt8.toNat_or, UInt8.toNat_ofNat', UInt8.toNat_ofNat', hhigh,
    Nat.mod_eq_of_lt (show m < 2 ^ 8 by omega), ← Nat.shiftLeft_add_eq_or_of_lt hm, Nat.shiftLeft_eq]

theorem shift_toNat (hb : b ≤ 8) (n : Nat) :
    (UInt8.ofNat (n <<< b)).toNat = n % 2 ^ (8 - b) * 2 ^ b := by
  rw [UInt8.toNat_ofNat', Nat.shiftLeft_eq, ← Nat.mul_mod_mul_right, two_pow_split hb]

theorem high_lt (hb : b ≤ 8) (y : UInt8) : y.toNat >>> (8 - b) < 2 ^ b := by
  rw [Nat.shiftRight_eq_div_pow]
  apply Nat.div_lt_of_lt_mul
  rw [two_pow_split hb]
  exact y.toNat_lt

theorem joinDown_toNat (hb : b ≤ 8) :
    (joinDown b before x).toNat = before.toNat % 2 ^ b * 2 ^ (8 - b) + x.toNat / 2 ^ b := by
  have hsub : 8 - (8 - b) = b := by omega
  have hlow := high_lt (Nat.sub_le 8 b) x
  have hjoin := shift_or (Nat.sub_le 8 b) before.toNat hlow
  rw [hsub, Nat.shiftRight_eq_div_pow] at hjoin
  unfold joinDown
  rw [UInt8.or_comm, Nat.shiftRight_eq_div_pow, hjoin]

/-! ### The whole row -/

@[simp] theorem length_shiftUp (b : Nat) (bs : List UInt8) : (shiftUp b bs).length = bs.length := by
  induction bs with
  | nil => rfl
  | cons x rest ih =>
    cases rest with
    | nil => rfl
    | cons y rest => exact congrArg (· + 1) ih

@[simp] theorem length_shiftDown (b : Nat) (before : UInt8) (bs : List UInt8) :
    (shiftDown b before bs).length = bs.length := by
  induction bs generalizing before with
  | nil => rfl
  | cons x rest ih => exact congrArg (· + 1) (ih x)

/-- What is shifted out of the row are the highest bits of its first byte. -/
theorem ofBytes_shiftUp_cons (hb : b ≤ 8) (x : UInt8) (bs : List UInt8) :
    Words.ofBytes (x :: bs) * 2 ^ b =
      x.toNat / 2 ^ (8 - b) * 256 ^ (bs.length + 1) + Words.ofBytes (shiftUp b (x :: bs)) := by
  have hsplit := two_pow_split hb
  have hx := Nat.div_add_mod' x.toNat (2 ^ (8 - b))
  induction bs generalizing x with
  | nil =>
    have hone (z : UInt8) : Words.ofBytes [z] = z.toNat := Nat.zero_add _
    rw [shiftUp, hone, hone, shift_toNat hb]
    calc x.toNat * 2 ^ b
        = (x.toNat / 2 ^ (8 - b) * 2 ^ (8 - b) + x.toNat % 2 ^ (8 - b)) * 2 ^ b := by rw [hx]
      _ = x.toNat / 2 ^ (8 - b) * (2 ^ (8 - b) * 2 ^ b) + x.toNat % 2 ^ (8 - b) * 2 ^ b := by ring
      _ = _ := by rw [hsplit]; rfl
  | cons y rest ih =>
    have hrest := ih y (Nat.div_add_mod' _ _)
    rw [shiftUp, ofBytes_cons, ofBytes_cons _ (shiftUp b (y :: rest)), length_shiftUp,
      shift_or hb _ (high_lt hb y), Nat.shiftRight_eq_div_pow, Nat.add_mul, hrest, List.length_cons]
    calc x.toNat * 256 ^ (rest.length + 1) * 2 ^ b + (y.toNat / 2 ^ (8 - b) *
          256 ^ (rest.length + 1) + Words.ofBytes (shiftUp b (y :: rest)))
        = (x.toNat / 2 ^ (8 - b) * 2 ^ (8 - b) + x.toNat % 2 ^ (8 - b)) *
            256 ^ (rest.length + 1) * 2 ^ b + (y.toNat / 2 ^ (8 - b) *
            256 ^ (rest.length + 1) + Words.ofBytes (shiftUp b (y :: rest))) := by rw [hx]
      _ = x.toNat / 2 ^ (8 - b) * ((2 ^ (8 - b) * 2 ^ b) * 256 ^ (rest.length + 1)) +
            ((x.toNat % 2 ^ (8 - b) * 2 ^ b + y.toNat / 2 ^ (8 - b)) * 256 ^ (rest.length + 1) +
              Words.ofBytes (shiftUp b (y :: rest))) := by ring
      _ = _ := by rw [hsplit, ← Nat.pow_succ']

theorem ofBytes_shiftUp (hb : b ≤ 8) (bs : List UInt8) :
    Words.ofBytes (shiftUp b bs) = Words.ofBytes bs * 2 ^ b % 256 ^ bs.length := by
  cases bs with
  | nil => simp [shiftUp, Words.ofBytes]
  | cons x rest =>
    have hlt := Words.ofBytes_lt (shiftUp b (x :: rest))
    rw [length_shiftUp, List.length_cons] at hlt
    rw [ofBytes_shiftUp_cons hb, List.length_cons, Nat.mul_comm, Nat.mul_add_mod,
      Nat.mod_eq_of_lt hlt]

theorem shiftDown_rest (hb : b ≤ 8) (before : UInt8) (bs : List UInt8) :
    ∃ r < 2 ^ b, before.toNat % 2 ^ b * 256 ^ bs.length + Words.ofBytes bs =
      Words.ofBytes (shiftDown b before bs) * 2 ^ b + r := by
  have hsplit := two_pow_split hb
  induction bs generalizing before with
  | nil => exact ⟨before.toNat % 2 ^ b, Nat.mod_lt _ (Nat.two_pow_pos b), by simp [Words.ofBytes, shiftDown]⟩
  | cons x rest ih =>
    obtain ⟨r, hr, hrest⟩ := ih x
    refine ⟨r, hr, ?_⟩
    rw [shiftDown, ofBytes_cons, ofBytes_cons, joinDown_toNat hb, length_shiftDown, List.length_cons]
    have hx := Nat.div_add_mod' x.toNat (2 ^ b)
    calc before.toNat % 2 ^ b * 256 ^ (rest.length + 1) +
          (x.toNat * 256 ^ rest.length + Words.ofBytes rest)
        = before.toNat % 2 ^ b * 256 ^ (rest.length + 1) +
            ((x.toNat / 2 ^ b * 2 ^ b + x.toNat % 2 ^ b) * 256 ^ rest.length +
              Words.ofBytes rest) := by rw [hx]
      _ = before.toNat % 2 ^ b * 256 ^ (rest.length + 1) + x.toNat / 2 ^ b * 2 ^ b *
            256 ^ rest.length + (x.toNat % 2 ^ b * 256 ^ rest.length + Words.ofBytes rest) := by
          ring
      _ = before.toNat % 2 ^ b * (2 ^ (8 - b) * 2 ^ b) * 256 ^ rest.length +
            x.toNat / 2 ^ b * 2 ^ b * 256 ^ rest.length +
            (Words.ofBytes (shiftDown b x rest) * 2 ^ b + r) := by
          rw [hrest, hsplit, Nat.pow_succ', Nat.mul_assoc _ 256]
      _ = _ := by ring

theorem ofBytes_shiftDown (hb : b ≤ 8) (before : UInt8) (bs : List UInt8) :
    Words.ofBytes (shiftDown b before bs) =
      (before.toNat % 2 ^ b * 256 ^ bs.length + Words.ofBytes bs) / 2 ^ b := by
  obtain ⟨r, hr, heq⟩ := shiftDown_rest hb before bs
  rw [heq, Nat.add_comm, Nat.add_mul_div_right _ _ (Nat.two_pow_pos b), Nat.div_eq_of_lt hr,
    Nat.zero_add]

theorem shiftDown_append_singleton (b : Nat) (before y : UInt8) (bs : List UInt8) :
    shiftDown b before (bs ++ [y]) =
      shiftDown b before bs ++ [joinDown b (bs.getLastD before) y] := by
  induction bs generalizing before with
  | nil => rfl
  | cons x rest ih =>
    rw [List.getLastD_cons]
    exact congrArg (joinDown b before x :: ·) (ih x)

/-! ### Shifts by bytes and bits -/

theorem ofBytes_split (a : Nat) (bs : List UInt8) : Words.ofBytes bs =
    Words.ofBytes (bs.take a) * 256 ^ (bs.length - a) + Words.ofBytes (bs.drop a) := by
  have happend := ofBytes_append (bs.take a) (bs.drop a)
  rwa [List.take_append_drop, List.length_drop] at happend

theorem two_pow_bytes (a b : Nat) : 2 ^ (8 * a + b) = 256 ^ a * 2 ^ b := by
  rw [Nat.pow_add, Nat.pow_mul]

theorem ofBytes_drop (a : Nat) (bs : List UInt8) :
    Words.ofBytes (bs.drop a) = Words.ofBytes bs % 256 ^ (bs.length - a) := by
  have hlt := Words.ofBytes_lt (bs.drop a)
  rw [List.length_drop] at hlt
  rw [ofBytes_split a bs, Nat.mul_comm, Nat.mul_add_mod, Nat.mod_eq_of_lt hlt]

theorem ofBytes_take (a : Nat) (bs : List UInt8) :
    Words.ofBytes (bs.take a) = Words.ofBytes bs / 256 ^ (bs.length - a) := by
  have hlt := Words.ofBytes_lt (bs.drop a)
  rw [List.length_drop] at hlt
  rw [ofBytes_split a bs, Nat.add_comm, Nat.add_mul_div_right _ _ (Nat.pow_pos (by decide)),
    Nat.div_eq_of_lt hlt, Nat.zero_add]

/-- To the left, with zero bytes shifted in. -/
theorem ofBytes_shiftUp_drop (ha : a ≤ bs.length) (hb : b ≤ 8) :
    Words.ofBytes (shiftUp b (bs.drop a ++ List.replicate a 0)) =
      Words.ofBytes bs * 2 ^ (8 * a + b) % 256 ^ bs.length := by
  have hlength : (bs.drop a ++ List.replicate a (0 : UInt8)).length = bs.length := by
    rw [List.length_append, List.length_drop, List.length_replicate, Nat.sub_add_cancel ha]
  have hsplit : 256 ^ bs.length = 256 ^ (bs.length - a) * 256 ^ a := by
    rw [← Nat.pow_add, Nat.sub_add_cancel ha]
  have hdrop : Words.ofBytes (bs.drop a) * 256 ^ a = Words.ofBytes bs * 256 ^ a % 256 ^ bs.length := by
    rw [ofBytes_drop, hsplit, Nat.mul_mod_mul_right]
  rw [ofBytes_shiftUp hb, hlength, ofBytes_append, ofBytes_replicate_zero, List.length_replicate,
    Nat.add_zero, hdrop, Nat.mod_mul_mod, two_pow_bytes, Nat.mul_assoc]

/-- To the right, with zeros shifted in. -/
theorem ofBytes_shiftDown_take (ha : a ≤ bs.length) (hb : b ≤ 8) :
    Words.ofBytes (List.replicate a 0 ++ shiftDown b 0 (bs.take (bs.length - a))) =
      Words.ofBytes bs / 2 ^ (8 * a + b) := by
  rw [ofBytes_append, ofBytes_replicate_zero, Nat.zero_mul, Nat.zero_add, ofBytes_shiftDown hb,
    UInt8.toNat_zero, Nat.zero_mod, Nat.zero_mul, Nat.zero_add, ofBytes_take,
    Nat.sub_sub_self ha, Nat.div_div_eq_div_mul, two_pow_bytes]

/-! ### Counting up -/

@[simp] theorem length_increment (bs : List UInt8) : (increment bs).length = bs.length := by
  have hcarry (cs : List UInt8) : (carryUp cs).length = cs.length := by
    induction cs with
    | nil => rfl
    | cons x rest ih =>
      unfold carryUp
      split
      · rfl
      · exact congrArg (· + 1) ih
  unfold increment
  rw [List.length_reverse, hcarry, List.length_reverse]

theorem ofBytes_increment (bs : List UInt8) :
    Words.ofBytes (increment bs) = (Words.ofBytes bs + 1) % 256 ^ bs.length := by
  induction bs using List.reverseRecOn with
  | nil => rfl
  | append_singleton bs x ih =>
    have hbound := Words.ofBytes_lt bs
    have hx := x.toNat_lt
    rw [List.length_append, List.length_singleton, Nat.pow_succ, Words.ofBytes_append_singleton]
    unfold increment
    rw [List.reverse_append, List.reverse_singleton, List.singleton_append, carryUp]
    split
    · -- no carry
      rename_i hlt
      have hlt' : x.toNat < 255 := UInt8.lt_iff_toNat_lt.mp hlt
      have hnext : (x + 1).toNat = x.toNat + 1 := by
        rw [UInt8.toNat_add]
        exact Nat.mod_eq_of_lt (show x.toNat + 1 < 256 by omega)
      rw [List.reverse_cons, List.reverse_reverse, Words.ofBytes_append_singleton, hnext,
        Nat.mod_eq_of_lt (show Words.ofBytes bs * 256 + x.toNat + 1 < 256 ^ bs.length * 256 by omega),
        Nat.add_assoc]
    · rename_i hge
      have heq : x.toNat = 255 := by
        have hnot : ¬ x.toNat < 255 := fun hlt => hge (UInt8.lt_iff_toNat_lt.mpr hlt)
        omega
      have hnext : (x + 1).toNat = 0 := by
        rw [UInt8.toNat_add, heq]
        rfl
      rw [List.reverse_cons, Words.ofBytes_append_singleton, hnext, heq]
      change Words.ofBytes (increment bs) * 256 + 0 = _
      rw [ih, show Words.ofBytes bs * 256 + 255 + 1 = (Words.ofBytes bs + 1) * 256 by ring,
        Nat.mul_mod_mul_right, Nat.add_zero]

/-! ### Bitwise or -/

theorem ofBytes_or (h : bs.length = cs.length) :
    Words.ofBytes (bs.zipWith (· ||| ·) cs) = Words.ofBytes bs ||| Words.ofBytes cs := by
  induction bs generalizing cs with
  | nil =>
    obtain rfl := List.length_eq_zero_iff.mp h.symm
    rfl
  | cons x bs ih =>
    cases cs with
    | nil => cases h
    | cons y cs =>
      have hlen : bs.length = cs.length := Nat.succ.inj h
      have hzip : (bs.zipWith (· ||| ·) cs).length = bs.length := by
        rw [List.length_zipWith, hlen, Nat.min_self]
      have hx := Words.ofBytes_lt bs
      have hy := Words.ofBytes_lt cs
      rw [List.zipWith_cons_cons, ofBytes_cons, ofBytes_cons, ofBytes_cons, hzip, ih hlen, ← hlen,
        UInt8.toNat_or]
      rw [← hlen] at hy
      rw [show 256 ^ bs.length = 2 ^ (8 * bs.length) from (Nat.pow_mul 2 8 bs.length).symm] at hx hy ⊢
      have hor := Nat.or_lt_two_pow hx hy
      simp only [← Nat.shiftLeft_eq]
      rw [Nat.shiftLeft_add_eq_or_of_lt hor, Nat.shiftLeft_add_eq_or_of_lt hx,
        Nat.shiftLeft_add_eq_or_of_lt hy, Nat.shiftLeft_or_distrib]
      ac_rfl

end ByteShifts
