import CudaNs3.Lib.Words
import Mathlib.Data.List.Nodup
import Mathlib.Data.Nat.ModEq

/-!
# Layouts of optional fields

Records of words of given widths, the least significant byte first; and fields in a fixed order
of which some are there, each at a multiple of its alignment behind those before it, compared
with a layout in which the paddings are given.
-/

namespace Layouts

set_option autoImplicit false

universe u

/-! ### Records of words -/

/-- A word of each of the given widths in bytes. -/
def Record : List Nat → Type
  | [] => Unit
  | n :: widths => BitVec (8 * n) × Record widths

def zeros : (widths : List Nat) → Record widths
  | [] => ()
  | _ :: widths => (0, zeros widths)

def encode : (widths : List Nat) → Record widths → List UInt8
  | [], _ => []
  | n :: widths, (x, r) => (Words.toBytes n x.toNat).reverse ++ encode widths r

def decode : (widths : List Nat) → List UInt8 → Record widths
  | [], _ => ()
  | n :: widths, bs =>
    (BitVec.ofNat (8 * n) (Words.ofBytes (bs.take n).reverse), decode widths (bs.drop n))

theorem length_encode {widths : List Nat} (r : Record widths) :
    (encode widths r).length = widths.sum := by
  induction widths with
  | nil => rfl
  | cons n widths ih =>
    obtain ⟨x, r⟩ := r
    rw [encode, List.length_append, List.length_reverse, Words.length_toBytes, ih, List.sum_cons]

theorem decode_encode {widths : List Nat} (r : Record widths) (rest : List UInt8) :
    decode widths (encode widths r ++ rest) = r := by
  induction widths with
  | nil => rfl
  | cons n widths ih =>
    obtain ⟨x, r⟩ := r
    have hlength : (Words.toBytes n x.toNat).reverse.length = n := by
      rw [List.length_reverse, Words.length_toBytes]
    have hx : x.toNat < 256 ^ n := Nat.lt_of_lt_of_eq x.isLt (Nat.pow_mul 2 8 n)
    have htake : (encode (n :: widths) (x, r) ++ rest).take n = (Words.toBytes n x.toNat).reverse := by
      rw [encode, List.append_assoc, List.take_left' hlength]
    have hdrop : (encode (n :: widths) (x, r) ++ rest).drop n = encode widths r ++ rest := by
      rw [encode, List.append_assoc, List.drop_left' hlength]
    rw [decode, htake, hdrop, ih, List.reverse_reverse, Words.ofBytes_toBytes hx, BitVec.ofNat_toNat,
      BitVec.setWidth_eq]

/-! ### Paddings -/

/-- What brings `n` to a multiple of `align`. -/
def padding (align n : Nat) : Nat := (align - n % align) % align

theorem padding_lt {align : Nat} (h : 0 < align) (n : Nat) : padding align n < align := Nat.mod_lt _ h

/-- Below the alignment there is no other padding than this. -/
theorem dvd_add_iff {align n pad : Nat} (h : pad < align) : align ∣ n + pad ↔ pad = padding align n := by
  have hn := Nat.mod_lt n (show 0 < align by omega)
  unfold padding
  rw [Nat.dvd_iff_mod_eq_zero, Nat.add_mod, Nat.mod_eq_of_lt h]
  by_cases hzero : n % align = 0
  · rw [hzero, Nat.zero_add, Nat.mod_eq_of_lt h, Nat.sub_zero, Nat.mod_self]
  · rw [Nat.mod_eq_of_lt (show align - n % align < align by omega)]
    constructor
    · intro hsum
      by_contra hne
      by_cases hlt : n % align + pad < align
      · rw [Nat.mod_eq_of_lt hlt] at hsum
        omega
      · rw [Nat.mod_eq_sub_mod (by omega), Nat.mod_eq_of_lt (by omega)] at hsum
        omega
    · rintro rfl
      rw [Nat.add_sub_cancel' hn.le, Nat.mod_self]

theorem padding_eq_iff {align m n : Nat} (h : 0 < align) :
    padding align m = padding align n ↔ m ≡ n [MOD align] := by
  have hm := (dvd_add_iff (padding_lt h m)).mpr rfl
  rw [← dvd_add_iff (padding_lt h m)]
  constructor
  · intro hn
    exact Nat.ModEq.add_right_cancel' (padding align m)
      ((Nat.mod_eq_zero_of_dvd hm).trans (Nat.mod_eq_zero_of_dvd hn).symm)
  · intro hmn
    exact ((hmn.add_right _).dvd_iff (Nat.dvd_refl align)).mp hm

theorem padding_eq_zero_iff {align n : Nat} (h : 0 < align) : padding align n = 0 ↔ align ∣ n := by
  rw [eq_comm, ← dvd_add_iff h, Nat.add_zero]

/-! ### Fields in order -/

variable {ι : Type u} {fields pre : List ι} {f : ι}

variable (align size pad : ι → Nat) (there : ι → Bool)

/-- The place behind the fields, each padded to its alignment. -/
def place (n : Nat) (fields : List ι) : Nat :=
  fields.foldl (fun n f => if there f then n + padding (align f) n + size f else n) n

/-- The place behind the fields with the given paddings. -/
def placeWith (n : Nat) (fields : List ι) : Nat :=
  fields.foldl (fun n f => if there f then n + pad f + size f else n) n

variable {align size pad there}

theorem place_append_singleton (n : Nat) : place align size there n (pre ++ [f]) =
    if there f then place align size there n pre +
      padding (align f) (place align size there n pre) + size f
    else place align size there n pre := by
  unfold place
  rw [List.foldl_append, List.foldl_cons, List.foldl_nil]

theorem placeWith_append_singleton (n : Nat) : placeWith size pad there n (pre ++ [f]) =
    if there f then placeWith size pad there n pre + pad f + size f
    else placeWith size pad there n pre := by
  unfold placeWith
  rw [List.foldl_append, List.foldl_cons, List.foldl_nil]

theorem placeWith_add (n k : Nat) :
    placeWith size pad there (n + k) fields = placeWith size pad there n fields + k := by
  induction fields generalizing n with
  | nil => rfl
  | cons f fields ih =>
    change placeWith size pad there (if there f then n + k + pad f + size f else n + k) fields =
      placeWith size pad there (if there f then n + pad f + size f else n) fields + k
    rw [← ih]
    congr 1
    split <;> omega

theorem placeWith_congr {pad' : ι → Nat} {there' : ι → Bool} (hpad : ∀ f ∈ fields, pad' f = pad f)
    (hthere : ∀ f ∈ fields, there' f = there f) (n : Nat) :
    placeWith size pad' there' n fields = placeWith size pad there n fields := by
  apply List.foldl_ext
  intro n f hf
  rw [hpad f hf, hthere f hf]

theorem place_congr {there' : ι → Bool} (hthere : ∀ f ∈ fields, there' f = there f) (n : Nat) :
    place align size there' n fields = place align size there n fields := by
  apply List.foldl_ext
  intro n f hf
  rw [hthere f hf]

theorem placeWith_le {d : Nat} (hpad : ∀ f ∈ fields, there f → pad f ≤ d) (n : Nat) :
    placeWith size pad there n fields ≤ n + (fields.map fun f => d + size f).sum := by
  induction fields generalizing n with
  | nil => exact Nat.le_refl n
  | cons f fields ih =>
    have hrest := ih (fun g hg => hpad g (List.mem_cons_of_mem f hg))
      (if there f then n + pad f + size f else n)
    rw [List.map_cons, List.sum_cons]
    refine hrest.trans ?_
    split
    · rename_i hthere
      have hle := hpad f List.mem_cons_self hthere
      omega
    · omega

variable [DecidableEq ι]

/-- One more field is there. -/
theorem placeWith_update (h : fields.Nodup) (hf : f ∈ fields) (hthere : there f = false) (p n : Nat) :
    placeWith size (Function.update pad f p) (Function.update there f true) n fields =
      placeWith size pad there n fields + (p + size f) := by
  induction fields generalizing n with
  | nil => cases hf
  | cons g fields ih =>
    obtain ⟨hg, hnodup⟩ := List.nodup_cons.mp h
    rcases List.mem_cons.mp hf with rfl | hf
    · have hrest (g : ι) (hmem : g ∈ fields) : g ≠ f := by
        rintro rfl
        exact hg hmem
      change placeWith size _ _ (if Function.update there f true f then
        n + Function.update pad f p f + size f else n) fields =
          placeWith size pad there (if there f then n + pad f + size f else n) fields + (p + size f)
      rw [Function.update_self, Function.update_self, if_pos rfl, hthere, if_neg Bool.false_ne_true,
        ← placeWith_add, Nat.add_assoc]
      exact placeWith_congr (fun g hmem => Function.update_of_ne (hrest g hmem) _ _)
        (fun g hmem => Function.update_of_ne (hrest g hmem) _ _) _
    · have hne : g ≠ f := by
        rintro rfl
        exact hg hf
      change placeWith size _ _ (if Function.update there f true g then
        n + Function.update pad f p g + size g else n) fields = _
      rw [Function.update_of_ne hne, Function.update_of_ne hne]
      exact ih hnodup hf _

/-- The fields in front of `f`. -/
def before (fields : List ι) (f : ι) : List ι := fields.takeWhile (· ≠ f)

theorem before_append (h : fields.Nodup) (hpre : pre ++ [f] <+: fields) : before fields f = pre := by
  obtain ⟨post, rfl⟩ := hpre
  have hnot : f ∉ pre := by
    rw [List.append_assoc] at h
    exact fun hf => (List.nodup_append.mp h).2.2 f hf f List.mem_cons_self rfl
  unfold before
  rw [List.append_assoc, List.takeWhile_append_of_pos]
  · simp
  · intro g hg
    exact decide_eq_true (fun heq => hnot (heq ▸ hg))

/-- What holds of no fields, and with the fields in front of a field also when it is added. -/
theorem prefix_induction (h : fields.Nodup) {P : List ι → Prop} (nil : P [])
    (append : ∀ f ∈ fields, P (before fields f) → P (before fields f ++ [f])) (hpre : pre <+: fields) :
    P pre := by
  induction pre using List.reverseRecOn with
  | nil => exact nil
  | append_singleton pre f ih =>
    have heq := before_append h hpre
    have hmem : f ∈ fields := hpre.subset (List.mem_append_right _ List.mem_cons_self)
    have hstep := append f hmem
    rw [heq] at hstep
    exact hstep (ih ((List.prefix_append pre [f]).trans hpre))

theorem prefix_before (fields : List ι) (f : ι) : before fields f <+: fields :=
  List.takeWhile_prefix _

/-- All paddings are those of the alignment. -/
def Fits (align size pad : ι → Nat) (there : ι → Bool) (n : Nat) (fields : List ι) : Prop :=
  ∀ f ∈ fields, there f → pad f = padding (align f) (place align size there n (before fields f))

theorem Fits.placeWith_eq {n : Nat} (h : fields.Nodup) (hfits : Fits align size pad there n fields)
    (hpre : pre <+: fields) : placeWith size pad there n pre = place align size there n pre := by
  refine prefix_induction (P := fun pre => placeWith size pad there n pre = place align size there n pre)
    h rfl (fun f hf ih => ?_) hpre
  rw [place_append_singleton, placeWith_append_singleton, ih]
  split
  · rename_i hthere
    rw [hfits f hf hthere]
  · rfl

/-- Every field is aligned exactly when all paddings are those of the alignment. -/
theorem aligned_iff {n : Nat} (h : fields.Nodup) (hpad : ∀ f ∈ fields, there f → pad f < align f) :
    (∀ f ∈ fields, there f → align f ∣ placeWith size pad there n (before fields f) + pad f) ↔
      Fits align size pad there n fields := by
  constructor
  · intro haligned
    have hwritten : ∀ pre, pre <+: fields →
        placeWith size pad there n pre = place align size there n pre := by
      intro pre hpre
      refine prefix_induction
        (P := fun pre => placeWith size pad there n pre = place align size there n pre)
        h rfl (fun f hf ih => ?_) hpre
      rw [place_append_singleton, placeWith_append_singleton, ih]
      split
      · rename_i hthere
        have hf' := (dvd_add_iff (hpad f hf hthere)).mp (haligned f hf hthere)
        rw [ih] at hf'
        rw [← hf']
      · rfl
    intro f hf hthere
    rw [← hwritten _ (prefix_before fields f)]
    exact (dvd_add_iff (hpad f hf hthere)).mp (haligned f hf hthere)
  · intro hfits f hf hthere
    rw [hfits.placeWith_eq h (prefix_before fields f), dvd_add_iff (hpad f hf hthere)]
    exact hfits f hf hthere

end Layouts
