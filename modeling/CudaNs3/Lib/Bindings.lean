import Mathlib.Data.Finmap
import Mathlib.Data.List.Perm.Basic

/-!
# Lists of keyed entries

A table is a list of entries that is searched from the front by key. The lemmas say what a
search finds after an entry was overwritten, appended or taken out, and when the list stands
for a finite map.
-/

namespace Bindings

set_option autoImplicit false

universe u v w
variable {ε : Type u} {κ : Type v} [DecidableEq κ] (key : ε → κ)

def get (l : List ε) (k : κ) : Option ε := l.find? fun e => key e = k

/-- Overwrite the first entry with the key of `e`, or append `e`. -/
def put (l : List ε) (e : ε) : List ε :=
  match l.findIdx? fun f => key f = key e with
  | some i => l.set i e
  | none => l ++ [e]

/-- The last entry is moved into the place of the one at `i`. -/
def swapRemove (l : List ε) (i : Nat) : List ε :=
  match l[l.length - 1]? with
  | some last => if i < l.length - 1 then (l.set i last).dropLast else l.dropLast
  | none => l

def Distinct (l : List ε) : Prop := (l.map key).Nodup

variable {key} {l l' : List ε} {e : ε} {k : κ}

@[simp] theorem get_nil (k : κ) : get key [] k = none := rfl

theorem get_cons (x : ε) (l : List ε) (k : κ) :
    get key (x :: l) k = if key x = k then some x else get key l k := by
  unfold get
  rw [List.find?_cons]
  by_cases h : key x = k
  · simp [h]
  · simp [h]

theorem get_append_singleton (l : List ε) (e : ε) (k : κ) :
    get key (l ++ [e]) k = (get key l k).or (if key e = k then some e else none) := by
  unfold get
  rw [List.find?_append]
  by_cases h : key e = k
  · simp [h]
  · simp [h]

theorem key_of_get (h : get key l k = some e) : key e = k := by
  simpa using List.find?_some h

theorem mem_of_get (h : get key l k = some e) : e ∈ l := List.mem_of_find?_eq_some h

theorem get_eq_none_iff : get key l k = none ↔ ∀ e ∈ l, key e ≠ k := by
  simp [get, List.find?_eq_none]

theorem isSome_get (l : List ε) (k : κ) :
    (get key l k).isSome = (l.findIdx? fun e => key e = k).isSome := by
  rw [get, List.isSome_find?, List.findIdx?_isSome]

theorem put_nil (e : ε) : put key [] e = [e] := rfl

theorem put_cons (x : ε) (l : List ε) (e : ε) :
    put key (x :: l) e = if key x = key e then e :: l else x :: put key l e := by
  unfold put
  rw [List.findIdx?_cons]
  by_cases h : key x = key e
  · simp [h]
  · cases l.findIdx? fun f => decide (key f = key e) <;> simp [h]

theorem get_put (l : List ε) (e : ε) (k : κ) :
    get key (put key l e) k = if key e = k then some e else get key l k := by
  induction l with
  | nil => rw [put_nil, get_cons, get_nil]
  | cons x l ih =>
    rw [put_cons]
    by_cases hx : key x = key e
    · rw [if_pos hx, get_cons, get_cons, hx]
      by_cases hk : key e = k
      · rw [if_pos hk, if_pos hk]
      · rw [if_neg hk, if_neg hk, if_neg hk]
    · rw [if_neg hx, get_cons, ih, get_cons]
      by_cases hk : key e = k
      · rw [if_pos hk, if_neg (hk ▸ hx), if_pos hk]
      · rw [if_neg hk, if_neg hk]

/-- What is put last under a key stays. -/
theorem put_put {f : ε} (hkey : key f = key e) (l : List ε) :
    put key (put key l e) f = put key l f := by
  induction l with
  | nil => rw [put_nil, put_nil, put_cons, if_pos hkey.symm]
  | cons x l ih =>
    rw [put_cons x l e, put_cons x l f, hkey]
    by_cases hx : key x = key e
    · rw [if_pos hx, if_pos hx, put_cons, if_pos hkey.symm]
    · rw [if_neg hx, if_neg hx, put_cons, hkey, if_neg hx, ih]

theorem get_map {f : ε → ε} (hkey : ∀ e, key (f e) = key e) (l : List ε) (k : κ) :
    get key (l.map f) k = (get key l k).map f := by
  induction l with
  | nil => rfl
  | cons x l ih =>
    rw [List.map_cons, get_cons, get_cons, hkey, ih]
    by_cases hx : key x = k
    · rw [if_pos hx, if_pos hx, Option.map_some]
    · rw [if_neg hx, if_neg hx]

omit [DecidableEq κ] in
theorem Distinct.map (h : Distinct key l) {f : ε → ε} (hkey : ∀ e, key (f e) = key e) :
    Distinct key (l.map f) := by
  unfold Distinct at h ⊢
  have hsame : key ∘ f = key := funext hkey
  rwa [List.map_map, hsame]

theorem eq_or_mem_of_mem_put {x : ε} (h : x ∈ put key l e) : x = e ∨ x ∈ l := by
  unfold put at h
  split at h
  · exact (List.mem_or_eq_of_mem_set h).symm
  · rcases List.mem_append.mp h with h | h
    · exact Or.inr h
    · exact Or.inl (List.mem_singleton.mp h)

theorem put_of_get_none (h : get key l (key e) = none) : put key l e = l ++ [e] := by
  induction l with
  | nil => exact put_nil e
  | cons x l ih =>
    have hall := get_eq_none_iff.mp h
    have hrest : get key l (key e) = none :=
      get_eq_none_iff.mpr fun f hf => hall f (List.mem_cons_of_mem x hf)
    rw [put_cons, if_neg (hall x List.mem_cons_self), ih hrest, List.cons_append]

theorem map_key_put_of_get {f : ε} (h : get key l (key e) = some f) :
    (put key l e).map key = l.map key := by
  induction l with
  | nil => simp at h
  | cons x l ih =>
    rw [put_cons]
    rw [get_cons] at h
    by_cases hx : key x = key e
    · rw [if_pos hx, List.map_cons, List.map_cons, hx]
    · rw [if_neg hx] at h ⊢
      rw [List.map_cons, List.map_cons, ih h]

/-- Only a new key takes more room. -/
theorem length_put (l : List ε) (e : ε) : (put key l e).length =
    if (get key l (key e)).isSome then l.length else l.length + 1 := by
  cases h : get key l (key e) with
  | none => rw [put_of_get_none h, List.length_append, List.length_singleton]; rfl
  | some f =>
    have hlen := congrArg List.length (map_key_put_of_get h)
    rwa [List.length_map, List.length_map] at hlen

theorem Distinct.put (h : Distinct key l) (e : ε) : Distinct key (put key l e) := by
  unfold Distinct at h ⊢
  cases hget : get key l (key e) with
  | some f => rwa [map_key_put_of_get hget]
  | none =>
    rw [put_of_get_none hget, List.map_append, List.map_singleton, List.nodup_append]
    refine ⟨h, List.nodup_singleton _, fun a ha b hb => ?_⟩
    obtain ⟨f, hf, rfl⟩ := List.mem_map.mp ha
    obtain rfl := List.mem_singleton.mp hb
    exact get_eq_none_iff.mp hget f hf

theorem Distinct.get_iff (h : Distinct key l) : get key l k = some e ↔ e ∈ l ∧ key e = k := by
  constructor
  · exact fun hget => ⟨mem_of_get hget, key_of_get hget⟩
  · rintro ⟨he, rfl⟩
    cases hget : get key l (key e) with
    | none => exact absurd rfl (get_eq_none_iff.mp hget e he)
    | some f => rw [List.inj_on_of_nodup_map h (mem_of_get hget) he (key_of_get hget)]

/-- The order of the entries does not matter when keys are distinct. -/
theorem Distinct.get_perm (h : Distinct key l) (hperm : l.Perm l') (k : κ) :
    get key l' k = get key l k := by
  have h' : Distinct key l' := (hperm.map key).nodup_iff.mp h
  refine Option.ext fun e => ?_
  rw [h'.get_iff, h.get_iff, hperm.mem_iff]

theorem Distinct.mem_put (h : Distinct key l) {x : ε} :
    x ∈ Bindings.put key l e ↔ x = e ∨ (x ∈ l ∧ key x ≠ key e) := by
  have hput := (h.put e).get_iff (e := x) (k := key x)
  rw [and_iff_left rfl, get_put] at hput
  rw [← hput]
  by_cases hkey : key e = key x
  · rw [if_pos hkey, Option.some_inj]
    exact ⟨fun heq => .inl heq.symm, fun hor => (hor.resolve_right fun hx => hx.2 hkey.symm).symm⟩
  · rw [if_neg hkey, h.get_iff, and_iff_left rfl]
    constructor
    · exact fun hx => .inr ⟨hx, Ne.symm hkey⟩
    · rintro (rfl | hx)
      · exact absurd rfl hkey
      · exact hx.1

/-- What an entry has in common with the one that it overwrites does not change. -/
theorem map_put_of_get {ν : Type w} {val : ε → ν} {f : ε} (h : get key l (key e) = some f)
    (hval : val e = val f) : (put key l e).map val = l.map val := by
  induction l with
  | nil => simp at h
  | cons x l ih =>
    rw [put_cons]
    rw [get_cons] at h
    by_cases hx : key x = key e
    · rw [if_pos hx] at h ⊢
      rw [List.map_cons, List.map_cons, hval, Option.some.inj h]
    · rw [if_neg hx] at h ⊢
      rw [List.map_cons, List.map_cons, ih h]

theorem get_eraseP_of_ne {k' : κ} (hne : k' ≠ k) (l : List ε) :
    get key (l.eraseP fun e => key e = k) k' = get key l k' := by
  induction l with
  | nil => rfl
  | cons x l ih =>
    by_cases hx : key x = k
    · rw [List.eraseP_cons_of_pos (by simpa using hx), get_cons, if_neg (hx ▸ hne.symm)]
    · rw [List.eraseP_cons_of_neg (by simpa using hx), get_cons, get_cons, ih]

/-- Taking out one entry hides the key when it is the only one with that key. -/
theorem get_eraseP_self_iff (l : List ε) (k : κ) :
    get key (l.eraseP fun e => key e = k) k = none ↔ l.countP (fun e => key e = k) ≤ 1 := by
  induction l with
  | nil => exact ⟨fun _ => Nat.zero_le _, fun _ => rfl⟩
  | cons x l ih =>
    by_cases hx : key x = k
    · rw [List.eraseP_cons_of_pos (by simpa using hx), get_eq_none_iff,
        List.countP_cons_of_pos (by simpa using hx), Nat.succ_le_succ_iff, Nat.le_zero,
        List.countP_eq_zero]
      simp only [decide_eq_true_eq, ne_eq]
    · rw [List.eraseP_cons_of_neg (by simpa using hx), get_cons, if_neg hx, ih,
        List.countP_cons_of_neg (by simpa using hx)]

theorem Distinct.eraseP (h : Distinct key l) (k : κ) :
    Distinct key (l.eraseP fun e => key e = k) :=
  h.sublist (List.eraseP_sublist.map key)

theorem Distinct.get_eraseP_self (h : Distinct key l) (k : κ) :
    get key (l.eraseP fun e => key e = k) k = none := by
  rw [get_eraseP_self_iff]
  have hcount : (l.map key).count k ≤ 1 := List.nodup_iff_count_le_one.mp h k
  rw [List.count, List.countP_map] at hcount
  have hsame : ((fun a => a == k) ∘ key) = fun e => decide (key e = k) :=
    funext fun e => by rw [Function.comp_apply, beq_eq_decide]
  rwa [hsame] at hcount

theorem swapRemove_perm {i : Nat} (hi : i < l.length) : (swapRemove l i).Perm (l.eraseIdx i) := by
  obtain ⟨init, last, rfl⟩ : ∃ init last, l = init ++ [last] :=
    ⟨l.dropLast, l.getLast (List.ne_nil_of_length_pos (by omega)),
      (List.dropLast_append_getLast _).symm⟩
  rw [List.length_append, List.length_singleton] at hi
  have hlast : (init ++ [last])[(init ++ [last]).length - 1]? = some last := by simp
  unfold swapRemove
  rw [hlast]
  simp only [List.length_append, List.length_singleton, Nat.add_sub_cancel]
  by_cases hlt : i < init.length
  · rw [if_pos hlt, List.set_append_left _ _ hlt, List.dropLast_concat,
      List.eraseIdx_append_of_lt_length hlt]
    have hset : (init.set i last).Perm (last :: init.eraseIdx i) := by
      rw [List.set_eq_take_append_cons_drop, if_pos hlt, List.eraseIdx_eq_take_drop_succ]
      exact List.perm_middle
    exact hset.trans (List.perm_append_singleton last _).symm
  · obtain rfl : i = init.length := by omega
    rw [if_neg hlt, List.dropLast_concat, List.eraseIdx_append_of_length_le (Nat.le_refl _)]
    simp

theorem swapRemove_perm_eraseP {i : Nat} (hi : (l.findIdx? fun e => key e = k) = some i) :
    (swapRemove l i).Perm (l.eraseP fun e => key e = k) := by
  have hlt : i < l.length := (List.findIdx?_eq_some_iff_getElem.mp hi).1
  rw [List.eraseP_eq_eraseIdx, hi]
  exact swapRemove_perm hlt

/-! ### Finite maps -/

variable (key)
variable {ν : Type w} (val : ε → ν)

/-- The entries are those of the map, each once. -/
structure Represents (l : List ε) (m : Finmap fun _ : κ => ν) : Prop where
  distinct : Distinct key l
  lookup : ∀ k, m.lookup k = (get key l k).map val

variable {key val} {m : Finmap fun _ : κ => ν}

theorem Represents.nil : Represents key val [] ∅ where
  distinct := List.nodup_nil
  lookup k := by rw [Finmap.lookup_empty]; rfl

theorem Represents.mem_iff (h : Represents key val l m) :
    k ∈ m ↔ (get key l k).isSome := by
  rw [← Finmap.lookup_isSome, h.lookup, Option.isSome_map]

theorem Represents.lookup_iff (h : Represents key val l m) {v : ν} :
    m.lookup k = some v ↔ ∃ e ∈ l, key e = k ∧ val e = v := by
  rw [h.lookup, Option.map_eq_some_iff]
  constructor
  · rintro ⟨e, he, hv⟩
    exact ⟨e, mem_of_get he, key_of_get he, hv⟩
  · rintro ⟨e, he, hk, hv⟩
    exact ⟨e, h.distinct.get_iff.mpr ⟨he, hk⟩, hv⟩

theorem Represents.card (h : Represents key val l m) : m.keys.card = l.length := by
  have hkeys : m.keys = (l.map key).toFinset := by
    refine Finset.ext fun k => ?_
    rw [Finmap.mem_keys, List.mem_toFinset, List.mem_map, Finmap.mem_iff]
    constructor
    · rintro ⟨v, hv⟩
      obtain ⟨e, he, hk, _⟩ := h.lookup_iff.mp hv
      exact ⟨e, he, hk⟩
    · rintro ⟨e, he, hk⟩
      exact ⟨val e, h.lookup_iff.mpr ⟨e, he, hk, rfl⟩⟩
  rw [hkeys, List.toFinset_card_of_nodup h.distinct, List.length_map]

theorem Represents.put (h : Represents key val l m) (e : ε) :
    Represents key val (put key l e) (m.insert (key e) (val e)) where
  distinct := h.distinct.put e
  lookup k := by
    rw [get_put]
    by_cases hk : key e = k
    · subst hk
      rw [if_pos rfl, Finmap.lookup_insert]
      rfl
    · rw [if_neg hk, Finmap.lookup_insert_of_ne _ (Ne.symm hk), h.lookup]

theorem Represents.eraseP (h : Represents key val l m) (k : κ) :
    Represents key val (l.eraseP fun e => key e = k) (m.erase k) where
  distinct := h.distinct.eraseP k
  lookup k' := by
    by_cases hk : k' = k
    · subst hk
      rw [Finmap.lookup_erase, h.distinct.get_eraseP_self]
      rfl
    · rw [Finmap.lookup_erase_ne hk, get_eraseP_of_ne hk, h.lookup]

theorem Represents.perm (h : Represents key val l m) (hperm : l.Perm l') :
    Represents key val l' m where
  distinct := (hperm.map key).nodup_iff.mp h.distinct
  lookup k := by rw [h.distinct.get_perm hperm, h.lookup]

end Bindings
