import Mathlib.Data.List.Perm.Basic

/-!
# Reference counts

Objects are numbered in the order in which they are made, and `ps` lists all pointers to them,
the null pointers included. The count of every object is the number of times it stands there.
-/

namespace RefCount

set_option autoImplicit false

structure Counts (count : Nat → Nat) (next : Nat) (ps : List (Option Nat)) : Prop where
  lt : ∀ k, some k ∈ ps → k < next
  count_eq : ∀ k, count k = ps.count (some k)

variable {count count' : Nat → Nat} {next k : Nat} {p : Option Nat} {ps qs : List (Option Nat)}

namespace Counts

theorem perm (h : Counts count next ps) (hp : ps.Perm qs) : Counts count next qs :=
  ⟨fun k hk => h.lt k (hp.mem_iff.mpr hk), fun k => by rw [h.count_eq, hp.count_eq]⟩

theorem congr (h : Counts count next ps) (hc : ∀ i, count' i = count i) :
    Counts count' next ps := ⟨h.lt, fun k => by rw [hc, h.count_eq]⟩

theorem cons_none : Counts count next (none :: ps) ↔ Counts count next ps := by
  constructor
  · intro h
    exact ⟨fun k hk => h.lt k (List.mem_cons_of_mem _ hk), fun k => by simp [h.count_eq k]⟩
  · intro h
    exact ⟨fun k hk => h.lt k (by simpa using hk), fun k => by simp [h.count_eq k]⟩

theorem pos (h : Counts count next ps) (hk : some k ∈ ps) : 0 < count k := by
  rw [h.count_eq]
  exact List.count_pos_iff.mpr hk

theorem eq_zero (h : Counts count next ps) (hk : next ≤ k) : count k = 0 := by
  rw [h.count_eq]
  apply List.count_eq_zero.mpr
  intro hmem
  exact absurd (h.lt k hmem) (Nat.not_lt.mpr hk)

/-- The new objects bring the pointers `ys`; then `xs` are taken away, and `zs` are set. -/
theorem rewire (xs ys zs : List (Option Nat)) {rs : List (Option Nat)} {next' : Nat}
    (h : Counts count next ps)
    (hps : (xs ++ rs).Perm (ys ++ ps)) (hqs : qs.Perm (zs ++ rs))
    (hc : ∀ k, count' k + xs.count (some k) =
      count k + ys.count (some k) + zs.count (some k))
    (hy : ∀ k, some k ∈ ys → k < next') (hz : ∀ k, some k ∈ zs → k < next')
    (hnext : next ≤ next') : Counts count' next' qs := by
  constructor
  · intro k hk
    rcases List.mem_append.mp (hqs.mem_iff.mp hk) with hk | hk
    · exact hz k hk
    · rcases List.mem_append.mp (hps.mem_iff.mp (List.mem_append_right xs hk)) with hk | hk
      · exact hy k hk
      · exact Nat.lt_of_lt_of_le (h.lt k hk) hnext
  · intro k
    have hold := h.count_eq k
    have hnew := hc k
    have hcount := hps.count_eq (some k)
    rw [hqs.count_eq]
    simp only [List.count_append] at hcount ⊢
    omega

/-- A new object, and its only pointer. -/
theorem adopt (h : Counts count next ps) (hc : ∀ i, count' i = if i = next then 1 else count i) :
    Counts count' (next + 1) (some next :: ps) := by
  constructor
  · intro k hk
    rcases List.mem_cons.mp hk with hk | hk
    · rw [Option.some.inj hk]
      exact Nat.lt_succ_self next
    · exact Nat.lt_succ_of_lt (h.lt k hk)
  · intro k
    rw [hc, List.count_cons]
    split_ifs with hk hbeq hbeq
    · rw [hk, ← h.count_eq, h.eq_zero (Nat.le_refl next)]
    · simp [hk] at hbeq
    · simp [Ne.symm hk] at hbeq
    · exact h.count_eq k

/-- One more pointer to an object that has one. -/
theorem share (h : Counts count next ps) (hk : some k ∈ ps)
    (hc : ∀ i, count' i = if i = k then count k + 1 else count i) :
    Counts count' next (some k :: ps) := by
  constructor
  · intro i hi
    rcases List.mem_cons.mp hi with hi | hi
    · rw [Option.some.inj hi]
      exact h.lt k hk
    · exact h.lt i hi
  · intro i
    rw [hc, List.count_cons]
    split_ifs with hi hbeq hbeq
    · rw [hi, h.count_eq]
    · simp [hi] at hbeq
    · simp [Ne.symm hi] at hbeq
    · exact h.count_eq i

/-- A pointer less. -/
theorem drop (h : Counts count next (some k :: ps))
    (hc : ∀ i, count' i = if i = k then count k - 1 else count i) : Counts count' next ps := by
  refine ⟨fun i hi => h.lt i (List.mem_cons_of_mem _ hi), fun i => ?_⟩
  rw [hc]
  have hcount := h.count_eq i
  rw [List.count_cons] at hcount
  split_ifs with hi
  · rw [← hi, hcount]
    simp [hi]
  · rw [hcount]
    simp [Ne.symm hi]

/-- The object under a count of one has no second pointer. -/
theorem alone (h : Counts count next (some k :: ps)) (hk : count k = 1) : some k ∉ ps := by
  have hcount := h.count_eq k
  rw [hk, List.count_cons_self] at hcount
  exact List.count_eq_zero.mp (by omega)

end Counts

end RefCount
