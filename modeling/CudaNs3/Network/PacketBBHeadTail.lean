import CudaNs3.Network.PacketBB

/-!
# The head and the tail of an address block

The head that `GetHeadTail` finds is common to all addresses. The tail is at least as long as
what they have in common, but a pass may make it longer by one; it is common exactly when the
last two addresses agree from no place on from which the others differ.
-/

namespace CudaNs3.Network.PacketBB

open Affixes
set_option autoImplicit false

theorem Family.size_pos (family : Family) : 0 < family.size := by cases family <;> decide

namespace HeadTail

/-- The locals after a pass over each address of a list that starts with `first`. -/
structure Scanned (len : Nat) (as : List (List UInt8)) (s : HeadTail) : Prop where
  last : as.getLast? = some s.last
  length : ∀ x ∈ as, x.length = len
  headlen_le : s.headlen ≤ len
  le_headlen : ∀ k ≤ len, k ≤ s.headlen ↔ Alike (List.take k) as
  same : s.headlen = len → s.taillen = len
  room : s.headlen < len → s.taillen + s.headlen < len
  le_taillen : ∀ k ≤ len, Alike (List.drop (len - k)) as → k ≤ s.taillen

variable {len k : Nat} {as : List (List UInt8)} {s : HeadTail} {a : List UInt8}

theorem Scanned.start (hlen : a.length = len) (cur : List UInt8) :
    Scanned len [a] ⟨len, len, a, cur⟩ where
  last := rfl
  length := by simp [hlen]
  headlen_le := Nat.le_refl len
  le_headlen := fun _ hk => ⟨fun _ => alike_singleton, fun _ => hk⟩
  same := fun _ => rfl
  room := fun h => absurd h (Nat.lt_irrefl len)
  le_taillen := fun _ hk _ => hk

theorem Scanned.last_mem (h : Scanned len as s) : s.last ∈ as := List.mem_of_getLast? h.last

theorem Scanned.length_last (h : Scanned len as s) : s.last.length = len :=
  h.length _ h.last_mem

theorem Scanned.taillen_le (h : Scanned len as s) : s.taillen ≤ len := by
  rcases Nat.lt_or_eq_of_le h.headlen_le with hlt | heq
  · have := h.room hlt
    omega
  · exact Nat.le_of_eq (h.same heq)

/-- Lists that agree before a place and from there on are the same. -/
theorem alike_id (htake : Alike (List.take k) as) (hdrop : Alike (List.drop k) as) :
    Alike id as := by
  intro x hx y hy
  rw [id, id, ← List.take_append_drop k x, ← List.take_append_drop k y, htake x hx y hy,
    hdrop x hx y hy]

/-- A common tail does not reach back to the end of the longest common head. -/
theorem lt_of_alike_drop {n : Nat} (hn : ∀ k ≤ len, k ≤ n ↔ Alike (List.take k) as)
    (hlt : n < len) (hk : k ≤ len) (halike : Alike (List.drop (len - k)) as) : k + n < len := by
  by_contra hnot
  have htake : Alike (List.take n) as := (hn n (Nat.le_of_lt hlt)).mp (Nat.le_refl n)
  have hdrop : Alike (List.drop n) as := by
    apply halike.mono
    intro x _ y _ hxy
    have hsum : n = len - k + (n - (len - k)) := by omega
    rw [hsum, ← List.drop_drop, ← List.drop_drop, hxy]
  have hall : Alike (List.take (n + 1)) as :=
    (alike_id htake hdrop).mono fun x _ y _ hxy => congrArg (List.take _) hxy
  have := (hn (n + 1) hlt).mpr hall
  omega

theorem reverse_take_eq_iff {x y : List UInt8} (hx : x.length = len) (hy : y.length = len) :
    x.reverse.take k = y.reverse.take k ↔ x.drop (len - k) = y.drop (len - k) := by
  rw [List.take_reverse, List.take_reverse, List.reverse_inj, hx, hy]

theorem taillen_compare (hhead : (s.compare len a).headlen < len) :
    (s.compare len a).taillen =
      agreeing (min (s.taillen + 1) (len - 1 - (s.compare len a).headlen))
        s.last.reverse a.reverse := if_pos hhead

theorem le_taillen_compare (hlast : s.last.length = len) (hlen : a.length = len) (hk : k ≤ len)
    (hhead : (s.compare len a).headlen < len) :
    k ≤ (s.compare len a).taillen ↔
      k ≤ s.taillen + 1 ∧ k + (s.compare len a).headlen < len ∧
        s.last.drop (len - k) = a.drop (len - k) := by
  rw [taillen_compare hhead, le_agreeing_iff (by simp [hlast, hlen]) (by simpa [hlast] using hk),
    reverse_take_eq_iff hlast hlen]
  constructor
  · intro h
    exact ⟨by omega, by omega, h.2⟩
  · intro h
    exact ⟨by omega, h.2.2⟩

theorem Scanned.compare (h : Scanned len as s) (hlen : a.length = len) :
    Scanned len (as ++ [a]) (s.compare len a) := by
  have hlast := h.length_last
  have hbound := h.headlen_le
  have hheadlen : ∀ k ≤ len, k ≤ (s.compare len a).headlen ↔ Alike (List.take k) (as ++ [a]) := by
    intro k hk
    rw [alike_concat h.last_mem, ← h.le_headlen k hk]
    exact le_agreeing_iff (hlast.trans hlen.symm) (by omega)
  have hle : (s.compare len a).headlen ≤ s.headlen := agreeing_le.1
  have hsmall : (s.compare len a).headlen ≤ len := Nat.le_trans hle hbound
  have hsame : (s.compare len a).headlen = len → (s.compare len a).taillen = len := by
    intro heq
    have hnot : ¬ (s.compare len a).headlen < len := by omega
    rw [show (s.compare len a).taillen = s.taillen from if_neg hnot]
    exact h.same (by omega)
  constructor
  · exact List.getLast?_concat
  · intro x hx
    rcases List.mem_append.mp hx with hx | hx
    · exact h.length x hx
    · rw [List.mem_singleton.mp hx, hlen]
  · exact hsmall
  · exact hheadlen
  · exact hsame
  · intro hhead
    have htail : (s.compare len a).taillen ≤ len := by
      rw [taillen_compare hhead]
      exact Nat.le_trans agreeing_le.2 (by rw [List.length_reverse, hlast])
    exact ((le_taillen_compare hlast hlen htail hhead).mp (Nat.le_refl _)).2.1
  · intro k hk halike
    rcases Nat.lt_or_eq_of_le hsmall with hhead | heq
    · obtain ⟨hbefore, hdrop⟩ := (alike_concat h.last_mem).mp halike
      exact (le_taillen_compare hlast hlen hk hhead).mpr
        ⟨Nat.le_succ_of_le (h.le_taillen k hk hbefore),
          lt_of_alike_drop hheadlen hhead hk halike, hdrop⟩
    · rw [hsame heq]
      exact hk

/-- The tail of a last pass is common exactly when the last two lists agree from no place on from
which the others differ, as long as the lists differ before that place. -/
theorem Scanned.alike_tail_iff (h : Scanned len as s) (hlen : a.length = len)
    (hhead : (s.compare len a).headlen < len) :
    Alike (List.drop (len - (s.compare len a).taillen)) (as ++ [a]) ↔
      ∀ k, s.last.drop k = a.drop k →
        Alike (List.take k) (as ++ [a]) ∨ Alike (List.drop k) (as ++ [a]) := by
  have hs := h.compare hlen
  have htail := hs.taillen_le
  have hlast := h.length_last
  constructor
  · intro halike k hk
    by_cases hkhead : k ≤ (s.compare len a).headlen
    · exact .inl ((hs.le_headlen k (Nat.le_trans hkhead hs.headlen_le)).mp hkhead)
    right
    by_cases hklen : k ≤ len
    · have hprior : (s.compare len a).taillen ≤ s.taillen :=
        h.le_taillen _ htail ((alike_concat h.last_mem).mp halike).1
      have hdrop : len - (len - k) = k := by omega
      have hle : len - k ≤ (s.compare len a).taillen := by
        by_contra hnot
        -- the scan goes on from the common tail as long as the last two agree
        have hnext : (s.compare len a).taillen + 1 ≤ (s.compare len a).taillen := by
          refine (le_taillen_compare hlast hlen (by omega) hhead).mpr ⟨?_, by omega, ?_⟩
          · omega
          · have hsum : len - ((s.compare len a).taillen + 1) =
                k + (len - ((s.compare len a).taillen + 1) - k) := by omega
            rw [hsum, ← List.drop_drop, ← List.drop_drop, hk]
        omega
      apply halike.mono
      intro x _ y _ hxy
      have hsum : k = len - (s.compare len a).taillen +
          (k - (len - (s.compare len a).taillen)) := by omega
      rw [hsum, ← List.drop_drop, ← List.drop_drop, hxy]
    · intro x hx y hy
      rw [List.drop_eq_nil_of_le (by rw [hs.length x hx]; omega),
        List.drop_eq_nil_of_le (by rw [hs.length y hy]; omega)]
  · intro hall
    obtain ⟨-, hroom, hagree⟩ := (le_taillen_compare hlast hlen htail hhead).mp (Nat.le_refl _)
    rcases hall _ hagree with htake | hdrop
    · have := (hs.le_headlen _ (Nat.sub_le _ _)).mpr htake
      omega
    · exact hdrop

end HeadTail

namespace PbbAddressBlock

variable {family : Family} {first a : Address family} {rest as : List (Address family)}

theorem getHeadTail_concat :
    getHeadTail family first (rest ++ [a]) =
      (getHeadTail family first rest).compare family.size a.bytes := by
  simp [getHeadTail]

theorem scanned_getHeadTail :
    (getHeadTail family first rest).Scanned family.size
      ((first :: first :: rest).map Address.bytes) := by
  induction rest using List.reverseRecOn with
  | nil => exact (HeadTail.Scanned.start first.length_bytes []).compare first.length_bytes
  | append_singleton rest a ih =>
    rw [getHeadTail_concat, ← List.cons_append, ← List.cons_append, List.map_append]
    exact ih.compare a.length_bytes

theorem getHeadTail_cur : ∃ c ∈ first :: rest, (getHeadTail family first rest).cur = c.bytes := by
  induction rest using List.reverseRecOn with
  | nil => exact ⟨first, List.mem_cons_self, rfl⟩
  | append_singleton rest a _ =>
    obtain ⟨c, hc, heq⟩ := List.mem_map.mp (@scanned_getHeadTail family first rest).last_mem
    refine ⟨c, ?_, by rw [getHeadTail_concat]; exact heq.symm⟩
    rw [← List.cons_append]
    rcases List.mem_cons.mp hc with rfl | hc
    · exact List.mem_append_left _ List.mem_cons_self
    · exact List.mem_append_left _ hc

/-- What is put together for an address from the head, its own bytes and the tail. -/
def rebuilt (s : HeadTail) (a : Address family) : Option (Address family) :=
  Address.ofBytes family (head s ++
    (a.bytes.drop s.headlen).take (family.size - s.headlen - s.taillen) ++ tail family s)

theorem ofBytes_eq_some_iff {bytes : List UInt8} :
    Address.ofBytes family bytes = some a ↔ bytes = a.bytes := by
  unfold Address.ofBytes
  constructor
  · intro h
    split at h
    · exact congrArg Address.bytes (Option.some.inj h)
    · cases h
  · intro h
    subst h
    simp only [a.length_bytes, dif_pos]

/-- The first address is compared with itself. -/
theorem alike_scanned {f : List UInt8 → List UInt8} :
    Alike f ((first :: first :: rest).map Address.bytes) ↔
      Alike (fun a => f a.bytes) (first :: rest) := by
  rw [alike_map]
  simp [Alike]

theorem take_headlen (ha : a ∈ first :: rest) :
    head (getHeadTail family first rest) =
      a.bytes.take (getHeadTail family first rest).headlen := by
  have hs := @scanned_getHeadTail family first rest
  obtain ⟨c, hc, hcur⟩ := @getHeadTail_cur family first rest
  rw [head, hcur]
  exact alike_scanned.mp ((hs.le_headlen _ hs.headlen_le).mp (Nat.le_refl _)) c hc a ha

theorem headlen_eq_iff : (getHeadTail family first rest).headlen = family.size ↔
    Alike Address.bytes (first :: rest) := by
  have hs := @scanned_getHeadTail family first rest
  have htake (a : Address family) : a.bytes.take family.size = a.bytes :=
    List.take_of_length_le (Nat.le_of_eq a.length_bytes)
  have hiff := hs.le_headlen family.size (Nat.le_refl _)
  rw [alike_scanned] at hiff
  simp only [htake] at hiff
  constructor
  · intro heq
    exact hiff.mp (Nat.le_of_eq heq.symm)
  · intro halike
    exact Nat.le_antisymm hs.headlen_le (hiff.mpr halike)

theorem length_head : (head (getHeadTail family first rest)).length =
    (getHeadTail family first rest).headlen := by
  rw [take_headlen List.mem_cons_self, List.length_take, first.length_bytes]
  exact Nat.min_eq_left scanned_getHeadTail.headlen_le

theorem length_tail : (tail family (getHeadTail family first rest)).length =
    (getHeadTail family first rest).taillen := by
  obtain ⟨c, -, hcur⟩ := @getHeadTail_cur family first rest
  have := (@scanned_getHeadTail family first rest).taillen_le
  rw [tail, hcur, List.length_drop, c.length_bytes]
  omega

/-- An address is put together again when the others do not take all of it and it has the tail. -/
theorem rebuilt_eq_iff (ha : a ∈ first :: rest) :
    rebuilt (getHeadTail family first rest) a = some a ↔
      (getHeadTail family first rest).headlen < family.size ∧
        a.bytes.drop (family.size - (getHeadTail family first rest).taillen) =
          tail family (getHeadTail family first rest) := by
  have hs := @scanned_getHeadTail family first rest
  have hlen := a.length_bytes
  generalize hg : getHeadTail family first rest = s at hs
  have hhead : head s = a.bytes.take s.headlen := by
    rw [← hg]
    exact take_headlen ha
  have htail : (tail family s).length = s.taillen := by
    rw [← hg]
    exact length_tail
  rw [rebuilt, ofBytes_eq_some_iff]
  rcases Nat.lt_or_eq_of_le hs.headlen_le with hlt | heq
  · have hroom := hs.room hlt
    have hsum : family.size - s.taillen =
        s.headlen + (family.size - s.headlen - s.taillen) := by omega
    have hfront : head s ++ (a.bytes.drop s.headlen).take (family.size - s.headlen - s.taillen) =
        a.bytes.take (family.size - s.taillen) := by
      rw [hhead, hsum, List.take_add]
    rw [hfront]
    constructor
    · intro h
      refine ⟨hlt, ?_⟩
      have hall := h.trans (List.take_append_drop (family.size - s.taillen) a.bytes).symm
      exact (List.append_cancel_left hall).symm
    · intro h
      rw [← h.2, List.take_append_drop]
  · have htaillen := hs.same heq
    constructor
    · intro h
      have hpos := family.size_pos
      have := congrArg List.length h
      rw [List.length_append, List.length_append, hhead, htail, List.length_take] at this
      exfalso
      omega
    · intro h
      exact absurd h.1 (by omega)

/-- When the last two addresses agree from some place on, all of them do, or they are alike
before it. -/
def TailKept (as : List (Address family)) : Prop :=
  ∀ init x y, as = init ++ [x, y] → ∀ k, x.bytes.drop k = y.bytes.drop k →
    Alike (fun a => a.bytes.take k) as ∨ Alike (fun a => a.bytes.drop k) as

/-- Two addresses have nothing but what they agree in. -/
theorem tailKept_pair (a b : Address family) : TailKept [a, b] := by
  intro init x y heq k hk
  have hpair : [] ++ [a, b] = init ++ [x, y] := heq
  obtain ⟨-, hxy⟩ := List.append_inj' hpair rfl
  obtain ⟨rfl, rfl⟩ : a = x ∧ b = y := by simpa using hxy
  right
  exact (alike_concat (List.mem_singleton_self a)).mpr ⟨alike_singleton, hk⟩

theorem tailKept_concat {x y : Address family} (hlast : (first :: rest).getLast? = some x) :
    TailKept (first :: (rest ++ [y])) ↔ ∀ k, x.bytes.drop k = y.bytes.drop k →
      Alike (fun a => a.bytes.take k) (first :: (rest ++ [y])) ∨
        Alike (fun a => a.bytes.drop k) (first :: (rest ++ [y])) := by
  obtain ⟨init, hinit⟩ := List.getLast?_eq_some_iff.mp hlast
  have heq : first :: (rest ++ [y]) = init ++ [x, y] := by
    rw [← List.cons_append, hinit, List.append_assoc]
    rfl
  constructor
  · intro h
    exact h init x y heq
  · intro h init' x' y' heq'
    have hpair : init ++ [x, y] = init' ++ [x', y'] := heq.symm.trans heq'
    obtain ⟨-, hxy⟩ := List.append_inj' hpair rfl
    obtain ⟨rfl, rfl⟩ : x = x' ∧ y = y' := by simpa using hxy
    exact h

theorem alike_tail_iff {y : Address family}
    (hlt : (getHeadTail family first (rest ++ [y])).headlen < family.size) :
    Alike (fun a => a.bytes.drop
        (family.size - (getHeadTail family first (rest ++ [y])).taillen))
      (first :: (rest ++ [y])) ↔ TailKept (first :: (rest ++ [y])) := by
  have hs := @scanned_getHeadTail family first rest
  obtain ⟨x, hx, hlast⟩ : ∃ x, (first :: rest).getLast? = some x ∧
      (getHeadTail family first rest).last = x.bytes := by
    have h := hs.last
    rw [List.getLast?_map, List.getLast?_cons_cons] at h
    obtain ⟨x, hx, hbytes⟩ := Option.map_eq_some_iff.mp h
    exact ⟨x, hx, hbytes.symm⟩
  rw [getHeadTail_concat] at hlt ⊢
  have hiff := hs.alike_tail_iff y.length_bytes hlt
  have hmap : (first :: first :: rest).map Address.bytes ++ [y.bytes] =
      (first :: first :: (rest ++ [y])).map Address.bytes := by simp
  rw [hmap, hlast] at hiff
  simp only [alike_scanned] at hiff
  rw [hiff, tailKept_concat hx]

/-- The addresses of a block are put together as they were. -/
theorem rebuilt_iff (hrest : rest ≠ []) :
    (∀ a ∈ first :: rest, rebuilt (getHeadTail family first rest) a = some a) ↔
      ¬ Alike Address.bytes (first :: rest) ∧ TailKept (first :: rest) := by
  obtain ⟨r, y, rfl⟩ : ∃ r y, rest = r ++ [y] := by
    rcases List.eq_nil_or_concat rest with h | ⟨r, y, h⟩
    · exact absurd h hrest
    · exact ⟨r, y, h.trans List.concat_eq_append⟩
  have hs := @scanned_getHeadTail family first (r ++ [y])
  have hdiffer : ¬ Alike Address.bytes (first :: (r ++ [y])) ↔
      (getHeadTail family first (r ++ [y])).headlen < family.size := by
    rw [← headlen_eq_iff]
    have := hs.headlen_le
    omega
  rw [hdiffer]
  constructor
  · intro h
    have hlt := ((rebuilt_eq_iff List.mem_cons_self).mp (h first List.mem_cons_self)).1
    refine ⟨hlt, (alike_tail_iff hlt).mp ?_⟩
    intro a ha b hb
    have htail := ((rebuilt_eq_iff ha).mp (h a ha)).2
    exact htail.trans ((rebuilt_eq_iff hb).mp (h b hb)).2.symm
  · rintro ⟨hlt, hkept⟩ a ha
    have halike := (alike_tail_iff hlt).mpr hkept
    obtain ⟨c, hc, hcur⟩ := @getHeadTail_cur family first (r ++ [y])
    refine (rebuilt_eq_iff ha).mpr ⟨hlt, ?_⟩
    rw [tail, hcur]
    exact halike a ha c hc

end PbbAddressBlock

end CudaNs3.Network.PacketBB
