import CudaNs3.Tcp.Reassembly

/-!
# The FIN in the receive buffer

The bytes of the segments and the FIN decide nothing about which bytes are stored: a buffer with a
FIN does what one without a FIN does, up to the number that the FIN takes once all before it has
arrived, and the blocks of a buffer are told by where they begin and end.
-/

namespace CudaNs3.Tcp

open SequenceNumber TcpRxBuffer Intervals
set_option autoImplicit false

namespace TcpRxBuffer
variable {s : TcpRxBuffer} {g : Bool} {f seq head tail : SequenceNumber 32} {p : List UInt8}

/-- The same buffer, where a FIN is known or not. -/
abbrev withFin (s : TcpRxBuffer) (g : Bool) (f : SequenceNumber 32) : TcpRxBuffer :=
  { s with gotFin := g, finSeq := f }


theorem updateSackList_withFin :
    (s.withFin g f).updateSackList head tail =
      (s.updateSackList head tail).map fun s => s.withFin g f := by
  unfold updateSackList
  simp only
  by_cases hgap : (!gt head s.nextRxSeq) = true
  · rw [if_pos hgap, if_pos hgap]
    rfl
  · rw [if_neg hgap, if_neg hgap, Option.map_map]
    rfl

theorem catchUp_withFin {l : RxBlocks} :
    catchUp (s.withFin g f) l = (catchUp s l).map fun s => s.withFin g f := by
  induction l generalizing s with
  | nil => rfl
  | cons block rest ih =>
    obtain ⟨first, q⟩ := block
    unfold catchUp
    simp only
    by_cases hbelow : lt first s.nextRxSeq = true
    · rw [if_pos hbelow, if_pos hbelow]
      exact ih
    rw [if_neg hbelow, if_neg hbelow]
    by_cases habove : gt first s.nextRxSeq = true
    · rw [if_pos habove, if_pos habove]
      rfl
    · rw [if_neg habove, if_neg habove, Option.map_bind]
      congr 1
      funext sackList
      exact @ih { s with
        nextRxSeq := first + getSize q
        availBytes := s.availBytes + getSize q
        sackList := sackList }

theorem countFin_of_not (h : s.gotFin = false) : s.countFin = s := by
  rw [countFin, h]
  rfl

theorem updateSackList_same {t : TcpRxBuffer} (h : s.updateSackList head tail = some t) :
    t.gotFin = s.gotFin ∧ t.maxBuffer = s.maxBuffer := by
  unfold updateSackList at h
  split at h
  · cases h
  · obtain ⟨list, -, rfl⟩ := Option.map_eq_some_iff.mp h
    exact ⟨rfl, rfl⟩

theorem catchUp_same {t : TcpRxBuffer} {l : RxBlocks} (h : catchUp s l = some t) :
    t.gotFin = s.gotFin ∧ t.maxBuffer = s.maxBuffer := by
  induction l generalizing s with
  | nil =>
    obtain rfl := Option.some.inj h
    exact ⟨rfl, rfl⟩
  | cons block rest ih =>
    unfold catchUp at h
    split at h
    · exact ih h
    split at h
    · obtain rfl := Option.some.inj h
      exact ⟨rfl, rfl⟩
    · obtain ⟨sackList, -, h⟩ := Option.bind_eq_some_iff.mp h
      obtain ⟨hfin, hmax⟩ := ih h
      exact ⟨hfin, hmax⟩

/-- The FIN is counted at the end, and not looked at before. -/
theorem insert_withFin (hs : s.gotFin = false) : (s.withFin g f).insert head tail p =
    (s.insert head tail p).map fun s => (s.withFin g f).countFin := by
  unfold insert
  simp only
  by_cases hthere : (s.data.any fun block => block.1 = head) = true
  · rw [if_pos hthere, if_pos hthere]
    rfl
  rw [if_neg hthere, if_neg hthere, Option.map_bind]
  have hsack : (if gt head s.nextRxSeq then
        updateSackList { s.withFin g f with data := store head p s.data } head tail
      else some { s.withFin g f with data := store head p s.data }) =
      (if gt head s.nextRxSeq then updateSackList { s with data := store head p s.data } head tail
      else some { s with data := store head p s.data }).map fun s => s.withFin g f := by
    by_cases hgap : gt head s.nextRxSeq = true
    · rw [if_pos hgap, if_pos hgap]
      exact @updateSackList_withFin { s with data := store head p s.data } g f head tail
    · rw [if_neg hgap, if_neg hgap]
      rfl
  rw [hsack, Option.bind_map]
  cases hlist : (if gt head s.nextRxSeq then
      updateSackList { s with data := store head p s.data } head tail
    else some { s with data := store head p s.data }) with
  | none => rfl
  | some t =>
    have hgot : t.gotFin = false := by
      split at hlist
      · exact (updateSackList_same hlist).1.trans hs
      · obtain rfl := Option.some.inj hlist
        exact hs
    have hcatch := @catchUp_withFin { t with size := t.size + getSize p } g f t.data
    simp only [Option.bind_some, Function.comp_apply]
    have heq : ({ t.withFin g f with size := t.size + getSize p } : TcpRxBuffer) =
        withFin { t with size := t.size + getSize p } g f := rfl
    rw [heq, hcatch, Option.map_map, Option.map_map]
    cases hend : catchUp { t with size := t.size + getSize p } t.data with
    | none => rfl
    | some u =>
      have hu : u.gotFin = false := (catchUp_same hend).1.trans hgot
      simp only [Option.map_some, Function.comp_apply, countFin_of_not hu]

/-- What is left of a segment is put into the buffer. -/
def finishAdd (s : TcpRxBuffer) (seq : SequenceNumber 32) (p : List UInt8) (t : Trimmed) :
    Option (TcpRxBuffer × Bool) :=
  if ge t.headSeq t.tailSeq then some ({ s with data := t.data, size := t.size }, false)
  else if getSize ((p.drop (distance t.headSeq seq).toNat).take
      (distance t.tailSeq t.headSeq).toNat) ≠ distance t.tailSeq t.headSeq then none
  else
    (insert { s with data := t.data, size := t.size } t.headSeq t.tailSeq
      ((p.drop (distance t.headSeq seq).toNat).take (distance t.tailSeq t.headSeq).toNat)).map
        fun s => (s, true)

theorem add_eq : s.add seq p = s.finishAdd seq p
    (trim s.data s.size (s.fitWindow seq (seq + getSize p)).1
      (s.fitWindow seq (seq + getSize p)).2) := rfl

theorem insert_maxBuffer {t : TcpRxBuffer} (h : s.insert head tail p = some t) :
    t.maxBuffer = s.maxBuffer := by
  unfold insert at h
  simp only at h
  split at h
  · cases h
  obtain ⟨u, hu, h⟩ := Option.bind_eq_some_iff.mp h
  obtain ⟨v, hv, rfl⟩ := Option.map_eq_some_iff.mp h
  have hcount : v.countFin.maxBuffer = v.maxBuffer := by
    unfold countFin
    split <;> rfl
  have hsack : u.maxBuffer = s.maxBuffer := by
    split at hu
    · exact (updateSackList_same hu).2
    · obtain rfl := Option.some.inj hu
      rfl
  exact hcount.trans ((catchUp_same hv).2.trans hsack)

theorem add_maxBuffer {t : TcpRxBuffer} {added : Bool} (h : s.add seq p = some (t, added)) :
    t.maxBuffer = s.maxBuffer := by
  rw [add_eq, finishAdd] at h
  split at h
  · obtain ⟨rfl, -⟩ := Prod.mk.inj (Option.some.inj h)
    rfl
  split at h
  · cases h
  · obtain ⟨u, hinsert, heq⟩ := Option.map_eq_some_iff.mp h
    obtain ⟨rfl, -⟩ := Prod.mk.inj heq
    have hmax := insert_maxBuffer hinsert
    exact hmax

theorem fitWindow_withFin : (s.withFin g f).fitWindow head tail = s.fitWindow head tail := rfl

theorem add_withFin (hs : s.gotFin = false) : (s.withFin g f).add seq p =
    (s.add seq p).map fun r =>
      (if r.2 then (r.1.withFin g f).countFin else r.1.withFin g f, r.2) := by
  rw [add_eq, add_eq, fitWindow_withFin]
  obtain ⟨t, ht⟩ : ∃ t, trim s.data s.size (s.fitWindow seq (seq + getSize p)).1
    (s.fitWindow seq (seq + getSize p)).2 = t := ⟨_, rfl⟩
  rw [ht, finishAdd, finishAdd]
  by_cases hdone : ge t.headSeq t.tailSeq = true
  · rw [if_pos hdone, if_pos hdone]
    rfl
  rw [if_neg hdone, if_neg hdone]
  by_cases hsize : getSize ((p.drop (distance t.headSeq seq).toNat).take
      (distance t.tailSeq t.headSeq).toNat) ≠ distance t.tailSeq t.headSeq
  · rw [if_pos hsize, if_pos hsize]
    rfl
  rw [if_neg hsize, if_neg hsize]
  have hins := @insert_withFin { s with data := t.data, size := t.size } g f t.headSeq t.tailSeq
    ((p.drop (distance t.headSeq seq).toNat).take (distance t.tailSeq t.headSeq).toNat) hs
  have heq : ({ s.withFin g f with data := t.data, size := t.size } : TcpRxBuffer) =
      withFin { s with data := t.data, size := t.size } g f := rfl
  rw [heq, hins, Option.map_map, Option.map_map]
  rfl

/-- The expected number only has to be beyond the blocks that are read. -/
theorem extractLoop_withFin {fuel : Nat} {n x : BitVec 32} {t : TcpRxBuffer} {out : List UInt8}
    (hx : ∀ block ∈ s.data, le block.1 s.nextRxSeq → le block.1 x)
    (h : extractLoop fuel s n = some (t, out)) :
    extractLoop fuel { s.withFin g f with nextRxSeq := x } n =
      some ({ t.withFin g f with nextRxSeq := x }, out) := by
  induction fuel generalizing s n out with
  | zero => cases h
  | succ fuel ih =>
    unfold extractLoop at h ⊢
    by_cases hzero : n = 0
    · rw [if_pos hzero] at h ⊢
      obtain ⟨rfl, rfl⟩ := Prod.mk.inj (Option.some.inj h)
      rfl
    rw [if_neg hzero] at h ⊢
    cases hdata : s.data with
    | nil =>
      rw [hdata] at h
      cases h
    | cons block rest =>
      obtain ⟨first, q⟩ := block
      rw [hdata] at h hx
      simp only at h ⊢
      by_cases hle : (!le first s.nextRxSeq) = true
      · rw [if_pos hle] at h
        cases h
      rw [if_neg hle] at h
      have hle' : le first x = true := hx _ List.mem_cons_self (by simpa using hle)
      rw [if_neg (by simp [hle'])]
      by_cases hwhole : getSize q ≤ n
      · rw [if_pos hwhole] at h ⊢
        obtain ⟨⟨t', out'⟩, hloop, heq⟩ := Option.map_eq_some_iff.mp h
        obtain ⟨rfl, rfl⟩ := Prod.mk.inj heq
        have hrest := @ih { s with
          data := rest
          size := s.size - getSize q
          availBytes := s.availBytes - getSize q } (n - getSize q) out'
          (fun block hb => hx block (List.mem_cons_of_mem _ hb)) hloop
        rw [Option.map_eq_some_iff]
        exact ⟨_, hrest, rfl⟩
      · rw [if_neg hwhole] at h ⊢
        obtain ⟨rfl, rfl⟩ := Prod.mk.inj (Option.some.inj h)
        rfl

theorem extractLoop_maxBuffer {fuel : Nat} {n : BitVec 32} {t : TcpRxBuffer} {out : List UInt8}
    (h : extractLoop fuel s n = some (t, out)) : t.maxBuffer = s.maxBuffer := by
  induction fuel generalizing s n out with
  | zero => cases h
  | succ fuel ih =>
    unfold extractLoop at h
    split at h
    · obtain ⟨rfl, -⟩ := Prod.mk.inj (Option.some.inj h)
      rfl
    split at h
    · cases h
    split at h
    · cases h
    split at h
    · obtain ⟨⟨t', out'⟩, hloop, heq⟩ := Option.map_eq_some_iff.mp h
      obtain ⟨rfl, -⟩ := Prod.mk.inj heq
      exact (ih hloop).trans rfl
    · obtain ⟨rfl, -⟩ := Prod.mk.inj (Option.some.inj h)
      rfl

end TcpRxBuffer

namespace Reading

/-- The reading without its FIN, where the first missing byte is at `m`. -/
def bare (n : SequenceNumber 32) (r : Reading) (m : Nat) : Reading :=
  ⟨{ r.rx with gotFin := false, nextRxSeq := at32 n m }, r.out⟩

end Reading

/-- The state by places where a FIN may be known. It has been passed when its number is counted. -/
structure FinPlaces (n : SequenceNumber 32) (w : List UInt8) (r : Reading) (l : List (Nat × Nat))
    (m : Nat) (k : List (Nat × Nat)) (passed : Bool) : Prop where
  places : Places n w (r.bare n m) l m k
  next : r.rx.nextRxSeq = at32 n (m + if passed then 1 else 0)

namespace FinPlaces
variable {n : SequenceNumber 32} {w : List UInt8} {r : Reading} {l : List (Nat × Nat)} {m a b : Nat}
  {k : List (Nat × Nat)} {passed : Bool}

theorem new (n : SequenceNumber 32) (w : List UInt8) (maxBuffer : BitVec 32) :
    FinPlaces n w ⟨.new n maxBuffer, []⟩ [] 0 [] false where
  places := by
    have h := Places.new n w maxBuffer
    have heq : Reading.bare n ⟨.new n maxBuffer, []⟩ 0 = ⟨.new n maxBuffer, []⟩ := by
      simp [Reading.bare, TcpRxBuffer.new]
    rwa [heq]
  next := by simp [TcpRxBuffer.new]

/-- Where the FIN is does not matter as long as there is none. -/
theorem places_finSeq (h : Places n w r l m k) (f : SequenceNumber 32) :
    Places n w ⟨{ r.rx with finSeq := f }, r.out⟩ l m k :=
  ⟨h.data, h.next, h.sackList, h.gotFin, h.size, h.availBytes, h.out, h.ascending, h.within, h.span,
    h.le, h.covered, h.missing, h.sacks⟩

theorem outstanding_bare (ho : Outstanding n r a b) (m : Nat) : Outstanding n (r.bare n m) a b :=
  ⟨ho.segment, ho.read, ho.blocks, ho.window⟩

/-- What a segment does to a buffer that has not passed the FIN. -/
structure Added (n : SequenceNumber 32) (w : List UInt8) (r : Reading) (l : List (Nat × Nat))
    (m : Nat) (k : List (Nat × Nat)) (a b : Nat) (rx : TcpRxBuffer) (ok : Bool)
    (l' : List (Nat × Nat)) (m' : Nat) (k' : List (Nat × Nat)) : Prop where
  fin : FinPlaces n w { r with rx := rx } l' m' k'
    (ok && r.rx.gotFin && decide (at32 n m' = r.rx.finSeq))
  kept : ∀ x, Covers l x → Covers l' x
  maxBuffer : rx.maxBuffer = r.rx.maxBuffer
  gotFin : rx.gotFin = r.rx.gotFin
  finSeq : rx.finSeq = r.rx.finSeq
  stored : if ok then ∃ head tail, Places.Stored r.rx.maxBuffer l m k a b head tail l' m' k'
    else l'.Sublist l ∧ m' = m ∧ k' = k

theorem withFin_bare (h : FinPlaces n w r l m k false) :
    (r.bare n m).rx.withFin r.rx.gotFin r.rx.finSeq = r.rx := by
  have hnext := h.next
  simp only [Bool.false_eq_true, if_false, Nat.add_zero] at hnext
  simp only [Reading.bare, ← hnext]

theorem add (h : FinPlaces n w r l m k false) (hab : a ≤ b) (hb : b ≤ w.length)
    (ho : Outstanding n r a b) :
    ∃ rx ok l' m' k', r.rx.add (at32 n a) (piece w a b) = some (rx, ok) ∧
      Added n w r l m k a b rx ok l' m' k' := by
  obtain ⟨rx, ok, l', m', k', hadd, hplaces, hkept, hmax, hstored⟩ :=
    h.places.add hab hb (outstanding_bare ho m)
  have hrun : r.rx.add (at32 n a) (piece w a b) =
      some (if ok then (rx.withFin r.rx.gotFin r.rx.finSeq).countFin
        else rx.withFin r.rx.gotFin r.rx.finSeq, ok) := by
    have hfin := @add_withFin (r.bare n m).rx r.rx.gotFin r.rx.finSeq (at32 n a) (piece w a b) rfl
    rw [h.withFin_bare, hadd] at hfin
    exact hfin
  have hnext : rx.nextRxSeq = at32 n m' := hplaces.next
  have hgot : rx.gotFin = false := hplaces.gotFin
  have hbare (x : SequenceNumber 32) : Places n w (Reading.bare n
      ⟨{ rx.withFin r.rx.gotFin r.rx.finSeq with nextRxSeq := x }, r.out⟩ m') l' m' k' := by
    have hsame := places_finSeq hplaces r.rx.finSeq
    unfold Reading.bare
    simp only [← hnext, ← hgot]
    exact hsame
  refine ⟨_, ok, l', m', k', hrun, ?_⟩
  cases ok with
  | false => exact ⟨⟨hbare rx.nextRxSeq, hnext⟩, hkept, hmax, rfl, rfl, hstored⟩
  | true =>
    have hcount : (rx.withFin r.rx.gotFin r.rx.finSeq).countFin =
        { rx.withFin r.rx.gotFin r.rx.finSeq with
          nextRxSeq := at32 n (m' + if r.rx.gotFin && decide (at32 n m' = r.rx.finSeq) then 1 else 0) } := by
      unfold countFin
      simp only [hnext]
      split
      · rw [← at32_add]
        rfl
      · rw [Nat.add_zero, ← hnext]
    rw [if_pos rfl, hcount]
    exact ⟨⟨hbare _, rfl⟩, hkept, hmax, rfl, rfl, hstored⟩

/-- Nothing of a segment is left that ends before the next expected number. -/
theorem fitWindow_behind {s : TcpRxBuffer} {p : Nat × Nat} {base x : Nat}
    (hdata : s.data = blocksOf n w (p :: l)) (hnext : s.nextRxSeq = at32 n x)
    (hx : base ≤ x ∧ x < base + 2 ^ 31) (ha : base ≤ a ∧ a < base + 2 ^ 31)
    (hb : base ≤ b ∧ b < base + 2 ^ 31) (hp : base ≤ p.1 + s.maxBuffer.toNat)
    (hmax : p.1 + s.maxBuffer.toNat < base + 2 ^ 31)
    (hcut : Places.cut s.maxBuffer (p :: l) b ≤ x) :
    s.fitWindow (at32 n a) (at32 n b) =
      (at32 n (Places.cut s.maxBuffer (p :: l) b), at32 n (Places.cut s.maxBuffer (p :: l) b)) := by
  have hhead : (if lt (at32 n a) s.nextRxSeq = true then s.nextRxSeq else at32 n a) =
      at32 n (max a x) := by
    have hlt : lt (at32 n a) (at32 n x) = true ↔ a < x := lt_at32 (by omega) (by omega)
    rw [hnext]
    by_cases hax : a < x
    · rw [if_pos (hlt.mpr hax), Nat.max_eq_right (Nat.le_of_lt hax)]
    · rw [if_neg fun hh => hax (hlt.mp hh), Nat.max_eq_left (by omega)]
  have hend : at32 n p.1 + s.maxBuffer = at32 n (p.1 + s.maxBuffer.toNat) := by
    rw [← at32_add, BitVec.ofNat_toNat, BitVec.setWidth_eq]
  have htail : (if lt (at32 n (p.1 + s.maxBuffer.toNat)) (at32 n b) = true then
      at32 n (p.1 + s.maxBuffer.toNat) else at32 n b) =
        at32 n (min b (p.1 + s.maxBuffer.toNat)) := by
    have hlt : lt (at32 n (p.1 + s.maxBuffer.toNat)) (at32 n b) = true ↔
        p.1 + s.maxBuffer.toNat < b := lt_at32 (by omega) (by omega)
    by_cases hover : p.1 + s.maxBuffer.toNat < b
    · rw [if_pos (hlt.mpr hover), Nat.min_eq_right (Nat.le_of_lt hover)]
    · rw [if_neg fun hh => hover (hlt.mp hh), Nat.min_eq_left (by omega)]
  simp only [Places.cut] at hcut ⊢
  unfold TcpRxBuffer.fitWindow
  simp only [hhead, hdata, blocksOf, List.map_cons, hend, htail]
  have hlt : lt (at32 n (min b (p.1 + s.maxBuffer.toNat))) (at32 n (max a x)) = true ↔
      min b (p.1 + s.maxBuffer.toNat) < max a x := lt_at32 (by omega) (by omega)
  by_cases hempty : min b (p.1 + s.maxBuffer.toNat) < max a x
  · rw [if_pos (hlt.mpr hempty)]
  · rw [if_neg fun hh => hempty (hlt.mp hh), show max a x = min b (p.1 + s.maxBuffer.toNat) by omega]

/-- Nothing has been stored. -/
theorem finishAdd_false {s rx : TcpRxBuffer} {seq : SequenceNumber 32} {q : List UInt8} {t : Trimmed}
    (h : s.finishAdd seq q t = some (rx, false)) :
    ge t.headSeq t.tailSeq = true ∧ rx = { s with data := t.data, size := t.size } := by
  unfold finishAdd at h
  split at h
  · rename_i hdone
    obtain ⟨rfl, -⟩ := Prod.mk.inj (Option.some.inj h)
    exact ⟨hdone, rfl⟩
  split at h
  · cases h
  · obtain ⟨u, -, heq⟩ := Option.map_eq_some_iff.mp h
    cases (Prod.mk.inj heq).2

/-- Once the FIN has been passed, nothing of a segment that ends before it is stored. -/
theorem add_passed (h : FinPlaces n w r l m k true) (hab : a ≤ b) (hb : b ≤ w.length)
    (ho : Outstanding n r a b) (hm : m + 1 < min a r.out.length + 2 ^ 31)
    (hcut : Places.cut r.rx.maxBuffer l b ≤ m) :
    ∃ rx l', r.rx.add (at32 n a) (piece w a b) = some (rx, false) ∧
      FinPlaces n w { r with rx := rx } l' m k true ∧ l'.Sublist l ∧ (∀ x, Covers l x → Covers l' x) ∧
        rx.maxBuffer = r.rx.maxBuffer ∧ rx.gotFin = r.rx.gotFin ∧ rx.finSeq = r.rx.finSeq := by
  have ho' := outstanding_bare ho m
  have hplay := h.places.play ho'
  obtain ⟨rx, ok, l', m', k', hadd, hplaces, hkept, hmax, hstored⟩ := h.places.add hab hb ho'
  have hok : ok = false := by
    cases ok with
    | false => rfl
    | true =>
      obtain ⟨head, tail, hs⟩ := hstored
      have hlow := hs.le_head
      have hlt := hs.lt
      have hle := Nat.le_trans hs.tail_le hcut
      omega
  subst hok
  obtain ⟨hsub, rfl, rfl⟩ := hstored
  obtain ⟨hread, hnext, hseg, hblocks, hwindow⟩ := hplay
  have hle := h.places.le
  have hout : (r.bare n m').out = r.out := rfl
  rw [hout] at hread hnext hseg hblocks hwindow hle
  -- the two buffers leave the same of their blocks
  have hsame : ∃ t, (r.bare n m').rx.finishAdd (at32 n a) (piece w a b) t = some (rx, false) ∧
      ∃ head tail, ge head tail = true ∧ r.rx.add (at32 n a) (piece w a b) =
        r.rx.finishAdd (at32 n a) (piece w a b) { t with headSeq := head, tailSeq := tail } := by
    rw [add_eq] at hadd
    refine ⟨_, hadd, ?_⟩
    rw [add_eq]
    have hsize := at32_getSize (n := n) hab hb
    cases l with
    | nil =>
      have hdata : r.rx.data = [] := h.places.data
      have hfirst : r.rx.nextRxSeq = at32 n (m' + 1) := h.next
      have hdata' : (r.bare n m').rx.data = [] := hdata
      refine ⟨(r.rx.fitWindow (at32 n a) (at32 n a + getSize (piece w a b))).1,
        (r.rx.fitWindow (at32 n a) (at32 n a + getSize (piece w a b))).2, ?_, by
          rw [hdata, hdata']
          rfl⟩
      unfold TcpRxBuffer.fitWindow
      simp only [Places.cut] at hcut
      simp only [hdata, hsize, hfirst]
      have hlt : lt (at32 n a) (at32 n (m' + 1)) = true ↔ a < m' + 1 :=
        lt_at32 (by omega) (by omega)
      by_cases ham : a < m' + 1
      · rw [if_pos (hlt.mpr ham)]
        exact (ge_at32 (by omega) (by omega)).mpr (by omega)
      · rw [if_neg fun hh => ham (hlt.mp hh)]
        exact (ge_at32 (by omega) (by omega)).mpr (by omega)
    | cons p rest =>
      have hedge := hwindow p rfl
      have hmax : (r.bare n m').rx.maxBuffer = r.rx.maxBuffer := rfl
      obtain ⟨hlo, hne, -⟩ := h.places.ascending
      rw [hout] at hlo
      rw [hmax] at hedge
      have hbare := @fitWindow_behind n w rest a b (r.bare n m').rx p (min a r.out.length) m'
        h.places.data rfl (by omega) (by omega) (by omega) (by rw [hmax]; omega) hedge hcut
      have hreal := @fitWindow_behind n w rest a b r.rx p (min a r.out.length) (m' + 1)
        h.places.data h.next (by omega) (by omega) (by omega) (by omega) hedge
        (Nat.le_succ_of_le hcut)
      obtain ⟨hge, -⟩ := finishAdd_false hadd
      rw [hsize, hbare] at hge
      rw [hsize, hreal, hbare]
      exact ⟨_, _, hge, rfl⟩
  obtain ⟨t, hbare, head, tail, hge, hreal⟩ := hsame
  obtain ⟨-, rfl⟩ := finishAdd_false hbare
  refine ⟨{ r.rx with data := t.data, size := t.size }, l', ?_, ⟨hplaces, h.next⟩, hsub, hkept, rfl,
    rfl, rfl⟩
  rw [hreal, finishAdd, if_pos hge]

/-- The application reads. -/
theorem extract (h : FinPlaces n w r l m k passed) (hm : m + 1 < r.out.length + 2 ^ 31)
    (maxSize : BitVec 32) :
    ∃ rx out l', r.rx.extract maxSize = some (rx, out) ∧
      FinPlaces n w ⟨rx, r.out ++ out⟩ l' m k passed ∧
        (∀ x, Covers l x → x < (r.out ++ out).length ∨ Covers l' x) ∧
          (∀ p ∈ l', ∃ q ∈ l, p.2 = q.2) ∧
            rx.maxBuffer = r.rx.maxBuffer ∧ rx.gotFin = r.rx.gotFin ∧ rx.finSeq = r.rx.finSeq := by
  obtain ⟨rx, out, l', hextract, hplaces, hkept, hends⟩ := h.places.extract maxSize
  have hx : ∀ block ∈ (r.bare n m).rx.data,
      le block.1 (r.bare n m).rx.nextRxSeq → le block.1 r.rx.nextRxSeq := by
    intro block hblock hle
    rw [h.places.data] at hblock
    obtain ⟨p, hp, rfl⟩ := List.mem_map.mp hblock
    have hlo := (h.places.ascending.of_mem hp).1
    have hne := (h.places.ascending.of_mem hp).2
    have hspan := h.places.span p hp
    have hle' := h.places.le
    simp only [Reading.bare] at hlo hspan hle'
    rw [h.places.next, le_at32 (by omega) (by omega)] at hle
    rw [h.next]
    cases passed
    · exact (le_at32 (by simp; omega) (by simp; omega)).mpr (by simp; omega)
    · exact (le_at32 (by simp; omega) (by simp; omega)).mpr (by simp; omega)
  have hrun := @extractLoop_withFin (r.bare n m).rx r.rx.gotFin r.rx.finSeq _ _ _ rx out hx hextract
  have hnext : rx.nextRxSeq = at32 n m := hplaces.next
  have hgot : rx.gotFin = false := hplaces.gotFin
  refine ⟨{ rx.withFin r.rx.gotFin r.rx.finSeq with nextRxSeq := r.rx.nextRxSeq }, out, l', hrun,
    ⟨?_, h.next⟩, hkept, hends, ?_, rfl, rfl⟩
  · have hsame := places_finSeq hplaces r.rx.finSeq
    unfold Reading.bare
    simp only [← hnext, ← hgot]
    exact hsame
  · have hmax : rx.maxBuffer = (r.bare n m).rx.maxBuffer := extractLoop_maxBuffer hextract
    exact hmax

/-- A FIN is recorded; it is passed if it is at the first missing place. -/
theorem setFinSequence (h : FinPlaces n w r l m k passed) (f : SequenceNumber 32)
    (hf : passed = true → at32 n (m + 1) ≠ f) :
    FinPlaces n w { r with rx := r.rx.setFinSequence f } l m k
      (passed || decide (at32 n m = f)) := by
  have hplaces : Places n w (Reading.bare n { r with rx := r.rx.setFinSequence f } m) l m k :=
    places_finSeq h.places f
  refine ⟨hplaces, ?_⟩
  have hnext := h.next
  unfold TcpRxBuffer.setFinSequence
  simp only [hnext]
  cases passed with
  | true =>
    simp only [if_true, Bool.true_or]
    rw [if_neg (hf rfl)]
  | false =>
    simp only [Bool.false_eq_true, if_false, Nat.add_zero, Bool.false_or]
    by_cases hat : at32 n m = f
    · rw [if_pos hat, if_pos (decide_eq_true hat), ← at32_add]
      rfl
    · rw [if_neg hat, if_neg (by simpa using hat), Nat.add_zero]

end FinPlaces

end CudaNs3.Tcp
