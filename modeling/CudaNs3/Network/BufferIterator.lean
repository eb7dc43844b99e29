import CudaNs3.Network.BufferStorage

/-!
# Iterators

Every call that writes puts its bytes at the stored offset of the iterator, so a row of calls
is one write. `Write(start, end)` is the exception: it takes the virtual offset.
-/

namespace CudaNs3.Network.Buffer

set_option autoImplicit false

variable {h h' : Memory} {b o x y : Buffer} {bs : List UInt8} {rest : List Buffer}
variable {c n k pos : Nat}

/-! ### One write -/

/-- Where the byte at a virtual offset outside the zero area is stored. -/
def offset (b : Buffer) (c : Nat) : Nat :=
  if c < b.zeroAreaEnd then c else c - (b.zeroAreaEnd - b.zeroAreaStart)

/-- `n` bytes from `c` on are on one side of the zero area. -/
def Fits (b : Buffer) (c n : Nat) : Prop :=
  b.start ≤ c ∧ c + n ≤ b.zeroAreaStart ∨ b.zeroAreaEnd ≤ c ∧ c + n ≤ b.end_

theorem Fits.left {m : Nat} (hf : b.Fits c (n + m)) : b.Fits c n := by
  unfold Fits at *
  omega

theorem Fits.right {m : Nat} (hf : b.Fits c (n + m)) : b.Fits (c + n) m := by
  unfold Fits at *
  omega

theorem Ordered.offset_add (hb : b.Ordered) {m : Nat} (hf : b.Fits c (n + m)) (hm : 0 < m) :
    b.offset (c + n) = b.offset c + n := by
  have := hb.zero_le
  unfold Fits at hf
  unfold offset
  split_ifs <;> omega

theorem Ordered.offset_add_le (hb : b.Ordered) (hf : b.Fits c n) :
    b.offset c + n ≤ b.getInternalEnd := by
  have := hb.zero_le
  have := hb.le_end
  unfold Fits at hf
  unfold offset getInternalEnd
  split_ifs <;> omega

theorem store_of_le (hle : pos + bs.length ≤ (h.blocks k).size) :
    h.store k pos bs = .ok (h.poke k pos bs) :=
  if_neg fun ⟨_, hlt⟩ => Nat.not_le.mpr hlt hle

@[simp] theorem poke_nil (h : Memory) (k pos : Nat) : h.poke k pos [] = h := by
  have hset : h.set k (h.blocks k) = h := by
    unfold Memory.set
    congr
    funext i
    split_ifs with hi
    · rw [hi]
    · rfl
  simpa [Memory.poke] using hset

@[simp] theorem poke_size (h : Memory) (k pos : Nat) (bs : List UInt8) (i : Nat) :
    ((h.poke k pos bs).blocks i).size = (h.blocks i).size := by
  simp only [Memory.poke, Memory.set_blocks]
  split_ifs with hi
  · rw [hi]
  · rfl

theorem poke_append (h : Memory) (k pos : Nat) (bs cs : List UInt8) :
    h.poke k pos (bs ++ cs) = (h.poke k pos bs).poke k (pos + bs.length) cs := by
  simp only [Memory.poke, Memory.set, ite_true, Bytes.write_append]
  congr
  funext i
  split_ifs <;> rfl

theorem store_append (h : Memory) (k pos : Nat) (bs cs : List UInt8) :
    h.store k pos (bs ++ cs) =
      h.store k pos bs >>= fun h => h.store k (pos + bs.length) cs := by
  by_cases hbs : bs ≠ [] ∧ (h.blocks k).size < pos + bs.length
  · have hlt : (h.blocks k).size < pos + (bs ++ cs).length := by
      rw [List.length_append]
      omega
    have hall : bs ++ cs ≠ [] ∧ (h.blocks k).size < pos + (bs ++ cs).length := by
      refine ⟨fun hnil => hbs.1 ?_, hlt⟩
      exact (List.append_eq_nil_iff.mp hnil).1
    unfold Memory.store
    rw [if_pos hall, if_pos hbs]
    rfl
  · have hfirst : h.store k pos bs = .ok (h.poke k pos bs) := if_neg hbs
    rw [hfirst]
    change h.store k pos (bs ++ cs) = (h.poke k pos bs).store k (pos + bs.length) cs
    unfold Memory.store
    rw [poke_size, ← poke_append, List.length_append, Nat.add_assoc]
    by_cases hcs : cs = []
    · subst hcs
      rw [List.append_nil, if_neg (by simpa using hbs), if_neg (by simp)]
    · simp [hcs]

theorem Ordered.store_offset (bs : List UInt8) (hb : b.Ordered)
    (hst : b.getInternalEnd ≤ (h.blocks b.data).size) (hf : b.Fits c bs.length) :
    h.store b.data (b.offset c) bs = .ok (h.poke b.data (b.offset c) bs) :=
  store_of_le (Nat.le_trans (hb.offset_add_le hf) hst)

theorem Ordered.checkNoZero (hb : b.Ordered) (hf : b.Fits c n) :
    (b.iterator c).checkNoZero c (c + n) := by
  have := hb.start_le
  have := hb.zero_le
  have := hb.le_end
  unfold Fits at hf
  simp only [Iterator.checkNoZero, iterator]
  omega

theorem Ordered.poke_offset_append (hb : b.Ordered) {cs : List UInt8}
    (hf : b.Fits c (bs.length + cs.length)) :
    (h.poke b.data (b.offset c) bs).poke b.data (b.offset (c + bs.length)) cs =
      h.poke b.data (b.offset c) (bs ++ cs) := by
  rcases Nat.eq_zero_or_pos cs.length with h0 | hpos
  · rw [List.eq_nil_of_length_eq_zero h0, poke_nil, List.append_nil]
  · rw [hb.offset_add hf hpos, poke_append]

section Writing

variable (hb : b.Ordered) (hst : b.getInternalEnd ≤ (h.blocks b.data).size)
include hb hst

theorem putBytes_spec (direct : Prop) [Decidable direct] (bs : List UInt8) (hf : b.Fits c bs.length)
    (hpos : (if direct then c else c - (b.zeroAreaEnd - b.zeroAreaStart)) = b.offset c) :
    (b.iterator c).putBytes h direct bs =
      .ok (h.poke b.data (b.offset c) bs, b.iterator (c + bs.length)) := by
  have hstore := hb.store_offset bs hst hf
  simp only [Iterator.putBytes, iterator, hpos, hstore]
  rfl

theorem writeU8_spec {v : UInt8} (hf : b.Fits c 1) :
    (b.iterator c).writeU8 h v = .ok (h.poke b.data (b.offset c) [v], b.iterator (c + 1)) := by
  have := hb.start_le
  have := hb.zero_le
  have := hb.le_end
  have hcheck : (b.iterator c).checkAt c := by
    unfold Fits at hf
    simp only [Iterator.checkAt, iterator]
    omega
  have hput := putBytes_spec hb hst (c < b.zeroAreaStart) [v] hf (by
    unfold Fits at hf
    unfold offset
    split_ifs <;> omega)
  unfold Iterator.writeU8
  rw [show (b.iterator c).current = c from rfl, check_pos hcheck]
  exact hput

theorem writeU8s_spec {v : UInt8} (hf : b.Fits c n) :
    (b.iterator c).writeU8s h v n =
      .ok (h.poke b.data (b.offset c) (List.replicate n v), b.iterator (c + n)) := by
  have := hb.zero_le
  have hput := putBytes_spec hb hst (c ≤ b.zeroAreaStart) (List.replicate n v)
    (by rwa [List.length_replicate]) (by
      unfold Fits at hf
      unfold offset
      split_ifs <;> omega)
  unfold Iterator.writeU8s
  rw [show (b.iterator c).current = c from rfl, check_pos (hb.checkNoZero hf)]
  rwa [List.length_replicate] at hput

theorem writeHton_spec (hf : b.Fits c bs.length) :
    (b.iterator c).writeHton h bs =
      .ok (h.poke b.data (b.offset c) bs, b.iterator (c + bs.length)) := by
  have := hb.zero_le
  have hput := putBytes_spec hb hst (c + bs.length ≤ b.zeroAreaStart) bs hf (by
    unfold Fits at hf
    unfold offset
    split_ifs <;> omega)
  unfold Iterator.writeHton
  rw [show (b.iterator c).current = c from rfl, check_pos (hb.checkNoZero hf)]
  exact hput

/-- The check of `Write(buffer, size)` is made for too short a range, and passes. -/
theorem write_spec (hf : b.Fits c bs.length) :
    (b.iterator c).write h bs =
      .ok (h.poke b.data (b.offset c) bs, b.iterator (c + bs.length)) := by
  have := hb.start_le
  have := hb.zero_le
  have := hb.le_end
  have hcheck : (b.iterator c).checkNoZero c bs.length := by
    unfold Fits at hf
    simp only [Iterator.checkNoZero, iterator]
    omega
  have hput := putBytes_spec hb hst (c ≤ b.zeroAreaStart) bs hf (by
    unfold Fits at hf
    unfold offset
    split_ifs <;> omega)
  unfold Iterator.write
  rw [show (b.iterator c).current = c from rfl, check_pos hcheck]
  exact hput

theorem writeEach_spec (hf : b.Fits c bs.length) :
    (b.iterator c).writeEach h bs =
      .ok (h.poke b.data (b.offset c) bs, b.iterator (c + bs.length)) := by
  induction bs generalizing h c with
  | nil => simp [Iterator.writeEach, pure, Except.pure]
  | cons v bs ih =>
    have hf' : b.Fits c ([v].length + bs.length) := by
      simpa [Nat.add_comm] using hf
    have hfirst := writeU8_spec (v := v) hb hst hf'.left
    have hrest := ih (h := h.poke b.data (b.offset c) [v]) (by rwa [poke_size]) hf'.right
    unfold Iterator.writeEach at hrest ⊢
    rw [List.foldlM_cons]
    simp only [hfirst]
    refine Eq.trans hrest ?_
    rw [hb.poke_offset_append hf', Nat.add_assoc, Nat.add_comm [v].length]
    rfl

theorem perform_spec (w : Writing) (hf : b.Fits c w.bytes.length) :
    (b.iterator c).perform h w =
      .ok (h.poke b.data (b.offset c) w.bytes, b.iterator (c + w.bytes.length)) := by
  cases w with
  | u8 v => exact writeU8_spec hb hst hf
  | u8s v len =>
    simp only [Writing.bytes, List.length_replicate] at hf ⊢
    exact writeU8s_spec hb hst hf
  | htonU16 v => exact writeHton_spec hb hst hf
  | htonU32 v => exact writeHton_spec hb hst hf
  | block bs => exact write_spec hb hst hf
  | u16 v => exact writeEach_spec hb hst hf
  | u32 v => exact writeEach_spec hb hst hf
  | u64 v => exact writeEach_spec hb hst hf
  | htolsbU16 v => exact writeEach_spec hb hst hf
  | htolsbU32 v => exact writeEach_spec hb hst hf
  | htolsbU64 v => exact writeEach_spec hb hst hf
  | htonU64 v => exact writeEach_spec hb hst hf

/-- A row of writes on one side of the zero area is one write. -/
theorem performAll_spec (ws : List Writing) (hf : b.Fits c (ws.flatMap Writing.bytes).length) :
    (b.iterator c).performAll h ws =
      .ok (h.poke b.data (b.offset c) (ws.flatMap Writing.bytes),
        b.iterator (c + (ws.flatMap Writing.bytes).length)) := by
  induction ws generalizing h c with
  | nil => simp [Iterator.performAll, pure, Except.pure]
  | cons w ws ih =>
    have hf' : b.Fits c (w.bytes.length + (ws.flatMap Writing.bytes).length) := by
      simpa using hf
    have hfirst := perform_spec hb hst w hf'.left
    have hrest := ih (h := h.poke b.data (b.offset c) w.bytes) (by rwa [poke_size]) hf'.right
    unfold Iterator.performAll at hrest ⊢
    rw [List.foldlM_cons]
    simp only [hfirst]
    refine Eq.trans hrest ?_
    rw [hb.poke_offset_append hf', List.flatMap_cons, List.length_append, Nat.add_assoc]

end Writing

/-! ### What a write changes -/

theorem Ordered.byteAt_eq (hb : b.Ordered) (m : Nat → UInt8) (p : Nat) :
    b.byteAt m p = if b.zeroAreaStart ≤ p ∧ p < b.zeroAreaEnd then 0 else m (b.offset p) := by
  have := hb.zero_le
  unfold byteAt offset
  split_ifs <;> first | rfl | omega

theorem Ordered.contents_poke (hb : b.Ordered) (hf : b.Fits c bs.length) :
    contents (h.poke b.data (b.offset c) bs) b =
      (contents h b).take (c - b.start) ++ bs ++
        (contents h b).drop (c - b.start + bs.length) := by
  have hstart := hb.start_le
  have hzero := hb.zero_le
  have hend := hb.le_end
  have hc : b.start ≤ c ∧ c + bs.length ≤ b.end_ := by
    unfold Fits at hf
    omega
  have hsize : b.getSize = (c - b.start) + bs.length + (b.end_ - (c + bs.length)) := by
    unfold getSize
    omega
  have hbytes : ((h.poke b.data (b.offset c) bs).blocks b.data).bytes =
      Bytes.write (h.blocks b.data).bytes (b.offset c) bs := by
    simp [Memory.poke]
  have hout : ∀ p, b.start ≤ p → p < b.end_ → p < c ∨ c + bs.length ≤ p →
      b.byteAt (Bytes.write (h.blocks b.data).bytes (b.offset c) bs) p =
        b.byteAt (h.blocks b.data).bytes p := by
    intro p hp hlt hor
    rw [hb.byteAt_eq, hb.byteAt_eq]
    by_cases hz : b.zeroAreaStart ≤ p ∧ p < b.zeroAreaEnd
    · rw [if_pos hz, if_pos hz]
    · rw [if_neg hz, if_neg hz]
      unfold Fits at hf
      rcases hor with hpc | hpc
      · apply Bytes.write_apply_of_lt
        unfold offset
        split_ifs <;> omega
      · apply Bytes.write_apply_of_le
        unfold offset
        split_ifs <;> omega
  have hin : Bytes.read (b.byteAt (Bytes.write (h.blocks b.data).bytes (b.offset c) bs))
      c bs.length = bs := by
    refine Eq.trans (Bytes.read_eq_of_forall fun i hi => ?_)
      (Bytes.read_write (h.blocks b.data).bytes (b.offset c) bs)
    have hz : ¬ (b.zeroAreaStart ≤ c + i ∧ c + i < b.zeroAreaEnd) := by
      unfold Fits at hf
      omega
    have hoff : b.offset (c + i) = b.offset c + i :=
      hb.offset_add (m := bs.length - i) (by rwa [Nat.add_sub_cancel' (Nat.le_of_lt hi)])
        (by omega)
    rw [hb.byteAt_eq, if_neg hz, hoff]
  rw [contents, hbytes, hsize, Bytes.read_add, Bytes.read_add]
  congr 1
  · congr 1
    · rw [contents, Bytes.take_read, show min (c - b.start) b.getSize = c - b.start by omega]
      apply Bytes.read_congr
      intro p hp hlt
      exact hout p hp (by omega) (by omega)
    · rw [show b.start + (c - b.start) = c by omega]
      exact hin
  · rw [contents, Bytes.drop_read,
      show b.getSize - (c - b.start + bs.length) = b.end_ - (c + bs.length) by omega]
    apply Bytes.read_congr
    intro p hp hlt
    exact hout p (by omega) (by omega) (by omega)

/-- The new cells of a Buffer that has grown are written. -/
theorem Grown.write {lo : Nat} (hg : Grown h rest lo bs.length h' x) :
    Shares (h'.poke x.data lo bs) (x :: rest) ∧ Keeps h (h'.poke x.data lo bs) rest := by
  constructor
  · apply hg.shares.congr
    refine ⟨Nat.le_refl _, fun y hy => ?_⟩
    by_cases heq : y.data = x.data
    · exact ⟨Bytes.write (h'.blocks x.data).bytes lo bs, by simp [Memory.poke, heq]⟩
    · exact ⟨(h'.blocks y.data).bytes, by simp [Memory.poke, heq]⟩
  · apply hg.keeps.trans
    intro y hy
    have hord := (hg.shares.placed y (List.mem_cons_of_mem _ hy)).toOrdered
    apply hord.contents_congr
    intro i hi hlt
    by_cases heq : y.data = x.data
    · simp only [Memory.poke, Memory.set_blocks, heq, ite_true]
      rcases hg.clear y hy heq with hle | hle
      · exact Bytes.write_apply_of_lt _ (by omega)
      · exact Bytes.write_apply_of_le _ (by omega)
    · simp [Memory.poke, heq]

theorem store_eq_ok (hst : h.store k pos bs = .ok h') : h' = h.poke k pos bs := by
  unfold Memory.store at hst
  split_ifs at hst
  exact (Except.ok.inj hst).symm

/-- `Write(start, end)` stores what `o` reports from `c` on, at the virtual offset. -/
theorem writeFrom_spec (it : Iterator) (ho : o.Ordered) (hc : o.start ≤ c) (hce : c ≤ o.end_)
    (hne : it.data ≠ o.data)
    (hcheck : it.checkNoZero it.current (it.current + (o.end_ - c))) :
    it.writeFrom h (o.iterator c) o.end =
      h.store it.data it.current ((contents h o).drop (c - o.start)) >>= fun h =>
        .ok (h, { it with current := it.current + (o.end_ - c) }) := by
  have hzero := ho.zero_le
  have hend := ho.le_end
  let m := (h.blocks o.data).bytes
  let size := o.end_ - c
  let n1 := if c ≤ o.zeroAreaStart then min size (o.zeroAreaStart - c) else 0
  let n2 := if c + n1 ≤ o.zeroAreaEnd then min (size - n1) (o.zeroAreaEnd - (c + n1)) else 0
  let n3 := min (size - n1 - n2) (o.end_ - (c + n1 + n2))
  have hsum : n1 + n2 + n3 = size := by
    simp only [n1, n2, n3, size]
    split_ifs <;> omega
  have hparts : (contents h o).drop (c - o.start) = Bytes.read m c n1 ++ List.replicate n2 0 ++
      Bytes.read m (c + n1 + n2 - (o.zeroAreaEnd - o.zeroAreaStart)) n3 := by
    rw [contents, Bytes.drop_read, show o.start + (c - o.start) = c by omega,
      show o.getSize - (c - o.start) = n1 + n2 + n3 by rw [hsum]; unfold getSize; omega,
      Bytes.read_add, Bytes.read_add]
    congr 1
    · congr 1
      · apply Bytes.read_congr
        intro p hp hlt
        simp only [n1] at hlt
        split_ifs at hlt
        · exact if_pos (by omega)
        · omega
      · apply List.ext_getElem?
        intro i
        by_cases hi : i < n2
        · rw [Bytes.getElem?_read _ _ hi, List.getElem?_replicate_of_lt hi]
          congr 1
          unfold byteAt
          simp only [n1, n2] at hi ⊢
          split_ifs at hi ⊢ <;> first | rfl | omega
        · rw [List.getElem?_eq_none (by rw [Bytes.length_read]; omega),
            List.getElem?_eq_none (by rw [List.length_replicate]; omega)]
    · apply Bytes.read_eq_of_forall
      intro i hi
      unfold byteAt
      simp only [n1, n2, n3, size] at hi ⊢
      split_ifs at hi ⊢ <;> first | omega | (congr 1; omega)
  unfold Iterator.writeFrom
  rw [check_pos (show (o.iterator c).data = o.end.data from rfl),
    check_pos (show (o.iterator c).current ≤ o.end.current from hce),
    check_pos (show (o.iterator c).zeroStart = o.end.zeroStart from rfl),
    check_pos (show (o.iterator c).zeroEnd = o.end.zeroEnd from rfl),
    check_pos (show it.data ≠ (o.iterator c).data from hne),
    hparts, store_append, store_append, List.length_append, Bytes.length_read,
    List.length_replicate, ← Nat.add_assoc]
  change (check (it.checkNoZero it.current (it.current + (o.end_ - c))) >>= fun _ =>
      h.store it.data it.current (Bytes.read m c n1) >>= fun h1 =>
      h1.store it.data (it.current + n1) (List.replicate n2 0) >>= fun h2 =>
      h2.store it.data (it.current + n1 + n2) (Bytes.read (h2.blocks o.data).bytes
        (c + n1 + n2 - (o.zeroAreaEnd - o.zeroAreaStart)) n3) >>= fun h3 =>
      .ok (h3, { it with current := it.current + n1 + n2 + n3 })) = _
  rw [check_pos hcheck]
  change (h.store it.data it.current (Bytes.read m c n1) >>= fun _ => _) = _
  cases h1 : h.store it.data it.current (Bytes.read m c n1) with
  | error e => rfl
  | ok h' =>
    cases h2 : h'.store it.data (it.current + n1) (List.replicate n2 0) with
    | error e =>
      simp only [bind, Except.bind, h2]
    | ok h'' =>
      have hsrc : (h''.blocks o.data).bytes = m := by
        rw [store_eq_ok h2, store_eq_ok h1]
        simp [Memory.poke, Ne.symm hne, m]
      simp only [bind, Except.bind, h2, hsrc]
      rw [show it.current + n1 + n2 + n3 = it.current + (o.end_ - c) by omega]

end CudaNs3.Network.Buffer
