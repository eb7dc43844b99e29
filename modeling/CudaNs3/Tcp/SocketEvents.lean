import CudaNs3.Tcp.SocketCalls

/-!
# Events as moves

The functions that send data, that process a segment in each state, and that the timers run.
-/

namespace CudaNs3.Tcp

open SequenceNumber TcpTxBuffer TcpSocketBase Programs Flags Relation
set_option autoImplicit false

theorem kept_basic {α : Type} {p : Program α} (h : Kept (chain CallMove) p) :
    Kept (chain BasicMove) p := fun m => keptAt_mono (fun _ _ => .call) (h m)

theorem keptAt_basic {α : Type} {p : Program α} {m : Machine} (h : KeptAt (chain CallMove) p m) :
    KeptAt (chain BasicMove) p m := keptAt_mono (fun _ _ => .call) h

theorem BasicMove.grows {r r' : Snapshot} (h : BasicMove r r') : r.trace <:+ r'.trace := by
  cases h with
  | call h => exact h.grows
  | _ => simp [List.suffix_cons, List.suffix_cons_iff]

/-- No other segment is received. -/
theorem CallMove.current {r r' : Snapshot} {s₀ : TcpSocketBase} {seg : Segment} (h : CallMove r r') :
    Current r'.trace s₀ seg ↔ Current r.trace s₀ seg := by
  cases h with
  | noted hh =>
    rename_i happening
    cases happening <;> simp_all [Current, Happening.isReceived, Happening.note]
  | queued _ _ hh => rcases hh with rfl | rfl <;> simp [Current, Happening.isReceived]
  | _ => simp [Current, Happening.isReceived]

theorem BasicMove.current {r r' : Snapshot} {s₀ : TcpSocketBase} {seg : Segment}
    (h : BasicMove r r') : Current r'.trace s₀ seg ↔ Current r.trace s₀ seg := by
  cases h with
  | call h => exact h.current
  | _ => simp [Current, Happening.isReceived]

theorem Processed.moves {r r' : Snapshot} {s₀ : TcpSocketBase} {seg : Segment}
    (h : ReflTransGen BasicMove r r') (heard : Processed r.trace s₀ seg) :
    Processed r'.trace s₀ seg := by
  induction h with
  | refl => exact heard
  | tail _ h ih => exact ⟨h.current.mpr ih.current, ih.reads⟩

section Offers
variable {s : TcpSocketBase} {seq seqHigh : SequenceNumber 32} {n n' : BitVec 32}

theorem TcpSocketBase.Offers.mono (h : s.Offers seq n) (hle : n' ≤ n) : s.Offers seq n' :=
  h.imp (fun h => ⟨h.1, h.2.1, BitVec.le_trans hle h.2.2⟩) id

/-- The loop of `NextSeg` finds the start of an item. -/
theorem nextLost_item {isRecovery : Bool} {origin : SequenceNumber 32} (x : Nat)
    (rule3 : Option (SequenceNumber 32)) (l : List TcpTxItem) :
    match nextLost isRecovery (at32 origin x) rule3 l with
    | .inl seq => ∃ pre it post, l = pre ++ it :: post ∧ seq = at32 origin (x + bytes every pre)
    | .inr r => r = rule3 ∨
        ∃ pre it post, l = pre ++ it :: post ∧ r = some (at32 origin (x + bytes every pre)) := by
  induction l generalizing x rule3 with
  | nil => exact .inl rfl
  | cons it rest ih =>
    have hnext : at32 origin x + it.size = at32 origin (x + it.packet.length) := at32_add origin x _
    have hstart (pre : List TcpTxItem) :
        x + it.packet.length + bytes every pre = x + bytes every (it :: pre) := by
      simp only [bytes_cons, every_eq, if_true]
      omega
    unfold nextLost
    rw [hnext]
    by_cases hfree : (!it.retrans && !it.sacked) = true
    · rw [if_pos hfree]
      by_cases hlost : it.lost = true
      · rw [if_pos hlost]
        exact ⟨[], it, rest, rfl, by simp⟩
      · rw [if_neg hlost]
        have hrest := ih (x + it.packet.length)
          (if rule3.getD 0 = 0 && isRecovery then some (at32 origin x) else rule3)
        split at hrest
        · obtain ⟨pre, it', post, rfl, hseq⟩ := hrest
          exact ⟨it :: pre, it', post, rfl, by rw [hseq, hstart]⟩
        · rcases hrest with hrule | ⟨pre, it', post, rfl, hseq⟩
          · split at hrule
            · exact .inr ⟨[], it, rest, rfl, by simpa using hrule⟩
            · exact .inl hrule
          · exact .inr ⟨it :: pre, it', post, rfl, by rw [hseq, hstart]⟩
    · rw [if_neg hfree]
      have hrest := ih (x + it.packet.length) rule3
      split at hrest
      · obtain ⟨pre, it', post, rfl, hseq⟩ := hrest
        exact ⟨it :: pre, it', post, rfl, by rw [hseq, hstart]⟩
      · refine hrest.imp id ?_
        rintro ⟨pre, it', post, rfl, hseq⟩
        exact ⟨it :: pre, it', post, rfl, by rw [hseq, hstart]⟩

theorem nextSegment_offers {isRecovery : Bool}
    (h : s.nextSegment isRecovery = some (seq, seqHigh)) : s.Offers seq (distance seqHigh seq) := by
  have hitem := @nextLost_item isRecovery s.txBuffer.firstByteSeq 0 none
    s.txBuffer.sentList
  rw [at32_zero] at hitem
  simp only [Nat.zero_add] at hitem
  unfold nextSegment TcpTxBuffer.nextSeg at h
  split at hitem
  · rename_i heq
    rw [heq] at h
    obtain ⟨rfl, -⟩ := Prod.mk.inj (Option.some.inj h)
    exact .inr hitem
  · rename_i r heq
    rw [heq] at h
    simp only at h
    split at h
    · split at h
      · rename_i hwindow
        obtain ⟨rfl, rfl⟩ := Prod.mk.inj (Option.some.inj h)
        refine .inl ⟨rfl, hwindow, ?_⟩
        rw [distance_eq, add_sub_cancel_left, BitVec.le_def, stdMin_toNat]
        exact Nat.min_le_right _ _
      · cases h
    · rw [Option.map_eq_some_iff] at h
      obtain ⟨start, rfl, hseq⟩ := h
      obtain ⟨rfl, -⟩ := Prod.mk.inj hseq
      rcases hitem with hnone | ⟨pre, it, post, hlist, hstart⟩
      · cases hnone
      · exact .inr ⟨pre, it, post, hlist, Option.some.inj hstart⟩

/-- What `DoRetransmit` sends. -/
theorem retransmitRange_offers (s : TcpSocketBase) :
    s.Offers s.retransmitRange.1 s.retransmitRange.2 ∨ s.Dry s.retransmitRange.1 := by
  unfold retransmitRange
  split
  · rename_i hnone
    cases hlist : s.txBuffer.sentList with
    | cons it rest => exact .inl (.inr ⟨[], it, rest, hlist, by simp⟩)
    | nil =>
      refine .inr ⟨hlist, rfl, fun hunsent hwindow => ?_⟩
      unfold nextSegment TcpTxBuffer.nextSeg at hnone
      rw [hlist, nextLost] at hnone
      simp only [if_pos hunsent, if_pos hwindow] at hnone
      cases hnone
  · rename_i hsome
    exact .inl (nextSegment_offers hsome)

theorem Rescored.split {b b' : TcpTxBuffer} (h : Rescored b b') {pre post : List TcpTxItem}
    {it : TcpTxItem} (hlist : b.sentList = pre ++ it :: post) :
    ∃ pre' it' post', b'.sentList = pre' ++ it' :: post' ∧ bytes every pre' = bytes every pre := by
  have hpackets := h.packets
  rw [hlist, List.map_append, List.map_cons] at hpackets
  obtain ⟨pre', rest, hsplit, hpre, hrest⟩ := List.map_eq_append_iff.mp hpackets
  obtain ⟨it', post', rfl, -, -⟩ := List.map_eq_cons_iff.mp hrest
  exact ⟨pre', it', post', hsplit, every_congr hpre⟩

theorem TcpSocketBase.Offers.rescored {t : TcpSocketBase} (h : s.Offers seq n)
    (hb : Rescored s.txBuffer t.txBuffer) (hwindow : t.rWnd = s.rWnd) : t.Offers seq n := by
  unfold TcpSocketBase.Offers
  rw [hb.firstByteSeq, hb.sentSize, hwindow]
  refine h.imp id ?_
  rintro ⟨pre, it, post, hlist, rfl⟩
  obtain ⟨pre', it', post', hlist', hpre⟩ := hb.split hlist
  exact ⟨pre', it', post', hlist', by rw [hpre]⟩

theorem add_sent (b : TcpTxBuffer) (p : Packet) : (b.add p).1.firstByteSeq = b.firstByteSeq ∧
    (b.add p).1.sentSize = b.sentSize ∧ (b.add p).1.sentList = b.sentList := by
  unfold TcpTxBuffer.add
  simp only
  split
  · split <;> exact ⟨rfl, rfl, rfl⟩
  · exact ⟨rfl, rfl, rfl⟩

/-- No call takes a range away. -/
theorem CallMove.offers {r r' : Snapshot} (hmove : CallMove r r') (h : r.socket.Offers seq n) :
    r'.socket.Offers seq n := by
  cases hmove with
  | calm hcalm => exact Offers.rescored h hcalm.txBuffer hcalm.rWnd
  | @queued s _ p =>
    obtain ⟨hfirst, hsent, hlist⟩ := add_sent s.txBuffer p
    unfold TcpSocketBase.Offers at h ⊢
    simp only [hfirst, hsent, hlist]
    exact h
  | deallocated =>
    unfold TcpSocketBase.deallocated
    split <;> exact h
  | fin _ _ _ _ _ ht =>
    subst ht
    exact h
  | _ => exact h

theorem calls_offer {r r' : Snapshot} (hmoves : ReflTransGen CallMove r r')
    (h : r.socket.Offers seq n) : r'.socket.Offers seq n := by
  induction hmoves with
  | refl => exact h
  | tail _ hmove ih => exact hmove.offers ih

end Offers

section Sending

/-- Nothing but calm changes, and nothing is seen. -/
def calmly : Frame Machine where
  ends m m' := Calm m.socket m'.socket ∧ m'.trace = m.trace
  stops m m' := m'.trace = m.trace

theorem calmly_composes : calmly.Composes where
  refl _ := ⟨.refl _, rfl⟩
  trans _ _ _ h h' := ⟨h.1.trans h'.1, h'.2.trans h.2⟩
  fails _ := rfl
  halts _ _ _ h h' := h'.trans h.2

theorem kept_calmly {α : Type} {p : Program α} (h : Kept calmly p) : Kept (chain CallMove) p := by
  intro m
  have hm := h m
  unfold KeptAt at hm ⊢
  split
  · rename_i m' heq
    rw [heq] at hm
    obtain ⟨hcalm, htrace⟩ := hm
    change ReflTransGen CallMove m.snapshot ⟨m'.socket, m'.trace⟩
    rw [htrace]
    exact .single (.calm hcalm)
  · rename_i heq
    rw [heq] at hm
    exact ⟨_, .refl, hm⟩

theorem dataFlags_calmly (seq : SequenceNumber 32) (maxSize : BitVec 32) (withAck : Bool)
    (item : TcpTxItem) : Kept calmly (dataFlags seq maxSize withAck item) := by
  intro m
  have hensure {c : Prop} [Decidable c] : Kept calmly (ensure c) :=
    .ite (fun _ => kept_pure calmly_composes _) fun _ => kept_throw calmly_composes _
  have hquiet {f : TcpSocketBase → TcpSocketBase}
      (h : ∀ s, Calm.watched (f s) = Calm.watched s) : Kept calmly (TcpSocketBase.update f) :=
    fun _ => ⟨.of_watched (h _), rfl⟩
  refine keptAt_read (keptAt_of (Kept.bind calmly_composes hensure fun _ => ?_))
  refine .bind calmly_composes (.when calmly_composes fun _ => hquiet fun _ => rfl) fun _ => ?_
  refine .bind calmly_composes (.when calmly_composes fun _ => hquiet fun _ => rfl) fun _ => ?_
  refine .bind calmly_composes (hquiet fun s => ?_) fun _ => kept_pure calmly_composes _
  unfold markCwr
  split <;> rfl

/-- The machine after a data segment. -/
def transmitted (m : Machine) (a : BitVec 32) (seg : Segment) : Machine :=
  let u := { m.socket with advWnd := a, retxEvent := m.socket.retxEvent.or (some .reTxTimeout) }
  { m with socket := marked (seg.seq + seg.size) u, trace := ⟨u, .sent seg⟩ :: m.trace }

theorem transmit_run (seq : SequenceNumber 32) (flags : Flags) (payload : List UInt8) (m : Machine) :
    (∃ e, transmit seq flags payload m = .error e m) ∨
      ∃ w seg, transmit seq flags payload m = .ok () (transmitted m w seg) ∧ seg.seq = seq ∧
        seg.flags = flags ∧ seg.payload = payload ∧ seg.windowScale = none ∧
          { m.socket with advWnd := w }.Announces false seg.window := by
  unfold transmit
  rw [bind_ok (show socket m = .ok m.socket m from rfl)]
  split
  · obtain ⟨e, he⟩ | ⟨w, hw, hrun⟩ := advertisedWindowSize_run true m
    · exact .inl ⟨e, bind_error he⟩
    · rw [bind_ok hrun]
      exact .inr ⟨w, ⟨_, _, _, _, _, _, _, _, _⟩, rfl, rfl, rfl, rfl, rfl, announces_scaled hw⟩
  · exact .inl ⟨_, rfl⟩

theorem dataFlags_plain (seq : SequenceNumber 32) (maxSize : BitVec 32) (withAck : Bool)
    (item : TcpTxItem) :
    Yields (fun flags => flags.syn = false ∧ flags.rst = false ∧ flags.fin = false)
      (dataFlags seq maxSize withAck item) := by
  refine .bind fun _ => .bind fun _ => .bind fun _ => .bind fun _ => .bind fun _ => .pure ?_
  unfold markCwr
  split <;> split <;> exact ⟨rfl, rfl, rfl⟩

theorem finState_leads {s : TcpSocketBase} (h : s.finState ≠ s.state) :
    finLeads s.state s.finState := by
  unfold finState at h ⊢
  split <;> simp_all [finLeads]

theorem finState_ne (s : TcpSocketBase) : s.finState ≠ .established ∧ s.finState ≠ .closeWait := by
  cases h : s.state <;> simp [finState, h]

section Copied
variable {m : Machine} {b₀ b : TcpTxBuffer} {now : Int} {n : BitVec 32} {seq : SequenceNumber 32}
  {item : TcpTxItem} {flags : Flags}

/-- Bytes that were copied leave. -/
theorem keptAt_transmit (hcopy : b₀.copyFromSequence now n seq = some (b, some item))
    (hb : Rescored b m.socket.txBuffer) (hplain : flags.syn = false ∧ flags.rst = false)
    (hlast : flags.fin → m.socket.isLast seq item.packet ∧ m.socket.state ≠ .established ∧
      m.socket.state ≠ .closeWait) :
    KeptAt (chain BasicMove) (transmit seq flags item.packet) m := by
  obtain ⟨e, he⟩ | ⟨w, seg, hrun, rfl, rfl, hpayload, hscale, hwindow⟩ :=
    transmit_run seq flags item.packet m
  · exact (keptAt_error he).mpr ⟨_, .refl, rfl⟩
  · refine (keptAt_ok hrun).mpr (.single (.data hcopy hb hpayload hplain (.of_watched rfl) ?_ ⟨?_, ?_⟩))
    · intro hfin
      obtain ⟨hempty, hstate⟩ := hlast hfin
      rw [isLast, Bool.and_eq_true, decide_eq_true_eq, ← hpayload] at hempty
      exact ⟨hempty.2, hstate⟩
    · rw [hplain.1]
      exact ⟨hwindow.window, nofun⟩
    · rw [hscale, hplain.1]
      rfl

/-- The last bytes leave behind a change of state. -/
theorem keptAt_sendDataSegment (hcopy : b₀.copyFromSequence now n seq = some (b, some item))
    (hb : Rescored b m.socket.txBuffer)
    (hplain : flags.syn = false ∧ flags.rst = false ∧ flags.fin = false) :
    KeptAt (chain BasicMove) (sendDataSegment seq flags item.packet) m := by
  have hflags : ∀ last : Bool, (if last then flags ||| FIN else flags).syn = false ∧
      (if last then flags ||| FIN else flags).rst = false := by
    intro last
    split <;> simp [HOr.hOr, OrOp.or, hplain]
  have hfin : ∀ last : Bool, (if last then flags ||| FIN else flags).fin → last := by
    intro last h
    split at h
    · assumption
    · simp [hplain.2.2] at h
  refine keptAt_read ?_
  by_cases hchange : m.socket.isLast seq item.packet && m.socket.finState ≠ m.socket.state
  · rw [Programs.when, if_pos hchange]
    rw [Bool.and_eq_true, decide_eq_true_eq] at hchange
    refine KeptAt.bind (chain_composes _) (.single (.call (.unsent (finState_leads hchange.2) rfl)))
      fun _ m₁ h₁ => ?_
    cases h₁
    exact keptAt_transmit hcopy hb (hflags _) fun h => ⟨hfin _ h, finState_ne _⟩
  · rw [Programs.when, if_neg hchange]
    refine keptAt_transmit hcopy hb (hflags _) fun h => ?_
    have hlast := hfin _ h
    simp only [hlast, Bool.true_and, decide_eq_true_eq, not_not] at hchange
    exact ⟨hlast, by rw [← hchange]; exact finState_ne _⟩

end Copied

theorem copyFromTxBuffer_run (maxSize : BitVec 32) (seq : SequenceNumber 32) (m : Machine) :
    (∃ e, copyFromTxBuffer maxSize seq m = .error e m) ∨
      ∃ b item, m.socket.txBuffer.copyFromSequence m.now maxSize seq = some (b, some item) ∧
        copyFromTxBuffer maxSize seq m =
          .ok item { m with socket := { m.socket with txBuffer := b } } := by
  unfold copyFromTxBuffer
  cases m.socket.txBuffer.copyFromSequence m.now maxSize seq with
  | none => exact .inl ⟨_, rfl⟩
  | some copied =>
    obtain ⟨b, _ | item⟩ := copied
    · exact .inl ⟨_, rfl⟩
    · exact .inr ⟨b, item, rfl, rfl⟩

theorem bytesInFlightNow_run (m : Machine) :
    (∃ e, bytesInFlightNow m = .error e m) ∨
      ∃ n, bytesInFlightNow m = .ok n { m with socket := { m.socket with bytesInFlight := n } } := by
  cases hbytes : m.socket.txBuffer.bytesInFlight with
  | none =>
    have hlift : lift m.socket.txBuffer.bytesInFlight m = .error .assertion m := by rw [hbytes]; rfl
    exact .inl ⟨.assertion, (bind_ok rfl).trans (bind_error hlift)⟩
  | some n =>
    have hlift : lift m.socket.txBuffer.bytesInFlight m = .ok n m := by rw [hbytes]; rfl
    exact .inr ⟨n, (bind_ok rfl).trans (bind_ok hlift)⟩

theorem keptAt_sendDataPacket {m : Machine} {seq : SequenceNumber 32} {maxSize : BitVec 32}
    (hoffers : m.socket.Offers seq maxSize ∨ m.socket.Dry seq) (withAck : Bool) :
    KeptAt (chain BasicMove) (sendDataPacket seq maxSize withAck) m := by
  obtain ⟨e, he⟩ | ⟨inflight, hinflight⟩ := bytesInFlightNow_run m
  · exact (keptAt_error (bind_error he)).mpr ⟨_, .refl, rfl⟩
  obtain ⟨e, he⟩ | ⟨b, item, hcopy, hrun⟩ := copyFromTxBuffer_run maxSize seq
    { m with socket := { m.socket with bytesInFlight := inflight } }
  · refine KeptAt.of_after (bind_ok hinflight) ((keptAt_error (bind_error he)).mpr ⟨_, .refl, ?_⟩)
    rfl
  refine keptAt_head (t := { m with
    socket := { m.socket with bytesInFlight := inflight, txBuffer := b }
    trace := ⟨{ m.socket with bytesInFlight := inflight, txBuffer := b },
      .dataPacket seq maxSize item.size item.retrans⟩ :: m.trace }) ?_
    ((bind_ok hinflight).trans ((bind_ok hrun).trans (bind_ok rfl))) ?_
  · exact .head (.call (.calm (.of_watched (t := { m.socket with bytesInFlight := inflight }) rfl)))
      (.single (.copied hoffers hcopy))
  · have hcalmly := dataFlags_calmly seq maxSize withAck item
    refine (kept_basic (kept_calmly hcalmly) _).bind (chain_composes _) fun flags m₁ h => ?_
    obtain ⟨hcalm, -⟩ := (keptAt_ok h).mp (hcalmly _)
    exact (keptAt_sendDataSegment hcopy hcalm.txBuffer (dataFlags_plain _ _ _ _ _ _ _ h)).map

theorem kept_setNextTxSequence (seq : SequenceNumber 32) :
    Kept (chain CallMove) (setNextTxSequence seq) :=
  kept_quiet (f := fun s => { s with nextTxSequence := seq }) fun _ => rfl

theorem keptAt_sendNext {m : Machine} {next : SequenceNumber 32} {size : BitVec 32}
    (hoffers : m.socket.Offers next size) (withAck : Bool) :
    KeptAt (chain BasicMove) (sendNext next size withAck) m := by
  have hnext := kept_setNextTxSequence next m
  refine (keptAt_basic hnext).bind (chain_composes _) fun _ m₁ h₁ => keptAt_read ?_
  have hoffers₁ := calls_offer ((keptAt_ok h₁).mp hnext) hoffers
  have hcongestion : KeptAt (chain CallMove) (when (m₁.socket.bytesInFlight = 0) congestion) m₁ :=
    keptAt_when fun _ => kept_congestion m₁
  refine (keptAt_basic hcongestion).bind (chain_composes _) fun _ m₂ h₂ => ?_
  have hoffers₂ := calls_offer ((keptAt_ok h₂).mp hcongestion) hoffers₁
  exact (keptAt_sendDataPacket (.inl hoffers₂) withAck).bind (chain_composes _) fun _ _ _ =>
    keptAt_basic (keptAt_quiet rfl)

theorem keptAt_ensure {α : Type} {R : Snapshot → Snapshot → Prop} {c : Prop} [Decidable c]
    {f : Unit → Program α} {m : Machine} (h : c → KeptAt (chain R) (f ()) m) :
    KeptAt (chain R) (ensure c >>= f) m := by
  unfold ensure
  split
  · rename_i hc
    exact h hc
  · exact (keptAt_error (bind_error rfl)).mpr ⟨_, .refl, rfl⟩

theorem kept_doRetransmit : Kept (chain BasicMove) doRetransmit := by
  refine fun m => keptAt_read ?_
  have hoffers := retransmitRange_offers m.socket
  obtain ⟨⟨seq, n⟩, hrange⟩ : ∃ range, m.socket.retransmitRange = range := ⟨_, rfl⟩
  rw [hrange] at hoffers
  simp only [hrange]
  refine keptAt_ensure fun _ => ?_
  refine KeptAt.bind (chain_composes _) (keptAt_basic (kept_setNextTxSequence _ _)) fun _ m₂ h₂ => ?_
  cases h₂
  refine (keptAt_sendDataPacket ?_ true).bind (chain_composes _) fun _ m₃ _ =>
    keptAt_basic (kept_ensure _ m₃)
  exact hoffers

end Sending

section Callbacks
variable {app : Callback → Program Unit} (happ : ∀ c, Kept (chain CallMove) (app c))
  {m : Machine} {s₀ : TcpSocketBase} {seg : Segment}
include happ

theorem kept_sendLoop (withAck : Bool) (rounds : Nat) (n : BitVec 32) :
    Kept (chain BasicMove) (sendLoop app withAck rounds n) := by
  induction rounds generalizing n with
  | zero => exact kept_throw (chain_composes _) _
  | succ rounds ih =>
    refine kept_then (kept_basic kept_availableWindow) fun available m => keptAt_read ?_
    split
    · exact kept_return n m
    · rename_i next nextHigh hnext
      have hoffers := nextSegment_offers (Option.ite_none_left_eq_some.mp hnext).2
      have hcall : KeptAt (chain CallMove) (when (m.socket.txBuffer.sizeFromSequence next < available)
          (app .send)) m := keptAt_when fun _ => happ .send m
      refine (keptAt_basic hcall).bind (chain_composes _) fun _ m₁ h₁ => keptAt_read ?_
      have hoffers₁ := calls_offer ((keptAt_ok h₁).mp hcall) hoffers
      refine .ite (fun _ => kept_return n m₁) fun _ => ?_
      refine (keptAt_sendNext (hoffers₁.mono ?_) withAck).bind (chain_composes _) fun _ m₂ _ => ?_
      · rw [BitVec.le_def, stdMin_toNat]
        exact Nat.min_le_right _ _
      · refine keptAt_read (.ite (fun _ => ?_) fun _ => ih _ m₂)
        exact keptAt_of (kept_then (kept_basic (kept_quiet fun _ => rfl)) fun _ => kept_return _)

theorem kept_sendPendingData (withAck : Bool) : Kept (chain BasicMove) (sendPendingData app withAck) := by
  refine kept_then (kept_basic (kept_note rfl)) fun _ => kept_read fun s => ?_
  refine .ite (fun _ => kept_return _) fun _ => ?_
  refine kept_then (fun m => .refl) fun rounds => kept_then (kept_sendLoop happ _ _ _) fun n => ?_
  exact kept_read fun s => kept_then (kept_basic (kept_ensure _)) fun _ => kept_return n

omit happ in
theorem kept_enterCloseWait : Kept (chain BasicMove) enterCloseWait := by
  refine fun m => KeptAt.bind (chain_composes _) (.single .peerClosed) fun _ m₁ h₁ => ?_
  cases h₁
  refine keptAt_read ?_
  unfold ensure
  split
  · rename_i hstate
    exact .single (.closeWait hstate)
  · exact ⟨_, .refl, rfl⟩

omit happ in
theorem kept_awaitLastAck : Kept (chain CallMove) awaitLastAck :=
  kept_read fun _ => kept_when fun _ => kept_quiet fun _ => rfl

theorem kept_doPeerClose : Kept (chain BasicMove) (doPeerClose app) := by
  refine kept_then kept_enterCloseWait fun _ => kept_basic ?_
  refine kept_then (kept_notifyClose happ) fun _ => kept_read fun s => ?_
  refine .ite (fun _ => ?_) fun _ => ?_
  · exact kept_then (kept_close happ) fun _ => kept_awaitLastAck
  · exact kept_then (kept_sendEmptyPacket happ rfl rfl) fun _ => kept_awaitLastAck

theorem kept_delayAck : Kept (chain CallMove) (delayAck app) := by
  refine kept_then (kept_quiet fun _ => rfl) fun _ => kept_read fun s => ?_
  refine kept_then kept_congestion fun _ => .ite (fun _ => ?_) fun _ => kept_quiet fun _ => rfl
  exact kept_then (kept_quiet fun _ => rfl) fun _ => kept_sendAck happ

theorem kept_ackData (expectedSeq : SequenceNumber 32) (size : BitVec 32) :
    Kept (chain CallMove) (ackData app expectedSeq size) :=
  kept_read fun _ => .ite (fun _ => kept_then kept_congestion fun _ => kept_sendAck happ) fun _ =>
    kept_delayAck happ

omit happ in
theorem keptAt_addToRxBuffer (heard : Processed m.trace s₀ seg) (htakes : s₀.takesData seg)
    (hcarries : carries seg) : KeptAt (chain BasicMove) (addToRxBuffer seg) m := by
  refine keptAt_read ?_
  cases hadd : m.socket.rxBuffer.add seg.seq seg.payload with
  | none => exact ⟨_, .refl, rfl⟩
  | some added =>
    obtain ⟨b, added⟩ := added
    exact .single (.rxAdded heard htakes hcarries hadd)

theorem keptAt_receivedData (heard : Processed m.trace s₀ seg) (htakes : s₀.takesData seg)
    (hcarries : carries seg) : KeptAt (chain BasicMove) (receivedData app seg) m := by
  have hadd := keptAt_addToRxBuffer heard htakes hcarries
  refine keptAt_read (hadd.bind (chain_composes _) fun added m₁ _ => ?_)
  refine keptAt_of (.ite (fun _ => kept_basic (kept_sendAck happ)) fun _ => kept_read fun s => ?_)
  refine .ite (fun _ => ?_) fun _ => kept_basic (kept_ackData happ _ _)
  refine kept_then (kept_basic (kept_when fun _ => happ _)) fun _ => kept_read fun s => ?_
  exact .ite (fun _ => kept_doPeerClose happ) fun _ => kept_basic (kept_ackData happ _ _)

omit happ in
theorem keptAt_setFinSequence {seq : SequenceNumber 32} (heard : Processed m.trace s₀ seg)
    (htakes : s₀.takesData seg) (hcarries : carries seg) (hends : Ends s₀ m.socket seg seq) :
    KeptAt (chain BasicMove) (setFinSequence seq) m := .single (.rxFin heard htakes hcarries hends)

theorem kept_finishPeerClose : Kept (chain BasicMove) (finishPeerClose app) := by
  refine fun m => keptAt_read (keptAt_when fun _ => ?_)
  split
  · rename_i hstate
    exact .single (.closing hstate)
  · exact kept_doPeerClose happ m

theorem keptAt_peerClose (heard : Processed m.trace s₀ seg) (htakes : s₀.takesData seg)
    (hcarries : carries seg) (hfin : seg.flags.fin ∨ m.socket.rxBuffer.finished) :
    KeptAt (chain BasicMove) (peerClose app seg) m := by
  refine keptAt_read (keptAt_when fun hin => ?_)
  simp only [Bool.not_eq_true', Bool.or_eq_false_iff] at hin
  have hset := keptAt_setFinSequence heard htakes hcarries (.inl ⟨rfl, hin.1, hfin⟩)
  refine hset.bind (chain_composes _) fun _ m₁ h₁ => ?_
  cases h₁
  refine KeptAt.bind (chain_composes _) (keptAt_when fun _ => ?_) fun _ m₂ _ =>
    kept_finishPeerClose happ m₂
  exact keptAt_receivedData happ heard htakes hcarries

end Callbacks

section Acknowledgments
variable {m : Machine} {s₀ : TcpSocketBase} {seg : Segment}

theorem kept_updateTxBuffer {f : TcpTxBuffer → Option TcpTxBuffer}
    (h : ∀ b b', f b = some b' → Rescored b b') : Kept (chain CallMove) (updateTxBuffer f) := by
  refine fun m => keptAt_read ?_
  cases hf : f m.socket.txBuffer with
  | none => exact ⟨_, .refl, rfl⟩
  | some b => exact .single (.calm (.rescored (h _ _ hf)))

theorem kept_markHeadAsLost :
    Kept (chain CallMove) (updateTxBuffer fun b => some b.markHeadAsLost) :=
  kept_updateTxBuffer fun b _ h => Option.some.inj h ▸ .markHeadAsLost b

theorem kept_addRenoSack : Kept (chain CallMove) (updateTxBuffer addRenoSack) :=
  kept_updateTxBuffer fun _ _ => .addRenoSack

theorem kept_setCongState (c : TcpCongState) : Kept (chain CallMove) (setCongState c) :=
  kept_quiet (f := fun s => { s with congState := c }) fun _ => rfl

theorem kept_enterCwr : Kept (chain CallMove) enterCwr :=
  kept_read fun _ => kept_then (kept_ensure _) fun _ => kept_then (kept_quiet fun _ => rfl) fun _ =>
    kept_congestion

theorem kept_enterRecovery : Kept (chain BasicMove) enterRecovery := by
  have hrest : Kept (chain BasicMove) (do
      congestion
      TcpSocketBase.update fun s =>
        { s with recover := s.highTxMark, recoverActive := true, congState := .caRecovery }
      let _ ← bytesInFlightNow
      congestion
      doRetransmit) := by
    refine kept_then (kept_basic kept_congestion) fun _ => ?_
    refine kept_then (kept_basic (kept_quiet fun _ => rfl)) fun _ => ?_
    refine kept_then (kept_basic kept_bytesInFlightNow) fun _ => ?_
    exact kept_then (kept_basic kept_congestion) fun _ => kept_doRetransmit
  refine kept_read fun s => kept_then (kept_basic (kept_ensure _)) fun _ => ?_
  refine .ite (fun _ => kept_then (kept_basic ?_) fun _ => hrest) fun _ =>
    kept_then (kept_basic ?_) fun _ => hrest
  · exact kept_when fun _ => kept_markHeadAsLost
  · refine kept_updateTxBuffer fun b b' h => ?_
    obtain ⟨u, hu, rfl⟩ := Option.map_eq_some_iff.mp h
    exact (Rescored.addRenoSack hu).trans (.markHeadAsLost u)

theorem kept_dupAckInDisorder : Kept (chain BasicMove) dupAckInDisorder :=
  kept_read fun _ => kept_then (kept_basic (kept_ensure _)) fun _ =>
    .ite (fun _ => kept_enterRecovery) fun _ => .ite (fun _ => kept_enterRecovery) fun _ =>
      kept_basic (kept_when fun _ => kept_addRenoSack)

theorem kept_dupAck : Kept (chain BasicMove) dupAck := by
  refine kept_read fun s => kept_when fun _ => ?_
  refine kept_then (kept_basic (kept_when fun _ => kept_quiet fun _ => rfl)) fun _ => ?_
  refine kept_read fun s => kept_then (kept_basic (kept_when fun _ => ?_)) fun _ => ?_
  · exact kept_then (kept_ensure _) fun _ => kept_then kept_congestion fun _ => kept_setCongState _
  · refine kept_read fun s => .ite (fun _ => kept_basic ?_) fun _ =>
      kept_when fun _ => kept_dupAckInDisorder
    exact kept_then (kept_when fun _ => kept_addRenoSack) fun _ => kept_when fun _ => kept_congestion

theorem kept_countAcked (ack oldHead : SequenceNumber 32) :
    Kept (chain CallMove) (countAcked ack oldHead) :=
  kept_read fun _ => kept_then (kept_quiet fun _ => rfl) fun _ => kept_return _

theorem kept_leaveCongState (isDupack : Bool) (segsAcked oldDupAckCount : BitVec 32) :
    Kept (chain CallMove) (leaveCongState isDupack segsAcked oldDupAckCount) := by
  refine kept_read fun s => ?_
  split
  · exact kept_then kept_congestion fun _ => kept_return _
  · refine kept_then (kept_when fun _ => kept_congestion) fun _ => ?_
    refine kept_then (kept_when fun _ => ?_) fun _ => kept_return _
    exact kept_then kept_congestion fun _ => kept_setCongState _
  · refine kept_then (kept_quiet fun _ => rfl) fun _ => kept_then kept_congestion fun _ => ?_
    exact kept_then (kept_quiet fun _ => rfl) fun _ => kept_return _
  · refine kept_then (kept_quiet fun _ => rfl) fun _ => kept_then kept_congestion fun _ => ?_
    exact kept_then (kept_setCongState _) fun _ => kept_return _
  · exact kept_return _

theorem kept_readOptions (options : List (List SackBlock)) (sacked : BitVec 32) :
    Kept (chain CallMove) (readOptions sacked options) := by
  induction options generalizing sacked with
  | nil => exact kept_return _
  | cons blocks rest ih =>
    refine kept_then (fun m => keptAt_read ?_) fun _ => ih _
    cases hupdate : m.socket.txBuffer.update blocks with
    | none => exact ⟨_, .refl, rfl⟩
    | some updated =>
      obtain ⟨b, sacked⟩ := updated
      exact .single (.calm (.rescored (Rescored.update hupdate)))

theorem keptAt_discardUpTo (heard : Processed m.trace s₀ seg) (hack : seg.flags.ack)
    (hopened : s₀.opens → seg.ack = m.socket.txBuffer.firstByteSeq) :
    KeptAt (chain BasicMove) (TcpSocketBase.discardUpTo seg.ack) m := by
  cases hdiscard : m.socket.txBuffer.discardUpTo m.now seg.ack with
  | none => simpa only [KeptAt, TcpSocketBase.discardUpTo, hdiscard] using ⟨_, .refl, rfl⟩
  | some b =>
    simp only [KeptAt, TcpSocketBase.discardUpTo, hdiscard]
    exact .single (.acknowledged heard hack hopened hdiscard)

theorem kept_processEcho (ack oldHead : SequenceNumber 32) (ece : Bool) :
    Kept (chain CallMove) (processEcho ack oldHead ece) := by
  refine kept_read fun s => .ite (fun _ => kept_when fun _ => ?_) fun _ =>
    kept_when fun _ => kept_quiet fun _ => rfl
  exact kept_then (kept_quiet fun _ => rfl) fun _ => kept_when fun _ => kept_enterCwr

variable {app : Callback → Program Unit} (happ : ∀ c, Kept (chain CallMove) (app c))
include happ

theorem kept_newAck (ack : SequenceNumber 32) (resetRTO : Bool) :
    Kept (chain BasicMove) (newAck app ack resetRTO) := by
  refine kept_then (kept_basic (kept_quiet fun _ => rfl)) fun _ => kept_read fun s => ?_
  refine kept_then (kept_when fun _ => fun m => .single .rearmed) fun _ => ?_
  refine kept_then (kept_basic (kept_when fun _ => happ _)) fun _ => kept_read fun s => ?_
  refine kept_then (kept_basic (kept_when fun _ => kept_setNextTxSequence _)) fun _ m => ?_
  exact keptAt_read (keptAt_when fun hempty => .single (.disarmed hempty.1))

theorem kept_partialAck (ack : SequenceNumber 32) (segsAcked : BitVec 32) :
    Kept (chain BasicMove) (partialAck app ack segsAcked) := by
  refine kept_read fun s => kept_then (kept_basic (kept_when fun _ => kept_markHeadAsLost)) fun _ => ?_
  refine kept_then (kept_basic (kept_when fun _ => kept_congestion)) fun _ => kept_read fun s => ?_
  refine kept_then (kept_when fun _ => kept_doRetransmit) fun _ => ?_
  refine kept_then (kept_basic kept_congestion) fun _ => kept_read fun s => ?_
  exact kept_then (kept_newAck happ _ _) fun _ => kept_basic (kept_quiet fun _ => rfl)

theorem kept_fullAck (ack : SequenceNumber 32) (isDupack : Bool) (segsAcked oldDupAckCount : BitVec 32) :
    Kept (chain BasicMove) (fullAck app ack isDupack segsAcked oldDupAckCount) := by
  refine kept_then (kept_basic (kept_leaveCongState _ _ _)) fun exited => ?_
  refine kept_then (kept_basic (kept_quiet fun _ => rfl)) fun _ => ?_
  refine kept_then (kept_when fun _ => ?_) fun _ => kept_read fun s => kept_when fun _ => ?_
  · exact kept_then (kept_newAck happ _ _) fun _ => kept_basic kept_congestion
  · exact kept_then (kept_basic kept_congestion) fun _ => kept_newAck happ _ _

theorem kept_advanceAck (ack oldHead : SequenceNumber 32) (isDupack : Bool)
    (oldDupAckCount : BitVec 32) :
    Kept (chain BasicMove) (advanceAck app ack oldHead isDupack oldDupAckCount) := by
  refine kept_then (kept_basic (kept_countAcked _ _)) fun segsAcked => ?_
  refine kept_then (kept_basic (kept_when fun _ => kept_quiet fun _ => rfl)) fun _ => ?_
  refine kept_read fun s => .ite (fun _ => kept_partialAck happ _ _) fun _ => ?_
  refine .ite (fun _ => ?_) fun _ => .ite (fun _ => ?_) fun _ => kept_fullAck happ _ _ _ _
  · refine kept_then (kept_basic kept_congestion) fun _ => ?_
    exact kept_then (kept_basic (kept_ensure _)) fun _ => kept_newAck happ _ _
  · exact kept_then (kept_basic kept_congestion) fun _ => kept_newAck happ _ _

theorem kept_processAck (ack : SequenceNumber 32) (scoreboardUpdated : Bool)
    (oldHead : SequenceNumber 32) :
    Kept (chain BasicMove) (processAck app ack scoreboardUpdated oldHead) := by
  refine kept_read fun s => kept_then (kept_when fun _ => kept_dupAck) fun _ => kept_read fun s => ?_
  refine .ite (fun _ => .ite (fun _ => kept_return _) fun _ => kept_basic (.ite (fun _ => ?_) fun _ => ?_))
    fun _ => kept_when fun _ => kept_advanceAck happ _ _ _ _
  · exact kept_setNextTxSequence _
  · exact kept_congestion

theorem keptAt_acceptAck (heard : Processed m.trace s₀ seg) (hack : seg.flags.ack)
    (hopened : s₀.opens → seg.ack = m.socket.txBuffer.firstByteSeq) (bytesSacked : BitVec 32)
    (oldHead : SequenceNumber 32) :
    KeptAt (chain BasicMove) (acceptAck app seg bytesSacked oldHead) m := by
  refine (keptAt_discardUpTo heard hack hopened).bind (chain_composes _) fun _ m₁ _ => keptAt_of ?_
  refine kept_read fun s => kept_then (kept_basic (kept_when fun _ => ?_)) fun _ => ?_
  · exact kept_then (kept_setCongState _) fun _ => kept_when fun _ => kept_congestion
  · refine kept_then (kept_basic (kept_processEcho _ _ _)) fun _ => ?_
    refine kept_then (kept_basic kept_bytesInFlightNow) fun _ => ?_
    refine kept_then (kept_processAck happ _ _ _) fun _ => kept_read fun s => ?_
    exact kept_basic (kept_when fun _ => kept_congestion)

omit happ in
theorem heard_after {α : Type} {p : Program α} {a : α} {m' : Machine} (h : p m = .ok a m')
    (hp : KeptAt (chain BasicMove) p m) (heard : Processed m.trace s₀ seg) :
    Processed m'.trace s₀ seg := heard.moves ((keptAt_ok h).mp hp)

omit happ in
theorem CallMove.head {r r' : Snapshot} (h : CallMove r r') :
    r'.socket.txBuffer.firstByteSeq = r.socket.txBuffer.firstByteSeq := by
  cases h with
  | calm h => exact h.txBuffer.firstByteSeq
  | queued _ _ _ => exact (add_sent _ _).1
  | deallocated =>
    unfold TcpSocketBase.deallocated
    split <;> rfl
  | fin _ _ _ _ _ ht =>
    subst ht
    rfl
  | _ => rfl

omit happ in
theorem calls_head {r r' : Snapshot} (h : ReflTransGen CallMove r r') :
    r'.socket.txBuffer.firstByteSeq = r.socket.txBuffer.firstByteSeq := by
  induction h with
  | refl => rfl
  | tail _ h ih => exact h.head.trans ih

theorem keptAt_receivedAck (heard : Processed m.trace s₀ seg) (htakes : s₀.takesData seg)
    (hopened : seg.flags.ack → s₀.opens → seg.ack = m.socket.txBuffer.firstByteSeq) :
    KeptAt (chain BasicMove) (receivedAck app seg) m := by
  have hdata {m : Machine} (heard : Processed m.trace s₀ seg) :
      KeptAt (chain BasicMove) (when (seg.payload ≠ []) (receivedData app seg)) m :=
    keptAt_when fun hsome => keptAt_receivedData happ heard htakes (.inl hsome)
  refine keptAt_read (keptAt_ensure fun hack => ?_)
  have hoptions := kept_readOptions seg.sack 0 m
  refine (keptAt_basic hoptions).bind (chain_composes _) fun sacked m₁ h₁ => keptAt_read ?_
  have heard₁ := heard_after h₁ (keptAt_basic hoptions) heard
  have hhead : m₁.socket.txBuffer.firstByteSeq = m.socket.txBuffer.firstByteSeq :=
    calls_head ((keptAt_ok h₁).mp hoptions)
  refine .ite (fun _ => hdata heard₁) fun _ => ?_
  have haccept := keptAt_acceptAck happ heard₁ hack.1 (fun h => (hopened hack.1 h).trans hhead.symm) sacked
    m₁.socket.txBuffer.firstByteSeq
  refine haccept.bind (chain_composes _) fun _ m₂ h₂ => ?_
  refine (hdata (heard_after h₂ haccept heard₁)).bind (chain_composes _) fun _ m₃ _ => keptAt_of ?_
  exact kept_read fun s => kept_then (kept_sendPendingData happ _) fun _ => kept_return _

end Acknowledgments

section States
variable {app : Callback → Program Unit} (happ : ∀ c, Kept (chain CallMove) (app c))
  {m : Machine} {s₀ : TcpSocketBase} {seg : Segment}
include happ

theorem keptAt_closeAndNotify_ending (hend : Aborted m.trace ∨ m.socket.ending) :
    KeptAt (chain BasicMove) (closeAndNotify app) m := by
  refine (kept_basic (kept_notifyClose happ) m).bind (chain_composes _) fun _ m₁ h₁ => ?_
  have hmoves := (keptAt_ok h₁).mp (kept_notifyClose happ m)
  refine (keptAt_basic (keptAt_quiet rfl)).bind (chain_composes _) fun _ m₂ h₂ => ?_
  cases h₂
  refine KeptAt.bind (chain_composes _) (.single (.closed ?_)) fun _ m₃ _ =>
    kept_basic kept_deallocateEndPoint m₃
  exact calls_ending hmoves hend

/-- An illegal segment, or a reset. -/
theorem keptAt_refuse {c : Prop} {_ : Decidable c} (heard : Processed m.trace s₀ seg)
    (hend : m.socket.endPoint) (hstate : m.socket.state ≠ .timeWait)
    (hrst : ¬ c → seg.flags.rst) :
    KeptAt (chain BasicMove) (when c (sendRST app) >>= fun _ => closeAndNotify app) m := by
  by_cases hc : c
  · rw [Programs.when, if_pos hc]
    exact keptAt_basic (keptAt_resetAndClose happ hstate (.inl hend))
  · have haborted : Aborted m.trace := ⟨_, List.mem_of_find?_eq_some heard.current, hrst hc⟩
    rw [Programs.when, if_neg hc]
    exact keptAt_basic (keptAt_closeAndNotify happ hstate (.inl haborted))

theorem keptAt_abort {flags : Flags} (heard : Processed m.trace s₀ seg)
    (hend : m.socket.endPoint) (hstate : m.socket.state ≠ .timeWait)
    (hrst : flags = RST → seg.flags.rst) : KeptAt (chain BasicMove) (abort app flags) m :=
  keptAt_refuse happ heard hend hstate fun h => hrst (not_not.mp h)

omit happ in
theorem control_eq {seg : Segment} {flags : Flags} (h : seg.flags.control = flags) :
    seg.flags.fin = flags.fin ∧ seg.flags.ack = flags.ack ∧ seg.flags.rst = flags.rst ∧
      seg.flags.syn = flags.syn := by
  subst h
  exact ⟨rfl, rfl, rfl, rfl⟩

theorem keptAt_processEstablished (heard : Processed m.trace s₀ seg) (hend : m.socket.endPoint)
    (hstate : m.socket.state = .established) (hsame : s₀.state = m.socket.state) :
    KeptAt (chain BasicMove) (processEstablished app seg) m := by
  have htakes : s₀.takesData seg := by simp [takesData, hsame, hstate]
  refine keptAt_read (.ite (fun _ => ?_) fun _ => .ite (fun _ => kept_return () m) fun _ => ?_)
  · refine .ite (fun _ => kept_return () m) fun _ => .ite (fun _ => ?_) fun _ => ?_
    · exact kept_basic (kept_sendAck happ) m
    · exact keptAt_receivedAck happ heard htakes (by simp [opens, hsame, hstate])
  refine .ite (fun hflags => ?_) fun _ => .ite (fun hflags => ?_) fun _ => ?_
  · have hfin : seg.flags.fin := hflags.elim (fun h => (control_eq h).1) fun h => (control_eq h).1
    exact keptAt_peerClose happ heard htakes (.inr (.inl hfin)) (.inl hfin)
  · have hbare : carries seg := .inr (.inr hflags)
    have hdata := keptAt_receivedData happ heard htakes hbare
    refine hdata.bind (chain_composes _) fun _ m₁ h₁ => keptAt_read (keptAt_when fun hfin => ?_)
    exact keptAt_peerClose happ (heard_after h₁ hdata heard) htakes hbare (.inr hfin)
  · exact keptAt_abort happ heard hend (by simp [hstate]) fun h => (control_eq h).2.2.1

omit happ in
theorem carries_of_core {seg : Segment} (h : seg.flags.core = {}) : carries seg := by
  refine .inr (.inr ?_)
  rw [Flags.control, h]

omit happ in
theorem congestion_run (m : Machine) :
    ∃ m', congestion m = .ok () m' ∧ Calm m.socket m'.socket ∧ m'.trace = m.trace ∧
      m'.socket.nextTxSequence = m.socket.nextTxSequence := by
  unfold congestion
  split
  · exact ⟨_, rfl, .refl _, rfl, rfl⟩
  · exact ⟨_, rfl, .of_watched rfl, rfl, rfl⟩

omit happ in
theorem becomeEstablished_run (m : Machine) :
    ∃ u m', becomeEstablished m = .ok () m' ∧ Calm m.socket u ∧
      u.nextTxSequence = m.socket.nextTxSequence ∧
        m'.socket = { u with state := .established, connected := true, retxEvent := none } ∧
          m'.trace = ⟨u, .state .established⟩ :: m.trace := by
  obtain ⟨m₁, hrun, hcalm, htrace, hnext⟩ := congestion_run m
  refine ⟨{ m₁.socket with congState := .caOpen }, _, bind_ok hrun, ?_, hnext, rfl, ?_⟩
  · exact hcalm.trans (.of_watched rfl)
  · exact congrArg _ htrace

omit happ in
theorem startSending_run (m : Machine) :
    (∃ e, startSending m = .error e m) ∨
      ∃ b, m.socket.txBuffer.setHeadSequence (m.socket.nextTxSequence + 1) = some b ∧
        startSending m =
          .ok ()
            { m with
              socket :=
                { m.socket with
                  nextTxSequence := m.socket.nextTxSequence + 1
                  highTxMark := m.socket.nextTxSequence + 1
                  txBuffer := b }
              trace := ⟨m.socket, .handshake⟩ :: m.trace } := by
  cases hhead : m.socket.txBuffer.setHeadSequence (m.socket.nextTxSequence + 1) with
  | none =>
    have hlift : lift (m.socket.txBuffer.setHeadSequence (m.socket.nextTxSequence + 1)) m =
        .error .assertion m := by rw [hhead]; rfl
    exact .inl ⟨_, (bind_ok rfl).trans (bind_error hlift)⟩
  | some b =>
    have hlift : lift (m.socket.txBuffer.setHeadSequence (m.socket.nextTxSequence + 1)) m =
        .ok b m := by rw [hhead]; rfl
    exact .inr ⟨b, rfl, (bind_ok rfl).trans (bind_ok hlift)⟩

omit happ in
theorem setHeadSequence_first {b b' : TcpTxBuffer} {seq : SequenceNumber 32}
    (h : b.setHeadSequence seq = some b') : b'.firstByteSeq = seq := by
  unfold TcpTxBuffer.setHeadSequence at h
  split at h
  · cases h
    rfl
  · cases h

omit happ in
theorem keptAt_startSending (heard : Processed m.trace s₀ seg) (hopens : s₀.opens) :
    KeptAt (chain BasicMove) startSending m := by
  obtain ⟨e, he⟩ | ⟨b, hhead, hrun⟩ := startSending_run m
  · exact (keptAt_error he).mpr ⟨_, .refl, rfl⟩
  · exact (keptAt_ok hrun).mpr (.single (.handshake heard hopens hhead))

omit happ in
theorem keptAt_becomeEstablished {m : Machine}
    (hstate : m.socket.state = .synSent ∨ m.socket.state = .synRcvd) :
    KeptAt (chain BasicMove) becomeEstablished m := by
  obtain ⟨u, m₁, hrun, hcalm, -, hsocket, htrace⟩ := becomeEstablished_run m
  refine (keptAt_ok hrun).mpr (.head (.call (.calm hcalm)) ?_)
  refine .head (.established (hcalm.state ▸ hstate)) (.single (.call (?_ : CallMove _ _)))
  rw [Machine.snapshot, hsocket, htrace]
  exact .calm (.of_watched rfl)

omit happ in
theorem kept_setNextRxSequence (seq : SequenceNumber 32) :
    Kept (chain BasicMove) (setNextRxSequence seq) := fun _ => .single .rxNext

theorem keptAt_sendSynAck {flags : Flags} {m : Machine} (hstate : m.socket.state ≠ .timeWait) :
    KeptAt (chain CallMove) (sendSynAck app flags) m := by
  refine keptAt_read (.ite (fun _ => ?_) fun _ => ?_)
  · refine (keptAt_sendEmptyPacket happ rfl fun _ => hstate).bind (chain_composes _) fun _ _ _ => ?_
    exact keptAt_quiet rfl
  · refine (keptAt_quiet rfl).bind (chain_composes _) fun _ m₁ h₁ => ?_
    cases h₁
    exact keptAt_sendEmptyPacket happ rfl fun _ => hstate

theorem keptAt_processSynSent (heard : Processed m.trace s₀ seg) (hend : m.socket.endPoint)
    (hstate : m.socket.state = .synSent) (hsame : s₀.state = m.socket.state) :
    KeptAt (chain BasicMove) (processSynSent app seg) m := by
  have hawake : m.socket.state ≠ .timeWait := by simp [hstate]
  have hbecome := keptAt_becomeEstablished (.inl hstate)
  refine keptAt_read (.ite (fun hcore => ?_) fun _ => .ite (fun _ => kept_return () m) fun _ => ?_)
  · refine hbecome.bind (chain_composes _) fun _ m₁ h₁ => ?_
    have heard₁ := heard_after h₁ hbecome heard
    refine (keptAt_basic (keptAt_quiet rfl)).bind (chain_composes _) fun _ m₂ h₂ => ?_
    cases h₂
    exact keptAt_receivedData happ heard₁ (by simp [takesData, hsame, hstate, hcore])
      (carries_of_core hcore)
  refine .ite (fun _ => ?_) fun _ => .ite (fun _ => ?_) fun _ => ?_
  · refine KeptAt.bind (chain_composes _) (.single (.synRcvd hstate)) fun _ m₁ h₁ => ?_
    cases h₁
    refine (keptAt_basic (keptAt_quiet rfl)).bind (chain_composes _) fun _ m₂ h₂ => ?_
    cases h₂
    refine (kept_setNextRxSequence _ _).bind (chain_composes _) fun _ m₃ h₃ => ?_
    cases h₃
    exact keptAt_basic (keptAt_sendSynAck happ (by simp))
  · refine hbecome.bind (chain_composes _) fun _ m₁ h₁ => ?_
    have hnext := kept_setNextRxSequence (seg.seq + 1) m₁
    refine hnext.bind (chain_composes _) fun _ m₂ h₂ => ?_
    have heard₂ := heard_after h₂ hnext (heard_after h₁ hbecome heard)
    have hstart := keptAt_startSending heard₂ (by simp [opens, hsame, hstate])
    refine hstart.bind (chain_composes _) fun _ m₃ _ => keptAt_of ?_
    refine kept_then (kept_basic (kept_sendEmptyPacket happ rfl rfl)) fun _ => ?_
    refine kept_then (kept_basic (kept_quiet fun _ => rfl)) fun _ => kept_read fun s => ?_
    exact kept_then (kept_sendPendingData happ _) fun _ => kept_basic (kept_quiet fun _ => rfl)
  · refine keptAt_refuse happ heard hend hawake fun hrst => ?_
    have hcore : seg.flags.core.rst := by simpa using hrst
    exact hcore

omit happ in
theorem keptAt_startSendingConnected (heard : Processed m.trace s₀ seg) (hopens : s₀.opens)
    (hstate : m.socket.state = .synRcvd) : KeptAt (chain BasicMove) startSendingConnected m := by
  refine KeptAt.bind (chain_composes _) (.head (.answered hstate) ?_) fun _ m₁ h₁ => ?_
  · exact .single (.call (.calm (.of_watched (t := { m.socket with connected := true, retxEvent := none })
      rfl)))
  · cases h₁
    exact keptAt_startSending heard hopens

theorem keptAt_processSynRcvd (heard : Processed m.trace s₀ seg) (hend : m.socket.endPoint)
    (hstate : m.socket.state = .synRcvd) (hsame : s₀.state = m.socket.state) :
    KeptAt (chain BasicMove) (processSynRcvd app seg) m := by
  have hawake : m.socket.state ≠ .timeWait := by simp [hstate]
  have htakes : s₀.takesData seg := by simp [takesData, hsame, hstate]
  have hopens : s₀.opens := by simp [opens, hsame, hstate]
  refine keptAt_read (.ite (fun hack => ?_) fun _ => .ite (fun _ => ?_) fun _ => ?_)
  · obtain ⟨u, m₁, hrun, -, hnext, hsocket, -⟩ := becomeEstablished_run m
    have hbecome := keptAt_becomeEstablished (.inr hstate)
    refine hbecome.bind (chain_composes _) fun _ m₁' h₁ => ?_
    obtain ⟨-, rfl⟩ := EStateM.Result.ok.inj (hrun.symm.trans h₁)
    have heard₁ := heard_after h₁ hbecome heard
    have hstart := keptAt_startSending heard₁ hopens
    refine hstart.bind (chain_composes _) fun _ m₂ h₂ => ?_
    have heard₂ := heard_after h₂ hstart heard₁
    have hack₂ : seg.flags.ack → seg.ack = m₂.socket.txBuffer.firstByteSeq := by
      intro hflag
      have hseq : m.socket.nextTxSequence + 1 = seg.ack := by
        refine hack.elim (fun h => ?_) fun h => h.2
        simp [(control_eq h).2.1] at hflag
      obtain ⟨e, he⟩ | ⟨b, hhead, hrun₂⟩ := startSending_run m₁
      · rw [he] at h₂
        cases h₂
      · rw [hrun₂] at h₂
        cases h₂
        simp only
        rw [setHeadSequence_first hhead, hsocket, ← hseq]
        exact congrArg (· + 1) hnext.symm
    refine (keptAt_basic (keptAt_quiet rfl)).bind (chain_composes _) fun _ m₃ h₃ => ?_
    cases h₃
    have hcreated := happ .newConnectionCreated
    refine (keptAt_basic (hcreated _)).bind (chain_composes _) fun _ m₄ h₄ => ?_
    have heard₄ := heard_after h₄ (keptAt_basic (hcreated _)) heard₂
    have hhead := calls_head ((keptAt_ok h₄).mp (hcreated _))
    have hreceived := keptAt_receivedAck happ heard₄ htakes fun hflag _ => (hack₂ hflag).trans hhead.symm
    refine hreceived.bind (chain_composes _) fun _ m₅ _ => keptAt_of ?_
    exact kept_read fun s => kept_when fun _ => kept_basic (happ _)
  · refine (kept_setNextRxSequence _ m).bind (chain_composes _) fun _ m₁ h₁ => ?_
    cases h₁
    exact keptAt_basic (keptAt_sendSynAck happ hawake)
  refine .ite (fun hfin => keptAt_when fun _ => ?_) fun _ => ?_
  · have hstart := keptAt_startSendingConnected heard hopens hstate
    refine hstart.bind (chain_composes _) fun _ m₁ h₁ => ?_
    have heard₁ := heard_after h₁ hstart heard
    have hcreated := kept_basic (happ .newConnectionCreated) m₁
    refine hcreated.bind (chain_composes _) fun _ m₂ h₂ => ?_
    have hfin' : seg.flags.fin := (control_eq hfin).1
    exact keptAt_peerClose happ (heard_after h₂ hcreated heard₁) htakes (.inr (.inl hfin')) (.inl hfin')
  · exact keptAt_abort happ heard hend hawake fun h => (control_eq h).2.2.1

end States

end CudaNs3.Tcp
