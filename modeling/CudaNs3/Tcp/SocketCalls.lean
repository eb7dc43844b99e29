import CudaNs3.Tcp.SocketMoves

/-!
# Calls as moves

Every call of the application, with the calls that it makes out of the callbacks, is a chain of
moves. A program that stops has made a chain of moves as far as the trace shows.
-/

namespace CudaNs3.Tcp

open SequenceNumber TcpTxBuffer TcpSocketBase Programs Flags Relation
set_option autoImplicit false

def chain (R : Snapshot → Snapshot → Prop) : Frame Machine where
  ends m m' := ReflTransGen R m.snapshot m'.snapshot
  stops m m' := ∃ r, ReflTransGen R m.snapshot r ∧ m'.trace = r.trace

theorem chain_composes (R : Snapshot → Snapshot → Prop) : (chain R).Composes where
  refl _ := .refl
  trans _ _ _ := ReflTransGen.trans
  fails m := ⟨m.snapshot, .refl, rfl⟩
  halts _ _ _ h h' := h'.imp fun _ h' => ⟨h.trans h'.1, h'.2⟩

theorem keptAt_mono {α : Type} {R R' : Snapshot → Snapshot → Prop} {p : Program α}
    {m : Machine} (hR : ∀ r r', R r r' → R' r r') (h : KeptAt (chain R) p m) :
    KeptAt (chain R') p m := by
  unfold KeptAt at h ⊢
  split
  · rename_i heq
    rw [heq] at h
    exact ReflTransGen.mono hR _ _ h
  · rename_i heq
    rw [heq] at h
    exact h.imp fun _ h => ⟨ReflTransGen.mono hR _ _ h.1, h.2⟩

theorem kept_read {α : Type} {F : Frame Machine} {f : TcpSocketBase → Program α}
    (h : ∀ s, Kept F (f s)) : Kept F (socket >>= f) := fun m => h m.socket m

section KeptAt
variable {F : Frame Machine} {m : Machine}

theorem keptAt_read {α : Type} {f : TcpSocketBase → Program α} (h : KeptAt F (f m.socket) m) :
    KeptAt F (socket >>= f) m := h

theorem keptAt_when {R : Snapshot → Snapshot → Prop} {c : Prop} {_ : Decidable c} {p : Program Unit}
    (h : c → KeptAt (chain R) p m) : KeptAt (chain R) (when c p) m := by
  unfold Programs.when
  split
  · rename_i hc
    exact h hc
  · exact (chain_composes R).refl m

theorem keptAt_of {α : Type} {p : Program α} (h : Kept F p) : KeptAt F p m := h m

/-- The first steps of `p` are made, and `q` is left to run. -/
theorem keptAt_head {α : Type} {R : Snapshot → Snapshot → Prop} {p q : Program α} {t : Machine}
    (hmoves : ReflTransGen R m.snapshot t.snapshot) (hrun : p m = q t)
    (hq : KeptAt (chain R) q t) : KeptAt (chain R) p m :=
  .of_after hrun (.after (chain_composes R) hmoves hq)

end KeptAt

theorem kept_then {α β : Type} {R : Snapshot → Snapshot → Prop} {p : Program α}
    {f : α → Program β} (hp : Kept (chain R) p) (hf : ∀ a, Kept (chain R) (f a)) :
    Kept (chain R) (p >>= f) := hp.bind (chain_composes R) hf

theorem kept_return {α : Type} {R : Snapshot → Snapshot → Prop} (a : α) :
    Kept (chain R) (pure a : Program α) := kept_pure (chain_composes R) a

theorem kept_when {R : Snapshot → Snapshot → Prop} {c : Prop} {_ : Decidable c} {p : Program Unit}
    (hp : c → Kept (chain R) p) : Kept (chain R) (when c p) := Kept.when (chain_composes R) hp

section Quiet
variable {α : Type}

theorem kept_calm {f : TcpSocketBase → TcpSocketBase} (h : ∀ s, Calm s (f s)) :
    Kept (chain CallMove) (update f) := fun m => .single (.calm (h m.socket))

theorem kept_quiet {f : TcpSocketBase → TcpSocketBase} (h : ∀ s, Calm.watched (f s) = Calm.watched s) :
    Kept (chain CallMove) (update f) := kept_calm fun s => .of_watched (h s)

theorem keptAt_quiet {m : Machine} {f : TcpSocketBase → TcpSocketBase}
    (h : Calm.watched (f m.socket) = Calm.watched m.socket) :
    KeptAt (chain CallMove) (update f) m := .single (.calm (.of_watched h))

theorem kept_lift (o : Option α) : Kept (chain CallMove) (lift o) := by
  cases o with
  | none => exact kept_throw (chain_composes _) _
  | some a => exact kept_return a

theorem kept_ensure (c : Prop) [Decidable c] : Kept (chain CallMove) (ensure c) :=
  .ite (fun _ => kept_return _) fun _ => kept_throw (chain_composes _) _

theorem kept_congestion : Kept (chain CallMove) congestion := by
  intro m
  cases hw : m.windows with
  | nil => simpa [KeptAt, congestion, hw] using .refl
  | cons w ws =>
    simp only [KeptAt, congestion, hw]
    exact .single (.calm (.of_watched rfl))

theorem kept_note {h : Happening} (hh : h.note) : Kept (chain CallMove) (log h) :=
  fun _ => .single (.noted hh)

theorem kept_bytesInFlightNow : Kept (chain CallMove) bytesInFlightNow :=
  kept_read fun _ => kept_then (kept_lift _) fun _ =>
    kept_then (kept_quiet fun _ => rfl) fun _ => kept_return _

theorem kept_availableWindow : Kept (chain CallMove) availableWindow :=
  kept_read fun _ => kept_then kept_bytesInFlightNow fun _ => kept_return _

end Quiet

/-- The trace only grows. -/
theorem CallMove.grows {r r' : Snapshot} (h : CallMove r r') : r.trace <:+ r'.trace := by
  cases h <;> simp [List.suffix_cons, List.suffix_cons_iff]

theorem calls_grow {r r' : Snapshot} (h : ReflTransGen CallMove r r') : r.trace <:+ r'.trace := by
  induction h with
  | refl => exact List.suffix_rfl
  | tail _ h ih => exact ih.trans h.grows

theorem Aborted.mono {tr tr' : List Entry} (h : Aborted tr) (hle : tr <:+ tr') : Aborted tr' :=
  h.imp fun _ h => ⟨hle.subset h.1, h.2⟩

theorem finLeads_ending {s : TcpSocketBase} {st : TcpStates} (h : finLeads s.state st) :
    s.ending = false := by
  unfold finLeads at h
  unfold TcpSocketBase.ending
  split at h
  · rename_i hs
    rw [hs]
  · rename_i hs
    rw [hs]
  · rename_i hs
    rw [hs]
  · cases h

theorem deallocated_state (s : TcpSocketBase) : s.deallocated.state = s.state := by
  unfold TcpSocketBase.deallocated
  split <;> rfl

/-- A connection that is ending is not taken up again by a call. -/
theorem CallMove.ending {r r' : Snapshot} (h : CallMove r r')
    (he : Aborted r.trace ∨ r.socket.ending) : Aborted r'.trace ∨ r'.socket.ending := by
  refine he.imp (fun ha => ha.mono h.grows) fun he => ?_
  cases h with
  | calm h => simpa only [TcpSocketBase.ending, h.state] using he
  | fin leads _ _ _ _ _ => exact absurd he (by simp [finLeads_ending leads])
  | unsent leads _ => exact absurd he (by simp [finLeads_ending leads])
  | deallocated => simpa only [TcpSocketBase.ending, deallocated_state] using he
  | closed => rfl
  | opening => rfl
  | listen => rfl
  | _ => exact he

theorem calls_ending {r r' : Snapshot} (h : ReflTransGen CallMove r r')
    (he : Aborted r.trace ∨ r.socket.ending) : Aborted r'.trace ∨ r'.socket.ending := by
  induction h with
  | refl => exact he
  | tail _ h ih => exact h.ending ih

/-- No call enters or leaves TIME_WAIT. -/
theorem CallMove.timeWait {r r' : Snapshot} (h : CallMove r r') :
    r'.socket.state = .timeWait ↔ r.socket.state = .timeWait := by
  cases h with
  | calm h => rw [h.state]
  | fin leads _ _ _ _ _ =>
    unfold finLeads at leads
    split at leads <;> simp_all
  | unsent leads _ =>
    unfold finLeads at leads
    split at leads <;> simp_all
  | deallocated => rw [deallocated_state]
  | closed state => simp [state]
  | opening state => simp [state]
  | listen state => simp [state]
  | _ => rfl

theorem calls_timeWait {r r' : Snapshot} (h : ReflTransGen CallMove r r') :
    r'.socket.state = .timeWait ↔ r.socket.state = .timeWait := by
  induction h with
  | refl => rfl
  | tail _ h ih => exact h.timeWait.trans ih

section Calls
variable {app : Callback → Program Unit} (happ : ∀ c, Kept (chain CallMove) (app c))

theorem kept_deallocateEndPoint : Kept (chain CallMove) deallocateEndPoint := by
  intro m
  have hmove : CallMove m.snapshot ⟨m.socket.deallocated, m.trace⟩ := .deallocated
  unfold TcpSocketBase.deallocated at hmove
  cases hend : m.socket.endPoint with
  | false => exact keptAt_read (keptAt_when fun h => absurd h (by simp [hend]))
  | true =>
    rw [if_pos hend] at hmove
    exact keptAt_read (keptAt_when fun _ => .single hmove)

theorem kept_setErrno (e : SocketErrno) : Kept (chain CallMove) (setErrno e) :=
  kept_quiet fun _ => rfl

section Windows
variable {s : TcpSocketBase} {flags : Flags} {w : BitVec 32} {window : BitVec 16}

theorem receiveWindow_advWnd (h : s.receiveWindow = some w) :
    { s with advWnd := w }.receiveWindow = some w := by
  unfold receiveWindow at h ⊢
  split at h
  · rename_i hfin
    exact if_pos hfin
  · rename_i hfin
    exact (if_neg hfin).trans h

theorem advertisedWindowSize_run (scale : Bool) (m : Machine) :
    (∃ e, advertisedWindowSize scale m = .error e m) ∨
      ∃ w, m.socket.receiveWindow = some w ∧ advertisedWindowSize scale m =
        .ok (m.socket.advertised scale w) { m with socket := { m.socket with advWnd := w } } := by
  cases hwindow : m.socket.receiveWindow with
  | none =>
    have hlift : lift m.socket.receiveWindow m = .error .assertion m := by rw [hwindow]; rfl
    exact .inl ⟨.assertion, (bind_ok rfl).trans (bind_error hlift)⟩
  | some w =>
    have hlift : lift m.socket.receiveWindow m = .ok w m := by rw [hwindow]; rfl
    exact .inr ⟨w, rfl, (bind_ok rfl).trans (bind_ok hlift)⟩

/-- The window that was computed last. -/
theorem announces_advWnd (syn : Bool) (h : s.receiveWindow = some w)
    (hshift : syn → s.winScalingEnabled → s.rcvWindShift = s.calculateWScale) :
    { s with advWnd := w }.Announces syn (s.advertised (!syn) w) :=
  ⟨⟨w, receiveWindow_advWnd h, rfl⟩, hshift⟩

theorem announces_scaled (h : s.receiveWindow = some w) :
    { s with advWnd := w }.Announces false (s.advertised true w) :=
  announces_advWnd false h nofun

/-- What sending an acknowledgment settles does not touch the window. -/
theorem announces_acked {syn : Bool} (h : s.Announces syn window) (ack : SequenceNumber 32) :
    (acked ack s).Announces syn window := ⟨h.window, h.shift⟩

/-- An empty segment without a FIN. -/
theorem keptAt_sendEmptySegment {m : Machine} (hfin : flags.fin = false)
    (hwindow : m.socket.Announces flags.syn window) (seq ack : SequenceNumber 32) :
    KeptAt (chain CallMove) (sendEmptySegment flags seq ack window) m := by
  have hacked : KeptAt (chain CallMove) (when flags.ack (TcpSocketBase.update (acked ack))) m :=
    keptAt_when fun _ => keptAt_quiet rfl
  refine hacked.bind (chain_composes _) fun _ m₁ h₁ => keptAt_read ?_
  have hwindow₁ : m₁.socket.Announces flags.syn window := by
    unfold Programs.when at h₁
    split at h₁
    · cases h₁
      exact announces_acked hwindow ack
    · cases h₁
      exact hwindow
  refine KeptAt.bind (chain_composes _) (.single (.control hfin rfl ⟨hwindow₁, rfl⟩)) fun _ m₂ _ => ?_
  refine keptAt_when fun hsyn => .single (.armed ?_ hfin)
  simpa [hfin] using hsyn

end Windows

/-- The scale is calculated before a SYN leaves. -/
theorem scale_run (m : Machine) :
    ∃ u, when m.socket.winScalingEnabled (TcpSocketBase.update fun s =>
        { s with rcvWindShift := s.calculateWScale }) m = .ok () { m with socket := u } ∧
      CallMove m.snapshot ⟨u, m.trace⟩ ∧ u.state = m.socket.state ∧
        (u.winScalingEnabled → u.rcvWindShift = u.calculateWScale) := by
  unfold Programs.when
  split
  · rename_i henabled
    exact ⟨_, rfl, .scaled henabled, rfl, fun _ => rfl⟩
  · rename_i henabled
    exact ⟨m.socket, rfl, .calm (.refl _), rfl, fun h => absurd h henabled⟩

theorem keptAt_awake {α : Type} {p : Program α} {a : α} {m m' : Machine} (h : p m = .ok a m')
    (hp : KeptAt (chain CallMove) p m) (hstate : m.socket.state ≠ .timeWait) :
    m'.socket.state ≠ .timeWait := fun h' => hstate ((calls_timeWait ((keptAt_ok h).mp hp)).mp h')

/-- What `SendEmptyPacket` sends without a SYN. -/
structure EmptySent (s : TcpSocketBase) (sent : Flags) (t : TcpSocketBase) (seg : Segment) : Prop where
  calm : Calm s t
  next : t.nextTxSequence = s.nextTxSequence
  flags : seg.flags = sent
  seq : seg.seq = s.emptySequence sent
  payload : seg.payload = []
  window : t.Advertises seg

/-- The machine afterwards, with the timer for a FIN. -/
def emptied (m : Machine) (t : TcpSocketBase) (seg : Segment) : Machine :=
  { m with
    socket :=
      if seg.flags.fin then
        { t with retxEvent := t.retxEvent.or (some (.sendEmptyPacket seg.flags)) }
      else t
    trace := ⟨t, .sent seg⟩ :: m.trace }

theorem sendEmptySegment_run {flags : Flags} {window : BitVec 16} (m : Machine)
    (hsyn : flags.syn = false) (hwindow : m.socket.Announces false window) (ack : SequenceNumber 32) :
    ∃ t seg,
      sendEmptySegment flags (m.socket.emptySequence flags) ack window m = .ok () (emptied m t seg) ∧
        EmptySent m.socket flags t seg := by
  obtain ⟨fin, syn, rst, psh, acks, urg, ece, cwr⟩ := flags
  cases hsyn
  cases acks
  · cases fin <;>
      exact ⟨m.socket, ⟨_, _, _, _, _, _, _, _, _⟩, rfl, .of_watched rfl, rfl, rfl, rfl, rfl, hwindow, rfl⟩
  · have hacked := announces_acked hwindow ack
    cases fin <;>
      exact ⟨acked ack m.socket, ⟨_, _, _, _, _, _, _, _, _⟩, rfl, .of_watched rfl, rfl, rfl, rfl, rfl,
        hacked, rfl⟩

/-- The flags that are sent with `flags`. -/
def sentFlags (flags : Flags) : Flags := if flags.fin then flags ||| ACK else flags

theorem sentFlags_fin (flags : Flags) : (sentFlags flags).fin = flags.fin := by
  unfold sentFlags
  split
  · rename_i h
    simp [HOr.hOr, OrOp.or]
  · rfl

theorem sentFlags_syn (flags : Flags) : (sentFlags flags).syn = flags.syn := by
  unfold sentFlags
  split
  · simp [HOr.hOr, OrOp.or]
  · rfl

/-- Without a SYN nothing is sent, or the program stops before, or an empty segment is sent. -/
theorem sendEmptyPacket_run (app : Callback → Program Unit) {flags : Flags} (m : Machine) (hsyn : flags.syn = false) :
    (m.socket.endPoint = false ∧ sendEmptyPacket app flags m = .ok () m) ∨
      (∃ e, sendEmptyPacket app flags m = .error e m) ∨
        ∃ t seg, sendEmptyPacket app flags m = .ok () (emptied m t seg) ∧
          EmptySent m.socket (sentFlags flags) t seg := by
  cases hend : m.socket.endPoint with
  | false =>
    refine .inl ⟨rfl, ?_⟩
    change when m.socket.endPoint _ m = _
    simp only [Programs.when, hend]
    rfl
  | true =>
    refine .inr ?_
    have hrun : sendEmptyPacket app flags m = (advertisedWindowSize true >>= fun window =>
        sendEmptySegment (sentFlags flags) (m.socket.emptySequence (sentFlags flags))
          m.socket.rxBuffer.nextRxSeq window) m := by
      have hsyn' := (sentFlags_syn flags).trans hsyn
      unfold sentFlags at hsyn' ⊢
      change when m.socket.endPoint _ m = _
      simp only [Programs.when, hend, if_true, hsyn', Bool.false_eq_true, if_false]
    rw [hrun]
    obtain ⟨e, he⟩ | ⟨w, hw, hrun⟩ := advertisedWindowSize_run true m
    · exact .inl ⟨e, bind_error he⟩
    · rw [bind_ok hrun]
      obtain ⟨t, seg, hrun, hsent⟩ :=
        sendEmptySegment_run { m with socket := { m.socket with advWnd := w } }
          ((sentFlags_syn flags).trans hsyn) (announces_scaled hw) m.socket.rxBuffer.nextRxSeq
      have hcalm : Calm m.socket { m.socket with advWnd := w } := .of_watched rfl
      exact .inr ⟨t, seg, hrun, { hsent with calm := hcalm.trans hsent.calm }⟩

/-- The FIN of a call, and the state that goes with it. -/
theorem keptAt_sendFin {flags : Flags} {st : TcpStates} {m : Machine}
    (hleads : finLeads m.socket.state st) (hfin : flags.fin) (hsyn : flags.syn = false) :
    KeptAt (chain CallMove) (sendFin app flags st) m := by
  obtain ⟨-, hrun⟩ | ⟨e, hrun⟩ | ⟨t, seg, hrun, hsent⟩ := sendEmptyPacket_run app m hsyn
  · rw [KeptAt, sendFin, bind_ok hrun]
    exact .single (.unsent hleads rfl)
  · rw [KeptAt, sendFin, bind_error hrun]
    exact ⟨_, .refl, rfl⟩
  · have hfin' : seg.flags.fin := by rw [hsent.flags, sentFlags_fin, hfin]
    have hseq : seg.seq = t.nextTxSequence := by
      rw [hsent.seq, emptySequence, sentFlags_fin, hfin, if_pos rfl, hsent.next]
    rw [KeptAt, sendFin, bind_ok hrun, emptied, if_pos hfin']
    exact .head (.calm hsent.calm)
      (.single (.fin (by rwa [hsent.calm.state]) hfin' hsent.payload hseq hsent.window rfl))

theorem kept_shutdownSendNow : Kept (chain CallMove) (shutdownSendNow app) := by
  refine kept_then (kept_quiet fun _ => rfl) fun _ m => keptAt_read (keptAt_when fun _ => ?_)
  split
  · rename_i hstate
    exact keptAt_sendFin (by rw [hstate]; rfl) rfl rfl
  · refine keptAt_when fun hstate => ?_
    exact keptAt_sendFin (by rw [hstate]; rfl) rfl rfl

theorem kept_scheduleSend : Kept (chain CallMove) scheduleSend :=
  kept_read fun _ => kept_when fun _ => kept_then kept_availableWindow fun _ =>
    kept_when fun _ => kept_quiet fun _ => rfl

theorem kept_send (p : Packet) : Kept (chain CallMove) (send p) := by
  refine fun m => keptAt_read ?_
  split
  · rename_i hstate
    split
    · rename_i hfits
      split
      · exact keptAt_head (t := ⟨_, _, _, _, _, _⟩) (.single (.queued hstate hfits (.inr rfl))) rfl
          (kept_setErrno _ _)
      · exact keptAt_head (q := scheduleSend) (t := ⟨_, _, _, _, _, _⟩)
          (.single (.queued hstate hfits (.inl rfl))) rfl (kept_scheduleSend _)
    · exact kept_setErrno _ _
  · exact kept_setErrno _ _

theorem kept_recv (maxSize : BitVec 32) : Kept (chain CallMove) (recv maxSize) := by
  refine fun m => keptAt_read ?_
  split
  · exact kept_note (by simp [Happening.note]) m
  · cases hextract : m.socket.rxBuffer.extract maxSize with
    | none => exact ⟨_, .refl, rfl⟩
    | some taken =>
      obtain ⟨b, bytes⟩ := taken
      exact .single (.extracted hextract)

theorem kept_bindSocket (allocated : Bool) : Kept (chain CallMove) (bindSocket allocated) := by
  intro m
  refine keptAt_head (t := ⟨_, _, _, _, _, _⟩) (.single .bound) rfl (keptAt_of ?_)
  exact kept_when fun _ => kept_setErrno _

theorem kept_listenSocket : Kept (chain CallMove) listenSocket := by
  refine fun m => keptAt_read ?_
  split
  · rename_i hstate
    exact .single (.listen hstate)
  · exact kept_setErrno _ m

theorem keptAt_openConnection {m : Machine} (hstate : m.socket.state ≠ .timeWait) :
    KeptAt (chain CallMove) (openConnection .synSent) m := .single (.opening hstate)

section Callbacks
include happ

theorem kept_notifyClose : Kept (chain CallMove) (notifyClose app) :=
  kept_read fun _ => kept_when fun _ => kept_then (happ _) fun _ => kept_quiet fun _ => rfl

theorem keptAt_closeAndNotify {m : Machine} (hstate : m.socket.state ≠ .timeWait)
    (hend : Aborted m.trace ∨ m.socket.ending) : KeptAt (chain CallMove) (closeAndNotify app) m := by
  refine (kept_notifyClose happ m).bind (chain_composes _) fun _ m₁ h₁ => ?_
  have hmoves := (keptAt_ok h₁).mp (kept_notifyClose happ m)
  refine KeptAt.bind (chain_composes _) (.single (.calm (.of_watched rfl))) fun _ m₂ h₂ => ?_
  cases h₂
  refine KeptAt.bind (chain_composes _) (.single (.closed ?_ ?_)) fun _ m₃ _ =>
    kept_deallocateEndPoint m₃
  · exact fun h => hstate ((calls_timeWait hmoves).mp h)
  · exact calls_ending hmoves hend

theorem keptAt_giveUp {m : Machine} (hstate : m.socket.state ≠ .timeWait) :
    KeptAt (chain CallMove) (giveUp app) m := by
  refine KeptAt.bind (chain_composes _) (.single (.noted rfl)) fun _ m₁ h₁ => ?_
  cases h₁
  refine (happ _ _).bind (chain_composes _) fun _ m₂ h₂ => ?_
  have hmoves := (keptAt_ok h₂).mp (happ _ _)
  refine KeptAt.bind (chain_composes _) (.single (.closed ?_ (.inl ?_))) fun _ m₃ _ =>
    kept_deallocateEndPoint m₃
  · exact fun h => hstate ((calls_timeWait hmoves).mp h)
  · exact Aborted.mono ⟨_, List.mem_cons_self, rfl⟩ (calls_grow hmoves)

theorem keptAt_sendEmptyPacket {flags : Flags} {m : Machine} (hfin : flags.fin = false)
    (hstate : flags.syn → m.socket.state ≠ .timeWait) :
    KeptAt (chain CallMove) (sendEmptyPacket app flags) m := by
  refine keptAt_read (keptAt_when fun _ => ?_)
  simp only [hfin, Bool.false_eq_true, if_false]
  obtain ⟨e, he⟩ | ⟨w, hw, hrun⟩ := advertisedWindowSize_run true m
  · exact (keptAt_error (bind_error he)).mpr ⟨_, .refl, rfl⟩
  have hcalm : CallMove m.snapshot ⟨{ m.socket with advWnd := w }, m.trace⟩ := .calm (.of_watched rfl)
  refine keptAt_head (t := { m with socket := { m.socket with advWnd := w } }) (.single hcalm)
    (bind_ok hrun) (.ite (fun hsyn => ?_) fun hsyn => ?_)
  · obtain ⟨u, hscale, hmove, hu, hshift⟩ := scale_run { m with socket := { m.socket with advWnd := w } }
    refine keptAt_head (t := { m with socket := u }) (.single hmove) (bind_ok hscale) (.ite (fun _ => ?_) fun _ => ?_)
    · exact keptAt_giveUp happ fun h => hstate hsyn (hu.symm.trans h)
    refine KeptAt.bind (chain_composes _) (keptAt_quiet rfl) fun _ m₃ h₃ => ?_
    cases h₃
    obtain ⟨e, he⟩ | ⟨w', hw', hrun'⟩ := advertisedWindowSize_run false
      { m with socket := { u with synCount := u.synCount - 1 } }
    · exact (keptAt_error (bind_error he)).mpr ⟨_, .refl, rfl⟩
    refine keptAt_head (t := { m with socket := { u with synCount := u.synCount - 1, advWnd := w' } })
      (.single (.calm (.of_watched rfl))) (bind_ok hrun') ?_
    refine keptAt_sendEmptySegment hfin ?_ _ _
    rw [hsyn]
    exact announces_advWnd true hw' fun _ => hshift
  · refine keptAt_sendEmptySegment hfin ?_ _ _
    rw [Bool.eq_false_iff.mpr hsyn]
    exact announces_scaled hw

theorem kept_sendEmptyPacket {flags : Flags} (hfin : flags.fin = false) (hsyn : flags.syn = false) :
    Kept (chain CallMove) (sendEmptyPacket app flags) :=
  fun _ => keptAt_sendEmptyPacket happ hfin (by simp [hsyn])

theorem kept_sendRST : Kept (chain CallMove) (sendRST app) :=
  kept_then (kept_sendEmptyPacket happ rfl rfl) fun _ => kept_then (happ _) fun _ =>
    kept_deallocateEndPoint

theorem kept_sendAck : Kept (chain CallMove) (sendAck app) :=
  kept_read fun _ => .ite
    (fun _ => kept_then (kept_sendEmptyPacket happ rfl rfl) fun _ => kept_quiet fun _ => rfl)
    fun _ => kept_sendEmptyPacket happ rfl rfl

theorem sendRST_aborts {m m' : Machine} (hend : m.socket.endPoint)
    (h : sendRST app m = .ok () m') : Aborted m'.trace := by
  have hrest : Kept (chain CallMove) (app .errorClose >>= fun _ => deallocateEndPoint) :=
    kept_then (happ _) fun _ => kept_deallocateEndPoint
  obtain ⟨hno, -⟩ | ⟨e, hrun⟩ | ⟨t, seg, hrun, hsent⟩ :=
    sendEmptyPacket_run app m (show RST.syn = false from rfl)
  · exact absurd hend (by simp [hno])
  · exact absurd (h.symm.trans (bind_error hrun)) (by simp)
  · have hmoves := (keptAt_ok ((bind_ok hrun).symm.trans h)).mp (hrest _)
    refine Aborted.mono ⟨_, List.mem_cons_self, ?_⟩ (calls_grow hmoves)
    change seg.flags.rst = true
    rw [hsent.flags]
    rfl

/-- A reset, and what follows it where the connection is given up. -/
theorem keptAt_resetAndClose {m : Machine} (hstate : m.socket.state ≠ .timeWait)
    (hend : m.socket.endPoint ∨ m.socket.ending) :
    KeptAt (chain CallMove) (sendRST app >>= fun _ => closeAndNotify app) m := by
  refine (kept_sendRST happ m).bind (chain_composes _) fun _ m₁ h₁ => ?_
  have hmoves := (keptAt_ok h₁).mp (kept_sendRST happ m)
  refine keptAt_closeAndNotify happ (keptAt_awake h₁ (kept_sendRST happ m) hstate) ?_
  exact hend.elim (fun h => .inl (sendRST_aborts happ h h₁)) fun h => calls_ending hmoves (.inr h)

theorem kept_doClose : Kept (chain CallMove) (doClose app) := by
  refine fun m => keptAt_read ?_
  cases hstate : m.socket.state with
  | synRcvd => exact keptAt_sendFin (by rw [hstate]; rfl) rfl rfl
  | established => exact keptAt_sendFin (by rw [hstate]; rfl) rfl rfl
  | closeWait => exact keptAt_sendFin (by rw [hstate]; rfl) rfl rfl
  | synSent =>
    exact keptAt_resetAndClose happ (by simp [hstate]) (.inr (by simp [TcpSocketBase.ending, hstate]))
  | closing =>
    exact keptAt_resetAndClose happ (by simp [hstate]) (.inr (by simp [TcpSocketBase.ending, hstate]))
  | listen =>
    exact keptAt_closeAndNotify happ (by simp [hstate]) (.inr (by simp [TcpSocketBase.ending, hstate]))
  | _ => exact kept_return () m

theorem kept_close : Kept (chain CallMove) (close app) :=
  kept_read fun _ => .ite (fun _ => kept_sendRST happ) fun _ =>
    .ite (fun _ => kept_quiet fun _ => rfl) fun _ => kept_doClose happ

theorem keptAt_startConnect {flags : Flags} {m : Machine} (hfin : flags.fin = false)
    (hstate : m.socket.state ≠ .timeWait) :
    KeptAt (chain CallMove) (do
      sendEmptyPacket app flags
      openConnection .synSent
      TcpSocketBase.update fun s => { s with ecnState := .disabled }) m := by
  have hsend : KeptAt (chain CallMove) (sendEmptyPacket app flags) m :=
    keptAt_sendEmptyPacket happ hfin fun _ => hstate
  refine hsend.bind (chain_composes _) fun _ m₁ h₁ => ?_
  have hopen := keptAt_openConnection (keptAt_awake h₁ hsend hstate)
  exact hopen.bind (chain_composes _) fun _ _ _ => keptAt_quiet rfl

theorem keptAt_doConnect {m : Machine} (hend : m.socket.endPoint) :
    KeptAt (chain CallMove) (doConnect app) m := by
  refine keptAt_read ?_
  cases hstate : m.socket.state with
  | closed => exact keptAt_startConnect happ (by split <;> rfl) (by simp [hstate])
  | listen => exact keptAt_startConnect happ (by split <;> rfl) (by simp [hstate])
  | synSent => exact keptAt_startConnect happ (by split <;> rfl) (by simp [hstate])
  | lastAck => exact keptAt_startConnect happ (by split <;> rfl) (by simp [hstate])
  | closeWait => exact keptAt_startConnect happ (by split <;> rfl) (by simp [hstate])
  | timeWait => exact kept_return () m
  | _ => exact keptAt_resetAndClose happ (by simp [hstate]) (.inl hend)

theorem kept_connect (allocated routed : Bool) : Kept (chain CallMove) (connect app allocated routed) := by
  refine fun m => keptAt_read ?_
  have hbind : KeptAt (chain CallMove) (when (!m.socket.endPoint) (bindSocket allocated)) m :=
    keptAt_when fun _ => kept_bindSocket allocated m
  refine hbind.bind (chain_composes _) fun _ m₁ _ => keptAt_read (keptAt_when fun hend => ?_)
  split
  · refine KeptAt.bind (chain_composes _) (keptAt_quiet rfl) fun _ m₂ h₂ => ?_
    cases h₂
    exact keptAt_doConnect happ hend
  · exact kept_setErrno _ m₁

theorem kept_call (c : Call) : Kept (chain CallMove) (call app c) := by
  cases c with
  | bind allocated => exact kept_bindSocket allocated
  | connect allocated routed => exact kept_connect happ allocated routed
  | listen => exact kept_listenSocket
  | send p => exact kept_send p
  | recv maxSize => exact kept_recv maxSize
  | shutdownSend => exact kept_shutdownSendNow
  | shutdownRecv => exact kept_quiet (f := fun s => { s with shutdownRecv := true }) fun _ => rfl
  | close => exact kept_close happ

theorem kept_callAll (calls : List Call) : Kept (chain CallMove) (callAll app calls) := by
  induction calls with
  | nil => exact kept_return ()
  | cons c calls ih => exact kept_then (kept_call happ c) fun _ => ih

end Callbacks

end Calls

theorem kept_nextAnswer : Kept (chain CallMove) nextAnswer := by
  intro m
  cases ha : m.answers with
  | nil => simpa [KeptAt, nextAnswer, ha] using .refl
  | cons calls answers =>
    simp only [KeptAt, nextAnswer, ha]
    exact .refl

/-- Whatever the application does in a callback is a chain of moves. -/
theorem kept_application (depth : Nat) (c : Callback) : Kept (chain CallMove) (application depth c) := by
  induction depth generalizing c with
  | zero => exact kept_return ()
  | succ depth ih => exact kept_then kept_nextAnswer fun calls => kept_callAll ih calls

end CudaNs3.Tcp
