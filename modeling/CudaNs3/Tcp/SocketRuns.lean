import CudaNs3.Tcp.SocketEvents

/-!
# Runs of a socket as moves

The states that are left when a connection ends, the timers, and the events. What is reached from
the start is reached by moves, and a program that stops has shown no other trace.
-/

namespace CudaNs3.Tcp

open SequenceNumber TcpTxBuffer TcpSocketBase Programs Flags Relation
set_option autoImplicit false

section States
variable {app : Callback → Program Unit} (happ : ∀ c, Kept (chain CallMove) (app c))
  {m : Machine} {s₀ : TcpSocketBase} {seg : Segment}
include happ

theorem keptAt_timeWait (hstate : m.socket.state = .finWait2 ∨ m.socket.state = .closing) :
    KeptAt (chain BasicMove) (timeWait app) m := by
  refine KeptAt.bind (chain_composes _) (.single (.timeWait hstate)) fun _ m₁ h₁ => ?_
  cases h₁
  have hnotify := kept_notifyClose happ
  refine (keptAt_basic (hnotify _)).bind (chain_composes _) fun _ m₂ h₂ => ?_
  exact .single (.awaited ((calls_timeWait ((keptAt_ok h₂).mp (hnotify _))).mpr rfl))

theorem kept_finishWait (seg : Segment) : Kept (chain BasicMove) (finishWait app seg) := by
  have hrest : Kept (chain BasicMove) (do
      sendEmptyPacket app ACK
      let s ← socket
      when (!s.shutdownRecv) (app .dataRecv)) := by
    refine kept_then (kept_basic (kept_sendEmptyPacket happ rfl rfl)) fun _ => ?_
    exact kept_read fun s => kept_when fun _ => kept_basic (happ _)
  refine fun m => keptAt_read (keptAt_when fun hstate => ?_)
  split
  · rename_i hfin
    refine KeptAt.bind (chain_composes _) (.single (.closing hfin)) fun _ m₁ h₁ => ?_
    cases h₁
    refine keptAt_read (KeptAt.bind (chain_composes _) (keptAt_when fun _ => ?_) fun _ m₂ _ => hrest m₂)
    exact keptAt_timeWait happ (.inr rfl)
  · rename_i hfin
    refine (keptAt_timeWait happ (.inl ?_)).bind (chain_composes _) fun _ m₂ _ => hrest m₂
    exact hstate.1.resolve_left hfin

theorem keptAt_processWait (heard : Processed m.trace s₀ seg) (hend : m.socket.endPoint)
    (hwaits : m.socket.waits) (hsame : s₀.state = m.socket.state) :
    KeptAt (chain BasicMove) (processWait app seg) m := by
  have hcases : m.socket.state = .finWait1 ∨ m.socket.state = .finWait2 ∨ m.socket.state = .closeWait := by
    unfold waits at hwaits
    split at hwaits <;> simp_all
  have htakes : s₀.takesData seg := by
    rw [takesData, hsame]
    rcases hcases with h | h | h <;> rw [h]
  have hopened : seg.flags.ack → s₀.opens → seg.ack = m.socket.txBuffer.firstByteSeq := by
    intro _ hopens
    rw [opens, hsame] at hopens
    rcases hcases with h | h | h <;> simp [h] at hopens
  have hwaits₀ : s₀.waits := by
    rwa [waits, hsame]
  have hreceived := keptAt_receivedAck happ heard htakes hopened
  refine .ite (fun hbare => ?_) fun hnot => .ite (fun hflags => ?_) fun _ => ?_
  · refine KeptAt.bind (chain_composes _) ?_ fun _ m₁ _ => kept_finishWait happ seg m₁
    exact keptAt_receivedData happ heard htakes (.inl hbare.1)
  · refine hreceived.bind (chain_composes _) fun _ m₁ h₁ => keptAt_read ?_
    have heard₁ := heard_after h₁ hreceived heard
    refine KeptAt.bind (chain_composes _) (keptAt_when fun hacks => ?_) fun _ m₂ _ =>
      kept_finishWait happ seg m₂
    exact .single (.finWait2 hacks.1 heard₁ (control_eq hflags).2.1 hacks.2)
  · refine .ite (fun hflags => ?_) fun _ => .ite (fun _ => kept_return () m) fun _ => ?_
    · have hfin : seg.flags.fin := hflags.elim (fun h => (control_eq h).1) fun h => (control_eq h).1
      have hack : KeptAt (chain BasicMove) (when seg.flags.control.ack (receivedAck app seg)) m :=
        keptAt_when fun _ => hreceived
      refine hack.bind (chain_composes _) fun _ m₁ h₁ => ?_
      have heard₁ := heard_after h₁ hack heard
      have hends : seg.payload ≠ [] → seg.flags.control = FIN ||| ACK := by
        refine fun hsome => hflags.resolve_left fun hbare => hnot ⟨hsome, ?_⟩
        rw [hbare]
      have hset := keptAt_setFinSequence heard₁ htakes (.inr (.inl hfin))
        (.inr ⟨rfl, hfin, hwaits₀, hends⟩)
      exact hset.bind (chain_composes _) fun _ m₂ _ => kept_finishWait happ seg m₂
    · refine keptAt_abort happ heard hend ?_ fun h => (control_eq h).2.2.1
      rcases hcases with h | h | h <;> simp [h]

theorem keptAt_processClosing (heard : Processed m.trace s₀ seg) (hend : m.socket.endPoint)
    (hstate : m.socket.state = .closing) : KeptAt (chain BasicMove) (processClosing app seg) m := by
  have hending : m.socket.ending := by simp [TcpSocketBase.ending, hstate]
  refine keptAt_read (.ite (fun _ => keptAt_when fun _ => ?_) fun _ => ?_)
  · exact keptAt_timeWait happ (.inr hstate)
  refine .ite (fun _ => ?_) fun _ => ?_
  · have hsend := kept_sendEmptyPacket happ (show ACK.fin = false from rfl) rfl m
    refine (keptAt_basic hsend).bind (chain_composes _) fun _ m₁ h₁ => ?_
    exact keptAt_closeAndNotify_ending happ (calls_ending ((keptAt_ok h₁).mp hsend) (.inr hending))
  · refine keptAt_refuse happ heard hend (by simp [hstate]) fun hrst => ?_
    have hcore : seg.flags.core.rst := by
      rw [not_not.mp hrst]
    exact hcore

omit happ in
/-- The FIN again, with the number that it had. -/
theorem keptAt_finAgain {flags : Flags} (hfin : flags.fin) (hsyn : flags.syn = false)
    (hstate : m.socket.state = .finWait1 ∨ m.socket.state = .closing ∨ m.socket.state = .lastAck) :
    KeptAt (chain BasicMove) (sendEmptyPacket app flags) m := by
  obtain ⟨-, hrun⟩ | ⟨e, hrun⟩ | ⟨t, seg, hrun, hsent⟩ := sendEmptyPacket_run app m hsyn
  · exact (keptAt_ok hrun).mpr .refl
  · exact (keptAt_error hrun).mpr ⟨_, .refl, rfl⟩
  · have hfin' : seg.flags.fin := by rw [hsent.flags, sentFlags_fin, hfin]
    have hseq : seg.seq = t.nextTxSequence := by
      rw [hsent.seq, emptySequence, sentFlags_fin, hfin, if_pos rfl, hsent.next]
    refine (keptAt_ok hrun).mpr (.head (.call (.calm hsent.calm)) ?_)
    rw [Machine.snapshot, emptied, if_pos hfin']
    exact .single (.finAgain (by rwa [hsent.calm.state]) hfin' hsent.payload hseq hsent.window)

theorem keptAt_processLastAck (heard : Processed m.trace s₀ seg) (hstate : m.socket.state = .lastAck)
    (hsame : s₀.state = m.socket.state) : KeptAt (chain BasicMove) (processLastAck app seg) m := by
  have hending : m.socket.ending := by simp [TcpSocketBase.ending, hstate]
  have hclose := keptAt_closeAndNotify_ending happ (.inr hending)
  refine keptAt_read (.ite (fun hcore => ?_) fun _ => .ite (fun _ => keptAt_when fun _ => hclose) fun _ => ?_)
  · exact keptAt_receivedData happ heard (by simp [takesData, hsame, hstate]) (carries_of_core hcore)
  refine .ite (fun _ => ?_) fun _ => .ite (fun _ => hclose) fun _ => ?_
  · exact keptAt_finAgain rfl rfl (.inr (.inr hstate))
  · exact keptAt_basic (keptAt_resetAndClose happ (by simp [hstate]) (.inr hending))

omit happ in
theorem kept_processClosed (seg : Segment) : Kept (chain CallMove) (processClosed seg) := by
  refine kept_when fun _ => kept_read fun s m => ?_
  obtain ⟨e, he⟩ | ⟨w, hw, hrun⟩ := advertisedWindowSize_run true m
  · exact (keptAt_error (bind_error he)).mpr ⟨_, .refl, rfl⟩
  refine keptAt_head (t := { m with socket := { m.socket with advWnd := w } })
    (.single (.calm (.of_watched rfl))) (bind_ok hrun) ?_
  exact .single (.control rfl rfl ⟨announces_scaled hw, rfl⟩)

theorem keptAt_dispatch (heard : Processed m.trace s₀ seg) (hend : m.socket.endPoint)
    (hsame : s₀.state = m.socket.state) : KeptAt (chain BasicMove) (dispatch app seg) m := by
  refine keptAt_read ?_
  cases hstate : m.socket.state with
  | established => exact keptAt_processEstablished happ heard hend hstate hsame
  | listen => exact keptAt_when fun _ => kept_basic (happ _) m
  | timeWait => exact kept_return () m
  | closed => exact kept_basic (kept_processClosed seg) m
  | synSent => exact keptAt_processSynSent happ heard hend hstate hsame
  | synRcvd => exact keptAt_processSynRcvd happ heard hend hstate hsame
  | finWait1 => exact keptAt_processWait happ heard hend (by simp [waits, hstate]) hsame
  | finWait2 => exact keptAt_processWait happ heard hend (by simp [waits, hstate]) hsame
  | closeWait => exact keptAt_processWait happ heard hend (by simp [waits, hstate]) hsame
  | closing => exact keptAt_processClosing happ heard hend hstate
  | lastAck => exact keptAt_processLastAck happ heard hstate hsame

end States

theorem kept_moves {α : Type} {p : Program α} (h : Kept (chain BasicMove) p) :
    Kept (chain Move) p := fun m => keptAt_mono (fun _ _ => .basic) (h m)

theorem keptAt_moves {α : Type} {p : Program α} {m : Machine} (h : KeptAt (chain BasicMove) p m) :
    KeptAt (chain Move) p m := keptAt_mono (fun _ _ => .basic) h

theorem kept_calls {α : Type} {p : Program α} (h : Kept (chain CallMove) p) : Kept (chain Move) p :=
  kept_moves (kept_basic h)

theorem keptAt_event {α : Type} {p : Program α} {m : Machine} {e : Event} {s₀ : TcpSocketBase}
    (h : KeptAt (chain Move) p m) : KeptAt (chain (EventMove e s₀)) p m :=
  keptAt_mono (fun _ _ => .move) h

section Timers

/-- One of the timers is dropped. -/
theorem kept_silenced {f : TcpSocketBase → TcpSocketBase} (h : ∀ s, Silenced s (f s)) :
    Kept (chain Move) (TcpSocketBase.update f) := fun m => .single (.silenced (h m.socket))

theorem silenced_persist (s : TcpSocketBase) : Silenced s { s with persistEvent := false } :=
  ⟨.of_watched rfl, .inl rfl, .inr rfl⟩

theorem silenced_retx (s : TcpSocketBase) : Silenced s { s with retxEvent := none } :=
  ⟨.of_watched rfl, .inr rfl, .inl rfl⟩

theorem sendEmptySegment_any {flags : Flags} {window : BitVec 16} {m : Machine}
    (hwindow : m.socket.Announces flags.syn window) (seq ack : SequenceNumber 32) :
    ∃ t seg ev, Calm m.socket t ∧ seg.payload = [] ∧ t.Advertises seg ∧
      sendEmptySegment flags seq ack window m = .ok ()
        { m with
          socket := { t with retxEvent := t.retxEvent.or ev }
          trace := ⟨t, .sent seg⟩ :: m.trace } := by
  have hnone (t : TcpSocketBase) : t.retxEvent.or none = t.retxEvent := Option.or_none
  obtain ⟨fin, syn, rst, psh, acks, urg, ece, cwr⟩ := flags
  have hcalm : Calm m.socket (acked ack m.socket) := .of_watched rfl
  have hacked := announces_acked hwindow ack
  cases acks
  · cases syn
    · cases fin
      · exact ⟨m.socket, _, none, .refl _, rfl, ⟨hwindow, rfl⟩, by rw [hnone]; rfl⟩
      · exact ⟨m.socket, _, _, .refl _, rfl, ⟨hwindow, rfl⟩, rfl⟩
    · exact ⟨m.socket, _, _, .refl _, rfl, ⟨hwindow, rfl⟩, rfl⟩
  · cases syn
    · cases fin
      · exact ⟨_, _, none, hcalm, rfl, ⟨hacked, rfl⟩, by rw [hnone]; rfl⟩
      · exact ⟨_, _, _, hcalm, rfl, ⟨hacked, rfl⟩, rfl⟩
    · exact ⟨_, _, _, hcalm, rfl, ⟨hacked, rfl⟩, rfl⟩

variable {app : Callback → Program Unit} (happ : ∀ c, Kept (chain CallMove) (app c))
include happ

/-- The timer sends an empty segment again, whatever the state is. -/
theorem kept_sendEmptyAgain (flags : Flags) : Kept (chain Move) (sendEmptyPacket app flags) := by
  have hsegment {flags : Flags} {window : BitVec 16} {m : Machine}
      (hwindow : m.socket.Announces flags.syn window) (seq ack : SequenceNumber 32) :
      KeptAt (chain Move) (sendEmptySegment flags seq ack window) m := by
    obtain ⟨t, seg, ev, hcalm, hempty, hadvertises, hrun⟩ := sendEmptySegment_any hwindow seq ack
    exact (keptAt_ok hrun).mpr (.single (.resent hcalm hempty hadvertises))
  have hgiveUp : Kept (chain Move) (giveUp app) := by
    refine kept_then (kept_calls (kept_note rfl)) fun _ => kept_then (kept_calls (happ _)) fun _ => ?_
    exact kept_then (fun m => .single .closed) fun _ => kept_calls kept_deallocateEndPoint
  have hcall {r r' : Snapshot} (h : CallMove r r') : Relation.ReflTransGen Move r r' :=
    .single (.basic (.call h))
  refine fun m => keptAt_read (keptAt_when fun _ => ?_)
  obtain ⟨e, he⟩ | ⟨w, hw, hrun⟩ := advertisedWindowSize_run true m
  · exact (keptAt_error (bind_error he)).mpr ⟨_, .refl, rfl⟩
  refine keptAt_head (t := { m with socket := { m.socket with advWnd := w } })
    (hcall (.calm (.of_watched rfl))) (bind_ok hrun) (.ite (fun hsyn => ?_) fun hsyn => ?_)
  · obtain ⟨u, hscale, hmove, -, hshift⟩ := scale_run { m with socket := { m.socket with advWnd := w } }
    refine keptAt_head (t := { m with socket := u }) (hcall hmove) (bind_ok hscale)
      (.ite (fun _ => hgiveUp _) fun _ => ?_)
    refine KeptAt.bind (chain_composes _) (hcall (.calm (.of_watched rfl))) fun _ m₃ h₃ => ?_
    cases h₃
    obtain ⟨e, he⟩ | ⟨w', hw', hrun'⟩ := advertisedWindowSize_run false
      { m with socket := { u with synCount := u.synCount - 1 } }
    · exact (keptAt_error (bind_error he)).mpr ⟨_, .refl, rfl⟩
    refine keptAt_head (t := { m with socket := { u with synCount := u.synCount - 1, advWnd := w' } })
      (hcall (.calm (.of_watched rfl))) (bind_ok hrun') (hsegment ?_ _ _)
    rw [hsyn]
    exact announces_advWnd true hw' fun _ => hshift
  · refine hsegment ?_ _ _
    rw [Bool.eq_false_iff.mpr hsyn]
    exact announces_scaled hw

omit happ in
theorem kept_loseSentList : Kept (chain Move) loseSentList := by
  refine kept_then (kept_calls kept_bytesInFlightNow) fun _ => kept_read fun s => ?_
  refine kept_then (kept_calls (kept_updateTxBuffer fun b b' h => ?_)) fun _ => ?_
  · refine Rescored.trans ?_ (.setSentListLost h)
    split
    · exact .refl b
    · exact .resetRenoSack b
  · refine kept_then (kept_calls kept_congestion) fun _ => ?_
    refine kept_then (kept_calls (kept_quiet fun _ => rfl)) fun _ => ?_
    exact kept_then (kept_calls kept_bytesInFlightNow) fun _ => kept_calls (kept_ensure _)

/-- No more retries. -/
theorem kept_exhausted : Kept (chain Move) (do
    log .gaveUp
    app .errorClose
    deallocateEndPoint) := by
  refine kept_then (kept_calls (kept_note rfl)) fun _ => kept_then (kept_calls (happ _)) fun _ => ?_
  exact kept_calls kept_deallocateEndPoint

theorem kept_reTxTimeout : Kept (chain Move) (reTxTimeout app) := by
  refine kept_read fun s => .ite (fun _ => kept_return _) fun _ => .ite (fun _ => ?_) fun _ => ?_
  · exact kept_then (kept_calls (kept_ensure _)) fun _ => kept_sendEmptyAgain happ _
  refine .ite (fun _ => kept_when fun _ => kept_sendEmptyAgain happ _) fun _ => ?_
  refine .ite (fun _ => kept_exhausted happ) fun _ => ?_
  refine kept_then (kept_calls (kept_quiet fun _ => rfl)) fun _ => kept_then kept_loseSentList fun _ => ?_
  refine kept_read fun s => kept_then (kept_moves (kept_sendPendingData happ _)) fun _ => ?_
  exact kept_then (kept_calls kept_bytesInFlightNow) fun _ => kept_read fun s => kept_calls (kept_ensure _)

theorem kept_delAckTimeout : Kept (chain Move) (delAckTimeout app) := by
  refine kept_then (kept_calls (kept_quiet fun _ => rfl)) fun _ => ?_
  exact kept_then (kept_calls kept_congestion) fun _ => kept_calls (kept_sendAck happ)

theorem kept_lastAckTimeout : Kept (chain Move) (lastAckTimeout app) := by
  refine kept_then (kept_calls (kept_quiet fun _ => rfl)) fun _ => kept_read fun s => kept_when fun _ => ?_
  refine .ite (fun _ => kept_exhausted happ) fun _ => ?_
  refine kept_then (kept_calls (kept_quiet fun _ => rfl)) fun _ => ?_
  exact kept_then (kept_sendEmptyAgain happ _) fun _ => kept_calls (kept_quiet fun _ => rfl)

omit happ in
theorem kept_persistTimeout : Kept (chain Move) persistTimeout := by
  refine fun m => keptAt_moves (keptAt_read ?_)
  obtain ⟨e, he⟩ | ⟨b, item, hcopy, hrun⟩ := copyFromTxBuffer_run 1 m.socket.nextTxSequence m
  · exact (keptAt_error (bind_error he)).mpr ⟨_, .refl, rfl⟩
  refine KeptAt.of_after ((bind_ok hrun).trans (bind_ok rfl)) ?_
  obtain ⟨e, he⟩ | ⟨w, hw, hrun⟩ := advertisedWindowSize_run true { m with
    socket := { m.socket with txBuffer := b.resetLastSegmentSent } }
  · exact (keptAt_error (bind_error he)).mpr ⟨_, .refl, rfl⟩
  refine KeptAt.of_after (bind_ok hrun) (.ite (fun _ => ?_) fun _ => ⟨_, .refl, rfl⟩)
  exact .single (.probe hcopy rfl rfl (.of_watched rfl) ⟨announces_scaled hw, rfl⟩)

/-- The socket is closed by a timer. -/
theorem kept_closeAndNotify : Kept (chain Move) (closeAndNotify app) := by
  refine kept_then (kept_calls (kept_notifyClose happ)) fun _ => ?_
  refine kept_then (kept_calls (kept_quiet fun _ => rfl)) fun _ => ?_
  exact kept_then (fun m => .single .closed) fun _ => kept_calls kept_deallocateEndPoint

end Timers

section Events
variable {app : Callback → Program Unit} (happ : ∀ c, Kept (chain CallMove) (app c))
include happ

theorem kept_leavePersist : Kept (chain Move) (leavePersist app) := by
  refine kept_read fun s => kept_when fun _ => kept_then (kept_calls (kept_ensure _)) fun _ => ?_
  refine kept_then (kept_silenced silenced_persist) fun _ => ?_
  exact kept_then (kept_moves (kept_sendPendingData happ _)) fun _ => kept_return _

omit happ in
theorem kept_enterPersist : Kept (chain Move) (TcpSocketBase.update enterPersist) := by
  intro m
  cases hpersist : m.socket.rWnd = 0 && !m.socket.persistEvent with
  | true =>
    refine .single (.basic (?_ : BasicMove _ ⟨enterPersist m.socket, m.trace⟩))
    rw [enterPersist, hpersist, if_pos rfl]
    exact .persisted
  | false =>
    refine .single (.basic (.call (?_ : CallMove _ ⟨enterPersist m.socket, m.trace⟩)))
    rw [enterPersist, hpersist]
    exact .calm (.refl _)

omit happ in
/-- The header does not open or close anything. -/
theorem heard_same (s : TcpSocketBase) (seg : Segment) (e : EcnState) :
    (s.heard seg e).state = s.state ∧ (s.heard seg e).endPoint = s.endPoint := by
  unfold TcpSocketBase.heard readHeader updateWindowSize
  split
  · split
    · exact ⟨rfl, rfl⟩
    · split
      · simp only
        split <;> exact ⟨rfl, rfl⟩
      · exact ⟨rfl, rfl⟩
  · exact ⟨rfl, rfl⟩

theorem keptAt_doForwardUp {m : Machine} {ecn : IpEcn} {s₀ : TcpSocketBase}
    (hend : m.socket.endPoint) (hcalm : Calm s₀ m.socket) (seg : Segment) :
    KeptAt (chain (EventMove (.forwardUp ecn seg) s₀)) (doForwardUp app seg) m := by
  obtain ⟨e, he⟩ : ∃ e, (if m.socket.state = .established && !seg.flags.rst && seg.flags.cwr &&
      m.socket.ecnState ≠ .ceRcvd then { m.socket with ecnState := .idle } else m.socket) =
        { m.socket with ecnState := e } := by
    split
    · exact ⟨_, rfl⟩
    · exact ⟨m.socket.ecnState, rfl⟩
  have hmove : EventMove (.forwardUp ecn seg) s₀ m.snapshot
      ⟨m.socket.heard seg e, ⟨m.socket, .received seg⟩ :: m.trace⟩ := .received rfl hcalm
  have hecho : TcpSocketBase.update (fun s => if s.state = .established && !seg.flags.rst &&
      seg.flags.cwr && s.ecnState ≠ .ceRcvd then { s with ecnState := .idle } else s)
        { m with trace := ⟨m.socket, .received seg⟩ :: m.trace } = .ok ()
          { m with
            socket := { m.socket with ecnState := e }
            trace := ⟨m.socket, .received seg⟩ :: m.trace } := by
    rw [TcpSocketBase.update]
    exact congrArg (fun s => EStateM.Result.ok () { m with
      socket := s
      trace := ⟨m.socket, .received seg⟩ :: m.trace }) he
  obtain ⟨hsame, hend'⟩ := heard_same m.socket seg e
  by_cases hreads : m.socket.reads seg
  · have hsocket : m.socket.heard seg e = readHeader seg { m.socket with ecnState := e } := if_pos hreads
    rw [hsocket] at hmove hsame hend'
    obtain ⟨m₁, hm₁⟩ : ∃ m₁ : Machine, m₁ = { m with
      socket := readHeader seg { m.socket with ecnState := e }
      trace := ⟨m.socket, .received seg⟩ :: m.trace } := ⟨_, rfl⟩
    have hrun : doForwardUp app seg m = (do
        TcpSocketBase.update enterPersist
        dispatch app seg
        leavePersist app) m₁ := by
      subst hm₁
      refine (bind_ok rfl).trans ((bind_ok hecho).trans ((bind_ok rfl).trans ?_))
      unfold reads at hreads
      rw [Programs.when, if_pos hreads]
      exact bind_ok rfl
    have hmove₁ : EventMove (.forwardUp ecn seg) s₀ m.snapshot m₁.snapshot := by
      subst hm₁
      exact hmove
    refine keptAt_head (.single hmove₁) hrun (keptAt_event ?_)
    refine (kept_enterPersist _).bind (chain_composes _) fun _ m₂ h₂ => ?_
    cases h₂
    have hkeeps (s : TcpSocketBase) : (enterPersist s).state = s.state ∧
        (enterPersist s).endPoint = s.endPoint := by
      unfold enterPersist
      split <;> exact ⟨rfl, rfl⟩
    have hdispatch : KeptAt (chain BasicMove) (dispatch app seg)
        { m₁ with socket := enterPersist m₁.socket } := by
      subst hm₁
      exact keptAt_dispatch happ ⟨rfl, hreads⟩ (((hkeeps _).2.trans hend').trans hend)
        ((hkeeps _).1.trans hsame).symm
    exact (keptAt_moves hdispatch).bind (chain_composes _) fun _ m₃ _ => kept_leavePersist happ m₃
  · have hsocket : m.socket.heard seg e = { m.socket with ecnState := e } := if_neg hreads
    rw [hsocket] at hmove
    obtain ⟨m₁, hm₁⟩ : ∃ m₁ : Machine, m₁ = { m with
      socket := { m.socket with ecnState := e }
      trace := ⟨m.socket, .received seg⟩ :: m.trace } := ⟨_, rfl⟩
    have hmove₁ : EventMove (.forwardUp ecn seg) s₀ m.snapshot m₁.snapshot := by
      subst hm₁
      exact hmove
    have hrun : doForwardUp app seg m = (pure () : Program Unit) m₁ := by
      subst hm₁
      refine (bind_ok rfl).trans ((bind_ok hecho).trans ((bind_ok rfl).trans ?_))
      unfold reads at hreads
      rw [Programs.when, if_neg hreads]
    exact keptAt_head (.single hmove₁) hrun (kept_return () _)

omit happ in
theorem congestion_calmly : Kept calmly congestion := by
  intro m
  obtain ⟨m₁, hrun, hcalm, htrace, -⟩ := congestion_run m
  exact (keptAt_ok hrun).mpr ⟨hcalm, htrace⟩

omit happ in
theorem receiveEcn_calmly (ecn : IpEcn) (seq : SequenceNumber 32) : Kept calmly (receiveEcn ecn seq) := by
  have hcongested : Kept calmly (TcpSocketBase.update fun s =>
      { s with ecnCESeq := seq, ecnState := .ceRcvd }) := fun m => ⟨.of_watched rfl, rfl⟩
  refine kept_read fun s => .ite (fun _ => ?_) fun _ => .when calmly_composes fun _ => congestion_calmly
  exact .bind calmly_composes hcongested fun _ => congestion_calmly

theorem keptAt_forwardUp (ecn : IpEcn) (seg : Segment) (m : Machine) :
    KeptAt (chain (EventMove (.forwardUp ecn seg) m.socket)) (forwardUp app ecn seg) m := by
  refine keptAt_read (keptAt_when fun hend => .ite (fun _ => ?_) fun _ => ?_)
  · exact keptAt_event (kept_calls (kept_sendEmptyPacket happ rfl rfl) m)
  · have hcalmly := receiveEcn_calmly ecn seg.seq
    have hecn : KeptAt (chain (EventMove (.forwardUp ecn seg) m.socket)) (receiveEcn ecn seg.seq) m :=
      keptAt_event (kept_calls (kept_calmly hcalmly) m)
    refine hecn.bind (chain_composes _) fun _ m₁ h₁ => ?_
    obtain ⟨hcalm, -⟩ := (keptAt_ok h₁).mp (hcalmly m)
    exact keptAt_doForwardUp happ (hcalm.endPoint.trans hend) hcalm seg

theorem kept_completeFork (seg : Segment) : Kept (chain Move) (completeFork app seg) := by
  refine fun m => keptAt_read (keptAt_when fun hstate => keptAt_moves ?_)
  obtain ⟨f, hf⟩ : ∃ f : TcpSocketBase, f = { m.socket.fork with endPoint := true } := ⟨_, rfl⟩
  obtain ⟨m₁, hm₁⟩ : ∃ m₁ : Machine, m₁ = { m with
    socket := { f with state := .synRcvd }
    trace := ⟨f, .state .synRcvd⟩ :: ⟨f, .opening⟩ :: m.trace } := ⟨_, rfl⟩
  have hmove : BasicMove m.snapshot m₁.snapshot := by
    subst hm₁
    exact .fork hstate hf
  refine keptAt_head (q := do
    TcpSocketBase.update fun s => { s with synCount := s.synRetries, dataRetrCount := s.dataRetries }
    setNextRxSequence (seg.seq + 1)
    sendSynAck app seg.flags) (.single hmove) ?_ ?_
  · subst hm₁ hf
    rfl
  refine (keptAt_basic (keptAt_quiet rfl)).bind (chain_composes _) fun _ m₂ h₂ => ?_
  cases h₂
  refine (kept_setNextRxSequence _ _).bind (chain_composes _) fun _ m₃ h₃ => ?_
  cases h₃
  exact keptAt_basic (keptAt_sendSynAck happ (by simp [hm₁]))

omit happ in
theorem kept_expire {pending : Bool} {clear : TcpSocketBase → TcpSocketBase} {run : Program Unit}
    (hclear : Kept (chain Move) (TcpSocketBase.update clear)) (hrun : Kept (chain Move) run) :
    Kept (chain Move) (expire pending clear run) :=
  kept_when fun _ => kept_then hclear fun _ => hrun

/-- Only a segment that arrives is received. -/
theorem kept_perform {e : Event} (he : e.segment = none) :
    Kept (chain Move) (perform app e) := by
  have hsend (withAck : Bool) : Kept (chain Move) (do let _ ← sendPendingData app withAck) :=
    kept_then (kept_moves (kept_sendPendingData happ withAck)) fun _ => kept_return _
  cases e with
  | forwardUp ecn seg => cases he
  | call c => exact kept_calls (kept_call happ c)
  | fork seg => exact kept_completeFork happ seg
  | retxEvent =>
    refine kept_read fun s => ?_
    split
    · exact kept_return _
    · refine kept_then (kept_silenced silenced_retx) fun _ => ?_
      split
      · exact kept_reTxTimeout happ
      · exact kept_sendEmptyAgain happ _
  | lastAckEvent =>
    exact kept_read fun s => kept_expire (kept_calls (kept_quiet fun _ => rfl)) (kept_lastAckTimeout happ)
  | delAckEvent =>
    exact kept_read fun s => kept_expire (kept_calls (kept_quiet fun _ => rfl)) (kept_delAckTimeout happ)
  | persistEvent =>
    exact kept_read fun s => kept_expire (kept_silenced silenced_persist) kept_persistTimeout
  | timewaitEvent =>
    refine kept_read fun s => kept_expire (fun m => ?_) (kept_closeAndNotify happ)
    exact .single (.basic .expired)
  | sendPendingDataEvent =>
    refine kept_read fun s => ?_
    split
    · exact kept_return _
    · exact kept_then (kept_calls (kept_quiet fun _ => rfl)) fun _ => hsend _
  | pacingTimer =>
    refine kept_read fun s => kept_expire (kept_calls (kept_quiet fun _ => rfl)) ?_
    exact kept_read fun s => hsend _

theorem keptAt_perform (e : Event) (m : Machine) :
    KeptAt (chain (EventMove e m.socket)) (perform app e) m := by
  cases e with
  | forwardUp ecn seg => exact keptAt_forwardUp happ ecn seg m
  | _ => exact keptAt_event (kept_perform happ rfl m)

end Events

theorem keptAt_step (i : Input) (m : Machine) :
    KeptAt (chain (EventMove i.event m.socket)) (TcpSocketBase.step i) m :=
  keptAt_perform (kept_application i.depth) i.event (Machine.feed m i)

/-- A move of any event. -/
def RunMove (r r' : Snapshot) : Prop := ∃ e s₀, EventMove e s₀ r r'

theorem run_moves {r r' : Snapshot} {e : Event} {s₀ : TcpSocketBase}
    (h : ReflTransGen (EventMove e s₀) r r') : ReflTransGen RunMove r r' :=
  ReflTransGen.mono (fun _ _ h => ⟨e, s₀, h⟩) _ _ h

/-- What is reached is reached by moves. -/
theorem reaches_moves {a : Attributes} {m : Machine} (h : Reaches a m) :
    ReflTransGen RunMove (Machine.start a).snapshot m.snapshot := by
  induction h with
  | start => exact .refl
  | step i _ hstep ih => exact ih.trans (run_moves ((keptAt_ok hstep).mp (keptAt_step i _)))

/-- What a program has shown when it stops is what moves show. -/
theorem seen_moves {a : Attributes} {m : Machine} (h : Seen a m) :
    ∃ r, ReflTransGen RunMove (Machine.start a).snapshot r ∧ m.trace = r.trace := by
  obtain ⟨m₀, hreach, heq⟩ := h
  have hmoves := reaches_moves hreach
  rcases heq with rfl | ⟨i, f, hstop⟩
  · exact ⟨_, hmoves, rfl⟩
  · obtain ⟨r, hr, htrace⟩ := (keptAt_error hstop).mp (keptAt_step i m₀)
    exact ⟨r, hmoves.trans (run_moves hr), htrace⟩

/-- Each entry is as it should be, behind the entries before it. -/
def Along (P : Entry → List Entry → Prop) : List Entry → Prop
  | [] => True
  | e :: trace => P e trace ∧ Along P trace

instance Along.decidable {P : Entry → List Entry → Prop} [∀ e trace, Decidable (P e trace)] :
    (trace : List Entry) → Decidable (Along P trace)
  | [] => .isTrue trivial
  | e :: trace =>
    have := Along.decidable (P := P) trace
    inferInstanceAs (Decidable (P e trace ∧ Along P trace))

theorem Along.of_suffix {P : Entry → List Entry → Prop} {tr tr' : List Entry} (h : Along P tr')
    (hsuffix : tr <:+ tr') : Along P tr := by
  induction tr' with
  | nil =>
    rw [List.suffix_nil.mp hsuffix]
    exact h
  | cons e rest ih =>
    rcases List.suffix_cons_iff.mp hsuffix with rfl | hrest
    · exact h
    · exact ih h.2 hrest

theorem Along.and {P Q : Entry → List Entry → Prop} {tr : List Entry} (h : Along P tr)
    (h' : Along Q tr) : Along (fun e tr => P e tr ∧ Q e tr) tr := by
  induction tr with
  | nil => trivial
  | cons e rest ih => exact ⟨⟨h.1, h'.1⟩, ih h.2 h'.2⟩

theorem Move.grows {r r' : Snapshot} (h : Move r r') : r.trace <:+ r'.trace := by
  cases h with
  | basic h => exact h.grows
  | _ => simp [List.suffix_cons]

theorem EventMove.grows {r r' : Snapshot} {e : Event} {s₀ : TcpSocketBase} (h : EventMove e s₀ r r') :
    r.trace <:+ r'.trace := by
  cases h with
  | move h => exact h.grows
  | received _ _ => exact List.suffix_cons _ _

theorem RunMove.grows {r r' : Snapshot} (h : RunMove r r') : r.trace <:+ r'.trace := by
  obtain ⟨e, s₀, h⟩ := h
  exact h.grows

/-- What every move keeps holds at the end of a run, where the entries are as they should be. -/
theorem moves_keep {P : Entry → List Entry → Prop} {I : Snapshot → Prop}
    (hstep : ∀ r r', RunMove r r' → Along P r'.trace → I r → I r') {r r' : Snapshot}
    (hmoves : ReflTransGen RunMove r r') (hgood : Along P r'.trace) (h : I r) : I r' := by
  induction hmoves with
  | refl => exact h
  | tail _ hmove ih => exact hstep _ _ hmove hgood (ih (hgood.of_suffix hmove.grows))

end CudaNs3.Tcp
