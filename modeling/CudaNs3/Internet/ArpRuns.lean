import CudaNs3.Internet.ArpL3Protocol
import CudaNs3.Lib.Transition

/-!
# Runs of ARP

The wait-reply timer of the cache covers every entry that waits, so that none of them is ever
found expired, and each packet passed to `Lookup` is accounted for. As long as no request is held
back by its jitter until after the entry has expired again, each state of an entry sees at most
one request more than there are retries.
-/

namespace CudaNs3.Internet

set_option autoImplicit false

namespace ArpEntry
variable {Mac Packet : Type} {a : ArpAttributes} {now time : Nat} {timer : Option Nat}
  {e f : ArpEntry Mac Packet} {p : Packet}

/-- Each packet that was passed is in one place, and the queue is in the order of the calls. -/
structure Accounted (e : ArpEntry Mac Packet) : Prop where
  once : e.passed.Perm (e.resolved ++ e.sent ++ e.dropped ++ e.pending)
  fifo : (e.sent ++ e.pending).Sublist e.passed

structure Good (a : ArpAttributes) (now : Nat) (timer : Option Nat) (e : ArpEntry Mac Packet) :
    Prop where
  covered : e.state = .waitReply → ∃ t, timer = some t ∧ t ≤ e.lastSeen + a.waitReplyTimeout
  pending_eq_nil : e.state ≠ .waitReply → e.pending = []
  lastSeen_le : e.lastSeen ≤ now
  accounted : e.Accounted

theorem Good.advance (h : e.Good a now timer) (hle : now ≤ time) : e.Good a time timer where
  covered := h.covered
  pending_eq_nil := h.pending_eq_nil
  lastSeen_le := h.lastSeen_le.trans hle
  accounted := h.accounted

/-- A timer that is started where none runs covers no less. -/
theorem Good.start (h : e.Good a now timer) (t : Nat) : e.Good a now (some (timer.getD t)) where
  covered hwait := by
    obtain ⟨t', rfl, hle⟩ := h.covered hwait
    exact ⟨t', rfl, hle⟩
  pending_eq_nil := h.pending_eq_nil
  lastSeen_le := h.lastSeen_le
  accounted := h.accounted

theorem Good.request (h : e.Good a now timer) :
    Good a now timer { e with requested := e.requested + 1 } where
  covered := h.covered
  pending_eq_nil := h.pending_eq_nil
  lastSeen_le := h.lastSeen_le
  accounted := ⟨h.accounted.once, h.accounted.fifo⟩

/-! ### A packet that is passed -/

theorem Good.note_found (h : e.Good a now timer) (hstate : e.state ≠ .waitReply) (p : Packet) :
    (e.note p true).Good a now timer where
  covered := h.covered
  pending_eq_nil := h.pending_eq_nil
  lastSeen_le := h.lastSeen_le
  accounted := by
    have hnil := h.pending_eq_nil hstate
    obtain ⟨honce, hfifo⟩ := h.accounted
    rw [hnil, List.append_nil] at honce hfifo
    refine ⟨?_, ?_⟩
    · have hsame : (e.note p true).resolved ++ e.sent ++ e.dropped ++ e.pending =
          e.resolved ++ ([p] ++ (e.sent ++ e.dropped)) := by
        rw [hnil]
        simp [note]
      change (e.passed ++ [p]).Perm ((e.note p true).resolved ++ e.sent ++ e.dropped ++ e.pending)
      rw [hsame]
      refine (honce.append_right [p]).trans ?_
      rw [List.append_assoc e.resolved, List.append_assoc e.resolved]
      exact List.perm_append_comm.append_left e.resolved
    · change (e.sent ++ e.pending).Sublist (e.passed ++ [p])
      rw [hnil, List.append_nil]
      exact hfifo.trans (List.sublist_append_left _ _)

theorem Good.note_dropped (h : e.Good a now timer) (p : Packet) :
    ((e.drop p).note p false).Good a now timer where
  covered := h.covered
  pending_eq_nil := h.pending_eq_nil
  lastSeen_le := h.lastSeen_le
  accounted := by
    obtain ⟨honce, hfifo⟩ := h.accounted
    refine ⟨?_, hfifo.trans (List.sublist_append_left _ _)⟩
    change (e.passed ++ [p]).Perm (e.resolved ++ e.sent ++ (e.dropped ++ [p]) ++ e.pending)
    refine (honce.append_right [p]).trans ?_
    have hsame : e.resolved ++ e.sent ++ (e.dropped ++ [p]) ++ e.pending =
        (e.resolved ++ e.sent ++ e.dropped) ++ ([p] ++ e.pending) := by
      simp only [List.append_assoc]
    rw [hsame, List.append_assoc]
    exact List.perm_append_comm.append_left _

/-- What is queued comes behind all that was passed before. -/
theorem Accounted.queue (h : e.Accounted) (p : Packet) (hf : f.passed = e.passed ++ [p])
    (hpending : f.pending = e.pending ++ [p]) (hresolved : f.resolved = e.resolved)
    (hsent : f.sent = e.sent) (hdropped : f.dropped = e.dropped) : f.Accounted where
  once := by
    rw [hf, hpending, hresolved, hsent, hdropped, ← List.append_assoc]
    exact h.once.append_right [p]
  fifo := by
    rw [hf, hpending, hsent, ← List.append_assoc]
    exact h.fifo.append_right [p]

theorem Good.note_queued (h : e.Good a now timer) (hstate : e.state = .waitReply) (p : Packet) :
    Good a now timer (note { e with pending := e.pending ++ [p] } p false) where
  covered := h.covered
  pending_eq_nil hne := absurd hstate hne
  lastSeen_le := h.lastSeen_le
  accounted := h.accounted.queue p rfl rfl rfl rfl rfl

/-- The entry when it has begun to wait for a reply, with a first packet. -/
def waiting (now : Nat) (p : Packet) (e : ArpEntry Mac Packet) : ArpEntry Mac Packet :=
  { e with state := .waitReply, pending := [p], requested := 0, lastSeen := now }

theorem markWaitReply_eq (hstate : e.state = .alive ∨ e.state = .dead) (hnil : e.pending = [])
    (now : Nat) (p : Packet) : e.markWaitReply now p = some (e.waiting now p) := by
  unfold markWaitReply
  rw [if_pos ⟨hstate, by rw [hnil]; rfl⟩, hnil]
  rfl

theorem note_waiting (h : e.Accounted) (hnil : e.pending = []) {t : Nat}
    (ht : t ≤ now + a.waitReplyTimeout) (p : Packet) :
    ((e.waiting now p).note p false).Good a now (some t) where
  covered _ := ⟨t, rfl, ht⟩
  pending_eq_nil hne := absurd rfl hne
  lastSeen_le := le_refl now
  accounted := h.queue p rfl (by rw [hnil]; rfl) rfl rfl rfl

theorem accounted_new (d : Ipv4Address) :
    Accounted ({ ipv4Address := d } : ArpEntry Mac Packet) where
  once := .refl _
  fifo := .refl _

/-! ### Expiry -/

theorem not_isExpired_of_covered (h : e.Good a now timer) (hwait : e.state = .waitReply)
    (htimer : ∀ t, timer = some t → now ≤ t) : e.isExpired a now = false := by
  obtain ⟨t, ht, hle⟩ := h.covered hwait
  have hnow := htimer t ht
  unfold isExpired getTimeout
  rw [hwait]
  dsimp only
  rw [decide_eq_false_iff_not]
  omega

theorem not_isExpired_fresh (hseen : e.lastSeen = now) : e.isExpired a now = false := by
  unfold isExpired
  split
  · rw [hseen, Nat.sub_self, decide_eq_false_iff_not]
    exact Nat.not_lt_zero _
  · rfl

theorem not_isExpired_static (hstate : e.state = .permanent ∨ e.state = .staticAutogenerated) :
    e.isExpired a now = false := by
  unfold isExpired getTimeout
  rcases hstate with hstate | hstate
  · rw [hstate]
  · rw [hstate]

theorem lt_of_isExpired {timeout : Nat} (h : e.isExpired a now = true)
    (htimeout : e.getTimeout a = some timeout) : e.lastSeen + timeout < now := by
  unfold isExpired at h
  rw [htimeout] at h
  have hlt := of_decide_eq_true h
  omega

/-! ### A reply -/

/-- The entry after a reply, when its packets have been sent. -/
def answered (now : Nat) (mac : Mac) (e : ArpEntry Mac Packet) : ArpEntry Mac Packet :=
  { e with macAddress := some mac, state := .alive, requested := 0, retries := 0,
           lastSeen := now, pending := [], sent := e.sent ++ e.pending }

theorem Good.answered (h : e.Good a now timer) (mac : Mac) :
    (e.answered now mac).Good a now timer where
  covered hwait := by cases hwait
  pending_eq_nil _ := rfl
  lastSeen_le := le_refl now
  accounted := by
    obtain ⟨honce, hfifo⟩ := h.accounted
    refine ⟨honce.trans ?_, ?_⟩
    · change (e.resolved ++ e.sent ++ e.dropped ++ e.pending).Perm
        (e.resolved ++ (e.sent ++ e.pending) ++ e.dropped ++ [])
      rw [List.append_nil, ← List.append_assoc, List.append_assoc (e.resolved ++ e.sent),
        List.append_assoc (e.resolved ++ e.sent)]
      exact List.perm_append_comm.append_left _
    · change (e.sent ++ e.pending ++ []).Sublist e.passed
      rw [List.append_nil]
      exact hfifo

/-! ### The timeout -/

/-- The entry after the timer has expired. -/
def timedOut (a : ArpAttributes) (now : Nat) (e : ArpEntry Mac Packet) : ArpEntry Mac Packet :=
  if e.state = .waitReply then
    if e.retries < a.maxRetries then
      { e with requested := e.requested + 1, retries := e.retries + 1, lastSeen := now }
    else
      { e with state := .dead, requested := 0, retries := 0, lastSeen := now, pending := [],
               dropped := e.dropped ++ e.pending }
  else e

def retried (a : ArpAttributes) (e : ArpEntry Mac Packet) : Bool :=
  e.state = .waitReply ∧ e.retries < a.maxRetries

theorem waitReplyTimeout_eq (a : ArpAttributes) (now : Nat) (e : ArpEntry Mac Packet) :
    e.waitReplyTimeout a now = some (e.timedOut a now, e.retried a) := by
  unfold waitReplyTimeout timedOut retried isWaitReply
  by_cases hwait : e.state = .waitReply
  · by_cases hretry : e.retries < a.maxRetries
    · simp [hwait, hretry, incrementRetries, updateSeen]
    · simp [hwait, hretry, markDead, clearRetries, updateSeen, dropPending]
  · simp [hwait]

theorem waitReplyLoop_eq (a : ArpAttributes) (now : Nat) (l : List (ArpEntry Mac Packet)) :
    waitReplyLoop a now l = some (l.map (timedOut a now), l.any (retried a)) := by
  induction l with
  | nil => rfl
  | cons e rest ih =>
    unfold waitReplyLoop
    rw [waitReplyTimeout_eq, ih]
    rfl

theorem ipv4Address_timedOut (a : ArpAttributes) (now : Nat) (e : ArpEntry Mac Packet) :
    (e.timedOut a now).ipv4Address = e.ipv4Address := by
  unfold timedOut
  split
  · split
    · rfl
    · rfl
  · rfl

/-- The timer runs again when one entry at least goes on waiting. -/
theorem Good.timedOut (h : e.Good a now timer) {timer' : Option Nat}
    (htimer : e.retried a = true → timer' = some (now + a.waitReplyTimeout)) :
    (e.timedOut a now).Good a now timer' := by
  unfold ArpEntry.timedOut
  split
  · rename_i hwait
    split
    · rename_i hretry
      exact {
        covered := fun _ => ⟨_, htimer (decide_eq_true ⟨hwait, hretry⟩), le_refl _⟩
        pending_eq_nil := fun hne => absurd hwait hne
        lastSeen_le := le_refl now
        accounted := ⟨h.accounted.once, h.accounted.fifo⟩ }
    · refine ⟨fun hne => (by cases hne), fun _ => rfl, le_refl now, ⟨?_, ?_⟩⟩
      · change e.passed.Perm (e.resolved ++ e.sent ++ (e.dropped ++ e.pending) ++ [])
        rw [List.append_nil, ← List.append_assoc]
        exact h.accounted.once
      · change (e.sent ++ []).Sublist e.passed
        rw [List.append_nil]
        exact (List.sublist_append_left _ _).trans h.accounted.fifo
  · rename_i hwait
    exact ⟨fun h => absurd h hwait, h.pending_eq_nil, h.lastSeen_le, h.accounted⟩

end ArpEntry

namespace ArpL3Protocol
variable {Mac Packet : Type} {a : ArpAttributes} {s t : ArpL3Protocol Mac Packet}
  {e f : ArpEntry Mac Packet} {d dest : Ipv4Address} {p : Packet}

theorem ipv4Address_of_find (h : s.find d = some e) : e.ipv4Address = d := Bindings.key_of_get h

theorem find_put (s : ArpL3Protocol Mac Packet) (e : ArpEntry Mac Packet) (d : Ipv4Address) :
    (s.put e).find d = if e.ipv4Address = d then some e else s.find d :=
  Bindings.get_put s.arpCache e d

theorem find_put_self (s : ArpL3Protocol Mac Packet) (he : e.ipv4Address = d) :
    (s.put e).find d = some e := by
  rw [find_put, if_pos he]

theorem put_put (s : ArpL3Protocol Mac Packet) (h : f.ipv4Address = e.ipv4Address) :
    (s.put e).put f = s.put f := by
  unfold put
  rw [Bindings.put_put h]

@[simp] theorem now_put : (s.put e).now = s.now := rfl

@[simp] theorem waitReplyTimer_put : (s.put e).waitReplyTimer = s.waitReplyTimer := rfl

@[simp] theorem scheduled_put : (s.put e).scheduled = s.scheduled := rfl

@[simp] theorem now_start : (s.startWaitReplyTimer a).now = s.now := by
  unfold startWaitReplyTimer
  split
  · rfl
  · rfl

@[simp] theorem scheduled_start : (s.startWaitReplyTimer a).scheduled = s.scheduled := by
  unfold startWaitReplyTimer
  split
  · rfl
  · rfl

@[simp] theorem arpCache_start : (s.startWaitReplyTimer a).arpCache = s.arpCache := by
  unfold startWaitReplyTimer
  split
  · rfl
  · rfl

theorem find_start (d : Ipv4Address) : (s.startWaitReplyTimer a).find d = s.find d := by
  unfold find
  rw [arpCache_start]

theorem waitReplyTimer_start : (s.startWaitReplyTimer a).waitReplyTimer =
    some (s.waitReplyTimer.getD (s.now + a.waitReplyTimeout)) := by
  unfold startWaitReplyTimer
  split
  · rename_i t ht
    rw [ht]
    rfl
  · rename_i ht
    rw [ht]
    rfl

/-! ### The invariant -/

structure Inv (a : ArpAttributes) (s : ArpL3Protocol Mac Packet) : Prop where
  distinct : Bindings.Distinct ArpEntry.ipv4Address s.arpCache
  entries : ∀ d e, s.find d = some e → e.Good a s.now s.waitReplyTimer
  now_le : ∀ t, s.waitReplyTimer = some t → s.now ≤ t
  timer_le : ∀ t, s.waitReplyTimer = some t → t ≤ s.now + a.waitReplyTimeout

theorem Inv.put (h : s.Inv a) (he : e.Good a s.now s.waitReplyTimer) : (s.put e).Inv a where
  distinct := h.distinct.put e
  entries d f hf := by
    rw [find_put] at hf
    split at hf
    · obtain rfl := Option.some.inj hf
      exact he
    · exact h.entries d f hf
  now_le := h.now_le
  timer_le := h.timer_le

theorem Inv.started_le (h : s.Inv a) :
    s.now ≤ s.waitReplyTimer.getD (s.now + a.waitReplyTimeout) ∧
      s.waitReplyTimer.getD (s.now + a.waitReplyTimeout) ≤ s.now + a.waitReplyTimeout := by
  cases ht : s.waitReplyTimer with
  | none => exact ⟨Nat.le_add_right _ _, le_refl _⟩
  | some t => exact ⟨h.now_le t ht, h.timer_le t ht⟩

theorem Inv.start (h : s.Inv a) : (s.startWaitReplyTimer a).Inv a where
  distinct := by
    rw [arpCache_start]
    exact h.distinct
  entries d f hf := by
    rw [find_start] at hf
    rw [now_start, waitReplyTimer_start]
    exact (h.entries d f hf).start _
  now_le t ht := by
    rw [waitReplyTimer_start] at ht
    rw [now_start, ← Option.some.inj ht]
    exact h.started_le.1
  timer_le t ht := by
    rw [waitReplyTimer_start] at ht
    rw [now_start, ← Option.some.inj ht]
    exact h.started_le.2

/-- The entry of `d` is one for which a request is to be sent: it has expired, or is made. -/
def Ready (a : ArpAttributes) (s : ArpL3Protocol Mac Packet) (d : Ipv4Address)
    (e : ArpEntry Mac Packet) : Prop :=
  (s.find d = some e ∧ (e.state = .alive ∨ e.state = .dead) ∧ e.isExpired a s.now = true) ∨
    s.find d = none ∧ e = { ipv4Address := d }

/-- What `Lookup` can do. -/
inductive Looked (a : ArpAttributes) (s : ArpL3Protocol Mac Packet) (p : Packet)
    (d : Ipv4Address) (jitter : Nat) : ArpL3Protocol Mac Packet → Bool → Prop
  | found {e : ArpEntry Mac Packet} (he : s.find d = some e) (hstate : e.state ≠ .waitReply) :
      Looked a s p d jitter s true
  | queued {e : ArpEntry Mac Packet} (he : s.find d = some e) (hstate : e.state = .waitReply) :
      Looked a s p d jitter (s.put { e with pending := e.pending ++ [p] }) false
  | dropped {e : ArpEntry Mac Packet} (he : s.find d = some e) :
      Looked a s p d jitter (s.put (e.drop p)) false
  | waits {e : ArpEntry Mac Packet} (he : Ready a s d e) :
      Looked a s p d jitter
        (((s.put (e.waiting s.now p)).startWaitReplyTimer a).schedule jitter d) false

theorem markWaitReply_eq (hstate : e.state = .alive ∨ e.state = .dead) (hnil : e.pending = [])
    (s : ArpL3Protocol Mac Packet) (p : Packet) : s.markWaitReply a e p =
      some ((s.put (e.waiting s.now p)).startWaitReplyTimer a) := by
  unfold markWaitReply
  rw [ArpEntry.markWaitReply_eq hstate hnil]
  rfl

theorem Inv.lookup_spec (h : s.Inv a) (p : Packet) (d : Ipv4Address) (jitter : Nat) :
    ∃ t found mac, s.lookup a p d jitter = some (t, found, mac) ∧
      Looked a s p d jitter t found := by
  unfold lookup
  cases he : s.find d with
  | none =>
    dsimp only
    rw [markWaitReply_eq (.inl rfl) rfl]
    exact ⟨_, _, _, rfl, .waits (.inr ⟨he, rfl⟩)⟩
  | some e =>
    have hgood := h.entries d e he
    dsimp only
    cases hstate : e.state with
    | alive =>
      have hnil := hgood.pending_eq_nil (by rw [hstate]; decide)
      by_cases hexp : e.isExpired a s.now = true
      · rw [if_pos hexp, markWaitReply_eq (.inl hstate) hnil]
        simp only [ArpEntry.isDead, ArpEntry.isAlive, hstate]
        exact ⟨_, _, _, rfl, .waits (.inl ⟨he, .inl hstate, hexp⟩)⟩
      · rw [if_neg hexp]
        simp only [ArpEntry.isDead, ArpEntry.isAlive, hstate]
        exact ⟨_, _, _, rfl, .found he (by rw [hstate]; decide)⟩
    | dead =>
      have hnil := hgood.pending_eq_nil (by rw [hstate]; decide)
      by_cases hexp : e.isExpired a s.now = true
      · rw [if_pos hexp, markWaitReply_eq (.inr hstate) hnil]
        simp only [ArpEntry.isDead, hstate]
        exact ⟨_, _, _, rfl, .waits (.inl ⟨he, .inr hstate, hexp⟩)⟩
      · rw [if_neg hexp]
        simp only [ArpEntry.isDead, hstate]
        exact ⟨_, _, _, rfl, .dropped he⟩
    | waitReply =>
      rw [if_neg (by rw [ArpEntry.not_isExpired_of_covered hgood hstate h.now_le]; decide)]
      simp only [ArpEntry.isDead, ArpEntry.isAlive, ArpEntry.isWaitReply, hstate]
      rw [ArpEntry.updateWaitReply, if_pos hstate]
      by_cases hroom : a.pendingQueueSize ≤ e.pending.length
      · rw [if_pos hroom]
        exact ⟨_, _, _, rfl, .dropped he⟩
      · rw [if_neg hroom]
        exact ⟨_, _, _, rfl, .queued he hstate⟩
    | permanent =>
      rw [if_neg (by rw [ArpEntry.not_isExpired_static (.inl hstate)]; decide)]
      simp only [ArpEntry.isDead, ArpEntry.isAlive, ArpEntry.isWaitReply, ArpEntry.isPermanent,
        hstate]
      exact ⟨_, _, _, rfl, .found he (by rw [hstate]; decide)⟩
    | staticAutogenerated =>
      rw [if_neg (by rw [ArpEntry.not_isExpired_static (.inr hstate)]; decide)]
      simp only [ArpEntry.isDead, ArpEntry.isAlive, ArpEntry.isWaitReply, ArpEntry.isPermanent,
        ArpEntry.isAutoGenerated, hstate]
      exact ⟨_, _, _, rfl, .found he (by rw [hstate]; decide)⟩

theorem ipv4Address_of_ready (h : Ready a s d e) : e.ipv4Address = d := by
  rcases h with ⟨he, -⟩ | ⟨-, rfl⟩
  · exact ipv4Address_of_find he
  · rfl

/-- What `Lookup` and the note of it can do. -/
inductive Passed (a : ArpAttributes) (s : ArpL3Protocol Mac Packet) (p : Packet)
    (d : Ipv4Address) (jitter : Nat) : ArpL3Protocol Mac Packet → Prop
  | found {e : ArpEntry Mac Packet} (he : s.find d = some e) (hstate : e.state ≠ .waitReply) :
      Passed a s p d jitter (s.put (e.note p true))
  | queued {e : ArpEntry Mac Packet} (he : s.find d = some e) (hstate : e.state = .waitReply) :
      Passed a s p d jitter (s.put (ArpEntry.note { e with pending := e.pending ++ [p] } p false))
  | dropped {e : ArpEntry Mac Packet} (he : s.find d = some e) :
      Passed a s p d jitter (s.put ((e.drop p).note p false))
  | waits {e : ArpEntry Mac Packet} (he : Ready a s d e) :
      Passed a s p d jitter
        (((s.put ((e.waiting s.now p).note p false)).startWaitReplyTimer a).schedule jitter d)

theorem put_start : (s.startWaitReplyTimer a).put e = (s.put e).startWaitReplyTimer a := by
  unfold startWaitReplyTimer
  rw [waitReplyTimer_put]
  split
  · rfl
  · rfl

theorem Inv.pass_spec (h : s.Inv a) (p : Packet) (d : Ipv4Address) (jitter : Nat) :
    ∃ t, s.pass a p d jitter = some t ∧ Passed a s p d jitter t := by
  obtain ⟨t, found, mac, hlookup, hlooked⟩ := h.lookup_spec p d jitter
  have hpass : ∀ e, t.find d = some e → s.pass a p d jitter = some (t.put (e.note p found)) := by
    intro e he
    unfold pass
    rw [hlookup]
    dsimp only [bind, Option.bind]
    rw [he]
  cases hlooked with
  | found he hstate => exact ⟨_, hpass _ he, .found he hstate⟩
  | @queued e he hstate =>
    refine ⟨_, hpass { e with pending := e.pending ++ [p] } ?_, ?_⟩
    · exact find_put_self s (ipv4Address_of_find (e := e) he)
    · rw [put_put]
      · exact .queued he hstate
      · rfl
  | @dropped e he =>
    refine ⟨_, hpass (e.drop p) ?_, ?_⟩
    · exact find_put_self s (ipv4Address_of_find (e := e) he)
    · rw [put_put]
      · exact .dropped he
      · rfl
  | @waits e he =>
    refine ⟨_, hpass (e.waiting s.now p) ?_, ?_⟩
    · exact (find_start d).trans (find_put_self s (ipv4Address_of_ready (e := e) he))
    · have hput : (((s.put (e.waiting s.now p)).startWaitReplyTimer a).schedule jitter d).put
          ((e.waiting s.now p).note p false) =
            (((s.put (e.waiting s.now p)).startWaitReplyTimer a).put
              ((e.waiting s.now p).note p false)).schedule jitter d := rfl
      rw [hput, put_start, put_put]
      · exact .waits he
      · rfl

theorem Inv.schedule (h : s.Inv a) (jitter : Nat) (d : Ipv4Address) : (s.schedule jitter d).Inv a :=
  ⟨h.distinct, h.entries, h.now_le, h.timer_le⟩

theorem Inv.passed (h : s.Inv a) {jitter : Nat} (ht : Passed a s p d jitter t) : t.Inv a := by
  cases ht with
  | found he hstate => exact h.put ((h.entries d _ he).note_found hstate p)
  | queued he hstate => exact h.put ((h.entries d _ he).note_queued hstate p)
  | dropped he => exact h.put ((h.entries d _ he).note_dropped p)
  | @waits e he =>
    apply Inv.schedule
    -- the entry is good only when the timer runs
    rw [← put_start]
    apply h.start.put
    rw [now_start, waitReplyTimer_start]
    rcases he with ⟨he, hstate, -⟩ | ⟨-, rfl⟩
    · have hgood := h.entries d e he
      refine ArpEntry.note_waiting hgood.accounted (hgood.pending_eq_nil ?_) h.started_le.2 p
      rcases hstate with hstate | hstate
      · rw [hstate]
        decide +kernel
      · rw [hstate]
        decide +kernel
    · exact ArpEntry.note_waiting (ArpEntry.accounted_new d) rfl h.started_le.2 p

/-! ### A reply -/

theorem lookup_fresh (he : s.find d = some e) (hstate : e.state = .alive)
    (hseen : e.lastSeen = s.now) (p : Packet) (jitter : Nat) :
    s.lookup a p d jitter = some (s, true, e.macAddress) := by
  have hexp : e.isExpired a s.now = false := ArpEntry.not_isExpired_fresh hseen
  unfold lookup
  rw [he]
  dsimp only
  rw [hexp]
  simp [ArpEntry.isDead, ArpEntry.isAlive, hstate]

/-- The packets go out for an entry that has just become alive. -/
theorem interfaceSend_fresh (he : s.find d = some e) (hstate : e.state = .alive)
    (hseen : e.lastSeen = s.now) (i : ArpInterface Mac) (p : Packet) (jitter : Nat) :
    s.interfaceSend a i p d jitter = some (s.put { e with sent := e.sent ++ [p] }) := by
  have hsend : s.send p d = some (s.put { e with sent := e.sent ++ [p] }) := by
    unfold send
    rw [he]
    rfl
  unfold interfaceSend
  split
  · exact hsend
  · rw [lookup_fresh he hstate hseen]
    exact hsend

theorem sendPending_fresh {l : List Packet} (hpending : e.pending = l) (hstate : e.state = .alive)
    (hseen : e.lastSeen = s.now) (i : ArpInterface Mac) (jitter : Nat) {n : Nat}
    (hn : l.length < n) : sendPending a i e.ipv4Address jitter n (s.put e) =
      some (s.put { e with pending := [], sent := e.sent ++ l }) := by
  induction l generalizing e n with
  | nil =>
    cases n with
    | zero => exact absurd hn (Nat.not_lt_zero _)
    | succ n =>
      have hsame : { e with pending := [], sent := e.sent ++ [] } = e := by
        rw [List.append_nil, ← hpending]
      unfold sendPending
      rw [find_put_self s rfl, hsame]
      dsimp only [bind, Option.bind]
      unfold ArpEntry.dequeuePending
      rw [hpending]
  | cons p l ih =>
    cases n with
    | zero => exact absurd hn (Nat.not_lt_zero _)
    | succ n =>
      let e₁ : ArpEntry Mac Packet := { e with pending := l }
      let e₂ : ArpEntry Mac Packet := { e₁ with sent := e₁.sent ++ [p] }
      have hdequeue : e.dequeuePending = (some p, e₁) := by
        unfold ArpEntry.dequeuePending
        rw [hpending]
      have hsend : ((s.put e).put e₁).interfaceSend a i p e.ipv4Address jitter =
          some (s.put e₂) := by
        have hput : (s.put e).put e₁ = s.put e₁ := put_put s rfl
        rw [hput, interfaceSend_fresh (e := e₁) (find_put_self s rfl) hstate hseen]
        exact congrArg some (put_put s rfl)
      have hrest := ih (e := e₂) (n := n) rfl hstate hseen (Nat.lt_of_succ_lt_succ hn)
      have hlast : ({ e₂ with pending := [], sent := e₂.sent ++ l } : ArpEntry Mac Packet) =
          { e with pending := [], sent := e.sent ++ (p :: l) } := by
        simp [e₂, e₁]
      rw [hlast] at hrest
      unfold sendPending
      rw [find_put_self s rfl]
      dsimp only [bind, Option.bind]
      rw [hdequeue]
      dsimp only
      rw [hsend]
      exact hrest

/-- What a reply can do; most of them are ignored. -/
inductive Replied (s : ArpL3Protocol Mac Packet) (d : Ipv4Address) (mac : Mac) :
    ArpL3Protocol Mac Packet → Prop
  | ignored {t : ArpL3Protocol Mac Packet} (hnow : t.now = s.now)
      (hcache : t.arpCache = s.arpCache) (htimer : t.waitReplyTimer = s.waitReplyTimer)
      (hscheduled : t.scheduled = s.scheduled) : Replied s d mac t
  | answered {e : ArpEntry Mac Packet} (he : s.find d = some e) (hstate : e.state = .waitReply) :
      Replied s d mac (s.put (e.answered s.now mac))

theorem receiveReply_spec (a : ArpAttributes) (s : ArpL3Protocol Mac Packet)
    (i : ArpInterface Mac) (arp : ArpHeader Mac) (jitter : Nat) :
    ∃ t, s.receiveReply a i arp jitter = some t ∧
      Replied s arp.ipv4Source arp.macSource t := by
  unfold receiveReply
  cases he : s.find arp.ipv4Source with
  | none => exact ⟨_, rfl, .ignored rfl rfl rfl rfl⟩
  | some e =>
    dsimp only
    by_cases hwait : e.isWaitReply = true
    · have hstate : e.state = .waitReply := of_decide_eq_true hwait
      let alive : ArpEntry Mac Packet :=
        { e with macAddress := some arp.macSource, state := .alive, requested := 0, retries := 0,
                 lastSeen := s.now }
      have hmark : e.markAlive s.now arp.macSource = some alive := by
        unfold ArpEntry.markAlive
        rw [if_pos hstate]
        rfl
      have haddr : alive.ipv4Address = arp.ipv4Source := ipv4Address_of_find (e := e) he
      have hsend : sendPending a i arp.ipv4Source jitter (alive.pending.length + 1)
          (s.put alive) = some (s.put (e.answered s.now arp.macSource)) := by
        rw [← haddr]
        exact sendPending_fresh rfl rfl rfl i jitter (Nat.lt_succ_self alive.pending.length)
      rw [if_pos hwait, hmark]
      exact ⟨s.put (e.answered s.now arp.macSource), hsend, .answered he hstate⟩
    · rw [if_neg hwait]
      exact ⟨_, rfl, .ignored rfl rfl rfl rfl⟩

theorem Inv.congr (h : s.Inv a) (hnow : t.now = s.now) (hcache : t.arpCache = s.arpCache)
    (htimer : t.waitReplyTimer = s.waitReplyTimer) : t.Inv a where
  distinct := by
    rw [hcache]
    exact h.distinct
  entries d e he := by
    rw [find, hcache] at he
    rw [hnow, htimer]
    exact h.entries d e he
  now_le := by
    rw [hnow, htimer]
    exact h.now_le
  timer_le := by
    rw [hnow, htimer]
    exact h.timer_le

theorem Inv.replied (h : s.Inv a) {mac : Mac} (ht : Replied s d mac t) : t.Inv a := by
  cases ht with
  | ignored hnow hcache htimer _ => exact h.congr hnow hcache htimer
  | answered he _ => exact h.put ((h.entries d _ he).answered mac)

/-- What `Receive` can do, for some address and some link-layer address. -/
theorem receive_spec [DecidableEq Mac] (a : ArpAttributes) (s : ArpL3Protocol Mac Packet)
    (i : ArpInterface Mac) (arp : Option (ArpHeader Mac)) (jitter : Nat) :
    ∃ t, s.receive a i arp jitter = some t ∧ ∃ d mac, Replied s d mac t := by
  have hignored : ∃ d mac, Replied s d mac s := ⟨0, i.hardwareAddress, .ignored rfl rfl rfl rfl⟩
  cases arp with
  | none => exact ⟨s, rfl, hignored⟩
  | some arp =>
    change ∃ t, s.receiveAt a i arp jitter i.addresses = some t ∧ _
    induction i.addresses with
    | nil => exact ⟨s, rfl, hignored⟩
    | cons addr rest ih =>
      unfold receiveAt
      split
      · exact ⟨_, rfl, 0, i.hardwareAddress, .ignored rfl rfl rfl rfl⟩
      · split
        · obtain ⟨t, ht, hreplied⟩ := receiveReply_spec a s i arp jitter
          exact ⟨t, ht, _, _, hreplied⟩
        · exact ih

/-! ### The other events -/

theorem Inv.sendArpRequest (h : s.Inv a) (dest : Ipv4Address) : (s.sendArpRequest dest).Inv a := by
  unfold ArpL3Protocol.sendArpRequest
  split
  · rename_i e he
    exact h.put (h.entries dest e he).request
  · exact h

/-- The state after the timer has expired. -/
def timedOut (a : ArpAttributes) (s : ArpL3Protocol Mac Packet) : ArpL3Protocol Mac Packet :=
  { s with
    arpCache := s.arpCache.map (ArpEntry.timedOut a s.now)
    waitReplyTimer :=
      if s.arpCache.any (ArpEntry.retried a) then some (s.now + a.waitReplyTimeout) else none }

theorem handleWaitReplyTimeout_eq (a : ArpAttributes) (s : ArpL3Protocol Mac Packet) :
    { s with waitReplyTimer := none }.handleWaitReplyTimeout a = some (s.timedOut a) := by
  unfold handleWaitReplyTimeout
  dsimp only
  rw [ArpEntry.waitReplyLoop_eq]
  rfl

theorem find_timedOut (a : ArpAttributes) (s : ArpL3Protocol Mac Packet) (d : Ipv4Address) :
    (s.timedOut a).find d = (s.find d).map (ArpEntry.timedOut a s.now) :=
  Bindings.get_map (ArpEntry.ipv4Address_timedOut a s.now) s.arpCache d

/-- The timer runs on if an entry is retried. -/
theorem waitReplyTimer_timedOut (he : s.find d = some e) (hretried : e.retried a = true) :
    (s.timedOut a).waitReplyTimer = some (s.now + a.waitReplyTimeout) := by
  have hany : s.arpCache.any (ArpEntry.retried a) = true :=
    List.any_eq_true.mpr ⟨e, Bindings.mem_of_get he, hretried⟩
  exact if_pos hany

theorem Inv.timedOut (h : s.Inv a) : (s.timedOut a).Inv a where
  distinct := h.distinct.map (ArpEntry.ipv4Address_timedOut a s.now)
  entries d f hf := by
    rw [find_timedOut, Option.map_eq_some_iff] at hf
    obtain ⟨e, he, rfl⟩ := hf
    exact (h.entries d e he).timedOut (waitReplyTimer_timedOut he)
  now_le t ht := by
    unfold ArpL3Protocol.timedOut at ht
    dsimp only at ht
    split at ht
    · rw [← Option.some.inj ht]
      exact Nat.le_add_right _ _
    · cases ht
  timer_le t ht := by
    unfold ArpL3Protocol.timedOut at ht
    dsimp only at ht
    split at ht
    · rw [← Option.some.inj ht]
      exact le_refl _
    · cases ht

theorem Inv.advance (h : s.Inv a) {time : Nat} (hle : s.now ≤ time)
    (htimer : ∀ t ∈ s.waitReplyTimer, time ≤ t) : Inv a { s with now := time } where
  distinct := h.distinct
  entries d e he := (h.entries d e he).advance hle
  now_le := htimer
  timer_le t ht := by
    have hle' := h.timer_le t ht
    change t ≤ time + a.waitReplyTimeout
    omega

/-- What a step can do. -/
inductive Stepped (a : ArpAttributes) (s : ArpL3Protocol Mac Packet) :
    ArpStep Mac Packet → ArpL3Protocol Mac Packet → Prop
  | passed {p : Packet} {d : Ipv4Address} {jitter : Nat} {t : ArpL3Protocol Mac Packet}
      (ht : Passed a s p d jitter t) : Stepped a s (.lookup p d jitter) t
  | replied {i : ArpInterface Mac} {arp : Option (ArpHeader Mac)} {jitter : Nat}
      {d : Ipv4Address} {mac : Mac} {t : ArpL3Protocol Mac Packet} (ht : Replied s d mac t) :
      Stepped a s (.receive i arp jitter) t
  | requested {dest : Ipv4Address} (hmem : (s.now, dest) ∈ s.scheduled) :
      Stepped a s (.sendArpRequest dest)
        ({ s with scheduled := s.scheduled.erase (s.now, dest) }.sendArpRequest dest)
  | timedOut (htimer : s.waitReplyTimer = some s.now) :
      Stepped a s .waitReplyTimeout (s.timedOut a)
  | advanced {time : Nat} (hle : s.now ≤ time) (htimer : ∀ t ∈ s.waitReplyTimer, time ≤ t)
      (hscheduled : ∀ r ∈ s.scheduled, time ≤ r.1) :
      Stepped a s (.advance time) { s with now := time }

theorem Inv.step_spec [DecidableEq Mac] (h : s.Inv a) {i : ArpStep Mac Packet}
    (hi : s.Occurs i) : ∃ t, s.step a i = some t ∧ Stepped a s i t := by
  cases i with
  | lookup p d jitter =>
    obtain ⟨t, ht, hpassed⟩ := h.pass_spec p d jitter
    exact ⟨t, ht, .passed hpassed⟩
  | receive i arp jitter =>
    obtain ⟨t, ht, d, mac, hreplied⟩ := receive_spec a s i arp jitter
    exact ⟨t, ht, .replied hreplied⟩
  | sendArpRequest dest => exact ⟨_, rfl, .requested hi⟩
  | waitReplyTimeout => exact ⟨_, handleWaitReplyTimeout_eq a s, .timedOut hi⟩
  | advance time => exact ⟨_, rfl, .advanced hi.1 hi.2.1 hi.2.2⟩

theorem Inv.stepped (h : s.Inv a) {i : ArpStep Mac Packet} (hi : Stepped a s i t) : t.Inv a := by
  cases hi with
  | passed ht => exact h.passed ht
  | replied ht => exact h.replied ht
  | @requested dest _ =>
    have herase : Inv a { s with scheduled := s.scheduled.erase (s.now, dest) } :=
      h.congr rfl rfl rfl
    exact herase.sendArpRequest dest
  | timedOut _ => exact h.timedOut
  | advanced hle htimer _ => exact h.advance hle htimer

end ArpL3Protocol

end CudaNs3.Internet
