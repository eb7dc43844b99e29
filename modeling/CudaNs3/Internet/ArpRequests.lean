import CudaNs3.Internet.ArpRuns

/-!
# The requests of ARP

A request that is held back by its jitter counts for the entry as one that is still to be sent.
When no jitter is longer than it takes an entry to expire again, such a request is gone before
the entry begins to wait a second time.
-/

namespace CudaNs3.Internet

set_option autoImplicit false

namespace ArpEntry
variable {Mac Packet : Type} {a : ArpAttributes} {now time : Nat} {timer : Option Nat}
  {times times' : List Nat} {e f : ArpEntry Mac Packet} {p : Packet}

/-- The entry, for which requests are scheduled at `times`, has sent no more than it may. -/
structure Quiet (a : ArpAttributes) (now : Nat) (timer : Option Nat) (times : List Nat)
    (e : ArpEntry Mac Packet) : Prop where
  length_le : times.length ≤ 1
  requested_le : e.requested + times.length ≤ 1 + e.retries
  retries_le : e.retries ≤ a.maxRetries
  retries_eq_zero : e.state ≠ .waitReply → e.retries = 0
  soon : e.state = .waitReply → ∀ t ∈ times, t ≤ now + a.aliveTimeout ∧ ∀ T, timer = some T →
    t + e.retries * a.waitReplyTimeout ≤
      T + a.deadTimeout + a.maxRetries * a.waitReplyTimeout
  before : e.state ≠ .waitReply → ∀ t ∈ times, ∀ timeout, e.getTimeout a = some timeout →
    t ≤ e.lastSeen + timeout

theorem getTimeout_congr (hstate : f.state = e.state) : f.getTimeout a = e.getTimeout a := by
  unfold getTimeout
  rw [hstate]

theorem Quiet.congr (h : e.Quiet a now timer times) (hstate : f.state = e.state)
    (hretries : f.retries = e.retries) (hrequested : f.requested = e.requested)
    (hseen : f.lastSeen = e.lastSeen) : f.Quiet a now timer times where
  length_le := h.length_le
  requested_le := by
    rw [hrequested, hretries]
    exact h.requested_le
  retries_le := by
    rw [hretries]
    exact h.retries_le
  retries_eq_zero := by
    rw [hstate, hretries]
    exact h.retries_eq_zero
  soon := by
    rw [hstate, hretries]
    exact h.soon
  before := by
    rw [hstate, hseen, getTimeout_congr hstate]
    exact h.before

theorem Quiet.perm (h : e.Quiet a now timer times) (hperm : times.Perm times') :
    e.Quiet a now timer times' where
  length_le := by
    rw [← hperm.length_eq]
    exact h.length_le
  requested_le := by
    rw [← hperm.length_eq]
    exact h.requested_le
  retries_le := h.retries_le
  retries_eq_zero := h.retries_eq_zero
  soon hwait t ht := h.soon hwait t (hperm.mem_iff.mpr ht)
  before hstate t ht := h.before hstate t (hperm.mem_iff.mpr ht)

/-- A request that was scheduled is sent. -/
theorem Quiet.request {t : Nat} (h : e.Quiet a now timer (t :: times)) :
    Quiet a now timer times { e with requested := e.requested + 1 } where
  length_le := by
    have hlen := h.length_le
    rw [List.length_cons] at hlen
    omega
  requested_le := by
    have hrequested := h.requested_le
    rw [List.length_cons] at hrequested
    change e.requested + 1 + times.length ≤ 1 + e.retries
    omega
  retries_le := h.retries_le
  retries_eq_zero := h.retries_eq_zero
  soon hwait u hu := h.soon hwait u (List.mem_cons_of_mem t hu)
  before hstate u hu := h.before hstate u (List.mem_cons_of_mem t hu)

theorem Quiet.advance (h : e.Quiet a now timer times) (hle : now ≤ time) :
    e.Quiet a time timer times where
  length_le := h.length_le
  requested_le := h.requested_le
  retries_le := h.retries_le
  retries_eq_zero := h.retries_eq_zero
  soon hwait t ht := by
    obtain ⟨hsoon, htimer⟩ := h.soon hwait t ht
    exact ⟨by omega, htimer⟩
  before := h.before

/-- An entry that waits has its timer, so that starting it changes nothing. -/
theorem Quiet.start (h : e.Quiet a now timer times) (hgood : e.Good a now timer) (t : Nat) :
    e.Quiet a now (some (timer.getD t)) times where
  length_le := h.length_le
  requested_le := h.requested_le
  retries_le := h.retries_le
  retries_eq_zero := h.retries_eq_zero
  soon hwait := by
    obtain ⟨t', rfl, -⟩ := hgood.covered hwait
    exact h.soon hwait
  before := h.before

/-- With nothing scheduled from before, the entry begins to wait with one request to be sent. -/
theorem quiet_waiting {t jitter : Nat} (hretries : e.retries = 0) (ht : now ≤ t)
    (halive : jitter ≤ a.aliveTimeout)
    (hdead : jitter ≤ a.deadTimeout + a.maxRetries * a.waitReplyTimeout) (p : Packet) :
    (e.waiting now p).Quiet a now (some t) [now + jitter] where
  length_le := le_refl 1
  requested_le := by
    change 0 + 1 ≤ 1 + e.retries
    omega
  retries_le := by
    change e.retries ≤ a.maxRetries
    omega
  retries_eq_zero _ := hretries
  soon _ u hu := by
    rw [List.mem_singleton.mp hu]
    refine ⟨by omega, ?_⟩
    intro T hT
    have hretries' : (e.waiting now p).retries = 0 := hretries
    rw [hretries', Nat.zero_mul]
    have hTt := Option.some.inj hT
    omega
  before hne := absurd rfl hne

theorem Quiet.answered {mac : Mac} (h : e.Quiet a now timer times) (hwait : e.state = .waitReply) :
    (e.answered now mac).Quiet a now timer times where
  length_le := h.length_le
  requested_le := by
    have hlen := h.length_le
    change 0 + times.length ≤ 1 + 0
    omega
  retries_le := Nat.zero_le _
  retries_eq_zero _ := rfl
  soon hne := by cases hne
  before _ t ht timeout htimeout := by
    have hsoon := (h.soon hwait t ht).1
    have halive : a.aliveTimeout = timeout := Option.some.inj htimeout
    change t ≤ now + timeout
    omega

/-- The timer expires now. -/
theorem Quiet.timedOut (h : e.Quiet a now (some now) times) {timer' : Option Nat}
    (htimer : e.retried a = true → timer' = some (now + a.waitReplyTimeout)) :
    (e.timedOut a now).Quiet a now timer' times := by
  have hlen := h.length_le
  have hrequested := h.requested_le
  have hretries := h.retries_le
  unfold ArpEntry.timedOut
  split
  · rename_i hwait
    split
    · rename_i hretry
      rw [htimer (decide_eq_true ⟨hwait, hretry⟩)]
      refine ⟨hlen, ?_, hretry, fun hne => absurd hwait hne, ?_, fun hne => absurd hwait hne⟩
      · change e.requested + 1 + times.length ≤ 1 + (e.retries + 1)
        omega
      · intro _ t ht
        obtain ⟨hsoon, hT⟩ := h.soon hwait t ht
        refine ⟨hsoon, ?_⟩
        intro T hTeq
        have hnow := hT now rfl
        have hT' := Option.some.inj hTeq
        change t + (e.retries + 1) * a.waitReplyTimeout ≤ _
        rw [Nat.succ_mul]
        omega
    · rename_i hretry
      refine ⟨hlen, ?_, Nat.zero_le _, fun _ => rfl, fun hne => (by cases hne), ?_⟩
      · change 0 + times.length ≤ 1 + 0
        omega
      · intro _ t ht timeout htimeout
        have hmax : e.retries = a.maxRetries := by omega
        have hnow := (h.soon hwait t ht).2 now rfl
        have hdead : a.deadTimeout = timeout := Option.some.inj htimeout
        rw [hmax] at hnow
        change t ≤ now + timeout
        omega
  · rename_i hwait
    exact ⟨hlen, hrequested, hretries, h.retries_eq_zero, fun h => absurd h hwait, h.before⟩

end ArpEntry

namespace ArpL3Protocol
variable {Mac Packet : Type} {a : ArpAttributes} {s t : ArpL3Protocol Mac Packet}
  {e f : ArpEntry Mac Packet} {d dest : Ipv4Address} {p : Packet}

/-- The times at which requests for `d` are to be sent. -/
def times (s : ArpL3Protocol Mac Packet) (d : Ipv4Address) : List Nat :=
  (s.scheduled.filter fun r => r.2 = d).map (·.1)

theorem mem_times {x : Nat} : x ∈ s.times d ↔ (x, d) ∈ s.scheduled := by
  unfold times
  rw [List.mem_map]
  constructor
  · rintro ⟨⟨y, d'⟩, hr, rfl⟩
    obtain ⟨hr, hd⟩ := List.mem_filter.mp hr
    have hd' : d' = d := of_decide_eq_true hd
    rw [← hd']
    exact hr
  · intro hx
    exact ⟨(x, d), List.mem_filter.mpr ⟨hx, decide_eq_true rfl⟩, rfl⟩

theorem times_schedule (s : ArpL3Protocol Mac Packet) (jitter : Nat) (dest d : Ipv4Address) :
    (s.schedule jitter dest).times d =
      if dest = d then s.times d ++ [s.now + jitter] else s.times d := by
  unfold times schedule
  rw [List.filter_append, List.map_append]
  by_cases hd : dest = d
  · rw [if_pos hd, List.filter_cons, if_pos (decide_eq_true hd)]
    rfl
  · rw [if_neg hd, List.filter_cons, if_neg (by simpa using hd), List.filter_nil, List.map_nil,
      List.append_nil]

/-- A request that is sent is scheduled no more. -/
theorem times_erase {x : Nat} (hx : (x, dest) ∈ s.scheduled) (d : Ipv4Address) :
    (s.times d).Perm ((if dest = d then [x] else []) ++
      times { s with scheduled := s.scheduled.erase (x, dest) } d) := by
  have hperm := ((List.perm_cons_erase hx).filter fun r => decide (r.2 = d)).map (·.1)
  refine hperm.trans ?_
  by_cases hd : dest = d
  · rw [if_pos hd, List.filter_cons, if_pos (decide_eq_true hd)]
    exact .refl _
  · rw [if_neg hd, List.filter_cons, if_neg (by simpa using hd)]
    exact .refl _

/-! ### The invariant of the requests -/

structure Calm (a : ArpAttributes) (s : ArpL3Protocol Mac Packet) : Prop where
  due : ∀ r ∈ s.scheduled, s.now ≤ r.1
  known : ∀ r ∈ s.scheduled, ∃ e, s.find r.2 = some e
  entries : ∀ d e, s.find d = some e → e.Quiet a s.now s.waitReplyTimer (s.times d)

theorem Calm.congr (h : s.Calm a) (hnow : t.now = s.now) (hcache : t.arpCache = s.arpCache)
    (htimer : t.waitReplyTimer = s.waitReplyTimer) (hscheduled : t.scheduled = s.scheduled) :
    t.Calm a where
  due := by
    rw [hnow, hscheduled]
    exact h.due
  known := by
    unfold find
    rw [hscheduled, hcache]
    exact h.known
  entries := by
    unfold find times
    rw [hnow, hcache, htimer, hscheduled]
    exact h.entries

theorem Calm.put (h : s.Calm a)
    (he : e.Quiet a s.now s.waitReplyTimer (s.times e.ipv4Address)) : (s.put e).Calm a where
  due := h.due
  known r hr := by
    rw [find_put]
    split
    · exact ⟨e, rfl⟩
    · exact h.known r hr
  entries d f hf := by
    rw [find_put] at hf
    split at hf
    · rename_i hd
      obtain rfl := Option.some.inj hf
      rw [← hd]
      exact he
    · exact h.entries d f hf

/-- An entry may change where its state, its counts and its time stay. -/
theorem Calm.put_congr (h : s.Calm a) (he : s.find d = some e)
    (haddr : f.ipv4Address = e.ipv4Address) (hstate : f.state = e.state)
    (hretries : f.retries = e.retries) (hrequested : f.requested = e.requested)
    (hseen : f.lastSeen = e.lastSeen) : (s.put f).Calm a := by
  apply h.put
  rw [haddr, ipv4Address_of_find he]
  exact (h.entries d e he).congr hstate hretries hrequested hseen

theorem Calm.start (h : s.Calm a) (hinv : s.Inv a) : (s.startWaitReplyTimer a).Calm a where
  due := by
    rw [now_start, scheduled_start]
    exact h.due
  known r hr := by
    rw [scheduled_start] at hr
    rw [find_start]
    exact h.known r hr
  entries d e he := by
    rw [find_start] at he
    unfold times
    rw [now_start, waitReplyTimer_start, scheduled_start]
    exact (h.entries d e he).start (hinv.entries d e he) _

/-- When an entry is ready for a request, none is scheduled for it from before. -/
theorem Calm.times_eq_nil (h : s.Calm a) (he : Ready a s d e) : s.times d = [] := by
  apply List.eq_nil_iff_forall_not_mem.mpr
  intro x hx
  have hmem := mem_times.mp hx
  have hdue : s.now ≤ x := h.due _ hmem
  rcases he with ⟨he, hstate, hexp⟩ | ⟨hnone, -⟩
  · have hquiet := h.entries d e he
    rcases hstate with hstate | hstate
    · have htimeout : e.getTimeout a = some a.aliveTimeout := by
        unfold ArpEntry.getTimeout
        rw [hstate]
      have hbefore := hquiet.before (by rw [hstate]; decide) x hx _ htimeout
      have hlt := ArpEntry.lt_of_isExpired hexp htimeout
      omega
    · have htimeout : e.getTimeout a = some a.deadTimeout := by
        unfold ArpEntry.getTimeout
        rw [hstate]
      have hbefore := hquiet.before (by rw [hstate]; decide) x hx _ htimeout
      have hlt := ArpEntry.lt_of_isExpired hexp htimeout
      omega
  · obtain ⟨f, hf⟩ := h.known _ hmem
    rw [hnone] at hf
    cases hf

theorem Calm.retries_of_ready (h : s.Calm a) (he : Ready a s d e) : e.retries = 0 := by
  rcases he with ⟨he, hstate, -⟩ | ⟨-, rfl⟩
  · refine (h.entries d e he).retries_eq_zero ?_
    rcases hstate with hstate | hstate
    · rw [hstate]
      decide +kernel
    · rw [hstate]
      decide +kernel
  · rfl

/-- The jitter is over before an entry that is answered, or one that is not, has expired. -/
def JitterWithin (a : ArpAttributes) : ArpStep Mac Packet → Prop
  | .lookup _ _ jitter =>
    jitter ≤ a.aliveTimeout ∧ jitter ≤ a.deadTimeout + a.maxRetries * a.waitReplyTimeout
  | _ => True

instance (a : ArpAttributes) : (i : ArpStep Mac Packet) → Decidable (JitterWithin a i)
  | .lookup _ _ jitter => inferInstanceAs (Decidable
      (jitter ≤ a.aliveTimeout ∧ jitter ≤ a.deadTimeout + a.maxRetries * a.waitReplyTimeout))
  | .receive _ _ _ => .isTrue trivial
  | .sendArpRequest _ => .isTrue trivial
  | .waitReplyTimeout => .isTrue trivial
  | .advance _ => .isTrue trivial

theorem Calm.put_schedule (h : s.Calm a) (haddr : e.ipv4Address = d) {jitter : Nat}
    (he : e.Quiet a s.now s.waitReplyTimer (s.times d ++ [s.now + jitter])) :
    ((s.put e).schedule jitter d).Calm a where
  due r hr := by
    rcases List.mem_append.mp hr with hr | hr
    · exact h.due r hr
    · rw [List.mem_singleton.mp hr]
      exact Nat.le_add_right _ _
  known r hr := by
    change ∃ f, (s.put e).find r.2 = some f
    rw [find_put]
    split
    · exact ⟨e, rfl⟩
    · rename_i hne
      rcases List.mem_append.mp hr with hr | hr
      · exact h.known r hr
      · rw [List.mem_singleton.mp hr] at hne
        exact absurd haddr hne
  entries d' f hf := by
    change (s.put e).find d' = some f at hf
    rw [times_schedule]
    rw [find_put, haddr] at hf
    by_cases hd : d = d'
    · rw [if_pos hd] at hf ⊢
      obtain rfl := Option.some.inj hf
      rw [← hd]
      exact he
    · rw [if_neg hd] at hf ⊢
      exact h.entries d' f hf

theorem Calm.passed (h : s.Calm a) (hinv : s.Inv a) {jitter : Nat}
    (hjitter : JitterWithin a (.lookup p d jitter : ArpStep Mac Packet))
    (ht : Passed a s p d jitter t) : t.Calm a := by
  cases ht with
  | found he _ => exact h.put_congr he rfl rfl rfl rfl rfl
  | queued he _ => exact h.put_congr he rfl rfl rfl rfl rfl
  | dropped he => exact h.put_congr he rfl rfl rfl rfl rfl
  | @waits e he =>
    have haddr : ((e.waiting s.now p).note p false).ipv4Address = d :=
      ipv4Address_of_ready (e := e) he
    have hquiet : ((e.waiting s.now p).note p false).Quiet a s.now
        (some (s.waitReplyTimer.getD (s.now + a.waitReplyTimeout))) [s.now + jitter] :=
      (ArpEntry.quiet_waiting (h.retries_of_ready he) hinv.started_le.1 hjitter.1 hjitter.2
        p).congr rfl rfl rfl rfl
    rw [← put_start]
    apply (h.start hinv).put_schedule haddr
    have htimes : (s.startWaitReplyTimer a).times d = [] := by
      unfold times
      rw [scheduled_start]
      exact h.times_eq_nil he
    rw [htimes, now_start, waitReplyTimer_start, List.nil_append]
    exact hquiet

theorem Calm.replied (h : s.Calm a) {mac : Mac} (ht : Replied s d mac t) : t.Calm a := by
  cases ht with
  | ignored hnow hcache htimer hscheduled => exact h.congr hnow hcache htimer hscheduled
  | @answered e he hstate =>
    apply h.put
    have haddr : (e.answered s.now mac).ipv4Address = d := ipv4Address_of_find (e := e) he
    rw [haddr]
    exact (h.entries d e he).answered hstate

theorem Calm.requested (h : s.Calm a) (hmem : (s.now, dest) ∈ s.scheduled) :
    ({ s with scheduled := s.scheduled.erase (s.now, dest) }.sendArpRequest dest).Calm a := by
  obtain ⟨e, he⟩ := h.known _ hmem
  have hsend : { s with scheduled := s.scheduled.erase (s.now, dest) }.sendArpRequest dest =
      { s with scheduled := s.scheduled.erase (s.now, dest) }.put
        { e with requested := e.requested + 1 } := by
    have he' : { s with scheduled := s.scheduled.erase (s.now, dest) }.find dest = some e := he
    unfold sendArpRequest
    rw [he']
  have hquiet := (h.entries dest e he).perm (times_erase hmem dest)
  rw [if_pos rfl] at hquiet
  rw [hsend]
  refine ⟨?_, ?_, ?_⟩
  · intro r hr
    exact h.due r (List.mem_of_mem_erase hr)
  · intro r hr
    rw [find_put]
    split
    · exact ⟨_, rfl⟩
    · exact h.known r (List.mem_of_mem_erase hr)
  · intro d f hf
    rw [find_put] at hf
    split at hf
    · rename_i hd
      obtain rfl := Option.some.inj hf
      have haddr : e.ipv4Address = dest := ipv4Address_of_find (e := e) he
      have hd' : dest = d := haddr.symm.trans hd
      rw [← hd']
      exact hquiet.request
    · rename_i hd
      have hne : dest ≠ d := by
        intro heq
        apply hd
        rw [← heq]
        exact ipv4Address_of_find (e := e) he
      have hrest := (h.entries d f hf).perm (times_erase hmem d)
      rw [if_neg hne] at hrest
      exact hrest

theorem Calm.timedOut (h : s.Calm a) (htimer : s.waitReplyTimer = some s.now) :
    (s.timedOut a).Calm a where
  due := h.due
  known r hr := by
    obtain ⟨e, he⟩ := h.known r hr
    rw [find_timedOut, he]
    exact ⟨_, rfl⟩
  entries d f hf := by
    rw [find_timedOut, Option.map_eq_some_iff] at hf
    obtain ⟨e, he, rfl⟩ := hf
    have hquiet := h.entries d e he
    rw [htimer] at hquiet
    exact hquiet.timedOut (waitReplyTimer_timedOut he)

theorem Calm.stepped (h : s.Calm a) (hinv : s.Inv a) {i : ArpStep Mac Packet}
    (hjitter : JitterWithin a i) (hi : Stepped a s i t) : t.Calm a := by
  cases hi with
  | passed ht => exact h.passed hinv hjitter ht
  | replied ht => exact h.replied ht
  | requested hmem => exact h.requested hmem
  | timedOut htimer => exact h.timedOut htimer
  | advanced hle _ hscheduled =>
    exact ⟨hscheduled, h.known, fun d e he => (h.entries d e he).advance hle⟩

/-! ### Resolution -/

/-- Nothing was asked so far; the entries that there are do not expire. -/
structure Fresh (s : ArpL3Protocol Mac Packet) : Prop where
  distinct : Bindings.Distinct ArpEntry.ipv4Address s.arpCache
  timer : s.waitReplyTimer = none
  scheduled : s.scheduled = []
  entries : ∀ e ∈ s.arpCache, (e.isPermanent || e.isAutoGenerated) = true ∧
    e.lastSeen ≤ s.now ∧ e = { ipv4Address := e.ipv4Address, state := e.state,
                               lastSeen := e.lastSeen, macAddress := e.macAddress }

theorem Fresh.inv (h : s.Fresh) (a : ArpAttributes) : s.Inv a where
  distinct := h.distinct
  entries d e he := by
    obtain ⟨hstate, hseen, heq⟩ := h.entries e (Bindings.mem_of_get he)
    have hne : e.state ≠ .waitReply := by
      intro hwait
      simp [ArpEntry.isPermanent, ArpEntry.isAutoGenerated, hwait] at hstate
    refine ⟨fun hwait => absurd hwait hne, fun _ => ?_, hseen, ?_⟩
    · rw [heq]
    · rw [heq]
      exact ⟨.refl _, .refl _⟩
  now_le t ht := by
    rw [h.timer] at ht
    cases ht
  timer_le t ht := by
    rw [h.timer] at ht
    cases ht

theorem Fresh.calm (h : s.Fresh) (a : ArpAttributes) : s.Calm a where
  due r hr := by
    rw [h.scheduled] at hr
    exact absurd hr List.not_mem_nil
  known r hr := by
    rw [h.scheduled] at hr
    exact absurd hr List.not_mem_nil
  entries d e he := by
    obtain ⟨-, -, heq⟩ := h.entries e (Bindings.mem_of_get he)
    have htimes : s.times d = [] := by
      unfold times
      rw [h.scheduled]
      rfl
    rw [htimes, heq]
    exact ⟨Nat.zero_le _, Nat.zero_le _, Nat.zero_le _, fun _ => rfl,
      fun _ t ht => absurd ht List.not_mem_nil, fun _ t ht => absurd ht List.not_mem_nil⟩

/-- What is to hold at every moment: the timer covers every entry that waits and no call fails, so
that neither is an assertion violated nor an entry that waits found expired; and every packet
is accounted for. -/
structure Resolves [DecidableEq Mac] (a : ArpAttributes) (s : ArpL3Protocol Mac Packet) : Prop where
  distinct : Bindings.Distinct ArpEntry.ipv4Address s.arpCache
  covered : ∀ e ∈ s.arpCache, e.state = .waitReply → ∃ t, s.waitReplyTimer = some t ∧
    s.now ≤ t ∧ t ≤ e.lastSeen + a.waitReplyTimeout
  returns : ∀ i, s.Occurs i → ∃ t, s.step a i = some t
  accounted : ∀ e ∈ s.arpCache, e.Accounted

/-- Since its state last changed, at most `1 + MaxRetries` requests were sent for an entry. -/
def RequestsWithin (a : ArpAttributes) (s : ArpL3Protocol Mac Packet) : Prop :=
  ∀ e ∈ s.arpCache, e.requested ≤ 1 + a.maxRetries

theorem Inv.resolves [DecidableEq Mac] (h : s.Inv a) : s.Resolves a where
  distinct := h.distinct
  covered e he hwait := by
    have hgood := h.entries e.ipv4Address e (h.distinct.get_iff.mpr ⟨he, rfl⟩)
    obtain ⟨t, ht, hle⟩ := hgood.covered hwait
    exact ⟨t, ht, h.now_le t ht, hle⟩
  returns i hi := by
    obtain ⟨t, ht, -⟩ := h.step_spec hi
    exact ⟨t, ht⟩
  accounted e he := (h.entries e.ipv4Address e (h.distinct.get_iff.mpr ⟨he, rfl⟩)).accounted

theorem Calm.requestsWithin (h : s.Calm a) (hinv : s.Inv a) : s.RequestsWithin a := by
  intro e he
  have hquiet := h.entries e.ipv4Address e (hinv.distinct.get_iff.mpr ⟨he, rfl⟩)
  have hrequested := hquiet.requested_le
  have hretries := hquiet.retries_le
  omega

variable [DecidableEq Mac]

theorem Inv.run (h : s.Inv a) {run : List (ArpStep Mac Packet)}
    (hrun : Transition.Along (step a) Occurs s run) :
    ∃ t, Transition.exec (step a) s run = some t ∧ t.Inv a ∧
      (s.Calm a → (∀ i ∈ run, JitterWithin a i) → t.Calm a) := by
  induction run generalizing s with
  | nil => exact ⟨s, rfl, h, fun hcalm _ => hcalm⟩
  | cons i rest ih =>
    obtain ⟨hi, hrest⟩ := hrun
    obtain ⟨t, ht, hstepped⟩ := h.step_spec hi
    obtain ⟨u, hu, hinv, hcalm⟩ := ih (h.stepped hstepped) (hrest t ht)
    refine ⟨u, Transition.exec_cons_eq_some.mpr ⟨t, ht, hu⟩, hinv, ?_⟩
    intro hs hjitter
    obtain ⟨hfirst, hlater⟩ := List.forall_mem_cons.mp hjitter
    exact hcalm (hs.stepped h hfirst hstepped) hlater

/-- In every run, resolution never aborts and loses nothing; and no state of an entry sees too
many requests, unless a jitter was too long. -/
theorem arp_resolution (a : ArpAttributes) {s : ArpL3Protocol Mac Packet} (hs : s.Fresh)
    (run : List (ArpStep Mac Packet)) (h : Transition.Along (step a) Occurs s run) :
    ∃ t, Transition.exec (step a) s run = some t ∧ t.Resolves a ∧
      ((∀ i ∈ run, JitterWithin a i) → t.RequestsWithin a) := by
  obtain ⟨t, ht, hinv, hcalm⟩ := (hs.inv a).run h
  refine ⟨t, ht, hinv.resolves, ?_⟩
  intro hjitter
  exact (hcalm (hs.calm a) hjitter).requestsWithin hinv

/-- An entry that was set by hand. -/
def withNeighbor : ArpL3Protocol (BitVec 48) Nat :=
  { arpCache := [{ ipv4Address := 0x0a000009, state := .permanent, macAddress := some 9 }] }

theorem fresh_withNeighbor : withNeighbor.Fresh where
  distinct := List.nodup_singleton _
  timer := rfl
  scheduled := rfl
  entries e he := by
    rw [List.mem_singleton.mp he]
    exact ⟨rfl, le_refl 0, rfl⟩

/-- Packets for three neighbours; one is set by hand, one answers, and one never does. -/
def threeNeighbors : List (ArpStep (BitVec 48) Nat) :=
  [.lookup 1 0x0a000009 0, .lookup 2 0x0a000002 4, .lookup 3 0x0a000002 4, .advance 4,
    .sendArpRequest 0x0a000002, .lookup 4 0x0a000003 1, .advance 5, .sendArpRequest 0x0a000003,
    .receive ⟨[(0x0a000001, 0xffffff00)], 1⟩ (some ⟨2, 2, 0x0a000002, 1, 0x0a000001⟩) 0,
    .lookup 5 0x0a000002 0, .advance 10, .waitReplyTimeout, .advance 20, .waitReplyTimeout,
    .lookup 6 0x0a000003 0]

theorem arp_resolution_sample : ∃ t,
    Transition.exec (step ⟨100, 50, 10, 1, 3⟩) withNeighbor threeNeighbors = some t ∧
      t.Resolves ⟨100, 50, 10, 1, 3⟩ ∧ t.RequestsWithin ⟨100, 50, 10, 1, 3⟩ := by
  obtain ⟨t, ht, hresolves, hwithin⟩ :=
    arp_resolution ⟨100, 50, 10, 1, 3⟩ fresh_withNeighbor threeNeighbors (by decide +kernel)
  exact ⟨t, ht, hresolves, hwithin (by decide)⟩

/-- The first request is held back until the entry waits again; it has died in between. -/
def heldBack : List (ArpStep (BitVec 48) Nat) :=
  [.lookup 1 0x0a000002 4, .advance 1, .waitReplyTimeout, .advance 3, .lookup 2 0x0a000002 1,
    .advance 4, .sendArpRequest 0x0a000002, .sendArpRequest 0x0a000002]

/-- Two requests are sent while the entry waits, where there are no retries. -/
theorem request_held_back :
    Transition.Along (step ⟨100, 1, 1, 0, 3⟩) Occurs ({} : ArpL3Protocol (BitVec 48) Nat) heldBack ∧
      ∃ t, Transition.exec (step ⟨100, 1, 1, 0, 3⟩) {} heldBack = some t ∧
        t.Occurs .waitReplyTimeout ∧ ¬t.RequestsWithin ⟨100, 1, 1, 0, 3⟩ := by
  refine ⟨by decide +kernel, _, rfl, rfl, ?_⟩
  intro hwithin
  exact absurd (hwithin _ List.mem_cons_self) (by decide)

end ArpL3Protocol

end CudaNs3.Internet
