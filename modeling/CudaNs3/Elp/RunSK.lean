import CudaNs3.Elp.NextEvents

/-!
# The event loop `ELP_RunSK`

The host loop and the kernel it launches, as one step relation. A loop iteration is two
host steps: `ELP_ScheduleDevEvent`, and what follows it up to the next loop test. Between
any two host steps the launched kernel may take any number of steps of its own: start the
handler of an entry, make one pass of a `d_insert`, mark an entry processed.
-/

namespace CudaNs3.Elp

set_option autoImplicit false

/-- What an invoked callback and the `ProcessEventsWithContext` after it do: what stays of
the pending events, the host events scheduled, the `ELP_Schedule` calls, and `Stop`. -/
structure HostEffect where
  kept : List Event
  scheduled : List Event
  elpScheduled : List EventArgs
  stop : Bool

/-- The code the loop calls. A handler is given by what it may insert, in order. -/
structure Env where
  handler : DeviceEvent → List EventArgs → Prop
  invoke : Event → List Event → HostEffect → Prop
  invoke_kept : ∀ e m r, invoke e m r → r.kept ⊆ m
  mp : Nat
  mp_pos : 0 < mp

/-- One block of threads, the given handler, and callbacks that do nothing. -/
def Env.ofHandler (handler : DeviceEvent → List EventArgs) : Env where
  handler ev out := out = handler ev
  invoke _ m r := r = ⟨m, [], [], false⟩
  invoke_kept := by
    rintro _ m _ rfl
    exact fun _ he => he
  mp := 1
  mp_pos := by decide

/-- A handler that inserts one receive at the end of its lookahead. -/
def relay (ev : DeviceEvent) : List EventArgs :=
  if ev.lookahead = uint64Max then []
  else [⟨ev.impl, ev.ts + ev.lookahead, ev.context, .receive, uint64Max, ev.payload⟩]

/-- A valid entry of a safe-event buffer. Once its handler has started, `todo` is what the
handler still inserts. -/
structure SafeEntry where
  ev : DeviceEvent
  todo : Option (List EventArgs)

/-- Where the host is: before the loop test, or after `ELP_ScheduleDevEvent` with the value
of `safe_ts` saved before it. -/
inductive HostPc where
  | top
  | drained (old : Nat)

/-- A record of the run, which the code does not keep: the events removed from `m_events`,
the events put into each safe-event buffer between its swaps (`window` is the one being
filled), and the events whose handlers have finished. -/
structure Trace where
  removed : List Event
  windows : List (List DeviceEvent)
  window : List DeviceEvent
  executed : Multiset DeviceEvent

def Trace.dispatched (t : Trace) : List DeviceEvent := t.windows.flatten ++ t.window

/-- `h_curHostBufRdy` and `h_safe_ts` are left out: they are assigned together with
`h_curHostBuf` and name that buffer's flag and bound. -/
structure State where
  mEvents : List Event
  mCurrentTs : Nat
  mStop : Bool
  dUid : Nat
  safeTs : Nat
  dSafeTs : Buf → Nat
  hCurHostBuf : Buf
  hBufrdy : Buf → Bool
  hSafeEventQueue : Buf → Nat → Option SafeEntry
  warpIndex : EventType → Nat
  warpThreadIndex : EventType → Nat
  nextAvailWarp : Nat
  dev : NextEvents
  kernel : Option Buf
  pc : HostPc
  trace : Trace

/-- The lookahead `is_safe` uses; `none` where the cast to `HostEvent` is undefined. -/
def Event.lookahead? (e : Event) : Option Nat :=
  if e.uid < deviceEvIdOffset then some uint64Max
  else
    match e.impl with
    | .hostEvent ev => some ev.lookahead
    | .callback _ => none

/-- Lower a bound to `ts + lookahead`, computed in 64 bits, unless there is no lookahead. -/
def lowerTs (bound ts lookahead : Nat) : Nat :=
  if lookahead ≠ uint64Max ∧ (ts + lookahead) % 2 ^ 64 < bound then (ts + lookahead) % 2 ^ 64
  else bound

def putEntry (q : Buf → Nat → Option SafeEntry) (b : Buf) (i : Nat) (en : Option SafeEntry) :
    Buf → Nat → Option SafeEntry :=
  Function.update q b (Function.update (q b) i en)

theorem putEntry_apply (q : Buf → Nat → Option SafeEntry) (b : Buf) (i : Nat)
    (en : Option SafeEntry) (c : Buf) (k : Nat) :
    putEntry q b i en c k = if c = b ∧ k = i then en else q c k := by
  by_cases hc : c = b
  · subst hc
    by_cases hk : k = i
    · subst hk
      simp [putEntry]
    · simp [putEntry, hk]
  · simp [putEntry, hc]

namespace State

/-- After `ELP_Init`, with the events scheduled before the run. -/
def start (m : List Event) : State where
  mEvents := m
  mCurrentTs := 0
  mStop := false
  dUid := deviceEvIdOffset
  safeTs := uint64Max
  dSafeTs := fun _ => uint64Max
  hCurHostBuf := .q1
  hBufrdy := fun _ => false
  hSafeEventQueue := fun _ _ => none
  warpIndex := EventType.code
  warpThreadIndex := fun _ => 0
  nextAvailWarp := eventKinds
  dev := .empty
  kernel := none
  pc := .top
  trace := ⟨[], [], [], 0⟩

def elpSchedule (s : State) (a : EventArgs) : State :=
  { s with
    mEvents := s.mEvents ++
      [⟨.hostEvent ⟨a.obj, a.type, a.lookahead, a.payload⟩, a.ts, a.context, s.dUid⟩]
    dUid := (s.dUid + 1) % 2 ^ 32 }

def elpScheduleAll (s : State) (as : List EventArgs) : State := as.foldl elpSchedule s

theorem elpScheduleAll_cases (s : State) (as : List EventArgs) :
    ∃ m u, s.elpScheduleAll as = { s with mEvents := m, dUid := u } ∧ s.mEvents ⊆ m ∧
      ∀ e ∈ m, e ∈ s.mEvents ∨ ∃ a ∈ as, e.ts = a.ts := by
  induction as generalizing s with
  | nil => exact ⟨s.mEvents, s.dUid, rfl, fun e he => he, fun e he => Or.inl he⟩
  | cons a as ih =>
    obtain ⟨m, u, heq, hsub, hm⟩ := ih (s.elpSchedule a)
    refine ⟨m, u, heq, fun e he => hsub (List.mem_append_left _ he), fun e he => ?_⟩
    rcases hm e he with hold | ⟨b, hb, hts⟩
    · rcases List.mem_append.mp hold with hold | hnew
      · exact Or.inl hold
      · obtain rfl := List.mem_singleton.mp hnew
        exact Or.inr ⟨a, List.mem_cons_self, rfl⟩
    · exact Or.inr ⟨b, List.mem_cons_of_mem _ hb, hts⟩

def elpScheduleDevEvent (s : State) : State :=
  { s with dev := s.dev.elpScheduleDevEvent.1 }.elpScheduleAll s.dev.elpScheduleDevEvent.2

/-- What `cudaEventSynchronize(eventK)` waits for. -/
def KernelDone (s : State) : Prop :=
  ∀ b, s.kernel = some b → ∀ i < deviceQueueLength, s.hSafeEventQueue b i = none

def changeHostQueue (s : State) : State :=
  { s with
    dev := s.dev.changeDevQueue
    hBufrdy := Function.update (Function.update s.hBufrdy s.hCurHostBuf.other false)
      s.hCurHostBuf true
    dSafeTs := Function.update s.dSafeTs s.hCurHostBuf.other uint64Max
    kernel := some s.hCurHostBuf
    hCurHostBuf := s.hCurHostBuf.other
    warpIndex := EventType.code
    warpThreadIndex := fun _ => 0
    nextAvailWarp := eventKinds
    trace := { s.trace with windows := s.trace.windows ++ [s.trace.window], window := [] } }

/-- `is_safe` on an event that it finds safe, `RemoveNext`, and the new current time. -/
def removeNext (s : State) (e : Event) (lookahead : Nat) : State :=
  { s with
    safeTs := lowerTs s.safeTs e.ts lookahead
    mEvents := s.mEvents.erase e
    mCurrentTs := max s.mCurrentTs e.ts
    trace := { s.trace with removed := s.trace.removed ++ [e] } }

def hInsertIndex (s : State) (t : EventType) : Nat :=
  s.warpIndex t * warpSize + s.warpThreadIndex t

/-- `warp_thread_index[type]++`, and in `h_insert_sort` a new warp once the old one is full. -/
def advanceWarp (s : State) (t : EventType) : State :=
  let full := s.warpThreadIndex t + 1 = warpSize
  { s with
    warpThreadIndex := Function.update s.warpThreadIndex t
      (if full then 0 else s.warpThreadIndex t + 1)
    warpIndex := if full then Function.update s.warpIndex t s.nextAvailWarp else s.warpIndex
    nextAvailWarp := if full then s.nextAvailWarp + 1 else s.nextAvailWarp }

/-- `h_insert_sort` at `h_insertIndex`, which the index arrays determine. -/
def hInsertSort (s : State) (ev : DeviceEvent) : State :=
  { s.advanceWarp ev.type with
    hSafeEventQueue := putEntry s.hSafeEventQueue s.hCurHostBuf (s.hInsertIndex ev.type)
      (some ⟨ev, none⟩)
    safeTs := lowerTs s.safeTs ev.ts ev.lookahead
    dSafeTs := Function.update s.dSafeTs s.hCurHostBuf
      (lowerTs (s.dSafeTs s.hCurHostBuf) ev.ts ev.lookahead)
    trace := { s.trace with window := s.trace.window ++ [ev] } }

def safeEvent (e : Event) (ev : HostEvent) : DeviceEvent :=
  ⟨ev.obj, e.ts, e.context, e.uid, ev.type, ev.lookahead, ev.payload⟩

def minSafeTs (s : State) : Nat :=
  if s.dSafeTs .q1 < s.dSafeTs .q2 then s.dSafeTs .q1 else s.dSafeTs .q2

def invoked (s : State) (e : Event) (r : HostEffect) : State :=
  { s with
    mEvents := r.kept ++ r.scheduled
    mCurrentTs := e.ts
    mStop := r.stop }.elpScheduleAll r.elpScheduled

/-- What is left of the iteration ends at the loop test. -/
def again (s : State) : State := { s with pc := .top }

/-- A kernel thread rewrites its entry, with the next-event buffers as it leaves them and the
events whose handlers have then returned. -/
def threadStep (s : State) (b : Buf) (i : Nat) (en : Option SafeEntry) (dev : NextEvents)
    (done : Multiset DeviceEvent) : State :=
  { s with
    hSafeEventQueue := putEntry s.hSafeEventQueue b i en
    dev := dev
    trace := { s.trace with executed := done + s.trace.executed } }

theorem hInsertSort_queue (s : State) (ev : DeviceEvent) (b : Buf) (k : Nat) :
    (s.hInsertSort ev).hSafeEventQueue b k =
      if b = s.hCurHostBuf ∧ k = s.hInsertIndex ev.type then some ⟨ev, none⟩
      else s.hSafeEventQueue b k :=
  putEntry_apply _ _ _ _ b k

theorem threadStep_queue (s : State) (b : Buf) (i : Nat) (en : Option SafeEntry)
    (dev : NextEvents) (done : Multiset DeviceEvent) (c : Buf) (k : Nat) :
    (s.threadStep b i en dev done).hSafeEventQueue c k =
      if c = b ∧ k = i then en else s.hSafeEventQueue c k :=
  putEntry_apply _ _ _ _ c k

/-- The kernel's thread for slot `i` has reached it: its earlier slots are done with. -/
def Reached (s : State) (env : Env) (b : Buf) (i : Nat) : Prop :=
  s.kernel = some b ∧ i < deviceQueueLength ∧
    ∀ k < i, k % (env.mp * tpb) = i % (env.mp * tpb) → s.hSafeEventQueue b k = none

end State

structure AtNext (s : State) (old : Nat) (e : Event) (lookahead : Nat) : Prop where
  pc : s.pc = .drained old
  next : IsNext s.mEvents e
  cast : e.lookahead? = some lookahead

inductive Step (env : Env) : State → State → Prop where
  | scheduleDevEvent {s : State} :
      s.pc = .top → s.mEvents ≠ [] → s.mStop = false →
      Step env s { s.elpScheduleDevEvent with pc := .drained s.safeTs }
  /-- The next event is not safe, but the bound has moved since the loop test. -/
  | raise {s : State} {old : Nat} {e : Event} {lookahead : Nat} :
      AtNext s old e lookahead → s.safeTs ≤ e.ts → old ≠ s.minSafeTs →
      Step env s (State.again { s with safeTs := s.minSafeTs })
  /-- The next event is not safe and the bound has not moved. -/
  | swap {s : State} {old : Nat} {e : Event} {lookahead : Nat} :
      AtNext s old e lookahead → s.safeTs ≤ e.ts → old = s.minSafeTs → s.KernelDone →
      Step env s (State.again { s with safeTs := s.minSafeTs }).changeHostQueue
  /-- `ELP_ProcessOneEvent` with room in the current buffer. -/
  | dispatch {s : State} {old : Nat} {e : Event} {ev : HostEvent} {lookahead : Nat} :
      AtNext s old e lookahead → e.ts < s.safeTs → deviceEvIdOffset ≤ e.uid →
      e.impl = .hostEvent ev → s.hInsertIndex ev.type < deviceQueueLength →
      s.hBufrdy s.hCurHostBuf = false →
      Step env s ((s.removeNext e lookahead).again.hInsertSort (State.safeEvent e ev))
  /-- `ELP_ProcessOneEvent` that swaps first. -/
  | dispatchSwap {s : State} {old : Nat} {e : Event} {ev : HostEvent} {lookahead : Nat} :
      AtNext s old e lookahead → e.ts < s.safeTs → deviceEvIdOffset ≤ e.uid →
      e.impl = .hostEvent ev → deviceQueueLength ≤ s.hInsertIndex ev.type → s.KernelDone →
      s.changeHostQueue.hBufrdy s.changeHostQueue.hCurHostBuf = false →
      Step env s
        ((s.removeNext e lookahead).again.changeHostQueue.hInsertSort (State.safeEvent e ev))
  | invoke {s : State} {old : Nat} {e : Event} {id lookahead : Nat} {r : HostEffect} :
      AtNext s old e lookahead → e.ts < s.safeTs → e.uid < deviceEvIdOffset →
      e.impl = .callback id → env.invoke e (s.mEvents.erase e) r →
      Step env s ((s.removeNext e lookahead).again.invoked e r)
  /-- A thread starts the handler of its next valid entry. -/
  | handle {s : State} {b : Buf} {i : Nat} {ev : DeviceEvent} {out : List EventArgs} :
      s.Reached env b i → s.hSafeEventQueue b i = some ⟨ev, none⟩ → env.handler ev out →
      Step env s (s.threadStep b i (some ⟨ev, some out⟩) s.dev 0)
  /-- One pass of a `d_insert`. -/
  | insert {s : State} {b : Buf} {i : Nat} {ev : DeviceEvent} {a : EventArgs}
      {rest : List EventArgs} :
      s.Reached env b i → s.hSafeEventQueue b i = some ⟨ev, some (a :: rest)⟩ →
      Step env s (s.threadStep b i
        (some ⟨ev, some (if (s.dev.dInsertRound (i % (env.mp * tpb)) a).2.isSome then rest
          else a :: rest)⟩)
        (s.dev.dInsertRound (i % (env.mp * tpb)) a).1 0)
  /-- The handler has returned; the entry is marked processed. -/
  | finish {s : State} {b : Buf} {i : Nat} {ev : DeviceEvent} :
      s.Reached env b i → s.hSafeEventQueue b i = some ⟨ev, some []⟩ →
      Step env s (s.threadStep b i none s.dev {ev})

abbrev Run (env : Env) : State → State → Prop := Relation.ReflTransGen (Step env)

/-- The loop was left because nothing is pending, and the stream is synchronised. -/
def Exited (s : State) : Prop := s.pc = .top ∧ s.mEvents = [] ∧ s.mStop = false ∧ s.KernelDone

/-! A device send at time 0 with lookahead 10 that is pending first is dispatched in the
first iteration, whatever else is pending. -/

def firstSend : Event := ⟨.hostEvent ⟨0, .send, 10, none⟩, 0, 0, deviceEvIdOffset⟩

def State.firstDrained (rest : List Event) : State :=
  { (State.start (firstSend :: rest)).elpScheduleDevEvent with pc := .drained uint64Max }

def State.firstDispatched (rest : List Event) : State :=
  ((State.firstDrained rest).removeNext firstSend 10).again.hInsertSort
    (State.safeEvent firstSend ⟨0, .send, 10, none⟩)

theorem run_firstDispatched (env : Env) {rest : List Event} (hrest : ∀ f ∈ rest, 0 < f.ts) :
    Run env (State.start (firstSend :: rest)) (State.firstDispatched rest) := by
  have hnext : IsNext (State.firstDrained rest).mEvents firstSend := by
    refine ⟨List.mem_cons_self, fun f hf => ?_⟩
    rcases List.mem_cons.mp hf with rfl | hf
    · exact Or.inr ⟨rfl, le_refl _⟩
    · exact Or.inl (hrest f hf)
  refine .head (.scheduleDevEvent rfl (List.cons_ne_nil _ _) rfl) (.single ?_)
  have hsafe : 0 < uint64Max := by decide
  have hroom : 0 < deviceQueueLength := by decide
  exact .dispatch ⟨rfl, hnext, rfl⟩ hsafe (le_refl _) rfl hroom rfl

end CudaNs3.Elp
