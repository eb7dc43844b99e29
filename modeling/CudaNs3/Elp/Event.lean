import Mathlib.Data.Nat.Notation

/-!
# Events of the ELP simulator

The constants of `cuda-elp-simulator.h`, the two ping-pong buffer names, and the
event records. A timestamp and a lookahead are 64-bit values in nanoseconds; sums are
reduced modulo `2 ^ 64` where the code compares them, not in the records.
-/

namespace CudaNs3.Elp

set_option autoImplicit false

def deviceQueueLength : Nat := 4096
def eventKinds : Nat := 4
def maxNewEvents : Nat := 4
def deviceEvIdOffset : Nat := 1000000
def tpb : Nat := 128
def warpSize : Nat := 32
def uint64Max : Nat := 0xFFFFFFFFFFFFFFFF

/-- The codes 0, 1 and 2 of `DeviceEvent::type`; no caller passes any other. -/
inductive EventType where
  | send
  | transmitComplete
  | receive
  deriving DecidableEq, Repr

def EventType.code : EventType → Nat
  | .send => 0
  | .transmitComplete => 1
  | .receive => 2

theorem EventType.code_lt (t : EventType) : t.code < eventKinds := by cases t <;> decide

theorem EventType.code_inj {t u : EventType} (h : t.code = u.code) : t = u := by
  cases t <;> cases u <;> first | rfl | simp [code] at h

inductive Buf where
  | q1
  | q2
  deriving DecidableEq, Repr

def Buf.other : Buf → Buf
  | .q1 => .q2
  | .q2 => .q1

@[simp] theorem Buf.other_other (b : Buf) : b.other.other = b := by cases b <;> rfl

@[simp] theorem Buf.other_ne (b : Buf) : b.other ≠ b := by cases b <;> simp [Buf.other]

@[simp] theorem Buf.ne_other (b : Buf) : b ≠ b.other := by cases b <;> simp [Buf.other]

theorem Buf.eq_or_other (b c : Buf) : c = b ∨ c = b.other := by
  cases b <;> cases c <;> simp [Buf.other]

theorem Buf.eq_other_of_ne {b c : Buf} (h : c ≠ b) : c = b.other :=
  (b.eq_or_other c).resolve_left h

/-- What `d_insert` is called with, and what `ELP_Schedule` is given back. -/
structure EventArgs where
  obj : Nat
  ts : Nat
  context : Nat
  type : EventType
  lookahead : Nat
  payload : Option Nat
  deriving DecidableEq, Repr

structure DeviceEvent where
  impl : Nat
  ts : Nat
  context : Nat
  uid : Nat
  type : EventType
  lookahead : Nat
  payload : Option Nat
  deriving DecidableEq, Repr

def DeviceEvent.args (ev : DeviceEvent) : EventArgs :=
  ⟨ev.impl, ev.ts, ev.context, ev.type, ev.lookahead, ev.payload⟩

/-- The record `d_insert` stores; its uid is not used and reassigned by `ELP_Schedule`. -/
def EventArgs.toDevice (a : EventArgs) : DeviceEvent :=
  ⟨a.obj, a.ts, a.context, 3, a.type, a.lookahead, a.payload⟩

@[simp] theorem EventArgs.args_toDevice (a : EventArgs) : a.toDevice.args = a := rfl

structure HostEvent where
  obj : Nat
  type : EventType
  lookahead : Nat
  payload : Option Nat
  deriving DecidableEq, Repr

/-- `Scheduler::Event::impl`: an ns-3 callback, or a `HostEvent` cast to an `EventImpl`. -/
inductive EventImpl where
  | callback (id : Nat)
  | hostEvent (ev : HostEvent)
  deriving DecidableEq, Repr

def EventImpl.isHostEvent : EventImpl → Bool
  | .callback _ => false
  | .hostEvent _ => true

structure Event where
  impl : EventImpl
  ts : Nat
  context : Nat
  uid : Nat
  deriving DecidableEq, Repr

/-- `e` may be what `PeekNext` and `RemoveNext` return: the scheduler orders by timestamp
and then by uid. -/
def IsNext (m : List Event) (e : Event) : Prop :=
  e ∈ m ∧ ∀ f ∈ m, e.ts < f.ts ∨ (e.ts = f.ts ∧ e.uid ≤ f.uid)

theorem IsNext.ts_le {m : List Event} {e f : Event} (h : IsNext m e) (hf : f ∈ m) :
    e.ts ≤ f.ts := by
  rcases h.2 f hf with hlt | ⟨heq, _⟩
  · exact Nat.le_of_lt hlt
  · exact Nat.le_of_eq heq

theorem isNext_singleton (e : Event) : IsNext [e] e := by
  refine ⟨List.mem_singleton_self e, fun f hf => ?_⟩
  obtain rfl := List.mem_singleton.mp hf
  exact Or.inr ⟨rfl, Nat.le_refl _⟩

end CudaNs3.Elp
