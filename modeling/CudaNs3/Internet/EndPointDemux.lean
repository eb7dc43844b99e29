import CudaNs3.Internet.RipTable
import Mathlib.Data.List.Pairwise

/-!
# Transport demultiplexing

The end points of `Ipv4EndPointDemux`, and the lookup that finds the ones a packet is for. There
are four classes of matches; the end points of the first class that has any are returned, and
two of them in one class are an abort. The duplicates that `Allocate` refuses do not include an
end point without a device beside one with a device.
-/

namespace CudaNs3.Internet

set_option autoImplicit false

universe u

abbrev Port := BitVec 16

/-- An end point at its address; the device is the one it has been bound to. -/
structure Ipv4EndPoint (Device : Type u) where
  ptr : Nat
  localAddr : Ipv4Address
  localPort : Port
  peerAddr : Ipv4Address := 0
  peerPort : Port := 0
  boundNetDevice : Option Device := none
  rxEnabled : Bool := true
deriving DecidableEq

/-- The interface a packet came in on. -/
structure Ipv4Interface (Device : Type u) where
  device : Device
  addresses : List Ipv4InterfaceAddress

structure FourTuple where
  daddr : Ipv4Address
  dport : Port
  saddr : Ipv4Address
  sport : Port

structure Ipv4EndPointDemux (Device : Type u) where
  ephemeral : Port := 49152
  portLast : Port := 65535
  portFirst : Port := 49152
  endPoints : List (Ipv4EndPoint Device) := []
  nextPtr : Nat := 0
deriving DecidableEq

/-- The calls; an allocated end point is bound to the device that is given. -/
inductive DemuxOp (Device : Type u) where
  | allocate (boundNetDevice : Option Device)
  | allocateAddress (boundNetDevice : Option Device) (address : Ipv4Address)
  | allocatePort (boundNetDevice : Option Device) (port : Port)
  | allocateLocal (boundNetDevice : Option Device) (address : Ipv4Address) (port : Port)
  | allocatePeer (boundNetDevice : Option Device) (localAddress : Ipv4Address) (localPort : Port)
      (peerAddress : Ipv4Address) (peerPort : Port)
  | setPeer (ptr : Nat) (address : Ipv4Address) (port : Port)
  | deAllocate (ptr : Nat)

variable {Device : Type u}

namespace Ipv4EndPointDemux

/-! ### Allocation -/

section Allocation

variable [DecidableEq Device]

def lookupPortLocal (s : Ipv4EndPointDemux Device) (port : Port) : Bool :=
  s.endPoints.any fun e => e.localPort = port

def lookupLocal (s : Ipv4EndPointDemux Device) (boundNetDevice : Option Device)
    (addr : Ipv4Address) (port : Port) : Bool :=
  s.endPoints.any fun e =>
    e.localPort = port && e.localAddr = addr && e.boundNetDevice = boundNetDevice

/-- The port after another one, around the range. -/
def portAfter (s : Ipv4EndPointDemux Device) (port : Port) : Port :=
  let port := port + 1
  if port < s.portFirst ∨ port > s.portLast then s.portFirst else port

/-- The loop of `AllocateEphemeralPort` with so many tries left; zero is returned when there is
none. -/
def tryPorts (s : Ipv4EndPointDemux Device) : Nat → Port → Port
  | 0, _ => 0
  | count + 1, port =>
    let port := s.portAfter port
    if s.lookupPortLocal port then tryPorts s count port else port

/-- The counter of the loop goes from the width of the range down to zero. -/
def allocateEphemeralPort (s : Ipv4EndPointDemux Device) : Ipv4EndPointDemux Device × Port :=
  let port := s.tryPorts (s.portLast.toNat - s.portFirst.toNat + 1) s.ephemeral
  if port = 0 then (s, 0) else ({ s with ephemeral := port }, port)

/-- A new end point, which its caller binds to a device. -/
def pushBack (s : Ipv4EndPointDemux Device) (e : Ipv4EndPoint Device) : Ipv4EndPointDemux Device :=
  { s with endPoints := s.endPoints ++ [{ e with ptr := s.nextPtr }], nextPtr := s.nextPtr + 1 }

/-- With an ephemeral port; an allocation that fails leaves the list as it is. -/
def allocateAddress (s : Ipv4EndPointDemux Device) (boundNetDevice : Option Device)
    (address : Ipv4Address) : Ipv4EndPointDemux Device :=
  let (s, port) := s.allocateEphemeralPort
  if port = 0 then s
  else s.pushBack
    { ptr := 0, localAddr := address, localPort := port, boundNetDevice := boundNetDevice }

def allocate (s : Ipv4EndPointDemux Device) (boundNetDevice : Option Device) :
    Ipv4EndPointDemux Device :=
  s.allocateAddress boundNetDevice 0

def allocateLocal (s : Ipv4EndPointDemux Device) (boundNetDevice : Option Device)
    (address : Ipv4Address) (port : Port) : Ipv4EndPointDemux Device :=
  if s.lookupLocal boundNetDevice address port || s.lookupLocal none address port then s
  else s.pushBack
    { ptr := 0, localAddr := address, localPort := port, boundNetDevice := boundNetDevice }

def allocatePort (s : Ipv4EndPointDemux Device) (boundNetDevice : Option Device) (port : Port) :
    Ipv4EndPointDemux Device :=
  s.allocateLocal boundNetDevice 0 port

def allocatePeer (s : Ipv4EndPointDemux Device) (boundNetDevice : Option Device)
    (localAddress : Ipv4Address) (localPort : Port) (peerAddress : Ipv4Address) (peerPort : Port) :
    Ipv4EndPointDemux Device :=
  if s.endPoints.any fun e =>
      e.localPort = localPort && e.localAddr = localAddress && e.peerPort = peerPort &&
        e.peerAddr = peerAddress &&
          (e.boundNetDevice = boundNetDevice || e.boundNetDevice.isNone) then s
  else s.pushBack
    { ptr := 0, localAddr := localAddress, localPort := localPort, peerAddr := peerAddress,
      peerPort := peerPort, boundNetDevice := boundNetDevice }

def setPeer (s : Ipv4EndPointDemux Device) (ptr : Nat) (address : Ipv4Address) (port : Port) :
    Ipv4EndPointDemux Device :=
  { s with
    endPoints := s.endPoints.map fun e =>
      if e.ptr = ptr then { e with peerAddr := address, peerPort := port } else e }

def deAllocate (s : Ipv4EndPointDemux Device) (ptr : Nat) : Ipv4EndPointDemux Device :=
  { s with endPoints := s.endPoints.eraseP fun e => e.ptr = ptr }

def perform (s : Ipv4EndPointDemux Device) : DemuxOp Device → Ipv4EndPointDemux Device
  | .allocate boundNetDevice => s.allocate boundNetDevice
  | .allocateAddress boundNetDevice address => s.allocateAddress boundNetDevice address
  | .allocatePort boundNetDevice port => s.allocatePort boundNetDevice port
  | .allocateLocal boundNetDevice address port => s.allocateLocal boundNetDevice address port
  | .allocatePeer boundNetDevice localAddress localPort peerAddress peerPort =>
    s.allocatePeer boundNetDevice localAddress localPort peerAddress peerPort
  | .setPeer ptr address port => s.setPeer ptr address port
  | .deAllocate ptr => s.deAllocate ptr

def run (s : Ipv4EndPointDemux Device) : List (DemuxOp Device) → Ipv4EndPointDemux Device
  | [] => s
  | op :: ops => (s.perform op).run ops

end Allocation

end Ipv4EndPointDemux

/-! ### The lookup -/

namespace Ipv4EndPoint

variable [DecidableEq Device] (e : Ipv4EndPoint Device) (p : FourTuple) (i : Ipv4Interface Device)

def localAddressMatchesExact : Bool := e.localAddr = p.daddr

def localAddressIsAny : Bool := !e.localAddressMatchesExact p && e.localAddr = 0

/-- The end point is bound to the network of an address of the interface, and the packet goes to
that network. -/
def localAddressIsSubnetAny : Bool :=
  !e.localAddressMatchesExact p && !e.localAddressIsAny p &&
    i.addresses.any fun addr =>
      e.localAddr = addr.networkAddress && addr.networkAddress = p.daddr.combineMask addr.mask

def localAddressMatchesWildCard : Bool := e.localAddressIsAny p || e.localAddressIsSubnetAny p i

def remotePortMatchesExact : Bool := e.peerPort = p.sport

def remotePortMatchesWildCard : Bool := e.peerPort = 0

def remoteAddressMatchesExact : Bool := e.peerAddr = p.saddr

def remoteAddressMatchesWildCard : Bool := e.peerAddr = 0

/-- The end point is not passed over by the loop. -/
def isMatch : Bool :=
  e.rxEnabled && e.localPort = p.dport &&
    (match e.boundNetDevice with
      | none => true
      | some device => device = i.device) &&
    (e.localAddressMatchesExact p || e.localAddressMatchesWildCard p i) &&
    (e.remotePortMatchesExact p || e.remotePortMatchesWildCard) &&
    (e.remoteAddressMatchesExact p || e.remoteAddressMatchesWildCard)

end Ipv4EndPoint

namespace Ipv4EndPointDemux

section Lookup

variable [DecidableEq Device] (s : Ipv4EndPointDemux Device) (p : FourTuple)
  (i : Ipv4Interface Device)

/-- Exact match on all 4. -/
def retval4 : List (Ipv4EndPoint Device) :=
  s.endPoints.filter fun e => e.isMatch p i && e.localAddressMatchesExact p &&
    e.remoteAddressMatchesExact p && e.remotePortMatchesExact p

/-- Matches all but local address. -/
def retval3 : List (Ipv4EndPoint Device) :=
  s.endPoints.filter fun e => e.isMatch p i && e.localAddressMatchesWildCard p i &&
    e.remoteAddressMatchesExact p && e.remotePortMatchesExact p

/-- Matches exact on local port and address, wildcards on others. -/
def retval2 : List (Ipv4EndPoint Device) :=
  s.endPoints.filter fun e => e.isMatch p i && e.localAddressMatchesExact p &&
    e.remoteAddressMatchesWildCard && e.remotePortMatchesWildCard

/-- Matches exact on local port, wildcards on others. -/
def retval1 : List (Ipv4EndPoint Device) :=
  s.endPoints.filter fun e => e.isMatch p i && e.localAddressMatchesWildCard p i &&
    e.remoteAddressMatchesWildCard && e.remotePortMatchesWildCard

def mostExact : List (Ipv4EndPoint Device) :=
  if s.retval4 p i ≠ [] then s.retval4 p i
  else if s.retval3 p i ≠ [] then s.retval3 p i
  else if s.retval2 p i ≠ [] then s.retval2 p i
  else s.retval1 p i

/-- `none` is the abort for too many end points. -/
def lookup : Option (List (Ipv4EndPoint Device)) :=
  if (s.mostExact p i).length > 1 then none else some (s.mostExact p i)

end Lookup

/-! ### What a table keeps -/

variable {s : Ipv4EndPointDemux Device}

structure Inv (s : Ipv4EndPointDemux Device) : Prop where
  nodup : s.endPoints.Pairwise fun e x => e.ptr ≠ x.ptr
  ptr_lt : ∀ e ∈ s.endPoints, e.ptr < s.nextPtr
  portFirst_eq : s.portFirst = 49152
  portLast_eq : s.portLast = 65535
  le_ephemeral : 49152 ≤ s.ephemeral.toNat

theorem Inv.new : ({} : Ipv4EndPointDemux Device).Inv where
  nodup := .nil
  ptr_lt _ he := absurd he List.not_mem_nil
  portFirst_eq := rfl
  portLast_eq := rfl
  le_ephemeral := Nat.le_refl _

theorem Inv.pushBack (h : s.Inv) (e : Ipv4EndPoint Device) : (s.pushBack e).Inv where
  nodup := by
    refine List.pairwise_append.mpr ⟨h.nodup, List.pairwise_singleton _ _, ?_⟩
    intro x hx y hy
    rw [List.mem_singleton.mp hy]
    exact (h.ptr_lt x hx).ne
  ptr_lt x hx := by
    rcases List.mem_append.mp hx with hx | hx
    · exact (h.ptr_lt x hx).trans (Nat.lt_succ_self _)
    · rw [List.mem_singleton.mp hx]
      exact Nat.lt_succ_self _
  portFirst_eq := h.portFirst_eq
  portLast_eq := h.portLast_eq
  le_ephemeral := h.le_ephemeral

theorem Inv.setPeer (h : s.Inv) (ptr : Nat) (address : Ipv4Address) (port : Port) :
    (s.setPeer ptr address port).Inv where
  nodup := by
    refine List.Pairwise.map _ ?_ h.nodup
    intro x y hxy
    split <;> split <;> exact hxy
  ptr_lt x hx := by
    obtain ⟨y, hy, rfl⟩ := List.mem_map.mp hx
    split <;> exact h.ptr_lt y hy
  portFirst_eq := h.portFirst_eq
  portLast_eq := h.portLast_eq
  le_ephemeral := h.le_ephemeral

theorem Inv.deAllocate (h : s.Inv) (ptr : Nat) : (s.deAllocate ptr).Inv where
  nodup := h.nodup.sublist List.eraseP_sublist
  ptr_lt e he := h.ptr_lt e (List.mem_of_mem_eraseP he)
  portFirst_eq := h.portFirst_eq
  portLast_eq := h.portLast_eq
  le_ephemeral := h.le_ephemeral

/-! ### Ephemeral ports -/

/-- The ports of the range, around and around. -/
def portAt (k : Nat) : Port := BitVec.ofNat 16 (49152 + k % 16384)

theorem portAt_toNat (k : Nat) : (portAt k).toNat = 49152 + k % 16384 := by
  rw [portAt, BitVec.toNat_ofNat]
  omega

theorem exists_portAt {port : Port} (h : 49152 ≤ port.toNat) : ∃ k < 16384, port = portAt k := by
  have hlt := port.isLt
  refine ⟨port.toNat - 49152, by omega, ?_⟩
  apply BitVec.eq_of_toNat_eq
  rw [portAt_toNat]
  omega

theorem Inv.portAfter_portAt (h : s.Inv) (k : Nat) : s.portAfter (portAt k) = portAt (k + 1) := by
  unfold portAfter
  dsimp only
  have hsucc : (portAt k + 1).toNat = (49152 + k % 16384 + 1) % 2 ^ 16 := by
    rw [BitVec.toNat_add, portAt_toNat]
    rfl
  have hfirst : s.portFirst.toNat = 49152 := by rw [h.portFirst_eq]; rfl
  have hlast : s.portLast.toNat = 65535 := by rw [h.portLast_eq]; rfl
  apply BitVec.eq_of_toNat_eq
  rw [portAt_toNat]
  split
  · rename_i hout
    rw [gt_iff_lt, BitVec.lt_def, BitVec.lt_def, hsucc, hfirst, hlast] at hout
    rw [hfirst]
    omega
  · rename_i hin
    rw [gt_iff_lt, BitVec.lt_def, BitVec.lt_def, hsucc, hfirst, hlast] at hin
    rw [hsucc]
    omega

theorem Inv.tryPorts_spec (h : s.Inv) (count k : Nat) :
    (s.tryPorts count (portAt k) = 0 ∧ ∀ j < count, s.lookupPortLocal (portAt (k + 1 + j))) ∨
      ∃ j < count, s.tryPorts count (portAt k) = portAt (k + 1 + j) ∧
        s.lookupPortLocal (portAt (k + 1 + j)) = false := by
  induction count generalizing k with
  | zero =>
    left
    refine ⟨rfl, ?_⟩
    intro j hj
    exact absurd hj (Nat.not_lt_zero j)
  | succ count ih =>
    unfold tryPorts
    rw [h.portAfter_portAt]
    dsimp only
    by_cases hused : s.lookupPortLocal (portAt (k + 1)) = true
    · rw [if_pos hused]
      rcases ih (k + 1) with ⟨hzero, hall⟩ | ⟨j, hj, heq, hfree⟩
      · left
        refine ⟨hzero, ?_⟩
        intro j hj
        cases j with
        | zero => exact hused
        | succ j =>
          have hport := hall j (by omega)
          rwa [show k + 1 + 1 + j = k + 1 + (j + 1) by omega] at hport
      · right
        refine ⟨j + 1, by omega, ?_⟩
        rw [show k + 1 + (j + 1) = k + 1 + 1 + j by omega]
        exact ⟨heq, hfree⟩
    · right
      rw [if_neg hused]
      exact ⟨0, Nat.succ_pos count, rfl, by simpa using hused⟩

/-- Zero is returned only when all ports of the range are in use, and otherwise a port of the
range that is not. -/
def EphemeralLaw (s : Ipv4EndPointDemux Device) : Prop :=
  ((s.allocateEphemeralPort.2 = 0 →
    ∀ port, s.portFirst ≤ port → port ≤ s.portLast → ∃ e ∈ s.endPoints, e.localPort = port) ∧
  (s.allocateEphemeralPort.2 ≠ 0 →
    s.portFirst ≤ s.allocateEphemeralPort.2 ∧ s.allocateEphemeralPort.2 ≤ s.portLast ∧
      ∀ e ∈ s.endPoints, e.localPort ≠ s.allocateEphemeralPort.2))

theorem lookupPortLocal_iff {port : Port} :
    s.lookupPortLocal port = true ↔ ∃ e ∈ s.endPoints, e.localPort = port := by
  simp [lookupPortLocal]

theorem snd_allocateEphemeralPort (s : Ipv4EndPointDemux Device) : s.allocateEphemeralPort.2 =
    s.tryPorts (s.portLast.toNat - s.portFirst.toNat + 1) s.ephemeral := by
  unfold allocateEphemeralPort
  dsimp only
  split
  · rename_i h
    exact h.symm
  · rfl

theorem Inv.ephemeralLaw (h : s.Inv) : s.EphemeralLaw := by
  have hfirst : s.portFirst.toNat = 49152 := by rw [h.portFirst_eq]; rfl
  have hlast : s.portLast.toNat = 65535 := by rw [h.portLast_eq]; rfl
  obtain ⟨k, hk, hstart⟩ := exists_portAt h.le_ephemeral
  have hcount : s.portLast.toNat - s.portFirst.toNat + 1 = 16384 := by omega
  have hspec := h.tryPorts_spec 16384 k
  unfold EphemeralLaw
  rw [snd_allocateEphemeralPort, hcount, hstart]
  rcases hspec with ⟨hzero, hall⟩ | ⟨j, hj, heq, hfree⟩
  · refine ⟨?_, fun hne => absurd hzero hne⟩
    intro _ port hge _
    have hge' : 49152 ≤ port.toNat := by
      rw [BitVec.le_def, hfirst] at hge
      exact hge
    obtain ⟨m, hm, rfl⟩ := exists_portAt hge'
    -- the tries went once around, from the one after the last port given out
    have hused := hall ((m + 16384 - (k + 1)) % 16384) (Nat.mod_lt _ (by omega))
    have hsame : portAt (k + 1 + (m + 16384 - (k + 1)) % 16384) = portAt m := by
      apply BitVec.eq_of_toNat_eq
      rw [portAt_toNat, portAt_toNat]
      omega
    rw [hsame] at hused
    exact lookupPortLocal_iff.mp hused
  · rw [heq]
    have hnat := portAt_toNat (k + 1 + j)
    refine ⟨?_, fun _ => ⟨?_, ?_, ?_⟩⟩
    · intro hzero
      rw [hzero] at hnat
      have h0 : (0 : Port).toNat = 0 := rfl
      omega
    · rw [BitVec.le_def, hfirst]
      omega
    · rw [BitVec.le_def, hlast]
      omega
    · intro e he hport
      have hused := lookupPortLocal_iff.mpr ⟨e, he, hport⟩
      rw [hfree] at hused
      exact Bool.false_ne_true hused

end Ipv4EndPointDemux

end CudaNs3.Internet
