import CudaNs3.Internet.RipTable

/-!
# Masks and routes of IPv4

What the static and the global routing tables have in common: an entry of a table, the route
that is made of it, and what a table asks of the IPv4 layer of its node.
-/

namespace CudaNs3.Internet

set_option autoImplicit false

universe u

/-- How many shifts to the left make the mask zero; `GetPrefixLength` shifts until then, and
after 32 of them nothing is left. -/
def shiftsToZero : Nat → Ipv4Mask → Nat
  | 0, _ => 0
  | n + 1, mask => if mask = 0 then 0 else shiftsToZero n (mask <<< 1) + 1

namespace Ipv4Mask

def getZero : Ipv4Mask := 0

def getOnes : Ipv4Mask := 0xffffffff

/-- The value of a mask that has not been given one. -/
def unset : Ipv4Mask := 0x66666666

def getPrefixLength (mask : Ipv4Mask) : Nat := shiftsToZero 32 mask

def isMatch (mask : Ipv4Mask) (a b : Ipv4Address) : Bool := a &&& mask = b &&& mask

end Ipv4Mask

namespace Ipv4Address

def unset : Ipv4Address := 0x66666666

def isLocalMulticast (a : Ipv4Address) : Bool := a &&& 0xffffff00 = 0xe0000000

end Ipv4Address

theorem shiftsToZero_le (n : Nat) (mask : Ipv4Mask) : shiftsToZero n mask ≤ n := by
  induction n generalizing mask with
  | zero => exact Nat.le_refl 0
  | succ n ih =>
    unfold shiftsToZero
    split
    · exact Nat.zero_le _
    · exact Nat.succ_le_succ (ih _)

theorem shiftsToZero_spec (n : Nat) (mask : Ipv4Mask) (h : mask <<< n = 0) :
    mask <<< shiftsToZero n mask = 0 ∧ ∀ k < shiftsToZero n mask, mask <<< k ≠ 0 := by
  induction n generalizing mask with
  | zero =>
    refine ⟨h, ?_⟩
    intro k hk
    exact absurd hk (Nat.not_lt_zero k)
  | succ n ih =>
    unfold shiftsToZero
    by_cases hmask : mask = 0
    · rw [if_pos hmask]
      refine ⟨by rw [hmask]; rfl, ?_⟩
      intro k hk
      exact absurd hk (Nat.not_lt_zero k)
    · rw [if_neg hmask]
      have hshift (k : Nat) : mask <<< (k + 1) = mask <<< 1 <<< k := by
        rw [Nat.add_comm, BitVec.shiftLeft_add]
      obtain ⟨hzero, hmin⟩ := ih (mask <<< 1) (by rw [← hshift]; exact h)
      refine ⟨by rw [hshift]; exact hzero, ?_⟩
      intro k hk
      cases k with
      | zero => rwa [BitVec.shiftLeft_zero]
      | succ k =>
        rw [hshift]
        exact hmin k (Nat.lt_of_succ_lt_succ hk)

namespace Ipv4Mask

theorem getPrefixLength_le (mask : Ipv4Mask) : mask.getPrefixLength ≤ 32 := shiftsToZero_le 32 mask

/-- The loop of `GetPrefixLength` ends there, and not before. -/
theorem getPrefixLength_spec (mask : Ipv4Mask) :
    mask <<< mask.getPrefixLength = 0 ∧ ∀ k < mask.getPrefixLength, mask <<< k ≠ 0 :=
  shiftsToZero_spec 32 mask (BitVec.shiftLeft_eq_zero (Nat.le_refl 32))

end Ipv4Mask

structure Ipv4RoutingTableEntry where
  dest : Ipv4Address
  destNetworkMask : Ipv4Mask
  gateway : Ipv4Address
  interface : Nat
deriving DecidableEq

namespace Ipv4RoutingTableEntry

def createHostRouteTo (dest nextHop : Ipv4Address) (interface : Nat) : Ipv4RoutingTableEntry :=
  ⟨dest, .getOnes, nextHop, interface⟩

/-- The overload without a next hop. -/
def createHostRouteOn (dest : Ipv4Address) (interface : Nat) : Ipv4RoutingTableEntry :=
  ⟨dest, .getOnes, 0, interface⟩

def createNetworkRouteTo (network : Ipv4Address) (networkMask : Ipv4Mask) (nextHop : Ipv4Address)
    (interface : Nat) : Ipv4RoutingTableEntry :=
  ⟨network, networkMask, nextHop, interface⟩

def createNetworkRouteOn (network : Ipv4Address) (networkMask : Ipv4Mask) (interface : Nat) :
    Ipv4RoutingTableEntry :=
  ⟨network, networkMask, 0, interface⟩

def isHost (e : Ipv4RoutingTableEntry) : Bool := e.destNetworkMask = .getOnes

def isNetwork (e : Ipv4RoutingTableEntry) : Bool := !e.isHost

/-- The mask of the entry matches the destination with its network. -/
def isMatch (e : Ipv4RoutingTableEntry) (dest : Ipv4Address) : Bool :=
  e.destNetworkMask.isMatch dest e.dest

end Ipv4RoutingTableEntry

/-- The IPv4 layer of the node, as far as a table asks it about the interfaces that its routes
name. -/
structure Ipv4 (Device : Type u) where
  getNetDevice : Nat → Device
  getInterfaceForDevice : Device → Nat
  /-- the local address of `GetAddress(interface, 0)` -/
  firstAddress : Nat → Ipv4Address
  sourceAddressSelection : Nat → Ipv4Address → Ipv4Address

structure Ipv4Route (Device : Type u) where
  destination : Ipv4Address
  source : Ipv4Address
  gateway : Ipv4Address
  outputDevice : Device
deriving DecidableEq

namespace Ipv4

variable {Device : Type u} [DecidableEq Device]

/-- Without an output device every interface will do. -/
def onDevice (ipv4 : Ipv4 Device) (oif : Option Device) (interface : Nat) : Bool :=
  match oif with
  | none => true
  | some device => device = ipv4.getNetDevice interface

end Ipv4

end CudaNs3.Internet
