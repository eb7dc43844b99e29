import Mathlib.Data.BitVec
import Mathlib.Data.UInt

/-!
# IPv6 addresses and headers

The fields that the neighbour cache and fragmentation use.
-/

namespace CudaNs3.Internet

set_option autoImplicit false

abbrev Ipv6Address := BitVec 128

namespace Ipv6Address

def isAny (a : Ipv6Address) : Bool := a = 0

/-- The prefix is that of `fe80::`, 64 bits long. -/
def isLinkLocal (a : Ipv6Address) : Bool := a >>> 64 = 0xfe80000000000000

def isMulticast (a : Ipv6Address) : Bool := a >>> 120 = 0xff

end Ipv6Address

structure Ipv6Header where
  nextHeader : UInt8
  payloadLength : BitVec 16
  source : Ipv6Address
  destination : Ipv6Address
  deriving DecidableEq

namespace Ipv6Header

def extHopByHop : UInt8 := 0

def extRouting : UInt8 := 43

def extFragmentation : UInt8 := 44

def extDestination : UInt8 := 60

def setNextHeader (h : Ipv6Header) (next : UInt8) : Ipv6Header := { h with nextHeader := next }

def setPayloadLength (h : Ipv6Header) (len : BitVec 16) : Ipv6Header :=
  { h with payloadLength := len }

def getSerializedSize : BitVec 32 := 40

end Ipv6Header
end CudaNs3.Internet
