import CudaNs3.Device.Encapsulation
import CudaNs3.Device.Topology

/-!
# The two ways to prepend the IPv4 and UDP headers

`Send` writes both headers byte by byte, the UDP header in network order; `OptimizeSend`
fills two structs of a little-endian device. Addresses are stored natively by both.
-/

namespace CudaNs3.Device

set_option autoImplicit false

def be16 (x : UInt16) : List UInt8 := [(x >>> 8).toUInt8, x.toUInt8]

/-- What the caller passes down, with the length that goes into the UDP header. -/
structure HeaderFields where
  saddr : UInt32
  daddr : UInt32
  sport : UInt16
  dport : UInt16
  udpLength : UInt16
  deriving DecidableEq

/-- `udp_header` of `CudaUdpL4Protocol::Send`. -/
def udpHeader (f : HeaderFields) : List UInt8 :=
  be16 f.sport ++ be16 f.dport ++ be16 f.udpLength ++ [0, 0]

/-- `ipHeader` of `CudaIpv4L3Protocol::Send`. It is an array on the stack of which the bytes
5, 7, 10 and 11 are not written. -/
def ipHeader (stack : Nat → UInt8) (size : Nat) (source destination : UInt32) (protocol : UInt8) :
    List UInt8 :=
  [0x05, 0x45, .ofNat (size >>> 8), .ofNat (size &&& 0xFF), 0, stack 5, 0, stack 7, 64, protocol,
    stack 10, stack 11] ++ le32 source ++ le32 destination

namespace CudaPacket

/-- `CudaIpv4L3Protocol::Send` up to `CudaNetDevice::Send`; `CudaIpv4Interface::Send` adds the
header. -/
def ipv4Send (topo : Topology) (l3 : Nat) (stack : Nat → UInt8) (p : CudaPacket)
    (source destination : UInt32) (protocol : UInt8) : CudaPacket :=
  match topo.outInterface l3 destination with
  | none => p
  | some _ => p.addHeader (ipHeader stack p.size source destination protocol)

def udpFields (p : CudaPacket) (saddr daddr : UInt32) (sport dport : UInt16) : HeaderFields :=
  ⟨saddr, daddr, sport, dport, .ofNat (p.size + 8)⟩

/-- The headers of `CudaUdpL4Protocol::Send`, which passes 0 as the protocol. -/
def udpSend (topo : Topology) (l3 : Nat) (stack : Nat → UInt8) (p : CudaPacket)
    (saddr daddr : UInt32) (sport dport : UInt16) : CudaPacket :=
  (p.addHeader (udpHeader (p.udpFields saddr daddr sport dport))).ipv4Send topo l3 stack saddr
    daddr 0

/-- The headers of `CudaUdpL4Protocol::OptimizeSend`. -/
def udpOptimizeSend (l : Locals) (p : CudaPacket) (saddr daddr : UInt32) (sport dport : UInt16) :
    CudaPacket :=
  p.addHeader (combinedIpUdpHeaders l p.size saddr daddr sport dport)

/-- The 28 bytes in front of the payload. -/
def headers (p : CudaPacket) : List UInt8 := Bytes.read p.data p.offset 28

end CudaPacket

def readBe16 (bs : List UInt8) (i : Nat) : UInt16 :=
  .ofNat (256 * (bs.getD i 0).toNat + (bs.getD (i + 1) 0).toNat)

def readLe32 (bs : List UInt8) (i : Nat) : UInt32 :=
  .ofNat ((bs.getD i 0).toNat + 256 * (bs.getD (i + 1) 0).toNat +
    65536 * (bs.getD (i + 2) 0).toNat + 16777216 * (bs.getD (i + 3) 0).toNat)

/-- The fields at their places, read as `Send` writes them. -/
def decodeHeaders (bs : List UInt8) : HeaderFields :=
  ⟨readLe32 bs 12, readLe32 bs 16, readBe16 bs 20, readBe16 bs 22, readBe16 bs 24⟩

/-- `optimised` carries the headers `plain` carries, and they say what the caller said. -/
structure HeadersAgree (f : HeaderFields) (plain optimised : CudaPacket) : Prop where
  bytes : optimised.headers = plain.headers
  decoded : decodeHeaders optimised.headers = f

theorem readBe16_be16 (x : UInt16) : UInt16.ofNat (256 * (x >>> 8).toUInt8.toNat + x.toUInt8.toNat)
    = x := by
  apply UInt16.toNat_inj.mp
  have hx := x.toNat_lt
  simp [Nat.shiftRight_eq_div_pow]
  omega

theorem readLe32_le32 (x : UInt32) :
    UInt32.ofNat (x.toUInt8.toNat + 256 * (x >>> 8).toUInt8.toNat +
      65536 * (x >>> 16).toUInt8.toNat + 16777216 * (x >>> 24).toUInt8.toNat) = x := by
  apply UInt32.toNat_inj.mp
  have hx := x.toNat_lt
  simp [Nat.shiftRight_eq_div_pow]
  omega

theorem decodeHeaders_send (stack : Nat → UInt8) (size : Nat) (protocol : UInt8)
    (f : HeaderFields) :
    decodeHeaders (ipHeader stack size f.saddr f.daddr protocol ++ udpHeader f) = f := by
  unfold decodeHeaders
  congr
  · exact readLe32_le32 f.saddr
  · exact readLe32_le32 f.daddr
  · exact readBe16_be16 f.sport
  · exact readBe16_be16 f.dport
  · exact readBe16_be16 f.udpLength

/-- A 16-bit value in the byte order of the device, read in network order. -/
def swap16 (x : UInt16) : UInt16 := .ofNat (256 * x.toUInt8.toNat + (x >>> 8).toUInt8.toNat)

/-- Every field is found where another one belongs: the destination port is in the source
address and in the length, and the length is nowhere. -/
theorem decodeHeaders_optimizeSend (l : Locals) (size : Nat) (saddr daddr : UInt32)
    (sport dport : UInt16) :
    decodeHeaders (combinedIpUdpHeaders l size saddr daddr sport dport) =
      ⟨dport.toUInt32, saddr, swap16 daddr.toUInt16, swap16 sport, swap16 dport⟩ := by
  simp only [decodeHeaders, HeaderFields.mk.injEq]
  refine ⟨readLe32_le32 dport.toUInt32, readLe32_le32 saddr, ?_, ?_, ?_⟩
  · rfl
  · rfl
  · rfl

namespace CudaPacket

section Fits
variable {p : CudaPacket} (hcap : 28 + p.size ≤ maxPacketSize) (hroom : 28 ≤ p.offset)
  (hoff : p.offset ≤ maxPacketSize)
include hcap hroom hoff

theorem headers_addHeader {h : List UInt8} (hlen : h.length = 28) :
    (p.addHeader h).headers = h := by
  have hoff' := addHeader_offset (p := p) (h := h) (by omega) (by omega) hoff
  have hdata := addHeader_data (p := p) (h := h) (by omega) (by omega) hoff
  unfold headers
  rw [hoff', hdata, ← hlen]
  exact Bytes.read_write _ _ _

theorem headers_udpSend {topo : Topology} {l3 : Nat} (stack : Nat → UInt8) {daddr : UInt32}
    (hroute : (topo.outInterface l3 daddr).isSome) (saddr : UInt32) (sport dport : UInt16) :
    (p.udpSend topo l3 stack saddr daddr sport dport).headers =
      ipHeader stack p.size saddr daddr 0 ++ udpHeader (p.udpFields saddr daddr sport dport) := by
  obtain ⟨itf, hitf⟩ := Option.isSome_iff_exists.mp hroute
  have hudp : (udpHeader (p.udpFields saddr daddr sport dport)).length = 8 := rfl
  unfold udpSend
  generalize udpHeader (p.udpFields saddr daddr sport dport) = udp at hudp ⊢
  have hoff₁ := addHeader_offset (p := p) (h := udp) (by omega) (by omega) hoff
  have hdata₁ := addHeader_data (p := p) (h := udp) (by omega) (by omega) hoff
  have hsize₁ := addHeader_size p udp
  generalize p.addHeader udp = q at hoff₁ hdata₁ hsize₁ ⊢
  have hip : (ipHeader stack q.size saddr daddr 0).length = 20 := rfl
  simp only [ipv4Send, hitf, ← hsize₁]
  generalize ipHeader stack q.size saddr daddr 0 = ip at hip ⊢
  have hoff₂ := addHeader_offset (p := q) (h := ip) (by omega) (by omega) (by omega)
  have hdata₂ := addHeader_data (p := q) (h := ip) (by omega) (by omega) (by omega)
  unfold headers
  rw [hoff₂, hdata₂, hip, Bytes.read_add _ _ 20 8]
  congr 1
  · exact hip ▸ Bytes.read_write _ _ _
  · have hat : q.offset - 20 + 20 = p.offset - udp.length := by omega
    rw [hat, Bytes.read_write_of_le _ (by omega), hdata₁]
    exact hudp ▸ Bytes.read_write _ _ _

end Fits

end CudaPacket

open CudaPacket

/-- The two headers of an IPv4 packet already differ in the high byte of the total length: the
protocol number on the one path, and on the other one at most 7. -/
theorem combined_ne_plain (l : Locals) (stack : Nat → UInt8) {size : Nat}
    (hcap : 28 + size ≤ maxPacketSize) (f : HeaderFields) (saddr daddr : UInt32)
    (sport dport : UInt16) :
    combinedIpUdpHeaders l size saddr daddr sport dport ≠
      ipHeader stack size saddr daddr 0 ++ udpHeader f := by
  intro h
  have hbyte : (17 : UInt8) = .ofNat (size >>> 8) := Option.some.inj (congrArg (·[2]?) h)
  have hnat := congrArg UInt8.toNat hbyte
  simp only [UInt8.toNat_ofNat', Nat.shiftRight_eq_div_pow, maxPacketSize] at hnat hcap
  simp at hnat
  omega

/-- Two hosts, 1024 bytes from address 0 port 1 to address 1 port 9. -/
theorem optimised_headers_differ :
    ¬ HeadersAgree ((free.construct.setSize 1024).udpFields 0 1 1 9)
      ((free.construct.setSize 1024).udpSend (.twoHosts 2000) 0 (fun _ => 0) 0 1 1 9)
      ((free.construct.setSize 1024).udpOptimizeSend .zero 0 1 1 9) := by
  intro h
  exact absurd h.bytes (by decide)

/-- `OptimizeSend` never writes what `Send` writes, for no packet that has room for the headers
and whatever the arguments, the route and the bytes found on the stack. -/
theorem headers_never_agree (topo : Topology) (l3 : Nat) (p : CudaPacket)
    (hcap : 28 + p.size ≤ maxPacketSize) (hroom : 28 ≤ p.offset) (hoff : p.offset ≤ maxPacketSize)
    (stack : Nat → UInt8) (l : Locals) (saddr daddr : UInt32) (sport dport : UInt16)
    (hroute : (topo.outInterface l3 daddr).isSome) :
    ¬ HeadersAgree (p.udpFields saddr daddr sport dport)
      (p.udpSend topo l3 stack saddr daddr sport dport)
      (p.udpOptimizeSend l saddr daddr sport dport) := by
  intro h
  have hbytes := h.bytes
  rw [headers_udpSend hcap hroom hoff stack hroute, udpOptimizeSend,
    headers_addHeader hcap hroom hoff (length_combinedIpUdpHeaders _ _ _ _ _ _)] at hbytes
  exact combined_ne_plain l stack hcap _ saddr daddr sport dport hbytes

theorem headers_never_agree_two_hosts :
    ¬ HeadersAgree ((free.construct.setSize 1024).udpFields 0 1 1 9)
      ((free.construct.setSize 1024).udpSend (.twoHosts 2000) 0 (fun _ => 7) 0 1 1 9)
      ((free.construct.setSize 1024).udpOptimizeSend .zero 0 1 1 9) :=
  headers_never_agree _ _ _ (by decide) (by decide) (by decide) _ _ _ _ _ _ (by decide)

end CudaNs3.Device
