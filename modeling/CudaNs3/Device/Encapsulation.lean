import CudaNs3.Device.Packet

/-!
# Encapsulation and decapsulation

The journey of one packet: the client's `SetSize` and headers, any number of bridges, and
the receiving host. Every bounds check compares a header with the size of the payload, so a
payload below the 20 bytes of an IPv4 header is not delivered where it was put.
-/

namespace CudaNs3.Device

set_option autoImplicit false

namespace CudaPacket

/-- The addresses of an outgoing packet, as its headers and its first link carry them. -/
structure Addresses where
  saddr : UInt32
  daddr : UInt32
  sport : UInt16
  dport : UInt16
  src : MACAddress
  dst : MACAddress

def Addresses.zero : Addresses := ⟨0, 0, 0, 0, .zero, .zero⟩

/-- `OptimizeSend` and `SendFrom`. -/
def encapsulate (p : CudaPacket) (a : Addresses) (l : Locals) : CudaPacket :=
  (p.addHeader (combinedIpUdpHeaders l p.size a.saddr a.daddr a.sport a.dport)).addLinkHeader
    a.src a.dst

/-- A bridge hop for each element: `d_Receive` at one port, `SendFrom` at another with the
addresses extracted. Returned with them, as destination and source. -/
def relay (p : CudaPacket) : List Locals → CudaPacket × List (MACAddress × MACAddress)
  | [] => (p, [])
  | l :: hops =>
    let (q, dst, src) := p.stripLinkHeader l
    let (r, seen) := (q.addLinkHeader src dst).relay hops
    (r, (dst, src) :: seen)

/-- The hops, and then `d_Receive`, `d_LocalDeliver` and `Receive` at the host. -/
def decapsulate (p : CudaPacket) (hops : List Locals) (l : Locals) :
    CudaPacket × List (MACAddress × MACAddress) :=
  let (q, seen) := p.relay hops
  let (r, dst, src) := q.stripLinkHeader l
  (r.stripIpUdpHeaders, seen ++ [(dst, src)])

/-- What the server is to find of the packet `p` that the client filled. -/
structure Intact (p : CudaPacket) (a : Addresses)
    (r : CudaPacket × List (MACAddress × MACAddress)) :
    Prop where
  data : r.1.offset = p.offset
  payload : r.1.payload = p.payload
  size : r.1.size = p.size
  addresses : ∀ e ∈ r.2, e = (a.dst, a.src)

theorem setSize_fields (p : CudaPacket) {n : Nat} (h : n ≤ maxPacketSize) :
    (p.setSize n).size = n ∧ (p.setSize n).offset = maxPacketSize - n := by
  simp [setSize, Nat.not_lt.mpr h]

section Fits
variable {p : CudaPacket} {h : List UInt8} (hcap : h.length + p.size ≤ maxPacketSize)
  (hroom : h.length ≤ p.offset) (hoff : p.offset ≤ maxPacketSize)
include hcap hroom hoff

theorem addHeader_offset : (p.addHeader h).offset = p.offset - h.length := by
  have hmax : maxPacketSize < UInt32.size := by decide
  have hshift : p.offset + (UInt32.size - h.length) = p.offset - h.length + UInt32.size := by omega
  simp only [addHeader, if_neg (Nat.not_lt.mpr hcap), hshift, Nat.add_mod_right]
  exact Nat.mod_eq_of_lt (by omega)

theorem addHeader_data :
    (p.addHeader h).data = Bytes.write p.data (p.offset - h.length) h := by
  rw [← addHeader_offset hcap hroom hoff]
  simp [addHeader, Nat.not_lt.mpr hcap]

end Fits

theorem removeHeader_offset {p : CudaPacket} {n : Nat} (hn : n ≤ p.size)
    (hoff : p.offset + n ≤ maxPacketSize) : (p.removeHeader n).offset = p.offset + n := by
  have hlt : p.offset + n < UInt32.size := Nat.lt_of_le_of_lt hoff (by decide)
  simp only [removeHeader, if_neg (Nat.not_lt.mpr hn)]
  exact Nat.mod_eq_of_lt hlt

theorem extractAddress_eq {p : CudaPacket} {old a : MACAddress} (hsize : 6 ≤ p.size)
    (h : Bytes.read p.data p.offset 6 = a.addr) : p.extractAddress old = a := by
  obtain ⟨addr, hlen⟩ := a
  simpa [extractAddress, extractPayload, Nat.not_lt.mpr hsize] using h

/-- `q` is `p` again: only bytes below the packet may have changed. -/
structure Kept (p q : CudaPacket) : Prop where
  size : q.size = p.size
  offset : q.offset = p.offset
  data : ∀ i, p.offset ≤ i → q.data i = p.data i

/-- `q` is `p` behind a link header. -/
structure Linked (p : CudaPacket) (src dst : MACAddress) (q : CudaPacket) : Prop where
  size : q.size = p.size
  offset : q.offset + 16 = p.offset
  data : ∀ i, p.offset ≤ i → q.data i = p.data i
  dst : Bytes.read q.data q.offset 6 = dst.addr
  src : Bytes.read q.data (q.offset + 6) 6 = src.addr

section Link
variable {p q : CudaPacket} {src dst : MACAddress} (hsize : 6 ≤ p.size)
  (hcap : p.size + 6 ≤ maxPacketSize) (hroom : 16 ≤ p.offset) (hoff : p.offset ≤ maxPacketSize)

include hcap hroom hoff in
theorem Kept.addLinkHeader (h : Kept p q) : Linked p src dst (q.addLinkHeader src dst) := by
  have hq := h.offset
  have hqsize := h.size
  have hsrc := src.length_addr
  have hdst := dst.length_addr
  have htype : (le32 0x0800).length = 4 := rfl
  unfold CudaPacket.addLinkHeader
  have hoff₁ := addHeader_offset (p := q) (h := le32 0x0800) (by omega) (by omega) (by omega)
  have hdata₁ := addHeader_data (p := q) (h := le32 0x0800) (by omega) (by omega) (by omega)
  have hsize₁ := addHeader_size q (le32 0x0800)
  generalize q.addHeader (le32 0x0800) = q₁ at hoff₁ hdata₁ hsize₁ ⊢
  have hoff₂ := addHeader_offset (p := q₁) (h := src.addr) (by omega) (by omega) (by omega)
  have hdata₂ := addHeader_data (p := q₁) (h := src.addr) (by omega) (by omega) (by omega)
  have hsize₂ := addHeader_size q₁ src.addr
  generalize q₁.addHeader src.addr = q₂ at hoff₂ hdata₂ hsize₂ ⊢
  have hoff₃ := addHeader_offset (p := q₂) (h := dst.addr) (by omega) (by omega) (by omega)
  have hdata₃ := addHeader_data (p := q₂) (h := dst.addr) (by omega) (by omega) (by omega)
  have hsize₃ := addHeader_size q₂ dst.addr
  refine ⟨by omega, by omega, fun i hi => ?_, ?_, ?_⟩
  · rw [hdata₃, Bytes.write_apply_of_le _ (by omega), hdata₂,
      Bytes.write_apply_of_le _ (by omega), hdata₁, Bytes.write_apply_of_le _ (by omega),
      h.data i hi]
  · rw [hdata₃, hoff₃]
    exact hdst ▸ Bytes.read_write _ _ _
  · have hat : q₂.offset - dst.addr.length + 6 = q₁.offset - src.addr.length := by omega
    rw [hdata₃, hoff₃, hat, Bytes.read_write_of_le _ (by omega), hdata₂]
    exact hsrc ▸ Bytes.read_write _ _ _

include hsize hoff in
theorem Linked.stripLinkHeader (h : Linked p src dst q) (l : Locals) :
    Kept p (q.stripLinkHeader l).1 ∧ (q.stripLinkHeader l).2 = (dst, src) := by
  have hq := h.offset
  have hqsize := h.size
  have hdst : q.extractAddress l.dst = dst := extractAddress_eq (by omega) h.dst
  have hoff₁ := removeHeader_offset (p := q) (n := 6) (by omega) (by omega)
  have hsrc : (q.removeHeader 6).extractAddress l.src = src := by
    apply extractAddress_eq
    · rw [removeHeader_size]
      omega
    · rw [removeHeader_data, hoff₁]
      exact h.src
  have hoff₂ := removeHeader_offset (p := q.removeHeader 6) (n := 6)
    (by rw [removeHeader_size]; omega) (by omega)
  have hoff₃ := removeHeader_offset (p := (q.removeHeader 6).removeHeader 6) (n := 4)
    (by simp only [removeHeader_size]; omega) (by omega)
  unfold CudaPacket.stripLinkHeader
  refine ⟨⟨?_, ?_, fun i hi => ?_⟩, ?_⟩
  · simpa using h.size
  · simp only
    omega
  · simpa using h.data i hi
  · simp only [hdst, hsrc]

include hsize hcap hroom hoff in
theorem Linked.relay (h : Linked p src dst q) (hops : List Locals) :
    Linked p src dst (q.relay hops).1 ∧ ∀ e ∈ (q.relay hops).2, e = (dst, src) := by
  induction hops generalizing q with
  | nil => exact ⟨h, by simp [CudaPacket.relay]⟩
  | cons l hops ih =>
    obtain ⟨hkept, haddr⟩ := h.stripLinkHeader hsize hoff l
    obtain ⟨hlinked, hseen⟩ := ih (hkept.addLinkHeader hcap hroom hoff)
    simp only [CudaPacket.relay, haddr]
    refine ⟨hlinked, fun e he => ?_⟩
    rcases List.mem_cons.mp he with rfl | he
    · rfl
    · exact hseen e he

include hsize hcap hroom hoff in
theorem Linked.decapsulate (h : Linked p src dst q) (hops : List Locals) (l : Locals) :
    (∃ r, Kept p r ∧ (q.decapsulate hops l).1 = r.stripIpUdpHeaders) ∧
      ∀ e ∈ (q.decapsulate hops l).2, e = (dst, src) := by
  obtain ⟨hlinked, hseen⟩ := h.relay hsize hcap hroom hoff hops
  obtain ⟨hkept, haddr⟩ := hlinked.stripLinkHeader hsize hoff l
  refine ⟨⟨_, hkept, rfl⟩, fun e he => ?_⟩
  rcases List.mem_append.mp he with he | he
  · exact hseen e he
  · exact (List.mem_singleton.mp he).trans haddr

end Link

theorem stripIpUdpHeaders_offset {p : CudaPacket} (hsize : 8 ≤ p.size)
    (hoff : p.offset + 28 ≤ maxPacketSize) :
    p.stripIpUdpHeaders.offset = if p.size < 20 then p.offset + 8 else p.offset + 28 := by
  unfold stripIpUdpHeaders
  by_cases h : p.size < 20
  · have hnoop : p.removeHeader 20 = p := by simp [removeHeader, h]
    rw [hnoop, removeHeader_offset hsize (by omega), if_pos h]
  · have hoff₁ := removeHeader_offset (p := p) (n := 20) (Nat.not_lt.mp h) (by omega)
    rw [removeHeader_offset (by simpa using hsize) (by omega), hoff₁, if_neg h]

theorem stripIpUdpHeaders_data (p : CudaPacket) : p.stripIpUdpHeaders.data = p.data := by
  simp [stripIpUdpHeaders]

end CudaPacket

open CudaPacket

/-- The smallest payload is delivered 20 bytes before it starts, still behind the IPv4 header
that `RemoveHeader` has refused to remove. -/
theorem short_payload_misplaced :
    ¬ Intact (CudaPacket.free.construct.setSize 12) .zero
      (((CudaPacket.free.construct.setSize 12).encapsulate .zero .zero).decapsulate [] .zero) := by
  intro h
  have hdata := h.data
  have hoff : (((CudaPacket.free.construct.setSize 12).encapsulate .zero .zero).decapsulate []
      .zero).1.offset = 2016 := by decide +kernel
  rw [hoff] at hdata
  exact absurd hdata (by decide)

/-- Of the payload sizes the client admits and a packet has room for, those from 20 bytes on
survive, whatever the payload, the addresses, the hops and the uninitialised locals. -/
theorem decapsulate_intact_iff (row : CudaPacket) (n : Nat) (hmin : 12 ≤ n)
    (hmax : n + 44 ≤ maxPacketSize) (a : Addresses) (l₀ : Locals) (hops : List Locals)
    (l : Locals) :
    Intact (row.construct.setSize n) a
      (((row.construct.setSize n).encapsulate a l₀).decapsulate hops l) ↔ 20 ≤ n := by
  obtain ⟨hsize, hoff⟩ := setSize_fields row.construct (n := n) (by omega)
  generalize row.construct.setSize n = p at hsize hoff ⊢
  -- the packet with its network header, to which every hop brings it back
  have hlen := length_combinedIpUdpHeaders l₀ p.size a.saddr a.daddr a.sport a.dport
  unfold encapsulate
  generalize combinedIpUdpHeaders l₀ p.size a.saddr a.daddr a.sport a.dport = header at hlen ⊢
  have hqoff := addHeader_offset (p := p) (h := header) (by omega) (by omega) (by omega)
  have hqdata := addHeader_data (p := p) (h := header) (by omega) (by omega) (by omega)
  have hqsize := addHeader_size p header
  generalize p.addHeader header = q at hqoff hqdata hqsize ⊢
  have hlinked : Linked q a.src a.dst (q.addLinkHeader a.src a.dst) :=
    Kept.addLinkHeader (by omega) (by omega) (by omega) ⟨rfl, rfl, fun i _ => rfl⟩
  obtain ⟨⟨r, hkept, hr⟩, hseen⟩ :=
    hlinked.decapsulate (by omega) (by omega) (by omega) (by omega) hops l
  have hrsize := hkept.size
  have hroff := hkept.offset
  have hstrip := stripIpUdpHeaders_offset (p := r) (by omega) (by omega)
  rw [← hr] at hstrip
  constructor
  · intro h
    have hdata := h.data
    split at hstrip <;> omega
  · intro h
    rw [if_neg (by omega)] at hstrip
    have hback : ((q.addLinkHeader a.src a.dst).decapsulate hops l).1.offset = p.offset := by omega
    have hsame : ((q.addLinkHeader a.src a.dst).decapsulate hops l).1.size = p.size := by
      rw [hr, stripIpUdpHeaders_size, hrsize, hqsize]
    refine ⟨hback, ?_, hsame, hseen⟩
    unfold payload
    rw [hback, hsame, hr, stripIpUdpHeaders_data]
    apply Bytes.read_congr
    intro i hi _
    rw [hkept.data i (by omega), hqdata, Bytes.write_apply_of_le _ (by omega)]

theorem decapsulate_intact_two_hops :
    Intact (CudaPacket.free.construct.setSize 1024) .zero
      (((CudaPacket.free.construct.setSize 1024).encapsulate .zero .zero).decapsulate
        [.zero, .zero] .zero) := by
  have hiff := decapsulate_intact_iff .free 1024 (by decide) (by decide) .zero .zero [.zero, .zero]
    .zero
  exact hiff.mpr (by decide)

end CudaNs3.Device
