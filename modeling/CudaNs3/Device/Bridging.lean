import CudaNs3.Device.Calls
import CudaNs3.Device.Encapsulation

/-!
# What a bridge forwards, and where

`ForwardUnicast` hands one packet object to `SendFrom` of one port or of several. The ports
that take it only keep a pointer to it, so the frame on the wire is the object as the call
leaves it.
-/

namespace CudaNs3.Device

set_option autoImplicit false

namespace CudaPacket

/-- Everything from `GetData()` to the end of the row, headers included. -/
def frame (p : CudaPacket) : List UInt8 := Bytes.read p.data p.offset (maxPacketSize - p.offset)

@[simp] theorem length_frame (p : CudaPacket) : p.frame.length = maxPacketSize - p.offset :=
  Bytes.length_read _ _ _

theorem frame_addHeader {p : CudaPacket} {h : List UInt8}
    (hcap : h.length + p.size ≤ maxPacketSize) (hroom : h.length ≤ p.offset)
    (hoff : p.offset ≤ maxPacketSize) : (p.addHeader h).frame = h ++ p.frame := by
  have hlen : maxPacketSize - (p.offset - h.length) = h.length + (maxPacketSize - p.offset) := by
    omega
  have hat : p.offset - h.length + h.length = p.offset := by omega
  unfold frame
  rw [addHeader_offset hcap hroom hoff, addHeader_data hcap hroom hoff, hlen, Bytes.read_add,
    Bytes.read_write, hat, Bytes.read_write_of_le _ (Nat.le_of_eq hat)]

theorem frame_addLinkHeader {p : CudaPacket} (src dst : MACAddress)
    (hcap : p.size + 6 ≤ maxPacketSize) (hroom : 16 ≤ p.offset) (hoff : p.offset ≤ maxPacketSize) :
    (p.addLinkHeader src dst).frame = dst.addr ++ src.addr ++ le32 0x0800 ++ p.frame := by
  have hsrc := src.length_addr
  have hdst := dst.length_addr
  have htype : (le32 0x0800).length = 4 := rfl
  unfold addLinkHeader
  have hoff₁ := addHeader_offset (p := p) (h := le32 0x0800) (by omega) (by omega) (by omega)
  have hframe₁ := frame_addHeader (p := p) (h := le32 0x0800) (by omega) (by omega) (by omega)
  have hsize₁ := addHeader_size p (le32 0x0800)
  generalize p.addHeader (le32 0x0800) = p₁ at hoff₁ hframe₁ hsize₁ ⊢
  have hoff₂ := addHeader_offset (p := p₁) (h := src.addr) (by omega) (by omega) (by omega)
  have hframe₂ := frame_addHeader (p := p₁) (h := src.addr) (by omega) (by omega) (by omega)
  have hsize₂ := addHeader_size p₁ src.addr
  generalize p₁.addHeader src.addr = p₂ at hoff₂ hframe₂ hsize₂ ⊢
  rw [frame_addHeader (by omega) (by omega) (by omega), hframe₂, hframe₁]
  simp

/-- The offset is a 32-bit value that is lowered whether there is room or not. -/
theorem addHeader_offset_mod {p : CudaPacket} {h : List UInt8}
    (hcap : h.length + p.size ≤ maxPacketSize) :
    (p.addHeader h).offset = (p.offset + (UInt32.size - h.length)) % UInt32.size := by
  simp only [addHeader, if_neg (Nat.not_lt.mpr hcap)]

theorem addLinkHeader_offset_mod {p : CudaPacket} (src dst : MACAddress)
    (hcap : p.size + 6 ≤ maxPacketSize) :
    (p.addLinkHeader src dst).offset = (p.offset + (UInt32.size - 16)) % UInt32.size := by
  have hsrc := src.length_addr
  have hdst := dst.length_addr
  have htype : (le32 0x0800).length = 4 := rfl
  have hmax : UInt32.size = 4294967296 := rfl
  unfold addLinkHeader
  rw [addHeader_offset_mod (by simp only [addHeader_size]; omega),
    addHeader_offset_mod (by rw [addHeader_size]; omega), addHeader_offset_mod (by omega), hsrc,
    hdst, htype, hmax]
  omega

end CudaPacket

/-- It grows with every packet a port takes in hand. -/
def Transmitter.load (t : Transmitter) : Nat := t.queue.length + t.busy.toNat

namespace Net

/-- A READY port starts transmitting, and a BUSY one queues as long as there is room. -/
def CanTake (s : Net) (d : Nat) : Prop := (s.tx d).busy = false ∨ (s.tx d).queue.length < queueSize

/-- Between the two states the port has started to transmit or has queued. -/
def Sent (s s' : Net) (d : Nat) : Prop := s'.tx d ≠ s.tx d

end Net

section Flood
open CudaNetDevice CudaBridgeNetDevice
variable (topo : Topology) {s : Net} (p : Nat) (src dst : MACAddress) (ts : Nat)

theorem sendFrom_tx_of_ne {d e : Nat} (h : e ≠ d) :
    (sendFrom topo s d p src dst ts).1.tx e = s.tx e := by
  cases hbusy : (s.tx d).busy with
  | false => simp [sendFrom_ready topo p src dst ts hbusy, h]
  | true =>
    by_cases hfull : queueSize ≤ (s.tx d).queue.length
    · simp [sendFrom_full topo p src dst ts hbusy hfull, Net.release]
    · simp [sendFrom_room topo p src dst ts hbusy (Nat.not_le.mp hfull), h]

theorem sendFrom_tx_of_not {d : Nat} (h : ¬ s.CanTake d) :
    (sendFrom topo s d p src dst ts).1.tx = s.tx := by
  obtain ⟨hbusy, hfull⟩ := not_or.mp h
  rw [sendFrom_full topo p src dst ts (by simpa using hbusy) (Nat.not_lt.mp hfull)]
  rfl

theorem sendFrom_load {d : Nat} (h : s.CanTake d) :
    ((sendFrom topo s d p src dst ts).1.tx d).load = (s.tx d).load + 1 := by
  cases hbusy : (s.tx d).busy with
  | false => simp [sendFrom_ready topo p src dst ts hbusy, Transmitter.load, hbusy]
  | true =>
    have hroom : (s.tx d).queue.length < queueSize := h.resolve_left (by simp [hbusy])
    simp [sendFrom_room topo p src dst ts hbusy hroom, Transmitter.load, hbusy]

/-- Both are the same bytes at the same place. -/
theorem sendFrom_packet (d : Nat) :
    (sendFrom topo s d p src dst ts).1.packet p = (s.packet p).addLinkHeader src dst ∨
      (sendFrom topo s d p src dst ts).1.packet p =
        ((s.packet p).addLinkHeader src dst).release := by
  cases hbusy : (s.tx d).busy with
  | false => exact .inl (by simp [sendFrom_ready topo p src dst ts hbusy])
  | true =>
    by_cases hfull : queueSize ≤ (s.tx d).queue.length
    · exact .inr (by simp [sendFrom_full topo p src dst ts hbusy hfull, Net.release])
    · exact .inl (by simp [sendFrom_room topo p src dst ts hbusy (Nat.not_le.mp hfull)])

theorem sendFrom_offset (d : Nat) :
    ((sendFrom topo s d p src dst ts).1.packet p).offset =
      ((s.packet p).addLinkHeader src dst).offset := by
  rcases sendFrom_packet (s := s) topo p src dst ts d with h | h
  · rw [h]
  · rw [h]
    rfl

theorem sendFrom_frame (d : Nat) :
    ((sendFrom topo s d p src dst ts).1.packet p).frame =
      ((s.packet p).addLinkHeader src dst).frame := by
  rcases sendFrom_packet (s := s) topo p src dst ts d with h | h
  · rw [h]
  · rw [h]
    rfl

theorem le_flood_load (ports : List Nat) (e : Nat) :
    (s.tx e).load ≤ ((flood topo s p src dst ts ports).1.tx e).load := by
  induction ports generalizing s with
  | nil => exact Nat.le_refl _
  | cons d ports ih =>
    rw [flood_cons]
    refine Nat.le_trans ?_ ih
    by_cases he : e = d
    · subst he
      by_cases h : s.CanTake e
      · rw [sendFrom_load topo p src dst ts h]
        exact Nat.le_succ _
      · exact Nat.le_of_eq (by rw [sendFrom_tx_of_not topo p src dst ts h])
    · exact Nat.le_of_eq (by rw [sendFrom_tx_of_ne topo p src dst ts he])

/-- `SendFrom` on a list of ports is taken by those of them that can. -/
theorem flood_sent (ports : List Nat) (e : Nat) :
    s.Sent (flood topo s p src dst ts ports).1 e ↔ e ∈ ports ∧ s.CanTake e := by
  induction ports generalizing s with
  | nil => simp [Net.Sent, flood]
  | cons d ports ih =>
    rw [flood_cons]
    by_cases he : e = d
    · subst he
      by_cases h : s.CanTake e
      · have hload := le_flood_load (s := (sendFrom topo s e p src dst ts).1) topo p src dst ts
          ports e
        rw [sendFrom_load topo p src dst ts h] at hload
        refine iff_of_true (fun heq => ?_) ⟨List.mem_cons_self, h⟩
        rw [heq] at hload
        exact absurd hload (Nat.not_succ_le_self _)
      · have htx := sendFrom_tx_of_not topo p src dst ts h
        have hnot : ¬ (sendFrom topo s e p src dst ts).1.CanTake e := by
          unfold Net.CanTake
          rw [htx]
          exact h
        refine iff_of_false (fun hsent => ?_) fun hmem => h hmem.2
        refine hnot (ih.mp ?_).2
        unfold Net.Sent at hsent ⊢
        rwa [htx]
    · have htx := sendFrom_tx_of_ne (s := s) topo p src dst ts he
      have hrest := ih (s := (sendFrom topo s d p src dst ts).1)
      unfold Net.Sent Net.CanTake at hrest ⊢
      rw [htx] at hrest
      simpa [he] using hrest

theorem flood_offset_mod (ports : List Nat) (hcap : (s.packet p).size + 6 ≤ maxPacketSize)
    (hoff : (s.packet p).offset < UInt32.size) :
    ((flood topo s p src dst ts ports).1.packet p).offset =
      ((s.packet p).offset + ports.length * (UInt32.size - 16)) % UInt32.size := by
  induction ports generalizing s with
  | nil => simpa [flood] using (Nat.mod_eq_of_lt hoff).symm
  | cons d ports ih =>
    have hmax : UInt32.size = 4294967296 := rfl
    have hstep := (sendFrom_offset (s := s) topo p src dst ts d).trans
      (CudaPacket.addLinkHeader_offset_mod src dst hcap)
    rw [flood_cons, ih (by rwa [sendFrom_size]) (hstep ▸ Nat.mod_lt _ (by decide)), hstep,
      List.length_cons, hmax]
    omega

theorem flood_offset {ports : List Nat} (hports : ports.length ≤ 16)
    (hcap : (s.packet p).size + 6 ≤ maxPacketSize) (hoff : (s.packet p).offset ≤ maxPacketSize) :
    ((flood topo s p src dst ts ports).1.packet p).offset =
      ((s.packet p).offset + UInt32.size - 16 * ports.length) % UInt32.size := by
  have hmax : UInt32.size = 4294967296 := rfl
  have hlen : maxPacketSize = 2048 := rfl
  rw [flood_offset_mod topo p src dst ts ports hcap (by omega), hmax]
  omega

/-- Each `SendFrom` puts its link header in front of the one before, so exactly one makes a
frame of the payload. -/
theorem flood_frame_iff {ports : List Nat} (hne : ports ≠ []) (hports : ports.length ≤ 16)
    (hcap : (s.packet p).size + 6 ≤ maxPacketSize) (hroom : 16 ≤ (s.packet p).offset)
    (hoff : (s.packet p).offset ≤ maxPacketSize) (protocol : UInt16) :
    ((flood topo s p src dst ts ports).1.packet p).frame =
        dst.addr ++ src.addr ++ le32 protocol.toUInt32 ++ (s.packet p).frame ↔
      ports.length = 1 ∧ protocol = 0x0800 := by
  have hmax : UInt32.size = 4294967296 := rfl
  have hlen : maxPacketSize = 2048 := rfl
  constructor
  · intro h
    have hcount := congrArg List.length h
    have htype : (le32 protocol.toUInt32).length = 4 := rfl
    simp only [List.length_append, CudaPacket.length_frame, src.length_addr, dst.length_addr, htype,
      flood_offset topo p src dst ts hports hcap hoff, hmax] at hcount
    have hpos := List.length_pos_iff.mpr hne
    have hone : ports.length = 1 := by omega
    obtain ⟨d, rfl⟩ := List.length_eq_one_iff.mp hone
    rw [flood_singleton, sendFrom_frame, CudaPacket.frame_addLinkHeader src dst hcap hroom hoff]
      at h
    refine ⟨rfl, ?_⟩
    have hfield := List.append_cancel_left (List.append_cancel_right h)
    have hlow := congrArg UInt8.toNat (Option.some.inj (congrArg (·[0]?) hfield))
    have hhigh := congrArg UInt8.toNat (Option.some.inj (congrArg (·[1]?) hfield))
    have hval := protocol.toNat_lt
    apply UInt16.toNat_inj.mp
    simp [Nat.shiftRight_eq_div_pow] at hlow hhigh ⊢
    omega
  · rintro ⟨hone, rfl⟩
    obtain ⟨d, rfl⟩ := List.length_eq_one_iff.mp hone
    rw [flood_singleton, sendFrom_frame, CudaPacket.frame_addLinkHeader src dst hcap hroom hoff]
    rfl

end Flood

open CudaBridgeNetDevice

section Forwarding
variable (topo : Topology) (s : Net) (b incomingPort p : Nat) (src dst : MACAddress)
  (protocol : UInt16)

/-- What is asked of forwarding a frame, `protocol` being the EtherType it came with and
`s.packet p` the packet without its link header. A port that is busy with a full queue takes
nothing. -/
structure Faithful (s' : Net) : Prop where
  back : ¬ s.Sent s' incomingPort
  known : ∀ port, getLearnedState (s.learnt topo b incomingPort src) dst = some port →
    ∀ d, s.Sent s' d ↔ d = port ∧ port ≠ incomingPort ∧ s.CanTake d
  unknown : getLearnedState (s.learnt topo b incomingPort src) dst = none →
    ∀ d, s.Sent s' d ↔ d ∈ (topo.bridge b).ports ∧ d ≠ incomingPort ∧ s.CanTake d
  frame : ∀ d, s.Sent s' d → (s'.packet p).frame =
    dst.addr ++ src.addr ++ le32 protocol.toUInt32 ++ (s.packet p).frame

/-- The destination is not behind the ingress port, and the one packet object has to carry a
single frame of type IPv4; or no port takes it anyway. -/
structure Forwardable : Prop where
  away : getLearnedState (s.learnt topo b incomingPort src) dst = some incomingPort →
    ¬ s.CanTake incomingPort
  single : (s.outPorts topo b incomingPort src dst).length ≤ 1 ∧ protocol = 0x0800 ∨
    ∀ d ∈ s.outPorts topo b incomingPort src dst, ¬ s.CanTake d

theorem forwardUnicast_sent (ts d : Nat) :
    s.Sent (forwardUnicast topo s b incomingPort p src dst ts).1 d ↔
      d ∈ s.outPorts topo b incomingPort src dst ∧ s.CanTake d := by
  rw [forwardUnicast_eq]
  exact flood_sent (s := s.setLearned b (s.learnt topo b incomingPort src)) topo p src dst ts _ d

variable {topo s b incomingPort src dst} in
theorem outPorts_of_known {port : Nat}
    (h : getLearnedState (s.learnt topo b incomingPort src) dst = some port) :
    s.outPorts topo b incomingPort src dst = [port] := by simp [Net.outPorts, h]

variable {topo s b incomingPort src dst} in
theorem outPorts_of_unknown
    (h : getLearnedState (s.learnt topo b incomingPort src) dst = none) :
    s.outPorts topo b incomingPort src dst = (topo.bridge b).ports.filter (· ≠ incomingPort) := by
  simp [Net.outPorts, h]

theorem length_outPorts_le (hports : (topo.bridge b).ports.length ≤ maxMacEntries) :
    (s.outPorts topo b incomingPort src dst).length ≤ 16 := by
  cases h : getLearnedState (s.learnt topo b incomingPort src) dst with
  | none =>
    rw [outPorts_of_unknown h]
    exact Nat.le_trans (List.length_filter_le _ _) hports
  | some port =>
    simp [outPorts_of_known h]

/-- `ForwardUnicast` is faithful on the frames that are `Forwardable` and on no others. -/
theorem forwardUnicast_faithful_iff (ts : Nat)
    (hports : (topo.bridge b).ports.length ≤ maxMacEntries)
    (hcap : (s.packet p).size + 6 ≤ maxPacketSize) (hroom : 16 ≤ (s.packet p).offset)
    (hoff : (s.packet p).offset ≤ maxPacketSize) :
    Faithful topo s b incomingPort p src dst protocol
        (forwardUnicast topo s b incomingPort p src dst ts).1 ↔
      Forwardable topo s b incomingPort src dst protocol := by
  have hsent := forwardUnicast_sent topo s b incomingPort p src dst ts
  have hlen := length_outPorts_le topo s b incomingPort src dst hports
  have hframe (hne : s.outPorts topo b incomingPort src dst ≠ []) :
      ((forwardUnicast topo s b incomingPort p src dst ts).1.packet p).frame =
          dst.addr ++ src.addr ++ le32 protocol.toUInt32 ++ (s.packet p).frame ↔
        (s.outPorts topo b incomingPort src dst).length = 1 ∧ protocol = 0x0800 := by
    rw [forwardUnicast_eq]
    exact flood_frame_iff (s := s.setLearned b (s.learnt topo b incomingPort src)) topo p src dst
      ts hne hlen hcap hroom hoff protocol
  constructor
  · intro h
    refine ⟨fun hback htake => ?_, ?_⟩
    · exact h.back ((hsent _).mpr ⟨by simp [outPorts_of_known hback], htake⟩)
    · by_cases hnone : ∀ d ∈ s.outPorts topo b incomingPort src dst, ¬ s.CanTake d
      · exact .inr hnone
      · push Not at hnone
        obtain ⟨d, hd, htake⟩ := hnone
        have hgood := (hframe (List.ne_nil_of_mem hd)).mp (h.frame d ((hsent d).mpr ⟨hd, htake⟩))
        exact .inl ⟨Nat.le_of_eq hgood.1, hgood.2⟩
  · rintro ⟨haway, hsingle⟩
    refine ⟨fun hback => ?_, fun port hport d => ?_, fun hnone d => ?_, fun d hd => ?_⟩
    · obtain ⟨hmem, htake⟩ := (hsent _).mp hback
      cases hport : getLearnedState (s.learnt topo b incomingPort src) dst with
      | none => simp [outPorts_of_unknown hport] at hmem
      | some port =>
        obtain rfl : incomingPort = port := by simpa [outPorts_of_known hport] using hmem
        exact haway hport htake
    · rw [hsent, outPorts_of_known hport, List.mem_singleton]
      constructor
      · rintro ⟨rfl, htake⟩
        exact ⟨rfl, fun heq => haway (heq ▸ hport) (heq ▸ htake), htake⟩
      · rintro ⟨rfl, _, htake⟩
        exact ⟨rfl, htake⟩
    · simp [hsent, outPorts_of_unknown hnone, and_assoc]
    · obtain ⟨hmem, htake⟩ := (hsent d).mp hd
      obtain ⟨hone, htype⟩ := hsingle.resolve_right fun hnone => hnone d hmem htake
      have hpos := List.length_pos_of_mem hmem
      exact (hframe (List.ne_nil_of_mem hmem)).mpr ⟨by omega, htype⟩

end Forwarding

/-- A bridge of three ports, 0 to 2. -/
def Topology.threePorts : Topology :=
  { Topology.twoHosts 2000 with bridge := fun _ => ⟨[0, 1, 2], true⟩ }

def MACAddress.one : MACAddress := ⟨[0, 0, 0, 0, 0, 1], rfl⟩

/-- A packet of 64 bytes that has come in, in slot 0. -/
def Net.received64 (table : List (MACAddress × Nat)) : Net :=
  (Net.start.setPacket 0 (CudaPacket.free.construct.setSize 64)).setLearned 0 table

/-- Both addresses behind port 0: the frame goes back to where it came from. Nothing learned yet:
two ports get one object with two link headers. -/
theorem sent_back_and_doubled :
    ¬ Faithful .threePorts (.received64 [(.one, 0)]) 0 0 0 .zero .one 0x0800
        (forwardUnicast .threePorts (.received64 [(.one, 0)]) 0 0 0 .zero .one 5000).1 ∧
      ¬ Faithful .threePorts (.received64 []) 0 0 0 .zero .one 0x0800
        (forwardUnicast .threePorts (.received64 []) 0 0 0 .zero .one 5000).1 := by
  constructor
  · intro h
    exact h.back (by unfold Net.Sent; decide)
  · intro h
    have hframe := congrArg List.length (h.frame 1 (by unfold Net.Sent; decide))
    simp only [List.length_append, CudaPacket.length_frame] at hframe
    exact absurd hframe (by decide)

theorem forwardUnicast_faithful_learned :
    Faithful .threePorts (.received64 [(.one, 2)]) 0 0 0 .zero .one 0x0800
      (forwardUnicast .threePorts (.received64 [(.one, 2)]) 0 0 0 .zero .one 5000).1 :=
  (forwardUnicast_faithful_iff .threePorts (.received64 [(.one, 2)]) 0 0 0 .zero .one 0x0800 5000
    (by decide) (by decide) (by decide) (by decide)).mpr
      ⟨fun h => absurd h (by decide), .inl ⟨by decide, rfl⟩⟩

end CudaNs3.Device
