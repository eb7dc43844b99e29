import CudaNs3.Internet.EndPointDemux

/-!
# The end point a packet is for

Two end points that answer to the same packets are what `Lookup` aborts on. Where the calls make
none, and no two different local addresses take the packet by a wildcard, it returns at most one
end point and none is more specific.
-/

namespace CudaNs3.Internet

set_option autoImplicit false

universe u
variable {Device : Type u}

namespace Ipv4EndPoint

/-- Both are found on some device. -/
def DevicesMeet (d d' : Option Device) : Prop := d = none ∨ d' = none ∨ d = d'

/-- The end point has these local and peer addresses and ports. -/
structure HasTuple (e : Ipv4EndPoint Device) (localAddr : Ipv4Address) (localPort : Port)
    (peerAddr : Ipv4Address) (peerPort : Port) : Prop where
  localAddr_eq : e.localAddr = localAddr
  localPort_eq : e.localPort = localPort
  peerAddr_eq : e.peerAddr = peerAddr
  peerPort_eq : e.peerPort = peerPort

def SameTuple (e x : Ipv4EndPoint Device) : Prop :=
  e.HasTuple x.localAddr x.localPort x.peerAddr x.peerPort

/-- The peer has an address and a port, or neither. -/
def WholePeer (peerAddr : Ipv4Address) (peerPort : Port) : Prop := peerPort = 0 ↔ peerAddr = 0

theorem wholePeer_none : WholePeer 0 0 := iff_of_true rfl rfl

theorem DevicesMeet.symm {d d' : Option Device} (h : DevicesMeet d d') : DevicesMeet d' d := by
  rcases h with h | h | h
  · exact .inr (.inl h)
  · exact .inl h
  · exact .inr (.inr h.symm)

theorem SameTuple.symm {e x : Ipv4EndPoint Device} (h : e.SameTuple x) : x.SameTuple e :=
  ⟨h.localAddr_eq.symm, h.localPort_eq.symm, h.peerAddr_eq.symm, h.peerPort_eq.symm⟩

end Ipv4EndPoint

open Ipv4EndPoint

namespace Ipv4EndPointDemux

/-- The end points that have this tuple are not bound to a device. -/
def Unbound (s : Ipv4EndPointDemux Device) (localAddr : Ipv4Address) (localPort : Port)
    (peerAddr : Ipv4Address) (peerPort : Port) : Prop :=
  ∀ e ∈ s.endPoints, e.HasTuple localAddr localPort peerAddr peerPort → e.boundNetDevice = none

/-- A call that makes no two end points for the same packets. An end point without a device is
not allocated beside one with a device, a peer is given whole, and not where another end point has
it already. -/
def Clear (s : Ipv4EndPointDemux Device) : DemuxOp Device → Prop
  | .allocate _ => True
  | .allocateAddress _ _ => True
  | .allocatePort boundNetDevice port => boundNetDevice = none → s.Unbound 0 port 0 0
  | .allocateLocal boundNetDevice address port =>
    boundNetDevice = none → s.Unbound address port 0 0
  | .allocatePeer boundNetDevice localAddress localPort peerAddress peerPort =>
    WholePeer peerAddress peerPort ∧
      (boundNetDevice = none → s.Unbound localAddress localPort peerAddress peerPort)
  | .setPeer ptr address port =>
    WholePeer address port ∧ ∀ e ∈ s.endPoints, e.ptr = ptr → ∀ x ∈ s.endPoints, x.ptr ≠ ptr →
      x.HasTuple e.localAddr e.localPort address port →
        ¬DevicesMeet x.boundNetDevice e.boundNetDevice
  | .deAllocate _ => True

variable {s : Ipv4EndPointDemux Device}

/-- No two end points are for the same packets. -/
structure Apart (s : Ipv4EndPointDemux Device) : Prop where
  meet : ∀ e ∈ s.endPoints, ∀ x ∈ s.endPoints, e.ptr ≠ x.ptr → e.SameTuple x →
    ¬DevicesMeet e.boundNetDevice x.boundNetDevice
  peer : ∀ e ∈ s.endPoints, WholePeer e.peerAddr e.peerPort

theorem Apart.new : ({} : Ipv4EndPointDemux Device).Apart where
  meet _ he := absurd he List.not_mem_nil
  peer _ he := absurd he List.not_mem_nil

theorem Apart.pushBack (h : s.Apart) {e : Ipv4EndPoint Device}
    (hpeer : WholePeer e.peerAddr e.peerPort)
    (hmeet : ∀ x ∈ s.endPoints, x.HasTuple e.localAddr e.localPort e.peerAddr e.peerPort →
      ¬DevicesMeet x.boundNetDevice e.boundNetDevice) : (s.pushBack e).Apart where
  meet x hx y hy hne hsame := by
    rcases List.mem_append.mp hx with hx | hx <;> rcases List.mem_append.mp hy with hy | hy
    · exact h.meet x hx y hy hne hsame
    · rw [List.mem_singleton] at hy
      subst hy
      exact hmeet x hx hsame
    · rw [List.mem_singleton] at hx
      subst hx
      intro hm
      exact hmeet y hy ⟨hsame.localAddr_eq.symm, hsame.localPort_eq.symm, hsame.peerAddr_eq.symm,
        hsame.peerPort_eq.symm⟩ hm.symm
    · rw [List.mem_singleton] at hx hy
      subst hx hy
      exact absurd rfl hne
  peer x hx := by
    rcases List.mem_append.mp hx with hx | hx
    · exact h.peer x hx
    · rw [List.mem_singleton] at hx
      subst hx
      exact hpeer

theorem Inv.ptr_ne (h : s.Inv) {e x : Ipv4EndPoint Device} (he : e ∈ s.endPoints)
    (hx : x ∈ s.endPoints) (hne : e ≠ x) : e.ptr ≠ x.ptr := by
  have hsymm : Std.Symm fun e x : Ipv4EndPoint Device => e.ptr ≠ x.ptr := ⟨fun _ _ h => h.symm⟩
  exact h.nodup.forall he hx hne

theorem Apart.deAllocate (h : s.Apart) (ptr : Nat) : (s.deAllocate ptr).Apart where
  meet e he x hx := h.meet e (List.mem_of_mem_eraseP he) x (List.mem_of_mem_eraseP hx)
  peer e he := h.peer e (List.mem_of_mem_eraseP he)

/-- The addresses are kept, and the peers of the others. -/
theorem mem_setPeer {ptr : Nat} {address : Ipv4Address} {port : Port} {x : Ipv4EndPoint Device}
    (hx : x ∈ (s.setPeer ptr address port).endPoints) :
    (x ∈ s.endPoints ∧ x.ptr ≠ ptr) ∨
      ∃ e ∈ s.endPoints, e.ptr = ptr ∧ x = { e with peerAddr := address, peerPort := port } := by
  obtain ⟨e, he, rfl⟩ := List.mem_map.mp hx
  by_cases hptr : e.ptr = ptr
  · right
    exact ⟨e, he, hptr, if_pos hptr⟩
  · left
    rw [if_neg hptr]
    exact ⟨he, hptr⟩

theorem Apart.setPeer (h : s.Apart) {ptr : Nat} {address : Ipv4Address} {port : Port}
    (hpeer : WholePeer address port)
    (hmeet : ∀ e ∈ s.endPoints, e.ptr = ptr → ∀ x ∈ s.endPoints, x.ptr ≠ ptr →
      x.HasTuple e.localAddr e.localPort address port →
        ¬DevicesMeet x.boundNetDevice e.boundNetDevice) : (s.setPeer ptr address port).Apart where
  meet x hx y hy hne hsame := by
    rcases mem_setPeer hx with ⟨hx, hxptr⟩ | ⟨e, he, heptr, rfl⟩ <;>
      rcases mem_setPeer hy with ⟨hy, hyptr⟩ | ⟨f, hf, hfptr, rfl⟩
    · exact h.meet x hx y hy hne hsame
    · exact hmeet f hf hfptr x hx hxptr hsame
    · intro hm
      exact hmeet e he heptr y hy hyptr (SameTuple.symm hsame) hm.symm
    · exact absurd (heptr.trans hfptr.symm) hne
  peer x hx := by
    rcases mem_setPeer hx with ⟨hx, -⟩ | ⟨e, -, -, rfl⟩
    · exact h.peer x hx
    · exact hpeer

section Calls

variable [DecidableEq Device]

theorem Apart.allocateLocal (h : s.Apart) {boundNetDevice : Option Device} {address : Ipv4Address}
    {port : Port} (hclear : boundNetDevice = none → s.Unbound address port 0 0) :
    (s.allocateLocal boundNetDevice address port).Apart := by
  unfold Ipv4EndPointDemux.allocateLocal
  split
  · exact h
  · rename_i hnew
    simp only [lookupLocal, Bool.or_eq_true, List.any_eq_true, Bool.and_eq_true, decide_eq_true_eq,
      not_or, not_exists, not_and] at hnew
    obtain ⟨hnot, hnone⟩ := hnew
    refine h.pushBack wholePeer_none ?_
    intro x hx htuple hm
    have hbound : x.boundNetDevice ≠ none := hnone x hx ⟨htuple.localPort_eq, htuple.localAddr_eq⟩
    rcases hm with hm | hm | hm
    · exact hbound hm
    · exact hbound (hclear hm x hx htuple)
    · exact hnot x hx ⟨htuple.localPort_eq, htuple.localAddr_eq⟩ hm

theorem Apart.allocatePeer (h : s.Apart) {boundNetDevice : Option Device}
    {localAddress peerAddress : Ipv4Address} {localPort peerPort : Port}
    (hpeer : WholePeer peerAddress peerPort)
    (hclear : boundNetDevice = none → s.Unbound localAddress localPort peerAddress peerPort) :
    (s.allocatePeer boundNetDevice localAddress localPort peerAddress peerPort).Apart := by
  unfold Ipv4EndPointDemux.allocatePeer
  split
  · exact h
  · rename_i hnew
    simp only [List.any_eq_true, Bool.and_eq_true, decide_eq_true_eq, Bool.or_eq_true,
      Option.isNone_iff_eq_none, not_exists, not_and, not_or] at hnew
    refine h.pushBack hpeer ?_
    intro x hx htuple hm
    obtain ⟨hnot, hbound⟩ := hnew x hx
      ⟨⟨⟨htuple.localPort_eq, htuple.localAddr_eq⟩, htuple.peerPort_eq⟩, htuple.peerAddr_eq⟩
    rcases hm with hm | hm | hm
    · exact hbound hm
    · exact hbound (hclear hm x hx htuple)
    · exact hnot hm

end Calls

/-- A port that has just been found free is nobody's, and the counter stays in the range. -/
theorem Inv.allocateEphemeralPort (h : s.Inv) :
    s.allocateEphemeralPort.1.Inv ∧ s.allocateEphemeralPort.1.endPoints = s.endPoints := by
  have hlaw := h.ephemeralLaw.2
  rw [snd_allocateEphemeralPort] at hlaw
  unfold Ipv4EndPointDemux.allocateEphemeralPort
  dsimp only
  split
  · exact ⟨h, rfl⟩
  · rename_i hne
    obtain ⟨hge, -, -⟩ := hlaw hne
    have hfirst : s.portFirst.toNat = 49152 := by rw [h.portFirst_eq]; rfl
    refine ⟨⟨h.nodup, h.ptr_lt, h.portFirst_eq, h.portLast_eq, ?_⟩, rfl⟩
    exact hfirst.ge.trans (BitVec.le_def.mp hge)

theorem Inv.allocateAddress (h : s.Inv) (boundNetDevice : Option Device) (address : Ipv4Address) :
    (s.allocateAddress boundNetDevice address).Inv := by
  obtain ⟨hinv, -⟩ := h.allocateEphemeralPort
  unfold Ipv4EndPointDemux.allocateAddress
  dsimp only
  split
  · exact hinv
  · exact hinv.pushBack _

theorem Apart.allocateAddress (h : s.Apart) (hinv : s.Inv) (boundNetDevice : Option Device)
    (address : Ipv4Address) : (s.allocateAddress boundNetDevice address).Apart := by
  obtain ⟨-, hsame⟩ := hinv.allocateEphemeralPort
  have hapart : s.allocateEphemeralPort.1.Apart := by
    refine ⟨?_, ?_⟩
    · rw [hsame]
      exact h.meet
    · rw [hsame]
      exact h.peer
  unfold Ipv4EndPointDemux.allocateAddress
  dsimp only
  split
  · exact hapart
  · rename_i hne
    refine hapart.pushBack wholePeer_none ?_
    intro x hx htuple
    rw [hsame] at hx
    exact absurd htuple.localPort_eq ((hinv.ephemeralLaw.2 hne).2.2 x hx)

/-! ### Runs -/

section Runs

variable [DecidableEq Device]

theorem Inv.perform (h : s.Inv) (op : DemuxOp Device) : (s.perform op).Inv := by
  have hlocal (boundNetDevice : Option Device) (address : Ipv4Address) (port : Port) :
      (s.allocateLocal boundNetDevice address port).Inv := by
    unfold Ipv4EndPointDemux.allocateLocal
    split
    · exact h
    · exact h.pushBack _
  cases op with
  | allocate boundNetDevice => exact h.allocateAddress boundNetDevice 0
  | allocateAddress boundNetDevice address => exact h.allocateAddress boundNetDevice address
  | allocatePort boundNetDevice port => exact hlocal boundNetDevice 0 port
  | allocateLocal boundNetDevice address port => exact hlocal boundNetDevice address port
  | allocatePeer boundNetDevice localAddress localPort peerAddress peerPort =>
    unfold Ipv4EndPointDemux.perform Ipv4EndPointDemux.allocatePeer
    dsimp only
    split
    · exact h
    · exact h.pushBack _
  | setPeer ptr address port => exact h.setPeer ptr address port
  | deAllocate ptr => exact h.deAllocate ptr

theorem Apart.perform (h : s.Apart) (hinv : s.Inv) {op : DemuxOp Device} (hclear : s.Clear op) :
    (s.perform op).Apart := by
  cases op with
  | allocate boundNetDevice => exact h.allocateAddress hinv boundNetDevice 0
  | allocateAddress boundNetDevice address => exact h.allocateAddress hinv boundNetDevice address
  | allocatePort boundNetDevice port => exact h.allocateLocal hclear
  | allocateLocal boundNetDevice address port => exact h.allocateLocal hclear
  | allocatePeer boundNetDevice localAddress localPort peerAddress peerPort =>
    exact h.allocatePeer hclear.1 hclear.2
  | setPeer ptr address port => exact h.setPeer hclear.1 hclear.2
  | deAllocate ptr => exact h.deAllocate ptr

theorem Inv.run (h : s.Inv) (ops : List (DemuxOp Device)) : (s.run ops).Inv := by
  induction ops generalizing s with
  | nil => exact h
  | cons op ops ih => exact ih (h.perform op)

/-- Each call of the run is one that makes no two end points for the same packets. -/
def ClearRun (s : Ipv4EndPointDemux Device) : List (DemuxOp Device) → Prop
  | [] => True
  | op :: ops => s.Clear op ∧ (s.perform op).ClearRun ops

theorem Apart.run (h : s.Apart) (hinv : s.Inv) {ops : List (DemuxOp Device)}
    (hclear : s.ClearRun ops) : (s.run ops).Apart := by
  induction ops generalizing s with
  | nil => exact h
  | cons op ops ih =>
    obtain ⟨hop, hrest⟩ := hclear
    exact ih (h.perform hinv hop) (hinv.perform op) hrest

end Runs

/-! ### The classes -/

section Lookup

variable [DecidableEq Device] (s : Ipv4EndPointDemux Device) (p : FourTuple)
  (i : Ipv4Interface Device)

/-- No two end points that differ in their local address, and have the same peer, take the packet
by a wildcard: one as the end point of any address and the other as that of a network, or as
those of two networks. -/
def OneWildCard : Prop :=
  ∀ e ∈ s.endPoints, ∀ x ∈ s.endPoints, e.isMatch p i → x.isMatch p i →
    e.peerAddr = x.peerAddr → e.peerPort = x.peerPort → e.localAddressMatchesWildCard p i →
      x.localAddressMatchesWildCard p i → e.localAddr = x.localAddr

/-- How closely an end point matches the packet: by its local address, the address and the port of
its peer, and its device. -/
def closeness (e : Ipv4EndPoint Device) : List Nat :=
  [if e.localAddressMatchesExact p then 2 else if e.localAddressIsSubnetAny p i then 1 else 0,
    if e.remoteAddressMatchesExact p then 1 else 0, if e.remotePortMatchesExact p then 1 else 0,
    if e.boundNetDevice.isSome then 1 else 0]

/-- At least as close in everything, and closer in something. -/
def MoreSpecific (x e : Ipv4EndPoint Device) : Prop :=
  List.Forall₂ (· ≤ ·) (closeness p i e) (closeness p i x) ∧ closeness p i e ≠ closeness p i x

/-- One end point is returned when any matches; it matches, and no other matching one is more
specific. -/
structure Unambiguous : Prop where
  atMostOne : ∃ l, s.lookup p i = some l ∧ l.length ≤ 1
  isMatch : ∀ l, s.lookup p i = some l → ∀ e ∈ l, e ∈ s.endPoints ∧ e.isMatch p i
  found : s.lookup p i = some [] → ∀ x ∈ s.endPoints, ¬x.isMatch p i
  mostSpecific : ∀ l, s.lookup p i = some l → ∀ e ∈ l, ∀ x ∈ s.endPoints, x.isMatch p i →
    ¬MoreSpecific p i x e

variable {s} {p} {i}

/-- The remote side of a match is met exactly or by wildcards, when peers are whole. -/
theorem remote_of_isMatch {e : Ipv4EndPoint Device} (hpeer : WholePeer e.peerAddr e.peerPort)
    (h : e.isMatch p i) :
    (e.remoteAddressMatchesExact p ∧ e.remotePortMatchesExact p) ∨
      (e.remoteAddressMatchesWildCard ∧ e.remotePortMatchesWildCard) := by
  simp only [Ipv4EndPoint.isMatch, Bool.and_eq_true, Bool.or_eq_true] at h
  obtain ⟨⟨-, hport⟩, haddr⟩ := h
  simp only [remotePortMatchesWildCard, remoteAddressMatchesWildCard, decide_eq_true_eq] at hport haddr ⊢
  unfold WholePeer at hpeer
  rcases hport with hport | hport
  · rcases haddr with haddr | haddr
    · exact .inl ⟨haddr, hport⟩
    · exact .inr ⟨haddr, hpeer.mpr haddr⟩
  · exact .inr ⟨hpeer.mp hport, hport⟩

theorem local_of_isMatch {e : Ipv4EndPoint Device} (h : e.isMatch p i) :
    e.localAddressMatchesExact p ∨ e.localAddressMatchesWildCard p i := by
  simp only [Ipv4EndPoint.isMatch, Bool.and_eq_true, Bool.or_eq_true] at h
  exact h.1.1.2

theorem localPort_of_isMatch {e : Ipv4EndPoint Device} (h : e.isMatch p i) :
    e.localPort = p.dport := by
  simp only [Ipv4EndPoint.isMatch, Bool.and_eq_true, decide_eq_true_eq] at h
  exact h.1.1.1.1.2

/-- Two end points that the packet finds are found on its device. -/
theorem devicesMeet_of_isMatch {e x : Ipv4EndPoint Device} (he : e.isMatch p i)
    (hx : x.isMatch p i) : DevicesMeet e.boundNetDevice x.boundNetDevice := by
  have hdevice {y : Ipv4EndPoint Device} (hy : y.isMatch p i) :
      y.boundNetDevice = none ∨ y.boundNetDevice = some i.device := by
    simp only [Ipv4EndPoint.isMatch, Bool.and_eq_true] at hy
    have hy := hy.1.1.1.2
    cases hd : y.boundNetDevice with
    | none => exact .inl rfl
    | some d =>
      rw [hd] at hy
      right
      rw [of_decide_eq_true hy]
  rcases hdevice he with he | he
  · exact .inl he
  · rcases hdevice hx with hx | hx
    · exact .inr (.inl hx)
    · exact .inr (.inr (he.trans hx.symm))

/-- Two matches with the same peer and, or by wildcards, the same local address are one. -/
theorem Apart.eq_of_isMatch (h : s.Apart) (hinv : s.Inv) (hone : s.OneWildCard p i)
    {e x : Ipv4EndPoint Device} (he : e ∈ s.endPoints) (hx : x ∈ s.endPoints)
    (hematch : e.isMatch p i) (hxmatch : x.isMatch p i) (hpeer : e.peerAddr = x.peerAddr)
    (hport : e.peerPort = x.peerPort)
    (hlocal : (e.localAddressMatchesExact p ∧ x.localAddressMatchesExact p) ∨
      (e.localAddressMatchesWildCard p i ∧ x.localAddressMatchesWildCard p i)) : e = x := by
  have haddr : e.localAddr = x.localAddr := by
    rcases hlocal with ⟨hle, hlx⟩ | ⟨hle, hlx⟩
    · exact (of_decide_eq_true hle).trans (of_decide_eq_true hlx).symm
    · exact hone e he x hx hematch hxmatch hpeer hport hle hlx
  have htuple : e.SameTuple x :=
    ⟨haddr, (localPort_of_isMatch hematch).trans (localPort_of_isMatch hxmatch).symm, hpeer, hport⟩
  by_contra hne
  exact h.meet e he x hx (hinv.ptr_ne he hx hne) htuple (devicesMeet_of_isMatch hematch hxmatch)

theorem mem_retval4 {e : Ipv4EndPoint Device} : e ∈ s.retval4 p i ↔ e ∈ s.endPoints ∧
    e.isMatch p i ∧ e.localAddressMatchesExact p ∧ e.remoteAddressMatchesExact p ∧
      e.remotePortMatchesExact p := by
  simp only [retval4, List.mem_filter, Bool.and_eq_true, and_assoc]

theorem mem_retval3 {e : Ipv4EndPoint Device} : e ∈ s.retval3 p i ↔ e ∈ s.endPoints ∧
    e.isMatch p i ∧ e.localAddressMatchesWildCard p i ∧ e.remoteAddressMatchesExact p ∧
      e.remotePortMatchesExact p := by
  simp only [retval3, List.mem_filter, Bool.and_eq_true, and_assoc]

theorem mem_retval2 {e : Ipv4EndPoint Device} : e ∈ s.retval2 p i ↔ e ∈ s.endPoints ∧
    e.isMatch p i ∧ e.localAddressMatchesExact p ∧ e.remoteAddressMatchesWildCard ∧
      e.remotePortMatchesWildCard := by
  simp only [retval2, List.mem_filter, Bool.and_eq_true, and_assoc]

theorem mem_retval1 {e : Ipv4EndPoint Device} : e ∈ s.retval1 p i ↔ e ∈ s.endPoints ∧
    e.isMatch p i ∧ e.localAddressMatchesWildCard p i ∧ e.remoteAddressMatchesWildCard ∧
      e.remotePortMatchesWildCard := by
  simp only [retval1, List.mem_filter, Bool.and_eq_true, and_assoc]

/-- The list returned is that of the first class that is not empty. -/
theorem mostExact_cases (s : Ipv4EndPointDemux Device) (p : FourTuple) (i : Ipv4Interface Device) :
    s.mostExact p i = s.retval4 p i ∨
    (s.mostExact p i = s.retval3 p i ∧ s.retval4 p i = []) ∨
    (s.mostExact p i = s.retval2 p i ∧ s.retval4 p i = [] ∧ s.retval3 p i = []) ∨
    (s.mostExact p i = s.retval1 p i ∧ s.retval4 p i = [] ∧ s.retval3 p i = [] ∧
      s.retval2 p i = []) := by
  unfold mostExact
  by_cases h4 : s.retval4 p i = []
  · by_cases h3 : s.retval3 p i = []
    · by_cases h2 : s.retval2 p i = []
      · simp [h4, h3, h2]
      · simp [h4, h3, h2]
    · simp [h4, h3]
  · simp [h4]

theorem mostExact_eq_nil (h : s.mostExact p i = []) : s.retval4 p i = [] ∧ s.retval3 p i = [] ∧
    s.retval2 p i = [] ∧ s.retval1 p i = [] := by
  unfold mostExact at h
  by_cases h4 : s.retval4 p i = []
  · by_cases h3 : s.retval3 p i = []
    · by_cases h2 : s.retval2 p i = []
      · exact ⟨h4, h3, h2, by simpa [h4, h3, h2] using h⟩
      · simp [h4, h3, h2] at h
    · simp [h4, h3] at h
  · simp [h4] at h

/-- One class holds no two end points. -/
theorem Apart.eq_of_mem_mostExact (h : s.Apart) (hinv : s.Inv) (hone : s.OneWildCard p i)
    {e x : Ipv4EndPoint Device} (he : e ∈ s.mostExact p i) (hx : x ∈ s.mostExact p i) : e = x := by
  have hexact {y z : Ipv4EndPoint Device} (hy : y.remoteAddressMatchesExact p ∧ y.remotePortMatchesExact p)
      (hz : z.remoteAddressMatchesExact p ∧ z.remotePortMatchesExact p) :
      y.peerAddr = z.peerAddr ∧ y.peerPort = z.peerPort :=
    ⟨(of_decide_eq_true hy.1).trans (of_decide_eq_true hz.1).symm,
      (of_decide_eq_true hy.2).trans (of_decide_eq_true hz.2).symm⟩
  have hwild {y z : Ipv4EndPoint Device} (hy : y.remoteAddressMatchesWildCard ∧ y.remotePortMatchesWildCard)
      (hz : z.remoteAddressMatchesWildCard ∧ z.remotePortMatchesWildCard) :
      y.peerAddr = z.peerAddr ∧ y.peerPort = z.peerPort :=
    ⟨(of_decide_eq_true hy.1).trans (of_decide_eq_true hz.1).symm,
      (of_decide_eq_true hy.2).trans (of_decide_eq_true hz.2).symm⟩
  rcases mostExact_cases s p i with hl | ⟨hl, -⟩ | ⟨hl, -⟩ | ⟨hl, -⟩
  · obtain ⟨he, hem, hel, her⟩ := mem_retval4.mp (hl ▸ he)
    obtain ⟨hx, hxm, hxl, hxr⟩ := mem_retval4.mp (hl ▸ hx)
    obtain ⟨hpeer, hport⟩ := hexact her hxr
    exact h.eq_of_isMatch hinv hone he hx hem hxm hpeer hport (.inl ⟨hel, hxl⟩)
  · obtain ⟨he, hem, hel, her⟩ := mem_retval3.mp (hl ▸ he)
    obtain ⟨hx, hxm, hxl, hxr⟩ := mem_retval3.mp (hl ▸ hx)
    obtain ⟨hpeer, hport⟩ := hexact her hxr
    exact h.eq_of_isMatch hinv hone he hx hem hxm hpeer hport (.inr ⟨hel, hxl⟩)
  · obtain ⟨he, hem, hel, her⟩ := mem_retval2.mp (hl ▸ he)
    obtain ⟨hx, hxm, hxl, hxr⟩ := mem_retval2.mp (hl ▸ hx)
    obtain ⟨hpeer, hport⟩ := hwild her hxr
    exact h.eq_of_isMatch hinv hone he hx hem hxm hpeer hport (.inl ⟨hel, hxl⟩)
  · obtain ⟨he, hem, hel, her⟩ := mem_retval1.mp (hl ▸ he)
    obtain ⟨hx, hxm, hxl, hxr⟩ := mem_retval1.mp (hl ▸ hx)
    obtain ⟨hpeer, hport⟩ := hwild her hxr
    exact h.eq_of_isMatch hinv hone he hx hem hxm hpeer hport (.inr ⟨hel, hxl⟩)

theorem mem_of_mem_mostExact {e : Ipv4EndPoint Device} (he : e ∈ s.mostExact p i) :
    e ∈ s.endPoints ∧ e.isMatch p i := by
  rcases mostExact_cases s p i with hl | ⟨hl, -⟩ | ⟨hl, -⟩ | ⟨hl, -⟩ <;> rw [hl] at he
  · exact ⟨(mem_retval4.mp he).1, (mem_retval4.mp he).2.1⟩
  · exact ⟨(mem_retval3.mp he).1, (mem_retval3.mp he).2.1⟩
  · exact ⟨(mem_retval2.mp he).1, (mem_retval2.mp he).2.1⟩
  · exact ⟨(mem_retval1.mp he).1, (mem_retval1.mp he).2.1⟩

/-- With whole peers every match is in a class. -/
theorem Apart.exists_class (h : s.Apart) {x : Ipv4EndPoint Device} (hx : x ∈ s.endPoints)
    (hmatch : x.isMatch p i) : x ∈ s.retval4 p i ∨ x ∈ s.retval3 p i ∨ x ∈ s.retval2 p i ∨
      x ∈ s.retval1 p i := by
  rcases remote_of_isMatch (h.peer x hx) hmatch with hr | hr <;>
    rcases local_of_isMatch hmatch with hl | hl
  · exact .inl (mem_retval4.mpr ⟨hx, hmatch, hl, hr⟩)
  · exact .inr (.inl (mem_retval3.mpr ⟨hx, hmatch, hl, hr⟩))
  · exact .inr (.inr (.inl (mem_retval2.mpr ⟨hx, hmatch, hl, hr⟩)))
  · exact .inr (.inr (.inr (mem_retval1.mpr ⟨hx, hmatch, hl, hr⟩)))

/-- A match that is as close as one returned is in the same class. -/
theorem Apart.mem_mostExact_of_close (h : s.Apart) {e x : Ipv4EndPoint Device}
    (he : e ∈ s.mostExact p i) (hx : x ∈ s.endPoints) (hmatch : x.isMatch p i)
    (hlocal : e.localAddressMatchesExact p → x.localAddressMatchesExact p)
    (haddr : e.remoteAddressMatchesExact p → x.remoteAddressMatchesExact p)
    (hport : e.remotePortMatchesExact p → x.remotePortMatchesExact p) : x ∈ s.mostExact p i := by
  rcases mostExact_cases s p i with hl | ⟨hl, h4⟩ | ⟨hl, h4, h3⟩ | ⟨hl, h4, h3, h2⟩ <;>
    rw [hl] at he ⊢
  · obtain ⟨-, -, hel, hea, hep⟩ := mem_retval4.mp he
    exact mem_retval4.mpr ⟨hx, hmatch, hlocal hel, haddr hea, hport hep⟩
  · obtain ⟨-, -, -, hea, hep⟩ := mem_retval3.mp he
    rcases local_of_isMatch hmatch with hxl | hxl
    · have hmem := mem_retval4.mpr ⟨hx, hmatch, hxl, haddr hea, hport hep⟩
      exact absurd (h4 ▸ hmem) List.not_mem_nil
    · exact mem_retval3.mpr ⟨hx, hmatch, hxl, haddr hea, hport hep⟩
  · obtain ⟨-, -, hel, -, -⟩ := mem_retval2.mp he
    rcases remote_of_isMatch (h.peer x hx) hmatch with hr | hr
    · have hmem := mem_retval4.mpr ⟨hx, hmatch, hlocal hel, hr⟩
      exact absurd (h4 ▸ hmem) List.not_mem_nil
    · exact mem_retval2.mpr ⟨hx, hmatch, hlocal hel, hr⟩
  · rcases h.exists_class hx hmatch with hmem | hmem | hmem | hmem
    · exact absurd (h4 ▸ hmem) List.not_mem_nil
    · exact absurd (h3 ▸ hmem) List.not_mem_nil
    · exact absurd (h2 ▸ hmem) List.not_mem_nil
    · exact hmem

theorem Apart.length_mostExact (h : s.Apart) (hinv : s.Inv) (hone : s.OneWildCard p i) :
    (s.mostExact p i).length ≤ 1 := by
  have hnodup : s.endPoints.Nodup := by
    refine hinv.nodup.imp ?_
    intro e x hptr heq
    exact hptr (congrArg ptr heq)
  have hlist : (s.mostExact p i).Nodup := by
    rcases mostExact_cases s p i with hl | ⟨hl, -⟩ | ⟨hl, -⟩ | ⟨hl, -⟩ <;> rw [hl]
    · exact hnodup.filter _
    · exact hnodup.filter _
    · exact hnodup.filter _
    · exact hnodup.filter _
  have hall : ∀ e ∈ s.mostExact p i, ∀ x ∈ s.mostExact p i, e = x :=
    fun _ he _ hx => h.eq_of_mem_mostExact hinv hone he hx
  cases hl : s.mostExact p i with
  | nil => exact Nat.zero_le 1
  | cons e rest =>
    cases hr : rest with
    | nil => exact Nat.le_refl 1
    | cons x rest' =>
      rw [hl, hr] at hlist hall
      have hex : e = x := hall e List.mem_cons_self x (by simp)
      subst hex
      exact absurd List.mem_cons_self (List.nodup_cons.mp hlist).1

omit [DecidableEq Device] in
/-- What is closer in something is not farther in the exact matches. -/
theorem MoreSpecific.exact {x e : Ipv4EndPoint Device} (h : MoreSpecific p i x e) :
    (e.localAddressMatchesExact p → x.localAddressMatchesExact p) ∧
    (e.remoteAddressMatchesExact p → x.remoteAddressMatchesExact p) ∧
    (e.remotePortMatchesExact p → x.remotePortMatchesExact p) := by
  obtain ⟨hle, -⟩ := h
  simp only [closeness, List.forall₂_cons, List.forall₂_nil_left_iff, and_true] at hle
  obtain ⟨hlocal, haddr, hport, -⟩ := hle
  refine ⟨?_, ?_, ?_⟩
  · intro he
    rw [if_pos he] at hlocal
    by_contra hx
    rw [if_neg hx] at hlocal
    split at hlocal <;> omega
  · intro he
    rw [if_pos he] at haddr
    by_contra hx
    rw [if_neg hx] at haddr
    omega
  · intro he
    rw [if_pos he] at hport
    by_contra hx
    rw [if_neg hx] at hport
    omega

theorem Apart.unambiguous (h : s.Apart) (hinv : s.Inv) (hone : s.OneWildCard p i) :
    s.Unambiguous p i := by
  have hlen := h.length_mostExact hinv hone
  have hlookup : s.lookup p i = some (s.mostExact p i) := by
    unfold lookup
    rw [if_neg (by omega)]
  refine ⟨⟨_, hlookup, hlen⟩, ?_, ?_, ?_⟩
  · intro l hl e he
    have hle : s.mostExact p i = l := Option.some.inj (hlookup.symm.trans hl)
    exact mem_of_mem_mostExact (hle ▸ he)
  · intro hnil x hx hmatch
    have hempty : s.mostExact p i = [] := Option.some.inj (hlookup.symm.trans hnil)
    obtain ⟨h4, h3, h2, h1⟩ := mostExact_eq_nil hempty
    rcases h.exists_class hx hmatch with hmem | hmem | hmem | hmem
    · exact absurd (h4 ▸ hmem) List.not_mem_nil
    · exact absurd (h3 ▸ hmem) List.not_mem_nil
    · exact absurd (h2 ▸ hmem) List.not_mem_nil
    · exact absurd (h1 ▸ hmem) List.not_mem_nil
  · intro l hl e he x hx hmatch hmore
    have hle : s.mostExact p i = l := Option.some.inj (hlookup.symm.trans hl)
    rw [← hle] at he
    obtain ⟨hlocal, haddr, hport⟩ := hmore.exact
    have hxmem := h.mem_mostExact_of_close he hx hmatch hlocal haddr hport
    have hex : e = x := h.eq_of_mem_mostExact hinv hone he hxmem
    exact hmore.2 (by rw [hex])

/-- What a table that calls have built gives out as a port, and to a packet. -/
theorem demux_law (ops : List (DemuxOp Device)) : (run {} ops).EphemeralLaw ∧
    (ClearRun {} ops → ∀ p i, (run {} ops).OneWildCard p i → (run {} ops).Unambiguous p i) := by
  have hinv : (run {} ops).Inv := Inv.new.run ops
  refine ⟨hinv.ephemeralLaw, ?_⟩
  intro hclear p i hone
  exact (Apart.new.run .new hclear).unambiguous hinv hone

end Lookup

/-- An end point for connections on any device, and one connection of it. -/
def sampleOps : List (DemuxOp Nat) :=
  [.allocatePort none 80, .allocatePeer (some 1) 0x0a000001 80 0x0a000002 49153]

/-- A packet of the connection, and the interface it comes in on. -/
def samplePacket : FourTuple := ⟨0x0a000001, 80, 0x0a000002, 49153⟩

def sampleInterface : Ipv4Interface Nat := ⟨1, [.construct 0x0a000001 0xffffff00]⟩

theorem demux_law_sample : (run {} sampleOps).Unambiguous samplePacket sampleInterface := by
  refine (demux_law sampleOps).2 ?_ samplePacket sampleInterface ?_
  · refine ⟨?_, ⟨?_, ?_⟩, trivial⟩
    · intro _ e he
      exact absurd he List.not_mem_nil
    · exact iff_of_false (by decide) (by decide)
    · intro h
      exact absurd h (by decide)
  · unfold OneWildCard
    decide +kernel

/-- An end point without a device is allocated beside one that is bound to a device, and a packet
on that device is for both. -/
theorem end_points_collide :
    (run {} [.allocatePort (some 1) 80, .allocatePort none 80]).endPoints.length = 2 ∧
    (run {} [.allocatePort (some 1) 80, .allocatePort none 80]).lookup samplePacket
      sampleInterface = none ∧
    ¬(run {} [.allocatePort (some 1) 80, .allocatePort none 80]).Unambiguous samplePacket
      sampleInterface := by
  have hlookup : (run {} [.allocatePort (some 1) 80, .allocatePort none 80]).lookup samplePacket
      sampleInterface = none := by decide +kernel
  refine ⟨by decide, hlookup, ?_⟩
  intro h
  obtain ⟨l, hl, -⟩ := h.atMostOne
  rw [hlookup] at hl
  exact absurd hl (by simp)

end Ipv4EndPointDemux

end CudaNs3.Internet
