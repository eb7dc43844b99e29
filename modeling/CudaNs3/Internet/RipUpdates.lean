import CudaNs3.Internet.RipRuns
import CudaNs3.Lib.Words

/-!
# What a periodic update sends

One packet and one header serve all the packets of an interface: the header is put on the packet
when it is full, and taken off again after the packet has been sent. `Deserialize` appends to the
RTEs that the header still holds, so that more than the packet holds is taken off, and nothing is
left of it.
-/

namespace CudaNs3.Internet

open Words
set_option autoImplicit false

/-- The next hop of an RTE is always zero here. -/
def RipRte.serialize (rte : RipRte) : List UInt8 :=
  toBytes 2 2 ++ toBytes 2 rte.tag.toNat ++ toBytes 4 rte.network.toNat ++
    toBytes 4 rte.subnetMask.toNat ++ toBytes 4 0 ++ toBytes 4 rte.metric

/-- An RTE that has not been read. -/
def RipRte.unread : RipRte := ⟨0x7f000001, 0, 0, 16⟩

/-- The RTE, and how far the iterator moves. -/
def RipRte.deserialize (bs : List UInt8) : RipRte × Nat :=
  if ofBytes (bs.take 2) ≠ 2 then (.unread, 0)
  else
    (⟨BitVec.ofNat 32 (ofBytes ((bs.drop 4).take 4)), BitVec.ofNat 32 (ofBytes ((bs.drop 8).take 4)),
      BitVec.ofNat 16 (ofBytes ((bs.drop 2).take 2)), ofBytes ((bs.drop 16).take 4)⟩, 20)

structure RipHeader where
  command : Nat
  rteList : List RipRte

namespace RipHeader

def request : Nat := 1

def response : Nat := 2

def getSerializedSize (h : RipHeader) : Nat := 4 + h.rteList.length * 20

def getRteNumber (h : RipHeader) : Nat := h.rteList.length % 2 ^ 16

def addRte (h : RipHeader) (rte : RipRte) : RipHeader := { h with rteList := h.rteList ++ [rte] }

def clearRtes (h : RipHeader) : RipHeader := { h with rteList := [] }

def serialize (h : RipHeader) : List UInt8 :=
  toBytes 1 h.command ++ toBytes 1 2 ++ toBytes 2 0 ++ h.rteList.flatMap RipRte.serialize

/-- The loop of `Deserialize`. -/
def readRtes : Nat → List UInt8 → List RipRte
  | 0, _ => []
  | n + 1, bs => (RipRte.deserialize bs).1 :: readRtes n (bs.drop (RipRte.deserialize bs).2)

/-- The header that has been read into, and the size that is returned. -/
def deserialize (h : RipHeader) (bs : List UInt8) : RipHeader × Nat :=
  let temp := ofBytes (bs.take 1)
  if temp = request ∨ temp = response then
    let h := { h with command := temp }
    if ofBytes ((bs.drop 1).take 1) ≠ 2 then (h, 0)
    else if ofBytes ((bs.drop 2).take 2) ≠ 0 then (h, 0)
    else
      -- the number of RTEs is kept in 8 bits
      let rteNumber := (bs.drop 4).length / 20 % 256
      let h := { h with rteList := h.rteList ++ readRtes rteNumber (bs.drop 4) }
      (h, h.getSerializedSize)
  else (h, 0)

theorem length_serialize (h : RipHeader) : h.serialize.length = h.getSerializedSize := by
  have hrte (rte : RipRte) : rte.serialize.length = 20 := by
    simp only [RipRte.serialize, List.length_append, length_toBytes]
  have hrtes (l : List RipRte) : (l.flatMap RipRte.serialize).length = l.length * 20 := by
    induction l with
    | nil => rfl
    | cons rte l ih =>
      rw [List.flatMap_cons, List.length_append, hrte, ih, List.length_cons]
      omega
  simp only [serialize, List.length_append, length_toBytes, hrtes, getSerializedSize]

theorem length_readRtes (n : Nat) (bs : List UInt8) : (readRtes n bs).length = n := by
  induction n generalizing bs with
  | zero => rfl
  | succ n ih => rw [readRtes, List.length_cons, ih]

/-- A response that is read into the header it was written from: the size returned is not less
than that of the packet. -/
theorem deserialize_serialize (rtes : List RipRte) :
    ((⟨response, rtes⟩ : RipHeader).deserialize (serialize ⟨response, rtes⟩)).1.command = response ∧
    (serialize ⟨response, rtes⟩).length ≤
      ((⟨response, rtes⟩ : RipHeader).deserialize (serialize ⟨response, rtes⟩)).2 := by
  have hbytes : serialize ⟨response, rtes⟩ =
      2 :: 2 :: 0 :: 0 :: rtes.flatMap RipRte.serialize := rfl
  have hlen := length_serialize ⟨response, rtes⟩
  rw [hbytes] at hlen ⊢
  have h2 : ofBytes [2] = 2 := rfl
  have h0 : ofBytes [0, 0] = 0 := rfl
  refine ⟨?_, ?_⟩
  · simp [deserialize, h2, h0, response]
  · have hsize : ((⟨response, rtes⟩ : RipHeader).deserialize
        (2 :: 2 :: 0 :: 0 :: rtes.flatMap RipRte.serialize)).2 =
          getSerializedSize ⟨response, rtes⟩ + (rtes.flatMap RipRte.serialize).length / 20 % 256 * 20 := by
      simp [deserialize, h2, h0, response, getSerializedSize, length_readRtes, Nat.add_mul, Nat.add_assoc]
    rw [hlen, hsize]
    exact Nat.le_add_right _ _

end RipHeader

namespace Rip

/-! ### The packets -/

/-- The loop over the routes with its packet and its header, and what is sent after it. -/
def sendRtes (maxRte : Nat) : List (Option RipRte) → List UInt8 → RipHeader → List (List UInt8)
  | [], p, hdr => if hdr.getRteNumber > 0 then [hdr.serialize ++ p] else []
  | rte :: rtes, p, hdr =>
    let hdr := match rte with
      | some rte => hdr.addRte rte
      | none => hdr
    if hdr.getRteNumber = maxRte then
      let p := hdr.serialize ++ p
      let (hdr, size) := hdr.deserialize p
      p :: sendRtes maxRte rtes (p.drop size) hdr.clearRtes
    else sendRtes maxRte rtes p hdr

def sendPackets (s : Rip) (periodic : Bool) (socket : SendingSocket) : List (List UInt8) :=
  if s.excluded socket.interface then []
  else sendRtes (maxRte socket.mtu) (s.routes.map fun r => s.updateRte periodic socket r.entry) []
    ⟨RipHeader.response, []⟩

/-- The packets are those of the headers that are filled. -/
theorem sendRtes_eq (limit : Nat) (rtes : List (Option RipRte)) (header : List RipRte) :
    sendRtes limit rtes [] ⟨RipHeader.response, header⟩ =
      (fillHeaders limit rtes header).map fun l => RipHeader.serialize ⟨RipHeader.response, l⟩ := by
  induction rtes generalizing header with
  | nil =>
    unfold sendRtes fillHeaders RipHeader.getRteNumber
    dsimp only
    split
    · rw [List.append_nil]
      rfl
    · rfl
  | cons rte rtes ih =>
    have hadd : (match rte with
        | some rte => (⟨RipHeader.response, header⟩ : RipHeader).addRte rte
        | none => ⟨RipHeader.response, header⟩) = ⟨RipHeader.response, header ++ rte.toList⟩ := by
      cases rte with
      | none => simp
      | some rte => rfl
    unfold sendRtes fillHeaders
    rw [hadd]
    dsimp only
    by_cases hnumber : (⟨RipHeader.response, header ++ rte.toList⟩ : RipHeader).getRteNumber = limit
    · have hfull : (header ++ rte.toList).length % 2 ^ 16 = limit := hnumber
      obtain ⟨hcommand, hsize⟩ := RipHeader.deserialize_serialize (header ++ rte.toList)
      have hclear : ((⟨RipHeader.response, header ++ rte.toList⟩ : RipHeader).deserialize
          (RipHeader.serialize ⟨RipHeader.response, header ++ rte.toList⟩)).1.clearRtes =
          ⟨RipHeader.response, []⟩ := by
        unfold RipHeader.clearRtes
        rw [hcommand]
      rw [if_pos hnumber, if_pos hfull, List.append_nil, List.map_cons,
        List.drop_eq_nil_of_le hsize, hclear, ih []]
    · have hfull : ¬(header ++ rte.toList).length % 2 ^ 16 = limit := hnumber
      rw [if_neg hnumber, if_neg hfull]
      exact ih _

theorem sendPackets_eq (s : Rip) (periodic : Bool) (socket : SendingSocket) :
    s.sendPackets periodic socket =
      (s.updatesAt periodic socket).map fun l => RipHeader.serialize ⟨RipHeader.response, l⟩ := by
  unfold sendPackets updatesAt
  split
  · rfl
  · exact sendRtes_eq _ _ _

/-! ### What they carry -/

/-- The headers hold the RTEs one after the other, none is empty and none has more than fit. -/
theorem fillHeaders_spec {limit : Nat} (hpos : 0 < limit) (hlt : limit < 2 ^ 16)
    (rtes : List (Option RipRte)) {header : List RipRte} (h : header.length < limit) :
    (fillHeaders limit rtes header).flatten = header ++ rtes.filterMap id ∧
      ∀ l ∈ fillHeaders limit rtes header, l.length ≤ limit := by
  induction rtes generalizing header with
  | nil =>
    unfold fillHeaders
    rw [Nat.mod_eq_of_lt (h.trans hlt)]
    split
    · refine ⟨by simp, ?_⟩
      intro l hl
      rw [List.mem_singleton.mp hl]
      exact h.le
    · rename_i hzero
      have hnil : header = [] := List.length_eq_zero_iff.mp (by omega)
      refine ⟨by simp [hnil], ?_⟩
      intro l hl
      exact absurd hl List.not_mem_nil
  | cons rte rtes ih =>
    have hflat : header ++ (rte :: rtes).filterMap id =
        header ++ rte.toList ++ rtes.filterMap id := by
      cases rte with
      | none => simp
      | some rte => simp
    have hle : (header ++ rte.toList).length ≤ limit := by
      cases rte with
      | none => simpa using h.le
      | some rte =>
        rw [List.length_append]
        exact h
    unfold fillHeaders
    dsimp only
    rw [hflat, Nat.mod_eq_of_lt (hle.trans_lt hlt)]
    by_cases hfull : (header ++ rte.toList).length = limit
    · have hnil : ([] : List RipRte).length < limit := hpos
      obtain ⟨hrest, hsizes⟩ := ih hnil
      rw [if_pos hfull]
      refine ⟨by rw [List.flatten_cons, hrest, List.nil_append], ?_⟩
      intro l hl
      rcases List.mem_cons.mp hl with rfl | hl
      · exact hle
      · exact hsizes l hl
    · rw [if_neg hfull]
      exact ih (Nat.lt_of_le_of_ne hle hfull)

/-- The route leads to the network of an address of the interface. -/
def OwnNetwork (socket : SendingSocket) (e : RipRoutingTableEntry) : Prop :=
  ∃ a ∈ socket.addresses, a.networkAddress = e.destNetwork

/-- Split horizon keeps the route from where it leads. -/
def Suppressed (s : Rip) (socket : SendingSocket) (e : RipRoutingTableEntry) : Prop :=
  s.attributes.splitHorizonStrategy = .splitHorizon ∧ e.interface = socket.interface

def Poisoned (s : Rip) (socket : SendingSocket) (e : RipRoutingTableEntry) : Prop :=
  s.attributes.splitHorizonStrategy = .poisonReverse ∧ e.interface = socket.interface

def Eligible (s : Rip) (socket : SendingSocket) (e : RipRoutingTableEntry) : Prop :=
  isGlobalOrDefault socket.interface e ∧ ¬OwnNetwork socket e ∧ ¬Suppressed s socket e

instance (socket : SendingSocket) (e : RipRoutingTableEntry) : Decidable (OwnNetwork socket e) :=
  inferInstanceAs (Decidable (∃ a ∈ socket.addresses, a.networkAddress = e.destNetwork))

instance (s : Rip) (socket : SendingSocket) (e : RipRoutingTableEntry) :
    Decidable (Suppressed s socket e) := inferInstanceAs (Decidable (_ ∧ _))

instance (s : Rip) (socket : SendingSocket) (e : RipRoutingTableEntry) :
    Decidable (Poisoned s socket e) := inferInstanceAs (Decidable (_ ∧ _))

instance (s : Rip) (socket : SendingSocket) (e : RipRoutingTableEntry) :
    Decidable (Eligible s socket e) := inferInstanceAs (Decidable (_ ∧ _))

/-- The eligible routes of the table, in its order. -/
def eligible (s : Rip) (socket : SendingSocket) : List RipRoutingTableEntry :=
  (s.routes.map (·.entry)).filter fun e => Eligible s socket e

theorem updateRte_eq (s : Rip) (socket : SendingSocket) (e : RipRoutingTableEntry) :
    s.updateRte true socket e =
      if Eligible s socket e then some (s.toRte socket.interface e) else none := by
  have hown : (socket.addresses.any fun a => a.networkAddress = e.destNetwork) = true ↔
      OwnNetwork socket e := by
    simp [OwnNetwork]
  have hann : s.isAnnounced socket.interface e = true ↔ ¬Suppressed s socket e := by
    simp only [isAnnounced, Suppressed, Bool.or_eq_true, decide_eq_true_eq, not_and]
    exact or_iff_not_imp_left.trans (by rw [ne_eq, not_not])
  unfold updateRte
  dsimp only
  refine if_congr ?_ rfl rfl
  simp only [Bool.and_eq_true, Bool.true_or, Bool.not_eq_true', ← Bool.not_eq_true, hown, hann,
    Eligible, and_true, and_assoc]

theorem filterMap_updateRte (s : Rip) (socket : SendingSocket) :
    (s.routes.map fun r => s.updateRte true socket r.entry).filterMap id =
      (s.eligible socket).map (s.toRte socket.interface) := by
  rw [eligible, List.filterMap_map]
  induction s.routes with
  | nil => rfl
  | cons r l ih =>
    rw [List.filterMap_cons, List.map_cons, List.filter_cons, ih]
    simp only [Function.comp_apply, id, updateRte_eq]
    by_cases he : Eligible s socket r.entry
    · simp [he]
    · simp [he]

/-- The packets of the interface carry one RTE for each eligible route, its metric is infinity
exactly where it is poisoned or invalid, and each fits into the MTU. -/
structure UpdateLaw (s : Rip) (socket : SendingSocket) : Prop where
  carries : ∃ headers : List (List RipRte),
    s.sendPackets true socket =
        headers.map (fun l => RipHeader.serialize ⟨RipHeader.response, l⟩) ∧
      headers.flatten = (s.eligible socket).map (s.toRte socket.interface)
  metric : ∀ e ∈ s.eligible socket, (s.toRte socket.interface e).metric = s.linkDown ↔
    Poisoned s socket e ∨ e.status = .ripInvalid
  size : ∀ p ∈ s.sendPackets true socket, 20 + 8 + p.length ≤ socket.mtu

/-- The metric of an eligible route says whether it is valid. -/
def MetricsAgree (s : Rip) (socket : SendingSocket) : Prop :=
  ∀ e ∈ s.eligible socket, ¬Poisoned s socket e → (e.metric = s.linkDown ↔ e.status = .ripInvalid)

theorem toRte_metric (s : Rip) (socket : SendingSocket) (e : RipRoutingTableEntry) :
    (s.toRte socket.interface e).metric =
      if Poisoned s socket e then s.linkDown else e.metric := by
  unfold toRte Poisoned
  dsimp only
  refine if_congr ?_ rfl rfl
  rw [Bool.and_eq_true, decide_eq_true_eq, decide_eq_true_eq]

theorem maxRte_eq {mtu : Nat} (h : 52 ≤ mtu) (hlt : mtu < 2 ^ 16) : maxRte mtu = (mtu - 32) / 20 := by
  unfold maxRte
  omega

theorem updateLaw_iff (s : Rip) (socket : SendingSocket) (hex : s.excluded socket.interface = false)
    (hmtu : 52 ≤ socket.mtu) (hlt : socket.mtu < 2 ^ 16) :
    s.UpdateLaw socket ↔ s.MetricsAgree socket := by
  have hlimit := maxRte_eq hmtu hlt
  have hupdates : s.updatesAt true socket = fillHeaders (maxRte socket.mtu)
      (s.routes.map fun r => s.updateRte true socket r.entry) [] := by
    unfold updatesAt
    rw [hex]
    rfl
  have hpos : 0 < maxRte socket.mtu := by omega
  have hnil : ([] : List RipRte).length < maxRte socket.mtu := hpos
  obtain ⟨hflat, hsizes⟩ := fillHeaders_spec hpos (by omega)
    (s.routes.map fun r => s.updateRte true socket r.entry) hnil
  rw [← hupdates] at hflat hsizes
  constructor
  · intro h e he hpoison
    have hmetric := h.metric e he
    rw [toRte_metric, if_neg hpoison] at hmetric
    rw [hmetric, or_iff_right hpoison]
  · intro h
    refine ⟨⟨s.updatesAt true socket, sendPackets_eq s true socket, ?_⟩, ?_, ?_⟩
    · rw [hflat, filterMap_updateRte, List.nil_append]
    · intro e he
      rw [toRte_metric]
      by_cases hpoison : Poisoned s socket e
      · rw [if_pos hpoison]
        exact iff_of_true rfl (.inl hpoison)
      · rw [if_neg hpoison, or_iff_right hpoison]
        exact h e he hpoison
    · intro p hp
      rw [sendPackets_eq] at hp
      obtain ⟨l, hl, rfl⟩ := List.mem_map.mp hp
      have hle := hsizes l hl
      rw [RipHeader.length_serialize, RipHeader.getSerializedSize]
      dsimp only
      omega

/-- A run of harmless happenings leaves such a table. -/
theorem Consistent.metricsAgree {s : Rip} (h : s.Consistent) (socket : SendingSocket) :
    s.MetricsAgree socket := by
  intro e he _
  obtain ⟨r, hr, rfl⟩ := List.mem_map.mp (List.mem_of_mem_filter he)
  constructor
  · intro hmetric
    cases hstatus : r.entry.status with
    | ripValid =>
      have hlt := h.valid r hr hstatus
      omega
    | ripInvalid => rfl
  · intro hstatus
    exact (h.invalid r hr hstatus).1

/-- A socket on a second interface. -/
def otherSocket : SendingSocket where
  interface := 2
  localAddress := 0x0a030001
  mtu := 1500
  addresses := [.construct 0x0a030001 0xffff0000]

/-- A table with the network of the first one. -/
def localTable : Rip :=
  (atStart .usual).notifyInterfaceUp 1 false true [.construct 0x0a010001 0xffff0000]

theorem updateLaw_iff_local : localTable.UpdateLaw otherSocket ↔ localTable.MetricsAgree otherSocket :=
  updateLaw_iff localTable otherSocket rfl (by decide) (by decide)

/-- Another router says that the network is lost, late in the time of the route. -/
def heardFromOther : Nat × Happening :=
  (100, .response [⟨0x0a020000, 0xffff0000, 0, 16⟩] 0x0a010003 1)

/-- The route is valid again then, with a metric of infinity, and is announced so. -/
theorem announces_valid_as_lost : ∃ s,
    Transition.Along step Occurs (atStart .usual) [up, heard 1 3, heard 2 16, heardFromOther] ∧
    Transition.exec step (atStart .usual) [up, heard 1 3, heard 2 16, heardFromOther] = some s ∧
    ¬s.UpdateLaw otherSocket := by
  refine ⟨_, by decide +kernel, rfl, ?_⟩
  intro h
  have hroute := h.metric ⟨0x0a020000, 0xffff0000, 0x0a010003, 1, 0, 16, .ripValid, true⟩
    (by decide +kernel)
  exact absurd hroute (by decide +kernel)

end Rip

end CudaNs3.Internet
