import CudaNs3.Internet.NudTimers
import CudaNs3.Lib.Transition

/-!
# Runs of neighbour unreachability detection

What each handler and each timeout does to the entries of the cache, and when it leaves them with
the timer and the queue of their states. A handler that makes an entry STALE stops no timer and
clears no queue, so that it may do so only where neither is left.
-/

namespace CudaNs3.Internet

set_option autoImplicit false

namespace NdiscCache
variable {Mac Packet : Type} {a : NdiscAttributes} {i : NdiscInterface}
  {s : NdiscCache Mac Packet} {now : Nat} {src dst target : Ipv6Address}

/-- Every entry has the timer and the queue of its state, and no packet is lost. -/
def Good (s : NdiscCache Mac Packet) : Prop := ∀ dst, (s dst).Good

theorem update_self (dst : Ipv6Address) (n : Neighbor Mac Packet) : s.update dst n dst = n :=
  Function.update_self ..

theorem update_of_ne {b : Ipv6Address} (h : b ≠ dst) (n : Neighbor Mac Packet) :
    s.update dst n b = s b := Function.update_of_ne h ..

theorem Good.update (h : s.Good) (dst : Ipv6Address) {n : Neighbor Mac Packet} (hn : n.Good) :
    (s.update dst n).Good := by
  intro b
  by_cases hb : b = dst
  · rw [hb, update_self]
    exact hn
  · rw [update_of_ne hb]
    exact h b

theorem Good.setEntry (h : s.Good) {e : NdiscEntry Mac Packet} (he : e.Consistent)
    (hwaiting : e.waiting = (s dst).waiting) : (s.setEntry dst e).Good :=
  h.update dst ((h dst).set he hwaiting)

theorem pass_good (h : s.Good) (hroom : (s dst).HasRoom a) (p : Packet) :
    ∃ t, s.pass a i now dst p = some t ∧ t.Good := by
  obtain ⟨n, found, hlookup, hgood⟩ := Neighbor.lookupPacket_good (h dst) hroom i dst p
  refine ⟨_, ?_, h.update dst hgood⟩
  unfold pass
  dsimp only
  rw [hlookup]
  rfl

/-! ## Packets that waited are sent -/

/-- A packet sent to `dst` goes out at once, and is not put into the queue of another address. -/
def Leads (i : NdiscInterface) (s : NdiscCache Mac Packet) (now : Nat) (target dst : Ipv6Address) :
    Prop :=
  i.isOwn now dst = true ∨ dst.isMulticast = true ∨ dst = target ∨ (s dst).Known

/-- The entry of `target` is REACHABLE, and the others are as they should be. -/
structure Sending (s : NdiscCache Mac Packet) (target : Ipv6Address) : Prop where
  reachable : ∃ e, (s target).entry = some e ∧ e.state = .reachable
  others : ∀ b, b ≠ target → (s b).Good

theorem interfaceSend_spec (h : s.Sending target) (hdst : Leads i s now target dst) (p : Packet) :
    ∃ t, s.interfaceSend a i now target dst p = some t ∧ t target = (s target).send p ∧
      t.Sending target ∧ Leads i t now target dst := by
  obtain ⟨⟨e, he, hreachable⟩, hothers⟩ := h
  -- the state after the lookup, from which the packet goes out
  have hsent : ∀ u : NdiscCache Mac Packet, u target = s target →
      (∀ b, b ≠ target → (u b).Good) → Leads i u now target dst →
      (u.update target ((u target).send p)) target = (s target).send p ∧
        (u.update target ((u target).send p)).Sending target ∧
        Leads i (u.update target ((u target).send p)) now target dst := by
    intro u hu hgood hleads
    rw [hu, update_self]
    refine ⟨rfl, ⟨⟨e, ?_, hreachable⟩, ?_⟩, ?_⟩
    · rw [update_self]
      exact he
    · intro b hb
      rw [update_of_ne hb]
      exact hgood b hb
    · rcases hleads with hown | hmulticast | htarget | hknown
      · exact .inl hown
      · exact .inr (.inl hmulticast)
      · exact .inr (.inr (.inl htarget))
      · by_cases hb : dst = target
        · exact .inr (.inr (.inl hb))
        · refine .inr (.inr (.inr ?_))
          rw [update_of_ne hb]
          exact hknown
  unfold interfaceSend
  by_cases hown : i.isOwn now dst = true ∨ dst.isMulticast = true
  · rw [if_pos (by rw [Bool.or_eq_true]; exact hown)]
    exact ⟨_, rfl, hsent s rfl hothers hdst⟩
  · rw [if_neg (by rw [Bool.or_eq_true]; exact hown)]
    by_cases hb : dst = target
    · have hlookup : (s dst).lookupPacket a i now dst p = some (s dst, true) := by
        unfold Neighbor.lookupPacket
        rw [hb, he]
        dsimp only
        rw [hreachable]
      have hself : s.update dst (s dst) = s := Function.update_eq_self ..
      rw [hlookup, Option.map_some]
      dsimp only
      rw [if_pos rfl, hself]
      exact ⟨_, rfl, hsent s rfl hothers hdst⟩
    · have hknown : (s dst).Known := by
        rcases hdst with h | h | h | h
        · exact absurd (.inl h) hown
        · exact absurd (.inr h) hown
        · exact absurd h hb
        · exact h
      obtain ⟨x, hx, hxstate⟩ := id hknown
      have hempty := ((hothers dst hb).entry x hx).waiting_eq_nil hxstate
      obtain ⟨e', hlookup, hconsistent, hstate⟩ :=
        Neighbor.lookupPacket_known (a := a) (hothers dst hb).entry hknown i dst p
      rw [hlookup, Option.map_some]
      dsimp only
      rw [if_pos rfl]
      refine ⟨_, rfl, hsent _ ?_ ?_ ?_⟩
      · exact update_of_ne (Ne.symm hb) _
      · intro b hne
        by_cases hbd : b = dst
        · rw [hbd, update_self]
          apply (hothers dst hb).set hconsistent
          rw [hconsistent.waiting_eq_nil hstate, Neighbor.waiting_of_entry hx, hempty]
        · rw [update_of_ne hbd]
          exact hothers b hne
      · refine .inr (.inr (.inr ?_))
        rw [update_self]
        exact ⟨e', rfl, hstate⟩

theorem sendAll_spec (h : s.Sending target) (hdst : Leads i s now target dst)
    (packets : List Packet) :
    ∃ t, sendAll a i now target dst packets s = some t ∧
      t target = { s target with out := (s target).out ++ packets } ∧
      ∀ b, b ≠ target → (t b).Good := by
  induction packets generalizing s with
  | nil =>
    refine ⟨s, rfl, ?_, h.others⟩
    rw [List.append_nil]
  | cons p packets ih =>
    obtain ⟨u, hu, htarget, hsending, hleads⟩ := interfaceSend_spec (a := a) h hdst p
    obtain ⟨t, ht, hout, hothers⟩ := ih hsending hleads
    refine ⟨t, ?_, ?_, hothers⟩
    · unfold sendAll
      rw [hu]
      exact ht
    · rw [hout, htarget]
      change { s target with out := (s target).out ++ [p] ++ packets } = _
      rw [List.append_assoc]
      rfl

/-- The entry becomes REACHABLE, and the packets that waited are sent. -/
theorem sendAll_good {e r : NdiscEntry Mac Packet} (h : s.Good) (he : (s target).entry = some e)
    (hdst : e.waiting ≠ [] → Leads i s now target dst) (hreachable : r.state = .reachable) :
    ∃ t, (s.setEntry target r).sendAll a i now target dst e.waiting = some t ∧
      (t target).entry = some r ∧
      ∀ x : NdiscEntry Mac Packet, x.Consistent → x.waiting = [] →
        (t.setEntry target x).Good := by
  have hothers : ∀ b, b ≠ target → ((s.setEntry target r) b).Good := by
    intro b hb
    rw [setEntry, update_of_ne hb]
    exact h b
  have hentry : ((s.setEntry target r) target) = (s target).set r := update_self _ _
  have hall : ∃ t, (s.setEntry target r).sendAll a i now target dst e.waiting = some t ∧
      t target = { (s target).set r with out := (s target).out ++ e.waiting } ∧
      ∀ b, b ≠ target → (t b).Good := by
    cases hwaiting : e.waiting with
    | nil =>
      refine ⟨_, rfl, ?_, hothers⟩
      rw [hentry, List.append_nil]
      rfl
    | cons p packets =>
      rw [← hwaiting]
      have hsending : (s.setEntry target r).Sending target := by
        refine ⟨⟨r, ?_, hreachable⟩, hothers⟩
        rw [hentry]
        rfl
      have hleads : Leads i (s.setEntry target r) now target dst := by
        rcases hdst (by rw [hwaiting]; nofun) with hown | hmulticast | htarget | hknown
        · exact .inl hown
        · exact .inr (.inl hmulticast)
        · exact .inr (.inr (.inl htarget))
        · by_cases hb : dst = target
          · exact .inr (.inr (.inl hb))
          · refine .inr (.inr (.inr ?_))
            rw [setEntry, update_of_ne hb]
            exact hknown
      obtain ⟨t, ht, htarget, hgood⟩ := sendAll_spec (a := a) hsending hleads e.waiting
      refine ⟨t, ht, ?_, hgood⟩
      rw [htarget, hentry]
      rfl
  obtain ⟨t, ht, htarget, hgood⟩ := hall
  refine ⟨t, ht, by rw [htarget]; rfl, ?_⟩
  intro x hx hempty b
  by_cases hb : b = target
  · rw [hb, setEntry, update_self, htarget]
    refine ⟨?_, (h target).accounted.flushed he hempty⟩
    intro y hy
    rw [← Option.some.inj hy]
    exact hx
  · rw [setEntry, update_of_ne hb]
    exact hgood b hb

/-! ## Messages -/

/-- The options of an NS that are read. -/
def solicited : List (NdOption Mac) → List Mac
  | .sourceLinkLayer mac :: options => mac :: solicited options
  | _ => []

theorem sourceOption_some (options : List (NdOption Mac)) (mac : Mac)
    (h : solicited options = []) : sourceOption options (some mac) = some (some mac) := by
  cases options with
  | nil => rfl
  | cons option options =>
    cases option with
    | sourceLinkLayer mac => cases h
    | targetLinkLayer mac => rfl
    | prefixInformation => rfl
    | mtu => rfl
    | unknown => rfl

theorem sourceOption_eq (options : List (NdOption Mac)) (h : (solicited options).length ≤ 1) :
    sourceOption options none = some (solicited options).head? := by
  cases options with
  | nil => rfl
  | cons option options =>
    cases option with
    | sourceLinkLayer mac =>
      have hnone : (solicited options).length = 0 := Nat.le_zero.mp (Nat.le_of_succ_le_succ h)
      exact sourceOption_some options mac (List.eq_nil_of_length_eq_zero hnone)
    | targetLinkLayer mac => rfl
    | prefixInformation => rfl
    | mtu => rfl
    | unknown => rfl

/-- The options of an RA that are read. -/
def advertised (options : List (NdOption Mac)) : List (NdOption Mac) :=
  options.takeWhile fun option => match option with
    | .sourceLinkLayer _ | .prefixInformation | .mtu => true
    | .targetLinkLayer _ | .unknown => false

theorem advertised_cons {option : NdOption Mac} (options : List (NdOption Mac))
    (h : (match option with
      | .sourceLinkLayer _ | .prefixInformation | .mtu => true
      | .targetLinkLayer _ | .unknown => false) = true) :
    advertised (option :: options) = option :: advertised options := List.takeWhile_cons_of_pos h

def isMtu : NdOption Mac → Bool
  | .mtu => true
  | _ => false

def isSource : NdOption Mac → Bool
  | .sourceLinkLayer _ => true
  | _ => false

/-- An RA brings at most one MTU and one link-layer address, those that have been read included. -/
structure ReadOnce (options : List (NdOption Mac)) (hasMtu hasLla : Bool) : Prop where
  mtu : (advertised options).countP isMtu + hasMtu.toNat ≤ 1
  source : (advertised options).countP isSource + hasLla.toNat ≤ 1

section Messages
variable [DecidableEq Mac] {mac : Mac}

/-- An entry with another link-layer address is in a state without a timer. -/
def Replaceable (n : Neighbor Mac Packet) (mac : Mac) : Prop :=
  ∀ e, n.entry = some e → e.macAddress ≠ some mac → e.state.timeout = none

theorem markStaleBy_good {n : Neighbor Mac Packet} (h : n.Good) (hmac : Replaceable n mac) :
    (n.markStaleBy mac).Good := by
  unfold Neighbor.markStaleBy
  cases he : n.entry with
  | none =>
    refine h.set (NdiscEntry.consistent_of_settled ⟨rfl, rfl⟩ rfl) ?_
    rw [Neighbor.waiting_of_none he]
  | some e =>
    dsimp only
    split
    · rename_i hother
      have hsettled := (h.entry e he).settled (hmac e he hother)
      exact h.set (NdiscEntry.consistent_of_settled hsettled rfl)
        (Neighbor.waiting_of_entry he).symm
    · exact h

theorem handleRedirection_good (h : s.Good) (destination : Ipv6Address)
    (options : List (NdOption Mac))
    (hmac : ∀ mac rest, options = .targetLinkLayer mac :: rest → Replaceable (s target) mac) :
    (s.handleRedirection target destination options).Good := by
  unfold handleRedirection
  split
  · rename_i mac rest
    cases he : (s target).entry with
    | none =>
      refine h.setEntry (NdiscEntry.consistent_of_settled ⟨rfl, rfl⟩ rfl) ?_
      rw [Neighbor.waiting_of_none he]
    | some e =>
      dsimp only
      split
      · rename_i hother
        have hsettled := ((h target).entry e he).settled (hmac mac rest rfl e he hother)
        exact h.setEntry (NdiscEntry.consistent_of_settled hsettled rfl)
          (Neighbor.waiting_of_entry he).symm
      · exact h
  · exact h

/-- What an RA with a link-layer address leaves as it should be. -/
structure Receivable (n : Neighbor Mac Packet) (mac : Mac) : Prop where
  replaced : ∀ e, n.entry = some e → e.state ≠ .incomplete → e.macAddress ≠ some mac →
    e.state.timeout = none
  probed : ∀ e, n.entry = some e → e.state = .probe → e.macAddress = some mac →
    e.waiting = []

theorem receiveLLA_good (h : s.Good) (hmac : Receivable (s src) mac) :
    ∃ t, s.receiveLLA a i now src mac = some t ∧ t.Good := by
  unfold receiveLLA
  cases he : (s src).entry with
  | none =>
    refine ⟨_, rfl, h.setEntry (NdiscEntry.consistent_startTimer rfl nofun nofun) ?_⟩
    rw [Neighbor.waiting_of_none he]
    rfl
  | some e =>
    have hcons := (h src).entry e he
    have hwaiting : e.waiting = (s src).waiting := (Neighbor.waiting_of_entry he).symm
    have hreachable (hempty : e.waiting = []) :
        ((e.stopNudTimer.markReachable mac).startReachableTimer a now).Consistent :=
      NdiscEntry.consistent_startTimer (e := e.stopNudTimer.markReachable mac) rfl
        (fun hne => absurd hempty hne) nofun
    have hstale (hstate : e.state ≠ .incomplete) (hother : e.macAddress ≠ some mac) :
        (((e.setMacAddress mac).markStale).setRouter true).Consistent :=
      NdiscEntry.consistent_of_settled (hcons.settled (hmac.replaced e he hstate hother)) rfl
    have hkept (hempty : e.waiting = []) (hstate : e.state ≠ .incomplete) :
        ∃ t, (if e.macAddress ≠ some mac then
            some (s.setEntry src (((e.setMacAddress mac).markStale).setRouter true))
          else some (s.setEntry src ((e.stopNudTimer.markReachable mac).startReachableTimer a now)))
            = some t ∧ t.Good := by
      split
      · rename_i hother
        exact ⟨_, rfl, h.setEntry (hstale hstate hother) hwaiting⟩
      · exact ⟨_, rfl, h.setEntry (hreachable hempty) hwaiting⟩
    have hfixed (hstate : e.state ≠ .incomplete) :
        ∃ t, (if e.macAddress ≠ some mac then
            some (s.setEntry src (((e.setMacAddress mac).markStale).setRouter true))
          else some s) = some t ∧ t.Good := by
      split
      · rename_i hother
        exact ⟨_, rfl, h.setEntry (hstale hstate hother) hwaiting⟩
      · exact ⟨_, rfl, h⟩
    have hempty (hqueues : ¬ e.state.queues) : e.waiting = [] := hcons.waiting_eq_nil hqueues
    dsimp only
    cases hs : e.state with
    | incomplete =>
      obtain ⟨t, ht, hentry, hgood⟩ := sendAll_good (a := a)
        (r := (e.stopNudTimer.markReachable mac).startReachableTimer a now) h he
        (fun _ => .inr (.inr (.inl rfl))) rfl
      dsimp only
      rw [ht, Option.map_some]
      refine ⟨_, rfl, ?_⟩
      unfold clearWaiting
      rw [hentry]
      exact hgood _ (NdiscEntry.consistent_startTimer
        (e := (e.stopNudTimer.markReachable mac).clearWaitingPacket) rfl nofun nofun) rfl
    | stale => exact hkept (hempty (by rw [hs]; nofun)) (by rw [hs]; nofun)
    | delay => exact hkept (hempty (by rw [hs]; nofun)) (by rw [hs]; nofun)
    | probe =>
      dsimp only
      split
      · rename_i hother
        exact ⟨_, rfl, h.setEntry (hstale (by rw [hs]; nofun) hother) hwaiting⟩
      · rename_i hsame
        have hnone := hmac.probed e he hs (not_not.mp hsame)
        obtain ⟨t, ht, hentry, hgood⟩ := sendAll_good (a := a)
          (r := e.stopNudTimer.markReachable mac) h he (fun _ => .inr (.inr (.inl rfl))) rfl
        rw [ht, Option.map_some]
        refine ⟨_, rfl, ?_⟩
        rw [hentry]
        exact hgood _ (hreachable hnone) hnone
    | reachable =>
      have hnone := hempty (by rw [hs]; nofun)
      refine ⟨_, rfl, h.setEntry ?_ ?_⟩
      · split
        · rename_i hother
          -- another address would be STALE with its timer started
          have hnever := hmac.replaced e he (by rw [hs]; nofun) hother
          rw [hs] at hnever
          cases hnever
        · exact NdiscEntry.consistent_startTimer (by rw [hs]; rfl) (fun hne => absurd hnone hne)
            (by rw [hs]; nofun)
      · split
        · exact hwaiting
        · exact hwaiting
    | permanent => exact hfixed (by rw [hs]; nofun)
    | staticAutogenerated => exact hfixed (by rw [hs]; nofun)

theorem handleRS_good (h : s.Good) (options : List (NdOption Mac))
    (hmac : ∀ mac rest, options = .sourceLinkLayer mac :: rest → src.isAny = false →
      Replaceable (s src) mac) : (s.handleRS src options).Good := by
  unfold handleRS
  split
  · rename_i mac rest
    split
    · exact h
    · rename_i hany
      exact h.update src (markStaleBy_good (h src)
        (hmac mac rest rfl (Bool.not_eq_true _ ▸ hany)))
  · exact h

theorem handleNS_good (h : s.Good) (probe : Bool) (options : List (NdOption Mac))
    (hoptions : i.isOwn now target = true → probe = false → (solicited options).length ≤ 1 ∧
      ∀ mac ∈ (solicited options).head?, src.isAny = false → Replaceable (s src) mac) :
    ∃ t, s.handleNS i now src target probe options = some t ∧ t.Good := by
  unfold handleNS
  split
  · exact ⟨s, rfl, h⟩
  · rename_i hcond
    rw [Bool.or_eq_true, not_or, Bool.not_eq_true', Bool.not_eq_false, Bool.not_eq_true] at hcond
    obtain ⟨hsingle, hmac⟩ := hoptions hcond.1 hcond.2
    rw [sourceOption_eq options hsingle, Option.map_some]
    refine ⟨_, rfl, ?_⟩
    split
    · rename_i mac heq
      split
      · exact h
      · rename_i hany
        exact h.update src (markStaleBy_good (h src)
          (hmac mac heq (Bool.not_eq_true _ ▸ hany)))
    · exact h

theorem handleRA_good (options : List (NdOption Mac)) :
    ∀ (hasMtu hasLla : Bool) (s : NdiscCache Mac Packet), s.Good →
      ReadOnce options hasMtu hasLla →
      (∀ mac, .sourceLinkLayer mac ∈ advertised options → Receivable (s src) mac) →
      ∃ t, handleRA a i now src options hasMtu hasLla s = some t ∧ t.Good := by
  induction options with
  | nil => exact fun hasMtu hasLla s h _ _ => ⟨s, rfl, h⟩
  | cons option options ih =>
    intro hasMtu hasLla s h hread hmac
    cases option with
    | targetLinkLayer mac => exact ⟨s, rfl, h⟩
    | unknown => exact ⟨s, rfl, h⟩
    | prefixInformation =>
      obtain ⟨hmtu, hsource⟩ := hread
      rw [advertised_cons _ rfl, List.countP_cons_of_neg Bool.false_ne_true] at hmtu hsource
      apply ih hasMtu hasLla s h ⟨hmtu, hsource⟩
      exact fun mac hmem => hmac mac (List.mem_cons_of_mem _ hmem)
    | mtu =>
      obtain ⟨hmtu, hsource⟩ := hread
      rw [advertised_cons _ rfl, List.countP_cons_of_pos rfl] at hmtu
      rw [advertised_cons _ rfl, List.countP_cons_of_neg Bool.false_ne_true] at hsource
      cases hasMtu with
      | true => exact absurd hmtu (by rw [Bool.toNat_true]; omega)
      | false =>
        apply ih true hasLla s h ⟨hmtu, hsource⟩
        exact fun mac hmem => hmac mac (List.mem_cons_of_mem _ hmem)
    | sourceLinkLayer mac =>
      obtain ⟨hmtu, hsource⟩ := hread
      rw [advertised_cons _ rfl, List.countP_cons_of_neg Bool.false_ne_true] at hmtu
      rw [advertised_cons _ rfl, List.countP_cons_of_pos rfl] at hsource
      cases hasLla with
      | true => exact absurd hsource (by rw [Bool.toNat_true]; omega)
      | false =>
        obtain ⟨t, ht, hgood⟩ := receiveLLA_good (a := a) (i := i) h
          (hmac mac List.mem_cons_self)
        have hnone : ∀ mac, .sourceLinkLayer mac ∉ advertised options := by
          intro mac hmem
          have hpos : 0 < (advertised options).countP isSource :=
            List.countP_pos_iff.mpr ⟨_, hmem, rfl⟩
          omega
        obtain ⟨u, hu, hugood⟩ := ih hasMtu true t hgood ⟨hmtu, hsource⟩
          (fun mac hmem => absurd hmem (hnone mac))
        refine ⟨u, ?_, hugood⟩
        unfold handleRA
        rw [if_neg Bool.false_ne_true, ht]
        exact hu

/-- What an advertisement with a link-layer address leaves as it should be. -/
def Advertisable (i : NdiscInterface) (s : NdiscCache Mac Packet) (now : Nat)
    (src target : Ipv6Address) (flagS flagO : Bool) (mac : Mac) : Prop :=
  ∀ e, (s target).entry = some e →
    match e.state with
    | .incomplete => flagS = true ∧ Leads i s now target src
    | .reachable => flagO = true ∨ e.macAddress = some mac → flagS = true
    | .delay => flagS = true ∧ (flagO = true ∨ e.macAddress = some mac)
    | .probe => flagS = true ∧ (flagO = true ∨ e.macAddress = some mac) ∧
        (e.waiting ≠ [] → Leads i s now target src)
    | .stale | .permanent | .staticAutogenerated => True

theorem handleNA_good (h : s.Good) (flagR flagS flagO : Bool) (options : List (NdOption Mac))
    (hmac : ∀ mac rest, options = .targetLinkLayer mac :: rest →
      Advertisable i s now src target flagS flagO mac) :
    ∃ t, s.handleNA a i now src target flagR flagS flagO options = some t ∧ t.Good := by
  unfold handleNA
  split
  · rename_i e mac rest he
    have hallowed := hmac mac rest rfl e he
    have hcons := (h target).entry e he
    have hwaiting : e.waiting = (s target).waiting := (Neighbor.waiting_of_entry he).symm
    have hempty (hqueues : ¬ e.state.queues) : e.waiting = [] := hcons.waiting_eq_nil hqueues
    -- the timer has been stopped, and is started again for a REACHABLE entry
    have hstarted (e' : NdiscEntry Mac Packet) (hstate : e'.state = .reachable)
        (hnone : e'.waiting = []) : ((e'.startReachableTimer a now).setRouter flagR).Consistent :=
      NdiscEntry.consistent_startTimer (e := e'.setRouter flagR)
        (show e'.state.timeout = _ by rw [hstate]; rfl) (fun hne => absurd hnone hne)
        (fun hincomplete => absurd (hstate.symm.trans hincomplete) nofun)
    have hstill {state : NdiscCacheEntryState} (e' : NdiscEntry Mac Packet)
        (hstate : e'.state = state) (hstopped : e'.nudTimer.expires = none) (hnone : e'.waiting = [])
        (htimeout : state.timeout = none) : e'.Consistent :=
      NdiscEntry.consistent_of_settled ⟨hstopped, hnone⟩ (by rw [hstate]; exact htimeout)
    have hstopped : e.stopNudTimer.state = e.state := rfl
    dsimp only
    rw [hstopped]
    cases hs : e.state with
    | incomplete =>
      rw [hs] at hallowed
      obtain ⟨hflag, hleads⟩ := hallowed
      have hrouter : ∀ e' : NdiscEntry Mac Packet, e'.waiting = e.waiting →
          ∃ t, (((s.setEntry target ((e'.markReachable mac).startReachableTimer a now)).sendAll
            a i now target src e'.waiting).map fun s => s.clearWaiting target) = some t ∧ t.Good := by
        intro e' he'
        obtain ⟨t, ht, hentry, hgood⟩ := sendAll_good (a := a)
          (r := (e'.markReachable mac).startReachableTimer a now) h he (fun _ => hleads) rfl
        rw [he', ht, Option.map_some]
        refine ⟨_, rfl, ?_⟩
        unfold clearWaiting
        rw [hentry]
        exact hgood _ (NdiscEntry.consistent_startTimer
          (e := (e'.markReachable mac).clearWaitingPacket) rfl nofun nofun) rfl
      rw [if_pos hflag]
      apply hrouter
      split
      · rfl
      · rfl
    | reachable =>
      rw [hs] at hallowed
      have hnone := hempty (by rw [hs]; nofun)
      dsimp only
      split
      · exact ⟨_, rfl, h.setEntry (hstill e.stopNudTimer.markStale rfl rfl hnone rfl) hwaiting⟩
      · rename_i htaken
        rw [Bool.not_eq_true', Bool.not_eq_false, Bool.or_eq_true, decide_eq_true_iff] at htaken
        have hflag := hallowed htaken
        refine ⟨_, rfl, h.setEntry (e := NdiscEntry.setRouter _ _) ?_ ?_⟩
        · rw [if_pos hflag]
          exact hstarted _ hs hnone
        · rw [if_pos hflag]
          exact hwaiting
    | stale =>
      have hnone := hempty (by rw [hs]; nofun)
      dsimp only
      split
      · refine ⟨_, rfl, h.setEntry (e := NdiscEntry.setRouter _ _) ?_ ?_⟩
        · split
          · exact hstarted _ rfl hnone
          · exact hstill ((e.stopNudTimer.setMacAddress mac).setRouter flagR) hs rfl hnone rfl
        · split
          · exact hwaiting
          · exact hwaiting
      · exact ⟨_, rfl, h.setEntry (e := e.stopNudTimer) (hstill _ hs rfl hnone rfl) hwaiting⟩
    | delay =>
      rw [hs] at hallowed
      obtain ⟨hflag, htaken⟩ := hallowed
      have hnone := hempty (by rw [hs]; nofun)
      have hcond : (flagO || decide (e.stopNudTimer.macAddress = some mac)) = true := by
        rw [Bool.or_eq_true, decide_eq_true_iff]
        exact htaken
      dsimp only
      rw [if_pos hcond]
      refine ⟨_, rfl, h.setEntry (e := NdiscEntry.setRouter _ _) ?_ ?_⟩
      · rw [if_pos hflag]
        exact hstarted _ rfl hnone
      · rw [if_pos hflag]
        exact hwaiting
    | probe =>
      rw [hs] at hallowed
      obtain ⟨hflag, htaken, hleads⟩ := hallowed
      obtain ⟨t, ht, hentry, hgood⟩ := sendAll_good (a := a)
        (r := (e.stopNudTimer.setMacAddress mac).markReachable mac) h he hleads rfl
      have hcond : (flagO || decide (e.stopNudTimer.macAddress = some mac)) = true := by
        rw [Bool.or_eq_true, decide_eq_true_iff]
        exact htaken
      dsimp only
      rw [if_pos hcond, if_pos hflag]
      change ∃ u : NdiscCache Mac Packet,
        Option.map _ (sendAll a i now target src e.waiting _) = some u ∧ u.Good
      rw [ht, Option.map_some]
      refine ⟨_, rfl, ?_⟩
      rw [hentry]
      exact hgood _ (hstarted _ rfl rfl) rfl
    | permanent =>
      have hnone := hempty (by rw [hs]; nofun)
      dsimp only
      split
      · exact ⟨_, rfl, h.setEntry (e := (e.stopNudTimer.setMacAddress mac).setRouter flagR)
          (hstill _ hs rfl hnone rfl) hwaiting⟩
      · exact ⟨_, rfl, h.setEntry (e := e.stopNudTimer) (hstill _ hs rfl hnone rfl) hwaiting⟩
    | staticAutogenerated =>
      have hnone := hempty (by rw [hs]; nofun)
      dsimp only
      split
      · exact ⟨_, rfl, h.setEntry (e := (e.stopNudTimer.setMacAddress mac).setRouter flagR)
          (hstill _ hs rfl hnone rfl) hwaiting⟩
      · exact ⟨_, rfl, h.setEntry (e := e.stopNudTimer) (hstill _ hs rfl hnone rfl) hwaiting⟩
  · exact ⟨s, rfl, h⟩

end Messages
/-! ## Timeouts -/

/-- A timeout for `::` is one that makes its entry a PROBE entry without a timer. -/
def Named (s : NdiscCache Mac Packet) (dst : Ipv6Address) : Prop :=
  ∀ e, (s dst).entry = some e → e.state = .delay ∨ e.state = .probe → dst.isAny = false

theorem remove_good {n : Neighbor Mac Packet} {e : NdiscEntry Mac Packet} (h : n.Good)
    (hwaiting : e.waiting = n.waiting) : ((n.set e).remove).Good :=
  (h.accounted.set hwaiting).good_remove

theorem functionDelayTimeout_good {n : Neighbor Mac Packet} {e : NdiscEntry Mac Packet}
    (h : n.Good) (hwaiting : e.waiting = n.waiting) (hdst : dst.isAny = false) :
    (n.functionDelayTimeout a i now dst e).Good := by
  unfold Neighbor.functionDelayTimeout
  rw [hdst]
  dsimp only
  split
  · exact remove_good h hwaiting
  · exact h.set (NdiscEntry.consistent_startTimer rfl (fun _ => .inr rfl) nofun) hwaiting

theorem functionProbeTimeout_good {n : Neighbor Mac Packet} {e : NdiscEntry Mac Packet}
    (h : n.Good) (hwaiting : e.waiting = n.waiting) (hstate : e.state = .probe)
    (hdst : dst.isAny = false) : (n.functionProbeTimeout a i now dst e).Good := by
  unfold Neighbor.functionProbeTimeout
  rw [hdst]
  split
  · dsimp only
    split
    · exact remove_good h hwaiting
    · refine h.set (NdiscEntry.consistent_startTimer ?_ (fun _ => .inr hstate) ?_) hwaiting
      · change e.state.timeout = _
        rw [hstate]
        rfl
      · intro hincomplete
        exact absurd (hstate.symm.trans hincomplete) nofun
  · exact remove_good h hwaiting

/-- The error message is passed before the entry, whose timer has expired, is removed. -/
theorem pass_remove_good {e : NdiscEntry Mac Packet} {source : Ipv6Address} (h : s.Good)
    (hwaiting : e.waiting = (s dst).waiting) (hstate : e.state = .incomplete)
    (hne : e.waiting ≠ []) (hroom : source ≠ dst → (s source).HasRoom a) (p : Packet) :
    ∃ t, (s.setEntry dst e).pass a i now source p = some t ∧
      (t.update dst (t dst).remove).Good := by
  have haccounted := (h dst).accounted.set hwaiting
  by_cases hb : source = dst
  · obtain ⟨m, e', hm, hmaccounted, -⟩ := Neighbor.addWaitingPacket_spec (a := a) haccounted rfl
      (fun hnone => absurd hnone hne) p
    refine ⟨s.update dst m, ?_, ?_⟩
    · unfold pass
      rw [hb, setEntry, update_self]
      dsimp only
      rw [Neighbor.lookupPacket_queues rfl (.inl hstate), hm, Option.map_some, Option.map_some]
      dsimp only
      rw [if_neg Bool.false_ne_true]
      exact congrArg some (Function.update_idem ..)
    · rw [update_self]
      intro b
      by_cases hbd : b = dst
      · rw [hbd, update_self]
        exact hmaccounted.good_remove
      · rw [update_of_ne hbd, update_of_ne hbd]
        exact h b
  · obtain ⟨n, found, hlookup, hgood⟩ :=
      Neighbor.lookupPacket_good (h source) (hroom hb) i source p
    refine ⟨(s.setEntry dst e).update source (if found then n.send p else n), ?_, ?_⟩
    · unfold pass
      rw [setEntry, update_of_ne hb]
      dsimp only
      rw [hlookup]
      rfl
    · rw [update_of_ne (Ne.symm hb), setEntry, update_self]
      intro b
      by_cases hbd : b = dst
      · rw [hbd, update_self]
        exact haccounted.good_remove
      · rw [update_of_ne hbd]
        by_cases hbs : b = source
        · rw [hbs, update_self]
          exact hgood
        · rw [update_of_ne hbs, update_of_ne hbd]
          exact h b

/-- The error message finds room. -/
def Tellable (a : NdiscAttributes) (i : NdiscInterface) (s : NdiscCache Mac Packet) (now : Nat)
    (dst : Ipv6Address) (error : Option (Ipv6Address × Packet)) : Prop :=
  ∀ e, (s dst).entry = some e → e.state = .incomplete → Neighbor.hasSource i now dst = true →
    a.maxMulticastSolicit ≤ e.nsRetransmit →
      ∀ source p, error = some (source, p) → source ≠ dst → (s source).HasRoom a

theorem functionRetransmitTimeout_good {e : NdiscEntry Mac Packet}
    {error : Option (Ipv6Address × Packet)} (h : s.Good) (hwaiting : e.waiting = (s dst).waiting)
    (hs : e.state = .incomplete) (hne : e.waiting ≠ [])
    (herror : Neighbor.hasSource i now dst = true → a.maxMulticastSolicit ≤ e.nsRetransmit →
      ∀ source p, error = some (source, p) → source ≠ dst → (s source).HasRoom a) :
    ∃ t, s.functionRetransmitTimeout a i now dst e error = some t ∧ t.Good := by
  have htimeout : e.state.timeout = some .retransmitTimeout := by
    rw [hs]
    rfl
  unfold functionRetransmitTimeout
  split
  · exact ⟨_, rfl, h.update dst (remove_good (h dst) hwaiting)⟩
  · rename_i hsource
    rw [Bool.not_eq_true', Bool.not_eq_false] at hsource
    split
    · exact ⟨_, rfl, h.setEntry (NdiscEntry.consistent_startTimer
        (e := { e with nsRetransmit := e.nsRetransmit + 1 }) htimeout (fun _ => .inl hs)
        (fun _ => hne)) hwaiting⟩
    · rename_i hmax
      dsimp only
      cases hcase : error with
      | none =>
        refine ⟨_, rfl, ?_⟩
        dsimp only
        rw [setEntry, update_self]
        intro b
        by_cases hb : b = dst
        · rw [hb, update_self]
          exact remove_good (h dst) hwaiting
        · rw [update_of_ne hb, update_of_ne hb]
          exact h b
      | some message =>
        obtain ⟨source, p⟩ := message
        obtain ⟨t, ht, hgood⟩ := pass_remove_good (a := a) (i := i) h hwaiting hs hne
          (herror hsource (Nat.not_lt.mp hmax) source p hcase) p
        refine ⟨_, ?_, hgood⟩
        dsimp only
        rw [ht, Option.map_some]

theorem timeout_good {error : Option (Ipv6Address × Packet)} (h : s.Good)
    (hexpires : ∃ e ∈ (s dst).entry, e.nudTimer.expires = some now) (hdst : s.Named dst)
    (herror : Tellable a i s now dst error) :
    ∃ t, s.timeout a i now dst error = some t ∧ t.Good := by
  obtain ⟨e, he, hexpires⟩ := hexpires
  have he : (s dst).entry = some e := he
  have hcons := (h dst).entry e he
  have htimed := hcons.timer
  set x : NdiscEntry Mac Packet :=
    { e with nudTimer := { e.nudTimer with expires := none } } with hx
  have hwaiting : x.waiting = (s dst).waiting := (Neighbor.waiting_of_entry he).symm
  unfold NdiscEntry.Timed at htimed
  unfold timeout
  rw [he]
  dsimp only
  rw [← hx]
  cases hs : e.state with
  | stale =>
    rw [hs] at htimed
    exact absurd (htimed.symm.trans hexpires) nofun
  | permanent =>
    rw [hs] at htimed
    exact absurd (htimed.symm.trans hexpires) nofun
  | staticAutogenerated =>
    rw [hs] at htimed
    exact absurd (htimed.symm.trans hexpires) nofun
  | reachable =>
    rw [hs] at htimed
    rw [htimed.1]
    have hnone := hcons.waiting_eq_nil (by rw [hs]; nofun)
    exact ⟨_, rfl, h.update dst ((h dst).set
      (NdiscEntry.consistent_of_settled (e := x.markStale) ⟨rfl, hnone⟩ rfl) hwaiting)⟩
  | delay =>
    rw [hs] at htimed
    rw [htimed.1]
    exact ⟨_, rfl, h.update dst (functionDelayTimeout_good (h dst) hwaiting (hdst e he (.inl hs)))⟩
  | probe =>
    rw [hs] at htimed
    rw [htimed.1]
    exact ⟨_, rfl, h.update dst
      (functionProbeTimeout_good (h dst) hwaiting hs (hdst e he (.inr hs)))⟩
  | incomplete =>
    rw [hs] at htimed
    rw [htimed.1]
    exact functionRetransmitTimeout_good h hwaiting hs (hcons.queued hs) (herror e he hs)

theorem confirm_good (h : s.Good) (now : Nat) (src : Ipv6Address) : (s.confirm now src).Good := by
  unfold confirm
  split
  · rename_i e he
    have hcons := (h src).entry e he
    refine h.setEntry ?_ ?_
    · unfold NdiscEntry.updateReachableTimer
      split
      · rename_i hs
        refine ⟨?_, hcons.waiting, hcons.queued⟩
        have htimed := hcons.timer
        unfold NdiscEntry.Timed at htimed ⊢
        rw [hs] at htimed ⊢
        exact ⟨htimed.1, nofun⟩
      · exact hcons
    · rw [Neighbor.waiting_of_entry he]
      unfold NdiscEntry.updateReachableTimer
      split
      · rfl
      · rfl
  · exact h

/-! ## Runs -/

theorem start_good (permanent generated : Ipv6Address → Option Mac) :
    (start permanent generated : NdiscCache Mac Packet).Good := by
  intro dst
  have hentry : ∀ e, (start permanent generated dst : Neighbor Mac Packet).entry = some e →
      e.Settled ∧ e.state.timeout = none := by
    intro e he
    unfold start at he
    dsimp only at he
    split at he
    · obtain rfl := Option.some.inj he
      exact ⟨⟨rfl, rfl⟩, rfl⟩
    · obtain rfl := Option.some.inj he
      exact ⟨⟨rfl, rfl⟩, rfl⟩
    · cases he
  have hnone : (start permanent generated dst : Neighbor Mac Packet).waiting = [] := by
    cases he : (start permanent generated dst : Neighbor Mac Packet).entry with
    | none => exact Neighbor.waiting_of_none he
    | some e =>
      rw [Neighbor.waiting_of_entry he]
      exact (hentry e he).1.2
  refine ⟨fun e he => NdiscEntry.consistent_of_settled (hentry e he).1 (hentry e he).2, ?_, ?_⟩
  · rw [hnone]
    exact List.Sublist.refl []
  · rw [hnone]
    exact List.Perm.refl []

section Runs
variable [DecidableEq Mac]

/-- What keeps the timers and the queues in step with the states of the entries. -/
def Harmless (a : NdiscAttributes) (i : NdiscInterface) (s : NdiscCache Mac Packet) :
    Nat × Happening Mac Packet → Prop
  | (_, .lookup _) => True
  | (_, .pass dst _) => (s dst).HasRoom a
  | (now, .solicitation src target probe options) =>
    i.isOwn now target = true → probe = false → (solicited options).length ≤ 1 ∧
      ∀ mac ∈ (solicited options).head?, src.isAny = false → Replaceable (s src) mac
  | (now, .advertisement src target _ flagS flagO options) =>
    ∀ mac rest, options = .targetLinkLayer mac :: rest →
      Advertisable i s now src target flagS flagO mac
  | (_, .routerSolicitation src options) =>
    ∀ mac rest, options = .sourceLinkLayer mac :: rest → src.isAny = false →
      Replaceable (s src) mac
  | (_, .routerAdvertisement src options) =>
    ReadOnce options false false ∧
      ∀ mac, .sourceLinkLayer mac ∈ advertised options → Receivable (s src) mac
  | (_, .redirection target _ options) =>
    ∀ mac rest, options = .targetLinkLayer mac :: rest → Replaceable (s target) mac
  | (_, .confirm _) => True
  | (now, .timeout dst error) => s.Named dst ∧ Tellable a i s now dst error

theorem step_good {happening : Nat × Happening Mac Packet} (h : s.Good)
    (hoccurs : s.Occurs happening) (hharmless : s.Harmless a i happening) :
    ∃ t, s.step a i happening = some t ∧ t.Good := by
  obtain ⟨now, happening⟩ := happening
  cases happening with
  | lookup dst => exact ⟨_, rfl, h.update dst (Neighbor.lookup_good (h dst))⟩
  | pass dst p => exact pass_good h hharmless p
  | solicitation src target probe options => exact handleNS_good h probe options hharmless
  | advertisement src target flagR flagS flagO options =>
    exact handleNA_good h flagR flagS flagO options hharmless
  | routerSolicitation src options => exact ⟨_, rfl, handleRS_good h options hharmless⟩
  | routerAdvertisement src options =>
    exact handleRA_good options false false s h hharmless.1 hharmless.2
  | redirection target destination options =>
    exact ⟨_, rfl, handleRedirection_good h destination options hharmless⟩
  | confirm src => exact ⟨_, rfl, confirm_good h now src⟩
  | timeout dst error => exact timeout_good h hoccurs hharmless.1 hharmless.2

/-- In a run of harmless happenings every handler returns, every entry has the timer and the
queue of its state, and no packet is lost or repeated. -/
theorem good_of_harmless (a : NdiscAttributes) (i : NdiscInterface)
    (permanent generated : Ipv6Address → Option Mac) (run : List (Nat × Happening Mac Packet))
    (h : Transition.Along (step a i) (fun s x => s.Occurs x ∧ s.Harmless a i x)
      (start permanent generated) run) :
    ∃ s, Transition.exec (step a i) (start permanent generated) run = some s ∧
      ∀ dst, (s dst).Good := by
  obtain ⟨s, hs, hgood, -⟩ := Transition.exec_along Good (fun _ => ()) (fun _ _ => ())
    (fun s x hgood hx => by
      obtain ⟨t, ht, htgood⟩ := step_good hgood hx.1 hx.2
      exact ⟨t, ht, htgood, rfl⟩) (start_good permanent generated) h
  exact ⟨s, hs, hgood⟩

end Runs

/-! ## Two runs -/

/-- The default attributes, in milliseconds. -/
def usualNdisc : NdiscAttributes where
  unresQlen := 3
  maxMulticastSolicit := 3
  maxUnicastSolicit := 3
  reachableTime := 30000
  retransmissionTime := 1000
  delayFirstProbe := 5000

/-- An interface with the address fe80::1. -/
def linkLocal : NdiscInterface where
  isOwn := fun _ dst => dst = 0xfe800000000000000000000000000001
  nAddresses := fun _ => 1
  hasMatching := fun _ _ => true

def neighbor : Ipv6Address := 0xfe800000000000000000000000000002

/-- A packet waits, the neighbour answers, and its address grows old. -/
def answered : List (Nat × Happening Nat Nat) :=
  [(0, .pass neighbor 7), (1, .advertisement neighbor neighbor false true true [.targetLinkLayer 2]),
   (30001, .timeout neighbor none)]

theorem good_of_harmless_answered :
    ∃ s, Transition.exec (step usualNdisc linkLocal) (start (fun _ => none) fun _ => none) answered
      = some s ∧ ∀ dst, (s dst).Good := by
  apply good_of_harmless
  refine ⟨⟨trivial, nofun⟩, ?_⟩
  intro s hs
  obtain rfl := Option.some.inj hs
  refine ⟨⟨trivial, ?_⟩, ?_⟩
  · intro mac rest hoptions e he
    obtain rfl := Option.some.inj he
    exact ⟨rfl, .inr (.inr (.inl rfl))⟩
  · intro t ht
    obtain rfl := Option.some.inj ht
    refine ⟨⟨⟨_, rfl, rfl⟩, ?_, ?_⟩, fun _ _ => trivial⟩
    · intro e he hstate
      obtain rfl := Option.some.inj he
      exact absurd hstate nofun
    · intro e he hstate
      obtain rfl := Option.some.inj he
      cases hstate

/-- The neighbour solicits routers while a packet waits for its address. -/
def whileWaiting : List (Nat × Happening Nat Nat) :=
  [(0, .pass neighbor 7), (1, .routerSolicitation neighbor [.sourceLinkLayer 2])]

theorem not_good :
    Transition.Along (step usualNdisc linkLocal) Occurs (start (fun _ => none) fun _ => none)
        whileWaiting ∧
      ∃ s e, Transition.exec (step usualNdisc linkLocal) (start (fun _ => none) fun _ => none)
          whileWaiting = some s ∧
        (s neighbor).entry = some e ∧ e.state = .stale ∧ e.nudTimer.expires = some 1000 ∧
        e.waiting = [7] ∧ ¬ (s neighbor).Good := by
  refine ⟨⟨trivial, fun _ _ => ⟨trivial, fun _ _ => trivial⟩⟩, ?_⟩
  refine ⟨_, _, rfl, rfl, rfl, rfl, rfl, ?_⟩
  intro hgood
  have htimer := (hgood.entry _ rfl).timer
  cases htimer

end NdiscCache
end CudaNs3.Internet
