import Mathlib.Data.List.Induction
import CudaNs3.Applications.PacketSink

/-!
# Messages through any segmentation

What `PacketSink` reports of the streams of several senders, cut into packets and interleaved
in any way. What is reported and what is in the buffer is always what has arrived; the
reports are timely exactly as long as no header is read early and no message without payload
is left behind.
-/

namespace CudaNs3.Applications

set_option autoImplicit false

/-- The messages cut off in one call when `n` bytes are in the buffer: after each the code goes on
only when more than a header is left. -/
def cut : Nat → List Message → List Message
  | _, [] => []
  | n, m :: ms =>
    if m.size ≤ n then m :: if 20 < n - m.size then cut (n - m.size) ms else [] else []

theorem cutMessages_spec {passes : Nat} {b : List UInt8} {m : Message} {ms : List Message}
    (h : b <+: Frames.stream Message.encode (m :: ms)) (hlen : 20 ≤ b.length)
    (hpasses : b.length < passes) :
    ∃ rest ms', cutMessages passes b m.header =
        some ((cut b.length (m :: ms)).map fun m => (m.payload, m.header), rest) ∧
      m :: ms = cut b.length (m :: ms) ++ ms' ∧
      b = Frames.stream Message.encode (cut b.length (m :: ms)) ++ rest := by
  induction passes generalizing b m ms with
  | zero => omega
  | succ passes ih =>
    unfold cutMessages
    rw [Message.toNat_header_size]
    by_cases hle : m.size ≤ b.length
    · have henc : m.encode.length ≤ b.length := by rwa [Message.length_encode]
      obtain ⟨hb, hrest⟩ := Frames.prefix_drop h henc
      rw [Message.length_encode] at hb hrest
      set b' := b.drop m.size with hb'
      have htake : b.take m.size = m.encode := by
        rw [hb]
        exact List.take_left' Message.length_encode
      have hmod : m.size % 2 ^ 32 = m.size := Nat.mod_eq_of_lt m.fits
      have hcut : SeqTsSizeHeader.deserialize m.encode = some m.header :=
        SeqTsSizeHeader.deserialize_append _ _
      have hpayload : m.encode.drop 20 = m.payload :=
        List.drop_left' (SeqTsSizeHeader.length_serialize _)
      have hheader : SeqTsSizeHeader.getSerializedSize = 20 := rfl
      have hlength : b'.length = b.length - m.size := List.length_drop
      have hsize : 20 ≤ m.size := Message.le_size
      rw [if_pos hle]
      simp only [hmod, htake, ← hb', hcut, hheader, hpayload, Option.bind_eq_bind, Option.bind_some]
      unfold cut
      rw [if_pos hle, ← hlength]
      by_cases hmore : 20 < b'.length
      · cases ms with
        | nil =>
          rw [Frames.stream_nil, List.prefix_nil] at hrest
          rw [hrest] at hmore
          cases hmore
        | cons m' ms =>
          obtain ⟨rest, ms', hcutrest, hms, hstream⟩ := ih hrest hmore.le (by omega)
          have hfront := Message.deserialize_front hrest hmore.le
          rw [if_pos hmore, if_pos hmore, hfront]
          simp only [Option.bind_some, hcutrest]
          refine ⟨rest, ms', rfl, ?_, ?_⟩
          · rw [List.cons_append, ← hms]
          · rw [Frames.stream_cons, List.append_assoc, ← hstream]
            exact hb
      · rw [if_neg hmore, if_neg hmore]
        refine ⟨b', ms, rfl, rfl, ?_⟩
        simpa using hb
    · unfold cut
      rw [if_neg hle, if_neg hle]
      exact ⟨b, m :: ms, rfl, rfl, rfl⟩

theorem Message.size_eq_iff {m : Message} : m.size = 20 ↔ m.payload = [] := by
  rw [Message.size, SeqTsSizeHeader.getSerializedSize, ← List.length_eq_zero_iff]
  omega

/-- Of no more bytes than a header has only a message without payload can be complete. -/
theorem completed_of_le {n : Nat} (ms : List Message) (hn : n ≤ 20) :
    Frames.completed Message.encode n ms = [] ∨
      ∃ m, Frames.completed Message.encode n ms = [m] ∧ n = 20 ∧ m.payload = [] := by
  cases ms with
  | nil => exact Or.inl rfl
  | cons m ms =>
    have hlength := Message.length_encode (m := m)
    have hsize := Message.le_size (m := m)
    by_cases hle : m.size ≤ n
    · right
      refine ⟨m, ?_, by omega, Message.size_eq_iff.mp (by omega)⟩
      rw [Frames.completed_cons_of_le (by omega), List.cons_inj_right]
      cases ms with
      | nil => rfl
      | cons m' ms =>
        have hlength' := Message.length_encode (m := m')
        have hsize' := Message.le_size (m := m')
        exact Frames.completed_cons_of_lt (by omega)
    · exact Or.inl (Frames.completed_cons_of_lt (by omega))

/-- A message without payload that fills up the buffer after another one is not cut off. -/
def HeldBack (n : Nat) (ms : List Message) : Prop :=
  Frames.total Message.encode (Frames.completed Message.encode n ms) = n ∧
    2 ≤ (Frames.completed Message.encode n ms).length ∧
    ∃ m ∈ (Frames.completed Message.encode n ms).getLast?, m.payload = []

theorem cut_eq_completed_iff {n : Nat} {ms : List Message} :
    cut n ms = Frames.completed Message.encode n ms ↔ ¬ HeldBack n ms := by
  induction ms generalizing n with
  | nil => simp [cut, Frames.completed, HeldBack]
  | cons m ms ih =>
    by_cases hle : m.size ≤ n
    · have henc : m.encode.length ≤ n := by rwa [Message.length_encode]
      have hlength := Message.length_encode (m := m)
      rw [HeldBack, Frames.completed_cons_of_le henc, Frames.total_cons, hlength]
      unfold cut
      rw [if_pos hle, List.cons_inj_right]
      have htotal : Frames.total Message.encode (Frames.completed Message.encode (n - m.size) ms) =
          n - m.size ↔ m.size + Frames.total Message.encode
            (Frames.completed Message.encode (n - m.size) ms) = n := by omega
      rw [← htotal]
      by_cases hmore : 20 < n - m.size
      · rw [if_pos hmore, ih, HeldBack, not_iff_not]
        generalize hX : Frames.completed Message.encode (n - m.size) ms = X
        cases X with
        | nil => simp
        | cons x X =>
          cases X with
          | cons y X => simp
          | nil =>
            have hne : Frames.total Message.encode [x] = n - m.size → x.payload ≠ [] := by
              intro htot hnil
              rw [Frames.total_cons, Message.length_encode, Message.size_eq_iff.mpr hnil] at htot
              simp at htot
              omega
            simp only [List.length_cons, List.length_nil, List.getLast?_cons_cons,
              List.getLast?_singleton, Option.mem_def, Option.some.injEq, exists_eq_left']
            constructor
            · rintro ⟨-, hlen, -⟩
              omega
            · rintro ⟨htot, -, hnil⟩
              exact absurd hnil (hne htot)
      · rw [if_neg hmore]
        rcases completed_of_le ms (Nat.not_lt.mp hmore) with hX | ⟨x, hX, hn, hnil⟩
        · rw [hX]
          simp
        · rw [hX]
          have hsize := Message.size_eq_iff.mpr hnil
          simp [hnil, hsize, hn]
    · have hlt : n < m.encode.length := by
        rw [Message.length_encode]
        exact Nat.not_le.mp hle
      rw [HeldBack, Frames.completed_cons_of_lt hlt]
      unfold cut
      rw [if_neg hle]
      simp

theorem completed_zero {ms : List Message} : Frames.completed Message.encode 0 ms = [] := by
  rcases completed_of_le ms (Nat.zero_le 20) with h | ⟨m, -, hn, -⟩
  · exact h
  · cases hn

/-- The same of a stream of which some messages were reported before. -/
theorem heldBack_iff (R ms : List Message) (n : Nat) :
    HeldBack n ms ↔
      Frames.total Message.encode (R ++ Frames.completed Message.encode n ms) =
          Frames.total Message.encode R + n ∧
        R.length + 2 ≤ (R ++ Frames.completed Message.encode n ms).length ∧
        ∃ m ∈ (R ++ Frames.completed Message.encode n ms).getLast?, m.payload = [] := by
  rw [HeldBack, Frames.total_append, List.length_append]
  generalize Frames.completed Message.encode n ms = C
  cases C with
  | nil => simp
  | cons c C =>
    rw [List.getLast?_append_of_ne_nil _ (List.cons_ne_nil c C)]
    constructor
    · rintro ⟨htotal, hlen, hlast⟩
      exact ⟨by omega, by omega, hlast⟩
    · rintro ⟨htotal, hlen, hlast⟩
      exact ⟨by omega, by omega, hlast⟩

/-- What has arrived from a sender. -/
def delivered {Address : Type} [DecidableEq Address] (a : Address)
    (rs : List (Reception Address)) : List UInt8 :=
  (rs.filter (·.sender = a)).flatMap (·.packet)

/-- The streams are cut into packets that are not empty. -/
structure WellCut {Address : Type} [DecidableEq Address] (streams : Address → List Message)
    (rs : List (Reception Address)) : Prop where
  nonempty : ∀ r ∈ rs, r.packet ≠ []
  isPrefix : ∀ a, delivered a rs <+: Frames.stream Message.encode (streams a)

theorem WellCut.init {Address : Type} [DecidableEq Address] {streams : Address → List Message}
    {rs : List (Reception Address)} {r : Reception Address} (h : WellCut streams (rs ++ [r])) : WellCut streams rs := by
  refine ⟨fun x hx => h.nonempty x (List.mem_append_left _ hx), ?_⟩
  intro a
  refine List.IsPrefix.trans ?_ (h.isPrefix a)
  unfold delivered
  rw [List.filter_append, List.flatMap_append]
  exact List.prefix_append _ _

theorem delivered_concat_self {Address : Type} [DecidableEq Address]
    {rs : List (Reception Address)} {r : Reception Address} :
    delivered r.sender (rs ++ [r]) = delivered r.sender rs ++ r.packet := by
  simp [delivered]

theorem delivered_concat_of_ne {Address : Type} [DecidableEq Address] {a : Address}
    {rs : List (Reception Address)} {r : Reception Address} (h : r.sender ≠ a) :
    delivered a (rs ++ [r]) = delivered a rs := by
  simp [delivered, h]

/-- The payload and the header a message is reported with. -/
def Message.reported (m : Message) : List UInt8 × SeqTsSizeHeader := (m.payload, m.header)

namespace PacketSink
variable {Address : Type} [DecidableEq Address]
variable {streams : Address → List Message} {rs : List (Reception Address)}
variable {s s' : PacketSink Address} {r : Reception Address}

def reportsOf (s : PacketSink Address) (a : Address) : List (List UInt8 × SeqTsSizeHeader) :=
  (s.rxTraceWithSeqTsSize.filter (·.sender = a)).map fun r => (r.payload, r.header)

/-- The messages `R a` of each sender are reported, those of `Q a` are not yet, and the buffer
holds what has arrived after the former. -/
structure Synced (streams : Address → List Message) (rs : List (Reception Address))
    (s : PacketSink Address) (R Q : Address → List Message) : Prop where
  split : ∀ a, streams a = R a ++ Q a
  reports : ∀ a, s.reportsOf a = (R a).map Message.reported
  buffered : ∀ a, delivered a rs =
    Frames.stream Message.encode (R a) ++ (s.buffer a).getD []

theorem handleRead_concat (h : ∀ x ∈ rs, x.packet ≠ []) (hr : r.packet ≠ []) :
    handleRead s (rs ++ [r]) = (handleRead s rs).bind fun s =>
      packetReceived { s with totalRx := s.totalRx + r.packet.length } r := by
  induction rs generalizing s with
  | nil =>
    have hlen : r.packet.length ≠ 0 := fun h => hr (List.length_eq_zero_iff.mp h)
    simp only [List.nil_append, handleRead, if_neg hlen, Option.bind_some]
    exact Option.bind_fun_some _
  | cons x rs ih =>
    have hlen : x.packet.length ≠ 0 := fun hx =>
      h x List.mem_cons_self (List.length_eq_zero_iff.mp hx)
    have ih' := fun {s} => @ih s fun y hy => h y (List.mem_cons_of_mem _ hy)
    simp only [List.cons_append, handleRead, if_neg hlen, ih', Option.bind_assoc]

/-- One packet: too little for a header, or the messages of `cut` are reported. -/
theorem packetReceived_spec {R Q : Address → List Message} {b : List UInt8}
    (h : Synced streams rs s R Q) (hcut : WellCut streams (rs ++ [r]))
    (hb : (s.buffer r.sender).getD [] ++ r.packet = b) :
    if b.length < 20 then packetReceived s r = none
    else ∃ s' Q', packetReceived s r = some s' ∧ Synced streams (rs ++ [r]) s'
      (Function.update R r.sender (R r.sender ++ cut b.length (Q r.sender))) Q' := by
  have hdelivered : delivered r.sender (rs ++ [r]) =
      Frames.stream Message.encode (R r.sender) ++ b := by
    have hbuf := h.buffered r.sender
    rw [delivered_concat_self, hbuf, List.append_assoc, hb]
  split
  · rename_i hshort
    unfold packetReceived
    simp only [hb, SeqTsSizeHeader.deserialize_of_short hshort]
    rfl
  · rename_i hlong
    have hfirst : b <+: Frames.stream Message.encode (Q r.sender) := by
      have hall := hcut.isPrefix r.sender
      rw [hdelivered, h.split, Frames.stream_append] at hall
      exact (List.prefix_append_right_inj _).mp hall
    cases hQ : Q r.sender with
    | nil =>
      rw [hQ, Frames.stream_nil, List.prefix_nil] at hfirst
      exact absurd (by simp [hfirst] : b.length < 20) hlong
    | cons m ms =>
      rw [hQ] at hfirst
      obtain ⟨rest, ms', hcutb, hsplit, hstream⟩ :=
        cutMessages_spec hfirst (Nat.not_lt.mp hlong) (Nat.lt_succ_self _)
      have hsize : m.header.size ≠ 0 := by
        intro hzero
        have hnat := Message.toNat_header_size (m := m)
        have hle := Message.le_size (m := m)
        rw [hzero] at hnat
        change 0 = m.size at hnat
        omega
      unfold packetReceived
      simp only [hb, Message.deserialize_front hfirst (Nat.not_lt.mp hlong),
        Option.bind_eq_bind, Option.bind_some, if_neg hsize, hcutb]
      refine ⟨_, Function.update Q r.sender ms', rfl, ?_, ?_, ?_⟩
      · intro a
        by_cases ha : a = r.sender
        · subst ha
          rw [Function.update_self, Function.update_self, h.split, hQ, List.append_assoc, ← hsplit]
        · rw [Function.update_of_ne ha, Function.update_of_ne ha, h.split]
      · intro a
        have hold := h.reports a
        unfold reportsOf at hold ⊢
        rw [List.filter_append, List.map_append, hold]
        by_cases ha : a = r.sender
        · subst ha
          rw [Function.update_self, List.map_append]
          simp [List.filter_map, Function.comp_def, Message.reported]
        · rw [Function.update_of_ne ha]
          have hne : ¬ r.sender = a := fun h => ha h.symm
          simp [List.filter_map, Function.comp_def, hne]
      · intro a
        by_cases ha : a = r.sender
        · subst ha
          simp only [Function.update_self, Option.getD_some]
          rw [hdelivered, Frames.stream_append, List.append_assoc, ← hstream]
        · simp only [Function.update_of_ne ha]
          rw [delivered_concat_of_ne (Ne.symm ha), h.buffered a]

/-- Whatever happens, what is reported and what is in the buffers is what has arrived. -/
theorem synced_of_handleRead (hcut : WellCut streams rs)
    (h : handleRead {} rs = some s) : ∃ R Q, Synced streams rs s R Q := by
  induction rs using List.reverseRecOn generalizing s with
  | nil =>
    obtain rfl := Option.some.inj h
    exact ⟨fun _ => [], streams, fun _ => rfl, fun _ => rfl, fun _ => rfl⟩
  | append_singleton rs r ih =>
    have hr := hcut.nonempty r (List.mem_append_right _ (List.mem_singleton_self r))
    rw [handleRead_concat hcut.init.nonempty hr] at h
    obtain ⟨u, hu, hstep⟩ := Option.bind_eq_some_iff.mp h
    obtain ⟨R, Q, hsync⟩ := ih hcut.init hu
    have hsync' : Synced streams rs { u with totalRx := u.totalRx + r.packet.length } R Q :=
      ⟨hsync.split, hsync.reports, hsync.buffered⟩
    have hspec := packetReceived_spec hsync' hcut rfl
    split at hspec
    · rw [hspec] at hstep
      cases hstep
    · obtain ⟨s', Q', hs', hsync''⟩ := hspec
      rw [hs'] at hstep
      obtain rfl := Option.some.inj hstep
      exact ⟨_, Q', hsync''⟩

/-- Of each sender the messages complete so far are reported, in order and each once. -/
def Timely (streams : Address → List Message) (rs : List (Reception Address))
    (s : PacketSink Address) : Prop :=
  ∀ a, s.reportsOf a = (Frames.completed Message.encode (delivered a rs).length (streams a)).map
    Message.reported

/-- No header is read too early, and after each packet the reports are timely. -/
def Survives (streams : Address → List Message) (rs : List (Reception Address)) : Prop :=
  ∀ pre, pre <+: rs → ∃ s, handleRead {} pre = some s ∧ Timely streams pre s

/-- A packet of `k` bytes after `n` bytes of a stream leaves at least a header in the buffer, and
does not end, together with the second or a later message it completes, with one that has no
payload. -/
def Meets (ms : List Message) (n k : Nat) : Prop :=
  20 ≤ Frames.pending Message.encode n ms + k ∧
    ¬ (Frames.total Message.encode (Frames.completed Message.encode (n + k) ms) = n + k ∧
      (Frames.completed Message.encode n ms).length + 2 ≤
        (Frames.completed Message.encode (n + k) ms).length ∧
      ∃ m ∈ (Frames.completed Message.encode (n + k) ms).getLast?, m.payload = [])

/-- While the reports are timely, the messages reported are those complete. -/
theorem Synced.eq_completed {R Q : Address → List Message} (h : Synced streams rs s R Q)
    (ht : Timely streams rs s) (a : Address) :
    R a = Frames.completed Message.encode (delivered a rs).length (streams a) := by
  have hlen := congrArg List.length ((h.reports a).symm.trans (ht a))
  rw [List.length_map, List.length_map] at hlen
  have hR : R a <+: streams a := by
    rw [h.split]
    exact List.prefix_append _ _
  exact (List.prefix_of_prefix_length_le hR Frames.completed_prefix hlen.le).eq_of_length hlen

theorem timely_concat_iff {R Q : Address → List Message} (h : Synced streams rs s R Q)
    (ht : Timely streams rs s) (hcut : WellCut streams (rs ++ [r])) :
    (∃ s', packetReceived s r = some s' ∧ Timely streams (rs ++ [r]) s') ↔
      Meets (streams r.sender) (delivered r.sender rs).length r.packet.length := by
  set b := (s.buffer r.sender).getD [] ++ r.packet with hb
  have hspec := packetReceived_spec h hcut hb.symm
  have hR := h.eq_completed ht r.sender
  have hn : (delivered r.sender rs).length =
      Frames.total Message.encode (R r.sender) + ((s.buffer r.sender).getD []).length := by
    rw [h.buffered, List.length_append, Frames.total]
  have hL : b.length = ((s.buffer r.sender).getD []).length + r.packet.length := by
    rw [hb, List.length_append]
  have hpending : Frames.pending Message.encode (delivered r.sender rs).length (streams r.sender) +
      r.packet.length = b.length := by
    rw [Frames.pending, ← hR]
    omega
  rw [Meets, hpending]
  split at hspec
  · rename_i hshort
    rw [hspec]
    constructor
    · rintro ⟨s', hs', -⟩
      cases hs'
    · rintro ⟨hlong, -⟩
      omega
  · rename_i hlong
    obtain ⟨s', Q', hs', hsync'⟩ := hspec
    have hnext : Frames.completed Message.encode ((delivered r.sender rs).length + r.packet.length)
        (streams r.sender) =
        R r.sender ++ Frames.completed Message.encode b.length (Q r.sender) := by
      rw [hn, h.split, Nat.add_assoc, ← hL, Frames.completed_append]
    have hsender : (delivered r.sender (rs ++ [r])).length =
        (delivered r.sender rs).length + r.packet.length := by
      rw [delivered_concat_self, List.length_append]
    have hheld := heldBack_iff (R r.sender) (Q r.sender) b.length
    rw [hnext, ← hR, show (delivered r.sender rs).length + r.packet.length =
      Frames.total Message.encode (R r.sender) + b.length by omega, ← hheld,
      ← cut_eq_completed_iff]
    constructor
    · rintro ⟨s'', hs'', htimely⟩
      obtain rfl := Option.some.inj (hs'.symm.trans hs'')
      have heq := hsync'.eq_completed htimely r.sender
      rw [Function.update_self, hsender, hnext] at heq
      exact ⟨Nat.not_lt.mp hlong, List.append_cancel_left heq⟩
    · rintro ⟨-, hcutm⟩
      refine ⟨s', hs', ?_⟩
      intro a
      rw [hsync'.reports]
      by_cases ha : a = r.sender
      · subst ha
        rw [Function.update_self, hsender, hnext, hcutm]
      · rw [Function.update_of_ne ha, delivered_concat_of_ne (Ne.symm ha), h.eq_completed ht a]

theorem survives_concat_iff (hcut : WellCut streams (rs ++ [r])) :
    Survives streams (rs ++ [r]) ↔ Survives streams rs ∧
      Meets (streams r.sender) (delivered r.sender rs).length r.packet.length := by
  have hr := hcut.nonempty r (List.mem_append_right _ (List.mem_singleton_self r))
  have hinit (h : Survives streams (rs ++ [r])) : Survives streams rs := fun pre hpre =>
    h pre (hpre.trans (List.prefix_append _ _))
  have hlast (h : Survives streams rs) : Meets (streams r.sender) (delivered r.sender rs).length
      r.packet.length ↔
      ∃ s', handleRead {} (rs ++ [r]) = some s' ∧ Timely streams (rs ++ [r]) s' := by
    obtain ⟨s, hs, ht⟩ := h rs (List.prefix_refl _)
    obtain ⟨R, Q, hsync⟩ := synced_of_handleRead hcut.init hs
    have hsync' : Synced streams rs { s with totalRx := s.totalRx + r.packet.length } R Q :=
      ⟨hsync.split, hsync.reports, hsync.buffered⟩
    rw [← timely_concat_iff hsync' ht hcut, handleRead_concat hcut.init.nonempty hr, hs,
      Option.bind_some]
  constructor
  · intro h
    exact ⟨hinit h, (hlast (hinit h)).mpr (h _ (List.prefix_refl _))⟩
  · rintro ⟨h, hmeets⟩ pre hpre
    rcases List.prefix_concat_iff.mp hpre with rfl | hpre
    · exact (hlast h).mp hmeets
    · exact h pre hpre

/-- The messages survive exactly the segmentations in which every packet meets the condition. -/
theorem survives_iff (hcut : WellCut streams rs) :
    Survives streams rs ↔ ∀ pre r, pre ++ [r] <+: rs →
      Meets (streams r.sender) (delivered r.sender pre).length r.packet.length := by
  induction rs using List.reverseRecOn with
  | nil =>
    constructor
    · intro _ pre r hpre
      simp at hpre
    · intro _ pre hpre
      rw [List.prefix_nil.mp hpre]
      exact ⟨{}, rfl, fun a => congrArg (List.map Message.reported) completed_zero.symm⟩
  | append_singleton rs r ih =>
    rw [survives_concat_iff hcut, ih hcut.init]
    constructor
    · rintro ⟨hrs, hr⟩ pre x hpre
      rcases List.prefix_concat_iff.mp hpre with heq | hpre
      · obtain ⟨rfl, hx⟩ := List.append_inj' heq rfl
        obtain rfl := List.singleton_inj.mp hx
        exact hr
      · exact hrs pre x hpre
    · intro h
      refine ⟨fun pre x hpre => h pre x (hpre.trans (List.prefix_append _ _)), ?_⟩
      exact h rs r (List.prefix_refl _)

section
private def bare : Message := ⟨1, 2000, [], by decide⟩

private def full : Message := ⟨0, 1000, [7], by decide⟩

private def packets (bs : List (List UInt8)) : List (Reception Unit) :=
  bs.map fun b => ⟨b, (), ()⟩

private def early : List (Reception Unit) := packets [full.encode.take 5]

private def late : List (Reception Unit) := packets [full.encode ++ bare.encode]

/-- A header cut in two is read too early; a message without payload that arrives at the end of
a packet with another one is reported late. -/
theorem not_survives :
    (WellCut (fun _ => [full, bare]) early ∧ ¬ Survives (fun _ => [full, bare]) early) ∧
      WellCut (fun _ => [full, bare]) late ∧ ¬ Survives (fun _ => [full, bare]) late := by
  refine ⟨⟨⟨by decide, by decide⟩, ?_⟩, ⟨by decide, by decide⟩, ?_⟩
  · intro h
    obtain ⟨s, hs, -⟩ := h early (List.prefix_refl _)
    have hnone : (handleRead {} early).isNone = true := by decide +kernel
    rw [hs] at hnone
    cases hnone
  · intro h
    obtain ⟨s, hs, ht⟩ := h late (List.prefix_refl _)
    have hone : ((handleRead {} late).map fun s => (s.reportsOf ()).length) = some 1 := by decide +kernel
    have htwo : ((Frames.completed Message.encode (delivered () late).length
        [full, bare]).map Message.reported).length = 2 := by decide +kernel
    rw [hs, Option.map_some, ht ()] at hone
    exact absurd (htwo.symm.trans (Option.some.inj hone)) (by decide)

private def whole : List (Reception Unit) := packets [full.encode, bare.encode]

theorem survives_whole : Survives (fun _ => [full, bare]) whole := by
  have hcut : WellCut (fun _ => [full, bare]) whole := ⟨by decide, by decide⟩
  apply (survives_iff hcut).mpr
  rintro pre r ⟨t, ht⟩
  match pre with
  | [] =>
    obtain ⟨rfl, -⟩ := List.cons_eq_cons.mp ht
    exact ⟨by decide, by decide⟩
  | [x] =>
    obtain ⟨rfl, hrest⟩ := List.cons_eq_cons.mp ht
    obtain ⟨rfl, -⟩ := List.cons_eq_cons.mp hrest
    exact ⟨by decide, by decide⟩
  | x :: y :: pre =>
    have hlen := congrArg List.length ht
    simp [whole, packets] at hlen

end

end PacketSink
end CudaNs3.Applications
