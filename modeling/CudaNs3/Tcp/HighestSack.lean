import CudaNs3.Tcp.Scoreboard

/-!
# The highest sacked item

`Update` keeps the position of the last sacked item, and what is behind it decides which items are
lost. An item that ends where the last sacked one begins takes its place when it is sacked later.
-/

namespace CudaNs3.Tcp

open SequenceNumber TcpTxBuffer
set_option autoImplicit false

/-- The loop of `FindHighestSacked`. -/
def highestIn : SequenceNumber 32 → Option Nat × SequenceNumber 32 → List TcpTxItem →
    Option Nat × SequenceNumber 32
  | _, ret, [] => ret
  | begin, ret, it :: rest =>
    highestIn (begin + it.size) (if it.sacked then (some it.node, begin) else ret) rest

/-- The items before and after, in order: one that is not sacked is lost if it was, or if at least
`thresh` sacked items lie after it. -/
def LostBy (thresh : BitVec 32) : List TcpTxItem → List TcpTxItem → Prop
  | [], [] => True
  | it :: rest, it' :: rest' =>
    it'.packet = it.packet ∧
      (it'.sacked = false →
        (it'.lost = true ↔ it.lost = true ∨ thresh.toNat ≤ rest'.countP TcpTxItem.sacked)) ∧
      LostBy thresh rest rest'
  | _, _ => False

instance decidableLostBy (thresh : BitVec 32) :
    (l l' : List TcpTxItem) → Decidable (LostBy thresh l l')
  | [], [] => inferInstanceAs (Decidable True)
  | it :: rest, it' :: rest' =>
    have := decidableLostBy thresh rest rest'
    inferInstanceAs (Decidable (it'.packet = it.packet ∧
      (it'.sacked = false →
        (it'.lost = true ↔ it.lost = true ∨ thresh.toNat ≤ rest'.countP TcpTxItem.sacked)) ∧
      LostBy thresh rest rest'))
  | [], _ :: _ => inferInstanceAs (Decidable False)
  | _ :: _, [] => inferInstanceAs (Decidable False)

/-- The item lies within the block. -/
def covers (block : SackBlock) (begin : SequenceNumber 32) (it : TcpTxItem) : Bool :=
  ge begin block.1 && le (begin + it.size) block.2

/-- The items within the block are sacked, up to the first one that ends behind it. -/
def sackWith (block : SackBlock) : SequenceNumber 32 → List TcpTxItem → List TcpTxItem
  | _, [] => []
  | begin, it :: rest =>
    if covers block begin it then
      (if it.sacked then it else { it with lost := false, sacked := true }) ::
        sackWith block (begin + it.size) rest
    else if gt (begin + it.size) block.2 then it :: rest
    else it :: sackWith block (begin + it.size) rest

/-- `next` is the last item that is sacked. -/
def LastNext : List TcpTxItem → Prop
  | [] => False
  | next :: post => next.sacked = true ∧ ∀ it ∈ post, it.sacked = false

/-- The block sacks the item right before the last one that is sacked. -/
def Undercuts (block : SackBlock) : SequenceNumber 32 → List TcpTxItem → Prop
  | _, [] => False
  | begin, it :: rest =>
    if covers block begin it then
      (it.sacked = false ∧ LastNext rest) ∨ Undercuts block (begin + it.size) rest
    else if gt (begin + it.size) block.2 then False
    else Undercuts block (begin + it.size) rest

namespace TcpTxBuffer

def findHighestSacked (s : TcpTxBuffer) : Option Nat × SequenceNumber 32 :=
  highestIn s.firstByteSeq (none, 0) s.sentList

/-- The block begins beyond what was sent. -/
def beyond (s : TcpTxBuffer) (block : SackBlock) : Bool := lt (s.firstByteSeq + s.sentSize) block.1

/-- No block sacks the item right before the last sacked one, and none that comes after a block
that sacks something begins beyond what was sent. -/
def Upward (s : TcpTxBuffer) : List TcpTxItem → List SackBlock → Prop
  | _, [] => True
  | items, block :: blocks =>
    s.beyond block = true ∨
      ¬ Undercuts block s.firstByteSeq items ∧
        (sackWith block s.firstByteSeq items ≠ items → ∀ later ∈ blocks, s.beyond later = false) ∧
          Upward s (sackWith block s.firstByteSeq items) blocks

/-- No block covers the head. -/
def SparesHead (s : TcpTxBuffer) (blocks : List SackBlock) : Prop :=
  ∀ head ∈ s.sentList.head?, ∀ block ∈ blocks, covers block s.firstByteSeq head = false

end TcpTxBuffer

section Places
variable {o : SequenceNumber 32} {x : Nat} {l : List TcpTxItem} {ret : Option Nat × SequenceNumber 32}

theorem at32_size (o : SequenceNumber 32) (x : Nat) (it : TcpTxItem) :
    at32 o x + it.size = at32 o (x + it.packet.length) := at32_add o x _

theorem highestIn_of_none (h : ∀ it ∈ l, it.sacked = false) {begin : SequenceNumber 32} :
    highestIn begin ret l = ret := by
  induction l generalizing begin with
  | nil => rfl
  | cons it rest ih =>
    obtain ⟨hit, hrest⟩ := List.forall_mem_cons.mp h
    rw [highestIn, if_neg (by simp [hit])]
    exact ih hrest

theorem highestIn_of_last {pre post : List TcpTxItem} {m : TcpTxItem} (hm : m.sacked = true)
    (hpost : ∀ it ∈ post, it.sacked = false) :
    highestIn (at32 o x) ret (pre ++ m :: post) = (some m.node, at32 o (x + bytes every pre)) := by
  induction pre generalizing x ret with
  | nil =>
    rw [List.nil_append, highestIn, hm, highestIn_of_none hpost]
    rfl
  | cons it pre ih =>
    rw [List.cons_append, highestIn, at32_size, ih]
    simp [Nat.add_assoc]

theorem none_or_last (l : List TcpTxItem) : (∀ it ∈ l, it.sacked = false) ∨
    ∃ pre m post, l = pre ++ m :: post ∧ m.sacked = true ∧ ∀ it ∈ post, it.sacked = false := by
  induction l with
  | nil => exact .inl (by simp)
  | cons it rest ih =>
    rcases ih with hnone | ⟨pre, m, post, rfl, hm, hpost⟩
    · cases hit : it.sacked with
      | false => exact .inl (List.forall_mem_cons.mpr ⟨hit, hnone⟩)
      | true => exact .inr ⟨[], it, rest, rfl, hit, hnone⟩
    · exact .inr ⟨it :: pre, m, post, rfl, hm, hpost⟩

/-- The highest sacked item of those before `x`. -/
def Behind (o : SequenceNumber 32) (x : Nat) (ret : Option Nat × SequenceNumber 32) : Prop :=
  ret.1 = none ∨ ∃ y < x, ret.2 = at32 o y

theorem Behind.cons (h : Behind o x ret) {it : TcpTxItem} (hne : it.packet ≠ []) :
    Behind o (x + it.packet.length) (if it.sacked then (some it.node, at32 o x) else ret) := by
  have hpos := List.length_pos_iff.mpr hne
  cases it.sacked with
  | true => exact .inr ⟨x, by omega, rfl⟩
  | false => exact h.imp id fun ⟨y, hy, heq⟩ => ⟨y, by omega, heq⟩

theorem length_le_bytes (hne : ∀ it ∈ l, it.packet ≠ []) : l.length ≤ bytes every l := by
  induction l with
  | nil => exact Nat.le_refl _
  | cons it rest ih =>
    obtain ⟨hit, hrest⟩ := List.forall_mem_cons.mp hne
    have hpos := List.length_pos_iff.mpr hit
    have hle := ih hrest
    simp only [List.length_cons, bytes_cons, every_eq, if_true]
    omega

/-- An item is sacked before the others are looked at; it becomes the highest one unless there is
one behind it. -/
theorem mark_highest {it : TcpTxItem} {rest : List TcpTxItem} {k : Sacking} (hret : Behind o x ret)
    (hit : it.sacked = false) (hnext : ¬ LastNext rest) (hne : ∀ it ∈ rest, it.packet ≠ [])
    (hlen : x + it.packet.length + bytes every rest < 2 ^ 31)
    (hk : k.highestSack = highestIn (at32 o x) ret (it :: rest)) :
    (k.mark it (at32 o x)).highestSack =
      highestIn (at32 o (x + it.packet.length)) (some it.node, at32 o x) rest := by
  have hk' : k.highestSack = highestIn (at32 o (x + it.packet.length)) ret rest := by
    rw [hk, highestIn, hit, at32_size]
    rfl
  rw [Sacking.mark]
  simp only
  rw [at32_size]
  rcases none_or_last rest with hnone | ⟨pre, m, post, rfl, hm, hpost⟩
  · rw [highestIn_of_none hnone] at hk' ⊢
    rw [hk']
    rcases hret with hempty | ⟨y, hy, heq⟩
    · rw [if_pos (.inl hempty)]
    · have hle : le ret.2 (at32 o (x + it.packet.length)) = true := by
        rw [heq]
        exact (le_at32 (by omega) (by omega)).mpr (by omega)
      rw [if_pos (.inr hle)]
  · rw [highestIn_of_last hm hpost] at hk' ⊢
    have hpre : pre ≠ [] := by
      rintro rfl
      exact hnext ⟨hm, hpost⟩
    have hpos := List.length_pos_iff.mpr hpre
    have hle := length_le_bytes fun it' hit' => hne it' (List.mem_append_left _ hit')
    rw [bytes_append] at hlen
    rw [hk', if_neg]
    rintro (hempty | hle')
    · cases hempty
    · have := (le_at32 (by omega) (by omega)).mp hle'
      omega

theorem updateItems_sackWith {block : SackBlock} {k : Sacking} (hret : Behind o x ret)
    (hex : ∀ it ∈ l, ¬ (it.sacked = true ∧ it.lost = true)) (hne : ∀ it ∈ l, it.packet ≠ [])
    (hlen : x + bytes every l < 2 ^ 31) (hk : k.highestSack = highestIn (at32 o x) ret l)
    (hu : ¬ Undercuts block (at32 o x) l) :
    ∃ k', updateItems block (at32 o x) k l = some (sackWith block (at32 o x) l, k') ∧
      k'.highestSack = highestIn (at32 o x) ret (sackWith block (at32 o x) l) ∧
        (sackWith block (at32 o x) l = l → k' = k) := by
  induction l generalizing x ret k with
  | nil => exact ⟨k, rfl, hk, fun _ => rfl⟩
  | cons it rest ih =>
    obtain ⟨hexit, hexrest⟩ := List.forall_mem_cons.mp hex
    obtain ⟨hneit, hnerest⟩ := List.forall_mem_cons.mp hne
    simp only [bytes_cons, every_eq, if_true] at hlen
    unfold Undercuts at hu
    unfold sackWith updateItems
    rw [at32_size] at hu ⊢
    have hcover : covers block (at32 o x) it =
        (ge (at32 o x) block.1 && le (at32 o (x + it.packet.length)) block.2) := by
      rw [covers, at32_size]
    rw [← hcover]
    have hgo := @ih (x + it.packet.length)
    by_cases hcov : covers block (at32 o x) it = true
    · rw [if_pos hcov] at hu ⊢
      rw [if_pos hcov]
      rw [not_or] at hu
      cases hit : it.sacked with
      | true =>
        have hlost : it.lost = false := Bool.eq_false_iff.mpr fun hl => hexit ⟨hit, hl⟩
        rw [highestIn, at32_size] at hk
        obtain ⟨k', hrun, hhigh, hsame⟩ := hgo (hret.cons hneit) hexrest hnerest (by omega) hk hu.2
        rw [if_pos rfl, if_pos rfl, if_neg (by simp [hlost]), hrun]
        refine ⟨k', rfl, ?_, fun heq => hsame (List.cons.inj heq).2⟩
        rw [highestIn, at32_size, hhigh]
      | false =>
        have hmark := mark_highest hret hit (fun hn => hu.1 ⟨hit, hn⟩) hnerest (by omega) hk
        have hbehind : Behind o (x + it.packet.length) (some it.node, at32 o x) :=
          .inr ⟨x, Nat.lt_add_of_pos_right (List.length_pos_iff.mpr hneit), rfl⟩
        obtain ⟨k', hrun, hhigh, -⟩ := hgo hbehind hexrest hnerest (by omega) hmark hu.2
        rw [if_neg (by simp), if_neg (by simp), hrun]
        refine ⟨k', rfl, ?_, fun heq => ?_⟩
        · rw [highestIn, TcpTxItem.size, at32_add, hhigh]
          rfl
        · have hflag := congrArg TcpTxItem.sacked (List.cons.inj heq).1
          rw [hit] at hflag
          cases hflag
    · rw [if_neg hcov] at hu ⊢
      rw [if_neg hcov]
      by_cases hpast : gt (at32 o (x + it.packet.length)) block.2 = true
      · rw [if_pos hpast, if_pos hpast]
        exact ⟨k, rfl, hk, fun _ => rfl⟩
      · rw [if_neg hpast] at hu ⊢
        rw [if_neg hpast]
        rw [highestIn, at32_size] at hk
        obtain ⟨k', hrun, hhigh, hsame⟩ := hgo (hret.cons hneit) hexrest hnerest (by omega) hk hu
        rw [hrun]
        refine ⟨k', rfl, ?_, fun heq => hsame (List.cons.inj heq).2⟩
        rw [highestIn, at32_size, hhigh]

end Places

/-- The same items, of which more may be sacked. -/
def Sacked (l l' : List TcpTxItem) : Prop :=
  List.Forall₂ (fun it it' => it'.node = it.node ∧ it'.packet = it.packet ∧
    (it'.sacked = false → it.sacked = false ∧ it'.lost = it.lost)) l l'

namespace Sacked
variable {l l' l'' : List TcpTxItem}

theorem refl (l : List TcpTxItem) : Sacked l l :=
  List.forall₂_same.mpr fun _ _ => ⟨rfl, rfl, fun h => ⟨h, rfl⟩⟩

theorem trans (h : Sacked l l') (h' : Sacked l' l'') : Sacked l l'' := by
  induction h generalizing l'' with
  | nil => exact h'
  | cons hit _ ih =>
    obtain ⟨hnode, hpacket, hflags⟩ := hit
    cases h' with
    | cons hit' hrest' =>
      obtain ⟨hnode', hpacket', hflags'⟩ := hit'
      refine .cons ⟨hnode'.trans hnode, hpacket'.trans hpacket, fun hs => ?_⟩ (ih hrest')
      obtain ⟨hs', hl'⟩ := hflags' hs
      obtain ⟨hs'', hl''⟩ := hflags hs'
      exact ⟨hs'', hl'.trans hl''⟩

theorem bytes_eq (h : Sacked l l') : bytes every l' = bytes every l := by
  induction h with
  | nil => rfl
  | cons hit _ ih => simp [hit.2.1, ih]

theorem nodes (h : Sacked l l') : l'.map TcpTxItem.node = l.map TcpTxItem.node := by
  induction h with
  | nil => rfl
  | cons hit _ ih => simp [hit.1, ih]

theorem filled (h : Sacked l l') (hl : ∀ it ∈ l, it.packet ≠ []) : ∀ it ∈ l', it.packet ≠ [] := by
  induction h with
  | nil => exact hl
  | cons hit _ ih =>
    obtain ⟨hhead, hrest⟩ := List.forall_mem_cons.mp hl
    exact List.forall_mem_cons.mpr ⟨by rwa [hit.2.1], ih hrest⟩

end Sacked

theorem sackWith_sacked (block : SackBlock) (begin : SequenceNumber 32) (l : List TcpTxItem) :
    Sacked l (sackWith block begin l) := by
  induction l generalizing begin with
  | nil => exact .nil
  | cons it rest ih =>
    unfold sackWith
    split
    · refine .cons ?_ (ih _)
      cases hit : it.sacked with
      | true => exact ⟨rfl, rfl, fun h => absurd (hit.symm.trans h) (by simp)⟩
      | false => exact ⟨rfl, rfl, fun h => by cases h⟩
    split
    · exact Sacked.refl _
    · exact .cons ⟨rfl, rfl, fun h => ⟨h, rfl⟩⟩ (ih _)

theorem sackWith_exclusive (block : SackBlock) (begin : SequenceNumber 32) {l : List TcpTxItem}
    (hl : ∀ it ∈ l, ¬ (it.sacked = true ∧ it.lost = true)) :
    ∀ it ∈ sackWith block begin l, ¬ (it.sacked = true ∧ it.lost = true) := by
  induction l generalizing begin with
  | nil => exact hl
  | cons it rest ih =>
    obtain ⟨hit, hrest⟩ := List.forall_mem_cons.mp hl
    unfold sackWith
    split
    · refine List.forall_mem_cons.mpr ⟨?_, ih _ hrest⟩
      split
      · exact hit
      · simp
    split
    · exact hl
    · exact List.forall_mem_cons.mpr ⟨hit, ih _ hrest⟩

/-- What the blocks of an option leave behind. -/
structure Walked (s : TcpTxBuffer) (l : List TcpTxItem) (k : Sacking) (l' : List TcpTxItem)
    (k' : Sacking) (early : Bool) : Prop where
  sacked : Sacked l l'
  exclusive : ∀ it ∈ l', ¬ (it.sacked = true ∧ it.lost = true)
  highest : k'.highestSack = highestIn s.firstByteSeq (none, 0) l'
  early : early = true → k'.bytesSacked = k.bytesSacked

theorem mark_some {k : Sacking} {it : TcpTxItem} {begin : SequenceNumber 32} :
    (k.mark it begin).highestSack.1 ≠ none := by
  have heq : (k.mark it begin).highestSack =
      if k.highestSack.1 = none ∨ le k.highestSack.2 (begin + it.size) then (some it.node, begin)
      else k.highestSack := rfl
  rw [heq]
  split
  · simp
  · rename_i h
    exact fun hnone => h (.inl hnone)

theorem updateItems_bytes {block : SackBlock} {begin : SequenceNumber 32} {k k' : Sacking}
    {l l' : List TcpTxItem} (h : updateItems block begin k l = some (l', k'))
    (hk : k.highestSack.1 = none → k.bytesSacked = 0) :
    k'.highestSack.1 = none → k'.bytesSacked = 0 := by
  induction l generalizing begin k l' with
  | nil =>
    obtain ⟨-, rfl⟩ := Prod.mk.inj (Option.some.inj h)
    exact hk
  | cons it rest ih =>
    unfold updateItems at h
    split at h
    · split at h
      · split at h
        · cases h
        · obtain ⟨⟨rest', t⟩, hrest, heq⟩ := Option.map_eq_some_iff.mp h
          obtain ⟨-, rfl⟩ := Prod.mk.inj heq
          exact ih hrest hk
      · obtain ⟨⟨rest', t⟩, hrest, heq⟩ := Option.map_eq_some_iff.mp h
        obtain ⟨-, rfl⟩ := Prod.mk.inj heq
        exact ih hrest fun hnone => absurd hnone mark_some
    split at h
    · obtain ⟨-, rfl⟩ := Prod.mk.inj (Option.some.inj h)
      exact hk
    · obtain ⟨⟨rest', t⟩, hrest, heq⟩ := Option.map_eq_some_iff.mp h
      obtain ⟨-, rfl⟩ := Prod.mk.inj heq
      exact ih hrest hk

theorem updateBlocks_walked {s : TcpTxBuffer} {k : Sacking} {l : List TcpTxItem}
    {blocks : List SackBlock} (hex : ∀ it ∈ l, ¬ (it.sacked = true ∧ it.lost = true))
    (hne : ∀ it ∈ l, it.packet ≠ []) (hlen : bytes every l < 2 ^ 31)
    (hk : k.highestSack = highestIn s.firstByteSeq (none, 0) l)
    (hbytes : k.highestSack.1 = none → k.bytesSacked = 0) (hup : Upward s l blocks) :
    ∃ l' k' early, updateBlocks s k l blocks = some (l', k', early) ∧ Walked s l k l' k' early ∧
      (k'.highestSack.1 = none → k'.bytesSacked = 0) ∧
        ((∀ block ∈ blocks, s.beyond block = false) → early = false) := by
  induction blocks generalizing k l with
  | nil =>
    refine ⟨l, k, false, rfl, ⟨Sacked.refl l, hex, hk, fun h => by cases h⟩, hbytes, fun _ => rfl⟩
  | cons block blocks ih =>
    unfold updateBlocks
    by_cases hbeyond : s.beyond block = true
    · rw [beyond] at hbeyond
      rw [if_pos hbeyond]
      refine ⟨l, k, true, rfl, ⟨Sacked.refl l, hex, hk, fun _ => rfl⟩, hbytes, fun h => ?_⟩
      have hnot := h block List.mem_cons_self
      rw [beyond, hbeyond] at hnot
      cases hnot
    · obtain ⟨hunder, hlater, hrest⟩ := hup.resolve_left hbeyond
      rw [beyond] at hbeyond
      rw [if_neg hbeyond]
      have hstart : s.firstByteSeq = at32 s.firstByteSeq 0 := (at32_zero _).symm
      have hitems := @updateItems_sackWith s.firstByteSeq 0 l (none, 0) block k (.inl rfl) hex hne
        (by omega) (by rw [← hstart]; exact hk) (by rw [← hstart]; exact hunder)
      rw [← hstart] at hitems
      obtain ⟨k₁, hrun, hhigh, hsame⟩ := hitems
      have hsacked := sackWith_sacked block s.firstByteSeq l
      obtain ⟨l', k', early, hblocks, hwalked, hzero, hearly⟩ :=
        @ih k₁ _ (sackWith_exclusive block s.firstByteSeq hex) (hsacked.filled hne)
          (by rw [hsacked.bytes_eq]; exact hlen) hhigh (updateItems_bytes hrun hbytes) hrest
      refine ⟨l', k', early, by rw [hrun]; exact hblocks,
        ⟨hsacked.trans hwalked.sacked, hwalked.exclusive, hwalked.highest, fun he => ?_⟩, hzero,
        fun h => hearly fun b hb => h b (List.mem_cons_of_mem _ hb)⟩
      -- the walk ends early only if nothing was sacked before
      by_cases heq : sackWith block s.firstByteSeq l = l
      · rw [hwalked.early he, hsame heq]
      · have hfalse := hearly (hlater heq)
        rw [he] at hfalse
        cases hfalse

/-- The head is as it was if no block covers it. -/
theorem updateBlocks_head {s : TcpTxBuffer} {k : Sacking} {head : TcpTxItem} {rest l' : List TcpTxItem}
    {k' : Sacking} {early : Bool} {blocks : List SackBlock}
    (hspare : ∀ block ∈ blocks, covers block s.firstByteSeq head = false)
    (h : updateBlocks s k (head :: rest) blocks = some (l', k', early)) :
    ∃ rest', l' = head :: rest' := by
  induction blocks generalizing k rest with
  | nil =>
    obtain ⟨rfl, -⟩ := Prod.mk.inj (Option.some.inj h)
    exact ⟨rest, rfl⟩
  | cons block blocks ih =>
    unfold updateBlocks at h
    split at h
    · obtain ⟨rfl, -⟩ := Prod.mk.inj (Option.some.inj h)
      exact ⟨rest, rfl⟩
    · obtain ⟨⟨items, t⟩, hitems, hrest⟩ := Option.bind_eq_some_iff.mp h
      have hcov : ¬ (ge s.firstByteSeq block.1 && le (s.firstByteSeq + head.size) block.2) = true := by
        have := hspare block List.mem_cons_self
        rw [covers] at this
        simp [this]
      have hkeep : ∃ rest', items = head :: rest' := by
        unfold updateItems at hitems
        rw [if_neg hcov] at hitems
        split at hitems
        · obtain ⟨rfl, -⟩ := Prod.mk.inj (Option.some.inj hitems)
          exact ⟨rest, rfl⟩
        · obtain ⟨⟨rest', t'⟩, -, heq⟩ := Option.map_eq_some_iff.mp hitems
          obtain ⟨rfl, -⟩ := Prod.mk.inj heq
          exact ⟨rest', rfl⟩
      obtain ⟨rest', rfl⟩ := hkeep
      exact ih (fun b hb => hspare b (List.mem_cons_of_mem _ hb)) hrest

/-- What a loss does not change. -/
def shape (it : TcpTxItem) : Nat × List UInt8 × Bool := (it.node, it.packet, it.sacked)

theorem loseItems_shape (thresh lost : BitVec 32) (l : List TcpTxItem) :
    (loseItems thresh lost l).1.map shape = l.map shape := by
  induction l with
  | nil => rfl
  | cons it rest ih =>
    unfold loseItems
    simp only
    generalize (if it.sacked = true then (loseItems thresh lost rest).2.1 + 1
      else (loseItems thresh lost rest).2.1) = count
    split
    · rw [List.map_cons, List.map_cons, ih]
      rfl
    · rw [List.map_cons, List.map_cons, ih]

theorem countP_shape {l l' : List TcpTxItem} (h : l'.map shape = l.map shape) :
    l'.countP TcpTxItem.sacked = l.countP TcpTxItem.sacked := by
  have hmap (k : List TcpTxItem) : k.countP TcpTxItem.sacked =
      (k.map shape).countP fun x => x.2.2 := by
    rw [List.countP_map]
    rfl
  rw [hmap, h, ← hmap]

theorem nodes_shape {l l' : List TcpTxItem} (h : l'.map shape = l.map shape) :
    l'.map TcpTxItem.node = l.map TcpTxItem.node := by
  have hmap (k : List TcpTxItem) : k.map TcpTxItem.node = (k.map shape).map Prod.fst := by
    rw [List.map_map]
    rfl
  rw [hmap, h, ← hmap]

theorem bytes_shape {l l' : List TcpTxItem} (h : l'.map shape = l.map shape) :
    bytes every l' = bytes every l := by
  have hmap (k : List TcpTxItem) : bytes every k = ((k.map shape).map fun x => x.2.1.length).sum := by
    induction k with
    | nil => rfl
    | cons it rest ih => simp [ih, shape]
  rw [hmap, h, ← hmap]

theorem highestIn_shape {l l' : List TcpTxItem} (h : l'.map shape = l.map shape)
    (begin : SequenceNumber 32) (ret : Option Nat × SequenceNumber 32) :
    highestIn begin ret l' = highestIn begin ret l := by
  induction l generalizing l' begin ret with
  | nil => rw [List.map_eq_nil_iff.mp h]
  | cons it rest ih =>
    cases l' with
    | nil => cases h
    | cons it' rest' =>
      obtain ⟨hit, hrest⟩ := List.cons.inj h
      simp only [shape, Prod.mk.injEq] at hit
      obtain ⟨hnode, hpacket, hsacked⟩ := hit
      rw [highestIn, highestIn, ih hrest, TcpTxItem.size, hpacket, hsacked, hnode]
      rfl

/-- The number of sacked items that were passed, and the items from the last sacked one down; those
behind it have none after them. -/
theorem loseItems_lostBy {thresh lost : BitVec 32} (hthresh : thresh ≠ 0) {l upTo behind : List TcpTxItem}
    (h : Sacked l (upTo ++ behind)) (hbehind : ∀ it ∈ behind, it.sacked = false)
    (hlen : upTo.length < 2 ^ 32) :
    LostBy thresh l ((loseItems thresh lost upTo).1 ++ behind) ∧
      (loseItems thresh lost upTo).2.1.toNat =
        ((loseItems thresh lost upTo).1 ++ behind).countP TcpTxItem.sacked := by
  induction upTo generalizing l with
  | nil =>
    refine ⟨?_, ?_⟩
    · have hpos : ¬ thresh.toNat ≤ 0 := by
        intro hle
        exact hthresh (BitVec.eq_of_toNat_eq (Nat.le_zero.mp hle))
      rw [List.nil_append] at h
      simp only [loseItems, List.nil_append]
      clear hlen
      induction h with
      | nil => trivial
      | @cons it it' rest rest' hit _ ih =>
        obtain ⟨-, hrest⟩ := List.forall_mem_cons.mp hbehind
        refine ⟨hit.2.1, fun hs => ?_, ih hrest⟩
        rw [(hit.2.2 hs).2, List.countP_eq_zero.mpr (by simpa using hrest)]
        exact ⟨.inl, fun hor => hor.resolve_right hpos⟩
    · simp only [loseItems, List.nil_append]
      rw [List.countP_eq_zero.mpr (by simpa using hbehind)]
      rfl
  | cons m upTo ih =>
    cases h with
    | @cons it _ rest _ hit hrest =>
      simp only [List.length_cons] at hlen
      obtain ⟨hlost, hcount⟩ := ih hrest (by omega)
      have hzero : behind.countP TcpTxItem.sacked = 0 :=
        List.countP_eq_zero.mpr (by simpa using hbehind)
      have hle : ((loseItems thresh lost upTo).1 ++ behind).countP TcpTxItem.sacked ≤ upTo.length := by
        rw [List.countP_append, hzero, countP_shape (loseItems_shape thresh lost upTo)]
        exact List.countP_le_length
      obtain ⟨rest', sacked, lostOut, hR⟩ : ∃ rest' sacked lostOut,
        loseItems thresh lost upTo = (rest', sacked, lostOut) := ⟨_, _, _, rfl⟩
      unfold loseItems
      simp only [hR] at hlost hcount hle ⊢
      cases hm : m.sacked with
      | true =>
        rw [if_neg (by simp)]
        refine ⟨⟨hit.2.1, fun hs => ?_, hlost⟩, ?_⟩
        · rw [hm] at hs
          cases hs
        · have hone : (sacked + 1).toNat = sacked.toNat + 1 := by
            have h1 : (1 : BitVec 32).toNat = 1 := rfl
            rw [BitVec.toNat_add, h1]
            omega
          simp only [if_true, List.cons_append, List.countP_cons, hm, hone, hcount]
      | false =>
        obtain ⟨-, hsame⟩ := hit.2.2 hm
        have hsum (t : TcpTxItem) (ht : t.sacked = false) : (rest' ++ behind).countP TcpTxItem.sacked =
            (t :: rest' ++ behind).countP TcpTxItem.sacked := by
          rw [List.cons_append, List.countP_cons_of_neg (by simp [ht])]
        simp only [Bool.false_eq_true, if_false, Bool.not_false, true_and]
        by_cases hlose : thresh ≤ sacked ∧ (!m.lost) = true
        · rw [if_pos hlose]
          refine ⟨⟨hit.2.1, fun _ => ?_, hlost⟩, hcount.trans (hsum _ rfl)⟩
          have hge := BitVec.le_def.mp hlose.1
          rw [hcount] at hge
          exact ⟨fun _ => .inr hge, fun _ => rfl⟩
        · rw [if_neg hlose]
          refine ⟨⟨hit.2.1, fun _ => ?_, hlost⟩, hcount.trans (hsum m hm)⟩
          rw [← hsame]
          refine ⟨.inl, fun hor => hor.elim id fun hge => ?_⟩
          by_contra hnot
          exact hlose ⟨by rw [BitVec.le_def, hcount]; exact hge, by simpa using hnot⟩

theorem upToNode_split {m : TcpTxItem} {pre post : List TcpTxItem}
    (h : ∀ it ∈ pre, it.node ≠ m.node) :
    upToNode m.node (pre ++ m :: post) = some (pre ++ [m], post) := by
  induction pre with
  | nil => rw [List.nil_append, upToNode, if_pos rfl, List.nil_append]
  | cons it pre ih =>
    obtain ⟨hit, hpre⟩ := List.forall_mem_cons.mp h
    rw [List.cons_append, upToNode, if_neg hit, ih hpre]
    rfl

/-- From the last sacked item down to the head, each item that is not sacked is lost if enough sacked
ones have been passed. -/
theorem updateLostCount_lostBy {t : TcpTxBuffer} {l rest : List TcpTxItem} {head : TcpTxItem}
    (hthresh : t.dupAckThresh ≠ 0) (hlist : t.sentList = head :: rest) (hhead : head.sacked = false)
    (hnodes : (t.sentList.map TcpTxItem.node).Nodup) (hne : ∀ it ∈ t.sentList, it.packet ≠ [])
    (hlen : bytes every t.sentList < 2 ^ 31) (hhigh : t.highestSack = t.findHighestSacked)
    (hsome : t.highestSack.1 ≠ none) (h : Sacked l t.sentList) :
    ∃ l' lost, t.updateLostCount = some { t with sentList := l', lostOut := lost } ∧
      LostBy t.dupAckThresh l l' ∧ l'.map shape = t.sentList.map shape := by
  have hstart : t.firstByteSeq = at32 t.firstByteSeq 0 := (at32_zero _).symm
  rcases none_or_last t.sentList with hnone | ⟨pre, m, post, heq, hm, hpost⟩
  · rw [hhigh, findHighestSacked, highestIn_of_none hnone] at hsome
    exact absurd rfl hsome
  have hhigh' : t.highestSack.1 = some m.node := by
    rw [hhigh, findHighestSacked, heq, hstart, highestIn_of_last hm hpost]
  cases pre with
  | nil =>
    rw [hlist] at heq
    obtain ⟨rfl, -⟩ := List.cons.inj heq
    rw [hhead] at hm
    cases hm
  | cons head' pre =>
    obtain ⟨rfl, hrest⟩ := List.cons.inj (hlist.symm.trans heq)
    obtain rfl : rest = pre ++ m :: post := hrest
    clear heq
    have hlong : (pre ++ [m]).length < 2 ^ 32 := by
      have hcount := length_le_bytes hne
      rw [hlist] at hcount hlen
      simp only [List.length_append, List.length_cons, List.length_nil] at hcount ⊢
      omega
    rw [hlist, List.map_cons, List.nodup_cons, List.map_append, List.map_cons] at hnodes
    obtain ⟨hfirst, hnodes⟩ := hnodes
    have hheadne : head.node ≠ m.node := by
      intro hn
      exact hfirst (by simp [hn])
    have hprene : ∀ it ∈ pre, it.node ≠ m.node := by
      intro it hit hn
      have hdisj := (List.nodup_append.mp hnodes).2.2
      exact hdisj _ (List.mem_map_of_mem hit) _ List.mem_cons_self hn
    rw [hlist] at h
    have hsplit : pre ++ m :: post = (pre ++ [m]) ++ post := by simp
    cases h with
    | @cons it _ restl _ hit hrestl =>
      rw [hsplit] at hrestl
      obtain ⟨hlost, hcount⟩ := @loseItems_lostBy _ t.lostOut hthresh _ _ _ hrestl hpost hlong
      have hshape := loseItems_shape t.dupAckThresh t.lostOut (pre ++ [m])
      obtain ⟨rest', sacked, lostOut, hR⟩ : ∃ rest' sacked lostOut,
        loseItems t.dupAckThresh t.lostOut (pre ++ [m]) = (rest', sacked, lostOut) := ⟨_, _, _, rfl⟩
      rw [hR] at hlost hcount hshape
      obtain ⟨-, hsame⟩ := hit.2.2 hhead
      have hshape' : (head :: rest' ++ post).map shape = t.sentList.map shape := by
        rw [hlist, hsplit, List.cons_append, List.map_cons, List.map_append, hshape, ← List.map_append,
          ← List.map_cons]
      unfold updateLostCount
      rw [hhigh', hlist]
      simp only
      rw [if_neg hheadne, upToNode_split hprene, Option.map_some, hR]
      simp only
      by_cases hlose : t.dupAckThresh ≤ sacked ∧ (!head.lost) = true
      · rw [if_pos hlose]
        refine ⟨_, _, rfl, ⟨hit.2.1, fun _ => ?_, hlost⟩, ?_⟩
        · have hge := BitVec.le_def.mp hlose.1
          rw [hcount] at hge
          exact ⟨fun _ => .inr hge, fun _ => rfl⟩
        · exact hlist ▸ hshape'
      · rw [if_neg hlose]
        refine ⟨_, _, rfl, ⟨hit.2.1, fun _ => ?_, hlost⟩, hlist ▸ hshape'⟩
        rw [← hsame]
        refine ⟨.inl, fun hor => hor.elim id fun hge => ?_⟩
        by_contra hnot
        exact hlose ⟨by rw [BitVec.le_def, hcount]; exact hge, by simpa using hnot⟩

theorem bytes_exclusive {l : List TcpTxItem}
    (h : ∀ it ∈ l, ¬ (it.sacked = true ∧ it.lost = true)) :
    bytes TcpTxItem.sacked l + bytes TcpTxItem.lost l ≤ bytes every l := by
  induction l with
  | nil => exact Nat.le_refl _
  | cons it rest ih =>
    obtain ⟨hit, hrest⟩ := List.forall_mem_cons.mp h
    have hle := ih hrest
    simp only [bytes_cons, every_eq, if_true]
    by_cases hs : it.sacked = true
    · have hl : it.lost ≠ true := fun hl => hit ⟨hs, hl⟩
      rw [if_pos hs, if_neg hl]
      omega
    · rw [if_neg hs]
      split <;> omega

/-- The assertion on the counters at the end of `Update` holds. -/
theorem Counted.left_le {s : TcpTxBuffer} (h : Counted s) : ¬ s.sentSize < s.sackedOut + s.lostOut := by
  have hexact := h.exact
  have hlt := h.sent_lt
  have hle := bytes_exclusive h.exclusive
  rw [BitVec.lt_def, BitVec.toNat_add, hexact.sentSize, hexact.sackedOut, hexact.lostOut]
  omega

/-- A sent list whose head is not sacked, where the counters are exact and the highest sacked item
is the last one. -/
structure Scored (s : TcpTxBuffer) : Prop where
  counted : Counted s
  nodes : (s.sentList.map TcpTxItem.node).Nodup
  half : bytes every s.sentList < 2 ^ 31
  highest : s.highestSack = s.findHighestSacked
  head : (s.sentList.head?.any fun head => !head.sacked) = true
  thresh : s.dupAckThresh ≠ 0

namespace Scored
variable {s : TcpTxBuffer} {blocks : List SackBlock}

theorem update (h : Scored s) (hspare : SparesHead s blocks) (hup : Upward s s.sentList blocks) :
    ∃ s' n, s.update blocks = some (s', n) ∧ Scored s' ∧
      (n ≠ 0 → LostBy s.dupAckThresh s.sentList s'.sentList) := by
  obtain ⟨head, rest, hlist⟩ : ∃ head rest, s.sentList = head :: rest := by
    cases hl : s.sentList with
    | nil =>
      have hhead := h.head
      rw [hl] at hhead
      cases hhead
    | cons head rest => exact ⟨head, rest, rfl⟩
  have hheadSacked : head.sacked = false := by
    have hhead := h.head
    rw [hlist] at hhead
    simpa using hhead
  have hcovers : ∀ block ∈ blocks, covers block s.firstByteSeq head = false :=
    fun block hb => hspare head (by rw [hlist]; rfl) block hb
  obtain ⟨l', k', early, hblocks, hwalked, hzero, -⟩ :=
    @updateBlocks_walked s ⟨s.lostOut, s.sackedOut, 0, s.highestSack⟩ s.sentList blocks
      h.counted.exclusive h.counted.filled h.half h.highest (fun _ => rfl) hup
  obtain ⟨rest', hl'⟩ : ∃ rest', l' = head :: rest' := by
    rw [hlist] at hblocks
    exact updateBlocks_head hcovers hblocks
  obtain ⟨t, ht⟩ : ∃ t : TcpTxBuffer, { s with
    sentList := l'
    lostOut := k'.lostOut
    sackedOut := k'.sackedOut
    highestSack := k'.highestSack } = t := ⟨_, rfl⟩
  have htlist : t.sentList = l' := by rw [← ht]
  have hcounted : Counted t := ht ▸ h.counted.marked (updateBlocks_marked hblocks) k'.highestSack
  have hscored : Scored t := by
    refine ⟨hcounted, ?_, ?_, ?_, ?_, ?_⟩
    · rw [htlist, hwalked.sacked.nodes]
      exact h.nodes
    · rw [htlist, hwalked.sacked.bytes_eq]
      exact h.half
    · rw [findHighestSacked, htlist, ← ht]
      exact hwalked.highest
    · rw [htlist, hl']
      simp [hheadSacked]
    · rw [← ht]
      exact h.thresh
  have hrun : s.update blocks = if early then some (t, k'.bytesSacked) else
      (if k'.bytesSacked = 0 then some t else t.updateLostCount).bind fun s =>
        if !(s.sentList.head?.any fun head => !head.sacked) then none
        else if s.sentSize < s.sackedOut + s.lostOut then none
        else some (s, k'.bytesSacked) := by
    rw [TcpTxBuffer.update, hblocks, ← ht]
    rfl
  have hend (u : TcpTxBuffer) (hu : Scored u) : (if !(u.sentList.head?.any fun head => !head.sacked)
      then none else if u.sentSize < u.sackedOut + u.lostOut then none
      else some (u, k'.bytesSacked)) = some (u, k'.bytesSacked) := by
    rw [if_neg (by simp [hu.head])]
    exact if_neg hu.counted.left_le
  cases hearly : early with
  | true =>
    rw [hearly, if_pos rfl] at hrun
    refine ⟨t, k'.bytesSacked, hrun, hscored, fun hn => absurd (hwalked.early hearly) hn⟩
  | false =>
    rw [hearly, if_neg (by simp)] at hrun
    by_cases hn : k'.bytesSacked = 0
    · rw [if_pos hn, Option.bind_some, hend t hscored] at hrun
      exact ⟨t, k'.bytesSacked, hrun, hscored, fun h => absurd hn h⟩
    · have hsome : t.highestSack.1 ≠ none := by
        rw [← ht]
        exact fun hnone => hn (hzero hnone)
      have hsacked : Sacked s.sentList t.sentList := htlist ▸ hwalked.sacked
      obtain ⟨l'', lost, hlost, hlostBy, hshape⟩ := updateLostCount_lostBy hscored.thresh
        (htlist.trans hl') hheadSacked hscored.nodes hcounted.filled hscored.half hscored.highest hsome
        hsacked
      have hhead'' : (l''.head?.any fun head => !head.sacked) = true := by
        have hfirst : l''.head?.map shape = some (shape head) := by
          rw [← List.head?_map, hshape, List.head?_map, htlist, hl']
          rfl
        obtain ⟨head'', hfirst'', heq⟩ := Option.map_eq_some_iff.mp hfirst
        rw [hfirst'']
        simp only [shape, Prod.mk.injEq] at heq
        simp [heq.2.2, hheadSacked]
      have hu : Scored { t with sentList := l'', lostOut := lost } := by
        refine ⟨hcounted.updateLostCount hlost hhead'', ?_, ?_, ?_, hhead'', hscored.thresh⟩
        · exact nodes_shape hshape ▸ hscored.nodes
        · exact bytes_shape hshape ▸ hscored.half
        · exact hscored.highest.trans (highestIn_shape hshape _ _).symm
      rw [if_neg hn, hlost, Option.bind_some, hend _ hu] at hrun
      refine ⟨_, _, hrun, hu, fun _ => ?_⟩
      have hthresh : t.dupAckThresh = s.dupAckThresh := by rw [← ht]
      exact hthresh ▸ hlostBy

end Scored

namespace TcpTxBuffer

/-- Any number of updates from above. -/
def Updates : TcpTxBuffer → TcpTxBuffer → Prop :=
  Relation.ReflTransGen fun s s' => ∃ blocks n, SparesHead s blocks ∧ Upward s s.sentList blocks ∧
    s.update blocks = some (s', n)

end TcpTxBuffer

theorem Scored.updates {s s' : TcpTxBuffer} (h : Scored s) (hrun : Updates s s') : Scored s' := by
  induction hrun with
  | refl => exact h
  | tail _ hstep ih =>
    obtain ⟨blocks, n, hspare, hup, hstep⟩ := hstep
    obtain ⟨t, k, hupdate, ht, -⟩ := ih.update hspare hup
    obtain ⟨rfl, rfl⟩ := Prod.mk.inj (Option.some.inj (hupdate.symm.trans hstep))
    exact ht

/-- After each of them the highest sacked item is the last one, and what is lost is what has enough
sacked items after it. -/
theorem update_in_order {start s : TcpTxBuffer} (hstart : Scored start) (hrun : Updates start s)
    {blocks : List SackBlock} (hspare : SparesHead s blocks) (hup : Upward s s.sentList blocks) :
    ∃ s' n, s.update blocks = some (s', n) ∧ (n ≠ 0 →
      s'.highestSack = s'.findHighestSacked ∧ LostBy s.dupAckThresh s.sentList s'.sentList) := by
  obtain ⟨s', n, hupdate, hs', hlost⟩ := (hstart.updates hrun).update hspare hup
  exact ⟨s', n, hupdate, fun hn => ⟨hs'.highest, hlost hn⟩⟩

/-- Two segments of one byte, both sent; one sacked segment behind the first is enough. -/
def twoOut : TcpTxBuffer where
  maxBuffer := 100
  size := 2
  sentSize := 2
  firstByteSeq := 0
  appList := []
  sentList := [⟨0, 0, [1], false, false, false, 0⟩, ⟨1, 1, [1], false, false, false, 0⟩]
  lostOut := 0
  sackedOut := 0
  retrans := 0
  highestSack := (none, 0)
  dupAckThresh := 1
  sackEnabled := true
  nextNode := 2

theorem update_in_order_two : ∃ s', (twoOut.update [(1, 2)]) = some (s', 1) ∧
    s'.highestSack = s'.findHighestSacked ∧ LostBy 1 twoOut.sentList s'.sentList := by
  have hcounted : Counted twoOut := by
    constructor <;> decide +kernel
  have hscored : Scored twoOut :=
    ⟨hcounted, by decide, by decide, by decide, by decide, by decide⟩
  have hspare : SparesHead twoOut [(1, 2)] := by
    intro head hhead block hblock
    obtain rfl := Option.some.inj hhead
    obtain rfl := List.mem_singleton.mp hblock
    decide +kernel
  have hup : Upward twoOut twoOut.sentList [(1, 2)] := by
    refine .inr ⟨?_, fun _ later hlater => (by cases hlater), trivial⟩
    simp [Undercuts, twoOut, covers, LastNext, TcpTxItem.size, ge, le, gt]
  obtain ⟨s', n, hupdate, hn⟩ := update_in_order hscored .refl hspare hup
  have hone : (twoOut.update [(1, 2)]).map Prod.snd = some 1 := by decide +kernel
  rw [hupdate] at hone
  obtain rfl : n = 1 := Option.some.inj hone
  exact ⟨s', hupdate, hn (by decide)⟩

theorem one_fits : 1 < 2 ^ 32 := by decide

/-- Segments of one byte from 0 on, all sent. -/
def sentOnes (k : Nat) : List Op :=
  List.replicate k (.add (.ones 1 one_fits)) ++
    (List.range k).map fun i => .copyFromSequence 0 1 (BitVec.ofNat 32 i)

/-- Five segments, of which the last three are sacked from the last one down: the third is taken
for the highest, and neither of the first two becomes lost. -/
theorem update_from_below : ∃ s s' : TcpTxBuffer, ∃ n,
    Transition.exec TcpTxBuffer.step (.new 0 100 3 true)
      (sentOnes 5 ++ [.update [(4, 5)], .update [(3, 4)]]) = some s ∧
    s.update [(2, 3)] = some (s', n) ∧ n ≠ 0 ∧ s'.highestSack ≠ s'.findHighestSacked ∧
      ¬ LostBy s.dupAckThresh s.sentList s'.sentList := by
  obtain ⟨s, hrun, hs⟩ := exists_of_any (o := Transition.exec TcpTxBuffer.step (.new 0 100 3 true)
      (sentOnes 5 ++ [.update [(4, 5)], .update [(3, 4)]]))
    (p := fun s => (s.update [(2, 3)]).any fun r => r.2 ≠ 0 && r.1.highestSack ≠ r.1.findHighestSacked &&
      !decide (LostBy s.dupAckThresh s.sentList r.1.sentList)) (by decide)
  cases hupdate : s.update [(2, 3)] with
  | none =>
    rw [hupdate] at hs
    cases hs
  | some r =>
    rw [hupdate, Option.any_some, Bool.and_eq_true, Bool.and_eq_true] at hs
    obtain ⟨⟨hn, hhigh⟩, hlost⟩ := hs
    exact ⟨s, r.1, r.2, hrun, hupdate, by simpa using hn, by simpa using hhigh, by simpa using hlost⟩

end CudaNs3.Tcp
