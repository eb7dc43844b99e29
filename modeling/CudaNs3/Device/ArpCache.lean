import CudaNs3.Device.Topology
import CudaNs3.Lib.Bindings
import CudaNs3.Lib.Transition

/-!
# The ARP cache against a map from addresses to stations

`AddEntry` appends without looking for an entry, `Lookup` takes the first one and
`RemoveEntry` takes out one. An address that is bound twice therefore keeps its first binding,
and keeps the other one after a removal.
-/

namespace CudaNs3.Device

open Bindings Transition
set_option autoImplicit false

def maxCacheSize : Nat := 16

structure CudaArpCache where
  entries : List (UInt32 × MACAddress)
  length_le : entries.length ≤ maxCacheSize

inductive ArpOp where
  | addEntry (ip : UInt32) (mac : MACAddress)
  | removeEntry (ip : UInt32)
  | clear

namespace CudaArpCache

def empty : CudaArpCache := ⟨[], Nat.zero_le _⟩

/-- A full cache refuses the entry. -/
def addEntry (c : CudaArpCache) (ip : UInt32) (mac : MACAddress) : CudaArpCache :=
  if h : c.entries.length < maxCacheSize then
    { entries := c.entries ++ [(ip, mac)]
      length_le := by rw [List.length_append]; exact h }
  else c

def lookup (c : CudaArpCache) (ip : UInt32) : Option MACAddress :=
  (c.entries.find? fun entry => entry.1 = ip).map Prod.snd

def removeEntry (c : CudaArpCache) (ip : UInt32) : CudaArpCache where
  entries := c.entries.eraseP fun entry => entry.1 = ip
  length_le := Nat.le_trans List.length_eraseP_le c.length_le

def clear (_c : CudaArpCache) : CudaArpCache := empty

def perform (c : CudaArpCache) : ArpOp → CudaArpCache
  | .addEntry ip mac => c.addEntry ip mac
  | .removeEntry ip => c.removeEntry ip
  | .clear => c.clear

/-- An interface whose entries these are asks the cache. -/
theorem lookup_of_entries (c : CudaArpCache) (itf : CudaIpv4Interface) (h : itf.arp = c.entries)
    (ip : UInt32) : itf.lookup ip = c.lookup ip := by
  rw [CudaIpv4Interface.lookup, h]
  rfl

end CudaArpCache

/-- The cache, and for each address the station of the last entry that was not refused and
that no removal or `Clear` has come after. -/
structure ArpHistory where
  cache : CudaArpCache
  latest : UInt32 → Option MACAddress

namespace ArpHistory

def start : ArpHistory := ⟨.empty, fun _ => none⟩

def latestAfter (h : ArpHistory) : ArpOp → UInt32 → Option MACAddress
  | .addEntry ip mac =>
    if h.cache.entries.length < maxCacheSize then Function.update h.latest ip (some mac)
    else h.latest
  | .removeEntry ip => Function.update h.latest ip none
  | .clear => fun _ => none

def perform (h : ArpHistory) (op : ArpOp) : ArpHistory := ⟨h.cache.perform op, h.latestAfter op⟩

/-- The cache answers as the map does. -/
def Answers (h : ArpHistory) : Prop := ∀ ip, h.cache.lookup ip = h.latest ip

/-- An entry that is taken is for an address without one, or gives the station `Lookup` finds
already; an address that is removed is bound at most once. -/
def BindsOnce (h : ArpHistory) : ArpOp → Prop
  | .addEntry ip mac => h.cache.entries.length < maxCacheSize →
      h.cache.lookup ip = none ∨ h.cache.lookup ip = some mac
  | .removeEntry ip => h.cache.entries.countP (fun entry => entry.1 = ip) ≤ 1
  | .clear => True

end ArpHistory

namespace CudaArpCache
variable (c : CudaArpCache)

theorem lookup_addEntry {ip : UInt32} {mac : MACAddress}
    (hroom : c.entries.length < maxCacheSize) (k : UInt32) :
    (c.addEntry ip mac).lookup k = (c.lookup k).or (if ip = k then some mac else none) := by
  have hget := @get_append_singleton _ _ _ Prod.fst c.entries (ip, mac) k
  unfold addEntry
  rw [dif_pos hroom]
  refine (congrArg (Option.map Prod.snd) hget).trans ?_
  rw [Option.map_or]
  refine congrArg (Option.or _) ?_
  split <;> rfl

theorem addEntry_full {ip : UInt32} {mac : MACAddress}
    (hfull : ¬c.entries.length < maxCacheSize) : c.addEntry ip mac = c := dif_neg hfull

theorem lookup_removeEntry_of_ne {ip k : UInt32} (hne : k ≠ ip) :
    (c.removeEntry ip).lookup k = c.lookup k :=
  congrArg (Option.map Prod.snd) (get_eraseP_of_ne hne c.entries)

theorem lookup_removeEntry_self_iff (ip : UInt32) : (c.removeEntry ip).lookup ip = none ↔
    c.entries.countP (fun entry => entry.1 = ip) ≤ 1 :=
  Option.map_eq_none_iff.trans (get_eraseP_self_iff c.entries ip)

end CudaArpCache

namespace ArpHistory
variable {h : ArpHistory}

theorem answers_addEntry_iff (hs : h.Answers) (ip : UInt32) (mac : MACAddress) :
    (h.perform (.addEntry ip mac)).Answers ↔ h.BindsOnce (.addEntry ip mac) := by
  by_cases hroom : h.cache.entries.length < maxCacheSize
  · have hlatest : (h.perform (.addEntry ip mac)).latest =
        Function.update h.latest ip (some mac) := if_pos hroom
    have hnew := @CudaArpCache.lookup_addEntry h.cache ip mac hroom
    constructor
    · intro hanswers _
      have hself := hanswers ip
      rw [hlatest, Function.update_self] at hself
      have hlookup := (hnew ip).symm.trans hself
      rw [if_pos rfl] at hlookup
      cases hold : h.cache.lookup ip with
      | none => exact Or.inl rfl
      | some old =>
        rw [hold, Option.some_or] at hlookup
        exact Or.inr hlookup
    · intro hbinds k
      rw [hlatest]
      refine (hnew k).trans ?_
      by_cases hk : ip = k
      · subst hk
        rw [if_pos rfl, Function.update_self]
        rcases hbinds hroom with hold | hold
        · rw [hold, Option.none_or]
        · rw [hold, Option.some_or]
      · rw [if_neg hk, Option.or_none, Function.update_of_ne (Ne.symm hk), hs k]
  · have hsame : h.perform (.addEntry ip mac) = h := by
      have hlatest : h.latestAfter (.addEntry ip mac) = h.latest := if_neg hroom
      change ArpHistory.mk (h.cache.addEntry ip mac) (h.latestAfter _) = h
      rw [h.cache.addEntry_full hroom, hlatest]
    rw [hsame]
    exact ⟨fun _ hlt => absurd hlt hroom, fun _ => hs⟩

theorem answers_removeEntry_iff (hs : h.Answers) (ip : UInt32) :
    (h.perform (.removeEntry ip)).Answers ↔ h.BindsOnce (.removeEntry ip) := by
  have hlatest : (h.perform (.removeEntry ip)).latest = Function.update h.latest ip none := rfl
  constructor
  · intro hanswers
    have hself := hanswers ip
    rw [hlatest, Function.update_self] at hself
    exact (h.cache.lookup_removeEntry_self_iff ip).mp hself
  · intro honce k
    rw [hlatest]
    by_cases hk : k = ip
    · subst hk
      rw [Function.update_self]
      exact (h.cache.lookup_removeEntry_self_iff k).mpr honce
    · rw [Function.update_of_ne hk, ← hs k]
      exact h.cache.lookup_removeEntry_of_ne hk

theorem answers_perform_iff (hs : h.Answers) (op : ArpOp) :
    (h.perform op).Answers ↔ h.BindsOnce op := by
  cases op with
  | addEntry ip mac => exact answers_addEntry_iff hs ip mac
  | removeEntry ip => exact answers_removeEntry_iff hs ip
  | clear => exact ⟨fun _ => trivial, fun _ _ => rfl⟩

/-- The cache is a map throughout the calls as long as, and only as long as, no address is
bound to a second station and none that is bound twice is removed. A removal never changes
what is found for another address. -/
theorem answers_throughout_iff (ops : List ArpOp) :
    (Throughout perform Answers start ops ↔ Each perform BindsOnce start ops) ∧
      ∀ (c : CudaArpCache) (ip k : UInt32), k ≠ ip →
        (c.removeEntry ip).lookup k = c.lookup k := by
  refine ⟨?_, fun c ip k => c.lookup_removeEntry_of_ne⟩
  have hstart : start.Answers := fun _ => rfl
  exact throughout_iff_each (I := fun _ => True) (P := Answers) (Q := BindsOnce)
    (fun _ _ _ => trivial) (fun _ op _ hs => answers_perform_iff hs op) trivial hstart ops

/-- An address that moves to another station is still found at the old one. -/
theorem not_answers_throughout :
    ¬∀ ops, Throughout perform Answers start ops := by
  intro h
  have hlast := (h [.addEntry 1 (.station 1), .addEntry 1 (.station 2)]).2.2 1
  revert hlast
  decide +kernel

end ArpHistory

end CudaNs3.Device
