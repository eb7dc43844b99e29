import CudaNs3.Device.Net
import CudaNs3.Lib.Bindings
import CudaNs3.Lib.Transition

/-!
# The learning table against a map from stations to ports

`Learn` looks for room before it looks for the station. Once the table is full a known station
that moves to another port is not followed any more.
-/

namespace CudaNs3.Device

open Bindings Transition
set_option autoImplicit false

/-- The table, and for each station the port of the last `Learn`. -/
structure LearnHistory where
  table : List (MACAddress × Nat)
  latest : Finmap fun _ : MACAddress => Nat

namespace LearnHistory
open CudaBridgeNetDevice
variable (b : CudaBridgeNetDevice)

def start : LearnHistory := ⟨[], ∅⟩

def learn (h : LearnHistory) (station : MACAddress × Nat) : LearnHistory where
  table := CudaBridgeNetDevice.learn b h.table station.1 station.2
  latest := h.latest.insert station.1 station.2

/-- As long as no more stations were learned than the table can hold, the table gives the
latest port of each of them. -/
def Tracks (h : LearnHistory) : Prop :=
  h.latest.keys.card ≤ maxMacEntries → ∀ mac, getLearnedState h.table mac = h.latest.lookup mac

/-- While there are no more stations than the table can hold, one that is learned with the
table full is found behind the same port already. -/
def StaysPut (h : LearnHistory) (station : MACAddress × Nat) : Prop :=
  (h.latest.insert station.1 station.2).keys.card ≤ maxMacEntries →
    maxMacEntries ≤ h.table.length → getLearnedState h.table station.1 = some station.2

variable {b} {h : LearnHistory}

theorem learn_of_room (hlearning : b.enableLearning = true)
    (hroom : h.table.length < maxMacEntries) (station : MACAddress × Nat) :
    (h.learn b station).table = put Prod.fst h.table station := by
  change CudaBridgeNetDevice.learn b h.table station.1 station.2 = _
  unfold CudaBridgeNetDevice.learn put
  exact (if_neg (by simp [hlearning])).trans (if_neg (Nat.not_le.mpr hroom))

theorem learn_of_full (hfull : maxMacEntries ≤ h.table.length) (station : MACAddress × Nat) :
    (h.learn b station).table = h.table := by
  change CudaBridgeNetDevice.learn b h.table station.1 station.2 = _
  unfold CudaBridgeNetDevice.learn
  rw [if_pos hfull, ite_self]

theorem distinct_learn (hlearning : b.enableLearning = true)
    (hs : Distinct Prod.fst h.table) (station : MACAddress × Nat) :
    Distinct Prod.fst (h.learn b station).table := by
  by_cases hroom : h.table.length < maxMacEntries
  · rw [learn_of_room hlearning hroom]
    exact hs.put station
  · rw [learn_of_full (Nat.not_lt.mp hroom)]
    exact hs

theorem Tracks.represents (hs : h.Tracks) (hdistinct : Distinct Prod.fst h.table)
    (hcard : h.latest.keys.card ≤ maxMacEntries) :
    Represents Prod.fst Prod.snd h.table h.latest :=
  ⟨hdistinct, fun mac => (hs hcard mac).symm⟩

theorem card_le_insert (m : Finmap fun _ : MACAddress => Nat) (mac : MACAddress) (port : Nat) :
    m.keys.card ≤ (m.insert mac port).keys.card := by
  refine Finset.card_le_card fun k hk => ?_
  rw [Finmap.mem_keys] at hk ⊢
  exact Finmap.mem_insert.mpr (Or.inr hk)

/-- With as many stations as the table holds, the one that is learned is known. -/
theorem known_of_full (hs : Represents Prod.fst Prod.snd h.table h.latest)
    {station : MACAddress × Nat} (hfull : maxMacEntries ≤ h.table.length)
    (hcard : (h.latest.insert station.1 station.2).keys.card ≤ maxMacEntries) :
    (get Prod.fst h.table station.1).isSome := by
  by_contra hnew
  have hlength := (hs.put station).card
  rw [length_put, if_neg hnew] at hlength
  omega

theorem tracks_learn_iff (hlearning : b.enableLearning = true)
    (hdistinct : Distinct Prod.fst h.table) (hs : h.Tracks) (station : MACAddress × Nat) :
    (h.learn b station).Tracks ↔ h.StaysPut station := by
  by_cases hcard : (h.latest.insert station.1 station.2).keys.card ≤ maxMacEntries
  · have hold : h.latest.keys.card ≤ maxMacEntries :=
      (card_le_insert h.latest station.1 station.2).trans hcard
    have hrep := hs.represents hdistinct hold
    by_cases hroom : h.table.length < maxMacEntries
    · constructor
      · exact fun _ _ hfull => absurd hfull (Nat.not_le.mpr hroom)
      · intro _ _ mac
        rw [learn_of_room hlearning hroom]
        exact ((hrep.put station).lookup mac).symm
    · have hfull := Nat.not_lt.mp hroom
      have hknown := known_of_full hrep hfull hcard
      constructor
      · intro htracks _ _
        have hself := htracks hcard station.1
        rw [learn_of_full hfull] at hself
        exact hself.trans (Finmap.lookup_insert h.latest)
      · intro hput _ mac
        rw [learn_of_full hfull]
        by_cases hmac : mac = station.1
        · subst hmac
          exact (hput hcard hfull).trans (Finmap.lookup_insert h.latest).symm
        · exact (hs hold mac).trans (Finmap.lookup_insert_of_ne h.latest hmac).symm
  · exact ⟨fun _ hle => absurd hle hcard, fun _ hle => absurd hle hcard⟩

/-- The table follows the stations throughout the calls as long as, and only as long as, none
moves after the table is full. -/
theorem tracks_throughout_iff (hlearning : b.enableLearning = true)
    (stations : List (MACAddress × Nat)) :
    Throughout (learn b) Tracks start stations ↔ Each (learn b) StaysPut start stations := by
  have hstart : start.Tracks := fun _ _ => rfl
  have hempty : Distinct Prod.fst start.table := List.nodup_nil
  exact throughout_iff_each (I := fun h : LearnHistory => Distinct Prod.fst h.table) (P := Tracks)
    (Q := StaysPut) (fun _ station hs => distinct_learn hlearning hs station)
    (fun _ station hd hs => tracks_learn_iff hlearning hd hs station) hempty hstart stations

/-- A station that moves while there is room. -/
theorem tracks_throughout_moved :
    Throughout (learn ⟨[0, 1], true⟩) Tracks start [(.station 1, 0), (.station 1, 1)] :=
  (tracks_throughout_iff rfl _).mpr
    ⟨fun _ hfull => absurd hfull (by decide), fun _ hfull => absurd hfull (by decide), trivial⟩

/-- Stations 0 to 15 are learned behind port 0. -/
def sixteen : List (MACAddress × Nat) :=
  (List.range maxMacEntries).map fun i => (.station (.ofNat i), 0)

/-- Sixteen stations fill the table; the first of them then moves to port 1 and is still found
behind port 0. -/
theorem not_tracks_throughout : ¬∀ stations,
    Throughout (learn ⟨[0, 1], true⟩) Tracks start stations := by
  intro h
  have hlast := throughout_foldl (h (sixteen ++ [(.station 0, 1)]))
  have hfound := hlast (by decide +kernel) (.station 0)
  revert hfound
  decide +kernel

end LearnHistory
end CudaNs3.Device
