import HeadsetBattery.Library.KeyedList
import HeadsetBattery.Bridge.Policy

/-!
# The virtual batteries

The devices the kernel knows, and what the daemon knows about each, in two
lists where an index means the same in both. Handles on the uhid node are of
any type: they are only ever handed out and given back.
-/
namespace HeadsetBattery.Bridge

/-- What the kernel is told a device is. -/
structure Identity where
  name : String
  uniq : String
  phys : String
  vendor : UInt16
  product : UInt16
  deriving DecidableEq, Repr

/-- A device created on a handle, with the last reading given to its creation
or successfully pushed to it. -/
structure Battery (Handle : Type) where
  handle : Handle
  identity : Identity
  reading : Reading
  deriving DecidableEq, Repr

/-- What the daemon knows about one virtual battery, besides the device. -/
structure VirtualBattery where
  key : String
  name : String
  /-- When the headset last gave us a usable level. -/
  lastReading : ℕ
  /-- When the headset was last reported at all, answering or not. -/
  lastSeen : ℕ
  /-- Since when the headset has been silent, if it is. -/
  silentSince : Option ℕ
  /-- Since when the headset has been missing from the polls, if it is. -/
  missingSince : Option ℕ
  /-- Since when the reader has been saying the headset is gone. -/
  goneSince : Option ℕ
  /-- A reading that was too far off to publish, and which reading that was. -/
  deferred : Option ℕ
  deferredSample : Option ℕ
  /-- A level kept out of sight, logged once. -/
  held : Option ℕ
  /-- The level the last INFO line mentioned. -/
  loggedPercent : ℕ
  /-- When a reading was last pushed to the kernel. -/
  publishedAt : ℕ
  /-- How many times in a row the device could not be talked to. -/
  failures : ℕ
  deriving DecidableEq, Repr

/-- A device with its bookkeeping. -/
abbrev Entry (Handle : Type) := Battery Handle × VirtualBattery

/-- The devices and their bookkeeping, at the same indices. -/
structure Batteries (Handle : Type) where
  devices : List (Battery Handle)
  states : List VirtualBattery

namespace Batteries

variable {Handle : Type}

def empty : Batteries Handle := ⟨[], []⟩

def len (b : Batteries Handle) : ℕ := b.states.length

/-- The index of the battery mirroring the headset with this key. -/
def position (b : Batteries Handle) (key : String) : Option ℕ :=
  b.states.findIdx? (fun state => decide (state.key = key))

def push (b : Batteries Handle) (device : Battery Handle) (state : VirtualBattery) :
    Batteries Handle :=
  ⟨b.devices ++ [device], b.states ++ [state]⟩

/-- Take a battery out, closing the gap. -/
def remove (b : Batteries Handle) (index : ℕ) : Batteries Handle :=
  ⟨b.devices.eraseIdx index, b.states.eraseIdx index⟩

/-- The device and its bookkeeping, together. -/
def pair? (b : Batteries Handle) (index : ℕ) : Option (Entry Handle) :=
  (b.devices.zip b.states)[index]?

/-- Write back a device and its bookkeeping. -/
def setPair (b : Batteries Handle) (index : ℕ) (pair : Entry Handle) :
    Batteries Handle :=
  ⟨b.devices.set index pair.1, b.states.set index pair.2⟩

/-- Change the bookkeeping at an index. -/
def modifyState (b : Batteries Handle) (index : ℕ) (f : VirtualBattery → VirtualBattery) :
    Batteries Handle :=
  { b with states := b.states.modify index f }

/-- Change all the bookkeeping. -/
def mapStates (b : Batteries Handle) (f : VirtualBattery → VirtualBattery) : Batteries Handle :=
  { b with states := b.states.map f }

/-! ## The batteries as a map from keys -/

/-- The devices with their bookkeeping. -/
def entries (b : Batteries Handle) : List (Entry Handle) :=
  b.devices.zip b.states

/-- The key an entry is found under. -/
def entryKey (entry : Entry Handle) : String := entry.2.key

/-- The battery mirroring the headset with this key. -/
def find? (b : Batteries Handle) (key : String) : Option (Entry Handle) :=
  KeyedList.lookup entryKey b.entries key

/-- The two lists are in step and no key occurs twice. -/
structure InStep (b : Batteries Handle) : Prop where
  length : b.devices.length = b.states.length
  keys : (b.states.map VirtualBattery.key).Nodup

theorem entries_keys {b : Batteries Handle} (h : b.devices.length = b.states.length) :
    b.entries.map entryKey = b.states.map VirtualBattery.key := by
  have hsnd : b.entries.map Prod.snd = b.states := List.map_snd_zip h.ge
  calc b.entries.map entryKey = (b.entries.map Prod.snd).map VirtualBattery.key := by
        rw [List.map_map]; rfl
    _ = b.states.map VirtualBattery.key := by rw [hsnd]

theorem InStep.nodup {b : Batteries Handle} (h : b.InStep) : (b.entries.map entryKey).Nodup := by
  rw [entries_keys h.length]
  exact h.keys

theorem inStep_of_entries {b : Batteries Handle} (hl : b.devices.length = b.states.length)
    (hn : (b.entries.map entryKey).Nodup) : b.InStep := by
  rw [entries_keys hl] at hn
  exact ⟨hl, hn⟩

theorem inStep_empty : (empty : Batteries Handle).InStep := ⟨rfl, List.nodup_nil⟩

@[simp] theorem find?_empty (key : String) : (empty : Batteries Handle).find? key = none := rfl

theorem key_of_find? {b : Batteries Handle} {key : String}
    {entry : Entry Handle} (h : b.find? key = some entry) :
    entry.2.key = key :=
  (KeyedList.mem_of_lookup h).2

section InStep

variable {b : Batteries Handle} {index : ℕ} {entry pair : Entry Handle}

theorem InStep.find?_of_pair? (h : b.InStep) (hi : b.pair? index = some entry) :
    b.find? entry.2.key = some entry :=
  (KeyedList.lookup_eq_some h.nodup).2 ⟨List.mem_of_getElem? hi, rfl⟩

theorem InStep.pair?_of_device (h : b.InStep) {device : Battery Handle}
    (hi : b.devices[index]? = some device) : ∃ state, b.pair? index = some (device, state) := by
  have hlt : index < b.states.length := h.length ▸ (List.getElem?_eq_some_iff.1 hi).1
  exact ⟨b.states[index], List.getElem?_zip_eq_some.2 ⟨hi, List.getElem?_eq_getElem hlt⟩⟩

/-- An index for each key. -/
theorem InStep.index_eq (h : b.InStep) {index' : ℕ} {other : Entry Handle}
    (hi : b.pair? index = some entry) (hj : b.pair? index' = some other)
    (hk : entry.2.key = other.2.key) : index = index' := by
  have hi' : (b.entries.map entryKey)[index]? = some entry.2.key := by
    rw [List.getElem?_map]
    exact congrArg (Option.map entryKey) hi
  have hj' : (b.entries.map entryKey)[index']? = some entry.2.key := by
    rw [List.getElem?_map, hk]
    exact congrArg (Option.map entryKey) hj
  exact (List.getElem?_inj (List.getElem?_eq_some_iff.1 hi').1 h.nodup).1 (hi'.trans hj'.symm)

/-! ### The index of a key -/

theorem InStep.position_eq (h : b.InStep) (key : String) :
    b.position key = b.entries.findIdx? (fun entry => decide (entryKey entry = key)) := by
  have hsnd : b.states = b.entries.map Prod.snd := (List.map_snd_zip h.length.ge).symm
  rw [position, hsnd, List.findIdx?_map]
  rfl

theorem InStep.pair?_of_position (h : b.InStep) {key : String}
    (hp : b.position key = some index) :
    ∃ entry, b.pair? index = some entry ∧ b.find? key = some entry := by
  rw [h.position_eq] at hp
  exact KeyedList.findIdx?_eq_some hp

theorem InStep.position_eq_none (h : b.InStep) {key : String} :
    b.position key = none ↔ b.find? key = none := by
  rw [h.position_eq]
  exact KeyedList.findIdx?_eq_none

/-! ### Writing back, taking out and pushing -/

theorem entries_setPair : (b.setPair index pair).entries = b.entries.set index pair :=
  List.zip_set_set _ _ _ _ _

theorem pair?_setPair (pair : Entry Handle) (hi : b.pair? index = some entry) :
    (b.setPair index pair).pair? index = some pair := by
  have hlt : index < b.entries.length := (List.getElem?_eq_some_iff.1 hi).1
  rw [pair?, ← entries, entries_setPair, List.getElem?_set_self hlt]

theorem InStep.setPair (h : b.InStep) (hi : b.pair? index = some entry)
    (hk : pair.2.key = entry.2.key) : (b.setPair index pair).InStep := by
  refine inStep_of_entries (by simp [Batteries.setPair, h.length]) ?_
  rw [entries_setPair]
  exact KeyedList.nodup_set h.nodup hi hk

theorem InStep.find?_setPair (h : b.InStep) (hi : b.pair? index = some entry)
    (hk : pair.2.key = entry.2.key) (key : String) :
    (b.setPair index pair).find? key = if key = entry.2.key then some pair else b.find? key := by
  rw [find?, entries_setPair]
  exact KeyedList.lookup_set h.nodup hi hk key

/-- Changing the bookkeeping alone writes the device back as it was. -/
theorem modifyState_eq_setPair (hi : b.pair? index = some entry)
    (f : VirtualBattery → VirtualBattery) :
    b.modifyState index f = b.setPair index (entry.1, f entry.2) := by
  obtain ⟨hd, hs⟩ := List.getElem?_zip_eq_some.1 hi
  have hstates : b.states.modify index f = b.states.set index (f entry.2) := by
    rw [List.modify_eq_set_getElem?, hs]
    rfl
  have hdevices : b.devices.set index entry.1 = b.devices := by
    obtain ⟨hlt, hget⟩ := List.getElem?_eq_some_iff.1 hd
    rw [← hget, List.set_getElem_self]
  rw [modifyState, Batteries.setPair, hstates, hdevices]

theorem InStep.entries_remove (h : b.InStep) (index : ℕ) :
    (b.remove index).entries = b.entries.eraseIdx index :=
  List.zip_eraseIdx_eraseIdx h.length index

theorem InStep.remove (h : b.InStep) (index : ℕ) : (b.remove index).InStep := by
  refine inStep_of_entries ?_ ?_
  · simp [Batteries.remove, List.length_eraseIdx, h.length]
  · rw [h.entries_remove]
    exact KeyedList.nodup_eraseIdx h.nodup index

theorem InStep.find?_remove (h : b.InStep) (hi : b.pair? index = some entry) (key : String) :
    (b.remove index).find? key = if key = entry.2.key then none else b.find? key := by
  rw [find?, h.entries_remove]
  exact KeyedList.lookup_eraseIdx h.nodup hi key

theorem InStep.entries_push (h : b.InStep) :
    (b.push pair.1 pair.2).entries = b.entries ++ [pair] := by
  simp [entries, Batteries.push, List.zip_append h.length]

theorem InStep.push (h : b.InStep) (hk : b.find? pair.2.key = none) :
    (b.push pair.1 pair.2).InStep := by
  refine inStep_of_entries (by simp [Batteries.push, h.length]) ?_
  rw [h.entries_push]
  exact KeyedList.nodup_append_singleton h.nodup hk

theorem InStep.find?_push (h : b.InStep) (hk : b.find? pair.2.key = none) (key : String) :
    (b.push pair.1 pair.2).find? key = if key = pair.2.key then some pair else b.find? key := by
  rw [find?, h.entries_push, KeyedList.lookup_append, KeyedList.lookup_singleton]
  by_cases he : key = pair.2.key
  · subst he
    rw [find?] at hk
    simp [hk, entryKey]
  · simp [find?, he, entryKey, Ne.symm he]

theorem InStep.mapStates (h : b.InStep) {f : VirtualBattery → VirtualBattery}
    (hf : ∀ state, (f state).key = state.key) : (b.mapStates f).InStep := by
  refine ⟨by simp [Batteries.mapStates, h.length], ?_⟩
  rw [Batteries.mapStates, List.map_map, show VirtualBattery.key ∘ f = VirtualBattery.key from
    funext hf]
  exact h.keys

theorem find?_mapStates {f : VirtualBattery → VirtualBattery}
    (hf : ∀ state, (f state).key = state.key) (key : String) :
    (b.mapStates f).find? key = (b.find? key).map fun entry => (entry.1, f entry.2) := by
  rw [find?, entries, Batteries.mapStates, List.zip_map_right]
  exact KeyedList.lookup_map (f := fun entry => (entry.1, f entry.2)) (fun entry => hf entry.2) key

end InStep

end Batteries

end HeadsetBattery.Bridge
