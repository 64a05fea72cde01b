import HeadsetBattery.Library.Runs
import HeadsetBattery.Bridge.Batteries
import Mathlib.Logic.Function.Basic

/-!
# The bridge

A tick reads the batteries once and reconciles the virtual devices with them; a
wait keeps answering the kernel in between. What the kernel and uhid-battery
answer is an input; what the bridge does to each headset's device is an output,
stamped with the headset's key and the instant. Errors are chains of contexts,
outermost first.
-/
namespace HeadsetBattery.Bridge

/-- How long to wait before trying again to create a virtual battery that could
not be created, or that was given up on. -/
def attachRetry : ℕ := seconds 60

/-- How many times in a row talking to a virtual device may fail before it is
destroyed and created afresh. -/
def deviceFailureLimit : ℕ := 3

/-- How long the dongle has to keep saying the headset is gone before it is
believed. -/
def disconnectSettle : ℕ := seconds 3

/-- How long a new overall state has to last before it is worth a log line. -/
def summarySettle : ℕ := seconds 5

/-- An unchanged level is pushed again this often. -/
def republishEvery : ℕ := seconds 60

/-- Level change worth an INFO line. -/
def logStep : ℕ := 5

/-- First component of the virtual devices' `phys`. -/
def physPrefix : String := "headset-battery-indicator"

/-! ## What happens to a device -/

/-- Why a virtual battery was taken down. -/
inductive Cause where
  | switchedOff
  | silent
  | missing
  | broken
  deriving DecidableEq, Repr

/-- What the bridge does about one headset. -/
inductive Deed where
  | opensNode
  | acquired
  | created (identity : Identity)
  | appeared (reading : Reading)
  | attachFailed (final : Bool)
  | deferred (reading : Reading) (sample : Option ℕ)
  | held (reading : Reading) (sample : Option ℕ)
  | accepted (reading : Reading) (sample : Option ℕ)
  | pushed (reading : Reading) (ok : Bool)
  | struck (failures : ℕ)
  | removed (cause : Cause)
  deriving DecidableEq, Repr

/-- A deed, with the headset it is about and when it was done. -/
structure Event where
  key : String
  now : ℕ
  deed : Deed
  deriving DecidableEq, Repr

/-- Stamp the deeds of one call. -/
def stamp (key : String) (now : ℕ) (deeds : List Deed) : List Event := deeds.map (Event.mk key now)

/-- Why a device could not be created, as far as the bridge tells apart. -/
inductive CreateErrorKind where
  | invalidIdentity
  | other
  deriving DecidableEq, Repr

/-- Why a virtual battery could not be created: worth another try, or never. -/
inductive AttachFailure where
  | retry (err : List String)
  | giveUp (err : List String)
  deriving DecidableEq, Repr

/-- What the kernel and uhid-battery answer while one headset is applied. An
answer that is not asked for is not used. -/
structure Answers (Handle : Type) where
  opened : Except String Handle
  created : Except (CreateErrorKind × String) Unit
  registered : Except String (Option String)
  updated : Except String Unit

/-! ## One battery -/

section Battery

variable {Handle : Type}

/-- Run a reading through `vet`, against the reading `known` to the kernel, and
keep the record a deferral or a hold needs. Nothing is left to publish when the
reading waits for a second opinion. -/
def vetted (battery : VirtualBattery) (known reading : Reading) (sample : Option ℕ) :
    VirtualBattery × Option Reading × Deed :=
  match vet known reading (secondOpinion battery.deferred battery.deferredSample sample) with
  | .defer =>
      ({ battery with deferred := some reading.percent, deferredSample := sample }, none,
        .deferred reading sample)
  | .hold =>
      ({ battery with held := some reading.percent, deferred := none, deferredSample := none },
        some known, .held reading sample)
  | .accept =>
      ({ battery with held := none, deferred := none, deferredSample := none }, some reading,
        .accepted reading sample)

/-- Push a reading to a device. A device is assumed to keep its reading if that fails;
the crate behind it is not modelled. -/
def update (device : Battery Handle) (battery : VirtualBattery) (reading : Reading)
    (updated : Except String Unit) : Battery Handle × Except (List String) Unit :=
  match updated with
  | .ok _ => ({ device with reading := reading }, .ok ())
  | .error err => (device, .error ["publishing the level of " ++ battery.name, err])

/-- The level the log last mentioned, after a push of `reading`. -/
def mention (battery : VirtualBattery) (known reading : Reading) : ℕ :=
  if known ≠ reading ∧ (known.charging ≠ reading.charging ∨
      logStep ≤ absDiff battery.loggedPercent reading.percent) then reading.percent
  else battery.loggedPercent

/-- A usable level for a battery that exists: the device and its bookkeeping, the
deeds, and the result of the push if there was one. An unchanged level is still
pushed now and then. -/
def refresh (device : Battery Handle) (battery : VirtualBattery) (reading : Reading)
    (sample : Option ℕ) (now : ℕ) (updated : Except String Unit) :
    (Battery Handle × VirtualBattery) × List Deed × Option (Except (List String) Unit) :=
  -- The headset answered, so it is alive even if its level is not believed.
  let alive := { battery with lastReading := now, goneSince := none }
  let known := device.reading
  let vet := vetted alive known reading sample
  match vet.2.1 with
  | none => ((device, vet.1), [vet.2.2], none)
  | some reading =>
      if known = reading ∧ now - vet.1.publishedAt < republishEvery then
        ((device, vet.1), [vet.2.2], none)
      else
        let logged :=
          { vet.1 with loggedPercent := mention vet.1 known reading, publishedAt := now }
        let pushed := update device logged reading updated
        ((pushed.1, logged), [vet.2.2, .pushed reading pushed.2.isOk], some pushed.2)

/-- One more failure in a row, or none any more. -/
def strike (battery : VirtualBattery) (ok : Bool) : VirtualBattery :=
  { battery with failures := if ok then 0 else battery.failures + 1 }

def identityOf (h : Headset) : Identity where
  name := h.displayName
  uniq := h.uniq
  phys := physPrefix ++ "/" ++ h.uniq
  vendor := h.vendorId
  product := h.productId

/-- The bookkeeping of a battery that just appeared. -/
def fresh (h : Headset) (reading : Reading) (now : ℕ) : VirtualBattery where
  key := h.key
  name := h.name
  lastReading := now
  lastSeen := now
  silentSince := none
  missingSince := none
  goneSince := none
  deferred := none
  deferredSample := none
  held := none
  loggedPercent := reading.percent
  publishedAt := now
  failures := 0

/-- Create a device on a handle and look for the power supply the kernel should
have made of it. Without a device the handle is still the caller's. -/
def attachOn (handle : Handle) (h : Headset) (reading : Reading) (now : ℕ) (a : Answers Handle) :
    Option (Battery Handle × VirtualBattery) × List Deed × Except AttachFailure Unit :=
  match a.created with
  | .error (.invalidIdentity, source) =>
      -- The names are quoted, which escapes control characters in a way of its own.
      (none, [.acquired], .error (.giveUp ["the kernel can never accept its identity (name " ++
        h.displayName.quote ++ ", uniq " ++ h.uniq.quote ++ ")", source]))
  | .error (.other, source) =>
      (none, [.acquired], .error (.retry ["creating the virtual HID battery", source]))
  | .ok _ =>
      match a.registered with
      | .ok (some _) =>
          (some (⟨handle, identityOf h, reading⟩, fresh h reading now),
            [.acquired, .created (identityOf h), .appeared reading], .ok ())
      | .ok none =>
          (none, [.acquired, .created (identityOf h)],
            .error (.retry ["the kernel created the HID device but no hid-" ++ h.uniq ++
              "-battery power supply; is CONFIG_HID_BATTERY_STRENGTH enabled? (see " ++
              "`journalctl -k`)"]))
      | .error err =>
          (none, [.acquired, .created (identityOf h)],
            .error (.retry ["waiting for the power supply", err]))

/-- The time since a clock started, zero when it has not. -/
def since (start : Option ℕ) (now : ℕ) : ℕ := (start.map fun t => now - t).getD 0

/-- Whether a battery has outlived its grace, and which. -/
def outlived (config : Config) (battery : VirtualBattery) (now : ℕ) : Withdrawal :=
  withdrawal (since battery.silentSince now) (since battery.missingSince now) config

/-- The clocks of a battery at the end of a poll. -/
def noteClocks (now : ℕ) (battery : VirtualBattery) : VirtualBattery :=
  { battery with
      silentSince := note battery.silentSince (battery.lastReading = now) now
      missingSince := note battery.missingSince (battery.lastSeen = now) now }

end Battery

/-! ## The pool of handles -/

/-- Hands out uhid handles, reusing the ones the service manager passed. -/
structure DevicePool (Handle : Type) where
  spare : List Handle
  path : String
  /-- Whether opening the device node ourselves is allowed. -/
  mayOpen : Bool

namespace DevicePool

variable {Handle : Type}

/-- A pool over the inherited handles, or over the node at `path` when there are
none. -/
def new (inherited : List Handle) (path : String) : DevicePool Handle :=
  ⟨inherited, path, inherited.isEmpty⟩

/-- A handle to create the next device on; `opened` is what opening the node
gives, if it comes to that. -/
def acquire (pool : DevicePool Handle) (opened : Except String Handle) :
    DevicePool Handle × List Deed × Except (List String) Handle :=
  match pool.spare.getLast? with
  | some handle => ({ pool with spare := pool.spare.dropLast }, [], .ok handle)
  | none =>
      if pool.mayOpen then
        match opened with
        | .ok handle => (pool, [.opensNode], .ok handle)
        | .error err => (pool, [.opensNode], .error ["opening " ++ pool.path, err])
      else
        (pool, [], .error ["out of inherited /dev/uhid descriptors; pass another one with a " ++
          "second OpenFile=/dev/uhid:uhid2 line in the unit file"])

def putBack (pool : DevicePool Handle) (handle : Handle) : DevicePool Handle :=
  { pool with spare := pool.spare ++ [handle] }

end DevicePool

/-! ## What a poll found -/

/-- What a poll found, coarse enough that it only changes when something worth
saying happened. -/
inductive Summary where
  | noDevice
  | noBattery
  | offline
  | online
  deriving DecidableEq, Repr

def Summary.of (headsets : List Headset) : Summary :=
  let withBattery := headsets.filter Headset.supportsBattery
  if headsets.isEmpty then .noDevice
  else if withBattery.isEmpty then .noBattery
  else if withBattery.all (fun h => h.battery = .unavailable || h.battery = .disconnected) then
    .offline
  else .online

end Bridge

/-! ## The bridge itself -/

open Bridge in
/-- The bridge between the battery readers and UPower. -/
structure Bridge (Handle : Type) where
  config : Config
  uhid : DevicePool Handle
  batteries : Batteries Handle
  probeFailing : Bool
  /-- Headsets whose battery could not be created, and when to try again. -/
  attachRetryAt : String → Option ℕ
  /-- Headsets whose identity the kernel can never accept. -/
  abandoned : String → Bool
  lastSummary : Option Summary
  /-- A summary that differs from the announced one, and since when. -/
  unsettled : Option (Summary × ℕ)

namespace Bridge

variable {Handle : Type}

/-- A bridge from its configuration and any inherited uhid handle. -/
def new (config : Config) (inherited : List Handle) : Bridge Handle where
  config := config
  uhid := .new inherited config.uhidPath
  batteries := .empty
  probeFailing := false
  attachRetryAt := fun _ => none
  abandoned := fun _ => false
  lastSummary := none
  unsettled := none

/-- Withdraw the battery at an index and keep its handle. -/
def withdraw (b : Bridge Handle) (index : ℕ) (device : Battery Handle) : Bridge Handle :=
  { b with batteries := b.batteries.remove index, uhid := b.uhid.putBack device.handle }

/-- Take in the result of talking to the virtual device at an index. After too
many failures in a row the device is destroyed, its handle kept, and the headset
goes back through the attach path. -/
def outcome (b : Bridge Handle) (index : ℕ) (result : Except (List String) Unit) (now : ℕ) :
    Bridge Handle × List Deed :=
  match b.batteries.pair? index with
  | none => (b, [])
  | some (device, battery) =>
      let struck := strike battery result.isOk
      if result.isOk then
        ({ b with batteries := b.batteries.setPair index (device, struck) }, [])
      else if struck.failures < deviceFailureLimit then
        ({ b with batteries := b.batteries.setPair index (device, struck) },
          [.struck struck.failures])
      else
        ({ b.withdraw index device with
            attachRetryAt := Function.update b.attachRetryAt battery.key (some (now + attachRetry)) },
          [.struck struck.failures, .removed .broken])

/-- Register a new virtual battery with the kernel. -/
def attach (b : Bridge Handle) (h : Headset) (reading : Reading) (now : ℕ) (a : Answers Handle) :
    Bridge Handle × List Deed × Except AttachFailure Unit :=
  let got := b.uhid.acquire a.opened
  match got.2.2 with
  | .error err => ({ b with uhid := got.1 }, got.2.1, .error (.retry err))
  | .ok handle =>
      let attached := attachOn handle h reading now a
      match attached.1 with
      | some (device, battery) =>
          ({ b with uhid := got.1, batteries := b.batteries.push device battery },
            got.2.1 ++ attached.2.1, attached.2.2)
      | none =>
          ({ b with uhid := got.1.putBack handle }, got.2.1 ++ attached.2.1, attached.2.2)

/-- A usable level for a headset without a battery: create one, unless that just
failed or never can succeed. -/
def introduce (b : Bridge Handle) (h : Headset) (reading : Reading) (now : ℕ)
    (a : Answers Handle) : Bridge Handle × List Deed × Except (List String) Unit :=
  if (b.attachRetryAt h.key).any (fun retryAt => now < retryAt) || b.abandoned h.key then
    (b, [], .ok ())
  else
    let attached := b.attach h reading now a
    match attached.2.2 with
    | .ok _ =>
        ({ attached.1 with
            attachRetryAt := Function.update attached.1.attachRetryAt h.key none },
          attached.2.1, .ok ())
    | .error (.retry err) =>
        ({ attached.1 with
            attachRetryAt :=
              Function.update attached.1.attachRetryAt h.key (some (now + attachRetry)) },
          attached.2.1 ++ [.attachFailed false], .error err)
    | .error (.giveUp err) =>
        ({ attached.1 with abandoned := Function.update attached.1.abandoned h.key true },
          attached.2.1 ++ [.attachFailed true],
          .error ("giving up on this headset until the daemon restarts" :: err))

/-- A usable level for a headset: for the battery it has, or for a new one. -/
def present (b : Bridge Handle) (existing : Option ℕ) (h : Headset) (reading : Reading) (now : ℕ)
    (a : Answers Handle) : Bridge Handle × List Deed × Except (List String) Unit :=
  match existing.bind fun index => (b.batteries.pair? index).map fun pair => (index, pair) with
  | none => b.introduce h reading now a
  | some (index, device, battery) =>
      let refreshed := Bridge.refresh device battery reading h.sample now a.updated
      let b := { b with batteries := b.batteries.setPair index refreshed.1 }
      match refreshed.2.2 with
      | none => (b, refreshed.2.1, .ok ())
      | some pushed =>
          let settled := b.outcome index pushed now
          (settled.1, refreshed.2.1 ++ settled.2, .ok ())

/-- The reader was told the headset is gone: no grace to sit out, but the link
drops for a second while a freshly powered headset settles. -/
def switchOff (b : Bridge Handle) (existing : Option ℕ) (now : ℕ) : Bridge Handle × List Deed :=
  match existing.bind fun index => (b.batteries.pair? index).map fun pair => (index, pair) with
  | none => (b, [])
  | some (index, device, battery) =>
      let gone := battery.goneSince.getD now
      if disconnectSettle ≤ now - gone then (b.withdraw index device, [.removed .switchedOff])
      else
        ({ b with batteries :=
            b.batteries.setPair index (device, { battery with goneSince := some gone }) }, [])

/-- Create or update the virtual battery backing a headset. -/
def apply (b : Bridge Handle) (h : Headset) (now : ℕ) (a : Answers Handle) :
    Bridge Handle × List Deed × Except (List String) Unit :=
  let existing := b.batteries.position h.key
  -- Being listed at all is what keeps the entry alive; answering is what refreshes
  -- the level.
  let b :=
    match existing with
    | some index =>
        { b with batteries :=
            b.batteries.modifyState index fun battery => { battery with lastSeen := now } }
    | none => b
  match h.battery with
  | .discharging percent => b.present existing h ⟨percent, false⟩ now a
  | .charging (some percent) => b.present existing h ⟨percent, true⟩ now a
  | .charging none =>
      -- Charging without a level keeps whatever we last knew.
      match existing.bind b.batteries.pair? with
      | none => (b, [], .ok ())
      | some (device, _) => b.present existing h ⟨device.reading.percent, true⟩ now a
  | .unavailable => (b, [], .ok ())
  | .disconnected =>
      let switched := b.switchOff existing now
      (switched.1, switched.2, .ok ())

/-- The loop of `expire`: an index past the end stops it, a withdrawal closes the
gap under it. -/
def expireFrom (now : ℕ) : ℕ → ℕ → Bridge Handle → Bridge Handle × List Event
  | 0, _, b => (b, [])
  | fuel + 1, index, b =>
      match b.batteries.pair? index with
      | none => (b, [])
      | some (device, battery) =>
          match outlived b.config battery now with
          | .keep => expireFrom now fuel (index + 1) b
          | .silent =>
              let rest := expireFrom now fuel index (b.withdraw index device)
              (rest.1, ⟨battery.key, now, .removed .silent⟩ :: rest.2)
          | .missing =>
              let rest := expireFrom now fuel index (b.withdraw index device)
              (rest.1, ⟨battery.key, now, .removed .missing⟩ :: rest.2)

/-- Withdraw batteries that have outlived their grace. Every turn of the loop
either passes a battery or withdraws one, so as many turns as batteries do. -/
def expire (b : Bridge Handle) (now : ℕ) : Bridge Handle × List Event :=
  expireFrom now b.batteries.len 0 b

/-- Say what the poll found, but only when that changed since last time and has
lasted: the state that decides when. -/
def announce (b : Bridge Handle) (summary : Summary) (now : ℕ) : Bridge Handle :=
  if b.lastSummary = some summary then { b with unsettled := none }
  else
    match b.unsettled with
    | some (pending, since) =>
        if pending = summary then
          if now - since < summarySettle then b
          else { b with unsettled := none, lastSummary := some summary }
        else { b with unsettled := some (summary, now) }
    | none => { b with unsettled := some (summary, now) }

/-- One poll: when it started, whether the stop flag is up, and what the source
answered, each headset with what the kernel will say to it. -/
structure Tick (Handle : Type) where
  now : ℕ
  stopping : Bool
  poll : Except (List String) (List (Headset × Answers Handle))

namespace Tick

/-- What a poll gives the bridge to work on; a poll that failed gives nothing. -/
def headsets (t : Tick Handle) : List (Headset × Answers Handle) :=
  match t.poll with
  | .ok headsets => headsets
  | .error _ => []

/-- The headsets that report a battery. -/
def withBattery (t : Tick Handle) : List (Headset × Answers Handle) :=
  t.headsets.filter fun polled => polled.1.supportsBattery

end Tick

/-- Take in whether the poll succeeded; one cut short by the shutdown has not
failed. -/
def probed (b : Bridge Handle) (t : Tick Handle) : Bridge Handle :=
  match t.poll with
  | .ok headsets =>
      { b with probeFailing := false }.announce (.of (headsets.map Prod.fst)) t.now
  | .error _ => if t.stopping then b else { b with probeFailing := true }

/-- Apply one headset of a poll. An error is logged and goes no further. -/
def applyOne (now : ℕ) (b : Bridge Handle) (polled : Headset × Answers Handle) :
    Bridge Handle × List Event :=
  let applied := b.apply polled.1 now polled.2
  (applied.1, stamp polled.1.key now applied.2.1)

/-- Start, keep or clear the clocks of every battery. -/
def noteAll (b : Bridge Handle) (now : ℕ) : Bridge Handle :=
  { b with batteries := b.batteries.mapStates (noteClocks now) }

/-- A tick up to the point where batteries are judged: the poll is taken in,
every headset is applied and the clocks are noted. -/
def polled (b : Bridge Handle) (t : Tick Handle) : Bridge Handle × List Event :=
  let applied := Runs.exec (applyOne t.now) (b.probed t) t.withBattery
  (applied.1.noteAll t.now, applied.2)

/-- Read the batteries once and reconcile the virtual devices with them. -/
def tick (b : Bridge Handle) (t : Tick Handle) : Bridge Handle × List Event :=
  let polled := b.polled t
  let expired := polled.1.expire t.now
  (expired.1, polled.2 ++ expired.2)

/-- Whether a published battery went unanswered, which calls for a prompt
retry. -/
def unanswered (b : Bridge Handle) : Bool :=
  b.batteries.states.any fun battery => battery.silentSince.isSome

/-- One failure of servicing, at the battery `serve_all` names. -/
structure ServeError where
  index : ℕ
  source : String
  now : ℕ
  deriving DecidableEq, Repr

/-- One wait: the failures it went through, and how it ended. -/
structure Wait where
  errors : List ServeError
  ended : Except String Unit

/-- Take in one failure of servicing. -/
def serve (b : Bridge Handle) (err : ServeError) : Bridge Handle × List Event :=
  match b.batteries.pair? err.index with
  | none => (b, [])
  | some (_, battery) =>
      let settled := b.outcome err.index
        (.error ["servicing the virtual device of " ++ battery.name, err.source]) err.now
      (settled.1, stamp battery.key err.now settled.2)

/-- Serve every battery until the deadline: a failure at one of them goes through
the usual policy, a failure of the wait itself ends it. -/
def wait (b : Bridge Handle) (w : Wait) : Bridge Handle × List Event × Except (List String) Unit :=
  let served := Runs.exec serve b w.errors
  (served.1, served.2,
    match w.ended with
    | .ok _ => .ok ()
    | .error err => .error ["waiting on /dev/uhid", err])

/-- Remove every virtual battery, handles and all. -/
def shutdown (b : Bridge Handle) : Bridge Handle := { b with batteries := .empty }

/-- What the daemon's loop does between start and shutdown. -/
inductive Input (Handle : Type) where
  | tick (t : Tick Handle)
  | wait (w : Wait)

def step (b : Bridge Handle) : Input Handle → Bridge Handle × List Event
  | .tick t => b.tick t
  | .wait w => ((b.wait w).1, (b.wait w).2.1)

end Bridge

end HeadsetBattery
