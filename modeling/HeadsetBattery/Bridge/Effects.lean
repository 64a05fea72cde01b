import HeadsetBattery.Bridge.Daemon

/-!
# What the bridge does to the battery of one headset

The bridge finds batteries by key and works on them by index. Seen by key, each
of its operations touches the battery of one headset and leaves the others
alone, and what it does there is a function of that battery. The handles move
between the pool and the devices and none is lost.
-/
namespace HeadsetBattery

namespace BatteryState

/-- The reading a state gives to a new device. -/
def offer : BatteryState → Option Bridge.Reading
  | discharging percent => some ⟨percent, false⟩
  | charging (some percent) => some ⟨percent, true⟩
  | _ => none

/-- The reading a state gives to a device whose level is known. -/
def reading (known : ℕ) : BatteryState → Option Bridge.Reading
  | discharging percent => some ⟨percent, false⟩
  | charging percent => some ⟨percent.getD known, true⟩
  | _ => none

theorem reading_of_offer {state : BatteryState} {r : Bridge.Reading} (h : state.offer = some r)
    (known : ℕ) : state.reading known = some r := by
  cases state with
  | discharging percent => exact h
  | charging percent =>
      cases percent with
      | none => cases h
      | some percent => exact h
  | unavailable => cases h
  | disconnected => cases h

theorem isSome_reading (state : BatteryState) (known : ℕ) :
    (state.reading known).isSome = state.answers := by
  cases state <;> rfl

/-- Unless a headset is charging without a level, the reading it gives is its own. -/
theorem level_of_reading {state : BatteryState} {known : ℕ} {r : Bridge.Reading}
    (h : state.reading known = some r) (hne : state ≠ .charging none) :
    state.level = some r.percent := by
  match state with
  | .discharging percent =>
      obtain rfl := Option.some.inj h
      rfl
  | .charging (some percent) =>
      obtain rfl := Option.some.inj h
      rfl
  | .charging none => exact absurd rfl hne
  | .unavailable => cases h
  | .disconnected => cases h

/-- Only a headset that is charging gives a charging reading. -/
theorem charging_of_reading {state : BatteryState} {known : ℕ} {r : Bridge.Reading}
    (h : state.reading known = some r) (hcharging : r.charging = true) :
    ∃ percent, state = .charging percent := by
  cases state with
  | discharging percent =>
      obtain rfl := Option.some.inj h
      cases hcharging
  | charging percent => exact ⟨percent, rfl⟩
  | unavailable => cases h
  | disconnected => cases h

theorem answers_of_offer {state : BatteryState} {r : Bridge.Reading} (h : state.offer = some r) :
    state.answers = true := by
  rw [← isSome_reading state 0, reading_of_offer h]
  rfl

end BatteryState

namespace Bridge

variable {Handle : Type}

/-! ## One battery, on its own -/

namespace Entry

/-- What becomes of a battery whose device was talked to. -/
def settle (entry : Entry Handle) (ok : Bool) : Option (Entry Handle) × List Deed :=
  let struck := strike entry.2 ok
  if ok then (some (entry.1, struck), [])
  else if struck.failures < deviceFailureLimit then
    (some (entry.1, struck), [.struck struck.failures])
  else (none, [.struck struck.failures, .removed .broken])

/-- What becomes of a battery that is given a reading. -/
def answer (entry : Entry Handle) (reading : Reading) (sample : Option ℕ) (now : ℕ)
    (updated : Except String Unit) : Option (Entry Handle) × List Deed :=
  let done := refresh entry.1 entry.2 reading sample now updated
  match done.2.2 with
  | none => (some done.1, done.2.1)
  | some pushed =>
      ((settle done.1 pushed.isOk).1, done.2.1 ++ (settle done.1 pushed.isOk).2)

/-- What becomes of a battery whose headset is said to be gone. -/
def leave (entry : Entry Handle) (now : ℕ) : Option (Entry Handle) × List Deed :=
  let gone := entry.2.goneSince.getD now
  if disconnectSettle ≤ now - gone then (none, [.removed .switchedOff])
  else (some (entry.1, { entry.2 with goneSince := some gone }), [])

def see (entry : Entry Handle) (now : ℕ) : Entry Handle :=
  (entry.1, { entry.2 with lastSeen := now })

/-- What becomes of a battery whose headset is listed. -/
def apply (entry : Entry Handle) (h : Headset) (now : ℕ) (a : Answers Handle) :
    Option (Entry Handle) × List Deed :=
  match h.battery.reading entry.1.reading.percent with
  | some reading => (entry.see now).answer reading h.sample now a.updated
  | none =>
      if h.battery = .disconnected then (entry.see now).leave now else (some (entry.see now), [])

/-- A battery made for a headset. -/
def made (handle : Handle) (h : Headset) (reading : Reading) (now : ℕ) : Entry Handle :=
  (⟨handle, identityOf h, reading⟩, fresh h reading now)

end Entry

/-- What is done on the way to a new device, or instead of it. Opening the node
is part of it only where that is allowed. -/
def Deed.isAttempt (mayOpen : Bool) : Deed → Bool
  | opensNode => mayOpen
  | acquired | created _ | attachFailed _ => true
  | _ => false

/-- What a listed headset without a battery can come to: attempts that leave it
without one, or a new battery. -/
inductive Appears (mayOpen : Bool) (h : Headset) (now : ℕ) :
    Option (Entry Handle) → List Deed → Prop
  | nothing {deeds : List Deed} (attempts : ∀ d ∈ deeds, d.isAttempt mayOpen) :
      Appears mayOpen h now none deeds
  | battery {deeds : List Deed} (handle : Handle) {reading : Reading}
      (offered : h.battery.offer = some reading) (attempts : ∀ d ∈ deeds, d.isAttempt mayOpen)
      (created : .created (identityOf h) ∈ deeds) :
      Appears mayOpen h now (some (.made handle h reading now)) (deeds ++ [.appeared reading])

/-- What listing a headset does to its battery, if it has one, and without one. -/
def Becomes (mayOpen : Bool) (h : Headset) (now : ℕ) (a : Answers Handle) :
    Option (Entry Handle) → Option (Entry Handle) → List Deed → Prop
  | some entry, left, deeds => entry.apply h now a = (left, deeds)
  | none, left, deeds => Appears mayOpen h now left deeds

/-- What a listing keeps of a battery that survives it, and which clocks it
sets. -/
structure Survives (h : Headset) (now : ℕ) (entry left : Entry Handle) : Prop where
  handle : left.1.handle = entry.1.handle
  identity : left.1.identity = entry.1.identity
  key : left.2.key = entry.2.key
  lastSeen : left.2.lastSeen = now
  lastReading : left.2.lastReading = if h.battery.answers then now else entry.2.lastReading
  silentSince : left.2.silentSince = entry.2.silentSince
  missingSince : left.2.missingSince = entry.2.missingSince
  failures : entry.2.failures < deviceFailureLimit → left.2.failures < deviceFailureLimit

/-- A reading changes the level of the device and what is known about levels. -/
theorem refresh_eq (device : Battery Handle) (battery : VirtualBattery) (reading : Reading)
    (sample : Option ℕ) (now : ℕ) (updated : Except String Unit) :
    ∃ shown deferred deferredSample held logged publishedAt,
      (refresh device battery reading sample now updated).1 =
        ({ device with reading := shown },
          { battery with
              lastReading := now
              goneSince := none
              deferred := deferred
              deferredSample := deferredSample
              held := held
              loggedPercent := logged
              publishedAt := publishedAt }) := by
  have hvet (battery : VirtualBattery) : ∃ deferred deferredSample held,
      (vetted battery device.reading reading sample).1 =
        { battery with deferred := deferred, deferredSample := deferredSample, held := held } := by
    unfold vetted
    split <;> exact ⟨_, _, _, rfl⟩
  obtain ⟨deferred, deferredSample, held, he⟩ :=
    hvet { battery with lastReading := now, goneSince := none }
  simp only [refresh]
  split
  · exact ⟨device.reading, deferred, deferredSample, held, _, _, by rw [he]⟩
  next level _ =>
    split
    · exact ⟨device.reading, deferred, deferredSample, held, _, _, by rw [he]⟩
    · cases updated with
      | ok _ => exact ⟨level, deferred, deferredSample, held, _, now, by simp only [he]; rfl⟩
      | error err =>
          exact ⟨device.reading, deferred, deferredSample, held, _, now, by simp only [he]; rfl⟩

/-- A reading leaves a battery its key and its handle. -/
theorem refresh_identity (device : Battery Handle) (battery : VirtualBattery) (reading : Reading)
    (sample : Option ℕ) (now : ℕ) (updated : Except String Unit) :
    (refresh device battery reading sample now updated).1.2.key = battery.key ∧
      (refresh device battery reading sample now updated).1.1.handle = device.handle := by
  obtain ⟨_, _, _, _, _, _, he⟩ := refresh_eq device battery reading sample now updated
  rw [he]
  exact ⟨rfl, rfl⟩

/-- The deeds of a reading: what the vetting made of it, then a push at most. -/
theorem refresh_deeds (device : Battery Handle) (battery : VirtualBattery) (reading : Reading)
    (sample : Option ℕ) (now : ℕ) (updated : Except String Unit) :
    ∃ tail, (refresh device battery reading sample now updated).2.1 =
        (vetted { battery with lastReading := now, goneSince := none } device.reading reading
          sample).2.2 :: tail ∧
      ∀ d ∈ tail, ∃ shown ok, d = .pushed shown ok := by
  simp only [refresh]
  split
  · exact ⟨[], rfl, by simp⟩
  · split
    · exact ⟨[], rfl, by simp⟩
    · refine ⟨[.pushed _ _], rfl, fun d hd => ?_⟩
      exact ⟨_, _, List.mem_singleton.1 hd⟩

theorem settle_eq_some {entry left : Entry Handle} {ok : Bool}
    (h : (Entry.settle entry ok).1 = some left) :
    ∃ failures, left = (entry.1, { entry.2 with failures := failures }) ∧
      failures < deviceFailureLimit := by
  simp only [Entry.settle] at h
  split at h
  next hok =>
    refine ⟨0, ?_, by decide⟩
    simpa [strike, hok] using h.symm
  next hok =>
    split at h
    next hlt => exact ⟨_, (Option.some.inj h).symm, hlt⟩
    next => cases h

theorem answer_eq_some {entry left : Entry Handle} {reading : Reading} {sample : Option ℕ}
    {now : ℕ} {updated : Except String Unit}
    (h : (entry.answer reading sample now updated).1 = some left) :
    ∃ shown deferred deferredSample held logged publishedAt failures,
      left = ({ entry.1 with reading := shown },
        { entry.2 with
            lastReading := now
            goneSince := none
            deferred := deferred
            deferredSample := deferredSample
            held := held
            loggedPercent := logged
            publishedAt := publishedAt
            failures := failures }) ∧
      (entry.2.failures < deviceFailureLimit → failures < deviceFailureLimit) := by
  obtain ⟨shown, deferred, deferredSample, held, logged, publishedAt, he⟩ :=
    refresh_eq entry.1 entry.2 reading sample now updated
  simp only [Entry.answer] at h
  split at h
  · exact ⟨shown, deferred, deferredSample, held, logged, publishedAt, entry.2.failures,
      (Option.some.inj h).symm.trans he, id⟩
  · obtain ⟨failures, hleft, hlt⟩ := settle_eq_some h
    exact ⟨shown, deferred, deferredSample, held, logged, publishedAt, failures,
      by rw [hleft, he], fun _ => hlt⟩

theorem leave_eq_some {entry left : Entry Handle} {now : ℕ}
    (h : (entry.leave now).1 = some left) :
    ∃ gone, left = (entry.1, { entry.2 with goneSince := some gone }) := by
  simp only [Entry.leave] at h
  split at h
  · cases h
  · exact ⟨_, (Option.some.inj h).symm⟩

theorem Entry.apply_survives {entry left : Entry Handle} {h : Headset} {now : ℕ}
    {a : Answers Handle} (happly : (entry.apply h now a).1 = some left) :
    Survives h now entry left := by
  have hanswers := BatteryState.isSome_reading h.battery entry.1.reading.percent
  unfold Entry.apply at happly
  cases hreading : h.battery.reading entry.1.reading.percent with
  | some reading =>
      simp only [hreading, Option.isSome_some] at happly hanswers
      obtain ⟨_, _, _, _, _, _, failures, rfl, hlt⟩ := answer_eq_some happly
      exact ⟨rfl, rfl, rfl, rfl, by simp [← hanswers], rfl, rfl, hlt⟩
  | none =>
      simp only [hreading, Option.isSome_none] at happly hanswers
      split at happly
      · obtain ⟨gone, rfl⟩ := leave_eq_some happly
        exact ⟨rfl, rfl, rfl, rfl, by simp [← hanswers, see], rfl, rfl, id⟩
      · obtain rfl := Option.some.inj happly
        exact ⟨rfl, rfl, rfl, rfl, by simp [← hanswers, see], rfl, rfl, id⟩

/-! ## One battery among the others -/

/-- The handles the bridge holds: those to spare and those of the devices. -/
def handles (b : Bridge Handle) : List Handle :=
  b.uhid.spare ++ b.batteries.devices.map Battery.handle

/-- What every operation keeps: the lists stay in step, and unless the node may be
opened the handles stay the same. -/
structure Keeps (b b' : Bridge Handle) : Prop where
  inStep : b'.batteries.InStep
  config : b'.config = b.config
  mayOpen : b'.uhid.mayOpen = b.uhid.mayOpen
  custody : b.uhid.mayOpen = false → b'.handles.Perm b.handles

theorem Keeps.refl {b : Bridge Handle} (hb : b.batteries.InStep) : Keeps b b :=
  ⟨hb, rfl, rfl, fun _ => .refl _⟩

theorem Keeps.trans {b b' b'' : Bridge Handle} (h : Keeps b b') (h' : Keeps b' b'') :
    Keeps b b'' where
  inStep := h'.inStep
  config := h'.config.trans h.config
  mayOpen := h'.mayOpen.trans h.mayOpen
  custody hm := (h'.custody (h.mayOpen.trans hm)).trans (h.custody hm)

/-- The battery of one key is left as `left`, the others as they were. -/
structure Touches (key : String) (left : Option (Entry Handle)) (b b' : Bridge Handle) : Prop
    extends Keeps b b' where
  find? : ∀ key', b'.batteries.find? key' = if key' = key then left else b.batteries.find? key'

namespace Touches

variable {key : String} {left left' : Option (Entry Handle)} {b b' b'' : Bridge Handle}

theorem here (h : Touches key left b b') : b'.batteries.find? key = left := by simp [h.find?]

theorem elsewhere (h : Touches key left b b') {key' : String} (hk : key' ≠ key) :
    b'.batteries.find? key' = b.batteries.find? key' := by
  simp [h.find?, hk]

theorem trans (h : Touches key left b b') (h' : Touches key left' b' b'') :
    Touches key left' b b'' where
  toKeeps := h.toKeeps.trans h'.toKeeps
  find? key' := by
    rw [h'.find?, h.find?]
    split <;> rfl

/-- Changes to the rest of the bridge. -/
theorem aside (h : Touches key left b b') (hb : b''.batteries = b'.batteries)
    (hu : b''.uhid = b'.uhid) (hc : b''.config = b'.config) : Touches key left b b'' where
  inStep := hb ▸ h.inStep
  config := hc.trans h.config
  mayOpen := hu ▸ h.mayOpen
  custody hm := by
    have hsame : b''.handles = b'.handles := by simp [handles, hb, hu]
    exact hsame ▸ h.custody hm
  find? key' := by rw [hb, h.find?]

/-- Nothing touched. -/
theorem nothing (hb : b.batteries.InStep) (key : String) :
    Touches key (b.batteries.find? key) b b where
  toKeeps := .refl hb
  find? key' := by
    split
    next hk => rw [hk]
    next => rfl

end Touches

section Operations

variable {b : Bridge Handle} {index : ℕ} {entry : Entry Handle}

theorem touches_setPair (pair : Entry Handle) (hb : b.batteries.InStep) (hi : b.batteries.pair? index = some entry)
    (hk : pair.2.key = entry.2.key) (hh : pair.1.handle = entry.1.handle) :
    Touches entry.2.key (some pair) b
      { b with batteries := b.batteries.setPair index pair } where
  inStep := hb.setPair hi hk
  config := rfl
  mayOpen := rfl
  custody _ := by
    obtain ⟨hd, -⟩ := List.getElem?_zip_eq_some.1 hi
    obtain ⟨before, after, hsplit, hset, -⟩ := KeyedList.split_at hd
    have hsame : (b.batteries.devices.set index pair.1).map Battery.handle =
        b.batteries.devices.map Battery.handle := by
      rw [hset pair.1, hsplit]
      simp [hh]
    simp [handles, Batteries.setPair, hsame]
  find? key' := hb.find?_setPair hi hk key'

/-- A withdrawn device gives its handle back. -/
theorem touches_withdraw (hb : b.batteries.InStep) (hi : b.batteries.pair? index = some entry) :
    Touches entry.2.key none b (b.withdraw index entry.1) where
  inStep := hb.remove index
  config := rfl
  mayOpen := rfl
  custody _ := by
    obtain ⟨hd, -⟩ := List.getElem?_zip_eq_some.1 hi
    obtain ⟨before, after, hsplit, -, herase⟩ := KeyedList.split_at hd
    have hdevices : (b.withdraw index entry.1).batteries.devices = before ++ after := herase
    have hspare : (b.withdraw index entry.1).uhid.spare = b.uhid.spare ++ [entry.1.handle] := rfl
    rw [handles, hdevices, hspare, handles, hsplit]
    simpa using List.perm_middle.symm.append_left b.uhid.spare
  find? key' := hb.find?_remove hi key'

/-- A device on a handle of the pool. -/
theorem touches_push (pair : Entry Handle) (hb : b.batteries.InStep) (hk : b.batteries.find? pair.2.key = none)
    (pool : DevicePool Handle) (hm : pool.mayOpen = b.uhid.mayOpen)
    (hs : b.uhid.mayOpen = false → (pool.spare ++ [pair.1.handle]).Perm b.uhid.spare) :
    Touches pair.2.key (some pair) b
      { b with uhid := pool, batteries := b.batteries.push pair.1 pair.2 } where
  inStep := hb.push hk
  config := rfl
  mayOpen := hm
  custody ho := by
    have hpool := (hs ho).append_right (b.batteries.devices.map Battery.handle)
    refine .trans ?_ hpool
    simpa [handles, Batteries.push] using
      (List.perm_append_singleton pair.1.handle _).append_left pool.spare
  find? key' := hb.find?_push hk key'

theorem outcome_spec (hb : b.batteries.InStep) (hi : b.batteries.pair? index = some entry)
    (result : Except (List String) Unit) (now : ℕ) :
    Touches entry.2.key (entry.settle result.isOk).1 b (b.outcome index result now).1 ∧
      (b.outcome index result now).2 = (entry.settle result.isOk).2 := by
  simp only [outcome, hi, Entry.settle]
  split
  · exact ⟨touches_setPair _ hb hi rfl rfl, rfl⟩
  · split
    · exact ⟨touches_setPair _ hb hi rfl rfl, rfl⟩
    · exact ⟨(touches_withdraw hb hi).aside rfl rfl rfl, rfl⟩

/-! ### Headsets without a battery -/

/-- The pool hands out a handle it had to spare, or one of a node it may open. -/
theorem acquire_spec (pool : DevicePool Handle) (opened : Except String Handle) :
    (pool.acquire opened).1.mayOpen = pool.mayOpen ∧
      (∀ d ∈ (pool.acquire opened).2.1, d.isAttempt pool.mayOpen) ∧
      match (pool.acquire opened).2.2 with
      | .ok handle =>
          pool.mayOpen = false → (pool.acquire opened).1.spare ++ [handle] = pool.spare
      | .error _ => (pool.acquire opened).1.spare = pool.spare := by
  unfold DevicePool.acquire
  cases hlast : pool.spare.getLast? with
  | some handle =>
      have hspare := List.dropLast_append_getLast? handle hlast
      simp [hspare]
  | none =>
      cases hm : pool.mayOpen with
      | true => cases opened <;> simp [hm, Deed.isAttempt]
      | false => simp [hm]

/-- Without a device the deeds are attempts; with one, its appearance is the
last. -/
theorem attachOn_spec (mayOpen : Bool) (handle : Handle) (h : Headset) (reading : Reading)
    (now : ℕ) (a : Answers Handle) :
    ∃ deeds, (∀ d ∈ deeds, d.isAttempt mayOpen) ∧
      (attachOn handle h reading now a =
            (some (Entry.made handle h reading now), deeds ++ [.appeared reading], .ok ()) ∧
          .created (identityOf h) ∈ deeds ∨
        ∃ failure, attachOn handle h reading now a = (none, deeds, .error failure)) := by
  unfold attachOn
  split
  · exact ⟨[.acquired], by simp [Deed.isAttempt], .inr ⟨_, rfl⟩⟩
  · exact ⟨[.acquired], by simp [Deed.isAttempt], .inr ⟨_, rfl⟩⟩
  · refine ⟨[.acquired, .created (identityOf h)], by simp [Deed.isAttempt], ?_⟩
    split
    · exact .inl ⟨rfl, by simp⟩
    · exact .inr ⟨_, rfl⟩
    · exact .inr ⟨_, rfl⟩

/-- An attempt to attach ends with a new battery and no failure, or with a
failure and no battery. -/
theorem attach_spec (hb : b.batteries.InStep) {h : Headset} {reading : Reading}
    (hk : b.batteries.find? h.key = none) (ho : h.battery.offer = some reading) (now : ℕ)
    (a : Answers Handle) :
    ∃ left, Touches h.key left b (b.attach h reading now a).1 ∧
      Appears b.uhid.mayOpen h now left (b.attach h reading now a).2.1 ∧
      (left.isSome = true → (b.attach h reading now a).2.2 = .ok ()) ∧
      (left = none → ∃ failure, (b.attach h reading now a).2.2 = .error failure) := by
  obtain ⟨hmay, hdeeds, hspare⟩ := acquire_spec b.uhid a.opened
  have idle : Touches h.key none b b := by simpa [hk] using Touches.nothing hb h.key
  cases hgot : (b.uhid.acquire a.opened).2.2 with
  | error err =>
      simp only [hgot] at hspare
      simp only [attach, hgot]
      refine ⟨none, ?_, .nothing hdeeds, by simp, fun _ => ⟨_, rfl⟩⟩
      exact ⟨⟨hb, rfl, hmay, fun _ => by simp [handles, hspare]⟩, idle.find?⟩
  | ok handle =>
      simp only [hgot] at hspare
      obtain ⟨deeds, hattempts, hattached⟩ := attachOn_spec b.uhid.mayOpen handle h reading now a
      have hall : ∀ d ∈ (b.uhid.acquire a.opened).2.1 ++ deeds, d.isAttempt b.uhid.mayOpen := by
        intro d hd
        exact (List.mem_append.1 hd).elim (hdeeds d) (hattempts d)
      obtain ⟨hattached, hcreated⟩ | ⟨failure, hattached⟩ := hattached
      · simp only [attach, hgot, hattached]
        refine ⟨some (.made handle h reading now), ?_, ?_, by simp, by simp⟩
        · exact touches_push (.made handle h reading now) hb hk _ hmay
            fun hm => .of_eq (hspare hm)
        · rw [← List.append_assoc]
          exact .battery handle ho hall (List.mem_append_right _ hcreated)
      · simp only [attach, hgot, hattached]
        refine ⟨none, ?_, .nothing hall, by simp, fun _ => ⟨_, rfl⟩⟩
        exact ⟨⟨hb, rfl, hmay, fun hm => .of_eq (by simp [handles, DevicePool.putBack, hspare hm])⟩,
          idle.find?⟩

theorem introduce_spec (hb : b.batteries.InStep) {h : Headset} {reading : Reading}
    (hk : b.batteries.find? h.key = none) (ho : h.battery.offer = some reading) (now : ℕ)
    (a : Answers Handle) :
    ∃ left, Touches h.key left b (b.introduce h reading now a).1 ∧
      Appears b.uhid.mayOpen h now left (b.introduce h reading now a).2.1 := by
  unfold introduce
  split
  · exact ⟨none, by simpa [hk] using Touches.nothing hb h.key, .nothing (by simp)⟩
  · obtain ⟨left, htouches, happears, hsome, hnone⟩ := attach_spec hb hk ho now a
    cases left with
    | some entry =>
        simp only [hsome rfl]
        exact ⟨some entry, htouches.aside rfl rfl rfl, happears⟩
    | none =>
        obtain ⟨failure, hfailure⟩ := hnone rfl
        cases happears with
        | nothing attempts =>
            have hfailed (final : Bool) : ∀ d ∈ (b.attach h reading now a).2.1 ++
                [Deed.attachFailed final], d.isAttempt b.uhid.mayOpen := by
              intro d hd
              exact (List.mem_append.1 hd).elim (attempts d) fun hd => by
                rw [List.mem_singleton.1 hd]
                rfl
            cases failure with
            | retry err =>
                simp only [hfailure]
                exact ⟨none, htouches.aside rfl rfl rfl, .nothing (hfailed false)⟩
            | giveUp err =>
                simp only [hfailure]
                exact ⟨none, htouches.aside rfl rfl rfl, .nothing (hfailed true)⟩

/-! ### Headsets that are listed -/

/-- A reading for a battery that is there. -/
theorem present_spec (hb : b.batteries.InStep) (hi : b.batteries.pair? index = some entry)
    (h : Headset) (reading : Reading) (now : ℕ) (a : Answers Handle) :
    Touches entry.2.key (entry.answer reading h.sample now a.updated).1 b
        (b.present (some index) h reading now a).1 ∧
      (b.present (some index) h reading now a).2.1 =
        (entry.answer reading h.sample now a.updated).2 := by
  obtain ⟨hkey, hhandle⟩ := refresh_identity entry.1 entry.2 reading h.sample now a.updated
  have hset := touches_setPair _ hb hi hkey hhandle
  have hpair := Batteries.pair?_setPair
    (refresh entry.1 entry.2 reading h.sample now a.updated).1 hi
  simp only [present, hi, Option.bind_some, Option.map_some, Entry.answer]
  cases hpushed : (refresh entry.1 entry.2 reading h.sample now a.updated).2.2 with
  | none => exact ⟨hset, rfl⟩
  | some pushed =>
      obtain ⟨hsettle, hdeeds⟩ := outcome_spec hset.inStep hpair pushed now
      rw [hkey] at hsettle
      exact ⟨hset.trans hsettle, congrArg (_ ++ ·) hdeeds⟩

theorem switchOff_spec (hb : b.batteries.InStep) (hi : b.batteries.pair? index = some entry)
    (now : ℕ) :
    Touches entry.2.key (entry.leave now).1 b (b.switchOff (some index) now).1 ∧
      (b.switchOff (some index) now).2 = (entry.leave now).2 := by
  simp only [switchOff, hi, Option.bind_some, Option.map_some, Entry.leave]
  split
  · exact ⟨touches_withdraw hb hi, rfl⟩
  · exact ⟨touches_setPair _ hb hi rfl rfl, rfl⟩

/-- Listing a headset without a battery: it is introduced with the level it offers, or
nothing is made of it. -/
theorem apply_absent_cases {h : Headset} (hposition : b.batteries.position h.key = none) (now : ℕ)
    (a : Answers Handle) :
    (∃ reading, h.battery.offer = some reading ∧ b.apply h now a = b.introduce h reading now a) ∨
      h.battery.offer = none ∧ b.apply h now a = (b, [], .ok ()) := by
  simp only [apply, hposition]
  cases hstate : h.battery with
  | discharging percent => exact .inl ⟨⟨percent, false⟩, rfl, rfl⟩
  | charging percent =>
      cases percent with
      | none => exact .inr ⟨rfl, rfl⟩
      | some percent => exact .inl ⟨⟨percent, true⟩, rfl, rfl⟩
  | unavailable => exact .inr ⟨rfl, rfl⟩
  | disconnected => exact .inr ⟨rfl, rfl⟩

/-- Listing a headset without a battery gives it one at most. -/
theorem apply_spec_absent (hb : b.batteries.InStep) {h : Headset}
    (hk : b.batteries.find? h.key = none) (now : ℕ) (a : Answers Handle) :
    ∃ left, Touches h.key left b (b.apply h now a).1 ∧
      Appears b.uhid.mayOpen h now left (b.apply h now a).2.1 := by
  obtain ⟨reading, ho, he⟩ | ⟨-, he⟩ := apply_absent_cases (hb.position_eq_none.2 hk) now a
  · rw [he]
    exact introduce_spec hb hk ho now a
  · have hidle : Touches h.key none b b := by simpa [hk] using Touches.nothing hb h.key
    rw [he]
    exact ⟨none, hidle, .nothing (by simp)⟩

/-- Listing a headset with a battery: being seen comes first, and then its reading is
presented, or its switch-off taken in, or nothing more is made of it. -/
theorem apply_live_cases {h : Headset} (hposition : b.batteries.position h.key = some index)
    (hi : b.batteries.pair? index = some entry) (now : ℕ) (a : Answers Handle) :
    let seen : Bridge Handle :=
      { b with batteries := b.batteries.setPair index (entry.see now) }
    (∃ reading, h.battery.reading entry.1.reading.percent = some reading ∧
        b.apply h now a = seen.present (some index) h reading now a) ∨
      h.battery = .unavailable ∧ b.apply h now a = (seen, [], .ok ()) ∨
      h.battery = .disconnected ∧ b.apply h now a =
        ((seen.switchOff (some index) now).1, (seen.switchOff (some index) now).2, .ok ()) := by
  have hmodify : (b.batteries.modifyState index fun battery =>
      { battery with lastSeen := now }) = b.batteries.setPair index (entry.see now) :=
    Batteries.modifyState_eq_setPair hi _
  simp only [apply, hposition, hmodify]
  cases hstate : h.battery with
  | discharging percent => exact .inl ⟨⟨percent, false⟩, rfl, rfl⟩
  | charging percent =>
      cases percent with
      | none =>
          simp only [Option.bind_some, Batteries.pair?_setPair (entry.see now) hi]
          exact .inl ⟨⟨entry.1.reading.percent, true⟩, rfl, rfl⟩
      | some percent => exact .inl ⟨⟨percent, true⟩, rfl, rfl⟩
  | unavailable => exact .inr (.inl ⟨rfl, rfl⟩)
  | disconnected => exact .inr (.inr ⟨rfl, rfl⟩)

/-- Listing a headset with a battery does to that one what the code makes of it on
its own. -/
theorem apply_spec_live (hb : b.batteries.InStep) {h : Headset}
    (hposition : b.batteries.position h.key = some index)
    (hi : b.batteries.pair? index = some entry) (hk : b.batteries.find? h.key = some entry)
    (now : ℕ) (a : Answers Handle) :
    ∃ left, Touches h.key left b (b.apply h now a).1 ∧
      entry.apply h now a = (left, (b.apply h now a).2.1) := by
  have hseen := touches_setPair (entry.see now) hb hi rfl rfl
  have hi' := Batteries.pair?_setPair (entry.see now) hi
  rw [← Batteries.key_of_find? hk]
  obtain ⟨reading, hr, he⟩ | ⟨hstate, he⟩ | ⟨hstate, he⟩ := apply_live_cases hposition hi now a
  · obtain ⟨htouches, hdeeds⟩ := present_spec hseen.inStep hi' h reading now a
    rw [he]
    refine ⟨_, hseen.trans htouches, ?_⟩
    rw [Entry.apply, hr]
    exact Prod.ext rfl hdeeds.symm
  · rw [he]
    refine ⟨_, hseen, ?_⟩
    simp [Entry.apply, hstate, BatteryState.reading]
  · obtain ⟨htouches, hdeeds⟩ := switchOff_spec hseen.inStep hi' now
    rw [he]
    refine ⟨_, hseen.trans htouches, ?_⟩
    simp only [Entry.apply, hstate, BatteryState.reading, if_pos]
    exact Prod.ext rfl hdeeds.symm

/-- What listing a headset does: its battery becomes what the code makes of it on
its own, and no other battery is touched. -/
theorem apply_spec (hb : b.batteries.InStep) (h : Headset) (now : ℕ) (a : Answers Handle) :
    ∃ left, Touches h.key left b (b.apply h now a).1 ∧
      Becomes b.uhid.mayOpen h now a (b.batteries.find? h.key) left (b.apply h now a).2.1 := by
  cases hposition : b.batteries.position h.key with
  | none =>
      have hk := hb.position_eq_none.1 hposition
      rw [hk]
      exact apply_spec_absent hb hk now a
  | some index =>
      obtain ⟨entry, hi, hk⟩ := hb.pair?_of_position hposition
      rw [hk]
      exact apply_spec_live hb hposition hi hk now a

theorem applyOne_spec (hb : b.batteries.InStep) (now : ℕ) (polled : Headset × Answers Handle) :
    ∃ left deeds, Touches polled.1.key left b (applyOne now b polled).1 ∧
      Becomes b.uhid.mayOpen polled.1 now polled.2 (b.batteries.find? polled.1.key) left deeds ∧
      (applyOne now b polled).2 = stamp polled.1.key now deeds := by
  obtain ⟨left, htouches, hbecomes⟩ := apply_spec hb polled.1 now polled.2
  exact ⟨left, _, htouches, hbecomes, rfl⟩

/-! ### All batteries at once -/

theorem probed_batteries (b : Bridge Handle) (t : Tick Handle) :
    (b.probed t).batteries = b.batteries ∧ (b.probed t).uhid = b.uhid ∧
      (b.probed t).config = b.config := by
  unfold probed announce
  repeat' split
  all_goals exact ⟨rfl, rfl, rfl⟩

theorem probed_keeps (hb : b.batteries.InStep) (t : Tick Handle) : Keeps b (b.probed t) := by
  obtain ⟨hbatteries, huhid, hconfig⟩ := probed_batteries b t
  refine ⟨hbatteries ▸ hb, hconfig, by rw [huhid], fun _ => .of_eq ?_⟩
  simp [handles, hbatteries, huhid]

theorem noteAll_keeps (hb : b.batteries.InStep) (now : ℕ) : Keeps b (b.noteAll now) :=
  ⟨hb.mapStates fun _ => rfl, rfl, rfl, fun _ => .refl _⟩

theorem find?_noteAll (b : Bridge Handle) (now : ℕ) (key : String) :
    (b.noteAll now).batteries.find? key =
      (b.batteries.find? key).map fun entry => (entry.1, noteClocks now entry.2) :=
  Batteries.find?_mapStates (f := noteClocks now) (fun _ => rfl) key

/-- The cause a withdrawal is logged with. -/
def Withdrawal.cause : Withdrawal → Option Cause
  | .keep => none
  | .silent => some .silent
  | .missing => some .missing

/-- Batteries that outlived their grace go, and each leaves a line. -/
structure Expires (now : ℕ) (b b' : Bridge Handle) (events : List Event) : Prop
    extends Keeps b b' where
  find? : ∀ key, b'.batteries.find? key =
    (b.batteries.find? key).filter fun entry => outlived b.config entry.2 now = .keep
  events : ∀ event, event ∈ events ↔ ∃ entry cause,
    b.batteries.find? entry.2.key = some entry ∧
      (outlived b.config entry.2 now).cause = some cause ∧
      event = ⟨entry.2.key, now, .removed cause⟩

/-- A bridge whose batteries all deserve their entry. -/
theorem expires_nothing (hb : b.batteries.InStep) {now : ℕ}
    (hkeep : ∀ key entry, b.batteries.find? key = some entry →
      outlived b.config entry.2 now = .keep) : Expires now b b [] where
  toKeeps := .refl hb
  find? key := by
    cases hk : b.batteries.find? key with
    | none => rfl
    | some entry => simp [Option.filter, hkeep key entry hk]
  events event := by
    constructor
    · intro h
      cases h
    · rintro ⟨entry, cause, hk, hcause, -⟩
      rw [hkeep _ entry hk] at hcause
      cases hcause

/-- One battery withdrawn, the others judged after it. -/
theorem Expires.withdraw {now : ℕ} {b' : Bridge Handle} {events : List Event} {cause : Cause}
    (hb : b.batteries.InStep) (hi : b.batteries.pair? index = some entry)
    (hcause : (outlived b.config entry.2 now).cause = some cause)
    (h : Expires now (b.withdraw index entry.1) b' events) :
    Expires now b b' (⟨entry.2.key, now, .removed cause⟩ :: events) where
  toKeeps := (touches_withdraw hb hi).toKeeps.trans h.toKeeps
  find? key := by
    have hfound := hb.find?_of_pair? hi
    rw [h.find?, (touches_withdraw hb hi).find?]
    split
    next hk =>
      have hgone : outlived b.config entry.2 now ≠ .keep := by
        intro hkeep
        rw [hkeep] at hcause
        cases hcause
      rw [hk, hfound]
      simp [Option.filter, hgone]
    next => rfl
  events event := by
    have hfound := hb.find?_of_pair? hi
    have hothers : ∀ other : Entry Handle,
        (b.withdraw index entry.1).batteries.find? other.2.key = some other ↔
          other.2.key ≠ entry.2.key ∧ b.batteries.find? other.2.key = some other := by
      intro other
      rw [(touches_withdraw hb hi).find?]
      split <;> simp_all
    rw [List.mem_cons, h.events]
    constructor
    · rintro (rfl | ⟨other, cause', hother, hcause', rfl⟩)
      · exact ⟨entry, cause, hfound, hcause, rfl⟩
      · exact ⟨other, cause', ((hothers other).1 hother).2, hcause', rfl⟩
    · rintro ⟨other, cause', hother, hcause', rfl⟩
      by_cases hk : other.2.key = entry.2.key
      · obtain rfl : entry = other := Option.some.inj (hfound.symm.trans (hk ▸ hother))
        obtain rfl := Option.some.inj (hcause.symm.trans hcause')
        exact .inl rfl
      · exact .inr ⟨other, cause', (hothers other).2 ⟨hk, hother⟩, hcause', rfl⟩

/-- The loop of `expire`, once the batteries before `index` have been judged and
there is fuel for the rest. -/
theorem expireFrom_spec (now fuel : ℕ) : ∀ (index : ℕ) (b : Bridge Handle),
    b.batteries.InStep → b.batteries.entries.length ≤ index + fuel →
    (∀ i < index, ∀ entry, b.batteries.pair? i = some entry →
      outlived b.config entry.2 now = .keep) →
    Expires now b (expireFrom now fuel index b).1 (expireFrom now fuel index b).2 := by
  have stop (index : ℕ) (b : Bridge Handle) (hb : b.batteries.InStep)
      (hend : b.batteries.entries.length ≤ index)
      (hjudged : ∀ i < index, ∀ entry, b.batteries.pair? i = some entry →
        outlived b.config entry.2 now = .keep) : Expires now b b [] := by
    refine expires_nothing hb fun key entry hk => ?_
    obtain ⟨i, hlt, hi⟩ := List.getElem_of_mem (KeyedList.mem_of_lookup hk).1
    exact hjudged i (by omega) entry (List.getElem?_eq_some_iff.2 ⟨hlt, hi⟩)
  induction fuel with
  | zero =>
      intro index b hb hlen hjudged
      exact stop index b hb hlen hjudged
  | succ fuel ih =>
      intro index b hb hlen hjudged
      cases hi : b.batteries.pair? index with
      | none =>
          have hend : b.batteries.entries.length ≤ index := List.getElem?_eq_none_iff.1 hi
          simp only [expireFrom, hi]
          exact stop index b hb hend hjudged
      | some entry =>
          have hlt : index < b.batteries.entries.length := (List.getElem?_eq_some_iff.1 hi).1
          have hrest : (b.withdraw index entry.1).batteries.entries =
              b.batteries.entries.eraseIdx index := hb.entries_remove index
          have hshorter : (b.withdraw index entry.1).batteries.entries.length ≤ index + fuel := by
            rw [hrest, List.length_eraseIdx_of_lt hlt]
            omega
          have hsame : ∀ i < index, (b.withdraw index entry.1).batteries.pair? i =
              b.batteries.pair? i := by
            intro i hlt
            rw [Batteries.pair?, ← Batteries.entries, hrest, List.getElem?_eraseIdx_of_lt hlt]
            rfl
          have withdrawn := ih index (b.withdraw index entry.1) (touches_withdraw hb hi).inStep
            hshorter fun i hlt entry hentry => hjudged i hlt entry (hsame i hlt ▸ hentry)
          simp only [expireFrom, hi]
          cases hverdict : outlived b.config entry.2 now with
          | keep =>
              refine ih (index + 1) b hb (by omega) fun i hlt other hother => ?_
              obtain hlt | rfl := Nat.lt_succ_iff_lt_or_eq.1 hlt
              · exact hjudged i hlt other hother
              · exact Option.some.inj (hi.symm.trans hother) ▸ hverdict
          | silent => exact withdrawn.withdraw hb hi (by rw [hverdict]; rfl)
          | missing => exact withdrawn.withdraw hb hi (by rw [hverdict]; rfl)

theorem expire_spec (hb : b.batteries.InStep) (now : ℕ) :
    Expires now b (b.expire now).1 (b.expire now).2 :=
  expireFrom_spec now _ 0 b hb (by simp [Batteries.entries, Batteries.len]) (by simp)

theorem serve_spec (hb : b.batteries.InStep) (err : ServeError) :
    serve b err = (b, []) ∨ ∃ entry, b.batteries.find? entry.2.key = some entry ∧
      Touches entry.2.key (entry.settle false).1 b (serve b err).1 ∧
      (serve b err).2 = stamp entry.2.key err.now (entry.settle false).2 := by
  cases hi : b.batteries.pair? err.index with
  | none => exact .inl (by simp [serve, hi])
  | some entry =>
      obtain ⟨htouches, hdeeds⟩ := outcome_spec hb hi
        (.error ["servicing the virtual device of " ++ entry.2.name, err.source]) err.now
      have hserve : serve b err = ((b.outcome err.index (.error ["servicing the virtual device of " ++
          entry.2.name, err.source]) err.now).1, stamp entry.2.key err.now
            (b.outcome err.index (.error ["servicing the virtual device of " ++
              entry.2.name, err.source]) err.now).2) := by
        simp only [serve, hi]
      exact .inr ⟨entry, hb.find?_of_pair? hi, by rw [hserve]; exact htouches,
        by rw [hserve, hdeeds]; rfl⟩

end Operations

end Bridge

end HeadsetBattery
