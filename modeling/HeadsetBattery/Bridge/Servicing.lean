import HeadsetBattery.Library.Loops
import HeadsetBattery.Bridge.Custody

/-!
# Servicing ends

A wait serves every battery until the deadline, and starts over after each
failure of one of them. What `serve_all` answers is free, call by call. Each
failure is a strike against the battery it names, a battery has fewer strikes
left after it, and one with none left is destroyed: the strikes left over all
batteries bound the failures a wait goes through.
-/
namespace HeadsetBattery.Bridge

variable {Handle : Type}

/-- What one call of `serve_all` over that many devices answers. -/
inductive Served (devices : ℕ) where
  /-- The deadline passed, or a signal arrived. -/
  | ended
  /-- The wait itself failed, and no battery is to blame. -/
  | failed (source : String)
  /-- The device at an index failed, and the ones after it were not serviced. -/
  | failedAt (index : Fin devices) (source : String) (now : ℕ)

/-- The failure an answer blames on a device. -/
def Served.error? {devices : ℕ} : Served devices → Option ServeError
  | failedAt index source now => some ⟨index, source, now⟩
  | _ => none

/-- How a wait ends where an answer blames no device. -/
def Served.ended? {devices : ℕ} : Served devices → Option (Except String Unit)
  | ended => some (.ok ())
  | failed source => some (.error source)
  | failedAt _ _ _ => none

/-- The answers of `serve_all`, call by call, over the devices it is given. -/
abbrev ServeAll (Handle : Type) := ℕ → (devices : List (Battery Handle)) → Served devices.length

/-- One turn of the loop of `wait`. -/
def waitTurn (serveAll : ServeAll Handle) (call : ℕ) (b : Bridge Handle) :
    Loops.Turn (Bridge Handle) ServeError (Except (List String) Unit) :=
  match serveAll call b.batteries.devices with
  | .ended => .leave (.ok ())
  | .failed source => .leave (.error ["waiting on /dev/uhid", source])
  | .failedAt index source now =>
      .goOn ⟨index, source, now⟩ (serve b ⟨index, source, now⟩).1

/-- The loop of `wait`, for at most so many calls of `serve_all`. -/
def waitLoop (serveAll : ServeAll Handle) (fuel : ℕ) (b : Bridge Handle) :
    Option (Loops.Done (Bridge Handle) ServeError (Except (List String) Unit)) :=
  Loops.run (waitTurn serveAll) fuel 0 b

/-! ## Strikes -/

def VirtualBattery.strikesLeft (battery : VirtualBattery) : ℕ := deviceFailureLimit - battery.failures

/-- The strikes left over all live batteries. -/
def strikesLeft (b : Bridge Handle) : ℕ := (b.batteries.states.map VirtualBattery.strikesLeft).sum

/-- The two lists are in step and no battery has reached the failure limit. -/
structure Serviceable (b : Bridge Handle) : Prop where
  inStep : b.batteries.InStep
  below : ∀ battery ∈ b.batteries.states, battery.failures < deviceFailureLimit

/-- A failure is charged to the battery at its index and to no other: one more
strike, or destruction if that is the last one it may have. -/
def Charged (b : Bridge Handle) (err : ServeError) : Prop :=
  ∃ device battery, b.batteries.pair? err.index = some (device, battery) ∧
    if battery.failures + 1 < deviceFailureLimit then
      (serve b err).1.batteries.entries =
          b.batteries.entries.set err.index (device, strike battery false) ∧
        (serve b err).2 = [⟨battery.key, err.now, .struck (battery.failures + 1)⟩]
    else
      battery.failures + 1 = deviceFailureLimit ∧
      (serve b err).1.batteries.entries = b.batteries.entries.eraseIdx err.index ∧
        (serve b err).2 = stamp battery.key err.now [.struck deviceFailureLimit, .removed .broken]

section serve

variable {b : Bridge Handle} {err : ServeError} {device : Battery Handle} {battery : VirtualBattery}

/-- What servicing does with a failure at a live battery. -/
theorem serve_of_pair? (hi : b.batteries.pair? err.index = some (device, battery)) :
    if battery.failures + 1 < deviceFailureLimit then
      (serve b err).1.batteries = b.batteries.setPair err.index (device, strike battery false) ∧
        (serve b err).2 = [⟨battery.key, err.now, .struck (battery.failures + 1)⟩]
    else
      (serve b err).1.batteries = b.batteries.remove err.index ∧
        (serve b err).2 =
          stamp battery.key err.now [.struck (battery.failures + 1), .removed .broken] := by
  have hfailed (texts : List String) : (Except.error texts : Except (List String) Unit).isOk = false :=
    rfl
  have hstruck : (strike battery false).failures = battery.failures + 1 := rfl
  simp only [serve, hi, outcome, hfailed, hstruck, Bool.false_eq_true, if_false]
  split
  · exact ⟨rfl, rfl⟩
  · exact ⟨rfl, rfl⟩

theorem Serviceable.charged (h : Serviceable b)
    (hi : b.batteries.pair? err.index = some (device, battery)) : Charged b err := by
  refine ⟨device, battery, hi, ?_⟩
  have hserved := serve_of_pair? hi
  have hbelow := h.below battery (List.mem_of_getElem? (List.getElem?_zip_eq_some.1 hi).2)
  split
  next hlt =>
    rw [if_pos hlt] at hserved
    rw [hserved.1]
    exact ⟨Batteries.entries_setPair, hserved.2⟩
  next hlast =>
    rw [if_neg hlast] at hserved
    have hlimit : battery.failures + 1 = deviceFailureLimit := by omega
    rw [hserved.1, hserved.2, hlimit]
    exact ⟨rfl, h.inStep.entries_remove err.index, rfl⟩

/-- A failure at a live battery costs a strike, and leaves every battery below the
limit. -/
theorem Serviceable.serve (h : Serviceable b)
    (hi : b.batteries.pair? err.index = some (device, battery)) :
    Serviceable (serve b err).1 ∧ strikesLeft (Bridge.serve b err).1 < strikesLeft b := by
  have hkeeps := serve_keeps h.inStep err
  have hserved := serve_of_pair? hi
  obtain ⟨-, hstate⟩ := List.getElem?_zip_eq_some.1 hi
  obtain ⟨before, after, hsplit, hset, herase⟩ := KeyedList.split_at hstate
  have hbelow := h.below
  rw [hsplit] at hbelow
  have hleft := hbelow battery (by simp)
  split at hserved
  next hlt =>
    have hstates : (Bridge.serve b err).1.batteries.states = before ++ strike battery false :: after := by
      rw [hserved.1]
      exact hset _
    refine ⟨⟨hkeeps.inStep, fun other hother => ?_⟩, ?_⟩
    · rw [hstates] at hother
      rcases List.mem_append.1 hother with hbefore | hrest
      · exact hbelow other (by simp [hbefore])
      · rcases List.mem_cons.1 hrest with rfl | hafter
        · exact hlt
        · exact hbelow other (by simp [hafter])
    · have hfewer : (strike battery false).strikesLeft < battery.strikesLeft := by
        simp only [VirtualBattery.strikesLeft, strike]
        simp only [Bool.false_eq_true, if_false]
        omega
      rw [strikesLeft, strikesLeft, hstates, hsplit]
      simp only [List.map_append, List.map_cons, List.sum_append, List.sum_cons]
      omega
  next hlast =>
    have hstates : (Bridge.serve b err).1.batteries.states = before ++ after := by
      rw [hserved.1]
      exact herase
    refine ⟨⟨hkeeps.inStep, fun other hother => ?_⟩, ?_⟩
    · rw [hstates] at hother
      rcases List.mem_append.1 hother with hbefore | hafter
      · exact hbelow other (by simp [hbefore])
      · exact hbelow other (by simp [hafter])
    · have hsome : 0 < battery.strikesLeft := by
        unfold VirtualBattery.strikesLeft
        omega
      rw [strikesLeft, strikesLeft, hstates, hsplit]
      simp only [List.map_append, List.map_cons, List.sum_append, List.sum_cons]
      omega

end serve

/-- Whatever ticks and waits there were, every battery may still be serviced. -/
theorem serviceable_run (config : Config) (inherited : List Handle) (inputs : List (Input Handle)) :
    Serviceable (run config inherited inputs).1 := by
  have hstep := (run_keeps config inherited inputs).inStep
  refine ⟨hstep, fun battery hbattery => ?_⟩
  obtain ⟨index, hindex⟩ := List.mem_iff_getElem?.1 hbattery
  have hlt : index < (run config inherited inputs).1.batteries.devices.length := by
    rw [hstep.length]
    exact (List.getElem?_eq_some_iff.1 hindex).1
  obtain ⟨state, hpair⟩ := hstep.pair?_of_device (List.getElem?_eq_getElem hlt)
  obtain ⟨-, hstate⟩ := List.getElem?_zip_eq_some.1 hpair
  obtain rfl : battery = state := Option.some.inj (hindex.symm.trans hstate)
  exact (every_tended config inherited inputs _ _ (hstep.find?_of_pair? hpair)).failures

/-! ## The loop -/

/-- A turn that goes on took in the failure `serve_all` answered, at a live battery. -/
theorem waitTurn_goOn {serveAll : ServeAll Handle} {call : ℕ} {b next : Bridge Handle}
    {err : ServeError} (hturn : waitTurn serveAll call b = .goOn err next) :
    next = (serve b err).1 ∧ (serveAll call b.batteries.devices).error? = some err ∧
      err.index < b.batteries.devices.length := by
  unfold waitTurn at hturn
  split at hturn
  · cases hturn
  · cases hturn
  next index source now hserved =>
    obtain ⟨rfl, rfl⟩ := Loops.Turn.goOn.inj hturn
    exact ⟨rfl, by rw [hserved]; rfl, index.isLt⟩

theorem Serviceable.pair?_of_goOn {serveAll : ServeAll Handle} {call : ℕ} {b next : Bridge Handle}
    {err : ServeError} (h : Serviceable b) (hturn : waitTurn serveAll call b = .goOn err next) :
    ∃ device battery, b.batteries.pair? err.index = some (device, battery) := by
  obtain ⟨-, -, hlt⟩ := waitTurn_goOn hturn
  obtain ⟨battery, hi⟩ := h.inStep.pair?_of_device (List.getElem?_eq_getElem hlt)
  exact ⟨_, battery, hi⟩

/-- A turn that leaves blames no device, and gives what a wait with that end gives. -/
theorem waitTurn_leave {serveAll : ServeAll Handle} {call : ℕ} {b last : Bridge Handle}
    {result : Except (List String) Unit} (hturn : waitTurn serveAll call last = .leave result)
    (errors : List ServeError) :
    ∃ ended, (serveAll call last.batteries.devices).ended? = some ended ∧
      (b.wait ⟨errors, ended⟩).2.2 = result := by
  unfold waitTurn at hturn
  split at hturn
  next hserved => exact ⟨.ok (), by rw [hserved]; rfl, Loops.Turn.leave.inj hturn⟩
  next source hserved => exact ⟨.error source, by rw [hserved]; rfl, Loops.Turn.leave.inj hturn⟩
  · cases hturn

/-- The bookkeeping is always fit to be serviced, and then a wait returns whatever
`serve_all` answers, after no more failures of a battery than there are strikes
left. The failures it takes in are the ones `serve_all` answered, call by call over
the devices then left, up to the first answer that blames no device, which is how the
wait ends. Each is charged to the battery at its index alone, which is destroyed by
its last strike and by no other. -/
theorem servicing_ends :
    (∀ (config : Config) (inherited : List Handle) (inputs : List (Input Handle)),
      Serviceable (run config inherited inputs).1) ∧
    ∀ b : Bridge Handle, Serviceable b → ∀ (serveAll : ServeAll Handle) (fuel : ℕ),
      strikesLeft b < fuel →
      ∃ done, waitLoop serveAll fuel b = some done ∧
        done.taken.length ≤ strikesLeft b ∧
        (∀ before err after, done.taken = before ++ err :: after →
          (serveAll before.length (Runs.exec serve b before).1.batteries.devices).error? =
            some err) ∧
        Runs.Along serve Charged b done.taken ∧
        ∃ ended, (serveAll done.taken.length done.state.batteries.devices).ended? = some ended ∧
          done.state = (b.wait ⟨done.taken, ended⟩).1 ∧
          done.result = (b.wait ⟨done.taken, ended⟩).2.2 := by
  refine ⟨serviceable_run, fun b hb serveAll fuel hfuel => ?_⟩
  have hfewer : ∀ call (b : Bridge Handle) err next, Serviceable b →
      waitTurn serveAll call b = .goOn err next →
      Serviceable next ∧ strikesLeft next < strikesLeft b := by
    intro call b err next hb hturn
    obtain ⟨device, battery, hi⟩ := hb.pair?_of_goOn hturn
    rw [(waitTurn_goOn hturn).1]
    exact hb.serve hi
  have hcharged : ∀ call (b : Bridge Handle) err next, Serviceable b →
      waitTurn serveAll call b = .goOn err next →
      Serviceable next ∧ next = (serve b err).1 ∧ Charged b err := by
    intro call b err next hb hturn
    obtain ⟨device, battery, hi⟩ := hb.pair?_of_goOn hturn
    exact ⟨(hfewer call b err next hb hturn).1, (waitTurn_goOn hturn).1, hb.charged hi⟩
  obtain ⟨done, hdone, -, hlen⟩ := Loops.returns_within hfewer 0 hb hfuel
  obtain ⟨hstate, halong, hleave⟩ := Loops.run_spec hcharged hb hdone
  obtain ⟨ended, hended, hresult⟩ := waitTurn_leave (b := b) hleave done.taken
  refine ⟨done, hdone, by omega, fun before err after htaken => ?_, halong, ended, ?_, hstate,
    hresult.symm⟩
  · have hturn := Loops.turn_of_taken
      (fun call b err next hb hturn => ⟨(hcharged call b err next hb hturn).1,
        (hcharged call b err next hb hturn).2.1⟩) hb hdone htaken
    rw [Nat.zero_add] at hturn
    exact (waitTurn_goOn hturn).2.1
  · rw [← hended, Nat.zero_add]

/-- Two batteries, and a second device that fails for ever: it takes its three strikes
and is destroyed, and the wait ends with the first one untouched. -/
theorem servicing_ends_of_broken :
    let config : Config := ⟨seconds 60, seconds 10, seconds 30, "/dev/uhid"⟩
    let answers : Answers ℕ := ⟨.error "unused", .ok (), .ok (some "hid-0"), .ok ()⟩
    let inputs : List (Input ℕ) := [.tick ⟨0, false, .ok
      [(⟨"Maxwell", "Audeze Maxwell", 0x3329, 0x4b18, true, .discharging 80, none⟩, answers),
        (⟨"G PRO", "Logitech", 0, 0, true, .charging (some 40), none⟩, answers)]⟩]
    let b := (run config [1, 2] inputs).1
    let broken : ServeAll ℕ := fun call devices =>
      if h : 1 < devices.length then .failedAt ⟨1, h⟩ "EIO" call else .ended
    let errors : List ServeError := [⟨1, "EIO", 0⟩, ⟨1, "EIO", 1⟩, ⟨1, "EIO", 2⟩]
    strikesLeft b = 6 ∧ ∃ done, waitLoop broken 7 b = some done ∧ done.taken = errors ∧
      Runs.Along serve Charged b errors ∧
      (Runs.exec serve b errors).2.map (fun e => (e.key, e.deed)) =
        [("0000:0000/G PRO", .struck 1), ("0000:0000/G PRO", .struck 2),
          ("0000:0000/G PRO", .struck 3), ("0000:0000/G PRO", .removed .broken)] ∧
      done.state.batteries.states.map (fun battery => (battery.name, battery.failures)) =
        [("Maxwell", 0)] ∧
      done.result.isOk = true := by
  intro config answers inputs b broken errors
  have hleft : strikesLeft b = 6 := by decide +kernel
  have hloop : (waitLoop broken 7 b).map (fun done => done.taken) = some errors := by
    decide +kernel
  have hevents : (Runs.exec serve b errors).2.map (fun e => (e.key, e.deed)) =
      [("0000:0000/G PRO", .struck 1), ("0000:0000/G PRO", .struck 2),
        ("0000:0000/G PRO", .struck 3), ("0000:0000/G PRO", .removed .broken)] := by
    decide +kernel
  have hstates : (Runs.exec serve b errors).1.batteries.states.map
      (fun battery => (battery.name, battery.failures)) = [("Maxwell", 0)] := by decide +kernel
  have hdevices : (Runs.exec serve b errors).1.batteries.devices.length = 1 := by decide +kernel
  obtain ⟨hfit, hends⟩ := @servicing_ends ℕ
  obtain ⟨done, hdone, -, -, halong, ended, hended, hstate, hresult⟩ :=
    hends b (hfit config [1, 2] inputs) broken 7 (by rw [hleft]; decide)
  rw [hdone] at hloop
  have htaken : done.taken = errors := Option.some.inj hloop
  rw [htaken] at halong hstate hresult
  have hlast : done.state = (Runs.exec serve b errors).1 := by rw [hstate, Bridge.wait]
  have hdeadline : ended = .ok () := by
    simpa [broken, hlast, hdevices, Served.ended?] using hended.symm
  refine ⟨hleft, done, hdone, htaken, halong, hevents, ?_, ?_⟩
  · rw [hlast]
    exact hstates
  · rw [hresult, hdeadline]
    rfl

end HeadsetBattery.Bridge
