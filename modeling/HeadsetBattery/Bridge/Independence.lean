import HeadsetBattery.Bridge.Concerns

/-!
# Headsets do not interfere

All headsets share the lists of batteries and the pool of handles. What is kept
about one of them is nevertheless a function of what concerned it: which handle a
device was made on is the only trace the others leave, and it does not show.
-/
namespace HeadsetBattery.Bridge

variable {Handle : Type}

/-! ## Forgetting the handles -/

/-- A device, whatever handle it was made on. -/
def Battery.blind (device : Battery Handle) : Battery Unit := ⟨(), device.identity, device.reading⟩

namespace Entry

def blind (entry : Entry Handle) : Entry Unit := (entry.1.blind, entry.2)

end Entry

/-- The answers about a device; those about the node are not among them. -/
def Answers.blind (a : Answers Handle) : Answers Unit :=
  ⟨.ok (), a.created, a.registered, a.updated⟩

/-- What concerns a headset, wherever there are handles. -/
def Concern.blind : Concern Handle → Concern Unit
  | .listed now h _ a => .listed now h (some ()) a.blind
  | .noted now => .noted now
  | .judged now => .judged now
  | .served now => .served now

namespace Slot

def blind (s : Slot Handle) : Slot Unit := ⟨s.entry.map Entry.blind, s.retryAt, s.abandoned⟩

/-- A device is to be created for a headset that is listed. -/
def asks (s : Slot Handle) (now : ℕ) (h : Headset) : Prop :=
  s.entry = none ∧ h.battery.offer.isSome ∧ s.barred now = false

end Slot

/-! ### One battery -/

theorem refresh_blind (device : Battery Handle) (battery : VirtualBattery) (reading : Reading)
    (sample : Option ℕ) (now : ℕ) (updated : Except String Unit) :
    refresh device.blind battery reading sample now updated =
      (Entry.blind (refresh device battery reading sample now updated).1,
        (refresh device battery reading sample now updated).2) := by
  simp only [refresh, show device.blind.reading = device.reading from rfl]
  generalize vetted { battery with lastReading := now, goneSince := none } device.reading reading
    sample = vet
  obtain ⟨noted, left, deed⟩ := vet
  cases left with
  | none => rfl
  | some level =>
      by_cases hsame : device.reading = level ∧ now - noted.publishedAt < republishEvery
      · simp only [if_pos hsame]
        rfl
      · simp only [if_neg hsame]
        cases updated <;> rfl

namespace Entry

theorem settle_blind (entry : Entry Handle) (ok : Bool) :
    entry.blind.settle ok = ((entry.settle ok).1.map blind, (entry.settle ok).2) := by
  have hstrike : strike entry.blind.2 ok = strike entry.2 ok := rfl
  simp only [settle, hstrike]
  cases ok with
  | true => rfl
  | false =>
      by_cases hfew : (strike entry.2 false).failures < deviceFailureLimit
      · simp only [if_pos hfew]
        rfl
      · simp only [if_neg hfew]
        rfl

theorem answer_blind (entry : Entry Handle) (reading : Reading) (sample : Option ℕ) (now : ℕ)
    (updated : Except String Unit) :
    entry.blind.answer reading sample now updated =
      ((entry.answer reading sample now updated).1.map blind,
        (entry.answer reading sample now updated).2) := by
  have hrefresh := refresh_blind entry.1 entry.2 reading sample now updated
  simp only [answer, show entry.blind.1 = entry.1.blind from rfl,
    show entry.blind.2 = entry.2 from rfl, hrefresh]
  split
  · rfl
  · simp only [settle_blind]

theorem leave_blind (entry : Entry Handle) (now : ℕ) :
    entry.blind.leave now = ((entry.leave now).1.map blind, (entry.leave now).2) := by
  have hgone : entry.blind.2.goneSince = entry.2.goneSince := rfl
  simp only [leave, hgone]
  by_cases hheld : disconnectSettle ≤ now - entry.2.goneSince.getD now
  · simp only [if_pos hheld, Option.map_none]
  · simp only [if_neg hheld]
    rfl

theorem apply_blind (entry : Entry Handle) (h : Headset) (now : ℕ) (a : Answers Handle) :
    entry.blind.apply h now a.blind =
      ((entry.apply h now a).1.map blind, (entry.apply h now a).2) := by
  have hsee : entry.blind.see now = (entry.see now).blind := rfl
  have hknown : entry.blind.1.reading = entry.1.reading := rfl
  simp only [apply, hsee, hknown, answer_blind, leave_blind]
  split
  · rfl
  · split <;> rfl

end Entry

theorem attachOn_blind (handle : Handle) (h : Headset) (reading : Reading) (now : ℕ)
    (a : Answers Handle) :
    attachOn () h reading now a.blind =
      ((attachOn handle h reading now a).1.map Entry.blind,
        (attachOn handle h reading now a).2) := by
  simp only [attachOn, Answers.blind]
  repeat' split
  all_goals rfl

/-! ### One slot -/

namespace Slot

theorem keep_blind (s : Slot Handle) (now : ℕ) (left : Option (Entry Handle)) (deeds : List Deed) :
    s.blind.keep now (left.map Entry.blind, deeds) =
      ((s.keep now (left, deeds)).1.blind, deeds) := by
  by_cases hbroken : .removed .broken ∈ deeds
  · simp only [keep, if_pos hbroken]
    rfl
  · simp only [keep, if_neg hbroken]
    rfl

theorem attempt_blind (s : Slot Handle) (h : Headset) (reading : Reading)
    (now : ℕ) (handle : Handle) (a : Answers Handle) :
    s.blind.attempt h reading now (some ()) a.blind =
      ((s.attempt h reading now (some handle) a).1.blind,
        (s.attempt h reading now (some handle) a).2) := by
  simp only [attempt, attachOn_blind handle]
  generalize attachOn handle h reading now a = attached
  obtain ⟨made, deeds, result⟩ := attached
  cases result with
  | ok device => rfl
  | error failure => cases failure <;> rfl

/-- A concern makes of what is kept, handles forgotten, what it makes of it. -/
theorem take_blind (config : Config) (s : Slot Handle) {c : Concern Handle}
    (hgot : ∀ now h got a, c = .listed now h got a → s.asks now h → got.isSome) :
    s.blind.take config c.blind = ((s.take config c).1.blind, (s.take config c).2) := by
  have hbarred (now : ℕ) : s.blind.barred now = s.barred now := rfl
  cases c with
  | listed now h got a =>
      cases hentry : s.entry with
      | some entry =>
          have hblind : s.blind.entry = some entry.blind := by simp [blind, hentry]
          simp only [take, Concern.blind, hentry, hblind, entry.apply_blind, keep_blind, keep_deeds]
      | none =>
          have hblind : s.blind.entry = none := by simp [blind, hentry]
          simp only [take, Concern.blind, hentry, hblind, hbarred]
          cases hoffer : h.battery.offer with
          | none => rfl
          | some reading =>
              by_cases hb : s.barred now = true
              · simp only [if_pos hb]
              · have hasked := hgot now h got a rfl
                  ⟨hentry, by simp [hoffer], Bool.eq_false_iff.2 hb⟩
                obtain ⟨handle, rfl⟩ := Option.isSome_iff_exists.1 hasked
                simp only [if_neg hb, s.attempt_blind h reading now handle a]
  | noted now =>
      simp only [take, Concern.blind, blind, Option.map_map]
      rfl
  | judged now =>
      have hcause : (s.blind.entry.bind fun entry => (outlived config entry.2 now).cause) =
          s.entry.bind fun entry => (outlived config entry.2 now).cause := by
        simp only [blind, Option.bind_map]
        rfl
      simp only [take, Concern.blind, hcause]
      split <;> rfl
  | served now =>
      cases hentry : s.entry with
      | some entry =>
          have hblind : s.blind.entry = some entry.blind := by simp [blind, hentry]
          simp only [take, Concern.blind, hentry, hblind, entry.settle_blind, keep_blind,
            keep_deeds]
      | none =>
          have hblind : s.blind.entry = none := by simp [blind, hentry]
          simp only [take, Concern.blind, hentry, hblind]

end Slot

/-! ## What a headset is told, and what it goes through -/

/-- Where a device is to be created for this headset, there is a handle for it. -/
def Supplied (key : String) (b : Bridge Handle) (m : Move Handle) : Prop :=
  ∀ now h a, m = .apply now (h, a) → h.key = key → (b.slot key).asks now h →
    (b.uhid.acquire a.opened).2.2.isOk = true

/-- What concerns a headset in each tick and wait, handles forgotten. -/
def told (key : String) (b : Bridge Handle) (inputs : List (Input Handle)) :
    List (List (Concern Unit)) :=
  Projections.views step
    (fun b input => some ((concerns key b input.moves).map Concern.blind)) b inputs

/-- What is kept about a headset after each tick and wait, handles forgotten, and
what was done about it. -/
def undergone (key : String) (b : Bridge Handle) (inputs : List (Input Handle)) :
    List (Slot Unit × List Event) :=
  (Projections.log step b inputs).map fun after => ((after.1.slot key).blind, own key after.2)

/-- A tick tells a headset how it was listed, and when. -/
theorem told_of_tick (key : String) (b : Bridge Handle) (t : Tick Handle) :
    (concerns key b t.moves).map Concern.blind =
      (t.withBattery.filter fun polled => polled.1.key = key).map
          (fun polled => .listed t.now polled.1 (some ()) polled.2.blind) ++
        [.noted t.now, .judged t.now] := by
  have happlied (polled : List (Headset × Answers Handle)) (b : Bridge Handle) :
      (concerns key b (polled.map (.apply t.now) ++ [.note t.now, .expire t.now])).map
          Concern.blind =
        (polled.filter fun polled => polled.1.key = key).map
            (fun polled => .listed t.now polled.1 (some ()) polled.2.blind) ++
          [.noted t.now, .judged t.now] := by
    induction polled generalizing b with
    | nil => rfl
    | cons p polled ih =>
        rw [List.map_cons, List.cons_append, concerns_cons, List.map_append, ih, List.filter_cons]
        by_cases hkey : p.1.key = key <;> simp [concern, hkey, Concern.blind]
  exact happlied t.withBattery (b.probed t)

/-- The node opens, should a listing come to that. -/
def Move.opens : Move Handle → Bool
  | .apply _ (_, a) => a.opened.isOk
  | _ => true

/-- With no handles of its own to run out of, and a node that opens, a bridge has a
handle for everyone. -/
theorem supplied_of_opened (config : Config) (key : String) (moves : List (Move Handle))
    (hopened : ∀ m ∈ moves, m.opens = true) :
    Runs.Along move (Supplied key) (new config []) moves := by
  rintro before m after rfl now h a rfl - -
  have hkeeps : (reached config [] before).batteries.InStep ∧
      (reached config ([] : List Handle) before).uhid.mayOpen = true :=
    Runs.exec_invariant (fun b _ => b.batteries.InStep ∧ b.uhid.mayOpen = true)
      ⟨Batteries.inStep_empty, rfl⟩ (fun m b _ hb =>
        ⟨(move_keeps b m hb.1).inStep, (move_keeps b m hb.1).mayOpen.trans hb.2⟩) before
  have hopen : a.opened.isOk = true := hopened (.apply now (h, a)) (by simp)
  change ((reached config [] before).uhid.acquire a.opened).2.2.isOk = true
  unfold DevicePool.acquire
  split
  · rfl
  · rw [if_pos hkeeps.2]
    cases hnode : a.opened with
    | ok handle => rfl
    | error err =>
        rw [hnode] at hopen
        cases hopen

theorem move_blind {b : Bridge Handle} (hb : b.batteries.InStep) {key : String} {m : Move Handle}
    (hsupplied : Supplied key b m) :
    Projections.Follows (Slot.step b.config key) (b.slot key).blind
      ((b.concern key m).map Concern.blind) ((move b m).1.slot key).blind (own key (move b m).2) := by
  have hfollows := move_follows hb m key
  cases hconcern : b.concern key m with
  | none =>
      rw [hconcern] at hfollows
      obtain ⟨hsame, hnothing⟩ := hfollows
      exact ⟨congrArg Slot.blind hsame, hnothing⟩
  | some c =>
      rw [hconcern] at hfollows
      have hgot : ∀ now h got a, c = .listed now h got a → (b.slot key).asks now h →
          got.isSome := by
        rintro now h got a rfl hasks
        obtain ⟨rfl, hkey, rfl⟩ := apply_of_listed hconcern
        have hok := hsupplied now h a rfl hkey hasks
        cases hacquired : (b.uhid.acquire a.opened).2.2 with
        | ok handle => rfl
        | error err =>
            rw [hacquired] at hok
            cases hok
      obtain ⟨hslot, hevents⟩ := Prod.mk.inj hfollows
      have htake := (b.slot key).take_blind b.config hgot
      have hnow : c.blind.now = c.now := by cases c <;> rfl
      rw [← hslot, ← hevents]
      simp only [Projections.Follows, Option.map_some, Slot.step, htake, hnow]

theorem moves_blind {b : Bridge Handle} (hb : b.batteries.InStep) {key : String}
    {moves : List (Move Handle)} (hsupplied : Runs.Along move (Supplied key) b moves) :
    Runs.exec (Slot.step b.config key) (b.slot key).blind
        ((concerns key b moves).map Concern.blind) =
      (((Runs.exec move b moves).1.slot key).blind, own key (Runs.exec move b moves).2) := by
  rw [concerns, ← Projections.views_map, own_eq_filterMap]
  refine Projections.exec_part (fun b => (slot b key).blind)
    (fun st => st.batteries.InStep ∧ st.config = b.config) (Supplied key) ?_ ?_ ⟨hb, rfl⟩ moves
    hsupplied
  · rintro st m ⟨hst, hconfig⟩
    have hkeeps := move_keeps st m hst
    exact ⟨hkeeps.inStep, hkeeps.config.trans hconfig⟩
  · rintro st m ⟨hst, hconfig⟩ hm
    rw [← hconfig, ← own_eq_filterMap]
    exact move_blind hst hm

/-- What a headset goes through is a function of what it is told. -/
theorem undergone_eq (config : Config) (inherited : List Handle) (key : String)
    (inputs : List (Input Handle))
    (hsupplied : Runs.Along move (Supplied key) (new config inherited)
      (inputs.flatMap Input.moves)) :
    undergone key (new config inherited) inputs =
      Projections.log (Runs.exec (Slot.step config key)) .empty
        (told key (new config inherited) inputs) := by
  rw [Runs.along_flatMap] at hsupplied
  have hstep : (fun b (input : Input Handle) => Runs.exec move b input.moves) = step := by
    funext b input
    exact (step_eq_moves b input).symm
  rw [hstep] at hsupplied
  refine (Projections.log_part (fun b => (slot b key).blind)
    (fun b input => (concerns key b input.moves).map Concern.blind) (own key)
    (fun b => b.batteries.InStep ∧ b.config = config)
    (fun b input => Runs.Along move (Supplied key) b input.moves) ?_ ?_
    ⟨Batteries.inStep_empty, rfl⟩ inputs hsupplied).symm
  · rintro b input ⟨hb, hconfig⟩
    have hkeeps := step_keeps b input hb
    exact ⟨hkeeps.inStep, hkeeps.config.trans hconfig⟩
  · rintro b input ⟨hb, hconfig⟩ hinput
    rw [← hconfig, moves_blind hb hinput, step_eq_moves]

/-- Two runs that tell a headset the same, tick by tick and wait by wait, take it
through the same, as long as neither runs out of handles for it: whatever other
headsets there are, and in whatever order they are listed. -/
theorem headsets_do_not_interfere {Handle' : Type} (config : Config) (inherited : List Handle)
    (inherited' : List Handle') (key : String) (inputs : List (Input Handle))
    (inputs' : List (Input Handle'))
    (hsupplied : Runs.Along move (Supplied key) (new config inherited)
      (inputs.flatMap Input.moves))
    (hsupplied' : Runs.Along move (Supplied key) (new config inherited')
      (inputs'.flatMap Input.moves))
    (hsame : told key (new config inherited) inputs = told key (new config inherited') inputs') :
    undergone key (new config inherited) inputs =
      undergone key (new config inherited') inputs' := by
  rw [undergone_eq config inherited key inputs hsupplied,
    undergone_eq config inherited' key inputs' hsupplied', hsame]

/-- A Maxwell on its own, and one listed after another headset whose device cannot be
created and before one that is switched off. -/
theorem headsets_do_not_interfere_of_two :
    let config : Config := ⟨seconds 60, seconds 10, seconds 30, "/dev/uhid"⟩
    let fine : Answers ℕ := ⟨.ok 7, .ok (), .ok (some "hid-0"), .ok ()⟩
    let broken : Answers ℕ := ⟨.ok 8, .error (.other, "EIO"), .ok none, .ok ()⟩
    let maxwell (percent : ℕ) : Headset :=
      ⟨"Maxwell", "Audeze Maxwell", 0x3329, 0x4b18, true, .discharging percent, none⟩
    let other (state : BatteryState) : Headset :=
      ⟨"Nova", "Arctis Nova", 0x1038, 0x12e0, true, state, none⟩
    let poll (now : ℕ) (headsets : List (Headset × Answers ℕ)) : Input ℕ :=
      .tick ⟨seconds now, false, .ok headsets⟩
    undergone "3329:4b18/Maxwell" (new config [])
        [poll 0 [(maxwell 80, fine)], poll 60 [(maxwell 79, fine)]] =
      undergone "3329:4b18/Maxwell" (new config [])
        [poll 0 [(other (.discharging 50), broken), (maxwell 80, fine)],
          poll 60 [(maxwell 79, fine), (other .disconnected, fine)]] := by
  intro config fine broken maxwell other poll
  exact headsets_do_not_interfere config [] [] "3329:4b18/Maxwell" _ _
    (supplied_of_opened config _ _ (by decide +kernel))
    (supplied_of_opened config _ _ (by decide +kernel)) (by decide +kernel)

end HeadsetBattery.Bridge
