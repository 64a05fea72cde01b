import HeadsetBattery.Bridge.Custody

/-!
# What happens to a published level

A tick and a wait are made of moves, and a move can do few things to the level a
battery publishes and to the reading it has deferred. What vetting makes of one
reading is said once here, and the results about levels are drawn from it.
-/
namespace HeadsetBattery.Bridge

variable {Handle : Type}

/-! ## Moves -/

/-- The parts a tick and a wait are made of. -/
inductive Move (Handle : Type) where
  | probe (t : Tick Handle)
  | apply (now : ℕ) (polled : Headset × Answers Handle)
  | note (now : ℕ)
  | expire (now : ℕ)
  | serve (err : ServeError)

/-- The moves of a tick, every headset with a battery in the listed order. -/
def Tick.moves (t : Tick Handle) : List (Move Handle) :=
  .probe t :: (t.withBattery.map (.apply t.now) ++ [.note t.now, .expire t.now])

def Input.moves : Input Handle → List (Move Handle)
  | .tick t => t.moves
  | .wait w => w.errors.map .serve

def move (b : Bridge Handle) : Move Handle → Bridge Handle × List Event
  | .probe t => (b.probed t, [])
  | .apply now polled => applyOne now b polled
  | .note now => (b.noteAll now, [])
  | .expire now => b.expire now
  | .serve err => serve b err

theorem step_eq_moves (b : Bridge Handle) (input : Input Handle) :
    step b input = Runs.exec move b input.moves := by
  cases input with
  | tick t =>
      have happlied := Runs.exec_map (applyOne t.now) move (.apply t.now) (fun _ _ => rfl)
        (b.probed t) t.withBattery
      simp [step, tick, polled, Input.moves, Tick.moves, Runs.exec_cons, Runs.exec_append,
        ← happlied, move]
  | wait w => exact Runs.exec_map serve move .serve (fun _ _ => rfl) b w.errors

theorem run_eq_moves (config : Config) (inherited : List Handle) (inputs : List (Input Handle)) :
    run config inherited inputs =
      Runs.exec move (new config inherited) (inputs.flatMap Input.moves) := by
  rw [run, ← Runs.exec_flatMap]
  congr 1
  funext b input
  exact step_eq_moves b input

theorem move_keeps (b : Bridge Handle) (m : Move Handle) (hb : b.batteries.InStep) :
    Keeps b (move b m).1 := by
  cases m with
  | probe t => exact probed_keeps hb t
  | apply now polled => exact applyOne_keeps now hb polled
  | note now => exact noteAll_keeps hb now
  | expire now => exact (expire_spec hb now).toKeeps
  | serve err => exact serve_keeps hb err

/-- The bridge after some moves, from the start on. -/
def reached (config : Config) (inherited : List Handle) (moves : List (Move Handle)) :
    Bridge Handle :=
  (Runs.exec move (new config inherited) moves).1

theorem reached_append (config : Config) (inherited : List Handle)
    (moves moves' : List (Move Handle)) :
    reached config inherited (moves ++ moves') =
      (Runs.exec move (reached config inherited moves) moves').1 := by
  rw [reached, Runs.exec_append]
  rfl

theorem reached_inStep (config : Config) (inherited : List Handle) (moves : List (Move Handle)) :
    (reached config inherited moves).batteries.InStep :=
  Runs.exec_invariant (fun b _ => b.batteries.InStep) Batteries.inStep_empty
    (fun m b _ hb => (move_keeps b m hb).inStep) moves

/-! ## What vetting makes of a reading -/

/-- The deed a verdict is reported as. -/
def Verdict.deed : Verdict → Reading → Option ℕ → Deed
  | .accept => .accepted
  | .defer => .deferred
  | .hold => .held

/-- The reading a verdict leaves to publish, when `known` is published. -/
def Verdict.level : Verdict → Reading → Reading → Option Reading
  | .accept, _, reading => some reading
  | .defer, _, _ => none
  | .hold, known, _ => some known

/-- Only a reading that is accepted or held leaves one to publish. -/
theorem Verdict.level_eq_some {verdict : Verdict} {known reading level : Reading} :
    verdict.level known reading = some level ↔
      verdict = .accept ∧ level = reading ∨ verdict = .hold ∧ level = known := by
  cases verdict <;> simp [Verdict.level, eq_comm]

/-- The verdict on a reading for a battery. -/
def Entry.verdict (entry : Entry Handle) (reading : Reading) (sample : Option ℕ) : Verdict :=
  vet entry.1.reading reading (secondOpinion entry.2.deferred entry.2.deferredSample sample)

/-- A deed that has to do with the level. -/
def Deed.isLevel : Deed → Bool
  | appeared _ | deferred _ _ | held _ _ | accepted _ _ | pushed _ _ => true
  | _ => false

/-- What a reading does to the level of a battery: one deed for the verdict, then a
push of the level it leaves, unless that is the published one. A push that works
is what the device shows from then on. -/
structure Answered (entry : Entry Handle) (reading : Reading) (sample : Option ℕ)
    (left : Option (Entry Handle)) (deeds : List Deed) : Prop where
  deeds : ∃ pushes rest,
    deeds = (entry.verdict reading sample).deed reading sample :: (pushes ++ rest) ∧
    (∀ d ∈ rest, d.isLevel = false) ∧
    (pushes = [] ∧
        (∀ level, (entry.verdict reading sample).level entry.1.reading reading = some level →
          entry.1.reading = level) ∧
        (∀ e, left = some e → e.1.reading = entry.1.reading) ∨
      ∃ level ok, (entry.verdict reading sample).level entry.1.reading reading = some level ∧
        pushes = [.pushed level ok] ∧
        ∀ e, left = some e → e.1.reading = if ok then level else entry.1.reading)
  deferred : ∀ e, left = some e →
    (entry.verdict reading sample = .defer →
      e.2.deferred = some reading.percent ∧ e.2.deferredSample = sample) ∧
    (entry.verdict reading sample ≠ .defer → e.2.deferred = none)

theorem vetted_eq (battery : VirtualBattery) (known reading : Reading) (sample : Option ℕ) :
    (vetted battery known reading sample).2 =
      ((vet known reading (secondOpinion battery.deferred battery.deferredSample sample)).level
          known reading,
        (vet known reading (secondOpinion battery.deferred battery.deferredSample sample)).deed
          reading sample) := by
  unfold vetted
  split
  next h => rw [h]; rfl
  next h => rw [h]; rfl
  next h => rw [h]; rfl

theorem vetted_deferred (battery : VirtualBattery) (known reading : Reading)
    (sample : Option ℕ) :
    (vet known reading (secondOpinion battery.deferred battery.deferredSample sample) = .defer →
      (vetted battery known reading sample).1.deferred = some reading.percent ∧
        (vetted battery known reading sample).1.deferredSample = sample) ∧
    (vet known reading (secondOpinion battery.deferred battery.deferredSample sample) ≠ .defer →
      (vetted battery known reading sample).1.deferred = none) := by
  unfold vetted
  split
  next h => exact ⟨fun _ => ⟨rfl, rfl⟩, fun hne => absurd h hne⟩
  next h => exact ⟨fun he => by simp [h] at he, fun _ => rfl⟩
  next h => exact ⟨fun he => by simp [h] at he, fun _ => rfl⟩

theorem settle_quiet (entry : Entry Handle) (ok : Bool) :
    ∀ d ∈ (entry.settle ok).2, d.isLevel = false := by
  simp only [Entry.settle]
  repeat' split
  all_goals simp [Deed.isLevel]

/-- A reading is vetted; what is left of it is pushed, unless it is published
already. -/
theorem refresh_spec (entry : Entry Handle) (reading : Reading) (sample : Option ℕ) (now : ℕ)
    (updated : Except String Unit) :
    ∃ noted : VirtualBattery,
      ((entry.verdict reading sample = .defer →
          noted.deferred = some reading.percent ∧ noted.deferredSample = sample) ∧
        (entry.verdict reading sample ≠ .defer → noted.deferred = none)) ∧
      ((∀ level, (entry.verdict reading sample).level entry.1.reading reading = some level →
            entry.1.reading = level) ∧
          refresh entry.1 entry.2 reading sample now updated =
            ((entry.1, noted), [(entry.verdict reading sample).deed reading sample], none) ∨
        ∃ level pushed, (entry.verdict reading sample).level entry.1.reading reading = some level ∧
          refresh entry.1 entry.2 reading sample now updated =
            (({ entry.1 with reading := if updated.isOk then level else entry.1.reading }, noted),
              [(entry.verdict reading sample).deed reading sample, .pushed level updated.isOk],
              some pushed)) := by
  have hvet : (vetted { entry.2 with lastReading := now, goneSince := none } entry.1.reading
      reading sample).2 = ((entry.verdict reading sample).level entry.1.reading reading,
        (entry.verdict reading sample).deed reading sample) := vetted_eq _ _ _ _
  have hdeferred := vetted_deferred { entry.2 with lastReading := now, goneSince := none }
    entry.1.reading reading sample
  simp only [refresh]
  generalize vetted { entry.2 with lastReading := now, goneSince := none } entry.1.reading reading
    sample = vet at hvet hdeferred ⊢
  obtain ⟨noted, left, deed⟩ := vet
  obtain ⟨rfl, rfl⟩ := Prod.mk.inj hvet
  cases hl : (entry.verdict reading sample).level entry.1.reading reading with
  | none => exact ⟨noted, hdeferred, .inl ⟨by simp, rfl⟩⟩
  | some level =>
      by_cases hsame : entry.1.reading = level ∧ now - noted.publishedAt < republishEvery
      · simp only [if_pos hsame]
        refine ⟨noted, hdeferred, .inl ⟨fun level' hl' => ?_, rfl⟩⟩
        exact hsame.1.trans (Option.some.inj hl')
      · simp only [if_neg hsame]
        refine ⟨{ noted with
          loggedPercent := mention noted entry.1.reading level
          publishedAt := now }, hdeferred, .inr ?_⟩
        cases updated with
        | ok _ => exact ⟨level, _, rfl, rfl⟩
        | error err => exact ⟨level, _, rfl, rfl⟩

theorem answer_spec (entry : Entry Handle) (reading : Reading) (sample : Option ℕ) (now : ℕ)
    (updated : Except String Unit) :
    Answered entry reading sample (entry.answer reading sample now updated).1
      (entry.answer reading sample now updated).2 := by
  obtain ⟨noted, hdeferred, ⟨hlevel, he⟩ | ⟨level, pushed, hlevel, he⟩⟩ :=
    refresh_spec entry reading sample now updated
  · simp only [Entry.answer, he]
    refine ⟨⟨[], [], rfl, by simp, .inl ⟨rfl, hlevel, ?_⟩⟩, ?_⟩
    · rintro e hleft
      obtain rfl := Option.some.inj hleft
      rfl
    · rintro e hleft
      obtain rfl := Option.some.inj hleft
      exact hdeferred
  · simp only [Entry.answer, he]
    refine ⟨⟨[.pushed level updated.isOk], _, rfl, settle_quiet _ pushed.isOk,
      .inr ⟨level, updated.isOk, hlevel, rfl, ?_⟩⟩, ?_⟩
    · rintro e hleft
      obtain ⟨failures, rfl, -⟩ := settle_eq_some hleft
      rfl
    · rintro e hleft
      obtain ⟨failures, rfl, -⟩ := settle_eq_some hleft
      exact hdeferred

/-! ## Turns -/

/-- Events that say nothing about the level of a battery. -/
def Quiet (key : String) (events : List Event) : Prop :=
  ∀ e ∈ events, e.key = key → e.deed.isLevel = false

theorem quiet_nil (key : String) : Quiet key [] := by
  intro e he
  cases he

theorem quiet_stamp_ne {key key' : String} (hk : key' ≠ key) (now : ℕ) (deeds : List Deed) :
    Quiet key (stamp key' now deeds) := by
  intro e he hkey
  obtain ⟨d, -, rfl⟩ := List.mem_map.1 he
  exact absurd hkey hk

theorem quiet_stamp {key key' : String} {now : ℕ} {deeds : List Deed}
    (h : ∀ d ∈ deeds, d.isLevel = false) : Quiet key (stamp key' now deeds) := by
  intro e he _
  obtain ⟨d, hd, rfl⟩ := List.mem_map.1 he
  exact h d hd

/-- What a move can do to the battery of one headset, as far as levels go. -/
inductive Turn (key : String) (m : Move Handle) :
    Option (Entry Handle) → List Event → Option (Entry Handle) → Prop
  | absent {events : List Event} (quiet : Quiet key events) : Turn key m none events none
  | gone {entry : Entry Handle} {events : List Event} (quiet : Quiet key events) :
      Turn key m (some entry) events none
  | same {entry left : Entry Handle} {events : List Event} (device : left.1 = entry.1)
      (deferred : left.2.deferred = entry.2.deferred)
      (sample : left.2.deferredSample = entry.2.deferredSample) (quiet : Quiet key events) :
      Turn key m (some entry) events (some left)
  | appeared {now : ℕ} {h : Headset} {a : Answers Handle} {handle : Handle} {reading : Reading}
      {deeds : List Deed} (moved : m = .apply now (h, a)) (mine : h.key = key)
      (offered : h.battery.offer = some reading) (attempts : ∀ d ∈ deeds, d.isLevel = false) :
      Turn key m none (stamp key now (deeds ++ [.appeared reading]))
        (some (.made handle h reading now))
  | answered {now : ℕ} {h : Headset} {a : Answers Handle} {entry : Entry Handle}
      {reading : Reading} {left : Option (Entry Handle)} {deeds : List Deed}
      (moved : m = .apply now (h, a)) (mine : h.key = key)
      (read : h.battery.reading entry.1.reading.percent = some reading)
      (answered : Answered entry reading h.sample left deeds) :
      Turn key m (some entry) (stamp key now deeds) left

/-- A battery that is neither answered nor taken down by a move. -/
theorem Turn.rest {key : String} {m : Move Handle} {before : Option (Entry Handle)}
    {events : List Event} (quiet : Quiet key events) : Turn key m before events before := by
  cases before with
  | none => exact .absent quiet
  | some entry => exact .same rfl rfl rfl quiet

theorem isLevel_of_isAttempt {mayOpen : Bool} {d : Deed} (h : d.isAttempt mayOpen = true) :
    d.isLevel = false := by
  cases d <;> first | rfl | cases h

/-- A headset with a battery and a reading for it. -/
theorem applyOne_answered {b : Bridge Handle} (hb : b.batteries.InStep) (now : ℕ)
    (polled : Headset × Answers Handle) {entry : Entry Handle} {reading : Reading}
    (hk : b.batteries.find? polled.1.key = some entry)
    (hreading : polled.1.battery.reading entry.1.reading.percent = some reading) :
    ∃ deeds, Answered entry reading polled.1.sample
        ((applyOne now b polled).1.batteries.find? polled.1.key) deeds ∧
      (applyOne now b polled).2 = stamp polled.1.key now deeds := by
  obtain ⟨left, deeds, htouches, hbecomes, hevents⟩ := applyOne_spec hb now polled
  rw [hk] at hbecomes
  change entry.apply polled.1 now polled.2 = (left, deeds) at hbecomes
  have hspec := answer_spec (entry.see now) reading polled.1.sample now polled.2.updated
  rw [Entry.apply, hreading] at hbecomes
  simp only [hbecomes] at hspec
  -- Being seen leaves the device and the deferral alone.
  exact ⟨deeds, by rw [htouches.here]; exact ⟨hspec.deeds, hspec.deferred⟩, hevents⟩

theorem turn_applyOne {b : Bridge Handle} (hb : b.batteries.InStep) (now : ℕ)
    (polled : Headset × Answers Handle) (key : String) :
    Turn key (.apply now polled) (b.batteries.find? key) (applyOne now b polled).2
      ((applyOne now b polled).1.batteries.find? key) := by
  obtain ⟨left, deeds, htouches, hbecomes, hevents⟩ := applyOne_spec hb now polled
  rw [hevents]
  by_cases hkey : polled.1.key = key
  · subst hkey
    rw [htouches.here]
    cases hk : b.batteries.find? polled.1.key with
    | none =>
        rw [hk] at hbecomes
        cases hbecomes with
        | nothing attempts =>
            exact .absent (quiet_stamp fun d hd => isLevel_of_isAttempt (attempts d hd))
        | battery handle offered attempts created =>
            exact .appeared rfl rfl offered fun d hd => isLevel_of_isAttempt (attempts d hd)
    | some entry =>
        cases hreading : polled.1.battery.reading entry.1.reading.percent with
        | some reading =>
            obtain ⟨deeds, hanswered, hdeeds⟩ := applyOne_answered hb now polled hk hreading
            rw [← hevents, hdeeds, ← htouches.here]
            exact .answered rfl rfl hreading hanswered
        | none =>
            rw [hk] at hbecomes
            change entry.apply polled.1 now polled.2 = (left, deeds) at hbecomes
            simp only [Entry.apply, hreading] at hbecomes
            split at hbecomes
            · simp only [Entry.leave] at hbecomes
              split at hbecomes
              · obtain ⟨rfl, rfl⟩ := Prod.mk.inj hbecomes
                exact .gone (quiet_stamp (by simp [Deed.isLevel]))
              · obtain ⟨rfl, rfl⟩ := Prod.mk.inj hbecomes
                exact .same rfl rfl rfl (quiet_stamp (by simp))
            · obtain ⟨rfl, rfl⟩ := Prod.mk.inj hbecomes
              exact .same rfl rfl rfl (quiet_stamp (by simp))
  · rw [htouches.elsewhere (Ne.symm hkey)]
    exact .rest (quiet_stamp_ne hkey now deeds)

/-- Every move is a turn for every battery. -/
theorem move_turn {b : Bridge Handle} (hb : b.batteries.InStep) (m : Move Handle) (key : String) :
    Turn key m (b.batteries.find? key) (move b m).2 ((move b m).1.batteries.find? key) := by
  cases m with
  | probe t =>
      rw [move, (probed_batteries b t).1]
      exact .rest (quiet_nil key)
  | apply now polled => exact turn_applyOne hb now polled key
  | note now =>
      rw [move, find?_noteAll]
      cases b.batteries.find? key with
      | none => exact .absent (quiet_nil key)
      | some entry => exact .same rfl rfl rfl (quiet_nil key)
  | expire now =>
      have hexpired := expire_spec hb now
      have hquiet : Quiet key (b.expire now).2 := by
        intro e he _
        obtain ⟨entry, cause, -, -, rfl⟩ := (hexpired.events e).1 he
        rfl
      rw [move, hexpired.find?]
      cases b.batteries.find? key with
      | none => exact .absent hquiet
      | some entry =>
          rw [Option.filter_some]
          split
          · exact .same rfl rfl rfl hquiet
          · exact .gone hquiet
  | serve err =>
      obtain he | ⟨entry, hentry, htouches, hevents⟩ := serve_spec hb err
      · rw [move, he]
        exact .rest (quiet_nil key)
      · rw [move, hevents]
        have hquiet : Quiet key (stamp entry.2.key err.now (entry.settle false).2) :=
          quiet_stamp (settle_quiet entry false)
        by_cases hkey : key = entry.2.key
        · subst hkey
          rw [htouches.here, hentry]
          cases hleft : (entry.settle false).1 with
          | none => exact .gone hquiet
          | some left =>
              obtain ⟨failures, rfl, -⟩ := settle_eq_some hleft
              exact .same rfl rfl rfl hquiet
        · rw [htouches.elsewhere hkey]
          exact .rest hquiet

end HeadsetBattery.Bridge
