import HeadsetBattery.Bridge.Silences
import HeadsetBattery.Library.Debounce
import HeadsetBattery.Library.Projections

/-!
# What the journal says of a poll

A state of the headsets is announced once it has lasted, and a failing reader is
complained about once for a streak of failures. The bridge keeps three fields for
that; the lines it gives are those the polls so far ask for.
-/
namespace HeadsetBattery.Bridge

variable {Handle : Type}

/-- The levels of the journal the bridge uses for a poll. -/
inductive Severity where
  | warn
  | info
  | debug
  deriving DecidableEq, Repr

structure Line where
  severity : Severity
  text : String
  deriving DecidableEq, Repr

/-- An error on one line, its contexts first. -/
def alternate (err : List String) : String := ": ".intercalate err

/-- What a poll found, in words. -/
def Summary.line (headsets : List Headset) : Summary → Line
  | .noDevice => ⟨.info, "no supported headset found: check that the dongle is plugged in, and " ++
      "that this service may reach its hidraw node (run `headset-battery-indicator udev-rules` " ++
      "and install the result)"⟩
  | .noBattery => ⟨.info, names ++ " found, but none reports a battery"⟩
  | .offline => ⟨.info, names ++ " is detected but not answering battery queries (switched off?)"⟩
  | .online => ⟨.debug, names ++ " is answering"⟩
where
  names : String := ", ".intercalate (headsets.map Headset.name)

def readingsAreBack : Line := ⟨.info, "battery readings are back"⟩

/-- The first failure of a streak. -/
def couldNotRead (err : List String) : Line :=
  ⟨.warn, "could not read batteries: " ++ alternate err⟩

/-- A later one. -/
def stillFailing (err : List String) : Line := ⟨.debug, "still failing: " ++ alternate err⟩

/-- Whether `announce` says something. -/
def announces (b : Bridge Handle) (summary : Summary) (now : ℕ) : Bool :=
  if b.lastSummary = some summary then false
  else
    match b.unsettled with
    | some (pending, since) => pending = summary && !decide (now - since < summarySettle)
    | none => false

/-- The lines a tick gives about its poll. -/
def lines (b : Bridge Handle) (t : Tick Handle) : List Line :=
  match t.poll with
  | .ok polled =>
      let headsets := polled.map Prod.fst
      (if b.probeFailing then [readingsAreBack] else []) ++
        if b.announces (.of headsets) t.now then [(Summary.of headsets).line headsets] else []
  | .error err =>
      -- A reading cut short by the shutdown is not a failure.
      if t.stopping then [⟨.debug, alternate err⟩]
      -- Only the first failure of a streak is shouted about.
      else if b.probeFailing then [stillFailing err]
      else [couldNotRead err]

/-! ## What the polls ask for -/

/-- What a poll found, and when. -/
def Tick.found (t : Tick Handle) : Option (Summary × ℕ) :=
  match t.poll with
  | .ok polled => some (.of (polled.map Prod.fst), t.now)
  | .error _ => none

/-- Whether a poll failed; one cut short by the shutdown neither did nor did not. -/
def Tick.failed (t : Tick Handle) : Option Bool :=
  match t.poll with
  | .ok _ => some false
  | .error _ => if t.stopping then none else some true

/-- What some polls found. -/
def findings (history : List (Tick Handle)) : List (Summary × ℕ) := history.filterMap Tick.found

/-- The last poll that was not cut short failed. -/
def failing (history : List (Tick Handle)) : Bool :=
  ((history.filterMap Tick.failed).getLast?).getD false

/-- The lines a poll calls for after what the polls before it found: a state that has
lasted and is not the newest that had, the first failure, and the end of failures. -/
def calledFor (history : List (Tick Handle)) (t : Tick Handle) : List Line :=
  match t.poll with
  | .ok polled =>
      let headsets := polled.map Prod.fst
      let summary := Summary.of headsets
      (if failing history then [readingsAreBack] else []) ++
        if Debounce.Lasts summarySettle (findings history) (summary, t.now) ∧
            Debounce.settled summarySettle (findings history) ≠ some summary then
          [summary.line headsets]
        else []
  | .error err =>
      if t.stopping then [⟨.debug, alternate err⟩]
      else if failing history then [stillFailing err]
      else [couldNotRead err]

/-! ## The fields the lines depend on -/

/-- The bridge as a monitor of summaries. -/
def watch (b : Bridge Handle) : Debounce.Monitor Summary := ⟨b.lastSummary, b.unsettled⟩

/-- Announcing is observing. -/
theorem watch_announce (b : Bridge Handle) (summary : Summary) (now : ℕ) :
    b.watch.observe summarySettle (summary, now) =
      ((b.announce summary now).watch,
        if b.announces summary now then [(summary, now)] else []) := by
  unfold Debounce.Monitor.observe announce announces watch
  by_cases htold : b.lastSummary = some summary
  · simp [htold]
  · cases hu : b.unsettled with
    | none => simp [htold]
    | some pending =>
        obtain ⟨pending, since⟩ := pending
        by_cases hp : pending = summary
        · by_cases hearly : now - since < summarySettle <;> simp [htold, hp, hearly, hu]
        · simp [htold, hp]

/-- The lines of later polls are the same from either bridge. -/
def Hushed (b b' : Bridge Handle) : Prop := b'.watch = b.watch ∧ b'.probeFailing = b.probeFailing

theorem Hushed.refl (b : Bridge Handle) : Hushed b b := ⟨rfl, rfl⟩

theorem Hushed.trans {b b' b'' : Bridge Handle} (h : Hushed b b') (h' : Hushed b' b'') :
    Hushed b b'' := ⟨h'.1.trans h.1, h'.2.trans h.2⟩

theorem hushed_outcome (b : Bridge Handle) (index : ℕ) (result : Except (List String) Unit)
    (now : ℕ) : Hushed b (b.outcome index result now).1 := by
  unfold outcome
  split
  · exact .refl b
  · dsimp only
    split_ifs <;> exact ⟨rfl, rfl⟩

theorem hushed_introduce (b : Bridge Handle) (h : Headset) (reading : Reading) (now : ℕ)
    (a : Answers Handle) : Hushed b (b.introduce h reading now a).1 := by
  have hattach : Hushed b (b.attach h reading now a).1 := by
    unfold attach
    dsimp only
    split
    · exact ⟨rfl, rfl⟩
    · split <;> exact ⟨rfl, rfl⟩
  unfold introduce
  split
  · exact .refl b
  · dsimp only
    split <;> exact hattach

theorem hushed_present (b : Bridge Handle) (existing : Option ℕ) (h : Headset) (reading : Reading)
    (now : ℕ) (a : Answers Handle) : Hushed b (b.present existing h reading now a).1 := by
  unfold present
  split
  · exact hushed_introduce b h reading now a
  · dsimp only
    split
    · exact ⟨rfl, rfl⟩
    · refine .trans ?_ (hushed_outcome _ _ _ now)
      exact ⟨rfl, rfl⟩

theorem hushed_switchOff (b : Bridge Handle) (existing : Option ℕ) (now : ℕ) :
    Hushed b (b.switchOff existing now).1 := by
  unfold switchOff
  split
  · exact .refl b
  · dsimp only
    split <;> exact ⟨rfl, rfl⟩

theorem hushed_apply (b : Bridge Handle) (h : Headset) (now : ℕ) (a : Answers Handle) :
    Hushed b (b.apply h now a).1 := by
  cases hposition : b.batteries.position h.key with
  | none =>
      obtain ⟨reading, -, he⟩ | ⟨-, he⟩ := apply_absent_cases hposition now a
      · rw [he]
        exact hushed_introduce b h reading now a
      · rw [he]
        exact .refl b
  | some index =>
      have hseen (batteries : Batteries Handle) : Hushed b { b with batteries := batteries } :=
        ⟨rfl, rfl⟩
      simp only [apply, hposition]
      cases h.battery with
      | discharging percent => exact (hseen _).trans (hushed_present _ _ h _ now a)
      | charging level =>
          cases level with
          | some percent => exact (hseen _).trans (hushed_present _ _ h _ now a)
          | none =>
              dsimp only
              split
              · exact hseen _
              · exact (hseen _).trans (hushed_present _ _ h _ now a)
      | unavailable => exact hseen _
      | disconnected => exact (hseen _).trans (hushed_switchOff _ _ now)

theorem hushed_expire (b : Bridge Handle) (now : ℕ) : Hushed b (b.expire now).1 := by
  have hfrom (fuel : ℕ) : ∀ (index : ℕ) (b : Bridge Handle),
      Hushed b (expireFrom now fuel index b).1 := by
    induction fuel with
    | zero => exact fun index b => .refl b
    | succ fuel ih =>
        intro index b
        unfold expireFrom
        split
        · exact .refl b
        · split
          · exact ih _ b
          all_goals
            refine .trans ?_ (ih _ _)
            exact ⟨rfl, rfl⟩
  exact hfrom _ 0 b

theorem hushed_exec {ι : Type} {step : Bridge Handle → ι → Bridge Handle × List Event}
    (hstep : ∀ b i, Hushed b (step b i).1) (b : Bridge Handle) (is : List ι) :
    Hushed b (Runs.exec step b is).1 := by
  induction is generalizing b with
  | nil => exact .refl b
  | cons i is ih => exact (hstep b i).trans (ih _)

/-- After the poll is taken in, nothing in a tick touches them. -/
theorem hushed_tick (b : Bridge Handle) (t : Tick Handle) : Hushed (b.probed t) (b.tick t).1 := by
  have happlied : Hushed (b.probed t)
      (Runs.exec (applyOne t.now) (b.probed t) t.withBattery).1 :=
    hushed_exec (fun b polled => hushed_apply b polled.1 t.now polled.2) _ _
  have hnoted : Hushed _ (b.polled t).1 := happlied.trans ⟨rfl, rfl⟩
  exact hnoted.trans (hushed_expire _ t.now)

theorem hushed_wait (b : Bridge Handle) (w : Wait) : Hushed b (b.wait w).1 := by
  refine hushed_exec (fun b err => ?_) b w.errors
  unfold serve
  split
  · exact .refl b
  · exact hushed_outcome b _ _ err.now

/-! ## Runs -/

/-- The fields say what the polls so far found. -/
structure Attentive (history : List (Tick Handle)) (b : Bridge Handle) : Prop where
  watch : Debounce.Tracks summarySettle (findings history) b.watch
  failing : b.probeFailing = failing history

theorem findings_snoc (history : List (Tick Handle)) (t : Tick Handle) :
    findings (history ++ [t]) = findings history ++ t.found.toList := by
  cases h : t.found <;> simp [findings, h]

theorem failing_snoc (history : List (Tick Handle)) (t : Tick Handle) :
    failing (history ++ [t]) = t.failed.getD (failing history) := by
  cases h : t.failed <;> simp [failing, h]

theorem Attentive.hushed {history : List (Tick Handle)} {b b' : Bridge Handle}
    (h : Attentive history b) (hb : Hushed b b') : Attentive history b' :=
  ⟨hb.1 ▸ h.watch, hb.2.trans h.failing⟩

theorem probeFailing_announce (b : Bridge Handle) (summary : Summary) (now : ℕ) :
    (b.announce summary now).probeFailing = b.probeFailing := by
  unfold announce
  split
  · rfl
  · split
    · split_ifs <;> rfl
    · rfl

/-- Taking in a poll, by how it ended. -/
theorem Attentive.probed {history : List (Tick Handle)} {b : Bridge Handle}
    (h : Attentive history b) (t : Tick Handle) : Attentive (history ++ [t]) (b.probed t) := by
  cases hpoll : t.poll with
  | ok polled =>
      have hfound : t.found = some (.of (polled.map Prod.fst), t.now) := by simp [Tick.found, hpoll]
      have hfailed : t.failed = some false := by simp [Tick.failed, hpoll]
      have hobserved := (h.watch.observe (Summary.of (polled.map Prod.fst), t.now)).1
      rw [show b.watch = { b with probeFailing := false }.watch from rfl, watch_announce]
        at hobserved
      rw [Bridge.probed, hpoll]
      constructor
      · rw [findings_snoc, hfound]
        exact hobserved
      · rw [failing_snoc, probeFailing_announce, hfailed]
        rfl
  | error err =>
      have hfound : t.found = none := by simp [Tick.found, hpoll]
      have hsame : findings (history ++ [t]) = findings history := by simp [findings_snoc, hfound]
      by_cases hstopping : t.stopping
      · have hfailed : t.failed = none := by simp [Tick.failed, hpoll, hstopping]
        have hprobed : b.probed t = b := by simp [Bridge.probed, hpoll, hstopping]
        rw [hprobed]
        exact ⟨hsame ▸ h.watch, by simp [failing_snoc, hfailed, h.failing]⟩
      · have hfailed : t.failed = some true := by simp [Tick.failed, hpoll, hstopping]
        have hprobed : b.probed t = { b with probeFailing := true } := by
          simp [Bridge.probed, hpoll, hstopping]
        rw [hprobed]
        exact ⟨hsame ▸ h.watch, by simp [failing_snoc, hfailed]⟩

theorem attentive_run (config : Config) (inherited : List Handle) (inputs : List (Input Handle)) :
    Attentive (ticks inputs) (run config inherited inputs).1 := by
  induction inputs using List.reverseRecOn with
  | nil => exact ⟨⟨rfl, rfl⟩, rfl⟩
  | append_singleton inputs input ih =>
      rw [run, Runs.exec_snoc]
      cases input with
      | tick t =>
          rw [ticks_snoc]
          exact (ih.probed t).hushed (hushed_tick _ t)
      | wait w =>
          rw [ticks_wait]
          exact ih.hushed (hushed_wait _ w)

/-- A bridge that tracks its polls announces what they call for. -/
theorem Attentive.announces {history : List (Tick Handle)} {b : Bridge Handle}
    (h : Attentive history b) (o : Summary × ℕ) :
    b.announces o.1 o.2 = true ↔ Debounce.Lasts summarySettle (findings history) o ∧
      Debounce.settled summarySettle (findings history) ≠ some o.1 := by
  have hobserved := (h.watch.observe o).2
  rw [watch_announce] at hobserved
  constructor
  · intro ha
    by_contra hnot
    simp [ha, hnot] at hobserved
  · intro hcalled
    by_contra ha
    simp [ha, hcalled] at hobserved

/-- The lines a tick gives about its poll are the ones the polls before it call for,
in every run. -/
theorem lines_follow_polls (config : Config) (inherited : List Handle)
    (inputs : List (Input Handle)) (t : Tick Handle) :
    (run config inherited inputs).1.lines t = calledFor (ticks inputs) t := by
  have hattentive := attentive_run config inherited inputs
  unfold lines calledFor
  cases t.poll with
  | ok polled =>
      simp only [hattentive.failing, hattentive.announces (.of (polled.map Prod.fst), t.now)]
  | error err => simp only [hattentive.failing]

/-! ## The announcements of a run -/

/-- What a step announces, and when. -/
def announced (b : Bridge Handle) : Input Handle → Option (Summary × ℕ)
  | .tick t => t.found.filter fun o => b.announces o.1 o.2
  | .wait _ => none

def announcements (config : Config) (inherited : List Handle) (inputs : List (Input Handle)) :
    List (Summary × ℕ) :=
  Projections.views step announced (new config inherited) inputs

theorem announcements_eq_reports (config : Config) (inherited : List Handle)
    (inputs : List (Input Handle)) :
    announcements config inherited inputs =
      Debounce.reports summarySettle (findings (ticks inputs)) := by
  induction inputs using List.reverseRecOn with
  | nil => rfl
  | append_singleton inputs input ih =>
      rw [announcements, Projections.views_snoc, ← announcements, ih]
      cases input with
      | wait w => simp [ticks_wait, announced]
      | tick t =>
          have hattentive := attentive_run config inherited inputs
          rw [ticks_snoc, findings_snoc, announced]
          cases hfound : t.found with
          | none => simp
          | some o =>
              have ha := hattentive.announces o
              rw [Option.toList_some, Debounce.reports_snoc]
              rw [run] at ha
              simp only [Option.filter_some, ha]
              split <;> rfl

/-- While the clock does not run back, announcements are as far apart as a state has
to last, and no state is announced twice in a row. -/
theorem announcements_apart (config : Config) (inherited : List Handle)
    (inputs : List (Input Handle)) (hmono : (ticks inputs).Pairwise fun t u => t.now ≤ u.now) :
    ((announcements config inherited inputs).Pairwise fun o o' => o.2 + summarySettle ≤ o'.2) ∧
      (announcements config inherited inputs).IsChain fun o o' => o.1 ≠ o'.1 := by
  have hfound {t : Tick Handle} {o : Summary × ℕ} (ho : t.found = some o) : o.2 = t.now := by
    unfold Tick.found at ho
    split at ho
    · exact (Option.some.inj ho) ▸ rfl
    · cases ho
  have hfindings : (findings (ticks inputs)).Pairwise fun o o' => o.2 ≤ o'.2 := by
    refine List.pairwise_filterMap.2 (hmono.imp fun {t u} hle o ho o' ho' => ?_)
    rw [hfound ho, hfound ho']
    exact hle
  rw [announcements_eq_reports]
  exact ⟨Debounce.reports_apart hfindings, Debounce.reports_differ summarySettle _⟩

/-- Unplugged for a minute and plugged in again: two lines, well apart. -/
theorem announcements_apart_of_replug :
    let maxwell : Headset × Answers ℕ := (⟨"Maxwell", "Audeze Maxwell", 0x3329, 0x4b18, true,
      .discharging 80, none⟩, ⟨.ok 7, .ok (), .ok (some "hid-3329:4b18-battery"), .ok ()⟩)
    let poll (n : ℕ) (listed : List (Headset × Answers ℕ)) : Input ℕ :=
      .tick ⟨seconds n, false, .ok listed⟩
    let inputs := [poll 0 [maxwell], poll 3 [maxwell], poll 6 [maxwell], poll 9 [], poll 12 [maxwell],
      poll 60 [], poll 63 [], poll 66 []]
    announcements ⟨seconds 60, seconds 90, seconds 15, "/dev/uhid"⟩ [7] inputs =
        [(.online, seconds 6), (.noDevice, seconds 66)] ∧
      (announcements ⟨seconds 60, seconds 90, seconds 15, "/dev/uhid"⟩ [7] inputs).Pairwise
        fun o o' => o.2 + summarySettle ≤ o'.2 := by
  intro maxwell poll inputs
  refine ⟨by decide +kernel, (announcements_apart _ _ inputs ?_).1⟩
  decide +kernel

end HeadsetBattery.Bridge
