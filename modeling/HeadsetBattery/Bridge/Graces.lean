import HeadsetBattery.Library.Streaks
import HeadsetBattery.Bridge.Custody

/-!
# The graces

A battery keeps two clocks, and they say what the polls since its creation said:
since when its headset gave no usable level, and since when it was not listed.
A battery comes with a usable level, so that what came before it does not count.
-/
namespace HeadsetBattery.Bridge

open Streaks

variable {Handle : Type}

namespace Tick

/-- The poll lists the headset with this key, with a battery. -/
def lists (t : Tick Handle) (key : String) : Bool :=
  t.withBattery.any fun polled => polled.1.key = key

/-- The poll has a usable level of the headset with this key: it is running on
battery, or charging with a level or without one. -/
def answers (t : Tick Handle) (key : String) : Bool :=
  t.withBattery.any fun polled => polled.1.key = key && polled.1.battery.answers

end Tick

/-- The ticks among the inputs of a run. -/
def ticks (inputs : List (Input Handle)) : List (Tick Handle) :=
  inputs.filterMap fun
    | .tick t => some t
    | .wait _ => none

/-- Since when the headset has given no usable level. -/
def silence (key : String) (history : List (Tick Handle)) : Option ℕ :=
  Streaks.since Tick.now (fun t => ¬t.answers key) history

/-- Since when the headset has not been listed. -/
def absence (key : String) (history : List (Tick Handle)) : Option ℕ :=
  Streaks.since Tick.now (fun t => ¬t.lists key) history

/-- The clocks of a battery, at the end of a tick, are those of the polls; a
headset that went missing had not outlived the offline grace by then. -/
structure Clocked (config : Config) (history : List (Tick Handle)) (key : String)
    (battery : VirtualBattery) : Prop where
  silent : battery.silentSince = silence key history
  missing : battery.missingSince = absence key history
  read : ∃ t ∈ history, battery.lastReading = t.now
  seen : ∃ t ∈ history, battery.lastSeen = t.now
  judged : ∀ start gone, battery.silentSince = some start → battery.missingSince = some gone →
    gone - start ≤ config.offlineGrace

/-- A battery in the middle of a tick, once some of the headsets are applied: what
its headset said among them, and the clocks of the last tick for the rest. -/
structure Applied (config : Config) (history : List (Tick Handle)) (now : ℕ)
    (done : List (Headset × Answers Handle)) (key : String) (battery : VirtualBattery) :
    Prop where
  read : (done.any fun polled => polled.1.key = key && polled.1.battery.answers) = true →
    battery.lastReading = now
  seen : (done.any fun polled => polled.1.key = key) = true → battery.lastSeen = now
  silent : (done.any fun polled => polled.1.key = key && polled.1.battery.answers) = false →
    battery.silentSince = silence key history ∧ ∃ t ∈ history, battery.lastReading = t.now
  missing : (done.any fun polled => polled.1.key = key) = false →
    battery.missingSince = absence key history ∧ ∃ t ∈ history, battery.lastSeen = t.now
  judged : (done.any fun polled => polled.1.key = key) = false →
    ∀ start gone, battery.silentSince = some start → battery.missingSince = some gone →
      gone - start ≤ config.offlineGrace

/-- A battery at the end of a poll, before it is judged. -/
structure Noted (config : Config) (history : List (Tick Handle)) (t : Tick Handle) (key : String)
    (battery : VirtualBattery) : Prop where
  silent : battery.silentSince = silence key (history ++ [t])
  missing : battery.missingSince = absence key (history ++ [t])
  read : ∃ u ∈ history ++ [t], battery.lastReading = u.now
  seen : ∃ u ∈ history ++ [t], battery.lastSeen = u.now
  judged : ∀ start gone, battery.silentSince = some start → battery.missingSince = some gone →
    gone - start ≤ config.offlineGrace ∨ gone = t.now

section Clocks

variable {config : Config} {history : List (Tick Handle)} {key : String}

theorem Clocked.applied {battery : VirtualBattery} (h : Clocked config history key battery)
    (now : ℕ) : Applied config history now [] key battery where
  read he := by simp at he
  seen he := by simp at he
  silent _ := ⟨h.silent, h.read⟩
  missing _ := ⟨h.missing, h.seen⟩
  judged _ := h.judged

/-- Applying one more headset. -/
theorem applied_applyOne {b : Bridge Handle} (hb : b.batteries.InStep) {now : ℕ}
    {done : List (Headset × Answers Handle)} {polled : Headset × Answers Handle}
    (h : ∀ entry, b.batteries.find? key = some entry →
      Applied config history now done key entry.2)
    {entry : Entry Handle} (hentry : (applyOne now b polled).1.batteries.find? key = some entry) :
    Applied config history now (done ++ [polled]) key entry.2 := by
  obtain ⟨left, deeds, htouches, hbecomes, -⟩ := applyOne_spec hb now polled
  by_cases hkey : key = polled.1.key
  · subst hkey
    rw [htouches.here] at hentry
    subst hentry
    cases hk : b.batteries.find? polled.1.key with
    | some before =>
        rw [hk] at hbecomes
        have hs := Entry.apply_survives (congrArg Prod.fst hbecomes)
        have hold := h before hk
        refine ⟨fun hread => ?_, fun _ => hs.lastSeen, fun hread => ?_, by simp, by simp⟩
        · rw [hs.lastReading]
          split
          next => rfl
          next hanswers =>
            refine hold.read ?_
            simpa [hanswers] using hread
        · have hquiet : polled.1.battery.answers = false ∧
              (done.any fun p => p.1.key = polled.1.key && p.1.battery.answers) = false := by
            simpa [and_comm] using hread
          rw [hs.silentSince, hs.lastReading, hquiet.1]
          exact hold.silent hquiet.2
    | none =>
        rw [hk] at hbecomes
        cases hbecomes with
        | battery handle offered attempts created =>
            have hanswers := BatteryState.answers_of_offer offered
            refine ⟨fun _ => rfl, fun _ => rfl, fun hread => ?_, by simp, by simp⟩
            simp [hanswers] at hread
  · rw [htouches.elsewhere hkey] at hentry
    have hold := h entry hentry
    have hother : decide (polled.1.key = key) = false := by simpa using Ne.symm hkey
    constructor <;> simp only [List.any_append, List.any_cons, List.any_nil, hother,
      Bool.false_and, Bool.or_false]
    · exact hold.read
    · exact hold.seen
    · exact hold.silent
    · exact hold.missing
    · exact hold.judged

theorem note_false (clock : Option ℕ) (now : ℕ) : note clock false now = some (clock.getD now) :=
  rfl

theorem silence_snoc (key : String) (history : List (Tick Handle)) (t : Tick Handle) :
    silence key (history ++ [t]) = note (silence key history) (t.answers key) t.now := by
  rw [silence, since_snoc, observe, note, silence]
  by_cases ht : t.answers key <;> simp [ht]

theorem absence_snoc (key : String) (history : List (Tick Handle)) (t : Tick Handle) :
    absence key (history ++ [t]) = note (absence key history) (t.lists key) t.now := by
  rw [absence, since_snoc, observe, note, absence]
  by_cases ht : t.lists key <;> simp [ht]

theorem lists_of_answers {t : Tick Handle} (h : t.answers key = true) : t.lists key = true := by
  obtain ⟨polled, hp, he⟩ := List.any_eq_true.1 h
  exact List.any_eq_true.2 ⟨polled, hp, by simp_all⟩

/-- Noting a clock at the end of a tick: the condition was fine at it if the tick is
when it was last fine. -/
theorem note_of_last {t : Tick Handle} (hbefore : ∀ u ∈ history, u.now < t.now)
    {clock streak : Option ℕ} {last : ℕ} {fine : Bool} (hnow : fine = true → last = t.now)
    (hold : fine = false → clock = streak ∧ ∃ u ∈ history, last = u.now) :
    note clock (last = t.now) t.now = note streak fine t.now ∧
      ∃ u ∈ history ++ [t], last = u.now := by
  cases fine with
  | true => exact ⟨by simp [note, hnow], t, by simp, hnow rfl⟩
  | false =>
      obtain ⟨hclock, u, hu, hlast⟩ := hold rfl
      have hne : last ≠ t.now := by
        have := hbefore u hu
        omega
      exact ⟨by simp [hne, hclock], u, by simp [hu], hlast⟩

/-- A tick that has applied every headset and noted the clocks. -/
theorem Applied.noted {t : Tick Handle} {battery : VirtualBattery}
    (hbefore : ∀ u ∈ history, u.now < t.now)
    (h : Applied config history t.now t.withBattery key battery) :
    Noted config history t key (noteClocks t.now battery) := by
  have hread : note battery.silentSince (battery.lastReading = t.now) t.now =
      silence key (history ++ [t]) ∧ ∃ u ∈ history ++ [t], battery.lastReading = u.now := by
    rw [silence_snoc]
    exact note_of_last hbefore h.read h.silent
  have hseen : note battery.missingSince (battery.lastSeen = t.now) t.now =
      absence key (history ++ [t]) ∧ ∃ u ∈ history ++ [t], battery.lastSeen = u.now := by
    rw [absence_snoc]
    exact note_of_last hbefore h.seen h.missing
  refine ⟨hread.1, hseen.1, hread.2, hseen.2, fun start gone hstart hgone => ?_⟩
  rw [show (noteClocks t.now battery).silentSince = _ from hread.1, silence_snoc] at hstart
  rw [show (noteClocks t.now battery).missingSince = _ from hseen.1, absence_snoc] at hgone
  cases hlists : t.lists key with
  | true => simp [hlists, note] at hgone
  | false =>
      have hanswers : t.answers key = false := by
        by_contra hne
        have := lists_of_answers (Bool.not_eq_false _ ▸ hne)
        simp [hlists] at this
      simp only [hanswers, note_false, Option.some.injEq] at hstart
      simp only [hlists, note_false, Option.some.injEq] at hgone
      obtain ⟨hmissing, -⟩ := h.missing hlists
      obtain ⟨hsilent, -⟩ := h.silent hanswers
      cases hgone' : absence key history with
      | none => exact .inr (by simpa [hgone'] using hgone.symm)
      | some gone' =>
          obtain rfl : gone' = gone := by simpa [hgone'] using hgone
          obtain ⟨u, hu, hnow⟩ := mem_of_since hgone'
          cases hstart' : silence key history with
          | none =>
              -- Silent from this tick on, which is not later than the absence.
              have hlt := hbefore u hu
              simp only [hstart', Option.getD_none] at hstart
              exact .inl (by omega)
          | some start' =>
              obtain rfl : start' = start := by simpa [hstart'] using hstart
              exact .inl (h.judged hlists _ _ (hsilent.trans hstart') (hmissing.trans hgone'))

theorem since_some (start now : ℕ) : since (some start) now = now - start := rfl

/-- A battery that was judged and kept. -/
theorem Noted.kept {t : Tick Handle} {battery : VirtualBattery}
    (h : Noted config history t key battery) (hkeep : outlived config battery t.now = .keep) :
    Clocked config (history ++ [t]) key battery where
  silent := h.silent
  missing := h.missing
  read := h.read
  seen := h.seen
  judged start gone hstart hgone := by
    obtain hle | rfl := h.judged start gone hstart hgone
    · exact hle
    · obtain ⟨hpositive, -⟩ | ⟨-, hsilent⟩ := withdrawal_eq_keep.1 hkeep
      · rw [hgone, since_some] at hpositive
        omega
      · rwa [hstart, since_some] at hsilent

end Clocks

/-! ## Runs -/

/-- Every battery is clocked by the ticks so far. -/
structure OnClock (config : Config) (inputs : List (Input Handle)) (b : Bridge Handle) : Prop where
  inStep : b.batteries.InStep
  configured : b.config = config
  clocked : ∀ key entry, b.batteries.find? key = some entry →
    Clocked config (ticks inputs) key entry.2

section Runs

variable {config : Config} {inputs : List (Input Handle)} {b : Bridge Handle} {t : Tick Handle}

theorem ticks_append (inputs inputs' : List (Input Handle)) :
    ticks (inputs ++ inputs') = ticks inputs ++ ticks inputs' := List.filterMap_append

theorem ticks_snoc (inputs : List (Input Handle)) (t : Tick Handle) :
    ticks (inputs ++ [.tick t]) = ticks inputs ++ [t] := by
  simp [ticks]

/-- The clocks in the state the batteries are judged in. -/
theorem OnClock.polled (h : OnClock config inputs b) (hbefore : ∀ u ∈ ticks inputs, u.now < t.now)
    {key : String} {entry : Entry Handle}
    (hentry : (b.polled t).1.batteries.find? key = some entry) :
    Noted config (ticks inputs) t key entry.2 := by
  rw [Bridge.polled, find?_noteAll] at hentry
  obtain ⟨before, hfound, rfl⟩ := Option.map_eq_some_iff.1 hentry
  refine Applied.noted hbefore ?_
  suffices happlied : (Runs.exec (applyOne t.now) (b.probed t) t.withBattery).1.batteries.InStep ∧
      ∀ entry, (Runs.exec (applyOne t.now) (b.probed t) t.withBattery).1.batteries.find? key =
        some entry → Applied config (ticks inputs) t.now t.withBattery key entry.2 by
    exact happlied.2 before hfound
  refine Runs.exec_history (fun done (st : Bridge Handle) _ => st.batteries.InStep ∧
    ∀ entry, st.batteries.find? key = some entry →
      Applied config (ticks inputs) t.now done key entry.2) ?_ ?_ t.withBattery
  · refine ⟨(probed_keeps h.inStep t).inStep, fun entry hentry => ?_⟩
    rw [(probed_batteries b t).1] at hentry
    exact (h.clocked key entry hentry).applied t.now
  · intro done polled happlied
    obtain ⟨hst, hclocks⟩ := happlied
    exact ⟨(applyOne_keeps t.now hst polled).inStep,
      fun entry hentry => applied_applyOne hst hclocks hentry⟩

theorem OnClock.tick (h : OnClock config inputs b) (hbefore : ∀ u ∈ ticks inputs, u.now < t.now) :
    OnClock config (inputs ++ [.tick t]) (b.tick t).1 := by
  have hpolled := polled_keeps h.inStep t
  have hexpired := expire_spec hpolled.inStep t.now
  refine ⟨hexpired.inStep, (hexpired.config.trans hpolled.config).trans h.configured, ?_⟩
  intro key entry hentry
  have hkept := (hexpired.find? key).symm.trans hentry
  obtain ⟨hfound, hverdict⟩ := Option.filter_eq_some_iff.1 hkept
  rw [hpolled.config, h.configured, decide_eq_true_eq] at hverdict
  rw [ticks_snoc]
  exact (h.polled hbefore hfound).kept hverdict

theorem OnClock.serve (h : OnClock config inputs b) (err : ServeError) :
    OnClock config inputs (serve b err).1 := by
  refine ⟨(serve_keeps h.inStep err).inStep,
    (serve_keeps h.inStep err).config.trans h.configured, fun key entry hentry => ?_⟩
  obtain he | ⟨before, hbefore, htouches, -⟩ := serve_spec h.inStep err
  · rw [he] at hentry
    exact h.clocked key entry hentry
  · rw [htouches.find?] at hentry
    split at hentry
    next hkey =>
      obtain ⟨failures, rfl, -⟩ := settle_eq_some hentry
      have hold := h.clocked _ _ hbefore
      rw [hkey]
      exact ⟨hold.silent, hold.missing, hold.read, hold.seen, hold.judged⟩
    next => exact h.clocked key entry hentry

/-- After any run whose ticks come at increasing instants. -/
theorem onClock_run (config : Config) (inherited : List Handle)
    (hincreasing : (ticks inputs).Pairwise fun t u => t.now < u.now) :
    OnClock config inputs (run config inherited inputs).1 := by
  refine Runs.exec_induction
    (fun inputs i => ∀ t, i = .tick t → ∀ u ∈ ticks inputs, u.now < t.now)
    (fun inputs b _ => OnClock config inputs b) ?_ ?_ inputs ?_
  · exact ⟨Batteries.inStep_empty, rfl, fun key entry hentry => by cases hentry⟩
  · intro inputs input h hbefore
    cases input with
    | tick t => exact h.tick (hbefore t rfl)
    | wait w =>
        have hsame : ticks (inputs ++ [.wait w]) = ticks inputs := by simp [ticks]
        have hserved := Runs.exec_invariant (fun b _ => OnClock config inputs b) h
          (fun err _ _ h => h.serve err) w.errors
        exact ⟨hserved.inStep, hserved.configured, hsame ▸ hserved.clocked⟩
  · rintro before input after rfl t rfl u hu
    rw [ticks_append] at hincreasing
    exact (List.pairwise_append.1 hincreasing).2.2 u hu t (by simp [ticks])

end Runs

/-! ## The graces apply -/

/-- `expire` withdraws the battery of this key at the tick `t`. -/
def Expired (b : Bridge Handle) (t : Tick Handle) (key : String) (cause : Cause) : Prop :=
  ⟨key, t.now, .removed cause⟩ ∈ ((b.polled t).1.expire t.now).2

theorem expired_iff {b : Bridge Handle} (hb : b.batteries.InStep) {t : Tick Handle} {key : String}
    {entry : Entry Handle} (hlive : (b.polled t).1.batteries.find? key = some entry)
    (cause : Cause) :
    b.Expired t key cause ↔ (outlived b.config entry.2 t.now).cause = some cause := by
  have hpolled := polled_keeps hb t
  have hkey := Batteries.key_of_find? hlive
  rw [Expired, (expire_spec hpolled.inStep t.now).events, hpolled.config]
  constructor
  · rintro ⟨other, cause', hother, hcause', he⟩
    obtain ⟨rfl, -, hremoved⟩ := Event.mk.inj he
    obtain rfl := Option.some.inj (hlive.symm.trans hother)
    rwa [Deed.removed.inj hremoved]
  · intro hcause
    exact ⟨entry, cause, hkey ▸ hlive, hcause, by rw [hkey]⟩

theorem lt_since_iff {grace now : ℕ} {clock : Option ℕ} :
    grace < since clock now ↔ ∃ start, clock = some start ∧ grace < now - start := by
  cases clock with
  | none => simp [since]
  | some start => simp [since]

section Graces

variable {config : Config} {history : List (Tick Handle)} {t : Tick Handle} {key : String}
  {battery : VirtualBattery}

theorem Noted.offline_lt_iff (h : Noted config history t key battery)
    (hincreasing : (history ++ [t]).Pairwise fun u v => u.now < v.now) (grace : ℕ) :
    grace < since battery.silentSince t.now ↔
      HeldFor Tick.now (fun u => ¬u.answers key) grace t.now (history ++ [t]) := by
  rw [lt_since_iff, h.silent, heldFor_iff (hincreasing.imp Nat.le_of_lt)]
  rfl

theorem Noted.missing_lt_iff (h : Noted config history t key battery)
    (hincreasing : (history ++ [t]).Pairwise fun u v => u.now < v.now) (grace : ℕ) :
    grace < since battery.missingSince t.now ↔
      HeldFor Tick.now (fun u => ¬u.lists key) grace t.now (history ++ [t]) := by
  rw [lt_since_iff, h.missing, heldFor_iff (hincreasing.imp Nat.le_of_lt)]
  rfl

/-- A headset that is listed is judged by its silence. -/
theorem Noted.outlived_of_lists (h : Noted config history t key battery)
    (hlists : t.lists key = true) :
    outlived config battery t.now =
      if config.offlineGrace < since battery.silentSince t.now then .silent else .keep := by
  have hmissing : since battery.missingSince t.now = 0 := by
    rw [h.missing, absence_snoc, hlists]
    rfl
  simp [outlived, withdrawal, hmissing]

/-- A headset missing for more than one poll is judged by its absence, and one that
just went missing is kept if it has not been silent for too long. -/
theorem Noted.outlived_of_missing (h : Noted config history t key battery)
    (hbefore : ∀ u ∈ history, u.now < t.now) (hlists : t.lists key = false)
    (hagain : (∃ u, history.getLast? = some u ∧ u.lists key = false) ∨
      ¬config.offlineGrace < since battery.silentSince t.now) :
    outlived config battery t.now =
      if config.missingGrace < since battery.missingSince t.now then .missing else .keep := by
  have hmissing := h.missing
  rw [absence_snoc, hlists, note_false] at hmissing
  cases habsence : absence key history with
  | some gone =>
      obtain ⟨u, hu, rfl⟩ := mem_of_since habsence
      have hlt := hbefore u hu
      have hpositive : 0 < since battery.missingSince t.now := by
        rw [hmissing, habsence]
        exact Nat.sub_pos_of_lt hlt
      simp [outlived, withdrawal, hpositive]
  | none =>
      have hzero : since battery.missingSince t.now = 0 := by
        rw [hmissing, habsence]
        exact Nat.sub_self t.now
      obtain ⟨u, hlast, hu⟩ | hshort := hagain
      · obtain ⟨rest, rfl⟩ := List.getLast?_eq_some_iff.1 hlast
        rw [absence_snoc, hu] at habsence
        cases habsence
      · simp [outlived, withdrawal, hzero, hshort]

end Graces

/-- What the graces do to a battery that is live when a tick judges it. If its
headset is listed, it is withdrawn, as silent, exactly when the headset has given
no usable level for longer than the offline grace, missing polls included. If it
is not listed, and was not at the tick before either or has not been silent for
that long, the battery is withdrawn, as missing, exactly when the headset has not
been listed for longer than the missing grace. -/
theorem graces_apply (config : Config) (inherited : List Handle) (inputs : List (Input Handle))
    (t : Tick Handle) (hincreasing : (ticks inputs ++ [t]).Pairwise fun u v => u.now < v.now)
    (key : String) (entry : Entry Handle)
    (hlive : ((run config inherited inputs).1.polled t).1.batteries.find? key = some entry) :
    (t.lists key = true →
      ((run config inherited inputs).1.Expired t key .silent ↔
        HeldFor Tick.now (fun u => ¬u.answers key) config.offlineGrace t.now
          (ticks inputs ++ [t])) ∧
      ¬(run config inherited inputs).1.Expired t key .missing) ∧
    (t.lists key = false →
      ((∃ u, (ticks inputs).getLast? = some u ∧ u.lists key = false) ∨
        ¬HeldFor Tick.now (fun u => ¬u.answers key) config.offlineGrace t.now
          (ticks inputs ++ [t])) →
      ((run config inherited inputs).1.Expired t key .missing ↔
        HeldFor Tick.now (fun u => ¬u.lists key) config.missingGrace t.now
          (ticks inputs ++ [t])) ∧
      ¬(run config inherited inputs).1.Expired t key .silent) := by
  have hclock := onClock_run config inherited (List.pairwise_append.1 hincreasing).1
  have hbefore : ∀ u ∈ ticks inputs, u.now < t.now := fun u hu =>
    (List.pairwise_append.1 hincreasing).2.2 u hu t (by simp)
  have hnoted := hclock.polled hbefore hlive
  simp only [expired_iff hclock.inStep hlive, hclock.configured]
  refine ⟨fun hlists => ?_, fun hlists hagain => ?_⟩
  · rw [hnoted.outlived_of_lists hlists, ← hnoted.offline_lt_iff hincreasing]
    split <;> simp_all [Withdrawal.cause]
  · rw [← hnoted.offline_lt_iff hincreasing] at hagain
    rw [hnoted.outlived_of_missing hbefore hlists hagain, ← hnoted.missing_lt_iff hincreasing]
    split <;> simp_all [Withdrawal.cause]

/-- A headset that stays listed and silent for eleven seconds, and one that is not listed
for thirty-one. -/
theorem graces_apply_of_silence :
    let config : Config := ⟨seconds 60, seconds 10, seconds 30, "/dev/uhid"⟩
    let answers : Answers ℕ := ⟨.error "unused", .ok (), .ok (some "hid-0"), .ok ()⟩
    let poll (now : ℕ) (states : List BatteryState) : Tick ℕ := ⟨seconds now, false, .ok
      (states.map fun state =>
        (⟨"Maxwell", "Audeze Maxwell", 0x3329, 0x4b18, true, state, none⟩, answers))⟩
    (run config [7] [.tick (poll 0 [.discharging 80]), .tick (poll 1 [.unavailable])]).1.Expired
        (poll 12 [.unavailable]) "3329:4b18/Maxwell" .silent ∧
      (run config [7] [.tick (poll 0 [.discharging 80]), .tick (poll 1 [])]).1.Expired
        (poll 32 []) "3329:4b18/Maxwell" .missing := by
  intro config answers poll
  constructor
  · have hsome : (((run config [7] [.tick (poll 0 [.discharging 80]),
        .tick (poll 1 [.unavailable])]).1.polled (poll 12 [.unavailable])).1.batteries.find?
          "3329:4b18/Maxwell").isSome := by decide +kernel
    obtain ⟨entry, hlive⟩ := Option.isSome_iff_exists.1 hsome
    have hgraces := graces_apply config [7]
      [.tick (poll 0 [.discharging 80]), .tick (poll 1 [.unavailable])] (poll 12 [.unavailable])
      (by decide +kernel) "3329:4b18/Maxwell" entry hlive
    refine (hgraces.1 (by decide +kernel)).1.2 ?_
    exact ⟨[poll 0 [.discharging 80]], poll 1 [.unavailable], [poll 12 [.unavailable]], rfl,
      by decide +kernel, by decide +kernel⟩
  · have hsome : (((run config [7] [.tick (poll 0 [.discharging 80]),
        .tick (poll 1 [])]).1.polled (poll 32 [])).1.batteries.find?
          "3329:4b18/Maxwell").isSome := by decide +kernel
    obtain ⟨entry, hlive⟩ := Option.isSome_iff_exists.1 hsome
    have hgraces := graces_apply config [7]
      [.tick (poll 0 [.discharging 80]), .tick (poll 1 [])] (poll 32 [])
      (by decide +kernel) "3329:4b18/Maxwell" entry hlive
    have hagain : ∃ u, (ticks [.tick (poll 0 [.discharging 80]), .tick (poll 1 [])]).getLast? =
        some u ∧ u.lists "3329:4b18/Maxwell" = false := ⟨poll 1 [], rfl, by decide +kernel⟩
    refine (hgraces.2 (by decide +kernel) (.inl hagain)).1.2 ?_
    exact ⟨[poll 0 [.discharging 80]], poll 1 [], [poll 32 []], rfl, by decide +kernel,
      by decide +kernel⟩

/-- A headset missing from a second on and listed again, without a level, at twelve
seconds is withdrawn at once: it was listed without a level at one tick only, and
it is not missing. -/
theorem graces_count_missing_polls :
    let config : Config := ⟨seconds 60, seconds 10, seconds 30, "/dev/uhid"⟩
    let answers : Answers ℕ := ⟨.error "unused", .ok (), .ok (some "hid-0"), .ok ()⟩
    let poll (now : ℕ) (states : List BatteryState) : Tick ℕ := ⟨seconds now, false, .ok
      (states.map fun state =>
        (⟨"Maxwell", "Audeze Maxwell", 0x3329, 0x4b18, true, state, none⟩, answers))⟩
    let inputs : List (Input ℕ) := [.tick (poll 0 [.discharging 80]), .tick (poll 1 [])]
    let t := poll 12 [.unavailable]
    (run config [7] inputs).1.Expired t "3329:4b18/Maxwell" .silent ∧
      ¬(t.lists "3329:4b18/Maxwell" = true ∧
          HeldFor Tick.now (fun u => u.lists "3329:4b18/Maxwell" = true ∧
            ¬u.answers "3329:4b18/Maxwell" = true) config.offlineGrace t.now (ticks inputs ++ [t]) ∨
        t.lists "3329:4b18/Maxwell" = false ∧
          HeldFor Tick.now (fun u => ¬u.lists "3329:4b18/Maxwell" = true) config.missingGrace t.now
            (ticks inputs ++ [t])) := by
  intro config answers poll inputs t
  refine ⟨by unfold Expired; decide +kernel, ?_⟩
  rintro (⟨-, hheld⟩ | ⟨hlists, -⟩)
  · obtain ⟨start, hstart, hlt⟩ := (heldFor_iff (by decide +kernel)).1 hheld
    have hlisted : Streaks.since Tick.now (fun u => u.lists "3329:4b18/Maxwell" = true ∧
        ¬u.answers "3329:4b18/Maxwell" = true) (ticks inputs ++ [t]) = some (seconds 12) := by
      decide +kernel
    obtain rfl := Option.some.inj (hlisted.symm.trans hstart)
    exact absurd hlt (by decide +kernel)
  · exact absurd hlists (by decide +kernel)

/-! ## No entry outlives both graces -/

/-- A battery that was judged and kept has not been silent for longer than the two
graces together. -/
theorem Noted.silent_le {config : Config} {history : List (Tick Handle)} {t : Tick Handle}
    {key : String} {battery : VirtualBattery} (h : Noted config history t key battery)
    (hkeep : outlived config battery t.now = .keep) {start : ℕ}
    (hstart : battery.silentSince = some start) :
    t.now - start ≤ config.offlineGrace + config.missingGrace := by
  obtain ⟨hpositive, hmissing⟩ | ⟨-, hsilent⟩ := withdrawal_eq_keep.1 hkeep
  · cases hgone : battery.missingSince with
    | none =>
        rw [hgone] at hpositive
        exact absurd hpositive (Nat.lt_irrefl 0)
    | some gone =>
        rw [hgone, since_some] at hpositive hmissing
        -- The silence before the absence, and the absence.
        have hsplit : t.now - start ≤ (gone - start) + (t.now - gone) := by omega
        obtain hle | rfl := h.judged start gone hstart hgone
        · omega
        · omega
  · rw [hstart, since_some] at hsilent
    omega

/-- At the end of a tick a live battery has just given a usable level, or the first
tick at which it gave none, with none since, is at most both graces ago. -/
theorem no_entry_outlives (config : Config) (inherited : List Handle)
    (inputs : List (Input Handle)) (t : Tick Handle)
    (hincreasing : (ticks inputs ++ [t]).Pairwise fun u v => u.now < v.now) (key : String)
    (entry : Entry Handle)
    (hlive : (run config inherited (inputs ++ [.tick t])).1.batteries.find? key = some entry) :
    t.answers key = true ∨ ∃ before s after, ticks inputs ++ [t] = before ++ s :: after ∧
      (∀ u ∈ s :: after, u.answers key = false) ∧
      (∀ u, before.getLast? = some u → u.answers key = true) ∧
      t.now - s.now ≤ config.offlineGrace + config.missingGrace := by
  have hclock := onClock_run config inherited (List.pairwise_append.1 hincreasing).1
  have hbefore : ∀ u ∈ ticks inputs, u.now < t.now := fun u hu =>
    (List.pairwise_append.1 hincreasing).2.2 u hu t (by simp)
  rw [run, Runs.exec_snoc] at hlive
  have hpolled := polled_keeps hclock.inStep t
  have hkept := ((expire_spec hpolled.inStep t.now).find? key).symm.trans hlive
  obtain ⟨hfound, hverdict⟩ := Option.filter_eq_some_iff.1 hkept
  rw [hpolled.config, hclock.configured, decide_eq_true_eq] at hverdict
  have hnoted := hclock.polled hbefore hfound
  cases hanswers : t.answers key with
  | true => exact .inl rfl
  | false =>
      right
      cases hsilence : silence key (ticks inputs ++ [t]) with
      | none =>
          rw [silence_snoc, hanswers] at hsilence
          cases hsilence
      | some start =>
          obtain ⟨before, s, after, hsplit, rfl, hall, hlast⟩ := streak_of_since hsilence
          exact ⟨before, s, after, hsplit, fun u hu => by simpa using hall u hu,
            fun u hu => by simpa using hlast u hu,
            hnoted.silent_le hverdict (hnoted.silent.trans hsilence)⟩

/-- Silent for seven seconds, then missing for twenty-eight, and still there. -/
theorem no_entry_outlives_of_absence :
    let config : Config := ⟨seconds 60, seconds 10, seconds 30, "/dev/uhid"⟩
    let answers : Answers ℕ := ⟨.error "unused", .ok (), .ok (some "hid-0"), .ok ()⟩
    let poll (now : ℕ) (states : List BatteryState) : Tick ℕ := ⟨seconds now, false, .ok
      (states.map fun state =>
        (⟨"Maxwell", "Audeze Maxwell", 0x3329, 0x4b18, true, state, none⟩, answers))⟩
    let inputs : List (Input ℕ) := [.tick (poll 0 [.discharging 80]),
      .tick (poll 5 [.unavailable]), .tick (poll 12 [])]
    (poll 40 []).answers "3329:4b18/Maxwell" = true ∨ ∃ before s after,
      ticks inputs ++ [poll 40 []] = before ++ s :: after ∧
        (∀ u ∈ s :: after, u.answers "3329:4b18/Maxwell" = false) ∧
        (∀ u, before.getLast? = some u → u.answers "3329:4b18/Maxwell" = true) ∧
        (poll 40 []).now - s.now ≤ config.offlineGrace + config.missingGrace := by
  intro config answers poll inputs
  have hsome : ((run config [7] (inputs ++ [.tick (poll 40 [])])).1.batteries.find?
      "3329:4b18/Maxwell").isSome := by decide +kernel
  obtain ⟨entry, hlive⟩ := Option.isSome_iff_exists.1 hsome
  exact no_entry_outlives config [7] inputs (poll 40 []) (by decide +kernel)
    "3329:4b18/Maxwell" entry hlive

end HeadsetBattery.Bridge
