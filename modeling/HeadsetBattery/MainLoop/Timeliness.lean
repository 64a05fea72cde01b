import HeadsetBattery.Bridge.Silences
import HeadsetBattery.MainLoop.Pacing

/-!
# A silence ends in time

A battery whose headset stopped answering is polled again soon, so that its grace
spans several polls, and is judged soon after the grace is over. Both rest on how
far the loop gets from its last poll while a battery is unanswered.
-/
namespace HeadsetBattery.MainLoop

open Bridge

variable {Source World Handle : Type}

/-- How long things take: a poll `longest` at most, a wait its timeout, and everything
else the slack. The clock does not run backwards. -/
structure Punctual (longest slack : ℕ) (s : State Source Handle) (m : Moment World Handle) : Prop
    extends Onward s m where
  soon : s.started = true → m.now ≤ s.clock + slack
  poll : s.polls m = true → m.done ≤ m.now + longest
  wait : ∀ timeout ∈ s.timeout m, m.done ≤ m.now + timeout + slack

instance (longest slack : ℕ) (s : State Source Handle) (m : Moment World Handle) :
    Decidable (Punctual longest slack s m) :=
  decidable_of_iff (Onward s m ∧ (s.started = true → m.now ≤ s.clock + slack) ∧
      (s.polls m = true → m.done ≤ m.now + longest) ∧
      ∀ timeout ∈ s.timeout m, m.done ≤ m.now + timeout + slack)
    ⟨fun h => ⟨h.1, h.2.1, h.2.2.1, h.2.2.2⟩, fun h => ⟨h.toOnward, h.soon, h.poll, h.wait⟩⟩

/-- The longest time between two polls when a battery is unanswered after the first. -/
def longestRetry (longest slack : ℕ) : ℕ := longest + unansweredRetry + 3 * slack

/-- How far the loop may be from its last poll, at the instant `now`, when that left a
battery unanswered. -/
def State.retries (longest slack : ℕ) (s : State Source Handle) (now : ℕ) : Prop :=
  match s.phase with
  | .starting => False
  | .waiting deadline =>
      deadline ≤ now + longest + unansweredRetry ∧ s.clock ≤ deadline + slack
  | .stopping => s.clock ≤ now + longest + unansweredRetry + 3 * slack
  | _ => s.clock ≤ now + longest + unansweredRetry + 2 * slack

/-- The loop polls again soon while a battery is unanswered, and so far has. -/
structure Retries (longest slack : ℕ) (config : Config) (inherited : List Handle)
    (s : State Source Handle) (acts : List (Act Handle)) : Prop
    extends Drives config inherited s acts where
  retried : Retried (longestRetry longest slack) config inherited (inputs acts)
  next : ∀ t, (ticks (inputs acts)).getLast? = some t → s.bridge.unanswered = true →
    s.retries longest slack t.now

theorem State.retries_le {longest slack : ℕ} {s : State Source Handle} {now : ℕ}
    (h : s.retries longest slack now) :
    s.clock ≤ now + longest + unansweredRetry + 3 * slack := by
  cases hphase : s.phase with
  | starting => simp [State.retries, hphase] at h
  | waiting deadline =>
      simp only [State.retries, hphase] at h
      omega
  | polling =>
      simp only [State.retries, hphase] at h
      omega
  | stopping => simpa [State.retries, hphase] using h
  | ended result =>
      simp only [State.retries, hphase] at h
      omega

theorem nextDelay_unanswered (native : Bool) (config : Config) :
    nextDelay true native config ≤ unansweredRetry := Nat.min_le_left _ _

section Retries

variable {longest slack : ℕ} {config : Config} {inherited : List Handle}
  {s s' : State Source Handle} {acts acts' : List (Act Handle)}

theorem Retries.inStep (h : Retries longest slack config inherited s acts) :
    s.bridge.batteries.InStep := by
  have hrun := (run_keeps config inherited (inputs acts)).inStep
  obtain ⟨-, hbridge⟩ | ⟨-, hbridge⟩ := h.reached
  · rwa [hbridge]
  · rw [hbridge]
    exact Batteries.inStep_empty

/-- Acts without a poll or a wait. -/
theorem Retries.quiet (h : Retries longest slack config inherited s acts)
    (hdrives : Drives config inherited s' (acts ++ acts')) (hinputs : inputs acts' = [])
    (hretries : s'.bridge.unanswered = true → s.bridge.unanswered = true ∧
      ∀ now, s.retries longest slack now → s'.retries longest slack now) :
    Retries longest slack config inherited s' (acts ++ acts') := by
  have hsame : inputs (acts ++ acts') = inputs acts := by rw [inputs_append, hinputs, List.append_nil]
  refine ⟨hdrives, hsame ▸ h.retried, fun t ht hu => ?_⟩
  rw [hsame] at ht
  obtain ⟨hunanswered, hkept⟩ := hretries hu
  exact hkept t.now (h.next t ht hunanswered)

/-- Acts with a wait. -/
theorem Retries.waited (h : Retries longest slack config inherited s acts)
    (hdrives : Drives config inherited s' (acts ++ acts')) (w : Wait)
    (hinputs : inputs acts' = [.wait w]) (hbridge : s'.bridge = (s.bridge.wait w).1)
    (hretries : ∀ now, s.retries longest slack now → s'.retries longest slack now) :
    Retries longest slack config inherited s' (acts ++ acts') := by
  refine ⟨hdrives, ?_, fun t ht hu => ?_⟩
  · rw [inputs_append, hinputs]
    refine Traces.everywhere_append.2 ⟨h.retried, Traces.everywhere_singleton.2 ?_⟩
    intro u hu
    cases hu
  · rw [inputs_append, hinputs, ticks_wait] at ht
    rw [hbridge] at hu
    exact hretries t.now (h.next t ht (unanswered_before_wait h.inStep w hu))

theorem Retries.step (h : Retries longest slack config inherited s acts)
    {src : BatterySource Source World} {m : Moment World Handle} (hm : Punctual longest slack s m) :
    Retries longest slack config inherited (MainLoop.step src s m).1
      (acts ++ (MainLoop.step src s m).2) := by
  have hdrives := h.toDrives.step src m
  have hsteps := step_steps src s m
  generalize MainLoop.step src s m = next at hsteps hdrives ⊢
  obtain ⟨s', acts'⟩ := next
  cases hsteps with
  | starts phase =>
      refine h.quiet hdrives rfl fun hu => ⟨hu, fun now hretries => ?_⟩
      simp [State.retries, phase] at hretries
  | stops phase stop =>
      have hlater := hm.soon (by simp [State.started, phase])
      refine h.quiet hdrives rfl fun hu => ⟨hu, fun now hretries => ?_⟩
      simp only [State.retries, phase] at hretries ⊢
      omega
  | polls phase stop =>
      have hlater := hm.soon (by simp [State.started, phase])
      have hdone := hm.poll (by simp [State.polls, phase, stop])
      have hbridge := h.running (by simp [phase])
      have hinputs : inputs (acts ++ (Act.notified .watchdog m.now ::
          .polled (tickOf src s m) :: (s.bridge.tick (tickOf src s m)).2.map .did)) =
          inputs acts ++ [.tick (tickOf src s m)] := by
        simp [Act.input]
      refine ⟨hdrives, ?_, fun t ht hu => ?_⟩
      · rw [hinputs]
        refine Traces.everywhere_append.2 ⟨h.retried, Traces.everywhere_singleton.2 ?_⟩
        intro u hu t ht hunanswered
        obtain rfl := Input.tick.inj hu
        rw [List.append_nil] at ht hunanswered
        have hretries := h.next t ht (hbridge ▸ hunanswered)
        simp only [State.retries, phase] at hretries
        rw [now_tickOf, longestRetry]
        omega
      · rw [hinputs, ticks_snoc, List.getLast?_concat] at ht
        obtain rfl := Option.some.inj ht
        have hdelay : delayOf src s m ≤ unansweredRetry := by
          rw [delayOf, hu]
          exact nextDelay_unanswered _ _
        simp only [State.retries, now_tickOf]
        omega
  | resumes phase due =>
      have hlater := hm.soon (by simp [State.started, phase])
      refine h.quiet hdrives rfl fun hu => ⟨hu, fun now hretries => ?_⟩
      simp only [State.retries, phase] at hretries ⊢
      omega
  | @serves deadline phase stop early =>
      have hdone := hm.wait _ (s.timeout_of_waiting phase stop early)
      refine h.waited hdrives m.wait (by simp [Act.input]) rfl fun now hretries => ?_
      simp only [State.retries, phase] at hretries ⊢
      omega
  | @fails deadline err phase stop early =>
      have hdone := hm.wait _ (s.timeout_of_waiting phase stop early)
      refine h.waited hdrives m.wait (by simp [Act.input]) rfl fun now hretries => ?_
      simp only [State.retries, phase] at hretries ⊢
      omega
  | withdraws phase =>
      -- Without its batteries the bridge has none that is unanswered.
      refine h.quiet hdrives rfl fun hu => ?_
      simp [Bridge.shutdown, Bridge.unanswered, Batteries.empty] at hu
  | rests phase => simpa using h

/-- A battery that a step withdraws as silent was retried as often as its grace has
room for. -/
theorem Retries.patient (h : Retries longest slack config inherited s acts)
    {src : BatterySource Source World} {m : Moment World Handle} (hm : Punctual longest slack s m)
    (hincreasing : (ticks (inputs (acts ++ (MainLoop.step src s m).2))).Pairwise fun t u =>
      t.now < u.now) :
    Traces.Everywhere (fun pre act => ∀ key now, act = .did ⟨key, now, .removed .silent⟩ →
      config.offlineGrace + longestRetry longest slack <
        missed key (ticks (inputs (acts ++ pre))) * longestRetry longest slack)
      (MainLoop.step src s m).2 := by
  have hnext : Retries longest slack config inherited (MainLoop.step src s m).1
      (acts ++ (MainLoop.step src s m).2) := h.step hm
  replace hnext := hnext.retried
  have hsteps := step_steps src s m
  generalize MainLoop.step src s m = next at hsteps hincreasing hnext ⊢
  obtain ⟨s', acts'⟩ := next
  have hwait : ∀ act ∈ (s.bridge.wait m.wait).2.1.map (.did : Bridge.Event → Act Handle),
      ∀ key now, act ≠ .did ⟨key, now, .removed .silent⟩ := by
    rintro act hact key now rfl
    obtain ⟨e, he, heq⟩ := List.mem_map.1 hact
    obtain rfl := Act.did.inj heq
    exact wait_events_ne h.inStep m.wait _ he rfl
  cases hsteps with
  | starts phase => exact Traces.everywhere_singleton.2 fun key now he => by cases he
  | stops phase stop => exact Traces.everywhere_singleton.2 fun key now he => by cases he
  | polls phase stop =>
      have hbridge := h.running (by simp [phase])
      have hinputs : inputs (acts ++ (Act.notified .watchdog m.now ::
          .polled (tickOf src s m) :: (s.bridge.tick (tickOf src s m)).2.map .did)) =
          inputs acts ++ [.tick (tickOf src s m)] := by
        simp [Act.input]
      rw [hinputs] at hincreasing hnext
      rw [ticks_snoc] at hincreasing
      have hevery : Traces.Everywhere (fun pre act => ∀ key now,
          act = Act.did ⟨key, now, .removed .silent⟩ →
          config.offlineGrace + longestRetry longest slack <
            missed key (ticks (inputs (acts ++ pre))) * longestRetry longest slack)
          ([.notified .watchdog m.now, .polled (tickOf src s m)] ++
            (s.bridge.tick (tickOf src s m)).2.map .did) := by
        refine Traces.everywhere_append.2 ⟨Traces.everywhere_of_forall ?_, Traces.everywhere_map.2 ?_⟩
        · rintro act hact pre key now rfl
          simp at hact
        · rintro pre e post he key now hevent
          obtain rfl := Act.did.inj hevent
          have hexpired := expired_of_removed h.inStep (he ▸ List.mem_append_right _ (by simp) :
            ⟨key, now, .removed .silent⟩ ∈ (s.bridge.tick (tickOf src s m)).2)
          rw [hbridge] at hexpired
          have hmissed := missed_of_expired hnext hincreasing hexpired
          simpa [Act.input, ticks_snoc] using hmissed
      exact hevery
  | resumes phase due => exact Traces.everywhere_nil _
  | serves phase stop early =>
      refine Traces.everywhere_of_forall (List.forall_mem_cons.2 ⟨fun pre key now he => ?_, ?_⟩)
      · cases he
      · intro act hact pre key now he
        obtain hact | hact := List.mem_append.1 hact
        · exact absurd he (hwait act hact key now)
        · rw [List.mem_singleton.1 hact] at he
          cases he
  | fails err phase stop early =>
      refine Traces.everywhere_of_forall (List.forall_mem_cons.2 ⟨fun pre key now he => ?_, ?_⟩)
      · cases he
      · exact fun act hact pre key now he => absurd he (hwait act hact key now)
  | withdraws phase => exact Traces.everywhere_nil _
  | rests phase => exact Traces.everywhere_nil _

end Retries

section Runs

variable (src : BatterySource Source World) (source : Source) (config : Config)
  (inherited : List Handle) (longest slack : ℕ) {moments : List (Moment World Handle)}

theorem retries_run
    (hpunctual : Runs.Along (step src) (Punctual longest slack) (start source config inherited)
      moments) :
    Retries longest slack config inherited (run src source config inherited moments).1
      (run src source config inherited moments).2 :=
  Runs.exec_invariant_along (Retries longest slack config inherited)
    ⟨⟨.inl ⟨by simp [start], rfl⟩, rfl⟩, Traces.everywhere_nil _, fun t ht => by cases ht⟩
    (fun _ _ _ h hm => h.step hm) moments hpunctual

/-- The polls of a punctual run come at increasing instants. -/
theorem increasing_run
    (hpunctual : Runs.Along (step src) (Punctual longest slack) (start source config inherited)
      moments) (hsticky : Sticky moments) :
    (ticks (inputs (run src source config inherited moments).2)).Pairwise fun t u =>
      t.now < u.now := by
  have honward : Runs.Along (step src) Onward (start source config inherited) moments :=
    fun pre m post he => (hpunctual pre m post he).toOnward
  exact (apart_run src source config inherited honward hsticky).polls.imp fun h => by omega

/-- Whenever a battery is withdrawn as silent, its headset has left more polls in a row
without a usable level than fit into the grace when each comes as late as it may: a
single poll that goes unanswered withdraws nothing. -/
theorem retried_before_withdrawal
    (hpunctual : Runs.Along (step src) (Punctual longest slack) (start source config inherited)
      moments) (hsticky : Sticky moments) :
    Traces.Everywhere (fun pre act => ∀ key now, act = .did ⟨key, now, .removed .silent⟩ →
      config.offlineGrace + longestRetry longest slack <
        missed key (ticks (inputs pre)) * longestRetry longest slack)
      (run src source config inherited moments).2 := by
  refine Runs.exec_induction (fun pre m =>
      Runs.Along (step src) (Punctual longest slack) (start source config inherited) (pre ++ [m]) ∧
        Sticky (pre ++ [m]))
    (fun _ _ acts => Traces.Everywhere (fun pre act => ∀ key now,
      act = .did ⟨key, now, .removed .silent⟩ →
        config.offlineGrace + longestRetry longest slack <
          missed key (ticks (inputs pre)) * longestRetry longest slack) acts) ?_ ?_ moments ?_
  · exact Traces.everywhere_nil _
  · rintro pre m hold ⟨hpunctual, hsticky⟩
    have hincreasing := increasing_run src source config inherited longest slack hpunctual hsticky
    have hearlier := hpunctual.prefix
    rw [run, Runs.exec_snoc] at hincreasing
    exact Traces.everywhere_append.2 ⟨hold,
      (retries_run src source config inherited longest slack hearlier).patient
        (hpunctual pre m [] rfl) hincreasing⟩
  · rintro pre m post rfl
    rw [List.append_cons] at hpunctual hsticky
    have hearlier := hpunctual.prefix
    exact ⟨hearlier, (List.pairwise_append.1 hsticky).1⟩

/-- At no instant of a punctual run is there a battery whose headset has been silent for
much longer than its grace: the offline grace and one retry if the last poll listed it,
the missing grace and one retry since it was first not listed, and both graces and one
retry in any case. -/
theorem silence_ends_in_time
    (hpunctual : Runs.Along (step src) (Punctual longest slack) (start source config inherited)
      moments) (hsticky : Sticky moments) {key : String} {entry : Entry Handle}
    (hlive : (run src source config inherited moments).1.bridge.batteries.find? key = some entry)
    {silentSince : ℕ}
    (hsilence : silence key (ticks (inputs (run src source config inherited moments).2)) =
      some silentSince) :
    let done := run src source config inherited moments
    (absence key (ticks (inputs done.2)) = none →
      done.1.clock ≤ silentSince + config.offlineGrace + longestRetry longest slack) ∧
    (∀ gone, absence key (ticks (inputs done.2)) = some gone →
      done.1.clock ≤ gone + config.missingGrace + longestRetry longest slack) ∧
    done.1.clock ≤
      silentSince + config.offlineGrace + config.missingGrace + longestRetry longest slack := by
  intro done
  have hretries : Retries longest slack config inherited done.1 done.2 :=
    retries_run src source config inherited longest slack hpunctual
  have hincreasing := increasing_run src source config inherited longest slack hpunctual hsticky
  have hbridge : done.1.bridge = (Bridge.run config inherited (inputs done.2)).1 := by
    obtain ⟨-, hbridge⟩ | ⟨-, hbridge⟩ := hretries.reached
    · exact hbridge
    · -- Nothing is found once the batteries are withdrawn.
      have hnone : done.1.bridge.batteries.find? key = none := by rw [hbridge]; rfl
      rw [hnone] at hlive
      cases hlive
  have hfound := hbridge ▸ hlive
  have hclocked := (onClock_run config inherited hincreasing).clocked key entry hfound
  obtain ⟨t, hlast⟩ : ∃ t, (ticks (inputs done.2)).getLast? = some t := by
    refine Option.ne_none_iff_exists'.1 fun hnone => ?_
    rw [List.getLast?_eq_none_iff.1 hnone] at hsilence
    cases hsilence
  have hsilent := hclocked.silent.trans hsilence
  have hlag := State.retries_le (hretries.next t hlast
    (unanswered_of_find? hlive (by rw [hsilent]; rfl)))
  have hgap : longestRetry longest slack = longest + unansweredRetry + 3 * slack := rfl
  have hkept := withdrawal_eq_keep.1 (kept_run config inherited (inputs done.2) hlast hfound)
  rw [hsilent, hclocked.missing, since_some] at hkept
  cases hgone : absence key (ticks (inputs done.2)) with
  | none =>
      rw [hgone] at hkept
      have hzero : since none t.now = 0 := rfl
      refine ⟨fun _ => by omega, fun gone hsome => ?_, by omega⟩
      cases hsome
  | some gone =>
      rw [hgone, since_some] at hkept
      have hjudged := hclocked.judged silentSince gone hsilent (hclocked.missing.trans hgone)
      refine ⟨fun hnone => ?_, fun gone' he => ?_, by omega⟩
      · cases hnone
      · obtain rfl := Option.some.inj he
        omega

end Runs

/-- A headset that goes silent after its first poll, and is polled every three seconds
until its battery goes. -/
theorem retried_before_withdrawal_of_silence :
    let config : Config := ⟨seconds 3, seconds 10, seconds 30, "/dev/uhid"⟩
    let maxwell (state : BatteryState) : Headset :=
      ⟨"Maxwell", "Audeze Maxwell", 0x3329, 0x4b18, true, state, none⟩
    let script : Scripted :=
      ⟨.ok [maxwell (.discharging 80)] :: List.replicate 5 (.ok [maxwell .unavailable]), false⟩
    let turn (now : ℕ) : List (Moment Unit ℕ) := [.smooth now (now + 1),
      .smooth (now + 1) (now + 1 + seconds 3), .smooth (now + 2 + seconds 3) (now + 2 + seconds 3)]
    let moments := Moment.smooth 0 0 :: (List.range 6).flatMap fun n => turn (n * (seconds 3 + 2))
    let gone : Bridge.Event := ⟨"3329:4b18/Maxwell", 5 * (seconds 3 + 2), .removed .silent⟩
    ∃ pre post, (run scripted script config [7] moments).2 = pre ++ .did gone :: post ∧
      config.offlineGrace + longestRetry 1 1 <
        missed "3329:4b18/Maxwell" (ticks (inputs pre)) * longestRetry 1 1 := by
  intro config maxwell script turn moments gone
  have hgone : gone ∈ events (run scripted script config [7] moments).2 := by decide +kernel
  obtain ⟨pre, post, he⟩ := List.append_of_mem (mem_of_events hgone)
  have hpunctual : Runs.Along (step scripted) (Punctual 1 1) (start script config [7]) moments := by
    decide +kernel
  have hpatient := retried_before_withdrawal scripted script config [7] 1 1 hpunctual
    (by decide +kernel)
  exact ⟨pre, post, he, hpatient pre (.did gone) post he _ _ rfl⟩

/-- The same headset after its second unanswered poll. -/
theorem silence_ends_in_time_of_two_polls :
    let config : Config := ⟨seconds 3, seconds 10, seconds 30, "/dev/uhid"⟩
    let maxwell (state : BatteryState) : Headset :=
      ⟨"Maxwell", "Audeze Maxwell", 0x3329, 0x4b18, true, state, none⟩
    let script : Scripted := ⟨[.ok [maxwell (.discharging 80)], .ok [maxwell .unavailable],
      .ok [maxwell .unavailable]], false⟩
    let turn (now : ℕ) : List (Moment Unit ℕ) := [.smooth now (now + 1),
      .smooth (now + 1) (now + 1 + seconds 3), .smooth (now + 2 + seconds 3) (now + 2 + seconds 3)]
    let moments := Moment.smooth 0 0 :: (List.range 3).flatMap fun n => turn (n * (seconds 3 + 2))
    (run scripted script config [7] moments).1.clock ≤
      (seconds 3 + 2) + seconds 10 + longestRetry 1 1 := by
  intro config maxwell script turn moments
  have hsome : ((run scripted script config [7] moments).1.bridge.batteries.find?
      "3329:4b18/Maxwell").isSome = true := by decide +kernel
  obtain ⟨entry, hlive⟩ := Option.isSome_iff_exists.1 hsome
  have hends := silence_ends_in_time scripted script config [7] 1 1
    (by decide +kernel : Runs.Along (step scripted) (Punctual 1 1) (start script config [7]) moments)
    (by decide +kernel) hlive
    (by decide +kernel : silence "3329:4b18/Maxwell"
      (ticks (inputs (run scripted script config [7] moments).2)) = some (seconds 3 + 2))
  have hlisted : absence "3329:4b18/Maxwell"
      (ticks (inputs (run scripted script config [7] moments).2)) = none := by decide +kernel
  exact hends.1 hlisted

end HeadsetBattery.MainLoop
