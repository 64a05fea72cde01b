import HeadsetBattery.MainLoop.Cadence
import HeadsetBattery.Native

/-!
# The loop on the native reader

As long as no poll runs HeadsetControl the loop is the daemon on its native reader: its
polls, each with the waits up to the next, are the rounds of such a daemon, so that
whatever holds of every run of that one holds of the loop.
-/
namespace HeadsetBattery.MainLoop

open Bridge Source Maxwell

variable {Path Handle : Type} [LinearOrder Path]

/-- The rounds of a daemon on its native reader that a loop has gone through. -/
structure Rounds [ToString Path] (nativeInterval : ℕ) (s : State (Source Path) Handle)
    (acts : List (Act Handle)) (rounds : List (Native.Round Path Handle)) : Prop where
  backend : s.source.backend ≠ .headsetControl
  interval : s.source.nativeInterval = nativeInterval
  reader : s.source.reader = (Reader.run (rounds.map Native.Round.pass)).1
  inputs : inputs acts = Native.inputs Reader.new rounds
  cadence : ∀ round ∈ rounds,
    round.pass.interval = nativeInterval ∧ round.pass.listenFirst = listenFirst
  waiting : ∀ deadline, s.phase = .waiting deadline → rounds ≠ []

section Rounds

variable [ToString Path] {nativeInterval : ℕ} {s s' : State (Source Path) Handle}
  {acts acts' : List (Act Handle)} {rounds : List (Native.Round Path Handle)}

/-- Acts without a poll or a wait. -/
theorem Rounds.quiet (h : Rounds nativeInterval s acts rounds) (hsource : s'.source = s.source)
    (hinputs : MainLoop.inputs acts' = []) (hphase : ∀ deadline, s'.phase ≠ .waiting deadline) :
    Rounds nativeInterval s' (acts ++ acts') rounds where
  backend := hsource ▸ h.backend
  interval := hsource ▸ h.interval
  reader := hsource ▸ h.reader
  inputs := by rw [inputs_append, hinputs, List.append_nil, h.inputs]
  cadence := h.cadence
  waiting deadline he := absurd he (hphase deadline)

/-- A poll that runs the native reader alone starts a round. -/
theorem Rounds.polled (h : Rounds nativeInterval s acts rounds) (d : Decoding)
    {m : Moment (Meeting Path) Handle} (hran : (s.source.probe d m.world).2.ran = false)
    (hsource : s'.source = (s.source.probe d m.world).1)
    (hinputs : MainLoop.inputs acts' = [.tick (tickOf (batterySource d) s m)]) :
    Rounds nativeInterval s' (acts ++ acts')
      (rounds ++ [⟨s.source.pass m.world, m.now, m.stopping, m.answers, []⟩]) := by
  obtain ⟨hreader, hbackend, -, hinterval⟩ := reader_probe d h.backend m.world
  have htick : tickOf (batterySource d) s m =
      (⟨s.source.pass m.world, m.now, m.stopping, m.answers, []⟩ : Native.Round Path Handle).tick
        (Reader.headsets (s.source.reader.reconcile (s.source.pass m.world)).2) := by
    rw [tickOf, show ((batterySource d).probe s.source m.world).2 = _ from answer_probe d hran]
    rfl
  refine ⟨?_, ?_, ?_, ?_, ?_, fun _ _ => by simp⟩
  · rw [hsource, hbackend]
    exact h.backend
  · rw [hsource, hinterval]
    exact h.interval
  · rw [hsource, hreader, List.map_append, Reader.run, List.map_singleton, Runs.exec_snoc, h.reader,
      Reader.run]
  · rw [inputs_append, hinputs, h.inputs, Native.inputs_append, htick, h.reader, Reader.run]
    simp [Native.inputs]
  · intro round hround
    obtain hround | hround := List.mem_append.1 hround
    · exact h.cadence round hround
    · rw [List.mem_singleton.1 hround]
      exact ⟨h.interval, rfl⟩

/-- A wait makes the last round longer. -/
theorem Rounds.waited (h : Rounds nativeInterval s acts rounds) (hsource : s'.source = s.source)
    (hrounds : rounds ≠ []) (w : Wait) (hinputs : MainLoop.inputs acts' = [.wait w]) :
    ∃ rounds', Rounds nativeInterval s' (acts ++ acts') rounds' := by
  obtain ⟨before, round, rfl⟩ := List.eq_nil_or_concat rounds |>.resolve_left hrounds
  rw [List.concat_eq_append] at h
  refine ⟨before ++ [{ round with waits := round.waits ++ [w] }], ?_, ?_, ?_, ?_, ?_,
    fun _ _ => by simp⟩
  · exact hsource ▸ h.backend
  · exact hsource ▸ h.interval
  · rw [hsource, h.reader]
    simp
  · rw [inputs_append, hinputs, h.inputs]
    simp [Native.inputs_append, Native.inputs, Native.Round.tick]
  · intro round' hround'
    obtain hround' | hround' := List.mem_append.1 hround'
    · exact h.cadence round' (by simp [hround'])
    · rw [List.mem_singleton.1 hround']
      exact h.cadence round (by simp)

theorem Rounds.step (h : Rounds nativeInterval s acts rounds) (d : Decoding)
    {m : Moment (Meeting Path) Handle}
    (hran : s.polls m = true → (s.source.probe d m.world).2.ran = false) :
    ∃ rounds', Rounds nativeInterval (MainLoop.step (batterySource d) s m).1
      (acts ++ (MainLoop.step (batterySource d) s m).2) rounds' := by
  have hsteps := step_steps (batterySource d) s m
  generalize MainLoop.step (batterySource d) s m = next at hsteps ⊢
  obtain ⟨s', acts'⟩ := next
  cases hsteps with
  | starts phase => exact ⟨rounds, h.quiet rfl rfl (by simp)⟩
  | stops phase stop => exact ⟨rounds, h.quiet rfl rfl (by simp)⟩
  | polls phase stop =>
      exact ⟨_, h.polled d (hran (by simp [State.polls, phase, stop])) rfl (by simp [Act.input])⟩
  | resumes phase due => exact ⟨rounds, h.quiet rfl rfl (by simp)⟩
  | serves phase stop early =>
      exact h.waited rfl (h.waiting _ phase) m.wait (by simp [Act.input])
  | fails err phase stop early =>
      exact h.waited rfl (h.waiting _ phase) m.wait (by simp [Act.input])
  | withdraws phase => exact ⟨rounds, h.quiet rfl rfl (by simp)⟩
  | rests phase => exact ⟨rounds, by simpa using h⟩

end Rounds

/-- The loop refines the daemon on its native reader. Where a source does not use
HeadsetControl alone and no poll runs it, the loop has done what that daemon does in some
rounds at the source's cadence: their reader is the loop's, their bridge is the loop's
until it leaves, and so is what their bridge did. -/
theorem loop_is_native [ToString Path] (d : Decoding) (backend : Backend)
    (control : Headsetcontrol.HeadsetControl) (nativeInterval : ℕ) (config : Config)
    (inherited : List Handle) (moments : List (Moment (Meeting Path) Handle))
    (hbackend : backend ≠ .headsetControl)
    (hran : Runs.Along (MainLoop.step (batterySource d))
      (fun s m => s.polls m = true → (s.source.probe d m.world).2.ran = false)
      (start (Source.new backend control nativeInterval) config inherited) moments) :
    let done := run (batterySource d) (.new backend control nativeInterval) config inherited moments
    ∃ rounds : List (Native.Round Path Handle),
      (∀ round ∈ rounds,
        round.pass.interval = nativeInterval ∧ round.pass.listenFirst = listenFirst) ∧
      done.1.source.reader = (Native.run config inherited rounds).1.reader ∧
      events done.2 = (Native.run config inherited rounds).2 ∧
      (done.1.phase ≠ .ended (.ok ()) →
        done.1.bridge = (Native.run config inherited rounds).1.bridge) ∧
      (done.1.phase = .ended (.ok ()) →
        done.1.bridge = (Native.run config inherited rounds).1.bridge.shutdown) := by
  intro done
  obtain ⟨rounds, hrounds⟩ : ∃ rounds, Rounds nativeInterval done.1 done.2 rounds := by
    refine Runs.exec_invariant_along
      (fun s acts => ∃ rounds, Rounds nativeInterval s acts rounds) ?_ ?_ moments hran
    · exact ⟨[], hbackend, rfl, rfl, rfl, by simp, by simp [start]⟩
    · rintro m s acts ⟨rounds, h⟩ hm
      exact h.step d hm
  have hdrives := drives_run (batterySource d) (Source.new backend control nativeInterval) config
    inherited moments
  have hnative : Native.run config inherited rounds =
      (⟨(Reader.run (rounds.map Native.Round.pass)).1,
        (Bridge.run config inherited (inputs done.2)).1⟩,
        (Bridge.run config inherited (inputs done.2)).2) := by
    rw [hrounds.inputs]
    exact Native.exec_turn _ rounds
  refine ⟨rounds, hrounds.cadence, ?_, ?_, fun hphase => ?_, fun hphase => ?_⟩
  · rw [hnative, hrounds.reader]
  · rw [hnative]
    exact hdrives.did
  · rw [hnative]
    exact hdrives.running hphase
  · rw [hnative]
    exact hdrives.reached.elim (fun hrunning => absurd hphase hrunning.1) And.right

/-- One poll that hears a level, in a loop that may use either reader. -/
theorem loop_is_native_of_level :
    let d : Decoding := fun _ => .error "EOF while parsing a value"
    let source : Source ℕ := .new .auto ⟨"headsetcontrol", seconds 10⟩ (seconds 300)
    let config : Config := ⟨seconds 60, seconds 10, seconds 30, "/dev/uhid"⟩
    let moment (now done : ℕ) : Moment (Meeting ℕ) ℕ :=
      ⟨false, now, done, ⟨⟨[(.on 0x4b18 4, .fetching (batteryFrame 80) now)], false, now⟩, now,
        .error ["could not run headsetcontrol"]⟩, false,
        fun _ => ⟨.error "unused", .ok (), .ok (some "hid-0"), .ok ()⟩, ⟨[], .ok ()⟩⟩
    let moments := [moment 0 0, moment 0 1, moment 1 (1 + seconds 1)]
    let done := run (batterySource d) source config [7] moments
    events done.2 ≠ [] ∧
      ∃ rounds : List (Native.Round ℕ ℕ), events done.2 = (Native.run config [7] rounds).2 := by
  intro d source config moment moments done
  have hran : Runs.Along (MainLoop.step (batterySource d))
      (fun s m => s.polls m = true → (s.source.probe d m.world).2.ran = false)
      (start source config [7]) moments := by decide +kernel
  obtain ⟨rounds, -, -, hevents, -, -⟩ := loop_is_native d .auto ⟨"headsetcontrol", seconds 10⟩
    (seconds 300) config [7] moments (by decide) hran
  exact ⟨by decide +kernel, rounds, hevents⟩

end HeadsetBattery.MainLoop
