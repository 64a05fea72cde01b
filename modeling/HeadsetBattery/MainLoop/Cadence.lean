import HeadsetBattery.Library.Projections
import HeadsetBattery.MainLoop.Timeliness
import HeadsetBattery.Source

/-!
# The cadence of the polls

How long after a poll the next one comes follows from the delay that the poll ended
with: any later poll comes after it, and the next one not much later. The delay
follows from which reader answered, so that a dongle is listened to every second, a
vanished one included, and HeadsetControl is spared.
-/
namespace HeadsetBattery.MainLoop

open Bridge

/-! ## From one poll to the next -/

section Between

variable {Source World Handle : Type} {src : BatterySource Source World} {s : State Source Handle} {m : Moment World Handle}

/-- The state a poll leaves. -/
theorem step_of_polls (src : BatterySource Source World) (h : s.polls m = true) :
    (step src s m).1.phase = .waiting (m.done + delayOf src s m) ∧
      (step src s m).1.clock = m.done ∧ s.phase = .polling ∧ m.stop = false := by
  cases hphase : s.phase with
  | polling =>
      have hstop : m.stop = false := by simpa [State.polls, hphase] using h
      refine ⟨?_, ?_, rfl, hstop⟩ <;> simp [step, poll, hphase, hstop]
  | starting => simp [State.polls, hphase] at h
  | waiting deadline => simp [State.polls, hphase] at h
  | stopping => simp [State.polls, hphase] at h
  | ended result => simp [State.polls, hphase] at h

/-- As long as the flag is down, a poll goes on bounding those after it. -/
theorem spaces_step {least now : ℕ} (h : s.spaces least now) (hm : Onward s m)
    (hstop : m.stop = false) : (step src s m).1.spaces least now := by
  have hstarted := hm.started
  have hended := hm.ended
  have hsteps := step_steps src s m
  generalize step src s m = next at hsteps ⊢
  obtain ⟨s', acts'⟩ := next
  cases hsteps with
  | starts phase => simp [State.spaces, phase] at h
  | stops phase stop => simp [hstop] at stop
  | polls phase stop =>
      simp only [State.spaces, phase] at h ⊢
      omega
  | resumes phase due =>
      have hlate := due.resolve_left (by simp [hstop])
      simp only [State.spaces, phase] at h ⊢
      omega
  | serves phase stop early => simpa [State.spaces, phase] using h
  | fails err phase stop early => trivial
  | withdraws phase => trivial
  | rests phase => exact h

theorem spaces_exec {least now : ℕ} {moments : List (Moment World Handle)}
    (h : s.spaces least now) (honward : Runs.Along (step src) Onward s moments)
    (hstop : ∀ m ∈ moments, m.stop = false) :
    (Runs.exec (step src) s moments).1.spaces least now := by
  induction moments generalizing s with
  | nil => exact h
  | cons m moments ih =>
      obtain ⟨hm, hrest⟩ := Runs.along_cons.1 honward
      obtain ⟨hfirst, hstop⟩ := List.forall_mem_cons.1 hstop
      exact ih (spaces_step h hm hfirst) hrest hstop

/-- How far the loop may be from a deadline until it polls again. -/
def State.due (slack deadline : ℕ) (s : State Source Handle) : Prop :=
  match s.phase with
  | .starting => False
  | .polling => s.clock ≤ deadline + 2 * slack
  | .waiting until' => until' = deadline ∧ s.clock ≤ deadline + slack
  | .stopping | .ended _ => True

/-- Until the next poll, the loop keeps to its deadline. -/
theorem due_step {longest slack deadline : ℕ} (h : s.due slack deadline)
    (hm : Punctual longest slack s m) (hpolls : s.polls m = false) :
    (step src s m).1.due slack deadline := by
  have hsteps := step_steps src s m
  generalize step src s m = next at hsteps ⊢
  obtain ⟨s', acts'⟩ := next
  cases hsteps with
  | starts phase => simp [State.due, phase] at h
  | stops phase stop => trivial
  | polls phase stop => simp [State.polls, phase, stop] at hpolls
  | resumes phase due =>
      have hlater := hm.soon (by simp [State.started, phase])
      simp only [State.due, phase] at h ⊢
      omega
  | serves phase stop early =>
      have hdone := hm.wait _ (s.timeout_of_waiting phase stop early)
      simp only [State.due, phase] at h ⊢
      omega
  | fails err phase stop early => trivial
  | withdraws phase => trivial
  | rests phase => exact h

theorem due_exec {longest slack deadline : ℕ} {moments : List (Moment World Handle)}
    (h : s.due slack deadline) (hpunctual : Runs.Along (step src) (Punctual longest slack) s moments)
    (hpolls : Runs.Along (step src) (fun s m => s.polls m = false) s moments) :
    (Runs.exec (step src) s moments).1.due slack deadline := by
  induction moments generalizing s with
  | nil => exact h
  | cons m moments ih =>
      obtain ⟨hm, hpunctual⟩ := Runs.along_cons.1 hpunctual
      obtain ⟨hquiet, hpolls⟩ := Runs.along_cons.1 hpolls
      exact ih (due_step h hm hquiet) hpunctual hpolls

end Between

section Polls

variable {Source World Handle : Type} (src : BatterySource Source World) {s : State Source Handle} {m m' : Moment World Handle}
  {between : List (Moment World Handle)}

/-- Any poll after a poll comes later than the delay that it ended with. -/
theorem later_poll {least : ℕ}
    (honward : Runs.Along (step src) Onward s (m :: (between ++ [m'])))
    (hsticky : Sticky (m :: (between ++ [m']))) (hpolls : s.polls m = true)
    (hpolls' : (Runs.exec (step src) s (m :: between)).1.polls m' = true)
    (hleast : least ≤ delayOf src s m) : m.now + least < m'.now := by
  obtain ⟨hm, hrest⟩ := Runs.along_cons.1 honward
  obtain ⟨hbetween, hlast⟩ := Runs.along_append.1 hrest
  obtain ⟨hwaiting, -, -, -⟩ := step_of_polls src hpolls
  obtain ⟨-, -, hphase', hstop'⟩ := step_of_polls src hpolls'
  have hstop : ∀ n ∈ between, n.stop = false := by
    intro n hn
    have hpairs := (List.pairwise_append.1 (List.pairwise_cons.1 hsticky).2).2.2 n hn m' (by simp)
    cases hnstop : n.stop with
    | true => simp [hpairs hnstop] at hstop'
    | false => rfl
  have hfirst : (step src s m).1.spaces least m.now := by
    have hended := hm.ended
    simp only [State.spaces, hwaiting]
    omega
  have hspaces := spaces_exec hfirst hbetween hstop
  have honward' := (Runs.along_cons.1 hlast).1.started
  simp only [Runs.exec_cons] at hphase'
  simp only [State.spaces, hphase'] at hspaces
  omega

/-- The next poll after a poll comes at most three slacks later than the delay that it
ended with. -/
theorem next_poll {longest slack : ℕ}
    (hpunctual : Runs.Along (step src) (Punctual longest slack) s (m :: (between ++ [m'])))
    (hpolls : s.polls m = true)
    (hbetween : Runs.Along (step src) (fun s m => s.polls m = false) (step src s m).1 between)
    (hpolls' : (Runs.exec (step src) s (m :: between)).1.polls m' = true) :
    m'.now ≤ m.now + longest + delayOf src s m + 3 * slack := by
  obtain ⟨hm, hrest⟩ := Runs.along_cons.1 hpunctual
  obtain ⟨hrest, hlast⟩ := Runs.along_append.1 hrest
  obtain ⟨hwaiting, hclock, -, -⟩ := step_of_polls src hpolls
  obtain ⟨-, -, hphase', -⟩ := step_of_polls src hpolls'
  have hdone := hm.poll hpolls
  have hfirst : (step src s m).1.due slack (m.done + delayOf src s m) := by
    unfold State.due
    rw [hwaiting, hclock]
    exact ⟨rfl, by omega⟩
  have hdue := due_exec hfirst hrest hbetween
  simp only [Runs.exec_cons] at hphase'
  simp only [State.due, hphase'] at hdue
  have hlater := (Runs.along_cons.1 hlast).1.soon (by simp [State.started, hphase'])
  omega

end Polls

/-! ## On either reader -/

open Source

variable {Path Handle : Type} [LinearOrder Path] [ToString Path]

/-- What the probes of a run did. -/
def probed (d : Decoding) (s : State (Source Path) Handle)
    (moments : List (Moment (Meeting Path) Handle)) : List (Probed Path) :=
  Projections.views (step (batterySource d))
    (fun s m => if s.polls m then some (s.source.probe d m.world).2 else none) s moments

/-- A punctual step, with the instant at which the reader has listened among those of
its poll. -/
structure Listens (longest slack : ℕ) (s : State (Source Path) Handle)
    (m : Moment (Meeting Path) Handle) : Prop extends Punctual longest slack s m where
  after : s.polls m = true → m.now ≤ m.world.listenedAt
  before : s.polls m = true → m.world.listenedAt ≤ m.done

instance (longest slack : ℕ) (s : State (Source Path) Handle) (m : Moment (Meeting Path) Handle) :
    Decidable (Listens longest slack s m) :=
  decidable_of_iff (Punctual longest slack s m ∧
      (s.polls m = true → m.now ≤ m.world.listenedAt) ∧
      (s.polls m = true → m.world.listenedAt ≤ m.done))
    ⟨fun h => ⟨h.1, h.2.1, h.2.2⟩, fun h => ⟨h.toPunctual, h.after, h.before⟩⟩

/-- The source remembers what it has met, and all of that is past. -/
structure Recalls (d : Decoding) (control : Headsetcontrol.HeadsetControl)
    (s : State (Source Path) Handle) (done : List (Probed Path)) : Prop where
  remembers : Remembers d control s.source done
  past : ∀ b ∈ done, b.met.listenedAt ≤ s.clock

theorem step_of_quiet {Source World : Type} (src : BatterySource Source World)
    {s : State Source Handle} {m : Moment World Handle} (h : s.polls m = false) :
    (step src s m).1.source = s.source := by
  have hsteps := step_steps src s m
  generalize step src s m = next at hsteps ⊢
  obtain ⟨s', acts'⟩ := next
  cases hsteps with
  | polls phase stop => simp [State.polls, phase, stop] at h
  | _ => rfl

theorem clock_step {Source World : Type} (src : BatterySource Source World)
    {s : State Source Handle} {m : Moment World Handle} (hm : Onward s m) :
    s.clock ≤ (step src s m).1.clock := by
  have hstarted := hm.started
  have hended := hm.ended
  have hsteps := step_steps src s m
  generalize step src s m = next at hsteps ⊢
  obtain ⟨s', acts'⟩ := next
  cases hsteps <;> simp only <;> omega

theorem Recalls.step {d : Decoding} {control : Headsetcontrol.HeadsetControl} {longest slack : ℕ}
    {s : State (Source Path) Handle} {done : List (Probed Path)} (h : Recalls d control s done)
    {m : Moment (Meeting Path) Handle} (hm : Listens longest slack s m) :
    Recalls d control (MainLoop.step (batterySource d) s m).1
      (done ++ (if s.polls m then some (s.source.probe d m.world).2 else none).toList) := by
  have hclock := clock_step (batterySource d) hm.toOnward
  cases hpolls : s.polls m with
  | false =>
      have hsource := step_of_quiet (batterySource d) hpolls
      simp only [Bool.false_eq_true, if_false, Option.toList_none, List.append_nil]
      exact ⟨hsource ▸ h.remembers, fun b hb => Nat.le_trans (h.past b hb) hclock⟩
  | true =>
      obtain ⟨-, hdone, hphase, hstop⟩ := step_of_polls (batterySource d) hpolls
      have hsource : (MainLoop.step (batterySource d) s m).1.source =
          (s.source.probe d m.world).1 := by
        simp [MainLoop.step, poll, hphase, hstop, batterySource]
      have hstarted := hm.started
      have hafter := hm.after hpolls
      have hlater : ∀ b ∈ done, b.met.listenedAt ≤ m.world.listenedAt := fun b hb => by
        have := h.past b hb
        omega
      simp only [if_true, Option.toList_some]
      refine ⟨hsource ▸ h.remembers.step hlater, fun b hb => ?_⟩
      rw [hdone]
      obtain hb | hb := List.mem_append.1 hb
      · exact Nat.le_trans (hlater b hb) (hm.before hpolls)
      · rw [List.mem_singleton.1 hb, met_probe]
        exact hm.before hpolls

theorem recalls_run (d : Decoding) (control : Headsetcontrol.HeadsetControl) (nativeInterval : ℕ)
    (config : Config) (inherited : List Handle) {longest slack : ℕ}
    {moments : List (Moment (Meeting Path) Handle)}
    (hlistens : Runs.Along (MainLoop.step (batterySource d)) (Listens longest slack)
      (start (Source.new .auto control nativeInterval) config inherited) moments) :
    Recalls d control
      (run (batterySource d) (.new .auto control nativeInterval) config inherited moments).1
      (probed d (start (.new .auto control nativeInterval) config inherited) moments) := by
  refine Runs.exec_induction
    (fun pre m => Listens longest slack
      (run (batterySource d) (.new .auto control nativeInterval) config inherited pre).1 m)
    (fun pre s _ => Recalls d control s
      (probed d (start (.new .auto control nativeInterval) config inherited) pre)) ?_ ?_ moments
    hlistens
  · refine ⟨⟨rfl, rfl, ?_, ?_, ?_, Traces.everywhere_nil _⟩, ?_⟩
    · intro seenAt he
      cases he
    · exact fun _ b hb => absurd hb (by simp [probed, Projections.views])
    · simp [probed, Projections.views]
    · simp [probed, Projections.views]
  · intro pre m h hm
    rw [probed, Projections.views_snoc]
    exact h.step hm

theorem nextDelay_native (unanswered : Bool) (config : Config) :
    nextDelay unanswered true config ≤ nativeTick := by
  cases unanswered <;> simp [nextDelay]

theorem le_nextDelay (unanswered : Bool) (config : Config) :
    min unansweredRetry config.interval ≤ nextDelay unanswered false config := by
  cases unanswered <;> simp [nextDelay]

/-- In a daemon that may use either reader, a dongle keeps its cadence and HeadsetControl
is spared. Let a poll list a dongle, or come within thirty seconds of one that did: then
the native reader answers it, and the next poll comes a second after it is over, but for
the slack. Any other poll runs HeadsetControl, and no poll after it comes before the
interval is over, or three seconds if that is less. -/
theorem dongle_keeps_cadence (d : Decoding) (control : Headsetcontrol.HeadsetControl)
    (nativeInterval : ℕ) (config : Config) (inherited : List Handle) (longest slack : ℕ)
    (before between : List (Moment (Meeting Path) Handle)) (m m' : Moment (Meeting Path) Handle)
    (hlistens : Runs.Along (MainLoop.step (batterySource d)) (Listens longest slack)
      (start (Source.new .auto control nativeInterval) config inherited)
      (before ++ m :: (between ++ [m'])))
    (hsticky : Sticky (before ++ m :: (between ++ [m'])))
    (hpolls : (run (batterySource d) (.new .auto control nativeInterval) config inherited
      before).1.polls m = true)
    (hpolls' : (run (batterySource d) (.new .auto control nativeInterval) config inherited
      (before ++ m :: between)).1.polls m' = true) :
    let s := (run (batterySource d) (.new .auto control nativeInterval) config inherited before).1
    let near := m.world.look.listed ≠ [] ∨
      ∃ b ∈ probed d (start (.new .auto control nativeInterval) config inherited) before,
        b.met.look.listed ≠ [] ∧ m.world.listenedAt < b.met.listenedAt + reenumerationGrace
    (near → (s.source.probe d m.world).2.ran = false ∧
      (Runs.Along (MainLoop.step (batterySource d)) (fun s m => s.polls m = false)
          (MainLoop.step (batterySource d) s m).1 between →
        m'.now ≤ m.now + longest + nativeTick + 3 * slack)) ∧
    (¬near → (s.source.probe d m.world).2.ran = true ∧
      m.now + min unansweredRetry config.interval < m'.now) := by
  intro s near
  obtain ⟨hbefore, hafter⟩ := Runs.along_append.1 hlistens
  have hrecalls := recalls_run d control nativeInterval config inherited hbefore
  have hm := (Runs.along_cons.1 hafter).1
  have hpolls' : (Runs.exec (MainLoop.step (batterySource d)) s (m :: between)).1.polls m' = true := by
    rw [run, Runs.exec_append] at hpolls'
    exact hpolls'
  have hstarted : s.clock ≤ m.now := hm.started
  have hpast : ∀ b ∈ probed d (start (.new .auto control nativeInterval) config inherited) before,
      b.met.listenedAt ≤ s.clock := hrecalls.past
  have hlater : ∀ b ∈ probed d (start (.new .auto control nativeInterval) config inherited) before,
      b.met.listenedAt ≤ m.world.listenedAt := fun b hb => by
    have := hpast b hb
    have := hm.after hpolls
    omega
  have hfalls := Traces.everywhere_singleton.1
    (Traces.everywhere_append.1 (hrecalls.remembers.step hlater).fallsBack).2
  have hran := hfalls.ran
  rw [met_probe, List.append_nil] at hran
  have hconfig : s.bridge.config = config :=
    (drives_run (batterySource d) (Source.new .auto control nativeInterval) config inherited
      before).configured
  have hdelay : delayOf (batterySource d) s m =
      nextDelay (s.bridge.tick (tickOf (batterySource d) s m)).1.unanswered
        (!(s.source.probe d m.world).2.ran) config := by
    rw [← native_probe, ← hconfig]
    rfl
  constructor
  · intro hnear
    have hnot : (s.source.probe d m.world).2.ran = false := by
      rw [← Bool.not_eq_true, hran]
      rintro ⟨hlisted, hold⟩
      obtain hlisted' | ⟨b, hb, hlisted', hgrace⟩ := hnear
      · exact hlisted' hlisted
      · have := hold b hb hlisted'
        omega
    refine ⟨hnot, fun hbetween => ?_⟩
    have hnext : m'.now ≤ m.now + longest + delayOf (batterySource d) s m + 3 * slack :=
      next_poll (batterySource d) (fun pre n post he => (hafter pre n post he).toPunctual) hpolls
        hbetween hpolls'
    have htick := nextDelay_native (s.bridge.tick (tickOf (batterySource d) s m)).1.unanswered config
    rw [hdelay, hnot, Bool.not_false] at hnext
    omega
  · intro hfar
    have hyes : (s.source.probe d m.world).2.ran = true := by
      refine hran.2 ⟨by_contra fun hlisted => hfar (.inl hlisted), fun b hb hlisted => ?_⟩
      by_contra hgrace
      exact hfar (.inr ⟨b, hb, hlisted, by omega⟩)
    have hleast : min unansweredRetry config.interval ≤ delayOf (batterySource d) s m := by
      rw [hdelay, hyes]
      exact le_nextDelay _ config
    exact ⟨hyes, later_poll (batterySource d)
      (fun pre n post he => (hafter pre n post he).toOnward) (List.pairwise_append.1 hsticky).2.1
      hpolls hpolls' hleast⟩

/-- A dongle that is listed at the first poll, and the poll a second later. -/
theorem dongle_keeps_cadence_of_dongle :
    let d : Decoding := fun _ => .error "EOF while parsing a value"
    let control : Headsetcontrol.HeadsetControl := ⟨"headsetcontrol", seconds 10⟩
    let config : Config := ⟨seconds 60, seconds 10, seconds 30, "/dev/uhid"⟩
    let moment (now done : ℕ) (listed : List (Maxwell.Dongle ℕ × Maxwell.Exchange ℕ)) :
        Moment (Meeting ℕ) ℕ :=
      ⟨false, now, done, ⟨⟨listed, false, now⟩, now, .error ["could not run headsetcontrol"]⟩, false,
        fun _ => ⟨.error "unused", .ok (), .ok (some "hid-0"), .ok ()⟩, ⟨[], .ok ()⟩⟩
    let m := moment 0 1 [(.on 0x4b18 4, .fetching Maxwell.silentFrame 0)]
    let between := [moment 1 (1 + seconds 1) [], moment (2 + seconds 1) (2 + seconds 1) []]
    let m' := moment (3 + seconds 1) (3 + seconds 1) []
    let s := (run (batterySource d) (.new .auto control (seconds 300)) config [7] [moment 0 0 []]).1
    (run (batterySource d) (.new .auto control (seconds 300)) config [7]
        ([moment 0 0 []] ++ m :: between)).1.polls m' = true ∧
      (s.source.probe d m.world).2.ran = false ∧ m'.now ≤ m.now + 1 + nativeTick + 3 * 1 := by
  intro d control config moment m between m' s
  have hlistens : Runs.Along (MainLoop.step (batterySource d)) (Listens 1 1)
      (start (Source.new .auto control (seconds 300)) config [7])
      ([moment 0 0 []] ++ m :: (between ++ [m'])) := by decide +kernel
  have hpolls : (run (batterySource d) (.new .auto control (seconds 300)) config [7]
      ([moment 0 0 []] ++ m :: between)).1.polls m' = true := by decide +kernel
  have hcadence := dongle_keeps_cadence d control (seconds 300) config [7] 1 1 [moment 0 0 []]
    between m m' hlistens (by decide +kernel) (by decide +kernel) hpolls
  obtain ⟨-, hnext⟩ := hcadence.1 (.inl (List.cons_ne_nil _ _))
  have hquiet : Runs.Along (MainLoop.step (batterySource d)) (fun s m => s.polls m = false)
      (MainLoop.step (batterySource d) s m).1 between := by decide +kernel
  exact ⟨hpolls, by decide +kernel, hnext hquiet⟩

end HeadsetBattery.MainLoop
