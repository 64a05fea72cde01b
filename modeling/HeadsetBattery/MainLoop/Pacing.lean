import HeadsetBattery.Bridge.Graces

/-!
# The daemon's loop

The loop polls, then waits until the next poll is due while the kernel is kept
answered, and tells the service manager that it is alive. It runs over any source
of readings. What it meets at one of its steps is an input: the stop flag as the
condition loads it, the instants the clock shows, what the source, the kernel and
uhid-battery answer. What it does is its trace.
-/
namespace HeadsetBattery.MainLoop

open Bridge

/-- How often the native reader is run. -/
def nativeTick : ℕ := seconds 1

/-- Once a poll goes unanswered, how soon to ask again. -/
def unansweredRetry : ℕ := seconds 3

/-- The longest a single wait may block. -/
def maxWait : ℕ := seconds 5

/-- How long to wait before the next poll. -/
def nextDelay (unanswered native : Bool) (config : Config) : ℕ :=
  let regular := if native then nativeTick else config.interval
  if unanswered then min unansweredRetry regular else regular

/-- Where the bridge gets its readings from: what a probe makes of the world it
meets, and whether the last one was answered by the native reader. -/
structure BatterySource (Source World : Type) where
  probe : Source → World → Source × Except (List String) (List Headset)
  lastProbeWasNative : Source → Bool

/-- A source that answers each probe with the next scripted reading, and with an empty
poll once the script runs out. -/
structure Scripted where
  answers : List (Except (List String) (List Headset))
  native : Bool

def scripted : BatterySource Scripted Unit where
  probe s _ :=
    match s.answers with
    | [] => (s, .ok [])
    | answer :: answers => ({ s with answers := answers }, answer)
  lastProbeWasNative s := s.native

/-- What the service manager is told. -/
inductive Notice where
  | ready
  | watchdog
  | stopping
  deriving DecidableEq, Repr

/-- What the loop does, in the order it does it: notices with their instant, the
poll or wait it makes of the bridge, and what the bridge does in it. -/
inductive Act (Handle : Type) where
  | notified (notice : Notice) (now : ℕ)
  | polled (t : Tick Handle)
  | waited (timeout : ℕ) (w : Wait)
  | did (e : Bridge.Event)

/-- What the loop meets at a step. An answer that is not asked for is not used. -/
structure Moment (World Handle : Type) where
  /-- The stop flag, as the condition of the loop loads it. -/
  stop : Bool
  /-- When the step starts: the instant of the poll, or of the look at the
  deadline. -/
  now : ℕ
  /-- When the poll or the wait of the step is over. -/
  done : ℕ
  world : World
  /-- The stop flag, as a failed reading loads it. -/
  stopping : Bool
  answers : ℕ → Answers Handle
  wait : Wait

/-- The poll of a step, on what the source reports. -/
def Moment.tick {World Handle : Type} (m : Moment World Handle)
    (reported : Except (List String) (List Headset)) : Tick Handle :=
  ⟨m.now, m.stopping, reported.map fun headsets =>
    headsets.zipIdx.map fun h => (h.1, m.answers h.2)⟩

/-- A step at which nothing fails. -/
def Moment.smooth {Handle : Type} (now done : ℕ) : Moment Unit Handle :=
  ⟨false, now, done, (), false, fun _ => ⟨.error "unused", .ok (), .ok (some "hid-0"), .ok ()⟩,
    ⟨[], .ok ()⟩⟩

/-- Where the loop is. -/
inductive Phase where
  | starting
  /-- At the condition of the outer loop: a poll is due. -/
  | polling
  /-- At the condition of the inner loop. -/
  | waiting (deadline : ℕ)
  /-- The outer loop is left: the batteries are yet to be withdrawn. -/
  | stopping
  | ended (result : Except (List String) Unit)

/-- The daemon between two steps, and the last instant it saw. -/
structure State (Source Handle : Type) where
  source : Source
  bridge : Bridge Handle
  phase : Phase
  clock : ℕ

variable {Source World Handle : Type}

def start (source : Source) (config : Config) (inherited : List Handle) : State Source Handle :=
  ⟨source, .new config inherited, .starting, 0⟩

/-- The poll of a step. -/
def tickOf (src : BatterySource Source World) (s : State Source Handle) (m : Moment World Handle) :
    Tick Handle :=
  m.tick (src.probe s.source m.world).2

@[simp] theorem now_tickOf (src : BatterySource Source World) (s : State Source Handle)
    (m : Moment World Handle) : (tickOf src s m).now = m.now := rfl

/-- How long after the poll of a step the next one is due. -/
def delayOf (src : BatterySource Source World) (s : State Source Handle) (m : Moment World Handle) :
    ℕ :=
  nextDelay (s.bridge.tick (tickOf src s m)).1.unanswered
    (src.lastProbeWasNative (src.probe s.source m.world).1) s.bridge.config

def poll (src : BatterySource Source World) (s : State Source Handle) (m : Moment World Handle) :
    State Source Handle × List (Act Handle) :=
  let ticked := s.bridge.tick (tickOf src s m)
  (⟨(src.probe s.source m.world).1, ticked.1, .waiting (m.done + delayOf src s m), m.done⟩,
    .notified .watchdog m.now :: .polled (tickOf src s m) :: ticked.2.map .did)

/-- A wait, until the deadline if that is not too far. -/
def serve (s : State Source Handle) (deadline : ℕ) (m : Moment World Handle) :
    State Source Handle × List (Act Handle) :=
  let timeout := min (deadline - m.now) maxWait
  let waited := s.bridge.wait m.wait
  match waited.2.2 with
  | .ok _ =>
      ({ s with bridge := waited.1, clock := m.done },
        .waited timeout m.wait :: waited.2.1.map .did ++ [.notified .watchdog m.done])
  | .error err =>
      ({ s with bridge := waited.1, phase := .ended (.error err), clock := m.done },
        .waited timeout m.wait :: waited.2.1.map .did)

/-- One step of `Bridge::run`. -/
def step (src : BatterySource Source World) (s : State Source Handle) (m : Moment World Handle) :
    State Source Handle × List (Act Handle) :=
  match s.phase with
  | .starting => ({ s with phase := .polling, clock := m.now }, [.notified .ready m.now])
  | .polling =>
      if m.stop then ({ s with phase := .stopping, clock := m.now }, [.notified .stopping m.now])
      else poll src s m
  | .waiting deadline =>
      if m.stop = true ∨ deadline < m.now then ({ s with phase := .polling, clock := m.now }, [])
      else serve s deadline m
  | .stopping =>
      ({ s with bridge := s.bridge.shutdown, phase := .ended (.ok ()), clock := m.now }, [])
  | .ended _ => (s, [])

def State.started (s : State Source Handle) : Bool :=
  match s.phase with
  | .starting => false
  | _ => true

/-- Whether a step polls. -/
def State.polls (s : State Source Handle) (m : Moment World Handle) : Bool :=
  match s.phase with
  | .polling => !m.stop
  | _ => false

/-- The timeout of the wait of a step, if it is one. -/
def State.timeout (s : State Source Handle) (m : Moment World Handle) : Option ℕ :=
  match s.phase with
  | .waiting deadline =>
      if m.stop = true ∨ deadline < m.now then none else some (min (deadline - m.now) maxWait)
  | _ => none

/-- A run of the daemon, from its start. -/
def run (src : BatterySource Source World) (source : Source) (config : Config)
    (inherited : List Handle) (moments : List (Moment World Handle)) :
    State Source Handle × List (Act Handle) :=
  Runs.exec (step src) (start source config inherited) moments

/-! ## What a step can do -/

inductive Steps (src : BatterySource Source World) (s : State Source Handle)
    (m : Moment World Handle) : State Source Handle → List (Act Handle) → Prop
  | starts (phase : s.phase = .starting) :
      Steps src s m { s with phase := .polling, clock := m.now } [.notified .ready m.now]
  | stops (phase : s.phase = .polling) (stop : m.stop = true) :
      Steps src s m { s with phase := .stopping, clock := m.now } [.notified .stopping m.now]
  | polls (phase : s.phase = .polling) (stop : m.stop = false) :
      Steps src s m
        ⟨(src.probe s.source m.world).1, (s.bridge.tick (tickOf src s m)).1,
          .waiting (m.done + delayOf src s m), m.done⟩
        (.notified .watchdog m.now :: .polled (tickOf src s m) ::
          (s.bridge.tick (tickOf src s m)).2.map .did)
  | resumes {deadline : ℕ} (phase : s.phase = .waiting deadline)
      (due : m.stop = true ∨ deadline < m.now) :
      Steps src s m { s with phase := .polling, clock := m.now } []
  | serves {deadline : ℕ} (phase : s.phase = .waiting deadline) (stop : m.stop = false)
      (early : m.now ≤ deadline) :
      Steps src s m { s with bridge := (s.bridge.wait m.wait).1, clock := m.done }
        (.waited (min (deadline - m.now) maxWait) m.wait ::
          ((s.bridge.wait m.wait).2.1.map .did ++ [.notified .watchdog m.done]))
  | fails {deadline : ℕ} (err : List String) (phase : s.phase = .waiting deadline)
      (stop : m.stop = false) (early : m.now ≤ deadline) :
      Steps src s m
        { s with bridge := (s.bridge.wait m.wait).1, phase := .ended (.error err), clock := m.done }
        (.waited (min (deadline - m.now) maxWait) m.wait :: (s.bridge.wait m.wait).2.1.map .did)
  | withdraws (phase : s.phase = .stopping) :
      Steps src s m
        { s with bridge := s.bridge.shutdown, phase := .ended (.ok ()), clock := m.now } []
  | rests {result : Except (List String) Unit} (phase : s.phase = .ended result) :
      Steps src s m s []

theorem step_steps (src : BatterySource Source World) (s : State Source Handle)
    (m : Moment World Handle) : Steps src s m (step src s m).1 (step src s m).2 := by
  unfold step
  cases hphase : s.phase with
  | starting => exact .starts hphase
  | polling =>
      cases hstop : m.stop with
      | true => exact .stops hphase hstop
      | false => exact .polls hphase hstop
  | waiting deadline =>
      by_cases hdue : m.stop = true ∨ deadline < m.now
      · simp only [if_pos hdue]
        exact .resumes hphase hdue
      · simp only [if_neg hdue]
        have hstop : m.stop = false := by
          cases h : m.stop <;> simp_all
        have hearly : m.now ≤ deadline := Nat.le_of_not_lt fun h => hdue (.inr h)
        simp only [serve]
        cases (s.bridge.wait m.wait).2.2 with
        | ok _ => exact .serves hphase hstop hearly
        | error err => exact .fails err hphase hstop hearly
  | stopping => exact .withdraws hphase
  | ended result => exact .rests hphase

theorem State.timeout_of_waiting (s : State Source Handle) {m : Moment World Handle} {deadline : ℕ}
    (phase : s.phase = .waiting deadline) (stop : m.stop = false) (early : m.now ≤ deadline) :
    min (deadline - m.now) maxWait ∈ s.timeout m := by
  have hearly : ¬deadline < m.now := by omega
  simp [State.timeout, phase, stop, hearly]

/-! ## What a trace says of the bridge -/

/-- What an act makes of the bridge. -/
def Act.input : Act Handle → Option (Input Handle)
  | polled t => some (.tick t)
  | waited _ w => some (.wait w)
  | _ => none

def Act.event : Act Handle → Option Bridge.Event
  | did e => some e
  | _ => none

/-- The polls and waits of a trace. -/
def inputs (acts : List (Act Handle)) : List (Input Handle) := acts.filterMap Act.input

/-- What the bridge did in a trace. -/
def events (acts : List (Act Handle)) : List Bridge.Event := acts.filterMap Act.event

@[simp] theorem inputs_nil : inputs ([] : List (Act Handle)) = [] := rfl

@[simp] theorem inputs_cons (act : Act Handle) (acts : List (Act Handle)) :
    inputs (act :: acts) = act.input.toList ++ inputs acts := by
  cases act <;> rfl

@[simp] theorem inputs_append (acts acts' : List (Act Handle)) :
    inputs (acts ++ acts') = inputs acts ++ inputs acts' := List.filterMap_append

@[simp] theorem inputs_did (es : List Bridge.Event) :
    inputs (es.map .did : List (Act Handle)) = [] := by
  simp [inputs, List.filterMap_map, Function.comp_def, Act.input]

@[simp] theorem events_nil : events ([] : List (Act Handle)) = [] := rfl

@[simp] theorem events_cons (act : Act Handle) (acts : List (Act Handle)) :
    events (act :: acts) = act.event.toList ++ events acts := by
  cases act <;> rfl

@[simp] theorem events_append (acts acts' : List (Act Handle)) :
    events (acts ++ acts') = events acts ++ events acts' := List.filterMap_append

@[simp] theorem events_did (es : List Bridge.Event) :
    events (es.map .did : List (Act Handle)) = es := by
  simp [events, List.filterMap_map, Function.comp_def, Act.event]

theorem mem_of_events {acts : List (Act Handle)} {e : Bridge.Event} (h : e ∈ events acts) :
    .did e ∈ acts := by
  obtain ⟨act, hact, he⟩ := List.mem_filterMap.1 h
  cases act with
  | did e' =>
      obtain rfl := Option.some.inj he
      exact hact
  | _ => cases he

/-! ## The loop drives the bridge -/

/-- The bridge is where the polls and waits of the trace take it, until every battery
is withdrawn at the end. -/
structure Drives (config : Config) (inherited : List Handle) (s : State Source Handle)
    (acts : List (Act Handle)) : Prop where
  reached : (s.phase ≠ .ended (.ok ()) ∧ s.bridge = (Bridge.run config inherited (inputs acts)).1) ∨
    s.phase = .ended (.ok ()) ∧
      s.bridge = (Bridge.run config inherited (inputs acts)).1.shutdown
  did : events acts = (Bridge.run config inherited (inputs acts)).2

section Drives

variable {config : Config} {inherited : List Handle} {s s' : State Source Handle}
  {acts acts' : List (Act Handle)}

theorem Drives.running (h : Drives config inherited s acts) (hphase : s.phase ≠ .ended (.ok ())) :
    s.bridge = (Bridge.run config inherited (inputs acts)).1 :=
  h.reached.elim (fun hbridge => hbridge.2) fun hended => absurd hended.1 hphase

/-- Acts that make no input of the bridge leave it alone. -/
theorem Drives.quiet (h : Drives config inherited s acts) (hphase : s.phase ≠ .ended (.ok ()))
    (hinputs : inputs acts' = []) (hevents : events acts' = [])
    (hleft : (s'.phase ≠ .ended (.ok ()) ∧ s'.bridge = s.bridge) ∨
      s'.phase = .ended (.ok ()) ∧ s'.bridge = s.bridge.shutdown) :
    Drives config inherited s' (acts ++ acts') := by
  rw [h.running hphase] at hleft
  exact ⟨by simpa [hinputs] using hleft, by simpa [hinputs, hevents] using h.did⟩

/-- Acts that are those of one input of the bridge. -/
theorem Drives.input (h : Drives config inherited s acts) (input : Input Handle)
    (hphase : s.phase ≠ .ended (.ok ())) (hinputs : inputs acts' = [input])
    (hevents : events acts' = (Bridge.step s.bridge input).2)
    (hleft : s'.phase ≠ .ended (.ok ())) (hbridge : s'.bridge = (Bridge.step s.bridge input).1) :
    Drives config inherited s' (acts ++ acts') := by
  have hrun : Bridge.run config inherited (inputs (acts ++ acts')) =
      ((Bridge.step s.bridge input).1,
        (Bridge.run config inherited (inputs acts)).2 ++ (Bridge.step s.bridge input).2) := by
    rw [inputs_append, hinputs, Bridge.run, Runs.exec_snoc, h.running hphase]
    rfl
  exact ⟨.inl ⟨hleft, by rw [hbridge, hrun]⟩, by rw [events_append, hevents, h.did, hrun]⟩

theorem Drives.step (h : Drives config inherited s acts) (src : BatterySource Source World)
    (m : Moment World Handle) :
    Drives config inherited (MainLoop.step src s m).1 (acts ++ (MainLoop.step src s m).2) := by
  have hsteps := step_steps src s m
  generalize MainLoop.step src s m = next at hsteps ⊢
  obtain ⟨s', acts'⟩ := next
  cases hsteps with
  | starts phase => exact h.quiet (by simp [phase]) rfl rfl (.inl ⟨by simp, rfl⟩)
  | stops phase stop => exact h.quiet (by simp [phase]) rfl rfl (.inl ⟨by simp, rfl⟩)
  | polls phase stop =>
      refine h.input (.tick (tickOf src s m)) (by simp [phase])
        ?_ ?_ (fun he => by cases he) rfl
      · simp [Act.input]
      · simp [Act.event, Bridge.step]
  | resumes phase due => exact h.quiet (by simp [phase]) rfl rfl (.inl ⟨by simp, rfl⟩)
  | serves phase stop early =>
      refine h.input (.wait m.wait) (by simp [phase]) ?_ ?_ (by simp [phase]) rfl
      · simp [Act.input]
      · simp [Act.event, Bridge.step]
  | fails err phase stop early =>
      refine h.input (.wait m.wait) (by simp [phase]) ?_ ?_ (by simp) rfl
      · simp [Act.input]
      · simp [Act.event, Bridge.step]
  | withdraws phase => exact h.quiet (by simp [phase]) rfl rfl (.inr ⟨rfl, rfl⟩)
  | rests phase => simpa using h

/-- Whatever the bridge does, its configuration stays. -/
theorem Drives.configured (h : Drives config inherited s acts) : s.bridge.config = config := by
  have hrun := (run_keeps config inherited (inputs acts)).config
  obtain ⟨-, hbridge⟩ | ⟨-, hbridge⟩ := h.reached
  · rw [hbridge, hrun]
    rfl
  · rw [hbridge]
    exact hrun

end Drives

/-! ## Polls are spaced -/

/-- The shortest the loop ever waits for the next poll. -/
def leastDelay (config : Config) : ℕ := min nativeTick (min unansweredRetry config.interval)

theorem leastDelay_le (unanswered native : Bool) (config : Config) :
    leastDelay config ≤ nextDelay unanswered native config := by
  simp only [leastDelay, nextDelay]
  cases unanswered <;> cases native <;> simp

/-- The clock does not run backwards. -/
structure Onward (s : State Source Handle) (m : Moment World Handle) : Prop where
  started : s.clock ≤ m.now
  ended : m.now ≤ m.done

instance (s : State Source Handle) (m : Moment World Handle) : Decidable (Onward s m) :=
  decidable_of_iff (s.clock ≤ m.now ∧ m.now ≤ m.done)
    ⟨fun h => ⟨h.1, h.2⟩, fun h => ⟨h.started, h.ended⟩⟩

/-- The flag stays up once it is. -/
def Sticky (moments : List (Moment World Handle)) : Prop :=
  moments.Pairwise fun m n => m.stop = true → n.stop = true

instance (moments : List (Moment World Handle)) : Decidable (Sticky moments) :=
  inferInstanceAs (Decidable (moments.Pairwise fun m n => m.stop = true → n.stop = true))

/-- How a poll at the instant `now` bounds the next one, which a raised flag rules
out. -/
def State.spaces (least : ℕ) (s : State Source Handle) (now : ℕ) : Prop :=
  match s.phase with
  | .starting => False
  | .polling => now + least < s.clock
  | .waiting deadline => now + least ≤ deadline
  | .stopping | .ended _ => True

/-- Polls are apart, and so will the next one be, unless the flag is up. -/
structure Apart (least : ℕ) (stopped : Prop) (s : State Source Handle) (acts : List (Act Handle)) :
    Prop where
  polls : (ticks (inputs acts)).Pairwise fun t u => t.now + least < u.now
  next : ¬stopped → ∀ t ∈ ticks (inputs acts), s.spaces least t.now

section Apart

variable {least : ℕ} {stopped : Prop} {s s' : State Source Handle} {acts acts' : List (Act Handle)}

/-- Acts with no poll among them. -/
theorem Apart.quiet {stopped' : Prop} (h : Apart least stopped s acts)
    (hticks : ticks (inputs acts') = []) (hstopped : stopped → stopped')
    (hspaces : ¬stopped' → ∀ now, s.spaces least now → s'.spaces least now) :
    Apart least stopped' s' (acts ++ acts') := by
  have hsame : ticks (inputs (acts ++ acts')) = ticks (inputs acts) := by
    rw [inputs_append, ticks_append, hticks, List.append_nil]
  refine ⟨hsame ▸ h.polls, fun hnot t ht => ?_⟩
  rw [hsame] at ht
  exact hspaces hnot t.now (h.next (fun hs => hnot (hstopped hs)) t ht)

theorem Apart.step (h : Apart least stopped s acts) (src : BatterySource Source World)
    {m : Moment World Handle} (hm : Onward s m) (hstop : stopped → m.stop = true)
    (hleast : ∀ unanswered native, least ≤ nextDelay unanswered native s.bridge.config) :
    Apart least (stopped ∨ m.stop = true) (MainLoop.step src s m).1
      (acts ++ (MainLoop.step src s m).2) := by
  have hsteps := step_steps src s m
  generalize MainLoop.step src s m = next at hsteps ⊢
  obtain ⟨s', acts'⟩ := next
  cases hsteps with
  | starts phase =>
      exact h.quiet rfl .inl fun _ now hspaces => by simp [State.spaces, phase] at hspaces
  | stops phase stop => exact h.quiet rfl .inl fun _ now _ => trivial
  | polls phase stop =>
      have hrunning : ¬stopped := fun hs => by simp [hstop hs] at stop
      have hafter : ∀ t ∈ ticks (inputs acts), t.now + least < m.now := by
        intro t ht
        have hspaces := h.next hrunning t ht
        simp only [State.spaces, phase] at hspaces
        exact Nat.lt_of_lt_of_le hspaces hm.started
      have hdeadline : m.now + least ≤ m.done + delayOf src s m :=
        Nat.add_le_add hm.ended (hleast _ _)
      have hticks : ticks (inputs (acts ++ (Act.notified .watchdog m.now ::
          .polled (tickOf src s m) :: (s.bridge.tick (tickOf src s m)).2.map .did))) =
          ticks (inputs acts) ++ [tickOf src s m] := by
        simp [Act.input, ticks]
      refine ⟨?_, fun _ t ht => ?_⟩
      · rw [hticks]
        exact List.pairwise_append.2 ⟨h.polls, List.pairwise_singleton _ _, by simpa using hafter⟩
      · rw [hticks] at ht
        obtain ht | ht := List.mem_append.1 ht
        · have := hafter t ht
          exact Nat.le_trans (by omega) hdeadline
        · rw [List.mem_singleton.1 ht]
          exact hdeadline
  | resumes phase due =>
      refine h.quiet rfl .inl fun hnot now hspaces => ?_
      have hlate := due.resolve_left fun hs => hnot (.inr hs)
      simp only [State.spaces, phase] at hspaces ⊢
      omega
  | serves phase stop early =>
      refine h.quiet (by simp [Act.input, ticks]) .inl fun _ now hspaces => ?_
      simpa [State.spaces, phase] using hspaces
  | fails err phase stop early =>
      exact h.quiet (by simp [Act.input, ticks]) .inl fun _ now _ => trivial
  | withdraws phase => exact h.quiet rfl .inl fun _ now _ => trivial
  | rests phase => exact h.quiet rfl .inl fun _ now hspaces => hspaces

end Apart

section Runs

variable (src : BatterySource Source World) (source : Source) (config : Config)
  (inherited : List Handle) {moments : List (Moment World Handle)}

theorem drives_run (moments : List (Moment World Handle)) :
    Drives config inherited (run src source config inherited moments).1
      (run src source config inherited moments).2 :=
  Runs.exec_invariant (Drives config inherited) ⟨.inl ⟨by simp [start], rfl⟩, rfl⟩
    (fun m _ _ h => h.step src m) moments

theorem apart_run (honward : Runs.Along (step src) Onward (start source config inherited) moments)
    (hsticky : Sticky moments) :
    Apart (leastDelay config) (∃ m ∈ moments, m.stop = true)
      (run src source config inherited moments).1 (run src source config inherited moments).2 := by
  refine Runs.exec_induction
    (fun pre m => Onward (run src source config inherited pre).1 m ∧
      ((∃ p ∈ pre, p.stop = true) → m.stop = true))
    (fun pre s acts => Apart (leastDelay config) (∃ p ∈ pre, p.stop = true) s acts) ?_ ?_ moments ?_
  · exact ⟨List.Pairwise.nil, fun _ t ht => by cases ht⟩
  · rintro pre m h ⟨hm, hstop⟩
    have hleast : ∀ unanswered native,
        leastDelay config ≤ nextDelay unanswered native
          (run src source config inherited pre).1.bridge.config := by
      rw [(drives_run src source config inherited pre).configured]
      exact fun unanswered native => leastDelay_le unanswered native config
    simpa [or_and_right, exists_or] using h.step src hm hstop hleast
  · rintro pre m post rfl
    refine ⟨honward pre m post rfl, fun ⟨p, hp, hpstop⟩ => ?_⟩
    exact (List.pairwise_append.1 hsticky).2.2 p hp m (by simp) hpstop

/-- A run of the loop is a run of the bridge on its polls and waits, until it withdraws
every battery at the end. Where the clock does not run backwards and the flag stays up
once it is, the polls come at instants that increase by more than the shortest delay:
a second, for an interval of a second or more. -/
theorem polls_drive_bridge (moments : List (Moment World Handle)) :
    Drives config inherited (run src source config inherited moments).1
        (run src source config inherited moments).2 ∧
      (Runs.Along (step src) Onward (start source config inherited) moments → Sticky moments →
        (ticks (inputs (run src source config inherited moments).2)).Pairwise fun t u =>
          t.now + leastDelay config < u.now) ∧
      (seconds 1 ≤ config.interval → leastDelay config = seconds 1) := by
  refine ⟨drives_run src source config inherited moments, fun honward hsticky =>
    (apart_run src source config inherited honward hsticky).polls, fun hinterval => ?_⟩
  have hretry : seconds 1 ≤ unansweredRetry := by decide
  exact Nat.min_eq_left (Nat.le_min.2 ⟨hretry, hinterval⟩)

end Runs

/-- A headset that answers at one poll and not at the next, a second later. -/
theorem polls_drive_bridge_of_two :
    let config : Config := ⟨seconds 60, seconds 10, seconds 30, "/dev/uhid"⟩
    let maxwell (state : BatteryState) : Headset :=
      ⟨"Maxwell", "Audeze Maxwell", 0x3329, 0x4b18, true, state, none⟩
    let script : Scripted := ⟨[.ok [maxwell (.discharging 80)], .ok [maxwell .unavailable]], true⟩
    let moments : List (Moment Unit ℕ) := [.smooth 0 0, .smooth 1 5, .smooth 6 (seconds 1 + 6),
      .smooth (seconds 1 + 7) (seconds 1 + 7), .smooth (seconds 1 + 8) (seconds 1 + 9)]
    (ticks (inputs (run scripted script config [7] moments).2)).map Tick.now =
        [1, seconds 1 + 8] ∧
      Drives config [7] (run scripted script config [7] moments).1
        (run scripted script config [7] moments).2 ∧
      ((ticks (inputs (run scripted script config [7] moments).2)).Pairwise fun t u =>
        t.now + seconds 1 < u.now) := by
  intro config maxwell script moments
  obtain ⟨hdrives, happart, hleast⟩ := polls_drive_bridge scripted script config [7] moments
  refine ⟨by decide +kernel, hdrives, ?_⟩
  rw [← hleast (by decide)]
  exact happart (by decide +kernel) (by decide +kernel)

end HeadsetBattery.MainLoop
