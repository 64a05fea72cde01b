import HeadsetBattery.MainLoop.Pacing

/-!
# What the service manager is told

One line says that the daemon is up, one goes out on every turn of either loop,
and one says that it is stopping, before the batteries are withdrawn; a loop that a
failed wait ends says nothing. Sending a line may fail, which is worth one warning
for as long as the daemon runs.
-/
namespace HeadsetBattery.MainLoop

open Bridge

/-! ## Sending -/

def Notice.text : Notice → String
  | ready => "READY=1"
  | watchdog => "WATCHDOG=1"
  | stopping => "STOPPING=1"

/-- The messages, as `sd_notify` spells them. -/
def Notice.message (notice : Notice) : String := notice.text ++ "\n"

/-- A connection to the service manager, or nothing, and whether a message has
failed to go out already. -/
structure Notifier where
  connected : Bool
  complained : Bool
  deriving DecidableEq, Repr

/-- What becomes of a message: it goes out, or the log says that it did not. -/
inductive Sent where
  | delivered (message : String)
  | warning (message : String) (err : String)
  | debug (err : String)
  deriving DecidableEq, Repr

def Sent.message? : Sent → Option String
  | delivered message => some message
  | _ => none

@[simp] theorem message?_delivered (message : String) :
    (Sent.delivered message).message? = some message := rfl

@[simp] theorem message?_warning (message err : String) :
    (Sent.warning message err).message? = none := rfl

@[simp] theorem message?_debug (err : String) : (Sent.debug err).message? = none := rfl

/-- Send a notice; the second part is what the socket answers, if there is one. -/
def Notifier.send (n : Notifier) (notice : Notice × Except String Unit) : Notifier × List Sent :=
  match n.connected, notice.2 with
  | false, _ => (n, [])
  | true, .ok _ => (n, [.delivered notice.1.message])
  | true, .error err =>
      if n.complained then (n, [.debug err])
      else ({ n with complained := true }, [.warning notice.1.text err])

/-- A notice that did not go out, and why. -/
def failure (notice : Notice × Except String Unit) : Option (Notice × String) :=
  match notice.2 with
  | .error err => some (notice.1, err)
  | .ok _ => none

/-- The messages the socket took. -/
def taken (sends : List (Notice × Except String Unit)) : List String :=
  (sends.filter fun notice => notice.2.isOk).map fun notice => notice.1.message

/-- What the log says of the messages it did not take: the first failure is the one
warned of, whatever fails later. -/
def complaints (sends : List (Notice × Except String Unit)) : List Sent :=
  ((sends.filterMap failure).take 1).map (fun failed => .warning failed.1.text failed.2) ++
    ((sends.filterMap failure).drop 1).map fun failed => .debug failed.2

theorem sent_later (sends : List (Notice × Except String Unit)) :
    (Runs.exec Notifier.send ⟨true, true⟩ sends).2.filterMap Sent.message? = taken sends ∧
      (Runs.exec Notifier.send ⟨true, true⟩ sends).2.filter (fun sent => sent.message?.isNone) =
        (sends.filterMap failure).map fun failed => .debug failed.2 := by
  induction sends with
  | nil => exact ⟨rfl, rfl⟩
  | cons notice sends ih =>
      obtain ⟨notice, err | _⟩ := notice
      · simpa [Runs.exec_cons, Notifier.send, failure, taken, List.filterMap_cons, List.filter_cons,
          Except.isOk, Except.toBool] using ih
      · simpa [Runs.exec_cons, Notifier.send, failure, taken, List.filterMap_cons, Except.isOk,
          Except.toBool] using ih

/-- Over a connected socket, what is delivered and what is complained of. -/
theorem sent_of_sends (sends : List (Notice × Except String Unit)) :
    (Runs.exec Notifier.send ⟨true, false⟩ sends).2.filterMap Sent.message? = taken sends ∧
      (Runs.exec Notifier.send ⟨true, false⟩ sends).2.filter (fun sent => sent.message?.isNone) =
        complaints sends := by
  induction sends with
  | nil => exact ⟨rfl, rfl⟩
  | cons notice sends ih =>
      obtain ⟨notice, err | _⟩ := notice
      · have hlater := sent_later sends
        simpa [Runs.exec_cons, Notifier.send, failure, complaints, taken, List.filterMap_cons,
          List.filter_cons, Except.isOk, Except.toBool] using hlater
      · simpa [Runs.exec_cons, Notifier.send, failure, complaints, taken, List.filterMap_cons,
          Except.isOk, Except.toBool] using ih

/-! ## The order of the notices -/

variable {Source World Handle : Type}

def Act.notice : Act Handle → Option Notice
  | notified notice _ => some notice
  | _ => none

/-- The notices of a trace. -/
def notices (acts : List (Act Handle)) : List Notice := acts.filterMap Act.notice

@[simp] theorem notices_nil : notices ([] : List (Act Handle)) = [] := rfl

@[simp] theorem notices_cons (act : Act Handle) (acts : List (Act Handle)) :
    notices (act :: acts) = act.notice.toList ++ notices acts := by
  cases act <;> rfl

@[simp] theorem notices_append (acts acts' : List (Act Handle)) :
    notices (acts ++ acts') = notices acts ++ notices acts' := List.filterMap_append

@[simp] theorem notices_did (es : List Bridge.Event) :
    notices (es.map .did : List (Act Handle)) = [] := by
  simp [notices, List.filterMap_map, Function.comp_def, Act.notice]

/-- The notices of a trace, each with what the socket answers to it. -/
def sends (answers : ℕ → Except String Unit) (acts : List (Act Handle)) :
    List (Notice × Except String Unit) :=
  (notices acts).zipIdx.map fun notice => (notice.1, answers notice.2)

/-- The last of the notices, once the loop has left for the flag. -/
def Phase.farewell : Phase → List Notice
  | .stopping | .ended (.ok _) => [.stopping]
  | _ => []

/-- The polls and waits the service manager has not heard of: the wait that failed. -/
def Phase.unheard : Phase → ℕ
  | .ended (.error _) => 1
  | _ => 0

/-- What has been told so far. -/
def Told (s : State Source Handle) (acts : List (Act Handle)) : Prop :=
  (s.phase = .starting ∧ acts = []) ∨
    s.phase ≠ .starting ∧ ∃ pings,
      notices acts = .ready :: List.replicate pings .watchdog ++ s.phase.farewell ∧
      pings + s.phase.unheard = (inputs acts).length

section Told

variable {s s' : State Source Handle} {acts acts' : List (Act Handle)}

/-- Some turns later: so many more pings, and what was not heard of. -/
theorem Told.later (h : Told s acts) (hphase : s.phase ≠ .starting) (hleft : s'.phase ≠ .starting)
    (hfarewell : s.phase.farewell = []) (pings : ℕ)
    (hnotices : notices acts' = List.replicate pings .watchdog ++ s'.phase.farewell)
    (hinputs : pings + s'.phase.unheard = (inputs acts').length + s.phase.unheard) :
    Told s' (acts ++ acts') := by
  obtain ⟨he, -⟩ | ⟨-, before, htold, hcount⟩ := h
  · exact absurd he hphase
  · refine .inr ⟨hleft, before + pings, ?_, ?_⟩
    · rw [notices_append, htold, hnotices, hfarewell, List.append_nil, List.cons_append,
        ← List.append_assoc, List.replicate_append_replicate]
      rfl
    · rw [inputs_append, List.length_append]
      omega

theorem Told.step (h : Told s acts) (src : BatterySource Source World) (m : Moment World Handle) :
    Told (MainLoop.step src s m).1 (acts ++ (MainLoop.step src s m).2) := by
  have hsteps := step_steps src s m
  generalize MainLoop.step src s m = next at hsteps ⊢
  obtain ⟨s', acts'⟩ := next
  cases hsteps with
  | starts phase =>
      obtain ⟨-, rfl⟩ | ⟨hne, -⟩ := h
      · exact .inr ⟨by simp, 0, by simp [Act.notice, Phase.farewell],
          by simp [Act.input, Phase.unheard]⟩
      · exact absurd phase hne
  | stops phase stop =>
      exact h.later (by simp [phase]) (by simp) (by simp [phase, Phase.farewell]) 0
        (by simp [Act.notice, Phase.farewell]) (by simp [phase, Act.input, Phase.unheard])
  | polls phase stop =>
      exact h.later (by simp [phase]) (by simp) (by simp [phase, Phase.farewell]) 1
        (by simp [Act.notice, Phase.farewell]) (by simp [phase, Act.input, Phase.unheard])
  | resumes phase due =>
      exact h.later (by simp [phase]) (by simp) (by simp [phase, Phase.farewell]) 0
        (by simp [Phase.farewell]) (by simp [phase, Phase.unheard])
  | serves phase stop early =>
      exact h.later (by simp [phase]) (by simp [phase]) (by simp [phase, Phase.farewell]) 1
        (by simp [phase, Act.notice, Phase.farewell]) (by simp [phase, Act.input, Phase.unheard])
  | fails err phase stop early =>
      exact h.later (by simp [phase]) (by simp) (by simp [phase, Phase.farewell]) 0
        (by simp [Act.notice, Phase.farewell]) (by simp [phase, Act.input, Phase.unheard])
  | withdraws phase =>
      obtain ⟨he, -⟩ | ⟨-, pings, htold, hcount⟩ := h
      · simp [phase] at he
      · refine .inr ⟨by simp, pings, ?_, ?_⟩
        · simpa [phase, Phase.farewell] using htold
        · simpa [phase, Phase.unheard] using hcount
  | rests phase => simpa using h

end Told

section Runs

variable (src : BatterySource Source World) (source : Source) (config : Config)
  (inherited : List Handle)

/-- The loop says that the daemon is up, then sends one ping for every poll and every wait
but one that failed, and last, only if it has left for the stop flag, that it is
stopping. Until it is over the batteries are those its polls and waits left, so that
none is withdrawn before that; and when it has ended without an error, all are. Over
a connected socket the service manager gets the messages the socket takes. -/
theorem notices_in_order (moments : List (Moment World Handle)) :
    let done := run src source config inherited moments
    Told done.1 done.2 ∧
      (done.1.phase ≠ .ended (.ok ()) →
        done.1.bridge = (Bridge.run config inherited (inputs done.2)).1) ∧
      (done.1.phase = .ended (.ok ()) → done.1.bridge.batteries = .empty) ∧
      ∀ answers,
        let sent := (Runs.exec Notifier.send ⟨true, false⟩ (sends answers done.2)).2
        sent.filterMap Sent.message? = taken (sends answers done.2) ∧
          sent.filter (fun sent => sent.message?.isNone) = complaints (sends answers done.2) := by
  intro done
  have hdrives : Drives config inherited done.1 done.2 :=
    drives_run src source config inherited moments
  refine ⟨Runs.exec_invariant Told (.inl ⟨rfl, rfl⟩) (fun m _ _ h => h.step src m) moments,
    hdrives.running, fun hended => ?_, fun answers => sent_of_sends _⟩
  obtain ⟨hrunning, -⟩ | ⟨-, hbridge⟩ := hdrives.reached
  · exact absurd hended hrunning
  · rw [hbridge]
    rfl

/-! ## The stop flag -/

/-- How many steps with the flag up it takes to end from here, at most. -/
def Phase.stepsLeft : Phase → ℕ
  | .ended _ => 0
  | .stopping => 1
  | .polling => 2
  | .starting | .waiting _ => 3

/-- The outer loop is left. -/
def Phase.Left (phase : Phase) : Prop := phase = .stopping ∨ ∃ result, phase = .ended result

theorem left_iff (phase : Phase) : phase.Left ↔ phase.stepsLeft ≤ 1 := by
  cases phase <;> simp [Phase.Left, Phase.stepsLeft]

theorem ended_iff (phase : Phase) : (∃ result, phase = .ended result) ↔ phase.stepsLeft = 0 := by
  cases phase <;> simp [Phase.stepsLeft]

theorem stepsLeft_le (phase : Phase) : phase.stepsLeft ≤ 3 := by
  cases phase <;> simp [Phase.stepsLeft]

/-- With the flag up, a step neither polls nor serves, and brings the end nearer. -/
theorem step_stopped (s : State Source Handle) {m : Moment World Handle} (hstop : m.stop = true) :
    inputs (step src s m).2 = [] ∧
      (step src s m).1.phase.stepsLeft ≤ s.phase.stepsLeft - 1 := by
  have hsteps := step_steps src s m
  generalize step src s m = next at hsteps ⊢
  obtain ⟨s', acts'⟩ := next
  cases hsteps with
  | starts phase => simp [phase, Phase.stepsLeft, Act.input]
  | stops phase stop => simp [phase, Phase.stepsLeft, Act.input]
  | polls phase stop => simp [hstop] at stop
  | resumes phase due => simp [phase, Phase.stepsLeft]
  | serves phase stop early => simp [hstop] at stop
  | fails err phase stop early => simp [hstop] at stop
  | withdraws phase => simp [phase, Phase.stepsLeft]
  | rests phase => exact ⟨rfl, by rw [show s'.phase = _ from phase]; exact Nat.zero_le _⟩

theorem exec_stopped (s : State Source Handle) {raised : List (Moment World Handle)}
    (hraised : ∀ m ∈ raised, m.stop = true) :
    inputs (Runs.exec (step src) s raised).2 = [] ∧
      (Runs.exec (step src) s raised).1.phase.stepsLeft ≤ s.phase.stepsLeft - raised.length := by
  induction raised generalizing s with
  | nil => exact ⟨rfl, Nat.le_refl _⟩
  | cons m raised ih =>
      obtain ⟨hinputs, hnearer⟩ := step_stopped src s (hraised m (by simp))
      obtain ⟨hrest, hlater⟩ := ih (step src s m).1 fun n hn => hraised n (by simp [hn])
      rw [Runs.exec_cons, inputs_append, hinputs, hrest]
      refine ⟨rfl, ?_⟩
      simp only [List.length_cons]
      omega

/-- Once the flag is up nothing is polled or served any more; two steps later the loop
is left, and another step later it has ended, wherever it was. -/
theorem raised_flag_ends (moments : List (Moment World Handle))
    {raised : List (Moment World Handle)} (hraised : ∀ m ∈ raised, m.stop = true) :
    inputs (run src source config inherited (moments ++ raised)).2 =
        inputs (run src source config inherited moments).2 ∧
      (2 ≤ raised.length → (run src source config inherited (moments ++ raised)).1.phase.Left) ∧
      (3 ≤ raised.length → ∃ result,
        (run src source config inherited (moments ++ raised)).1.phase = .ended result) := by
  rw [run, Runs.exec_append, ← run]
  generalize run src source config inherited moments = done
  obtain ⟨hinputs, hsteps⟩ := exec_stopped src done.1 hraised
  have hthree := stepsLeft_le done.1.phase
  refine ⟨by rw [inputs_append, hinputs, List.append_nil], fun hlength => ?_, fun hlength => ?_⟩
  · refine (left_iff _).2 (Nat.le_trans hsteps ?_)
    omega
  · refine (ended_iff _).2 (Nat.le_zero.1 (Nat.le_trans hsteps ?_))
    omega

end Runs

/-- The flag goes up while the loop waits for its second poll. -/
theorem raised_flag_ends_of_wait :
    let config : Config := ⟨seconds 60, seconds 10, seconds 30, "/dev/uhid"⟩
    let maxwell : Headset :=
      ⟨"Maxwell", "Audeze Maxwell", 0x3329, 0x4b18, true, .discharging 80, none⟩
    let script : Scripted := ⟨[.ok [maxwell]], true⟩
    let moments : List (Moment Unit ℕ) := [.smooth 0 0, .smooth 1 5, .smooth 6 (seconds 1)]
    let raised : List (Moment Unit ℕ) :=
      List.replicate 3 { Moment.smooth (seconds 1) 0 with stop := true }
    (run scripted script config [7] moments).1.bridge.batteries.len = 1 ∧
      ∃ result, (run scripted script config [7] (moments ++ raised)).1.phase = .ended result := by
  intro config maxwell script moments raised
  exact ⟨by decide +kernel, (raised_flag_ends scripted script config [7] moments
    (by simp [raised])).2.2 (by simp [raised])⟩

end HeadsetBattery.MainLoop
