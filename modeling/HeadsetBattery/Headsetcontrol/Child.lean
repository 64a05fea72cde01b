import HeadsetBattery.Library.Pipes
import HeadsetBattery.Library.Utf8
import HeadsetBattery.Headsetcontrol

/-!
# Running HeadsetControl

The child writes to two pipes, a thread drains each of them, and the main thread
looks now and then whether the child is gone, whether the daemon is to stop and
whether the time is up. The four take their turns in any order, and a read may fail.
What the child has to write before it exits is taken from outside.
-/
namespace HeadsetBattery.Headsetcontrol

open Pipes

/-- Interval between two checks on a running child. -/
def reapInterval : ℕ := 25000000

/-- How much of the child's output an error message quotes. -/
def quotedOutput : ℕ := 200

inductive Stream where
  | stdout
  | stderr
  deriving DecidableEq, Repr

instance : Fintype Stream := ⟨{.stdout, .stderr}, fun stream => by cases stream <;> simp⟩

/-- What a finished child wrote. -/
structure Output where
  stdout : List Char
  stderr : List Char
  deriving DecidableEq, Repr

/-- A configured invocation. -/
structure HeadsetControl where
  binary : String
  timeout : ℕ

/-- Where the main thread is: in its loop, asleep until an instant, waiting for a
drain to finish, or done. -/
inductive Stage where
  | watching (asleep : ℕ)
  | joining (stream : Stream)
  | returned (result : Except (List String) Output)

/-- A child that was spawned, with the threads of the daemon that have to do with
it. -/
structure Running where
  pipes : Net Stream UInt8
  stage : Stage
  deadline : ℕ

/-- What the main thread meets when it looks at the child. -/
structure Look where
  now : ℕ
  stop : Bool
  waited : Except String Unit

inductive Move where
  | thread (turn : Turn Stream)
  | main (look : Look)

/-- `{:?}` of a duration with some digits after the point, in a unit. -/
def debugDecimal (whole part digits : ℕ) (unit : String) : String :=
  let fraction := (part + 10 ^ digits).repr.toList.tail.reverse.dropWhile (fun c => c = '0')
  if fraction.isEmpty then whole.repr ++ unit
  else whole.repr ++ "." ++ String.ofList fraction.reverse ++ unit

/-- `{:?}` of a duration. -/
def debugDuration (duration : ℕ) : String :=
  if seconds 1 ≤ duration then
    debugDecimal (duration / 1000000000) (duration % 1000000000) 9 "s"
  else if 1000000 ≤ duration then
    debugDecimal (duration / 1000000) (duration % 1000000) 6 "ms"
  else if 1000 ≤ duration then debugDecimal (duration / 1000) (duration % 1000) 3 "µs"
  else debugDecimal duration 0 0 "ns"

example : debugDuration (seconds 10) = "10s" ∧ debugDuration 2500000 = "2.5ms" := by decide +kernel

namespace Running

def start (hc : HeadsetControl) (written : List (Stream × UInt8)) (now : ℕ) : Running :=
  ⟨.new written, .watching now, now + hc.timeout⟩

/-- Kill and reap the child. Its drains are left to themselves. -/
def kill (r : Running) (err : String) : Running :=
  { r with pipes := { r.pipes with gone := true }, stage := .returned (.error [err]) }

/-- One turn of the loop. -/
def watch (hc : HeadsetControl) (r : Running) (look : Look) : Running :=
  match look.waited with
  | .error err => { r with stage := .returned (.error ["waiting for headsetcontrol", err]) }
  | .ok _ =>
      if r.pipes.gone then { r with stage := .joining .stdout }
      else if look.stop then r.kill ("stopped while waiting for " ++ hc.binary)
      else if r.deadline ≤ look.now then
        r.kill (hc.binary ++ " did not answer within " ++ debugDuration hc.timeout)
      else { r with stage := .watching (look.now + reapInterval) }

/-- What the thread that drains a stream gives: what it has read, lossily as text. A read
error ends the stream like its end. -/
def drain (r : Running) (stream : Stream) : List Char := Utf8.decode (r.pipes.got stream)

/-- What both threads give. -/
def output (r : Running) : Output := ⟨r.drain .stdout, r.drain .stderr⟩

/-- A turn of the main thread. -/
def main (hc : HeadsetControl) (r : Running) (look : Look) : Running :=
  match r.stage with
  | .watching asleep => if look.now < asleep then r else r.watch hc look
  | .joining .stdout =>
      if r.pipes.reader .stdout = .draining then r else { r with stage := .joining .stderr }
  | .joining .stderr =>
      if r.pipes.reader .stderr = .draining then r
      else { r with stage := .returned (.ok r.output) }
  | .returned _ => r

def move (hc : HeadsetControl) (capacity : ℕ) (r : Running) : Move → Running
  | .thread turn => { r with pipes := r.pipes.turn capacity turn }
  | .main look => r.main hc look

/-- The child and the threads after some moves. -/
def after (hc : HeadsetControl) (capacity : ℕ) (r : Running) (moves : List Move) : Running :=
  moves.foldl (move hc capacity) r

/-- What the run came to, once it has. -/
def result (r : Running) : Option (Except (List String) Output) :=
  match r.stage with
  | .returned result => some result
  | _ => none

end Running

/-- `HeadsetControl::run` at some point: `spawned` is what spawning gives, and the moves
are those made since. -/
def HeadsetControl.run (hc : HeadsetControl) (capacity : ℕ)
    (spawned : Except String (List (Stream × UInt8))) (now : ℕ) (moves : List Move) :
    Option (Except (List String) Output) :=
  match spawned with
  | .error err => some (.error ["could not run " ++ hc.binary, err])
  | .ok written => ((Running.start hc written now).after hc capacity moves).result

/-- The first characters of some output, for an error message. -/
def quote (output : List Char) : String := String.ofList ((trim output).take quotedOutput)

/-- What a probe makes of a finished run. -/
def HeadsetControl.probe (hc : HeadsetControl) (fromStr : List Char → Except String RawReport)
    (ran : Except (List String) Output) : Except (List String) (List Headset) :=
  match ran with
  | .error err => .error err
  | .ok output =>
      match parse fromStr output.stdout with
      | .ok headsets => .ok headsets
      | .error err =>
          let stderr := trim output.stderr
          let said := if stderr.isEmpty then "" else " (stderr: " ++ quote stderr ++ ")"
          .error (("unexpected output from " ++ hc.binary ++ ": " ++ quote output.stdout ++ said) ::
            err)

/-! ## The output is whole -/

/-- What the child has to write to a stream. -/
abbrev writtenTo (stream : Stream) (written : List (Stream × UInt8)) : List UInt8 :=
  Net.bound stream written

/-- Everything the child has to write, as text. -/
def Output.whole (written : List (Stream × UInt8)) : Output :=
  ⟨Utf8.decode (writtenTo .stdout written), Utf8.decode (writtenTo .stderr written)⟩

/-- A child that writes UTF-8 is read as what it wrote. -/
theorem whole_of_text {written : List (Stream × UInt8)} {stdout stderr : List Char}
    (hstdout : writtenTo .stdout written = stdout.flatMap String.utf8EncodeChar)
    (hstderr : writtenTo .stderr written = stderr.flatMap String.utf8EncodeChar) :
    Output.whole written = ⟨stdout, stderr⟩ := by
  rw [Output.whole, hstdout, hstderr, Utf8.decode_encode, Utf8.decode_encode]

/-- As long as the run has not failed the pipes are intact, and a run that did not fail
has what the drains have read to their end. -/
structure Whole (written : List (Stream × UInt8)) (r : Running) : Prop where
  intact : (∀ err, r.stage ≠ .returned (.error err)) → Net.Intact written r.pipes
  joined : r.stage = .joining .stderr → r.pipes.reader .stdout ≠ .draining
  output : ∀ out, r.stage = .returned (.ok out) →
    (∀ stream, r.pipes.reader stream ≠ .draining) ∧ out = r.output

section Whole

variable {hc : HeadsetControl} {written : List (Stream × UInt8)} {r : Running} {capacity : ℕ}

/-- A turn of the loop ends it with an error, or leaves the pipes alone. -/
theorem Running.watch_cases (hc : HeadsetControl) (r : Running) (look : Look) :
    (∃ err, (r.watch hc look).stage = .returned (.error err)) ∨
      (r.watch hc look).pipes = r.pipes ∧ ((r.watch hc look).stage = .joining .stdout ∨
        (r.watch hc look).stage = .watching (look.now + reapInterval)) := by
  unfold Running.watch
  cases look.waited with
  | error err => exact .inl ⟨_, rfl⟩
  | ok _ =>
      simp only
      split
      · exact .inr ⟨rfl, .inl rfl⟩
      · split
        · exact .inl ⟨_, rfl⟩
        · split
          · exact .inl ⟨_, rfl⟩
          · exact .inr ⟨rfl, .inr rfl⟩

theorem whole_of_failed {err : List String} (h : r.stage = .returned (.error err)) :
    Whole written r where
  intact hnot := absurd h (hnot err)
  joined hstage := by simp [h] at hstage
  output _ hstage := by simp [h] at hstage

/-- A run before it joins the second drain. -/
theorem whole_of_intact (h : Net.Intact written r.pipes) (hjoining : r.stage ≠ .joining .stderr)
    (hreturned : ∀ result, r.stage ≠ .returned result) : Whole written r where
  intact _ := h
  joined hstage := absurd hstage hjoining
  output _ hstage := absurd hstage (hreturned _)

theorem whole_start (hc : HeadsetControl) (written : List (Stream × UInt8)) (now : ℕ) :
    Whole written (.start hc written now) :=
  whole_of_intact (Net.intact_new written) (by simp [Running.start]) (by simp [Running.start])

theorem Whole.thread (h : Whole written r) (turn : Turn Stream) :
    Whole written (r.move hc capacity (.thread turn)) := by
  refine ⟨fun hstage => (h.intact hstage).turn turn,
    fun hstage => (Net.done_turn (h.joined hstage) capacity turn).1, fun out hstage => ?_⟩
  obtain ⟨hdone, rfl⟩ := h.output out hstage
  refine ⟨fun stream => (Net.done_turn (hdone stream) capacity turn).1, ?_⟩
  have hsame : ∀ stream, (r.pipes.turn capacity turn).got stream = r.pipes.got stream :=
    fun stream => (Net.done_turn (hdone stream) capacity turn).2
  simp only [Running.output, Running.drain, Running.move, hsame]

theorem Whole.watch (h : Whole written r) {asleep : ℕ} (hstage : r.stage = .watching asleep)
    (look : Look) : Whole written (r.watch hc look) := by
  have hintact := h.intact (by simp [hstage])
  obtain ⟨err, hfailed⟩ | ⟨hpipes, hjoining | hwatching⟩ := r.watch_cases hc look
  · exact whole_of_failed hfailed
  · exact whole_of_intact (hpipes ▸ hintact) (by simp [hjoining]) (by simp [hjoining])
  · exact whole_of_intact (hpipes ▸ hintact) (by simp [hwatching]) (by simp [hwatching])

theorem Whole.main (h : Whole written r) (look : Look) : Whole written (r.main hc look) := by
  unfold Running.main
  cases hstage : r.stage with
  | watching asleep =>
      simp only
      split
      · exact h
      · exact h.watch hstage look
  | joining stream =>
      have hintact := h.intact (by simp [hstage])
      cases stream with
      | stdout =>
          simp only
          split
          next => exact h
          next hdone => exact ⟨fun _ => hintact, fun _ => hdone, by simp⟩
      | stderr =>
          have hjoined := h.joined hstage
          simp only
          split
          next => exact h
          next hdone =>
            refine ⟨fun _ => hintact, by simp, fun out he => ?_⟩
            obtain rfl := Except.ok.inj (Stage.returned.inj he)
            exact ⟨fun stream => by cases stream <;> assumption, rfl⟩
  | returned result => exact h

theorem Whole.after (h : Whole written r) (moves : List Move) :
    Whole written (r.after hc capacity moves) := by
  induction moves generalizing r with
  | nil => exact h
  | cons move moves ih =>
      cases move with
      | thread turn => exact ih (h.thread turn)
      | main look => exact ih (h.main look)

end Whole

theorem after_snoc (hc : HeadsetControl) (capacity : ℕ) (r : Running) (moves : List Move)
    (move : Move) : r.after hc capacity (moves ++ [move]) =
      (r.after hc capacity moves).move hc capacity move := by
  simp [Running.after]

/-- The turns of the child and the drains among some moves. -/
def turns (moves : List Move) : List (Turn Stream) :=
  moves.filterMap fun
    | .thread turn => some turn
    | .main _ => none

/-- The looks of the main thread. -/
def looks (moves : List Move) : List Look :=
  moves.filterMap fun
    | .thread _ => none
    | .main look => some look

@[simp] theorem turns_append (moves moves' : List Move) :
    turns (moves ++ moves') = turns moves ++ turns moves' := List.filterMap_append

@[simp] theorem looks_append (moves moves' : List Move) :
    looks (moves ++ moves') = looks moves ++ looks moves' := List.filterMap_append

@[simp] theorem turns_thread (turn : Turn Stream) : turns [.thread turn] = [turn] := rfl

@[simp] theorem turns_main (look : Look) : turns [.main look] = [] := rfl

@[simp] theorem looks_thread (turn : Turn Stream) : looks [.thread turn] = [] := rfl

@[simp] theorem looks_main (look : Look) : looks [.main look] = [look] := rfl

theorem turns_flatten (rounds : List (List Move)) :
    turns rounds.flatten = (rounds.map turns).flatten := List.filterMap_flatten

/-- The main thread makes no reader fail. -/
theorem reader_main (hc : HeadsetControl) (r : Running) (look : Look) :
    (r.main hc look).pipes.reader = r.pipes.reader := by
  simp only [Running.main, Running.watch, Running.kill]
  repeat' split
  all_goals rfl

theorem failed_of_after {hc : HeadsetControl} {capacity : ℕ} {r : Running} {moves : List Move}
    {stream : Stream} (h : (r.after hc capacity moves).pipes.reader stream = .failed)
    (hstart : r.pipes.reader stream ≠ .failed) : .thread (.fail stream) ∈ moves := by
  induction moves using List.reverseRecOn with
  | nil => exact absurd h hstart
  | append_singleton moves move ih =>
      rw [after_snoc] at h
      cases move with
      | thread turn =>
          obtain hbefore | rfl := Net.failed_turn h
          · exact List.mem_append_left _ (ih hbefore)
          · simp
      | main look =>
          rw [Running.move, reader_main] at h
          exact List.mem_append_left _ (ih h)

/-- A drain that is done and met no failing read has everything the child had to write to
its stream, as long as no other read failed either. -/
theorem output_of_done {written : List (Stream × UInt8)} {r : Running}
    (hintact : Net.Intact written r.pipes) (hdone : ∀ stream, r.pipes.reader stream ≠ .draining)
    (hread : ∀ stream, r.pipes.reader stream ≠ .failed) : r.output = .whole written := by
  have hgot : ∀ stream, r.pipes.got stream = writtenTo stream written := by
    intro stream
    refine hintact.got_of_atEnd hread ?_
    cases hstate : r.pipes.reader stream with
    | draining => exact absurd hstate (hdone stream)
    | atEnd => rfl
    | failed => exact absurd hstate (hread stream)
  simp only [Running.output, Running.drain, hgot, Output.whole]

/-- However the child, the drains and the main thread take their turns, and whatever a
pipe holds: a run that succeeds has, as text, the start of what the child had to write
to either stream, in order and nothing else. Unless a read failed, it has all of it, and
a child that writes UTF-8 is read as what it wrote. -/
theorem run_output (hc : HeadsetControl) (capacity : ℕ)
    (spawned : Except String (List (Stream × UInt8))) (now : ℕ) (moves : List Move)
    (output : Output) (hran : hc.run capacity spawned now moves = some (.ok output)) :
    ∃ written, spawned = .ok written ∧
      (∃ stdout stderr, stdout <+: writtenTo .stdout written ∧
        stderr <+: writtenTo .stderr written ∧
        output = ⟨Utf8.decode stdout, Utf8.decode stderr⟩) ∧
      ((∀ stream, .thread (.fail stream) ∉ moves) → output = .whole written ∧
        ∀ stdout stderr, writtenTo .stdout written = stdout.flatMap String.utf8EncodeChar →
          writtenTo .stderr written = stderr.flatMap String.utf8EncodeChar →
          output = ⟨stdout, stderr⟩) := by
  cases spawned with
  | error err => simp [HeadsetControl.run] at hran
  | ok written =>
      let r := (Running.start hc written now).after hc capacity moves
      have hwhole : Whole written r := (whole_start hc written now).after moves
      have hstage : r.stage = .returned (.ok output) := by
        simp only [HeadsetControl.run, Running.result] at hran
        split at hran
        next result hstage =>
          rw [Option.some.inj hran] at hstage
          exact hstage
        next => cases hran
      have hintact := hwhole.intact (by simp [hstage])
      obtain ⟨hdone, rfl⟩ := hwhole.output output hstage
      refine ⟨written, rfl, ⟨_, _, hintact.begun .stdout, hintact.begun .stderr, rfl⟩,
        fun hread => ?_⟩
      have hall : r.output = .whole written := output_of_done hintact hdone fun stream hfailed =>
        hread stream (failed_of_after hfailed (by simp [Running.start, Net.new]))
      exact ⟨hall, fun stdout stderr hstdout hstderr =>
        hall.trans (whole_of_text hstdout hstderr)⟩

/-- The two bytes cross: the drain of the second stream is joined last and finishes
first. -/
theorem run_output_of_two_bytes :
    let hc : HeadsetControl := ⟨"headsetcontrol", seconds 10⟩
    let moves : List Move := [.thread .write, .thread .write, .thread .write,
      .thread (.read .stderr 4), .thread (.read .stderr 4), .main ⟨0, false, .ok ()⟩,
      .main ⟨0, false, .ok ()⟩, .thread (.read .stdout 4), .thread (.read .stdout 4),
      .main ⟨0, false, .ok ()⟩, .main ⟨0, false, .ok ()⟩]
    let written : List (Stream × UInt8) := [(.stdout, 123), (.stderr, 33)]
    ∃ output, hc.run 1 (.ok written) 0 moves = some (.ok output) ∧ output = .whole written ∧
      output = ⟨['\x7b'], ['!']⟩ := by
  intro hc moves written
  have hran : hc.run 1 (.ok written) 0 moves = some (.ok ⟨['\x7b'], ['!']⟩) := by decide +kernel
  obtain ⟨written', hspawned, -, hwhole⟩ :=
    run_output hc 1 (.ok written) 0 moves ⟨['\x7b'], ['!']⟩ hran
  obtain rfl := Except.ok.inj hspawned
  obtain ⟨hall, htext⟩ := hwhole (by rintro (_ | _) <;> simp [moves])
  exact ⟨_, hran, hall, htext ['\x7b'] ['!'] (by decide +kernel) (by decide +kernel)⟩

/-- A read of the second stream fails with a byte still in its pipe: the run succeeds
without it. -/
example :
    let hc : HeadsetControl := ⟨"headsetcontrol", seconds 10⟩
    let moves : List Move := [.thread .write, .thread .write, .thread (.fail .stderr),
      .thread .write, .thread (.read .stdout 4), .thread (.read .stdout 4),
      .main ⟨0, false, .ok ()⟩, .main ⟨0, false, .ok ()⟩, .main ⟨0, false, .ok ()⟩]
    hc.run 1 (.ok [(.stdout, 123), (.stderr, 33)]) 0 moves = some (.ok ⟨['\x7b'], []⟩) := by
  decide +kernel

/-! ## The run comes to its end -/

/-- Nothing the main thread sees cuts a run short. -/
structure Look.Calm (deadline : ℕ) (look : Look) : Prop where
  waited : look.waited = .ok ()
  stop : look.stop = false
  early : look.now < deadline

/-- A run that was not cut short: the pipes are where the turns took them. -/
structure Going (start : Running) (capacity : ℕ) (moves : List Move) (r : Running) : Prop where
  pipes : r.pipes = start.pipes.after capacity (turns moves)
  deadline : r.deadline = start.deadline
  stage : ∀ err, r.stage ≠ .returned (.error err)
  asleep : ∀ asleep, r.stage = .watching asleep → start.stage = .watching asleep ∨
    ∃ look ∈ looks moves, asleep = look.now + reapInterval

section Going

variable {hc : HeadsetControl} {start r : Running} {capacity : ℕ} {moves : List Move}

theorem Going.thread (h : Going start capacity moves r) (turn : Turn Stream) :
    Going start capacity (moves ++ [.thread turn]) (r.move hc capacity (.thread turn)) where
  pipes := by simp [Running.move, h.pipes, Net.after_append]
  deadline := h.deadline
  stage := h.stage
  asleep := by simpa [Running.move] using h.asleep

/-- A look that changes the stage at most. -/
theorem Going.look (h : Going start capacity moves r) (look : Look) {stage : Stage}
    (hstage : ∀ err, stage ≠ .returned (.error err))
    (hasleep : ∀ asleep, stage = .watching asleep → r.stage = .watching asleep ∨
      asleep = look.now + reapInterval) :
    Going start capacity (moves ++ [.main look]) { r with stage := stage } where
  pipes := by simpa using h.pipes
  deadline := h.deadline
  stage := hstage
  asleep asleep he := by
    obtain hsame | hlook := hasleep asleep he
    · refine (h.asleep asleep hsame).imp_right fun ⟨before, hmem, hbefore⟩ => ?_
      exact ⟨before, by simp [hmem], hbefore⟩
    · exact .inr ⟨look, by simp, hlook⟩

theorem Going.main (h : Going start capacity moves r) {look : Look}
    (hcalm : look.Calm start.deadline) :
    Going start capacity (moves ++ [.main look]) (r.main hc look) := by
  have hstill : Going start capacity (moves ++ [.main look]) r := by
    refine h.look look h.stage fun asleep he => .inl he
  unfold Running.main
  cases hstage : r.stage with
  | watching asleep =>
      have hearly : ¬r.deadline ≤ look.now := by
        rw [h.deadline]
        exact Nat.not_le_of_lt hcalm.early
      simp only [Running.watch, hcalm.waited, hcalm.stop, Bool.false_eq_true, if_neg hearly,
        if_false]
      split
      · exact hstill
      · split
        · exact h.look look (by simp) (by simp)
        · exact h.look look (by simp) fun asleep he => .inr (Stage.watching.inj he).symm
  | joining stream =>
      cases stream with
      | stdout =>
          simp only
          split
          · exact hstill
          · exact h.look look (by simp) (by simp)
      | stderr =>
          simp only
          split
          · exact hstill
          · exact h.look look (by simp) (by simp)
  | returned result => exact hstill

theorem going_after (hcalm : ∀ look ∈ looks moves, look.Calm start.deadline)
    (hstage : ∀ err, start.stage ≠ .returned (.error err)) :
    Going start capacity moves (start.after hc capacity moves) := by
  induction moves using List.reverseRecOn with
  | nil => exact ⟨rfl, rfl, hstage, fun _ he => .inl he⟩
  | append_singleton moves move ih =>
      have hbefore : ∀ look ∈ looks moves, look.Calm start.deadline := fun look hmem =>
        hcalm look (by simp [hmem])
      rw [after_snoc]
      cases move with
      | thread turn => exact (ih hbefore).thread turn
      | main look => exact (ih hbefore).main (hcalm look (by simp))

end Going

/-- Once both drains are done, three looks are enough to return. -/
theorem returns_of_finished (hc : HeadsetControl) {written : List (Stream × UInt8)} {r : Running}
    (hwhole : Whole written r) (hfailed : ∀ err, r.stage ≠ .returned (.error err))
    (hfinished : r.pipes.Finished) {a : Look} (hwaited : a.waited = .ok ())
    (hawake : ∀ asleep, r.stage = .watching asleep → asleep ≤ a.now) (b c : Look) :
    (((r.main hc a).main hc b).main hc c).stage = .returned (.ok r.output) := by
  have hstdout := hfinished.read .stdout
  have hstderr := hfinished.read .stderr
  cases hstage : r.stage with
  | watching asleep =>
      have hnow : ¬a.now < asleep := Nat.not_lt_of_le (hawake asleep hstage)
      simp [Running.main, hstage, hnow, Running.watch, hwaited, hfinished.gone, hstdout, hstderr,
        Running.output, Running.drain]
  | joining stream =>
      cases stream with
      | stdout =>
          simp [Running.main, hstage, hstdout, hstderr, Running.output, Running.drain]
      | stderr => simp [Running.main, hstage, hstderr]
  | returned result =>
      cases result with
      | ok out => simp [Running.main, hstage, (hwhole.output out hstage).2]
      | error err => exact absurd hstage (hfailed err)

/-- A child whose turns and whose drains' turns keep coming, in any order and between any
looks of the main thread, is read to its end in a bounded number of rounds, however
small the pipes and whichever reads fail: two more looks than the one that finds it gone
bring back its output, and everything it wrote unless a read failed. -/
theorem run_returns (hc : HeadsetControl) {capacity : ℕ} (hcapacity : 0 < capacity)
    (written : List (Stream × UInt8)) (now : ℕ) {rounds : List (List Move)}
    (hrounds : ∀ moves ∈ rounds, Net.Round (turns moves))
    (henough : 2 * written.length + 3 ≤ rounds.length)
    (hcalm : ∀ look ∈ looks rounds.flatten, look.Calm (now + hc.timeout)) {a b c : Look}
    (hwaited : a.waited = .ok ()) (hnow : now ≤ a.now)
    (hawake : ∀ look ∈ looks rounds.flatten, look.now + reapInterval ≤ a.now) :
    ∃ output,
      hc.run capacity (.ok written) now (rounds.flatten ++ [.main a, .main b, .main c]) =
        some (.ok output) ∧
      ((∀ stream, .thread (.fail stream) ∉ rounds.flatten) → output = .whole written) := by
  let start := Running.start hc written now
  let r := start.after hc capacity rounds.flatten
  have hgoing : Going start capacity rounds.flatten r :=
    going_after hcalm (by simp [start, Running.start])
  have hwhole : Whole written r := (whole_start hc written now).after rounds.flatten
  have hfinished : r.pipes.Finished := by
    rw [hgoing.pipes, turns_flatten]
    refine Net.finished_of_rounds hcapacity (Net.intact_new written) ?_ ?_
    · simpa using hrounds
    · have hstreams : Fintype.card Stream = 2 := rfl
      simpa [start, Running.start, Net.new, Net.work, hstreams, Nat.add_assoc] using henough
  have hawake' : ∀ asleep, r.stage = .watching asleep → asleep ≤ a.now := by
    intro asleep hasleep
    obtain hfirst | ⟨look, hmem, rfl⟩ := hgoing.asleep asleep hasleep
    · exact Stage.watching.inj hfirst ▸ hnow
    · exact hawake look hmem
  refine ⟨r.output, ?_, fun hread => ?_⟩
  · have hafter : start.after hc capacity (rounds.flatten ++ [.main a, .main b, .main c]) =
        ((r.main hc a).main hc b).main hc c := by
      simp [r, Running.after, Running.move]
    simp only [HeadsetControl.run, Running.result]
    rw [hafter, returns_of_finished hc hwhole hgoing.stage hfinished hwaited hawake' b c]
  · exact output_of_done (hwhole.intact hgoing.stage) hfinished.read fun stream hfailed =>
      hread stream (failed_of_after hfailed (by simp [start, Running.start, Net.new]))

/-- A child that writes to both streams through pipes of a byte each. -/
theorem run_returns_of_two_bytes :
    let hc : HeadsetControl := ⟨"headsetcontrol", seconds 10⟩
    let moves : List Move := [.thread .write, .thread (.read .stderr 0), .thread (.read .stdout 0)]
    let look (now : ℕ) : Look := ⟨now, false, .ok ()⟩
    let rounds := (.main (look 0) :: moves) :: List.replicate 6 moves
    hc.run 1 (.ok [(.stdout, 123), (.stderr, 33)]) 0
        (rounds.flatten ++ [.main (look reapInterval), .main (look reapInterval),
          .main (look reapInterval)]) =
      some (.ok ⟨['\x7b'], ['!']⟩) := by
  intro hc moves look rounds
  have hlooks : ∀ seen ∈ looks rounds.flatten, seen = look 0 := by
    simp [rounds, moves, looks, List.replicate]
  have hcalm : ∀ seen ∈ looks rounds.flatten, seen.Calm (0 + hc.timeout) := by
    intro seen hseen
    rw [hlooks seen hseen]
    exact ⟨rfl, rfl, by decide⟩
  have hawake : ∀ seen ∈ looks rounds.flatten,
      seen.now + reapInterval ≤ (look reapInterval).now := by
    intro seen hseen
    rw [hlooks seen hseen]
    decide
  have hrounds : ∀ ts ∈ rounds, Net.Round (turns ts) := by
    intro ts hts
    obtain rfl | rfl : ts = .main (look 0) :: moves ∨ ts = moves := by
      simpa [rounds, List.replicate] using hts
    · exact ⟨by simp [moves, turns], fun stream => ⟨0, by cases stream <;> simp [moves, turns]⟩⟩
    · exact ⟨by simp [moves, turns], fun stream => ⟨0, by cases stream <;> simp [moves, turns]⟩⟩
  have hread : ∀ stream, .thread (.fail stream) ∉ rounds.flatten := by
    rintro (_ | _) <;> simp [rounds, moves, List.replicate]
  have hwhole : Output.whole [(.stdout, 123), (.stderr, 33)] = ⟨['\x7b'], ['!']⟩ := by
    decide +kernel
  obtain ⟨output, hran, hall⟩ := run_returns hc Nat.one_pos [(.stdout, 123), (.stderr, 33)] 0
    hrounds (by decide) hcalm (b := look reapInterval) (c := look reapInterval) rfl (by decide)
    hawake
  rw [hran, hall hread, hwhole]

/-! ## The run is cut short in time -/

/-- A look in the loop comes as soon as the main thread wakes up, or a slack later. -/
def Running.prompt (slack : ℕ) (r : Running) : Move → Prop
  | .thread _ => True
  | .main look =>
      match r.stage with
      | .watching asleep => look.now ≤ asleep + slack
      | _ => True

instance (slack : ℕ) (r : Running) (move : Move) : Decidable (r.prompt slack move) := by
  unfold Running.prompt
  split
  · infer_instance
  · split <;> infer_instance

/-- Every look of a run is prompt. -/
def Attentive (hc : HeadsetControl) (capacity slack : ℕ) : Running → List Move → Prop
  | _, [] => True
  | r, move :: moves =>
      r.prompt slack move ∧ Attentive hc capacity slack (r.move hc capacity move) moves

instance decidableAttentive (hc : HeadsetControl) (capacity slack : ℕ) :
    ∀ r moves, Decidable (Attentive hc capacity slack r moves)
  | _, [] => isTrue trivial
  | r, move :: moves =>
      haveI := decidableAttentive hc capacity slack (r.move hc capacity move) moves
      inferInstanceAs (Decidable (_ ∧ _))

theorem Attentive.prompt {hc : HeadsetControl} {capacity slack : ℕ} {r : Running}
    {pre post : List Move} {move : Move}
    (h : Attentive hc capacity slack r (pre ++ move :: post)) :
    (r.after hc capacity pre).prompt slack move := by
  induction pre generalizing r with
  | nil => exact h.1
  | cons first pre ih => exact ih h.2

/-- A look after which the main thread sleeps again saw nothing to cut the run short. -/
theorem Running.watching_of_main {hc : HeadsetControl} {r : Running} {look : Look} {asleep : ℕ}
    (h : (r.main hc look).stage = .watching asleep) : r.stage = .watching asleep ∨
      asleep = look.now + reapInterval ∧ look.stop = false ∧ look.now < r.deadline := by
  unfold Running.main at h
  cases hstage : r.stage with
  | watching since =>
      rw [hstage] at h
      simp only at h
      split at h
      · exact .inl (hstage.symm.trans h)
      · unfold Running.watch at h
        cases hwaited : look.waited with
        | error err => simp [hwaited] at h
        | ok _ =>
            simp only [hwaited] at h
            split at h
            · cases h
            · split at h
              · cases h
              next hstop =>
                split at h
                · cases h
                next hearly =>
                  exact .inr ⟨(Stage.watching.inj h).symm, by simpa using hstop,
                    Nat.lt_of_not_le hearly⟩
  | joining stream =>
      cases stream <;>
      · simp only [hstage] at h
        split at h <;> simp_all
  | returned result =>
      rw [hstage] at h
      simp only [hstage] at h
      cases h

theorem deadline_move (hc : HeadsetControl) (capacity : ℕ) (r : Running) (move : Move) :
    (r.move hc capacity move).deadline = r.deadline := by
  cases move with
  | thread turn => rfl
  | main look =>
      simp only [Running.move, Running.main, Running.watch, Running.kill]
      repeat' split
      all_goals rfl

theorem deadline_after (hc : HeadsetControl) (capacity : ℕ) (r : Running) (moves : List Move) :
    (r.after hc capacity moves).deadline = r.deadline := by
  induction moves using List.reverseRecOn with
  | nil => rfl
  | append_singleton moves move ih => rw [after_snoc, deadline_move, ih]

/-- In its loop the main thread is asleep since the last instant at which nothing cut
the run short. -/
theorem asleep_within {hc : HeadsetControl} {capacity limit : ℕ} {start : Running}
    {moves : List Move} (hfirst : ∀ asleep, start.stage = .watching asleep → asleep ≤ limit)
    (hcut : ∀ look ∈ looks moves, limit ≤ look.now → look.stop = true ∨ start.deadline ≤ look.now)
    {asleep : ℕ} (hstage : (start.after hc capacity moves).stage = .watching asleep) :
    asleep ≤ limit + reapInterval := by
  induction moves using List.reverseRecOn generalizing asleep with
  | nil => exact Nat.le_add_right_of_le (hfirst asleep hstage)
  | append_singleton moves move ih =>
      have hbefore : ∀ look ∈ looks moves, limit ≤ look.now →
          look.stop = true ∨ start.deadline ≤ look.now :=
        fun look hmem => hcut look (by simp [hmem])
      rw [after_snoc] at hstage
      cases move with
      | thread turn => exact ih hbefore hstage
      | main look =>
          obtain hsame | ⟨rfl, hstop, hearly⟩ := Running.watching_of_main hstage
          · exact ih hbefore hsame
          · rw [deadline_after] at hearly
            have hlook : ¬limit ≤ look.now := fun hle => by
              obtain hraised | hlate := hcut look (by simp) hle
              · simp [hstop] at hraised
              · omega
            omega

/-- A run is cut short in time, whatever the child and the drains do. Let `limit` be an
instant from which on every look finds the stop flag up or the time over: then the main
thread looks a last time at the child no later than an interval and the slack after it,
and either the child was gone by then and is joined, or it is killed and the run
fails. -/
theorem run_cut_short (hc : HeadsetControl) (capacity slack limit now : ℕ)
    (written : List (Stream × UInt8)) {moves : List Move} (hnow : now ≤ limit)
    (hattentive : Attentive hc capacity slack (.start hc written now) moves)
    (hcut : ∀ look ∈ looks moves,
      limit ≤ look.now → look.stop = true ∨ now + hc.timeout ≤ look.now) :
    ∀ pre look post, moves = pre ++ .main look :: post →
      ∀ asleep, ((Running.start hc written now).after hc capacity pre).stage = .watching asleep →
        look.now ≤ limit + reapInterval + slack ∧
        (asleep ≤ look.now → limit ≤ look.now → look.waited = .ok () →
          let r := (Running.start hc written now).after hc capacity pre
          let r' := (Running.start hc written now).after hc capacity (pre ++ [.main look])
          if r.pipes.gone then r'.stage = .joining .stdout
          else r'.pipes.gone = true ∧ ∃ err, r'.stage = .returned (.error [err])) := by
  rintro pre look post rfl asleep hstage
  have hbefore : ∀ look ∈ looks pre, limit ≤ look.now →
      look.stop = true ∨ (Running.start hc written now).deadline ≤ look.now :=
    fun look hmem => hcut look (by simp [hmem])
  have hasleep := asleep_within
    (fun asleep he => Stage.watching.inj he ▸ hnow) hbefore hstage
  have hprompt : look.now ≤ asleep + slack := by
    have hprompt := hattentive.prompt
    simpa only [Running.prompt, hstage] using hprompt
  refine ⟨by omega, fun hawake hlimit hwaited => ?_⟩
  intro r r'
  have hr' : r' = r.main hc look := after_snoc hc capacity _ pre (.main look)
  have hwatch : r.main hc look = r.watch hc look := by
    unfold Running.main
    rw [show r.stage = .watching asleep from hstage]
    exact if_neg (Nat.not_lt.2 hawake)
  have hdeadline : r.deadline = now + hc.timeout := deadline_after hc capacity _ pre
  have hends := hcut look (by simp [looks]) hlimit
  rw [hr', hwatch]
  simp only [Running.watch, hwaited]
  split
  · rfl
  · cases hstop : look.stop with
    | true => exact ⟨rfl, _, rfl⟩
    | false =>
        have hlate : r.deadline ≤ look.now := by simpa [hstop, hdeadline] using hends
        simp only [Bool.false_eq_true, if_false, if_pos hlate]
        exact ⟨rfl, _, rfl⟩

/-- A child that never gets anywhere, killed at the first look after ten seconds. -/
theorem run_cut_short_of_timeout :
    let hc : HeadsetControl := ⟨"headsetcontrol", seconds 10⟩
    let first : Look := ⟨seconds 10 - 1, false, .ok ()⟩
    let late : Look := ⟨seconds 10 + reapInterval, false, .ok ()⟩
    let moves : List Move := [.main first, .main late]
    late.now ≤ seconds 10 + reapInterval + seconds 10 ∧
      hc.run 65536 (.ok []) 0 moves =
        some (.error ["headsetcontrol did not answer within 10s"]) := by
  intro hc first late moves
  refine ⟨?_, by decide +kernel⟩
  have hattentive : Attentive hc 65536 (seconds 10) (.start hc [] 0) moves := by decide +kernel
  have hlimit : ∀ look ∈ looks moves, seconds 10 ≤ look.now → look.stop = true ∨
      0 + hc.timeout ≤ look.now := fun look _ hle => .inr ((Nat.zero_add _).symm ▸ hle)
  exact (run_cut_short hc 65536 (seconds 10) (seconds 10) 0 [] (Nat.zero_le _) hattentive hlimit
    [.main first] late [] rfl (seconds 10 - 1 + reapInterval) rfl).1

end HeadsetBattery.Headsetcontrol
