import HeadsetBattery.Maxwell.Listing
import HeadsetBattery.Maxwell.Samples
import HeadsetBattery.Bridge.Deferrals

/-!
# The daemon on its native reader

Every turn of the daemon's loop makes a pass of the reader, gives the headsets
to the bridge, and waits. The two halves share nothing but these headsets: a
run of the daemon is a run of the reader and a run of the bridge on what the
reader reported.
-/
namespace HeadsetBattery.Native

open Maxwell Bridge Traces

/-- One turn of the loop: the pass, the instant of the poll and whether the stop
flag is up, what the kernel will say to each headset, and the waits. -/
structure Round (Path Handle : Type) where
  pass : Pass Path
  now : ℕ
  stopping : Bool
  answers : ℕ → Answers Handle
  waits : List Wait

/-- What `Source::probe` gives the bridge; the native reader never fails. -/
def Round.tick {Path Handle : Type} (round : Round Path Handle) (headsets : List Headset) :
    Tick Handle :=
  ⟨round.now, round.stopping, .ok (headsets.zipIdx.map fun h => (h.1, round.answers h.2))⟩

/-- The reader and the bridge. -/
structure Daemon (Path Handle : Type) [LinearOrder Path] where
  reader : Reader Path
  bridge : Bridge Handle

variable {Path Handle : Type}

/-! ## The readings of a poll -/

def headset? : Bridge.Move Handle → Option Headset
  | .apply _ polled => some polled.1
  | _ => none

/-- The headsets given to the bridge by some moves. -/
def given (moves : List (Bridge.Move Handle)) : List Headset := moves.filterMap headset?

theorem given_append (moves moves' : List (Bridge.Move Handle)) :
    given (moves ++ moves') = given moves ++ given moves' := List.filterMap_append

theorem withBattery_tick (round : Round Path Handle) {headsets : List Headset}
    (h : ∀ headset ∈ headsets, headset.supportsBattery = true) :
    (round.tick headsets).withBattery.map Prod.fst = headsets := by
  have hall : (round.tick headsets).withBattery =
      headsets.zipIdx.map fun h => (h.1, round.answers h.2) := by
    refine List.filter_eq_self.2 fun polled hp => ?_
    obtain ⟨indexed, hmem, rfl⟩ := List.mem_map.1 hp
    exact h _ (List.fst_mem_of_mem_zipIdx hmem)
  rw [hall, List.map_map]
  exact List.zipIdx_map_fst 0 headsets

theorem given_tick (t : Tick Handle) : given t.moves = t.withBattery.map Prod.fst := by
  have happlied : given (t.withBattery.map (.apply t.now)) = t.withBattery.map Prod.fst := by
    rw [given, List.filterMap_map]
    exact congrFun List.filterMap_eq_map' _
  have hmoves : t.moves = [.probe t] ++ (t.withBattery.map (.apply t.now) ++
      [.note t.now, .expire t.now]) := rfl
  rw [hmoves, given_append, given_append, happlied]
  exact List.append_nil _

theorem given_waits (waits : List Wait) :
    given ((waits.map Input.wait).flatMap Input.moves : List (Bridge.Move Handle)) = [] := by
  refine List.filterMap_eq_nil_iff.2 fun m hm => ?_
  obtain ⟨input, hinput, hm⟩ := List.mem_flatMap.1 hm
  obtain ⟨w, -, rfl⟩ := List.mem_map.1 hinput
  obtain ⟨err, -, rfl⟩ := List.mem_map.1 hm
  rfl

/-! ## The daemon -/

variable [LinearOrder Path] [ToString Path]

/-- The poll of a turn, on what the reader reports. -/
def Daemon.poll (d : Daemon Path Handle) (round : Round Path Handle) : Tick Handle :=
  round.tick (Reader.headsets (d.reader.reconcile round.pass).2)

def Daemon.turn (d : Daemon Path Handle) (round : Round Path Handle) :
    Daemon Path Handle × List Bridge.Event :=
  let done := Runs.exec step d.bridge (.tick (d.poll round) :: round.waits.map .wait)
  (⟨(d.reader.reconcile round.pass).1, done.1⟩, done.2)

/-- A run of the daemon, from its start. -/
def run (config : Config) (inherited : List Handle) (rounds : List (Round Path Handle)) :
    Daemon Path Handle × List Bridge.Event :=
  Runs.exec Daemon.turn ⟨Reader.new, Bridge.new config inherited⟩ rounds

/-! ## The two halves of a run -/

/-- What the bridge is given by a reader. -/
def inputs (r : Reader Path) : List (Round Path Handle) → List (Input Handle)
  | [] => []
  | round :: rounds =>
      .tick (round.tick (Reader.headsets (r.reconcile round.pass).2)) ::
        (round.waits.map .wait ++ inputs (r.reconcile round.pass).1 rounds)

/-- The moves of the bridge in a run. -/
def moves (rounds : List (Round Path Handle)) : List (Bridge.Move Handle) :=
  (inputs Reader.new rounds).flatMap Input.moves

theorem exec_turn (d : Daemon Path Handle) (rounds : List (Round Path Handle)) :
    Runs.exec Daemon.turn d rounds =
      (⟨(Runs.exec Reader.reconcile d.reader (rounds.map Round.pass)).1,
          (Runs.exec step d.bridge (inputs d.reader rounds)).1⟩,
        (Runs.exec step d.bridge (inputs d.reader rounds)).2) := by
  induction rounds generalizing d with
  | nil => rfl
  | cons round rounds ih =>
      have hinputs : inputs d.reader (round :: rounds) =
          (.tick (d.poll round) :: round.waits.map .wait) ++
            inputs (d.reader.reconcile round.pass).1 rounds := rfl
      rw [Runs.exec_cons, ih, hinputs, Runs.exec_append, List.map_cons, Runs.exec_cons]
      rfl

theorem inputs_append (r : Reader Path) (rounds rounds' : List (Round Path Handle)) :
    inputs r (rounds ++ rounds') =
      inputs r rounds ++ inputs (Runs.exec Reader.reconcile r (rounds.map Round.pass)).1 rounds' := by
  induction rounds generalizing r with
  | nil => rfl
  | cons round rounds ih =>
      simp only [List.cons_append, inputs, ih, List.append_assoc, List.map_cons, Runs.exec_cons]

theorem moves_snoc (rounds : List (Round Path Handle)) (round : Round Path Handle) :
    moves (rounds ++ [round]) = moves rounds ++
      ((round.tick (Reader.headsets
          ((Reader.run (rounds.map Round.pass)).1.reconcile round.pass).2)).moves ++
        (round.waits.map Input.wait).flatMap Input.moves) := by
  simp [moves, inputs_append, inputs, Reader.run, Input.moves]

theorem run_eq (config : Config) (inherited : List Handle) (rounds : List (Round Path Handle)) :
    run config inherited rounds =
      (⟨(Reader.run (rounds.map Round.pass)).1, reached config inherited (moves rounds)⟩,
        (Runs.exec move (Bridge.new config inherited) (moves rounds)).2) := by
  have hbridge := run_eq_moves config inherited (inputs (Reader.new : Reader Path) rounds)
  rw [Bridge.run] at hbridge
  rw [run, exec_turn, hbridge]
  rfl

/-! ## Every reading of the bridge is a report of the reader -/

theorem given_inputs (r : Reader Path) (rounds : List (Round Path Handle)) :
    given ((inputs r rounds).flatMap Input.moves) =
      Reader.headsets (Runs.exec Reader.reconcile r (rounds.map Round.pass)).2 := by
  induction rounds generalizing r with
  | nil => rfl
  | cons round rounds ih =>
      rw [inputs, List.flatMap_cons, List.flatMap_append, given_append, given_append, given_waits,
        ih, List.map_cons, Runs.exec_cons, Reader.headsets_append, Input.moves, given_tick,
        withBattery_tick _ Reader.supports_of_mem_headsets, List.nil_append]

/-- Where each product is listed once, no two headsets of a poll share a key. -/
theorem nodup_keys_tick (r : Reader Path) (round : Round Path Handle)
    (h : (round.pass.listed.map fun v => v.1.productId).Nodup) :
    ((round.tick (Reader.headsets (r.reconcile round.pass).2)).withBattery.map
      fun p => p.1.key).Nodup := by
  have hgiven := withBattery_tick round (Reader.supports_of_mem_headsets : ∀ headset ∈
    Reader.headsets (r.reconcile round.pass).2, headset.supportsBattery = true)
  rw [← Function.comp_def Headset.key, ← List.map_map, hgiven]
  exact Reader.keys_nodup r h

/-- A reading given to the bridge comes from a report, and has the number and the
level of a battery message. -/
theorem isLevel_of_given {passes : List (Pass Path)} {pre post : List (Maxwell.Event Path)}
    {node : Path} {link : Option Link} {h : Headset}
    (he : (Reader.run passes).2 = pre ++ .reported node link h :: post) {known : ℕ}
    {reading : Reading} (hread : h.battery.reading known = some reading) :
    h.battery.level.isSome ∧ ∃ n, h.sample = some n ∧
      IsLevel (Reader.run passes).2 n reading.percent := by
  have hmem : .reported node link h ∈ (Reader.run passes).2 := by simp [he]
  have hlevel := BatteryState.level_of_reading hread (Reader.plain_of_mem passes _ hmem).1
  obtain ⟨n, hsample, hn⟩ := Reader.isLevel_of_reported he hlevel
  refine ⟨by rw [hlevel]; rfl, n, hsample, ?_⟩
  rw [he]
  exact hn.append _

/-! ## No unconfirmed jump -/

/-- The reading of one battery message is confirmed by that of another: after
`past`, the last verdict on the headset was the deferral of that other one. -/
structure Confirmed (messages : List (Maxwell.Event Path)) (past : List Bridge.Event)
    (key : String) (reading : Reading) (n n' : ℕ) : Prop where
  level : IsLevel messages n reading.percent
  other : n' ≠ n
  deferred : ∃ before earlier now between,
    past = before ++ ⟨key, now, .deferred earlier (some n')⟩ :: between ∧
    (∀ e ∈ between, e.leaves key = none) ∧ IsLevel messages n' earlier.percent ∧
    absDiff earlier.percent reading.percent ≤ confirmTolerance

theorem eq_of_leaves {key : String} {e : Bridge.Event} {reading : Reading} {sample : Option ℕ}
    (h : e.leaves key = some (some (reading, sample))) :
    e = ⟨key, e.now, .deferred reading sample⟩ := by
  obtain ⟨key', now, deed⟩ := e
  unfold Event.leaves at h
  split at h
  next hkey =>
    cases deed with
    | deferred =>
        obtain ⟨rfl, rfl⟩ := Prod.mk.inj (Option.some.inj (Option.some.inj h))
        obtain rfl : key' = key := hkey
        rfl
    | _ => simp at h
  next => cases h

/-- A move of the bridge that takes the level of a battery far. -/
theorem confirmed_of_jump (config : Config) (inherited : List Handle)
    (rounds : List (Round Path Handle)) {before after : List (Bridge.Move Handle)}
    {m : Bridge.Move Handle} (hmoves : moves rounds = before ++ m :: after) {key : String}
    {entry left : Entry Handle}
    (hlive : (reached config inherited before).batteries.find? key = some entry)
    (hleft : (reached config inherited (before ++ [m])).batteries.find? key = some left)
    (hjump : maxPlausibleStep < absDiff entry.1.reading.percent left.1.reading.percent) :
    ∃ n n' now rest, (move (reached config inherited before) m).2 =
        ⟨key, now, .accepted left.1.reading (some n)⟩ :: rest ∧
      Confirmed (Reader.run (rounds.map Round.pass)).2
        (Runs.exec move (Bridge.new config inherited) before).2 key left.1.reading n n' ∧
      (Tidy (rounds.map Round.pass) → n' < n) := by
  obtain ⟨now, h, a, rfl, hkey, ⟨known, hread⟩, ⟨rest, haccepted⟩, past, earlier, sample, hlast,
    hclose, hother, now', h', a', hmem, hkey', rfl, known', hread'⟩ :=
    jump_confirmed config inherited before m hlive hleft hjump
  have hgiven : given (moves rounds) =
      Reader.headsets (Reader.run (rounds.map Round.pass)).2 := given_inputs Reader.new rounds
  rw [hmoves, given_append] at hgiven
  obtain ⟨pre, node, link, post, hsplit, hpre⟩ := Reader.split_of_headsets hgiven.symm
  obtain ⟨hsome, n, hn, hlevel⟩ := isLevel_of_given hsplit hread
  -- The deferred reading was reported before.
  have hearlier : h' ∈ Reader.headsets pre := by
    rw [hpre]
    exact List.mem_filterMap.2 ⟨_, hmem, rfl⟩
  obtain ⟨i, j, hij⟩ := List.append_of_mem hearlier
  obtain ⟨pre', node', link', post', rfl, -⟩ := Reader.split_of_headsets hij
  have hsplit' : (Reader.run (rounds.map Round.pass)).2 =
      pre' ++ .reported node' link' h' :: (post' ++ .reported node link h :: post) := by
    simpa using hsplit
  obtain ⟨hsome', n', hn', hlevel'⟩ := isLevel_of_given hsplit' hread'
  obtain ⟨e, between, hpast, hleaves, hbetween⟩ := hlast
  rw [hn, hn'] at hother
  refine ⟨n, n', now, rest, hn ▸ haccepted, ⟨hlevel, fun he => hother rfl (he ▸ rfl), past, earlier,
    e.now, between, ?_, hbetween, hlevel', hclose⟩, fun htidy => ?_⟩
  · rw [← hn', ← eq_of_leaves hleaves]
    exact hpast
  · have hle := Reader.reports_inOrder htidy _ _ _ hsplit hsome n hn n'
      ⟨node', link', h', by simp, ?_, hsome', hn'⟩
    · have hne : n' ≠ n := fun he => hother rfl (he ▸ rfl)
      omega
    · exact (Headset.key_eq_iff.1 (hkey'.trans hkey.symm)).2.1

/-- The same, where the level is taken far over a whole poll of a tidy run. -/
theorem confirmed_of_poll (config : Config) (inherited : List Handle)
    (rounds : List (Round Path Handle)) (round : Round Path Handle)
    (htidy : Tidy ((rounds ++ [round]).map Round.pass)) {key : String} {entry left : Entry Handle}
    (hlive : (run config inherited rounds).1.bridge.batteries.find? key = some entry)
    (hleft : ((run config inherited rounds).1.bridge.tick
      ((run config inherited rounds).1.poll round)).1.batteries.find? key = some left)
    (hjump : maxPlausibleStep < absDiff entry.1.reading.percent left.1.reading.percent) :
    ∃ n n' past now rest, (run config inherited rounds).2 ++
        ((run config inherited rounds).1.bridge.tick ((run config inherited rounds).1.poll round)).2 =
        past ++ ⟨key, now, .accepted left.1.reading (some n)⟩ :: rest ∧
      Confirmed (Reader.run ((rounds ++ [round]).map Round.pass)).2 past key left.1.reading n n' ∧
      n' < n := by
  have hmoves := moves_snoc rounds round
  rw [run_eq] at hlive hleft ⊢
  dsimp only [Daemon.poll] at hlive hleft ⊢
  generalize hheadsets : Reader.headsets
    ((Reader.run (rounds.map Round.pass)).1.reconcile round.pass).2 = headsets at hmoves hleft ⊢
  have hkeys : ((round.tick headsets).withBattery.map fun p => p.1.key).Nodup := by
    rw [← hheadsets]
    exact nodup_keys_tick _ round (htidy.products _ (by simp))
  generalize round.tick headsets = t at hmoves hkeys hleft ⊢
  have htick : (reached config inherited (moves rounds)).tick t =
      Runs.exec move (reached config inherited (moves rounds)) t.moves :=
    step_eq_moves _ (.tick t)
  rw [htick] at hleft ⊢
  rw [← reached_append] at hleft
  obtain ⟨others, polled, later, answered, hsplit, hbefore, hafter, hdevice⟩ :=
    jump_of_tick config inherited (moves rounds) hkeys hlive hleft hjump
  have htmoves : moves rounds ++ t.moves =
      (moves rounds ++ .probe t :: others.map (.apply t.now)) ++ .apply t.now polled ::
        (later.map (.apply t.now) ++ [.note t.now, .expire t.now]) := by
    simp [Tick.moves, hsplit]
  have hevents : (Runs.exec move (Bridge.new config inherited) (moves rounds)).2 ++
      (Runs.exec move (reached config inherited (moves rounds)) t.moves).2 =
      (Runs.exec move (Bridge.new config inherited) (moves rounds ++ t.moves)).2 := by
    rw [Runs.exec_append]
    rfl
  rw [← List.append_assoc, htmoves, List.append_assoc] at hmoves
  rw [← hdevice] at hjump ⊢
  obtain ⟨n, n', now, rest, haccepted, hconfirmed, hordered⟩ :=
    confirmed_of_jump config inherited (rounds ++ [round]) hmoves hbefore hafter hjump
  rw [reached] at haccepted
  rw [hevents, htmoves, Runs.exec_append, Runs.exec_cons, haccepted]
  exact ⟨n, n', _, now, _, rfl, hconfirmed, hordered htidy⟩

/-- A level never jumps unconfirmed. Whenever a move of the bridge takes the level
of a live device further than the plausible step, the move is a reading of its
headset with the level and the number of a battery message, and another battery
message with a level close to it had been deferred before, with no verdict on
that headset in between. In a tidy run that message is an older one, and the
same holds of whatever a whole poll does to the level. -/
theorem no_unconfirmed_jump (config : Config) (inherited : List Handle)
    (rounds : List (Round Path Handle)) (key : String) (entry left : Entry Handle)
    (hjump : maxPlausibleStep < absDiff entry.1.reading.percent left.1.reading.percent) :
    (∀ before m after, moves rounds = before ++ m :: after →
      (reached config inherited before).batteries.find? key = some entry →
      (reached config inherited (before ++ [m])).batteries.find? key = some left →
      ∃ n n' now rest, (move (reached config inherited before) m).2 =
          ⟨key, now, .accepted left.1.reading (some n)⟩ :: rest ∧
        Confirmed (Reader.run (rounds.map Round.pass)).2
          (Runs.exec move (Bridge.new config inherited) before).2 key left.1.reading n n' ∧
        (Tidy (rounds.map Round.pass) → n' < n)) ∧
    (Tidy (rounds.map Round.pass) → ∀ done round, rounds = done ++ [round] →
      (run config inherited done).1.bridge.batteries.find? key = some entry →
      ((run config inherited done).1.bridge.tick
        ((run config inherited done).1.poll round)).1.batteries.find? key = some left →
      ∃ n n' past now rest, (run config inherited done).2 ++ ((run config inherited done).1.bridge.tick
          ((run config inherited done).1.poll round)).2 =
          past ++ ⟨key, now, .accepted left.1.reading (some n)⟩ :: rest ∧
        Confirmed (Reader.run (rounds.map Round.pass)).2 past key left.1.reading n n' ∧ n' < n) := by
  constructor
  · intro before m after hmoves hlive hleft
    exact confirmed_of_jump config inherited rounds hmoves hlive hleft hjump
  · rintro htidy done round rfl hlive hleft
    exact confirmed_of_poll config inherited done round htidy hlive hleft hjump

/-- Two messages close to each other take a level of fifty down to twenty-four. -/
theorem no_unconfirmed_jump_of_fall :
    let config : Config := ⟨seconds 60, seconds 10, seconds 30, "/dev/uhid"⟩
    let answers : Answers ℕ := ⟨.error "unused", .ok (), .ok (some "hid-0"), .ok ()⟩
    let round (now : ℕ) (level : UInt8) : Round ℕ ℕ :=
      ⟨.daily now [(.on 0x4b18 4, .fetching (batteryFrame level) (seconds now))], seconds now, false,
        fun _ => answers, []⟩
    let done := [round 1 50, round 2 22]
    ∃ n n' past now rest reading,
      (run config [7] done).2 ++ ((run config [7] done).1.bridge.tick
          ((run config [7] done).1.poll (round 3 24))).2 =
        past ++ ⟨"3329:4b18/Audeze Maxwell", now, .accepted reading (some n)⟩ :: rest ∧
      Confirmed (Reader.run ((done ++ [round 3 24]).map Round.pass)).2 past
        "3329:4b18/Audeze Maxwell" reading n n' ∧ n' < n := by
  intro config answers round done
  have hbefore : ((run config [7] done).1.bridge.batteries.find?
      "3329:4b18/Audeze Maxwell").map (fun entry => entry.1.reading.percent) = some 50 := by decide +kernel
  have hafter : (((run config [7] done).1.bridge.tick
      ((run config [7] done).1.poll (round 3 24))).1.batteries.find?
        "3329:4b18/Audeze Maxwell").map (fun entry => entry.1.reading.percent) = some 24 := by
    decide +kernel
  obtain ⟨entry, hlive, hentry⟩ := Option.map_eq_some_iff.1 hbefore
  obtain ⟨left, hleft, hshown⟩ := Option.map_eq_some_iff.1 hafter
  have hjump : maxPlausibleStep < absDiff entry.1.reading.percent left.1.reading.percent := by
    rw [hentry, hshown]
    decide
  have htidy : Tidy ((done ++ [round 3 24]).map Round.pass) :=
    ⟨by decide, by decide, by decide +kernel⟩
  have hpoll := (no_unconfirmed_jump config [7] (done ++ [round 3 24]) "3329:4b18/Audeze Maxwell"
    entry left hjump).2 htidy done (round 3 24) rfl hlive
  obtain ⟨n, n', past, now, rest, hevents, hconfirmed, hlt⟩ := hpoll hleft
  exact ⟨n, n', past, now, rest, _, hevents, hconfirmed, hlt⟩

/-- Two dongles of one product share a battery. Their readings can take its level
down by twenty-eight points in one poll that defers nothing, and the message that
confirms a reading can be a newer one. -/
theorem jumps_of_two_dongles :
    let config : Config := ⟨seconds 60, seconds 10, seconds 30, "/dev/uhid"⟩
    let answers : Answers ℕ := ⟨.error "unused", .ok (), .ok (some "hid-0"), .ok ()⟩
    let round (now : ℕ) (listed : List (Dongle ℕ × Exchange ℕ)) : Round ℕ ℕ :=
      ⟨.daily now listed, seconds now, false, fun _ => answers, []⟩
    let hears (now : ℕ) (level : UInt8) : Exchange ℕ := .fetching (batteryFrame level) (seconds now)
    let silent (now : ℕ) : Exchange ℕ := .fetching silentFrame (seconds now)
    let refused (now : ℕ) (level : UInt8) : Exchange ℕ :=
      { hears now level with written := .error ⟨"EIO", false, false⟩ }
    let shown (rounds : List (Round ℕ ℕ)) : Option ℕ :=
      ((run config [7] rounds).1.bridge.batteries.find? "3329:4b18/Audeze Maxwell").map
        fun entry => entry.1.reading.percent
    let first := round 1 [(.on 0x4b18 4, hears 1 50), (.on 0x4b18 5, silent 1)]
    let fall := round 2 [(.on 0x4b18 4, hears 2 36), (.on 0x4b18 5, hears 2 22)]
    let withheld := round 2 [(.on 0x4b18 4, silent 2), (.on 0x4b18 5, refused 2 20)]
    let crossed := round 3 [(.on 0x4b18 4, hears 3 20), (.on 0x4b18 5, silent 3)]
    (shown [first] = some 50 ∧ shown [first, fall] = some 22 ∧
      (∀ e ∈ (run config [7] [first, fall]).2, e.leaves "3329:4b18/Audeze Maxwell" = none ∨
        e.leaves "3329:4b18/Audeze Maxwell" = some none)) ∧
    shown [first, withheld] = some 50 ∧ shown [first, withheld, crossed] = some 20 ∧
      ∃ past rest, (run config [7] [first, withheld, crossed]).2 =
        past ++ ⟨"3329:4b18/Audeze Maxwell", seconds 3, .deferred ⟨20, false⟩ (some 3)⟩ ::
          ⟨"3329:4b18/Audeze Maxwell", seconds 3, .accepted ⟨20, false⟩ (some 2)⟩ :: rest := by
  intro config answers round hears silent refused shown first fall withheld crossed
  refine ⟨by decide +kernel, by decide +kernel, by decide +kernel, ?_⟩
  let events := (run config [7] [first, withheld, crossed]).2
  exact ⟨events.take 4, events.drop 6, by decide +kernel⟩

/-- Nor is it enough that every pass lists a product and a node once. A dongle whose node
another one takes meanwhile comes back to the session it left there: the level of its
first message takes the battery from fifty down to twenty-two, confirmed by the fourth. -/
theorem jump_of_taken_node :
    let config : Config := ⟨seconds 60, seconds 10, seconds 30, "/dev/uhid"⟩
    let answers : Answers ℕ := ⟨.error "unused", .ok (), .ok (some "hid-0"), .ok ()⟩
    let round (now : ℕ) (listed : List (Dongle ℕ × Exchange ℕ)) : Round ℕ ℕ :=
      ⟨.daily now listed, seconds now, false, fun _ => answers, []⟩
    let hears (now : ℕ) (level : UInt8) : Exchange ℕ := .fetching (batteryFrame level) (seconds now)
    let silent (now : ℕ) : Exchange ℕ := .fetching silentFrame (seconds now)
    let taken (now : ℕ) (level : UInt8) : Round ℕ ℕ :=
      round now [(.on 0x4b18 3, hears now level), (.on 0x4b19 4, silent now)]
    let done := [round 1 [(.on 0x4b18 4, hears 1 22)], taken 2 50, taken 3 50, taken 4 20]
    let rounds := done ++ [round 5 [(.on 0x4b18 4, silent 5)]]
    let shown (rounds : List (Round ℕ ℕ)) : Option ℕ :=
      ((run config [7, 8] rounds).1.bridge.batteries.find? "3329:4b18/Audeze Maxwell").map
        fun entry => entry.1.reading.percent
    (∀ p ∈ rounds.map Round.pass, (p.listed.map fun v => v.1.productId).Nodup ∧
        (p.listed.map fun v => v.1.node).Nodup) ∧
      shown done = some 50 ∧ shown rounds = some 22 ∧
      ∃ past between rest, (run config [7, 8] rounds).2 =
          past ++ ⟨"3329:4b18/Audeze Maxwell", seconds 4, .deferred ⟨20, false⟩ (some 4)⟩ ::
            (between ++
              ⟨"3329:4b18/Audeze Maxwell", seconds 5, .accepted ⟨22, false⟩ (some 1)⟩ :: rest) ∧
        ∀ e ∈ between, e.leaves "3329:4b18/Audeze Maxwell" = none := by
  intro config answers round hears silent taken done rounds shown
  refine ⟨by decide, by decide +kernel, by decide +kernel, ?_⟩
  let events := (run config [7, 8] rounds).2
  exact ⟨events.take 10, (events.drop 11).take 1, events.drop 13, by decide +kernel,
    by decide +kernel⟩

end HeadsetBattery.Native
