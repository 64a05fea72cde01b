import HeadsetBattery.Native.World

/-!
# What a charging mark says

The kernel is told that a headset is charging with each of its readings, and not
otherwise. Where a reading is deferred, or does not get through, the mark it had stays.
-/
namespace HeadsetBattery

/-- Every reading that a headset gives has this charging mark. -/
def Headset.Marked (wired : Bool) (h : Headset) : Prop :=
  ∀ known reading, h.battery.reading known = some reading → reading.charging = wired

namespace Maxwell

variable {Path : Type}

theorem Session.charging_of_battery {s : Session Path} {wired : Bool} {known : ℕ}
    {reading : Bridge.Reading} (h : (s.battery wired).reading known = some reading) :
    reading.charging = wired := by
  unfold Session.battery at h
  split at h
  · cases h
  · split at h
    next hwired =>
      obtain rfl := Option.some.inj h
      exact hwired.symm
    next hwired =>
      obtain rfl := Option.some.inj h
      exact (Bool.eq_false_iff.2 hwired).symm
  · cases h

/-- A report is marked. -/
def Event.Marked (wired : Bool) : Event Path → Prop
  | .reported _ _ h => h.Marked wired
  | _ => True

variable [LinearOrder Path] [ToString Path]

namespace Reader

theorem Change.marked {start r r' : Reader Path} {m : Move Path} {es : List (Event Path)}
    (c : Change start m r es r') : ∀ e ∈ es, e.Marked m.pass.wired := by
  cases c with
  | heard held fetched =>
      intro e he
      obtain ⟨m, -, rfl⟩ | rfl := mem_hear he <;> trivial
  | suspected =>
      intro e he
      obtain ⟨silence, rfl⟩ := mem_suspect he
      trivial
  | reachable =>
      intro e he
      obtain rfl := mem_reportRecovery he
      trivial
  | reported held =>
      rw [List.forall_mem_singleton]
      exact fun known reading => Session.charging_of_battery
  | withheld =>
      rw [List.forall_mem_singleton]
      exact fun known reading hread => by cases hread
  | _ => simp [Event.Marked, reportError]

/-- The headsets of a pass are marked as the pass finds the cable. -/
theorem marked_reconcile (r : Reader Path) (p : Pass Path) :
    ∀ h ∈ headsets (r.reconcile p).2, h.Marked p.wired := by
  have hevents : ∀ e ∈ (r.reconcile p).2, e.Marked p.wired := by
    refine Runs.exec_induction (fun _ m => m.pass = p) (fun _ _ tr => ∀ e ∈ tr, Event.Marked p.wired e)
      (by simp) (fun done m hinv hm => ?_) p.moves ?_
    · refine (move_chain _ m).keeps (fun _ tr => ∀ e ∈ tr, Event.Marked p.wired e)
        (fun _ es _ tr c htr e he => ?_) _ hinv
      rw [← hm] at htr ⊢
      exact (List.mem_append.1 he).elim (htr e) (c.marked e)
    · intro done m rest he
      have hmem : m ∈ p.moves := by simp [he]
      obtain rfl | hvisit := List.mem_cons.1 hmem
      · rfl
      · obtain ⟨v, -, rfl⟩ := List.mem_map.1 hvisit
        rfl
  intro h hh
  obtain ⟨earlier, later, hsplit⟩ := List.append_of_mem hh
  obtain ⟨pre, node, link, post, he, -⟩ := split_of_headsets hsplit
  exact hevents (.reported node link h) (by simp [he])

end Reader

end Maxwell

namespace Bridge

variable {Handle : Type} {key : String} {wired : Bool}

/-! ## Readings that get through -/

/-- A new device, or a reading that was not deferred. -/
def Deed.tells : Deed → Bool
  | appeared _ | held _ _ | accepted _ _ => true
  | _ => false

/-- A push to the device of this headset that failed. -/
def Event.fails (key : String) (e : Event) : Bool :=
  decide (e.key = key) && match e.deed with | .pushed _ ok => !ok | _ => false

/-- One of the readings of this headset was not deferred, and no push of it failed: that
comes right behind the verdict. -/
def gotThrough (key : String) : List Event → Bool
  | [] => false
  | e :: events =>
      (decide (e.key = key) && e.deed.tells && !events.head?.any (Event.fails key)) ||
        gotThrough key events

theorem gotThrough_append {events events' : List Event}
    (h : events'.head?.any (Event.fails key) = false) :
    gotThrough key (events ++ events') = (gotThrough key events || gotThrough key events') := by
  induction events with
  | nil => rfl
  | cons e events ih =>
      have hhead : (events ++ events').head?.any (Event.fails key) =
          events.head?.any (Event.fails key) := by
        cases events with
        | nil => exact h
        | cons e events => rfl
      simp only [List.cons_append, gotThrough, hhead, ih, Bool.or_assoc]

theorem Quiet.fails {events : List Event} (h : Quiet key events) :
    events.head?.any (Event.fails key) = false := by
  cases events with
  | nil => rfl
  | cons e events =>
      by_cases hkey : e.key = key
      · have hquiet := h e (by simp) hkey
        cases hd : e.deed <;> simp_all [Event.fails, Deed.isLevel]
      · simp [Event.fails, hkey]

theorem Quiet.gotThrough {events : List Event} (h : Quiet key events) :
    gotThrough key events = false := by
  induction events with
  | nil => rfl
  | cons e events ih =>
      obtain ⟨hone, hrest⟩ := List.forall_mem_cons.1 h
      have htells : (decide (e.key = key) && e.deed.tells) = false := by
        by_cases hkey : e.key = key
        · have hquiet := hone hkey
          cases hd : e.deed <;> simp_all [Deed.tells, Deed.isLevel]
        · simp [hkey]
      rw [Bridge.gotThrough, htells, ih hrest]
      rfl

/-- What happens to the charging mark of a battery: a reading that gets through sets it,
and nothing else does. -/
structure Marks (key : String) (wired : Bool) (before : Option (Entry Handle))
    (events : List Event) (after : Option (Entry Handle)) : Prop where
  start : events.head?.any (Event.fails key) = false
  mark : ∀ left, after = some left →
    gotThrough key events = true ∧ left.1.reading.charging = wired ∨
      gotThrough key events = false ∧ ∃ entry, before = some entry ∧
        left.1.reading = entry.1.reading

theorem Marks.refl (before : Option (Entry Handle)) : Marks key wired before [] before where
  start := rfl
  mark left hleft := .inr ⟨rfl, left, hleft, rfl⟩

theorem Marks.trans {before between after : Option (Entry Handle)} {events events' : List Event}
    (h : Marks key wired before events between) (h' : Marks key wired between events' after) :
    Marks key wired before (events ++ events') after where
  start := by
    cases events with
    | nil => exact h'.start
    | cons e events => exact h.start
  mark left hleft := by
    rw [gotThrough_append h'.start]
    obtain ⟨hgot, hmark⟩ | ⟨hnot, mid, hmid, hsame⟩ := h'.mark left hleft
    · exact .inl ⟨by simp [hgot], hmark⟩
    · obtain ⟨hgot, hmark⟩ | ⟨hnot', entry, hentry, hsame'⟩ := h.mark mid hmid
      · exact .inl ⟨by simp [hgot], by rw [hsame, hmark]⟩
      · exact .inr ⟨by simp [hnot, hnot'], entry, hentry, hsame.trans hsame'⟩

/-- Nothing about the level. -/
theorem Marks.of_quiet {before after : Option (Entry Handle)} {events : List Event}
    (h : Quiet key events)
    (hsame : ∀ left, after = some left → ∃ entry, before = some entry ∧ left.1 = entry.1) :
    Marks key wired before events after where
  start := h.fails
  mark left hleft := by
    obtain ⟨entry, hentry, hdevice⟩ := hsame left hleft
    exact .inr ⟨h.gotThrough, entry, hentry, by rw [hdevice]⟩

/-- The deeds of a reading: the verdict, then a push at most. -/
theorem gotThrough_verdict (key : String) (now : ℕ) (verdict : Deed) {rest : List Deed}
    (hrest : ∀ d ∈ rest, d.isLevel = false) :
    gotThrough key (stamp key now (verdict :: rest)) = verdict.tells ∧
      ∀ level ok, gotThrough key (stamp key now (verdict :: .pushed level ok :: rest)) =
        (verdict.tells && ok) := by
  have hquiet : Quiet key (stamp key now rest) := quiet_stamp hrest
  have hstamp (d : Deed) (deeds : List Deed) :
      stamp key now (d :: deeds) = ⟨key, now, d⟩ :: stamp key now deeds := rfl
  refine ⟨?_, fun level ok => ?_⟩
  · simp [hstamp, gotThrough, hquiet.fails, hquiet.gotThrough]
  · simp [hstamp, gotThrough, hquiet.gotThrough, Event.fails, Deed.tells]

/-- A reading of a live battery: what the verdict leaves of it has its mark, and is what
is shown if no push of it fails. -/
theorem Answered.marks {entry : Entry Handle} {reading : Reading} {sample : Option ℕ}
    {left : Option (Entry Handle)} {deeds : List Deed} (now : ℕ)
    (h : Answered entry reading sample left deeds) (hmark : reading.charging = wired) :
    Marks key wired (some entry) (stamp key now deeds) left := by
  obtain ⟨pushes, rest, rfl, hrest, hpushes⟩ := h.deeds
  obtain ⟨hverdict, hpushed⟩ :=
    gotThrough_verdict key now ((entry.verdict reading sample).deed reading sample) hrest
  have hstart : Event.fails key ⟨key, now, (entry.verdict reading sample).deed reading sample⟩ =
      false := by
    cases entry.verdict reading sample <;> simp [Event.fails, Verdict.deed]
  refine ⟨by simpa [stamp] using hstart, fun e he => ?_⟩
  -- What is left to publish has the mark of the reading: a held one is discharging, and
  -- so is what is published.
  have hlevel : ∀ level, (entry.verdict reading sample).level entry.1.reading reading = some level →
      ((entry.verdict reading sample).deed reading sample).tells = true ∧ level.charging = wired := by
    intro level hlevel
    obtain ⟨hverdict, rfl⟩ | ⟨hverdict, rfl⟩ := Verdict.level_eq_some.1 hlevel
    · exact ⟨by rw [hverdict]; rfl, hmark⟩
    · obtain ⟨-, hcandidate, hpublished, -⟩ := vet_eq_hold.1 hverdict
      exact ⟨by rw [hverdict]; rfl, by rw [hpublished, ← hmark, hcandidate]⟩
  obtain ⟨rfl, hshown, hsame⟩ | ⟨level, ok, hsome, rfl, hshown⟩ := hpushes
  · rw [List.nil_append, hverdict, hsame e he]
    cases hl : (entry.verdict reading sample).level entry.1.reading reading with
    | none =>
        have hdefer : entry.verdict reading sample = .defer := by
          cases hv : entry.verdict reading sample <;> simp [hv, Verdict.level] at hl ⊢
        exact .inr ⟨by rw [hdefer]; rfl, entry, rfl, rfl⟩
    | some level =>
        obtain ⟨htells, hcharging⟩ := hlevel level hl
        exact .inl ⟨htells, by rw [hshown level hl, hcharging]⟩
  · obtain ⟨htells, hcharging⟩ := hlevel level hsome
    rw [List.singleton_append, hpushed, htells, hshown e he]
    cases ok with
    | true => exact .inl ⟨rfl, hcharging⟩
    | false => exact .inr ⟨rfl, entry, rfl, rfl⟩

/-- A move whose headset, if it lists one, has this charging mark. -/
def Move.Marked (wired : Bool) (m : Move Handle) : Prop :=
  ∀ now h a, m = .apply now (h, a) → h.Marked wired

theorem marks_of_turn {m : Move Handle} (hm : m.Marked wired) {before after : Option (Entry Handle)}
    {events : List Event} (h : Turn key m before events after) :
    Marks key wired before events after := by
  cases h with
  | absent quiet => exact .of_quiet quiet (by simp)
  | gone quiet => exact .of_quiet quiet (by simp)
  | same device deferred sample quiet =>
      refine .of_quiet quiet fun left hleft => ⟨_, rfl, ?_⟩
      rw [← Option.some.inj hleft, device]
  | @appeared now headset a handle reading deeds moved mine offered attempts =>
      have hquiet : Quiet key (stamp key now deeds) := quiet_stamp attempts
      have hlast : stamp key now (deeds ++ [.appeared reading]) =
          stamp key now deeds ++ [⟨key, now, .appeared reading⟩] := by simp [stamp]
      have hshows : Event.fails key ⟨key, now, .appeared reading⟩ = false := by simp [Event.fails]
      have hmark := hm now headset a moved 0 reading (BatteryState.reading_of_offer offered 0)
      rw [hlast]
      refine ⟨?_, fun left hleft => .inl ⟨?_, ?_⟩⟩
      · have hfails := hquiet.fails
        revert hfails
        cases stamp key now deeds with
        | nil => exact fun _ => by simpa using hshows
        | cons e events => exact id
      · rw [gotThrough_append (by simpa using hshows)]
        simp [gotThrough, Deed.tells]
      · rw [← Option.some.inj hleft]
        exact hmark
  | @answered now headset a entry reading left deeds moved mine read answered =>
      exact answered.marks now (hm now headset a moved _ reading read)

/-- Moves that list headsets with one mark. -/
theorem marks_of_moves {b : Bridge Handle} (hb : b.batteries.InStep) {moves : List (Move Handle)}
    (hmoves : ∀ m ∈ moves, m.Marked wired) :
    Marks key wired (b.batteries.find? key) (Runs.exec move b moves).2
      ((Runs.exec move b moves).1.batteries.find? key) := by
  induction moves generalizing b with
  | nil => exact .refl _
  | cons m moves ih =>
      obtain ⟨hm, hmoves⟩ := List.forall_mem_cons.1 hmoves
      exact (marks_of_turn hm (move_turn hb m key)).trans (ih (move_keeps b m hb).inStep hmoves)

end Bridge

namespace Native

open Maxwell Bridge

variable {Path Handle : Type} [LinearOrder Path] [ToString Path]

/-- A turn marks what the pass of its round finds. -/
theorem Daemon.marks (d : Daemon Path Handle) (hb : d.bridge.batteries.InStep)
    (round : Round Path Handle) (key : String) :
    Marks key round.pass.wired (d.bridge.batteries.find? key) (d.turn round).2
      ((d.turn round).1.bridge.batteries.find? key) := by
  have hinputs : Runs.exec step d.bridge (.tick (d.poll round) :: round.waits.map .wait) =
      Runs.exec move d.bridge
        ((.tick (d.poll round) :: round.waits.map Input.wait).flatMap Input.moves) := by
    rw [← Runs.exec_flatMap]
    congr 1
    funext b input
    exact step_eq_moves b input
  rw [Daemon.turn, hinputs]
  refine marks_of_moves hb fun m hm now h a happly => ?_
  subst happly
  obtain ⟨input, hinput, hm⟩ := List.mem_flatMap.1 hm
  obtain rfl | hwait := List.mem_cons.1 hinput
  · obtain ⟨hpolled, -⟩ : (h, a) ∈ (d.poll round).withBattery ∧ (d.poll round).now = now := by
      simpa [Input.moves, Tick.moves] using hm
    have hlisted : h ∈ Reader.headsets (d.reader.reconcile round.pass).2 := by
      rw [← withBattery_tick round Reader.supports_of_mem_headsets]
      exact List.mem_map_of_mem hpolled
    exact Reader.marked_reconcile _ _ h hlisted
  · obtain ⟨w, -, rfl⟩ := List.mem_map.1 hwait
    obtain ⟨err, -, he⟩ := List.mem_map.1 hm
    cases he

/-- What the bridge does in a turn, after the turns before it. -/
def deedsOf (config : Config) (inherited : List Handle) (before : List (Encounter Path Handle))
    (met : Encounter Path Handle) : List Bridge.Event :=
  ((run config inherited (before.map fun met => met.round met.sysfs)).1.turn
    (met.round met.sysfs)).2

/-- The charging mark on the desktop follows the cable. At every point of every run, a
live battery is shown charging exactly if, in the last turn in which a reading of its
headset got through, a headset was on a cable: a USB device of Audeze was there, with its
IDs as the kernel writes them, that is no dongle. -/
theorem mark_follows_cable (config : Config) (inherited : List Handle)
    (meetings : List (Encounter Path Handle)) (key : String) (entry : Entry Handle)
    (hlive : (run config inherited
      (meetings.map fun met => met.round met.sysfs)).1.bridge.batteries.find? key = some entry) :
    ∃ before met after, meetings = before ++ met :: after ∧
      gotThrough key (deedsOf config inherited before met) = true ∧
      (∀ mid later rest, after = mid ++ later :: rest →
        gotThrough key (deedsOf config inherited (before ++ met :: mid) later) = false) ∧
      entry.1.reading.charging = met.sysfs.headsetIsWired ∧
      ∀ ids : List (Option (UInt16 × UInt16)),
        met.sysfs.usbDevices = some (ids.map Sysfs.written) →
        (entry.1.reading.charging = true ↔
          ∃ product, some (vendorId, product) ∈ ids ∧ product ∉ productIds) := by
  induction meetings using List.reverseRecOn generalizing entry with
  | nil => cases hlive
  | append_singleton before met ih =>
      have hb : (run config inherited
          (before.map fun met => met.round met.sysfs)).1.bridge.batteries.InStep := by
        rw [run_eq]
        exact reached_inStep config inherited _
      have hmarks := Daemon.marks _ hb (met.round met.sysfs) key
      rw [List.map_append, List.map_singleton, run, Runs.exec_snoc] at hlive
      obtain ⟨hgot, hmark⟩ | ⟨hnot, earlier, hearlier, hsame⟩ := hmarks.mark entry hlive
      · refine ⟨before, met, [], rfl, hgot, by simp, hmark, fun ids hids => ?_⟩
        rw [hmark, ← Sysfs.headsetIsWired_iff hids]
        rfl
      · obtain ⟨first, last, after, rfl, hgot, hlater, hmark⟩ := ih earlier hearlier
        refine ⟨first, last, after ++ [met], by simp, hgot, fun mid later rest he => ?_, ?_⟩
        · obtain rfl | ⟨rest, last', rfl⟩ := List.eq_nil_or_concat rest
          · obtain ⟨rfl, hmet⟩ := List.append_inj' he rfl
            obtain rfl := List.singleton_inj.1 hmet
            exact hnot
          · rw [List.concat_eq_append, ← List.cons_append, ← List.append_assoc] at he
            exact hlater mid later rest (List.append_inj' he rfl).1
        · rw [hsame]
          exact hmark

/-- The headset is plugged in between two polls, then its dongle cannot be read. -/
theorem mark_follows_cable_of_plug :
    let config : Config := ⟨seconds 60, seconds 10, seconds 30, "/dev/uhid"⟩
    let answers : Answers ℕ := ⟨.error "unused", .ok (), .ok (some "hid-0"), .ok ()⟩
    let dongle : Node ℕ := ⟨4, .usb, vendorId, 0x4b18, "Audeze Dongle"⟩
    let ids (now : ℕ) : List (Option (UInt16 × UInt16)) :=
      if now = 0 then [none, some (vendorId, 0x4b18)]
      else [none, some (vendorId, 0x4b18), some (vendorId, 0x4b1e)]
    let met (now : ℕ) (x : Exchange ℕ) : Encounter ℕ ℕ :=
      ⟨⟨fun f => .ok ([dongle].filter f.admits), fun _ => none, fun _ => none, fun _ => false,
          some ((ids now).map Sysfs.written)⟩,
        fun _ => x, seconds now, seconds 300, now, false, fun _ => answers, []⟩
    let fetching (level : UInt8) : Exchange ℕ := .fetching (batteryFrame level) 0
    let meetings := [met 0 (fetching 80), met 1 (fetching 80), met 2 (.vanishing 0)]
    ∃ entry, (run config [7]
        (meetings.map fun met => met.round met.sysfs)).1.bridge.batteries.find?
          "3329:4b18/Audeze Maxwell" = some entry ∧ entry.1.reading = ⟨80, true⟩ ∧
      ∃ before met after, meetings = before ++ met :: after ∧
        gotThrough "3329:4b18/Audeze Maxwell" (deedsOf config [7] before met) = true ∧
        entry.1.reading.charging = met.sysfs.headsetIsWired := by
  intro config answers dongle ids met fetching meetings
  have hshown : ((run config [7]
      (meetings.map fun met => met.round met.sysfs)).1.bridge.batteries.find?
        "3329:4b18/Audeze Maxwell").map (fun entry => entry.1.reading) = some ⟨80, true⟩ := by
    decide +kernel
  obtain ⟨entry, hlive, hreading⟩ := Option.map_eq_some_iff.1 hshown
  obtain ⟨before, last, after, hsplit, hgot, -, hmark, -⟩ :=
    mark_follows_cable config [7] meetings "3329:4b18/Audeze Maxwell" entry hlive
  exact ⟨entry, hlive, hreading, before, last, after, hsplit, hgot, hmark⟩

end Native

end HeadsetBattery
