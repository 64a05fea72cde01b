import HeadsetBattery.Library.Traces
import HeadsetBattery.Bridge.Concerns

/-!
# The republish safety net

A level is pushed again once a minute has passed since the last push, so that one
the kernel dropped is made up for. The push stands at the end of a listing, and a
reading that waits for a second opinion never gets there.
-/
namespace HeadsetBattery.Bridge

open Traces

variable {Handle : Type}

/-! ## When a level was last pushed -/

/-- A reading given to a device, at its creation or later. -/
def Deed.isPush : Deed → Bool
  | appeared _ | pushed _ _ => true
  | _ => false

/-- When an event gave a reading to the device of this headset. -/
def pushAt (key : String) (e : Event) : Option ℕ :=
  if e.key = key ∧ e.deed.isPush = true then some e.now else none

theorem pushAt_stamp_eq_none {key : String} {now : ℕ} {deeds : List Deed}
    (h : ∀ d ∈ deeds, d.isPush = false) : ∀ e ∈ stamp key now deeds, pushAt key e = none := by
  intro e he
  obtain ⟨d, hd, rfl⟩ := List.mem_map.1 he
  simp [pushAt, h d hd]

/-- What a reading makes of the pushes: nothing, when it is deferred or is what was
published less than the period ago; a push of what vetting left, otherwise. -/
theorem refresh_pushes (entry : Entry Handle) (reading : Reading) (sample : Option ℕ) (now : ℕ)
    (updated : Except String Unit) :
    (refresh entry.1 entry.2 reading sample now updated).1.2.publishedAt = entry.2.publishedAt ∧
        (refresh entry.1 entry.2 reading sample now updated).2 =
          ([(entry.verdict reading sample).deed reading sample], none) ∧
        (entry.verdict reading sample ≠ .defer →
          now - entry.2.publishedAt < republishEvery) ∨
      (refresh entry.1 entry.2 reading sample now updated).1.2.publishedAt = now ∧
        ∃ level pushed, (entry.verdict reading sample).level entry.1.reading reading = some level ∧
          (refresh entry.1 entry.2 reading sample now updated).2 =
            ([(entry.verdict reading sample).deed reading sample, .pushed level updated.isOk],
              some pushed) := by
  have hvet : (vetted { entry.2 with lastReading := now, goneSince := none } entry.1.reading
      reading sample).2 = ((entry.verdict reading sample).level entry.1.reading reading,
        (entry.verdict reading sample).deed reading sample) := vetted_eq _ _ _ _
  have hpublished : (vetted { entry.2 with lastReading := now, goneSince := none } entry.1.reading
      reading sample).1.publishedAt = entry.2.publishedAt := by
    unfold vetted
    split <;> rfl
  simp only [refresh]
  generalize vetted { entry.2 with lastReading := now, goneSince := none } entry.1.reading reading
    sample = vet at hvet hpublished ⊢
  obtain ⟨noted, left, deed⟩ := vet
  obtain ⟨rfl, rfl⟩ := Prod.mk.inj hvet
  simp only at hpublished
  cases hverdict : (entry.verdict reading sample).level entry.1.reading reading with
  | none =>
      refine .inl ⟨hpublished, rfl, fun hne => ?_⟩
      cases hv : entry.verdict reading sample with
      | defer => exact absurd hv hne
      | accept =>
          rw [hv] at hverdict
          cases hverdict
      | hold =>
          rw [hv] at hverdict
          cases hverdict
  | some level =>
      by_cases hsame : entry.1.reading = level ∧ now - noted.publishedAt < republishEvery
      · simp only [if_pos hsame]
        exact .inl ⟨hpublished, trivial, fun _ => hpublished ▸ hsame.2⟩
      · simp only [if_neg hsame]
        refine .inr ⟨trivial, level, ?_⟩
        cases updated with
        | ok _ => exact ⟨_, rfl, rfl⟩
        | error err => exact ⟨_, rfl, rfl⟩

theorem isPush_deed (verdict : Verdict) (reading : Reading) (sample : Option ℕ) :
    (verdict.deed reading sample).isPush = false := by
  cases verdict <;> rfl

theorem not_push_of_settle (entry : Entry Handle) (ok : Bool) :
    ∀ d ∈ (entry.settle ok).2, d.isPush = false := by
  simp only [Entry.settle]
  repeat' split
  all_goals simp [Deed.isPush]

/-- A battery knows when a reading was last pushed to its device. -/
theorem publishedAt_of_answer {entry left : Entry Handle} {reading : Reading} {sample : Option ℕ}
    {now : ℕ} {updated : Except String Unit}
    (h : (entry.answer reading sample now updated).1 = some left) :
    left.2.publishedAt = entry.2.publishedAt ∧
        (∀ d ∈ (entry.answer reading sample now updated).2, d.isPush = false) ∨
      left.2.publishedAt = now ∧ ∃ before d after,
        (entry.answer reading sample now updated).2 = before ++ d :: after ∧ d.isPush = true ∧
          ∀ d' ∈ after, d'.isPush = false := by
  have hrefresh := refresh_pushes entry reading sample now updated
  simp only [Entry.answer] at h ⊢
  generalize refresh entry.1 entry.2 reading sample now updated = done at h hrefresh ⊢
  obtain ⟨answered, deeds, push⟩ := done
  obtain ⟨hsame, hdone, -⟩ | ⟨hnow, level, pushed, -, hdone⟩ := hrefresh
  · obtain ⟨rfl, rfl⟩ := Prod.mk.inj hdone
    obtain rfl := Option.some.inj h
    exact .inl ⟨hsame, by simp [isPush_deed]⟩
  · obtain ⟨rfl, rfl⟩ := Prod.mk.inj hdone
    obtain ⟨failures, rfl, -⟩ := settle_eq_some h
    exact .inr ⟨hnow, [_], _, _, rfl, rfl, not_push_of_settle answered _⟩

theorem publishedAt_of_apply {entry left : Entry Handle} {h : Headset} {now : ℕ}
    {a : Answers Handle} (happly : (entry.apply h now a).1 = some left) :
    left.2.publishedAt = entry.2.publishedAt ∧
        (∀ d ∈ (entry.apply h now a).2, d.isPush = false) ∨
      left.2.publishedAt = now ∧ ∃ before d after,
        (entry.apply h now a).2 = before ++ d :: after ∧ d.isPush = true ∧
          ∀ d' ∈ after, d'.isPush = false := by
  unfold Entry.apply at happly ⊢
  cases hreading : h.battery.reading entry.1.reading.percent with
  | some reading =>
      simp only [hreading] at happly ⊢
      exact publishedAt_of_answer happly
  | none =>
      simp only [hreading] at happly ⊢
      by_cases hgone : h.battery = .disconnected
      · rw [if_pos hgone] at happly ⊢
        obtain ⟨gone, rfl⟩ := leave_eq_some happly
        refine .inl ⟨rfl, ?_⟩
        simp only [Entry.leave]
        split <;> simp [Deed.isPush]
      · rw [if_neg hgone] at happly ⊢
        obtain rfl := Option.some.inj happly
        exact .inl ⟨rfl, by simp⟩

/-- The battery, if there is one, knows when a reading was last pushed to it. -/
def KnowsPush (key : String) (events : List Event) (s : Slot Handle) : Prop :=
  ∀ entry, s.entry = some entry → ∃ before, Last (pushAt key) events before entry.2.publishedAt

/-- The last push among the deeds of one concern. -/
theorem last_of_deeds {key : String} (events : List Event) {now : ℕ} {before after : List Deed}
    {d : Deed} (hd : d.isPush = true) (hafter : ∀ d' ∈ after, d'.isPush = false) :
    ∃ earlier, Last (pushAt key) (events ++ stamp key now (before ++ d :: after)) earlier now := by
  refine ⟨events ++ stamp key now before, ⟨key, now, d⟩, stamp key now after, by simp [stamp], ?_,
    pushAt_stamp_eq_none hafter⟩
  simp [pushAt, hd]

theorem KnowsPush.step {key : String} {events : List Event} {s : Slot Handle}
    (h : KnowsPush key events s) (config : Config) (c : Concern Handle) :
    KnowsPush key (events ++ (Slot.step config key s c).2) (Slot.step config key s c).1 := by
  intro left hleft
  have hleaves := take_leaves hleft
  have kept {entry : Entry Handle} {deeds : List Deed} (live : s.entry = some entry)
      (hsame : left.2.publishedAt = entry.2.publishedAt)
      (hquiet : ∀ d ∈ deeds, d.isPush = false) :
      ∃ before, Last (pushAt key) (events ++ stamp key c.now deeds) before
        left.2.publishedAt := by
    obtain ⟨before, hlast⟩ := h entry live
    exact ⟨before, hsame ▸ hlast.append (pushAt_stamp_eq_none hquiet)⟩
  simp only [Slot.step]
  generalize (s.take config c).2 = deeds at hleaves ⊢
  cases hleaves with
  | listed live applied =>
      obtain ⟨hsame, hquiet⟩ | ⟨hnow, before, d, after, hdeeds, hd, hafter⟩ :=
        publishedAt_of_apply applied
      · exact kept live hsame hquiet
      · rw [hnow, hdeeds]
        exact last_of_deeds events hd hafter
  | @made now headset got a handle reading creations absent offered new creates =>
      subst new
      exact last_of_deeds events (d := .appeared reading) rfl (by simp)
  | noted live clocks =>
      subst clocks
      exact kept live rfl (by simp)
  | judged live => exact kept live rfl (by simp)
  | served live settled =>
      subst settled
      exact kept live rfl (not_push_of_settle _ false)

theorem knowsPush_reached (config : Config) (inherited : List Handle) (key : String)
    (moves : List (Move Handle)) {entry : Entry Handle}
    (hlive : (reached config inherited moves).batteries.find? key = some entry) :
    ∃ before, Last (pushAt key) (Runs.exec move (new config inherited) moves).2 before
      entry.2.publishedAt := by
  have hrun : KnowsPush key (Runs.exec (Slot.step config key) Slot.empty
      (concerns key (new config inherited) moves)).2 (Runs.exec (Slot.step config key) Slot.empty
        (concerns key (new config inherited) moves)).1 := by
    refine Runs.exec_invariant (fun s events => KnowsPush key events s) ?_
      (fun c s events h => h.step config c) _
    intro entry hentry
    cases hentry
  rw [reached_slot] at hrun
  obtain ⟨before, hlast⟩ := hrun entry hlive
  refine hlast.of_filter fun e t he => ?_
  simp only [pushAt] at he
  split at he
  next hpush =>
    obtain ⟨hkey, hdeed⟩ := hpush
    have hown : e.deed ≠ .opensNode := by
      intro hopens
      rw [hopens] at hdeed
      cases hdeed
    simp [Event.isOwn, hkey, hown]
  next => cases he

/-! ## A push is made up for -/

/-- The deeds of a reading: the verdict on it, and a push unless there is none due. -/
theorem answer_deeds (entry : Entry Handle) (reading : Reading) (sample : Option ℕ) (now : ℕ)
    (updated : Except String Unit) :
    (entry.answer reading sample now updated).2 =
          [(entry.verdict reading sample).deed reading sample] ∧
        (entry.verdict reading sample ≠ .defer → now - entry.2.publishedAt < republishEvery) ∨
      ∃ level rest, (entry.verdict reading sample).level entry.1.reading reading = some level ∧
        (entry.answer reading sample now updated).2 =
          (entry.verdict reading sample).deed reading sample :: .pushed level updated.isOk :: rest ∧
        ∀ d ∈ rest, d.isLevel = false := by
  have hrefresh := refresh_pushes entry reading sample now updated
  simp only [Entry.answer]
  generalize refresh entry.1 entry.2 reading sample now updated = done at hrefresh ⊢
  obtain ⟨answered, deeds, push⟩ := done
  obtain ⟨-, hdone, hearly⟩ | ⟨-, level, pushed, hlevel, hdone⟩ := hrefresh
  · obtain ⟨rfl, rfl⟩ := Prod.mk.inj hdone
    exact .inl ⟨rfl, hearly⟩
  · obtain ⟨rfl, rfl⟩ := Prod.mk.inj hdone
    exact .inr ⟨level, _, hlevel, rfl, settle_quiet answered _⟩

/-- Once a push is due, a reading ends in one unless it is deferred: of itself if it
is accepted, of what was published if it is held. -/
theorem push_of_due (entry : Entry Handle) (reading : Reading) (sample : Option ℕ) (now : ℕ)
    (updated : Except String Unit) (hdue : republishEvery ≤ now - entry.2.publishedAt) :
    (∃ ok, .pushed (if .accepted reading sample ∈ (entry.answer reading sample now updated).2
        then reading else entry.1.reading) ok ∈ (entry.answer reading sample now updated).2) ↔
      entry.verdict reading sample ≠ .defer := by
  obtain ⟨hdeeds, hearly⟩ | ⟨level, rest, hlevel, hdeeds, hrest⟩ :=
    answer_deeds entry reading sample now updated
  · have hdefer : entry.verdict reading sample = .defer := by
      by_contra hne
      exact absurd (hearly hne) (Nat.not_lt.2 hdue)
    simp [hdeeds, hdefer, Verdict.deed]
  · have haccepted : .accepted reading sample ∉ rest := by
      intro hd
      cases hrest _ hd
    rw [hdeeds]
    obtain ⟨hv, rfl⟩ | ⟨hv, rfl⟩ := Verdict.level_eq_some.1 hlevel
    · simp [hv, Verdict.deed]
    · simp [hv, Verdict.deed, haccepted]

/-- At a usable level of a live battery, a minute after the last push or later, the
safety net pushes a reading, the accepted one or else the published one, exactly
when the level is plausible or confirms the one deferred before. -/
theorem republished_unless_deferred (config : Config) (inherited : List Handle)
    (before : List (Move Handle)) (now : ℕ) (h : Headset) (a : Answers Handle)
    {entry : Entry Handle} {reading : Reading} {earlier : List Event} {last : ℕ}
    (hlive : (reached config inherited before).batteries.find? h.key = some entry)
    (hread : h.battery.reading entry.1.reading.percent = some reading)
    (hlast : Last (pushAt h.key) (Runs.exec move (new config inherited) before).2 earlier last)
    (hdue : republishEvery ≤ now - last) :
    let events := (move (reached config inherited before) (.apply now (h, a))).2
    (∃ ok, ⟨h.key, now, .pushed (if ⟨h.key, now, .accepted reading h.sample⟩ ∈ events
        then reading else entry.1.reading) ok⟩ ∈ events) ↔
      absDiff entry.1.reading.percent reading.percent ≤ maxPlausibleStep ∨
        ∃ previous, secondOpinion entry.2.deferred entry.2.deferredSample h.sample =
          some previous ∧ absDiff previous reading.percent ≤ confirmTolerance := by
  obtain ⟨earlier', hpublished⟩ := knowsPush_reached config inherited h.key before hlive
  obtain ⟨-, rfl⟩ := hlast.unique hpublished
  obtain ⟨left, deeds, -, hbecomes, hevents⟩ :=
    applyOne_spec (reached_inStep config inherited before) now (h, a)
  rw [hlive] at hbecomes
  change entry.apply h now a = (left, deeds) at hbecomes
  simp only [Entry.apply, hread] at hbecomes
  have hpush := push_of_due (entry.see now) reading h.sample now a.updated hdue
  rw [hbecomes] at hpush
  have hmem (d : Deed) : (⟨h.key, now, d⟩ : Event) ∈
      (move (reached config inherited before) (.apply now (h, a))).2 ↔ d ∈ deeds := by
    rw [move, hevents]
    simp [stamp]
  simp only [hmem]
  rw [show (entry.see now).1 = entry.1 from rfl] at hpush
  rw [hpush, ne_eq, Entry.verdict, vet_eq_defer, not_and, not_not, ← Nat.not_lt]
  exact imp_iff_not_or

/-- Published at the start and held at 61 seconds: the published level is pushed
again. -/
theorem republished_unless_deferred_of_held :
    let config : Config := ⟨seconds 60, seconds 10, seconds 30, "/dev/uhid"⟩
    let answers : Answers ℕ := ⟨.error "unused", .ok (), .ok (some "hid-0"), .ok ()⟩
    let maxwell (percent : ℕ) : Headset :=
      ⟨"Maxwell", "Audeze Maxwell", 0x3329, 0x4b18, true, .discharging percent, none⟩
    let before := Tick.moves ⟨0, false, .ok [(maxwell 80, answers)]⟩
    let events := (move (reached config [7] before) (.apply (seconds 61) (maxwell 85, answers))).2
    ∃ ok, ⟨(maxwell 85).key, seconds 61, .pushed
      (if ⟨(maxwell 85).key, seconds 61, .accepted ⟨85, false⟩ none⟩ ∈ events then ⟨85, false⟩
        else ⟨80, false⟩) ok⟩ ∈ events := by
  intro config answers maxwell before events
  have hlive : ((reached config [7] before).batteries.find? (maxwell 85).key).map
      (fun entry => entry.1.reading) = some ⟨80, false⟩ := by decide +kernel
  obtain ⟨entry, hentry, hshown⟩ := Option.map_eq_some_iff.1 hlive
  have htrace : (Runs.exec move (new config [7]) before).2 =
      [⟨(maxwell 85).key, 0, .acquired⟩,
        ⟨(maxwell 85).key, 0, .created (identityOf (maxwell 80))⟩] ++
        [⟨(maxwell 85).key, 0, .appeared ⟨80, false⟩⟩] := by decide +kernel
  have hlast := last_snoc (f := pushAt (maxwell 85).key)
    [⟨(maxwell 85).key, 0, .acquired⟩,
      ⟨(maxwell 85).key, 0, .created (identityOf (maxwell 80))⟩]
    (e := ⟨(maxwell 85).key, 0, .appeared ⟨80, false⟩⟩) (b := 0) (by decide +kernel)
  rw [← htrace] at hlast
  have hpushes := republished_unless_deferred config [7] before (seconds 61) (maxwell 85) answers
    hentry rfl hlast (by decide)
  rw [hshown] at hpushes
  exact hpushes.2 (.inl (by decide))

/-- A reading too far off, taken at a second and reported again from the cache at 61:
it is deferred once more, and nothing is pushed. -/
theorem republish_missed_while_deferred :
    let config : Config := ⟨seconds 60, seconds 10, seconds 30, "/dev/uhid"⟩
    let answers : Answers ℕ := ⟨.error "unused", .ok (), .ok (some "hid-0"), .ok ()⟩
    let maxwell (percent sample : ℕ) : Headset :=
      ⟨"Maxwell", "Audeze Maxwell", 0x3329, 0x4b18, true, .discharging percent, some sample⟩
    let before := Tick.moves ⟨0, false, .ok [(maxwell 80 1, answers)]⟩ ++
      Tick.moves ⟨seconds 1, false, .ok [(maxwell 40 2, answers)]⟩
    let b := reached config [7] before
    (∃ earlier, Last (pushAt (maxwell 40 2).key) (Runs.exec move (new config [7]) before).2
        earlier 0) ∧
      republishEvery ≤ seconds 61 - 0 ∧
      ((b.batteries.find? (maxwell 40 2).key).map fun entry => entry.1.reading) =
        some ⟨80, false⟩ ∧
      ∀ e ∈ (move b (.apply (seconds 61) (maxwell 40 2, answers))).2,
        e.deed = .deferred ⟨40, false⟩ (some 2) := by
  intro config answers maxwell before b
  refine ⟨?_, by decide, by decide +kernel, by decide +kernel⟩
  have hlive : ((reached config [7] before).batteries.find? (maxwell 40 2).key).map
      (fun entry => entry.2.publishedAt) = some 0 := by decide +kernel
  obtain ⟨entry, hentry, hpublished⟩ := Option.map_eq_some_iff.1 hlive
  exact hpublished ▸ knowsPush_reached config [7] _ before hentry

end HeadsetBattery.Bridge
