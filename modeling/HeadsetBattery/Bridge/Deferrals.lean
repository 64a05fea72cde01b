import HeadsetBattery.Library.Traces
import HeadsetBattery.Bridge.Turns

/-!
# A jump and the reading that confirms it

A reading too far off is deferred, and a later one close to it confirms it. What
a battery has deferred is what the last verdict on its headset was, and that
verdict came from a reading of the run.
-/
namespace HeadsetBattery.Bridge

open Traces

variable {Handle : Type}

/-- What an event leaves deferred for a headset, if it says anything about it: a
deferral leaves the reading and its sample, any other verdict nothing. -/
def Event.leaves (key : String) (e : Event) : Option (Option (Reading × Option ℕ)) :=
  if e.key = key then
    match e.deed with
    | .deferred reading sample => some (some (reading, sample))
    | .appeared _ | .held _ _ | .accepted _ _ => some none
    | _ => none
  else none

theorem Event.leaves_of_isLevel {key : String} {e : Event}
    (h : e.key = key → e.deed.isLevel = false) : e.leaves key = none := by
  unfold leaves
  split
  next hkey =>
    have := h hkey
    cases hd : e.deed <;> rw [hd] at this <;> first | rfl | cases this
  next => rfl

theorem Quiet.leaves {key : String} {events : List Event} (h : Quiet key events) :
    ∀ e ∈ events, e.leaves key = none :=
  fun e he => Event.leaves_of_isLevel (h e he)

/-- What a verdict leaves deferred. -/
def Verdict.leaves (reading : Reading) (sample : Option ℕ) : Verdict → Option (Reading × Option ℕ)
  | .defer => some (reading, sample)
  | .accept | .hold => none

theorem Verdict.leaves_deed (key : String) (now : ℕ) (verdict : Verdict) (reading : Reading)
    (sample : Option ℕ) :
    Event.leaves key ⟨key, now, verdict.deed reading sample⟩ =
      some (verdict.leaves reading sample) := by
  cases verdict <;> simp [Event.leaves, Verdict.deed, Verdict.leaves]

/-- One of the moves gave this headset this reading, with this sample. -/
def Given (key : String) (moves : List (Move Handle)) (reading : Reading) (sample : Option ℕ) :
    Prop :=
  ∃ now h a, .apply now (h, a) ∈ moves ∧ h.key = key ∧ h.sample = sample ∧
    ∃ known, h.battery.reading known = some reading

/-- What a battery has deferred is what the last verdict left. -/
def Deferral (key : String) (moves : List (Move Handle)) (entry : Entry Handle)
    (events : List Event) : Prop :=
  ∃ before left, Last (Event.leaves key) events before left ∧
    entry.2.deferred = left.map (fun kept => kept.1.percent) ∧
    ∀ reading sample, left = some (reading, sample) →
      entry.2.deferredSample = sample ∧ Given key moves reading sample

theorem Deferral.append {key : String} {moves more : List (Move Handle)}
    {entry entry' : Entry Handle} {events quiet : List Event}
    (h : Deferral key moves entry events) (hd : entry'.2.deferred = entry.2.deferred)
    (hs : entry'.2.deferredSample = entry.2.deferredSample) (hq : Quiet key quiet) :
    Deferral key (moves ++ more) entry' (events ++ quiet) := by
  obtain ⟨before, left, hlast, hdeferred, hkept⟩ := h
  refine ⟨before, left, hlast.append hq.leaves, hd.trans hdeferred, fun reading sample hl => ?_⟩
  obtain ⟨hsample, now, h, a, hmem, hgiven⟩ := hkept reading sample hl
  exact ⟨hs.trans hsample, now, h, a, List.mem_append_left _ hmem, hgiven⟩

/-- A verdict is the last one, whatever was deferred before. -/
theorem Answered.deferral {key : String} {moves : List (Move Handle)} {now : ℕ} {h : Headset}
    {a : Answers Handle} {entry left : Entry Handle} {reading : Reading} {deeds : List Deed}
    {events : List Event} (hanswered : Answered entry reading h.sample (some left) deeds)
    (hkey : h.key = key) {known : ℕ} (hread : h.battery.reading known = some reading) :
    Deferral key (moves ++ [.apply now (h, a)]) left (events ++ stamp key now deeds) := by
  obtain ⟨pushes, rest, rfl, hrest, hpushes⟩ := hanswered.deeds
  have hquiet : ∀ e ∈ stamp key now (pushes ++ rest), e.leaves key = none := by
    intro e he
    obtain ⟨d, hd, rfl⟩ := List.mem_map.1 he
    obtain hd | hd := List.mem_append.1 hd
    · obtain ⟨rfl, -, -⟩ | ⟨level, ok, -, rfl, -⟩ := hpushes
      · cases hd
      · obtain rfl := List.mem_singleton.1 hd
        simp [Event.leaves]
    · exact Event.leaves_of_isLevel fun _ => hrest d hd
  have hlast := (last_snoc events (Verdict.leaves_deed key now (entry.verdict reading h.sample)
    reading h.sample)).append hquiet
  rw [List.append_assoc] at hlast
  obtain ⟨hdefer, hclear⟩ := hanswered.deferred left rfl
  refine ⟨events, _, hlast, ?_, fun reading' sample hkept => ?_⟩
  · cases hv : entry.verdict reading h.sample with
    | defer => exact (hdefer hv).1
    | accept => exact hclear (by simp [hv])
    | hold => exact hclear (by simp [hv])
  · cases hv : entry.verdict reading h.sample with
    | defer =>
        rw [hv] at hkept
        obtain ⟨rfl, rfl⟩ := Prod.mk.inj (Option.some.inj hkept)
        exact ⟨(hdefer hv).2, now, h, a, by simp, hkey, rfl, known, hread⟩
    | accept =>
        rw [hv] at hkept
        cases hkept
    | hold =>
        rw [hv] at hkept
        cases hkept

/-- Every live battery, at every point of a run. -/
theorem deferral_reached (config : Config) (inherited : List Handle)
    (moves : List (Move Handle)) (key : String) :
    ∀ entry, (reached config inherited moves).batteries.find? key = some entry →
      Deferral key moves entry (Runs.exec move (new config inherited) moves).2 := by
  refine Runs.exec_history (fun moves (b : Bridge Handle) events => ∀ entry,
    b.batteries.find? key = some entry → Deferral key moves entry events) ?_ ?_ moves
  · intro entry hlive
    cases hlive
  · intro done m hdeferral left hleft
    have hturn := move_turn (reached_inStep config inherited done) m key
    rw [reached, hleft] at hturn
    generalize (Runs.exec move (new config inherited) done).1.batteries.find? key = was
      at hturn hdeferral
    generalize (move (Runs.exec move (new config inherited) done).1 m).2 = events at hturn ⊢
    cases hturn with
    | same _ deferred sample quiet => exact (hdeferral _ rfl).append deferred sample quiet
    | @appeared now h a handle reading deeds moved mine offered attempts =>
        have hnone : Event.leaves key ⟨key, now, .appeared reading⟩ = some none := by
          simp [Event.leaves]
        have hlast := last_snoc
          ((Runs.exec move (new config inherited) done).2 ++ stamp key now deeds) hnone
        have happeared : stamp key now (deeds ++ [.appeared reading]) =
            stamp key now deeds ++ [⟨key, now, .appeared reading⟩] := by simp [stamp]
        rw [happeared, ← List.append_assoc]
        exact ⟨_, none, hlast, rfl, fun _ _ hkept => by cases hkept⟩
    | answered moved mine read answered =>
        rw [moved]
        exact answered.deferral mine read

/-! ## A jump -/

theorem of_secondOpinion {deferred deferredSample sample : Option ℕ} {previous : ℕ}
    (h : secondOpinion deferred deferredSample sample = some previous) :
    deferred = some previous ∧ (sample.isSome → sample ≠ deferredSample) := by
  unfold secondOpinion at h
  split at h
  next => cases h
  next hother => exact ⟨h, fun hsome he => hother ⟨hsome, he⟩⟩

theorem absDiff_self (n : ℕ) : absDiff n n = 0 := by
  unfold absDiff
  omega

/-- A reading that moves the level far is accepted, on a second opinion. -/
theorem Answered.jump {entry left : Entry Handle} {reading : Reading} {sample : Option ℕ}
    {deeds : List Deed} (h : Answered entry reading sample (some left) deeds)
    (hjump : maxPlausibleStep < absDiff entry.1.reading.percent left.1.reading.percent) :
    left.1.reading = reading ∧ (∃ rest, deeds = .accepted reading sample :: rest) ∧
      ∃ previous, entry.2.deferred = some previous ∧
        absDiff previous reading.percent ≤ confirmTolerance ∧
        (sample.isSome → sample ≠ entry.2.deferredSample) := by
  obtain ⟨pushes, rest, hdeeds, -, ⟨-, -, hsame⟩ | ⟨level, ok, hlevel, -, hshown⟩⟩ := h.deeds
  · rw [hsame left rfl, absDiff_self] at hjump
    cases hjump
  · have hshown := hshown left rfl
    cases ok with
    | false =>
        rw [hshown, if_neg Bool.false_ne_true, absDiff_self] at hjump
        cases hjump
    | true =>
        rw [if_pos rfl] at hshown
        rw [hshown] at hjump ⊢
        obtain ⟨hv, rfl⟩ | ⟨-, rfl⟩ := Verdict.level_eq_some.1 hlevel
        · rw [hv] at hdeeds
          obtain ⟨previous, hopinion, hclose⟩ := confirmed_of_vet hv hjump
          obtain ⟨hdeferred, hother⟩ := of_secondOpinion hopinion
          exact ⟨rfl, ⟨_, hdeeds⟩, previous, hdeferred, hclose, hother⟩
        · rw [absDiff_self] at hjump
          cases hjump

/-- A move that takes the level of a battery far is a reading of its headset, and
the last verdict on it was the deferral of another reading, close to the new
level. -/
theorem jump_confirmed (config : Config) (inherited : List Handle) (moves : List (Move Handle))
    (m : Move Handle) {key : String} {entry left : Entry Handle}
    (hlive : (reached config inherited moves).batteries.find? key = some entry)
    (hleft : (reached config inherited (moves ++ [m])).batteries.find? key = some left)
    (hjump : maxPlausibleStep < absDiff entry.1.reading.percent left.1.reading.percent) :
    ∃ now h a, m = .apply now (h, a) ∧ h.key = key ∧
      (∃ known, h.battery.reading known = some left.1.reading) ∧
      (∃ rest, (move (reached config inherited moves) m).2 =
        ⟨key, now, .accepted left.1.reading h.sample⟩ :: rest) ∧
      ∃ before reading sample,
        Last (Event.leaves key) (Runs.exec move (new config inherited) moves).2 before
          (some (reading, sample)) ∧
        absDiff reading.percent left.1.reading.percent ≤ confirmTolerance ∧
        (h.sample.isSome → h.sample ≠ sample) ∧ Given key moves reading sample := by
  have hturn := move_turn (reached_inStep config inherited moves) m key
  rw [reached_append] at hleft
  change (move (reached config inherited moves) m).1.batteries.find? key = some left at hleft
  rw [hlive, hleft] at hturn
  generalize (move (reached config inherited moves) m).2 = events at hturn ⊢
  cases hturn with
  | same device =>
      rw [device, absDiff_self] at hjump
      cases hjump
  | @answered now h a _ reading _ deeds moved mine read answered =>
      obtain ⟨hshown, ⟨rest, hdeeds⟩, previous, hdeferred, hclose, hother⟩ := answered.jump hjump
      obtain ⟨before, kept, hlast, hkept, hgiven⟩ :=
        deferral_reached config inherited moves key _ hlive
      rw [hdeferred] at hkept
      obtain ⟨⟨last, sample⟩, rfl, hpercent⟩ := Option.map_eq_some_iff.1 hkept.symm
      obtain ⟨hsample, hgiven⟩ := hgiven last sample rfl
      subst hshown hdeeds
      exact ⟨now, h, a, moved, mine, ⟨_, read⟩, ⟨_, rfl⟩, before, last, sample, hlast,
        hpercent ▸ hclose, hsample ▸ hother, hgiven⟩

/-! ## A jump within a poll -/

section Polls

variable (config : Config) (inherited : List Handle) (moves : List (Move Handle)) {key : String}

/-- Readings of other headsets leave a battery alone. -/
theorem find?_elsewhere (now : ℕ) {polled : List (Headset × Answers Handle)}
    (h : ∀ other ∈ polled, other.1.key ≠ key) :
    (reached config inherited (moves ++ polled.map (.apply now))).batteries.find? key =
      (reached config inherited moves).batteries.find? key := by
  induction polled generalizing moves with
  | nil => simp
  | cons other polled ih =>
      obtain ⟨hother, hrest⟩ := List.forall_mem_cons.1 h
      obtain ⟨left, deeds, htouches, -, -⟩ :=
        applyOne_spec (reached_inStep config inherited moves) now other
      have hsplit : moves ++ (other :: polled).map (.apply now) =
          (moves ++ [.apply now other]) ++ polled.map (.apply now) := by simp
      rw [hsplit, ih _ hrest, reached_append]
      exact htouches.elsewhere (Ne.symm hother)

/-- The end of a poll leaves the devices of the batteries it keeps alone. -/
theorem device_of_judged (now : ℕ) {left : Entry Handle}
    (hleft : (reached config inherited (moves ++ [.note now, .expire now])).batteries.find? key =
      some left) :
    ∃ entry, (reached config inherited moves).batteries.find? key = some entry ∧
      entry.1 = left.1 := by
  have hstep := reached_inStep config inherited moves
  rw [reached_append] at hleft
  change (((reached config inherited moves).noteAll now).expire now).1.batteries.find? key =
    some left at hleft
  rw [(expire_spec (noteAll_keeps hstep now).inStep now).find?, find?_noteAll] at hleft
  obtain ⟨hnoted, -⟩ := Option.filter_eq_some_iff.1 hleft
  obtain ⟨entry, hentry, rfl⟩ := Option.map_eq_some_iff.1 hnoted
  exact ⟨entry, hentry, rfl⟩

/-- Where no two headsets of a poll share a key, a battery whose level the poll
takes far is taken there by the one reading of its headset. -/
theorem jump_of_tick {t : Tick Handle} (hkeys : (t.withBattery.map fun p => p.1.key).Nodup)
    {entry left : Entry Handle}
    (hlive : (reached config inherited moves).batteries.find? key = some entry)
    (hleft : (reached config inherited (moves ++ t.moves)).batteries.find? key = some left)
    (hjump : maxPlausibleStep < absDiff entry.1.reading.percent left.1.reading.percent) :
    ∃ others polled rest answered, t.withBattery = others ++ polled :: rest ∧
      (reached config inherited
        (moves ++ .probe t :: others.map (.apply t.now))).batteries.find? key = some entry ∧
      (reached config inherited (moves ++ .probe t :: others.map (.apply t.now) ++
        [.apply t.now polled])).batteries.find? key = some answered ∧
      answered.1 = left.1 := by
  have hmoves : moves ++ t.moves =
      ((moves ++ [.probe t]) ++ t.withBattery.map (.apply t.now)) ++
        [.note t.now, .expire t.now] := by
    simp [Tick.moves]
  have hprobed : (reached config inherited (moves ++ [.probe t])).batteries.find? key =
      some entry := by
    rw [reached_append]
    change ((reached config inherited moves).probed t).batteries.find? key = some entry
    rw [(probed_batteries _ t).1, hlive]
  rw [hmoves] at hleft
  obtain ⟨answered, hanswered, hdevice⟩ := device_of_judged config inherited _ t.now hleft
  by_cases hlisted : ∃ polled ∈ t.withBattery, polled.1.key = key
  · obtain ⟨polled, hmem, rfl⟩ := hlisted
    obtain ⟨others, rest, hsplit⟩ := List.append_of_mem hmem
    rw [hsplit, List.map_append, List.map_cons] at hkeys
    obtain ⟨-, hafter, hdistinct⟩ := List.nodup_append.1 hkeys
    have hbefore : ∀ other ∈ others, other.1.key ≠ polled.1.key := fun other hother =>
      hdistinct _ (List.mem_map_of_mem hother) _ (by simp)
    have hrest : ∀ other ∈ rest, other.1.key ≠ polled.1.key := fun other hother he =>
      (List.nodup_cons.1 hafter).1 (he ▸ List.mem_map_of_mem hother)
    refine ⟨others, polled, rest, answered, hsplit, ?_, ?_, hdevice⟩
    · have := find?_elsewhere config inherited (moves ++ [.probe t]) t.now hbefore
      rw [hprobed] at this
      simpa using this
    · have := find?_elsewhere config inherited
        (moves ++ .probe t :: others.map (.apply t.now) ++ [.apply t.now polled]) t.now hrest
      rw [← this, ← hanswered, hsplit]
      simp
  · have hsame := find?_elsewhere config inherited (moves ++ [.probe t]) t.now
      (fun other hother he => hlisted ⟨other, hother, he⟩)
    rw [hanswered, hprobed] at hsame
    obtain rfl := Option.some.inj hsame
    rw [hdevice, absDiff_self] at hjump
    cases hjump

end Polls

end HeadsetBattery.Bridge
