import HeadsetBattery.Library.RunningMinimum
import HeadsetBattery.Bridge.NoRise
import HeadsetBattery.Bridge.Republish

/-!
# The lowest level believed

While it is discharging, and no jump is confirmed, a battery shows the lowest of
the levels it was given and that were not deferred: a plausible rise is held and a
plausible fall is taken. A deferred level leaves no trace in what is shown.
-/
namespace HeadsetBattery.Bridge

open RunningMinimum

variable {Handle : Type}

/-! ## What is believed -/

/-- The level of a reading that was not deferred. -/
def Deed.believed : Deed → Option ℕ
  | accepted reading _ | held reading _ => some reading.percent
  | _ => none

/-- The levels of a headset that were not deferred. -/
def believed (key : String) (events : List Event) : List ℕ :=
  events.filterMap fun e => if e.key = key then e.deed.believed else none

def Deed.isDeferred : Deed → Bool
  | deferred _ _ => true
  | _ => false

/-- A reading of this headset was deferred. -/
def defers (key : String) (events : List Event) : Bool :=
  events.any fun e => e.key = key && e.deed.isDeferred

/-- The level a move reports for a headset that is running on battery. -/
def Move.level (key : String) : Move Handle → Option ℕ
  | .apply _ (h, _) =>
      if h.key = key then
        match h.battery with
        | .discharging percent => some percent
        | _ => none
      else none
  | _ => none

/-- Talking to the device of this headset works. -/
def Updates (key : String) (m : Move Handle) : Prop :=
  ∀ now h a, m = .apply now (h, a) → h.key = key → a.updated.isOk = true

/-- A move that does not get a jump of this battery accepted. -/
def Unjumped (key : String) (b : Bridge Handle) (m : Move Handle) : Prop :=
  ∀ now h a percent entry, m = .apply now (h, a) → h.key = key →
    h.battery = .discharging percent → b.batteries.find? key = some entry →
    entry.verdict ⟨percent, false⟩ h.sample = .accept →
    absDiff entry.1.reading.percent percent ≤ maxPlausibleStep

theorem believed_append (key : String) (events events' : List Event) :
    believed key (events ++ events') = believed key events ++ believed key events' :=
  List.filterMap_append

theorem believed_stamp (key : String) (now : ℕ) (deeds : List Deed) :
    believed key (stamp key now deeds) = deeds.filterMap Deed.believed := by
  simp [believed, stamp, List.filterMap_map]

theorem believed_of_isLevel {d : Deed} (h : d.isLevel = false) : d.believed = none := by
  cases d <;> first | rfl | cases h

theorem Quiet.believed {key : String} {events : List Event} (h : Quiet key events) :
    believed key events = [] := by
  refine List.filterMap_eq_nil_iff.2 fun e he => ?_
  split
  next hkey => exact believed_of_isLevel (h e he hkey)
  next => rfl

/-! ## One reading -/

/-- What vetting leaves of a level while discharging, short of a jump: nothing, if it
is deferred, and otherwise the lower of the two. -/
theorem level_of_vet {p n : ℕ} {deferred : Option ℕ}
    (hjump : vet ⟨p, false⟩ ⟨n, false⟩ deferred = .accept → absDiff p n ≤ maxPlausibleStep)
    (hdefer : vet ⟨p, false⟩ ⟨n, false⟩ deferred ≠ .defer) :
    absDiff p n ≤ maxPlausibleStep ∧
      (vet ⟨p, false⟩ ⟨n, false⟩ deferred).level ⟨p, false⟩ ⟨n, false⟩ =
        some ⟨min p n, false⟩ := by
  have hhold : vet ⟨p, false⟩ ⟨n, false⟩ deferred = .hold ↔ _ := vet_eq_hold
  cases hv : vet ⟨p, false⟩ ⟨n, false⟩ deferred with
  | defer => exact absurd hv hdefer
  | hold =>
      obtain ⟨hnear, -, -, hrise⟩ := hhold.1 hv
      exact ⟨hnear, by simp [Verdict.level, Nat.min_eq_left (Nat.le_of_lt hrise)]⟩
  | accept =>
      have hnear := hjump hv
      have hfall : n ≤ p := by
        by_contra hrise
        have hheld := hhold.2 ⟨hnear, rfl, rfl, Nat.lt_of_not_le hrise⟩
        rw [hv] at hheld
        cases hheld
      exact ⟨hnear, by simp [Verdict.level, Nat.min_eq_right hfall]⟩

/-- A level within the plausible step is not deferred, and does not need a jump. -/
theorem not_defer_of_near {p n : ℕ} {deferred : Option ℕ} (h : absDiff p n ≤ maxPlausibleStep) :
    vet ⟨p, false⟩ ⟨n, false⟩ deferred ≠ .defer := by
  intro hv
  exact absurd (vet_eq_defer.1 hv).1 (Nat.not_lt.2 h)

/-- From a battery that shows `p`, these levels are the ones the log says were
believed, and what is shown is the lowest of them. -/
structure Lowers (key : String) (p : ℕ) (shown : Reading) (events : List Event)
    (levels : List ℕ) : Prop where
  believed : believed key events = levels
  near : Near (fun p n => absDiff p n ≤ maxPlausibleStep) p levels
  shown : shown = ⟨lowest p levels, false⟩

theorem lowers_quiet {key : String} {p : ℕ} {events : List Event} (h : Quiet key events) :
    Lowers key p ⟨p, false⟩ events [] where
  believed := h.believed
  near := trivial
  shown := rfl

theorem Lowers.append {key : String} {p : ℕ} {shown shown' : Reading} {events events' : List Event}
    {levels levels' : List ℕ} (h : Lowers key p shown events levels)
    (h' : Lowers key shown.percent shown' events' levels') :
    Lowers key p shown' (events ++ events') (levels ++ levels') := by
  have hpercent : shown.percent = lowest p levels := by rw [h.shown]
  refine ⟨?_, ?_, ?_⟩
  · rw [believed_append, h.believed, h'.believed]
  · exact near_append.2 ⟨h.near, hpercent ▸ h'.near⟩
  · rw [lowest_append, ← hpercent, h'.shown]

/-- Where pushes work, what is pushed is shown. -/
theorem Answered.level_of_pushed {entry left : Entry Handle} {reading level : Reading}
    {sample : Option ℕ} {deeds : List Deed} {ok : Bool}
    (h : Answered entry reading sample (some left) deeds)
    (hok : ∀ level ok, .pushed level ok ∈ deeds → ok = true) (hd : .pushed level ok ∈ deeds) :
    level = left.1.reading := by
  obtain ⟨-, hleft⟩ := h.pushed_mem hd
  rw [hleft left rfl, hok level ok hd, if_pos rfl]

/-- Where pushes work, what is left to publish of a reading is shown. -/
theorem Answered.reading {entry left : Entry Handle} {reading : Reading} {sample : Option ℕ}
    {deeds : List Deed} (h : Answered entry reading sample (some left) deeds)
    (hok : ∀ level ok, .pushed level ok ∈ deeds → ok = true) :
    left.1.reading = ((entry.verdict reading sample).level entry.1.reading reading).getD
      entry.1.reading := by
  obtain ⟨pushes, rest, rfl, -, ⟨-, hpublished, hsame⟩ | ⟨level, ok, hlevel, rfl, hshown⟩⟩ :=
    h.deeds
  · rw [hsame left rfl]
    cases hlevel : (entry.verdict reading sample).level entry.1.reading reading with
    | none => rfl
    | some level => exact hpublished level hlevel
  · have hworked : ok = true := hok level ok (by simp)
    rw [hshown left rfl, hworked, if_pos rfl, hlevel]
    rfl

/-- What is shown after a level, and what was pushed for it. -/
theorem Answered.shown {entry left : Entry Handle} {p n : ℕ} {sample : Option ℕ}
    {deeds : List Deed} (h : Answered entry ⟨n, false⟩ sample (some left) deeds)
    (hp : entry.1.reading = ⟨p, false⟩)
    (hjump : entry.verdict ⟨n, false⟩ sample = .accept → absDiff p n ≤ maxPlausibleStep)
    (hok : ∀ level ok, .pushed level ok ∈ deeds → ok = true) :
    left.1.reading = ⟨if entry.verdict ⟨n, false⟩ sample = .defer then p else min p n, false⟩ ∧
      (entry.verdict ⟨n, false⟩ sample ≠ .defer → absDiff p n ≤ maxPlausibleStep) ∧
      ∃ pushes rest, deeds = (entry.verdict ⟨n, false⟩ sample).deed ⟨n, false⟩ sample ::
          (pushes ++ rest) ∧ (∀ d ∈ rest, d.isLevel = false) ∧
        (pushes = [] ∨ ∃ ok, pushes = [.pushed left.1.reading ok]) := by
  have hreading := h.reading hok
  obtain ⟨pushes, rest, rfl, hrest, hpushes⟩ := h.deeds
  have hvet : entry.verdict ⟨n, false⟩ sample = vet ⟨p, false⟩ ⟨n, false⟩
      (secondOpinion entry.2.deferred entry.2.deferredSample sample) := by
    rw [Entry.verdict, hp]
  rw [hp] at hpushes hreading
  rw [hvet] at hpushes hjump hreading ⊢
  have hlevel := level_of_vet hjump
  generalize vet ⟨p, false⟩ ⟨n, false⟩
    (secondOpinion entry.2.deferred entry.2.deferredSample sample) = verdict
    at hpushes hreading hlevel ⊢
  refine ⟨?_, fun hdefer => (hlevel hdefer).1, pushes, rest, rfl, hrest, ?_⟩
  · split
    next hdefer => rw [hreading, hdefer]; rfl
    next hdefer => rw [hreading, (hlevel hdefer).2]; rfl
  · obtain ⟨hnone, -⟩ | ⟨level, ok, hleft, rfl, -⟩ := hpushes
    · exact .inl hnone
    · rw [hreading, hleft]
      exact .inr ⟨ok, rfl⟩

theorem Answered.lowers {entry left : Entry Handle} {p n : ℕ} {sample : Option ℕ}
    {deeds : List Deed} (h : Answered entry ⟨n, false⟩ sample (some left) deeds)
    (hp : entry.1.reading = ⟨p, false⟩)
    (hjump : entry.verdict ⟨n, false⟩ sample = .accept → absDiff p n ≤ maxPlausibleStep)
    (hok : ∀ level ok, .pushed level ok ∈ deeds → ok = true) (key : String) (now : ℕ) :
    Lowers key p left.1.reading (stamp key now deeds)
        (if entry.verdict ⟨n, false⟩ sample = .defer then [] else [n]) ∧
      (defers key (stamp key now deeds) = true ↔ entry.verdict ⟨n, false⟩ sample = .defer) := by
  obtain ⟨hshown, hnear, pushes, rest, rfl, hrest, hpushes⟩ := h.shown hp hjump hok
  generalize entry.verdict ⟨n, false⟩ sample = verdict at hshown hnear ⊢
  have hverdict : believed key [⟨key, now, verdict.deed ⟨n, false⟩ sample⟩] =
      if verdict = .defer then [] else [n] := by
    cases verdict <;> simp [believed, Verdict.deed, Deed.believed]
  have hlowest : left.1.reading = ⟨lowest p (if verdict = .defer then [] else [n]), false⟩ := by
    rw [hshown]
    split <;> rfl
  have hlater : ∀ d ∈ pushes ++ rest, d.believed = none ∧ d.isDeferred = false := by
    intro d hd
    obtain hd | hd := List.mem_append.1 hd
    · obtain rfl | ⟨ok, rfl⟩ := hpushes
      · cases hd
      · obtain rfl := List.mem_singleton.1 hd
        exact ⟨rfl, rfl⟩
    · exact ⟨believed_of_isLevel (hrest d hd), by cases d <;> first | rfl | cases hrest _ hd⟩
  refine ⟨⟨?_, ?_, hlowest⟩, ?_⟩
  · change believed key ([⟨key, now, verdict.deed ⟨n, false⟩ sample⟩] ++
      stamp key now (pushes ++ rest)) = _
    rw [believed_append, hverdict, believed_stamp,
      List.filterMap_eq_nil_iff.2 fun d hd => (hlater d hd).1, List.append_nil]
  · split
    next => trivial
    next hdefer => exact ⟨hnear hdefer, trivial⟩
  · have hrest : (pushes ++ rest).any Deed.isDeferred = false :=
      List.any_eq_false.2 fun d hd => by simp [(hlater d hd).2]
    have hany : defers key (stamp key now (verdict.deed ⟨n, false⟩ sample :: (pushes ++ rest))) =
        (verdict.deed ⟨n, false⟩ sample).isDeferred := by
      simp only [defers, stamp, List.any_map, List.any_cons, Function.comp_def, decide_true,
        Bool.true_and, hrest, Bool.or_false]
    rw [hany]
    cases verdict <;> simp [Verdict.deed, Deed.isDeferred]

/-! ## One move -/

section Moves

variable {b : Bridge Handle} {key : String} {m : Move Handle} {left : Entry Handle}

theorem pushed_ok {entry : Entry Handle} {reading level : Reading} {sample : Option ℕ} {now : ℕ}
    {updated : Except String Unit} {ok : Bool}
    (h : .pushed level ok ∈ (entry.answer reading sample now updated).2) : ok = updated.isOk := by
  have hverdict : .pushed level ok ≠ (entry.verdict reading sample).deed reading sample := by
    cases entry.verdict reading sample <;> simp [Verdict.deed]
  obtain ⟨hdeeds, -⟩ | ⟨level', rest, -, hdeeds, hrest⟩ :=
    answer_deeds entry reading sample now updated
  · rw [hdeeds, List.mem_singleton] at h
    exact absurd h hverdict
  · rw [hdeeds, List.mem_cons, List.mem_cons] at h
    obtain h | h | h := h
    · exact absurd h hverdict
    · exact (Deed.pushed.inj h).2
    · cases hrest _ h

/-- A move that reports no level leaves what is shown, and what is deferred. -/
theorem quiet_of_no_level (hb : b.batteries.InStep) (hunplugged : Unplugged key m)
    (hlevel : m.level key = none) (hrenewed : ¬Renewed key (move b m).2)
    (hleft : (move b m).1.batteries.find? key = some left) :
    ∃ entry, b.batteries.find? key = some entry ∧ left.1 = entry.1 ∧
      left.2.deferred = entry.2.deferred ∧ left.2.deferredSample = entry.2.deferredSample ∧
      Quiet key (move b m).2 := by
  have hturn := move_turn hb m key
  rw [hleft] at hturn
  generalize b.batteries.find? key = was at hturn
  generalize (move b m).2 = events at hturn hrenewed
  cases hturn with
  | same device deferred sample quiet => exact ⟨_, rfl, device, deferred, sample, quiet⟩
  | appeared _ mine _ _ =>
      subst mine
      refine absurd ⟨_, List.mem_map_of_mem (List.mem_append_right _ (List.mem_singleton_self _)),
        rfl, _, rfl⟩ hrenewed
  | @answered now h a entry reading _ deeds moved mine read answered =>
      subst moved
      cases hbattery : h.battery with
      | discharging percent => simp [Move.level, mine, hbattery] at hlevel
      | charging percent => exact absurd hbattery (hunplugged now h a rfl mine percent)
      | unavailable =>
          rw [hbattery] at read
          cases read
      | disconnected =>
          rw [hbattery] at read
          cases read

theorem level_eq_some {n : ℕ} :
    m.level key = some n ↔
      ∃ now h a, m = .apply now (h, a) ∧ h.key = key ∧ h.battery = .discharging n := by
  constructor
  · intro hlevel
    cases m with
    | apply now polled =>
        simp only [Move.level] at hlevel
        split at hlevel
        next hkey =>
          cases hbattery : polled.1.battery with
          | discharging percent =>
              rw [hbattery] at hlevel
              obtain rfl := Option.some.inj hlevel
              exact ⟨now, polled.1, polled.2, rfl, hkey, hbattery⟩
          | _ =>
              rw [hbattery] at hlevel
              cases hlevel
        next => cases hlevel
    | _ => cases hlevel
  · rintro ⟨now, h, a, rfl, hkey, hbattery⟩
    simp [Move.level, hkey, hbattery]

/-- A move that reports a level gives it to the battery there is. -/
theorem answered_of_level {n : ℕ} (hb : b.batteries.InStep) (hupdates : Updates key m)
    (hlevel : m.level key = some n) (hrenewed : ¬Renewed key (move b m).2)
    (hleft : (move b m).1.batteries.find? key = some left) :
    ∃ now h a entry deeds, m = .apply now (h, a) ∧ h.key = key ∧ h.battery = .discharging n ∧
      b.batteries.find? key = some entry ∧
      Answered entry ⟨n, false⟩ h.sample (some left) deeds ∧
      (∀ level ok, .pushed level ok ∈ deeds → ok = true) ∧
      (move b m).2 = stamp key now deeds := by
  obtain ⟨now, h, a, rfl, rfl, hbattery⟩ := level_eq_some.1 hlevel
  obtain ⟨left', deeds, htouches, hbecomes, hevents⟩ := applyOne_spec hb now (h, a)
  change (move b (.apply now (h, a))).2 = stamp h.key now deeds at hevents
  obtain rfl : left' = some left := htouches.here.symm.trans hleft
  rw [hevents] at hrenewed ⊢
  cases hlive : b.batteries.find? h.key with
  | none =>
      rw [hlive] at hbecomes
      cases hbecomes with
      | battery handle offered attempts created =>
          exact absurd ⟨_, List.mem_map_of_mem (List.mem_append_right _
            (List.mem_singleton_self _)), rfl, _, rfl⟩ hrenewed
  | some entry =>
      rw [hlive] at hbecomes
      have hread : h.battery.reading entry.1.reading.percent = some ⟨n, false⟩ := by
        rw [hbattery]
        rfl
      change entry.apply h now a = (some left, deeds) at hbecomes
      simp only [Entry.apply, hread] at hbecomes
      have hspec := answer_spec (entry.see now) ⟨n, false⟩ h.sample now a.updated
      rw [hbecomes] at hspec
      refine ⟨now, h, a, entry, deeds, rfl, rfl, hbattery, rfl, ⟨hspec.deeds, hspec.deferred⟩,
        fun level ok hd => ?_, rfl⟩
      rw [show deeds = ((entry.see now).answer ⟨n, false⟩ h.sample now a.updated).2 by
        rw [hbecomes]] at hd
      exact (pushed_ok hd).trans (hupdates now h a rfl rfl)

/-- What a move does to a battery that shows `p`, when it reports no charge and gets
no jump accepted: at most one level is believed, the one it reports. -/
theorem lowers_of_move (hb : b.batteries.InStep) (hunplugged : Unplugged key m)
    (hupdates : Updates key m) (hrenewed : ¬Renewed key (move b m).2)
    (hleft : (move b m).1.batteries.find? key = some left) :
    ∃ entry, b.batteries.find? key = some entry ∧ ∀ p, entry.1.reading = ⟨p, false⟩ →
      (∀ n, m.level key = some n → Unjumped key b m ∨ absDiff p n ≤ maxPlausibleStep) →
      Lowers key p left.1.reading (move b m).2
          (if defers key (move b m).2 then none else m.level key).toList ∧
        (defers key (move b m).2 = true → ∀ n, m.level key = some n →
          maxPlausibleStep < absDiff p n) := by
  cases hlevel : m.level key with
  | none =>
      obtain ⟨entry, hentry, hsame, -, -, hquiet⟩ :=
        quiet_of_no_level hb hunplugged hlevel hrenewed hleft
      refine ⟨entry, hentry, fun p hp _ => ⟨?_, nofun⟩⟩
      rw [ite_self, hsame, hp]
      exact lowers_quiet hquiet
  | some n =>
      obtain ⟨now, h, a, entry, deeds, rfl, hkey, hbattery, hentry, hanswered, hok, hevents⟩ :=
        answered_of_level hb hupdates hlevel hrenewed hleft
      refine ⟨entry, hentry, fun p hp hjump => ?_⟩
      have hplausible : entry.verdict ⟨n, false⟩ h.sample = .accept →
          absDiff p n ≤ maxPlausibleStep := by
        intro haccept
        obtain hunjumped | hnear := hjump n rfl
        · have hstep := hunjumped now h a n entry rfl hkey hbattery hentry haccept
          rwa [hp] at hstep
        · exact hnear
      obtain ⟨hlowers, hdefers⟩ := hanswered.lowers hp hplausible hok key now
      rw [hevents]
      refine ⟨?_, fun hdeferred n' hn' => ?_⟩
      · by_cases hdefer : entry.verdict ⟨n, false⟩ h.sample = .defer
        · rw [if_pos hdefer] at hlowers
          rwa [if_pos (hdefers.2 hdefer)]
        · rw [if_neg hdefer] at hlowers
          rwa [if_neg fun hd => hdefer (hdefers.1 hd)]
      · obtain rfl := Option.some.inj hn'
        have hdefer := hdefers.1 hdeferred
        rw [Entry.verdict, hp] at hdefer
        exact (vet_eq_defer.1 hdefer).1

/-- A level that a move pushes to a battery it leaves is what that battery shows. -/
theorem shown_of_pushed (hb : b.batteries.InStep) (hunplugged : Unplugged key m)
    (hupdates : Updates key m) (hrenewed : ¬Renewed key (move b m).2)
    (hleft : (move b m).1.batteries.find? key = some left) {e : Event} (he : e ∈ (move b m).2)
    (hkey : e.key = key) {level : Reading} {ok : Bool} (hpushed : e.deed = .pushed level ok) :
    level = left.1.reading := by
  cases hlevel : m.level key with
  | none =>
      obtain ⟨-, -, -, -, -, hquiet⟩ :=
        quiet_of_no_level hb hunplugged hlevel hrenewed hleft
      have hnone := hquiet e he hkey
      simp [hpushed, Deed.isLevel] at hnone
  | some n =>
      obtain ⟨now, h, a, entry, deeds, -, -, -, -, hanswered, hok, hevents⟩ :=
        answered_of_level hb hupdates hlevel hrenewed hleft
      rw [hevents] at he
      obtain ⟨d, hd, rfl⟩ := List.mem_map.1 he
      obtain rfl : d = .pushed level ok := hpushed
      exact hanswered.level_of_pushed hok hd

/-- A battery that is there after some moves, and was not made anew in them, was there
before. -/
theorem live_before {moves : List (Move Handle)} (hb : b.batteries.InStep)
    (hrenewed : ¬Renewed key (Runs.exec move b moves).2)
    (hleft : (Runs.exec move b moves).1.batteries.find? key = some left) :
    ∃ entry, b.batteries.find? key = some entry := by
  induction moves generalizing b with
  | nil => exact ⟨left, hleft⟩
  | cons m moves ih =>
      rw [Runs.exec_cons, renewed_append, not_or] at hrenewed
      obtain ⟨next, hnext⟩ := ih (move_keeps b m hb).inStep hrenewed.2 hleft
      have hturn := move_turn hb m key
      rw [hnext] at hturn
      generalize b.batteries.find? key = was at hturn
      generalize (move b m).2 = events at hturn hrenewed
      cases hturn with
      | same => exact ⟨_, rfl⟩
      | answered => exact ⟨_, rfl⟩
      | appeared _ mine _ _ =>
          subst mine
          exact absurd ⟨_, List.mem_map_of_mem (List.mem_append_right _
            (List.mem_singleton_self _)), rfl, _, rfl⟩ hrenewed.1

end Moves

/-! ## A stretch of moves -/

/-- The moves without those whose reading of this headset is deferred. -/
def undeferred (key : String) (b : Bridge Handle) (moves : List (Move Handle)) :
    List (Move Handle) :=
  Projections.views move (fun b m => if defers key (move b m).2 then none else some m) b moves

theorem undeferred_subset (key : String) (b : Bridge Handle) (moves : List (Move Handle)) :
    undeferred key b moves ⊆ moves := by
  have hsublist : ((undeferred key b moves).map id).Sublist (moves.map id) := by
    refine Projections.views_sublist id id (fun b m m' hm' => ?_) b moves
    split at hm'
    next => cases hm'
    next => exact (Option.some.inj hm').symm
  rw [List.map_id, List.map_id] at hsublist
  exact hsublist.subset

section Stretch

variable {b : Bridge Handle} {key : String} {start : Entry Handle} {p : ℕ}
  {since : List (Move Handle)}

/-- Over a stretch without a charge, a jump or a failing push, what is shown is the
lowest of the levels that were not deferred. -/
theorem lowers_of_moves (hb : b.batteries.InStep) (hstart : b.batteries.find? key = some start)
    (hp : start.1.reading = ⟨p, false⟩) (hunplugged : ∀ m ∈ since, Unplugged key m)
    (hupdates : ∀ m ∈ since, Updates key m) (hunjumped : Runs.Along move (Unjumped key) b since)
    (hrenewed : ¬Renewed key (Runs.exec move b since).2) {left : Entry Handle}
    (hleft : (Runs.exec move b since).1.batteries.find? key = some left) :
    Lowers key p left.1.reading (Runs.exec move b since).2
      ((undeferred key b since).filterMap (Move.level key)) := by
  suffices hinv : (Runs.exec move b since).1.batteries.InStep ∧
      (¬Renewed key (Runs.exec move b since).2 → ∀ left,
        (Runs.exec move b since).1.batteries.find? key = some left →
          Lowers key p left.1.reading (Runs.exec move b since).2
            ((undeferred key b since).filterMap (Move.level key))) by
    exact hinv.2 hrenewed left hleft
  refine Runs.exec_induction
    (fun pre m => Unplugged key m ∧ Updates key m ∧ Unjumped key (Runs.exec move b pre).1 m)
    (fun done (st : Bridge Handle) tr => st.batteries.InStep ∧ (¬Renewed key tr → ∀ left,
      st.batteries.find? key = some left → Lowers key p left.1.reading tr
        ((undeferred key b done).filterMap (Move.level key)))) ?_ ?_ since
    (fun pre m post he => ⟨hunplugged m (by simp [he]), hupdates m (by simp [he]),
      hunjumped pre m post he⟩)
  · refine ⟨hb, fun _ left hleft => ?_⟩
    obtain rfl := Option.some.inj (hstart.symm.trans hleft)
    rw [hp]
    exact lowers_quiet (quiet_nil key)
  · intro done m hdone hm
    obtain ⟨hst, hlowers⟩ := hdone
    obtain ⟨hplug, hupdate, hjump⟩ := hm
    refine ⟨(move_keeps _ m hst).inStep, fun hnew left hleft => ?_⟩
    rw [renewed_append, not_or] at hnew
    obtain ⟨entry, hentry, hstep⟩ := lowers_of_move hst hplug hupdate hnew.2 hleft
    have hbefore := hlowers hnew.1 entry hentry
    have hshown : entry.1.reading = ⟨entry.1.reading.percent, false⟩ := by rw [hbefore.shown]
    have hafter := (hstep _ hshown fun n _ => .inl hjump).1
    have hlevel : ((undeferred key b (done ++ [m])).filterMap (Move.level key)) =
        (undeferred key b done).filterMap (Move.level key) ++
          (if defers key (move (Runs.exec move b done).1 m).2 then none
            else m.level key).toList := by
      rw [undeferred, Projections.views_snoc, List.filterMap_append]
      congr 1
      split
      next => rfl
      next => cases hreport : m.level key <;> simp [hreport]
    rw [hlevel]
    exact hbefore.append hafter

/-- Where every level is near the lowest before it, nothing is deferred: what is
shown is the lowest of them all. -/
theorem shown_of_near (hb : b.batteries.InStep) (hstart : b.batteries.find? key = some start)
    (hp : start.1.reading = ⟨p, false⟩) (hunplugged : ∀ m ∈ since, Unplugged key m)
    (hupdates : ∀ m ∈ since, Updates key m)
    (hnear : Near (fun p n => absDiff p n ≤ maxPlausibleStep) p
      (since.filterMap (Move.level key)))
    (hrenewed : ¬Renewed key (Runs.exec move b since).2) {left : Entry Handle}
    (hleft : (Runs.exec move b since).1.batteries.find? key = some left) :
    left.1.reading = ⟨lowest p (since.filterMap (Move.level key)), false⟩ := by
  suffices hinv : (Runs.exec move b since).1.batteries.InStep ∧
      (¬Renewed key (Runs.exec move b since).2 → ∀ left,
        (Runs.exec move b since).1.batteries.find? key = some left →
          left.1.reading = ⟨lowest p (since.filterMap (Move.level key)), false⟩) by
    exact hinv.2 hrenewed left hleft
  refine Runs.exec_induction
    (fun pre m => Unplugged key m ∧ Updates key m ∧ ∀ n, m.level key = some n →
      absDiff (lowest p (pre.filterMap (Move.level key))) n ≤ maxPlausibleStep)
    (fun done (st : Bridge Handle) tr => st.batteries.InStep ∧ (¬Renewed key tr → ∀ left,
      st.batteries.find? key = some left →
        left.1.reading = ⟨lowest p (done.filterMap (Move.level key)), false⟩)) ?_ ?_ since
    (fun pre m post he => ⟨hunplugged m (by simp [he]), hupdates m (by simp [he]), ?_⟩)
  · refine ⟨hb, fun _ left hleft => ?_⟩
    obtain rfl := Option.some.inj (hstart.symm.trans hleft)
    exact hp
  · intro done m hdone hm
    obtain ⟨hst, hlowest⟩ := hdone
    obtain ⟨hplug, hupdate, hclose⟩ := hm
    refine ⟨(move_keeps _ m hst).inStep, fun hnew left hleft => ?_⟩
    rw [renewed_append, not_or] at hnew
    obtain ⟨entry, hentry, hstep⟩ := lowers_of_move hst hplug hupdate hnew.2 hleft
    have hbefore := hlowest hnew.1 entry hentry
    obtain ⟨hafter, hfar⟩ := hstep _ hbefore fun n hn => .inr (hclose n hn)
    rw [hafter.shown, List.filterMap_append, lowest_append]
    cases hreport : m.level key with
    | none => simp [hreport]
    | some n =>
        have hkept : ¬defers key (move (Runs.exec move b done).1 m).2 = true := by
          intro hdefers
          exact absurd (hfar hdefers n hreport) (Nat.not_lt.2 (hclose n hreport))
        simp [hreport, hkept]
  · intro n hn
    rw [he, List.filterMap_append, List.filterMap_cons, hn] at hnear
    exact (near_append.1 hnear).2.1

end Stretch

/-! ## A battery given its readings alone -/

/-- The battery after a move, if its readings are all that reaches it. -/
def Entry.reads (key : String) (entry : Entry Handle) : Move Handle → Entry Handle
  | .apply now (h, a) =>
      match h.battery with
      | .discharging percent =>
          if h.key = key then
            ((entry.answer ⟨percent, false⟩ h.sample now a.updated).1).getD entry
          else entry
      | _ => entry
  | _ => entry

theorem reads_of_no_level {key : String} {entry : Entry Handle} {m : Move Handle}
    (h : m.level key = none) : entry.reads key m = entry := by
  cases m with
  | apply now polled =>
      obtain ⟨headset, a⟩ := polled
      simp only [Move.level] at h
      simp only [Entry.reads]
      cases hbattery : headset.battery with
      | discharging percent =>
          rw [hbattery] at h
          split at h
          next => cases h
          next hkey => exact if_neg hkey
      | _ => rfl
  | _ => rfl

/-- A battery whose device takes the update is still there after a reading. -/
theorem answer_isSome (entry : Entry Handle) (reading : Reading) (sample : Option ℕ) (now : ℕ)
    {updated : Except String Unit} (hok : updated.isOk = true) :
    (entry.answer reading sample now updated).1.isSome = true := by
  have hpush : ∀ pushed, (refresh entry.1 entry.2 reading sample now updated).2.2 = some pushed →
      pushed.isOk = true := by
    intro pushed hpushed
    cases updated with
    | error err => cases hok
    | ok u =>
        simp only [refresh] at hpushed
        split at hpushed
        next => cases hpushed
        next =>
          split at hpushed
          next => cases hpushed
          next =>
            obtain rfl := Option.some.inj hpushed
            rfl
  simp only [Entry.answer]
  split
  next => rfl
  next pushed hpushed => simp [Entry.settle, hpush pushed hpushed]

theorem shown_of_reads {key : String} {entry : Entry Handle} {m : Move Handle} {p n : ℕ}
    (hp : entry.1.reading = ⟨p, false⟩) (hupdates : Updates key m) (hlevel : m.level key = some n)
    (hnear : absDiff p n ≤ maxPlausibleStep) :
    (entry.reads key m).1.reading = ⟨min p n, false⟩ := by
  obtain ⟨now, h, a, rfl, hkey, hbattery⟩ := level_eq_some.1 hlevel
  have hok := hupdates now h a rfl hkey
  have hanswered := answer_spec entry ⟨n, false⟩ h.sample now a.updated
  obtain ⟨left, hleft⟩ := Option.isSome_iff_exists.1
    (answer_isSome entry ⟨n, false⟩ h.sample now hok)
  have hreads : entry.reads key (.apply now (h, a)) = left := by
    simp [Entry.reads, hbattery, hkey, hleft]
  rw [hleft] at hanswered
  have hshown := (hanswered.shown hp (fun _ => hnear)
    fun level ok hd => (pushed_ok hd).trans hok).1
  have hdefer : entry.verdict ⟨n, false⟩ h.sample ≠ .defer := by
    rw [Entry.verdict, hp]
    exact not_defer_of_near hnear
  rw [hreads, hshown, if_neg hdefer]

/-- Levels that are each near the lowest before them leave the battery at the lowest
of them all, whatever else happens in between. -/
theorem shown_of_all_reads {key : String} {entry : Entry Handle} {p : ℕ}
    {moves : List (Move Handle)} (hp : entry.1.reading = ⟨p, false⟩)
    (hupdates : ∀ m ∈ moves, Updates key m)
    (hnear : Near (fun p n => absDiff p n ≤ maxPlausibleStep) p
      (moves.filterMap (Move.level key))) :
    (moves.foldl (Entry.reads key) entry).1.reading =
      ⟨lowest p (moves.filterMap (Move.level key)), false⟩ := by
  induction moves generalizing entry p with
  | nil => exact hp
  | cons m moves ih =>
      have hrest : ∀ m ∈ moves, Updates key m := fun m' hm' => hupdates m' (by simp [hm'])
      rw [List.foldl_cons]
      cases hlevel : m.level key with
      | none =>
          rw [List.filterMap_cons, hlevel] at hnear ⊢
          rw [reads_of_no_level hlevel]
          exact ih hp hrest hnear
      | some n =>
          rw [List.filterMap_cons, hlevel] at hnear ⊢
          exact ih (shown_of_reads hp (hupdates m (by simp)) hlevel hnear.1) hrest hnear.2

/-- A battery that is published discharging at `p`, over a stretch of its life without
a charge, a confirmed jump or a failing push: what it shows is the lowest of `p` and
the levels reported that were not deferred, which are those the log says were
believed; every level pushed is the lowest of those reported until then; so that it
never rises. Without the deferred readings the battery shows the same, and so does a
bridge that never got them, as long as it keeps the battery. -/
theorem lowest_believed_shown (config : Config) (inherited : List Handle)
    (before since : List (Move Handle)) {key : String} {start left : Entry Handle} {p : ℕ}
    (hstart : (reached config inherited before).batteries.find? key = some start)
    (hp : start.1.reading = ⟨p, false⟩)
    (hunplugged : ∀ m ∈ since, Unplugged key m) (hupdates : ∀ m ∈ since, Updates key m)
    (hunjumped : Runs.Along move (Unjumped key) (reached config inherited before) since)
    (hrenewed : ¬Renewed key (Runs.exec move (reached config inherited before) since).2)
    (hleft : (reached config inherited (before ++ since)).batteries.find? key = some left) :
    let b := reached config inherited before
    let rest := undeferred key b since
    left.1.reading = ⟨lowest p (rest.filterMap (Move.level key)), false⟩ ∧
      believed key (Runs.exec move b since).2 = rest.filterMap (Move.level key) ∧
      (∀ mid m later, since = mid ++ m :: later →
        ∀ e ∈ (move (Runs.exec move b mid).1 m).2, e.key = key →
          ∀ level ok, e.deed = .pushed level ok →
            level =
              ⟨lowest p ((undeferred key b (mid ++ [m])).filterMap (Move.level key)), false⟩) ∧
      (∀ mid later between, since = mid ++ later →
        (reached config inherited (before ++ mid)).batteries.find? key = some between →
          left.1.reading.percent ≤ between.1.reading.percent) ∧
      (rest.foldl (Entry.reads key) start).1.reading = left.1.reading ∧
      ∀ other, (reached config inherited (before ++ rest)).batteries.find? key = some other →
        ¬Renewed key (Runs.exec move b rest).2 → other.1.reading = left.1.reading := by
  intro b rest
  have hb : b.batteries.InStep := reached_inStep config inherited before
  rw [reached_append] at hleft
  have hlowers := lowers_of_moves hb hstart hp hunplugged hupdates hunjumped hrenewed hleft
  have hsubset := undeferred_subset key b since
  have hupdates' : ∀ m ∈ rest, Updates key m := fun m hm => hupdates m (hsubset hm)
  refine ⟨hlowers.shown, hlowers.believed, ?_, ?_, ?_, ?_⟩
  · rintro mid m later rfl e he hkey level ok hpushed
    have hsplit : mid ++ m :: later = (mid ++ [m]) ++ later := by simp
    rw [hsplit] at hunplugged hupdates hunjumped hrenewed hleft
    rw [Runs.exec_append, renewed_append, not_or] at hrenewed
    rw [Runs.exec_append] at hleft
    have hstep : (Runs.exec move b (mid ++ [m])).1.batteries.InStep := by
      rw [← reached_append]
      exact reached_inStep config inherited (before ++ (mid ++ [m]))
    obtain ⟨after, hafter⟩ := live_before hstep hrenewed.2 hleft
    have hshown := (lowers_of_moves hb hstart hp
      (fun m hm => hunplugged m (List.mem_append_left _ hm))
      (fun m hm => hupdates m (List.mem_append_left _ hm)) hunjumped.prefix hrenewed.1 hafter).shown
    rw [← hshown]
    have hmid : (Runs.exec move b mid).1.batteries.InStep := by
      rw [← reached_append]
      exact reached_inStep config inherited (before ++ mid)
    rw [Runs.exec_snoc] at hrenewed hafter
    exact shown_of_pushed hmid (hunplugged m (by simp)) (hupdates m (by simp))
      (fun h => hrenewed.1 (renewed_append.2 (.inr h))) hafter he hkey hpushed
  · rintro mid later between rfl hbetween
    rw [reached_append] at hbetween
    rw [Runs.exec_append, renewed_append, not_or] at hrenewed
    have hmid := lowers_of_moves hb hstart hp (fun m hm => hunplugged m (by simp [hm]))
      (fun m hm => hupdates m (by simp [hm])) hunjumped.prefix hrenewed.1 hbetween
    rw [hlowers.shown, hmid.shown]
    simp only [undeferred, Projections.views_append, List.filterMap_append, lowest_append]
    exact lowest_le _ _
  · rw [shown_of_all_reads hp hupdates' hlowers.near, hlowers.shown]
  · intro other hother hnew
    rw [reached_append] at hother
    rw [shown_of_near hb hstart hp (fun m hm => hunplugged m (hsubset hm)) hupdates'
      hlowers.near hnew hother, hlowers.shown]

/-! ### Concrete moves -/

theorem unplugged_apply {key : String} {now percent : ℕ} {h : Headset} {a : Answers Handle}
    (hbattery : h.battery = .discharging percent) : Unplugged key (.apply now (h, a)) := by
  rintro now' h' a' he - charge hcharging
  obtain ⟨rfl, rfl, rfl⟩ : now = now' ∧ h = h' ∧ a = a' := by simpa using he
  rw [hbattery] at hcharging
  cases hcharging

theorem updates_apply {key : String} {now : ℕ} {h : Headset} {a : Answers Handle}
    (hok : a.updated.isOk = true) : Updates key (.apply now (h, a)) := by
  rintro now' h' a' he -
  obtain ⟨rfl, rfl, rfl⟩ : now = now' ∧ h = h' ∧ a = a' := by simpa using he
  exact hok

theorem unplugged_note (key : String) (now : ℕ) : Unplugged key (.note now : Move Handle) := by
  intro _ _ _ he
  cases he

theorem updates_note (key : String) (now : ℕ) : Updates key (.note now : Move Handle) := by
  intro _ _ _ he
  cases he

/-- Without a deferred reading there is nothing to confirm a jump. -/
theorem unjumped_of_undeferred {key : String} {b : Bridge Handle} {p : ℕ}
    (hshown : (b.batteries.find? key).map (fun entry => (entry.1.reading, entry.2.deferred)) =
      some (⟨p, false⟩, none)) (m : Move Handle) : Unjumped key b m := by
  rintro now h a percent entry - - - hentry haccept
  rw [hentry] at hshown
  obtain ⟨hreading, hdeferred⟩ := Prod.mk.inj (Option.some.inj hshown)
  by_contra hjump
  obtain ⟨previous, hprevious, -⟩ := confirmed_of_vet haccept (Nat.lt_of_not_le hjump)
  rw [hdeferred] at hprevious
  simp [secondOpinion] at hprevious

theorem not_renewed_of_deeds {key : String} {events : List Event} {deeds : List Deed}
    (h : events.map Event.deed = deeds) (hnone : ∀ reading, .appeared reading ∉ deeds) :
    ¬Renewed key events := by
  rintro ⟨e, he, -, reading, hdeed⟩
  exact hnone reading (h ▸ hdeed ▸ List.mem_map_of_mem he)

/-- A fall that is believed and a glitch that is not: the fall is shown. -/
theorem lowest_believed_shown_of_glitch :
    let config : Config := ⟨seconds 60, seconds 10, seconds 30, "/dev/uhid"⟩
    let answers : Answers ℕ := ⟨.error "unused", .ok (), .ok (some "hid-0"), .ok ()⟩
    let maxwell (percent sample : ℕ) : Headset :=
      ⟨"Maxwell", "Audeze Maxwell", 0x3329, 0x4b18, true, .discharging percent, some sample⟩
    let before := Tick.moves ⟨0, false, .ok [(maxwell 80 1, answers)]⟩
    let since : List (Move ℕ) :=
      [.apply (seconds 1) (maxwell 78 2, answers), .apply (seconds 2) (maxwell 40 3, answers)]
    ∃ left, (reached config [7] (before ++ since)).batteries.find? "3329:4b18/Maxwell" =
        some left ∧ left.1.reading = ⟨78, false⟩ := by
  intro config answers maxwell before since
  have hstart : ((reached config [7] before).batteries.find? "3329:4b18/Maxwell").map
      (fun entry => (entry.1.reading, entry.2.deferred)) = some (⟨80, false⟩, none) := by
    decide +kernel
  have hfallen : ((move (reached config [7] before)
      (.apply (seconds 1) (maxwell 78 2, answers))).1.batteries.find? "3329:4b18/Maxwell").map
      (fun entry => (entry.1.reading, entry.2.deferred)) = some (⟨78, false⟩, none) := by
    decide +kernel
  have hend : ((reached config [7] (before ++ since)).batteries.find?
      "3329:4b18/Maxwell").isSome = true := by decide +kernel
  have hlevels : (undeferred "3329:4b18/Maxwell" (reached config [7] before) since).filterMap
      (Move.level "3329:4b18/Maxwell") = [78] := by decide +kernel
  have htrace : (Runs.exec move (reached config [7] before) since).2.map Event.deed =
      [.accepted ⟨78, false⟩ (some 2), .pushed ⟨78, false⟩ true,
        .deferred ⟨40, false⟩ (some 3)] := by decide +kernel
  obtain ⟨start, hfind, hp⟩ := Option.map_eq_some_iff.1 hstart
  obtain ⟨left, hleft⟩ := Option.isSome_iff_exists.1 hend
  have hunjumped : Runs.Along move (Unjumped "3329:4b18/Maxwell")
      (reached config [7] before) since :=
    Runs.along_cons.2 ⟨unjumped_of_undeferred hstart _,
      Runs.along_cons.2 ⟨unjumped_of_undeferred hfallen _, Runs.along_nil _ _ _⟩⟩
  obtain ⟨hshown, -⟩ := lowest_believed_shown config [7] before since hfind (Prod.mk.inj hp).1
    (List.forall_mem_cons.2
      ⟨unplugged_apply rfl, List.forall_mem_singleton.2 (unplugged_apply rfl)⟩)
    (List.forall_mem_cons.2 ⟨updates_apply rfl, List.forall_mem_singleton.2 (updates_apply rfl)⟩)
    hunjumped (not_renewed_of_deeds htrace (by simp)) hleft
  rw [hlevels] at hshown
  exact ⟨left, hleft, hshown⟩

end HeadsetBattery.Bridge
