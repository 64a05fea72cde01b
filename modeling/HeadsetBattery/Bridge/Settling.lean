import HeadsetBattery.Bridge.LowestBelieved

/-!
# A gauge that has settled

After a rise too large to be held, a second reading close to the first publishes
it, so that a gauge that has settled is not shown far too low. A gauge that
settles around the bound gets readings held in between, and a held reading
forgets the deferred one.
-/
namespace HeadsetBattery.Bridge

variable {Handle : Type}

/-- A reading on battery: when it was taken in, its level and its sample. -/
structure Sampled where
  now : ℕ
  percent : ℕ
  sample : Option ℕ
  deriving DecidableEq

/-- A later reading of a settled gauge: fresh, and close to the earlier one. -/
def Sampled.Agrees (t u : Sampled) : Prop :=
  absDiff t.percent u.percent ≤ confirmTolerance ∧ (u.sample = none ∨ t.sample ≠ u.sample)

instance : DecidableRel Sampled.Agrees := fun t u =>
  inferInstanceAs (Decidable (absDiff t.percent u.percent ≤ confirmTolerance ∧
    (u.sample = none ∨ t.sample ≠ u.sample)))

/-- A battery after a reading that its device takes. -/
def Entry.takes (entry : Entry Handle) (t : Sampled) : Entry Handle :=
  ((entry.answer ⟨t.percent, false⟩ t.sample t.now (.ok ())).1).getD entry

theorem answer_takes (entry : Entry Handle) (t : Sampled) :
    (entry.answer ⟨t.percent, false⟩ t.sample t.now (.ok ())).1 = some (entry.takes t) := by
  have hok : (Except.ok () : Except String Unit).isOk = true := rfl
  obtain ⟨left, hleft⟩ := Option.isSome_iff_exists.1
    (answer_isSome entry ⟨t.percent, false⟩ t.sample t.now hok)
  rw [Entry.takes, hleft]
  rfl

/-- A level on battery that is applied leaves the battery as `takes` says. -/
theorem takes_of_move {b : Bridge Handle} (hb : b.batteries.InStep) {now percent : ℕ} {h : Headset}
    {a : Answers Handle} {entry : Entry Handle} (hentry : b.batteries.find? h.key = some entry)
    (hbattery : h.battery = .discharging percent) (hupdated : a.updated = .ok ()) :
    (move b (.apply now (h, a))).1.batteries.find? h.key =
      some ((entry.see now).takes ⟨now, percent, h.sample⟩) := by
  obtain ⟨left, deeds, htouches, hbecomes, -⟩ := applyOne_spec hb now (h, a)
  have hread : h.battery.reading entry.1.reading.percent = some ⟨percent, false⟩ := by
    rw [hbattery]
    rfl
  rw [hentry] at hbecomes
  change entry.apply h now a = (left, deeds) at hbecomes
  simp only [Entry.apply, hread, hupdated] at hbecomes
  have htakes := answer_takes (entry.see now) ⟨now, percent, h.sample⟩
  rw [hbecomes] at htakes
  exact htouches.here.trans htakes

/-- What a reading does to a battery that shows `p`. -/
inductive Takes (entry : Entry Handle) (p : ℕ) (t : Sampled) (left : Entry Handle) : Prop
  | deferred (shown : left.1.reading = ⟨p, false⟩)
      (far : maxPlausibleStep < absDiff p t.percent)
      (unconfirmed : ¬∃ previous, secondOpinion entry.2.deferred entry.2.deferredSample t.sample =
        some previous ∧ absDiff previous t.percent ≤ confirmTolerance)
      (kept : left.2.deferred = some t.percent ∧ left.2.deferredSample = t.sample)
  | held (shown : left.1.reading = ⟨p, false⟩) (rises : p < t.percent)
      (near : absDiff p t.percent ≤ maxPlausibleStep) (cleared : left.2.deferred = none)
  | fell (shown : left.1.reading = ⟨t.percent, false⟩) (falls : t.percent ≤ p)
      (cleared : left.2.deferred = none)
  | confirmed (shown : left.1.reading = ⟨t.percent, false⟩)
      (far : maxPlausibleStep < absDiff p t.percent)
      (close : ∃ previous, secondOpinion entry.2.deferred entry.2.deferredSample t.sample =
        some previous ∧ absDiff previous t.percent ≤ confirmTolerance)
      (cleared : left.2.deferred = none)

theorem takes_spec (entry : Entry Handle) {p : ℕ} (hp : entry.1.reading = ⟨p, false⟩)
    (t : Sampled) : Takes entry p t (entry.takes t) := by
  have hanswered := answer_spec entry ⟨t.percent, false⟩ t.sample t.now (.ok ())
  have hok : ∀ level ok,
      .pushed level ok ∈ (entry.answer ⟨t.percent, false⟩ t.sample t.now (.ok ())).2 → ok = true :=
    fun level ok hd => pushed_ok hd
  rw [answer_takes] at hanswered
  obtain ⟨hdefers, hclears⟩ := hanswered.deferred _ rfl
  have hshown := hanswered.reading hok
  rw [hp] at hshown
  have hverdict : entry.verdict ⟨t.percent, false⟩ t.sample = vet ⟨p, false⟩ ⟨t.percent, false⟩
      (secondOpinion entry.2.deferred entry.2.deferredSample t.sample) := by
    rw [Entry.verdict, hp]
  cases hv : entry.verdict ⟨t.percent, false⟩ t.sample with
  | defer =>
      rw [hv] at hshown
      obtain ⟨hfar, hunconfirmed⟩ := vet_eq_defer.1 (hverdict ▸ hv)
      exact .deferred hshown hfar hunconfirmed (hdefers hv)
  | hold =>
      rw [hv] at hshown
      obtain ⟨hnear, -, -, hrises⟩ := vet_eq_hold.1 (hverdict ▸ hv)
      exact .held hshown hrises hnear (hclears (by simp [hv]))
  | accept =>
      rw [hv] at hshown
      have hcleared := hclears (by simp [hv])
      by_cases hfar : maxPlausibleStep < absDiff p t.percent
      · exact .confirmed hshown hfar (confirmed_of_vet (hverdict ▸ hv) hfar) hcleared
      · refine .fell hshown (Nat.le_of_not_lt fun hrises => ?_) hcleared
        have hhold : vet ⟨p, false⟩ ⟨t.percent, false⟩
            (secondOpinion entry.2.deferred entry.2.deferredSample t.sample) = .hold :=
          vet_eq_hold.2 ⟨Nat.le_of_not_lt hfar, rfl, rfl, hrises⟩
        rw [← hverdict, hv] at hhold
        cases hhold

/-- After each of these readings the level shown is no further than the bound below
the reading. -/
def Within (entry : Entry Handle) : List Sampled → Prop
  | [] => True
  | t :: rest =>
      t.percent ≤ (entry.takes t).1.reading.percent + maxPlausibleStep ∧
        Within (entry.takes t) rest

/-- Readings close to `t` stay below anything above `t` by more than the tolerance. -/
theorem le_of_agrees {t : Sampled} {rest : List Sampled} {bound : ℕ}
    (h : ∀ u ∈ rest, t.Agrees u) (hbound : t.percent + confirmTolerance ≤ bound) :
    ∀ u ∈ rest, u.percent ≤ bound := by
  intro u hu
  have hclose := (h u hu).1
  simp only [absDiff] at hclose
  omega

/-- Readings that agree and are not above the bound are shown within it. -/
theorem within_of_le {entry : Entry Handle} {p : ℕ} (hp : entry.1.reading = ⟨p, false⟩)
    {rest : List Sampled} (hagree : rest.Pairwise Sampled.Agrees)
    (hle : ∀ u ∈ rest, u.percent ≤ p + maxPlausibleStep) : Within entry rest := by
  induction rest generalizing entry p with
  | nil => trivial
  | cons t rest ih =>
      obtain ⟨hclose, hagree⟩ := List.pairwise_cons.1 hagree
      have ht := hle t (by simp)
      have hle' : ∀ u ∈ rest, u.percent ≤ p + maxPlausibleStep := fun u hu => hle u (by simp [hu])
      have hnear : ∀ u ∈ rest, u.percent ≤ t.percent + maxPlausibleStep :=
        le_of_agrees hclose (Nat.add_le_add_left (by decide) _)
      cases takes_spec entry hp t with
      | deferred shown far unconfirmed kept => exact ⟨by rw [shown]; exact ht, ih shown hagree hle'⟩
      | held shown rises near cleared => exact ⟨by rw [shown]; exact ht, ih shown hagree hle'⟩
      | fell shown falls cleared =>
          exact ⟨by rw [shown]; exact Nat.le_add_right _ _, ih shown hagree hnear⟩
      | confirmed shown far close cleared =>
          exact ⟨by rw [shown]; exact Nat.le_add_right _ _, ih shown hagree hnear⟩

/-- Where nothing is deferred, readings that agree are shown within the bound only if
none of them is above it. -/
theorem le_of_within {entry : Entry Handle} {p : ℕ} (hp : entry.1.reading = ⟨p, false⟩)
    (hcleared : entry.2.deferred = none) {rest : List Sampled}
    (hagree : rest.Pairwise Sampled.Agrees) (hwithin : Within entry rest) :
    ∀ u ∈ rest, u.percent ≤ p + maxPlausibleStep := by
  induction rest generalizing entry p with
  | nil => simp
  | cons t rest ih =>
      obtain ⟨hclose, hagree⟩ := List.pairwise_cons.1 hagree
      obtain ⟨ht, hwithin⟩ := hwithin
      suffices hrest : t.percent ≤ p + maxPlausibleStep ∧
          ∀ u ∈ rest, u.percent ≤ p + maxPlausibleStep by
        intro u hu
        obtain rfl | hu := List.mem_cons.1 hu
        · exact hrest.1
        · exact hrest.2 u hu
      cases takes_spec entry hp t with
      | deferred shown far unconfirmed kept =>
          rw [shown] at ht
          refine ⟨ht, le_of_agrees hclose ?_⟩
          simp only [absDiff, maxPlausibleStep, confirmTolerance] at far ht ⊢
          omega
      | held shown rises near cleared =>
          rw [shown] at ht
          exact ⟨ht, ih shown cleared hagree hwithin⟩
      | fell shown falls cleared =>
          refine ⟨Nat.le_add_right_of_le falls, le_of_agrees hclose ?_⟩
          exact Nat.add_le_add falls (by decide)
      | confirmed shown far close cleared =>
          obtain ⟨previous, hopinion, -⟩ := close
          rw [hcleared] at hopinion
          simp [secondOpinion] at hopinion

theorem within_iff {entry : Entry Handle} {p : ℕ} (hp : entry.1.reading = ⟨p, false⟩)
    (hcleared : entry.2.deferred = none) {rest : List Sampled}
    (hagree : rest.Pairwise Sampled.Agrees) :
    Within entry rest ↔ ∀ u ∈ rest, u.percent ≤ p + maxPlausibleStep :=
  ⟨le_of_within hp hcleared hagree, within_of_le hp hagree⟩

/-- The first reading was deferred: the second one confirms it, unless it is close
enough to be held. -/
theorem within_after_deferral {entry : Entry Handle} {p : ℕ} {first second : Sampled}
    {rest : List Sampled} (hp : entry.1.reading = ⟨p, false⟩)
    (hkept : entry.2.deferred = some first.percent ∧ entry.2.deferredSample = first.sample)
    (hagree : (first :: second :: rest).Pairwise Sampled.Agrees) :
    Within entry (second :: rest) ↔
      (∀ u ∈ second :: rest, u.percent ≤ p + maxPlausibleStep) ∨
        p + maxPlausibleStep < second.percent := by
  obtain ⟨hfirst, hagree⟩ := List.pairwise_cons.1 hagree
  obtain ⟨hclose, hrest⟩ := List.pairwise_cons.1 hagree
  obtain ⟨hconfirms, hfresh⟩ := hfirst second (by simp)
  have hopinion : secondOpinion entry.2.deferred entry.2.deferredSample second.sample =
      some first.percent := by
    rw [hkept.1, hkept.2, secondOpinion, if_neg]
    rintro ⟨hsome, hsame⟩
    obtain hnone | hne := hfresh
    · simp [hnone] at hsome
    · exact hne hsame.symm
  constructor
  · intro hwithin
    refine or_iff_not_imp_right.2 fun hle => ?_
    have hle := Nat.le_of_not_lt hle
    suffices hrest : ∀ u ∈ rest, u.percent ≤ p + maxPlausibleStep by
      intro u hu
      obtain rfl | hu := List.mem_cons.1 hu
      · exact hle
      · exact hrest u hu
    cases takes_spec entry hp second with
    | deferred shown far unconfirmed kept =>
        exact absurd ⟨first.percent, hopinion, hconfirms⟩ unconfirmed
    | held shown rises near cleared => exact le_of_within shown cleared hrest hwithin.2
    | fell shown falls cleared =>
        exact le_of_agrees hclose (Nat.add_le_add falls (by decide))
    | confirmed shown far close cleared =>
        refine le_of_agrees hclose ?_
        simp only [absDiff, maxPlausibleStep, confirmTolerance] at far hle ⊢
        omega
  · rintro (hle | hlt)
    · exact within_of_le hp hagree hle
    · cases takes_spec entry hp second with
      | deferred shown far unconfirmed kept =>
          exact absurd ⟨first.percent, hopinion, hconfirms⟩ unconfirmed
      | held shown rises near cleared =>
          simp only [absDiff] at near
          omega
      | fell shown falls cleared => omega
      | confirmed shown far close cleared =>
          refine ⟨by rw [shown]; exact Nat.le_add_right _ _, within_of_le shown hrest ?_⟩
          exact le_of_agrees hclose (Nat.add_le_add_left (by decide) _)

/-- The readings alone: from any published level and any leftover deferral. -/
theorem within_after_first (entry : Entry Handle) {p : ℕ} {first second : Sampled}
    {rest : List Sampled} (hp : entry.1.reading = ⟨p, false⟩)
    (hagree : (first :: second :: rest).Pairwise Sampled.Agrees) :
    Within (entry.takes first) (second :: rest) ↔
      (∀ u ∈ second :: rest, u.percent ≤ p + maxPlausibleStep) ∨
        p + maxPlausibleStep < first.percent ∧
          (p + maxPlausibleStep < second.percent ∨
            ∃ previous, secondOpinion entry.2.deferred entry.2.deferredSample first.sample =
              some previous ∧ absDiff previous first.percent ≤ confirmTolerance) := by
  obtain ⟨hfirst, hrest⟩ := List.pairwise_cons.1 hagree
  -- A first reading that is not above the bound keeps the later ones near it.
  have hbelow (hle : first.percent ≤ p) : ∀ u ∈ second :: rest, u.percent ≤ p + maxPlausibleStep :=
    le_of_agrees hfirst (Nat.add_le_add hle (by decide))
  cases takes_spec entry hp first with
  | deferred shown far unconfirmed kept =>
      by_cases hle : first.percent ≤ p
      · exact iff_of_true (within_of_le shown hrest (hbelow hle)) (.inl (hbelow hle))
      · have habove : p + maxPlausibleStep < first.percent := by
          simp only [absDiff] at far
          omega
        rw [within_after_deferral shown kept hagree]
        simp [habove, unconfirmed]
  | held shown rises near cleared =>
      have hle : ¬p + maxPlausibleStep < first.percent := by
        simp only [absDiff] at near
        omega
      rw [within_iff shown cleared hrest]
      simp [hle]
  | fell shown falls cleared =>
      refine iff_of_true (within_of_le shown hrest ?_) (.inl (hbelow falls))
      exact le_of_agrees hfirst (Nat.add_le_add_left (by decide) _)
  | confirmed shown far close cleared =>
      refine iff_of_true (within_of_le shown hrest ?_) ?_
      · exact le_of_agrees hfirst (Nat.add_le_add_left (by decide) _)
      · by_cases hle : first.percent ≤ p
        · exact .inl (hbelow hle)
        · refine .inr ⟨?_, .inr close⟩
          simp only [absDiff] at far
          omega

/-! ## Over a run of the bridge -/

/-- Two batteries that vetting cannot tell apart. -/
structure Entry.VetsAlike (entry other : Entry Handle) : Prop where
  reading : entry.1.reading = other.1.reading
  opinion : ∀ sample, secondOpinion entry.2.deferred entry.2.deferredSample sample =
    secondOpinion other.2.deferred other.2.deferredSample sample

theorem Entry.VetsAlike.takes {entry other : Entry Handle} (h : entry.VetsAlike other)
    (t : Sampled) : (entry.takes t).VetsAlike (other.takes t) := by
  have hentry := answer_spec entry ⟨t.percent, false⟩ t.sample t.now (.ok ())
  have hother := answer_spec other ⟨t.percent, false⟩ t.sample t.now (.ok ())
  rw [answer_takes] at hentry hother
  have hverdict : entry.verdict ⟨t.percent, false⟩ t.sample =
      other.verdict ⟨t.percent, false⟩ t.sample := by
    rw [Entry.verdict, Entry.verdict, h.reading, h.opinion]
  refine ⟨?_, fun sample => ?_⟩
  · rw [hentry.reading fun level ok hd => pushed_ok hd,
      hother.reading fun level ok hd => pushed_ok hd, hverdict, h.reading]
  · obtain ⟨hdefers, hclears⟩ := hentry.deferred _ rfl
    obtain ⟨hdefers', hclears'⟩ := hother.deferred _ rfl
    by_cases hdefer : entry.verdict ⟨t.percent, false⟩ t.sample = .defer
    · obtain ⟨hkept, hsample⟩ := hdefers hdefer
      obtain ⟨hkept', hsample'⟩ := hdefers' (hverdict ▸ hdefer)
      rw [hkept, hsample, hkept', hsample']
    · rw [hclears hdefer, hclears' (hverdict ▸ hdefer)]
      simp [secondOpinion]

/-- The reading on battery that a move gives to a headset. -/
def Move.sampled (key : String) : Move Handle → Option Sampled
  | .apply now (h, _) =>
      if h.key = key then
        match h.battery with
        | .discharging percent => some ⟨now, percent, h.sample⟩
        | _ => none
      else none
  | _ => none

/-- The readings on battery that some moves give to a headset. -/
def sampled (key : String) (moves : List (Move Handle)) : List Sampled :=
  moves.filterMap (Move.sampled key)

/-- If a move gives the headset a level, what is shown after it is no further than the
bound below that level. -/
def ShowsWithin (key : String) (b : Bridge Handle) (m : Move Handle) : Prop :=
  ∀ t, m.sampled key = some t → ∃ left, (move b m).1.batteries.find? key = some left ∧
    t.percent ≤ left.1.reading.percent + maxPlausibleStep

section Run

variable {b : Bridge Handle} {key : String} {m : Move Handle} {entry start : Entry Handle}

theorem sampled_eq_some {t : Sampled} :
    m.sampled key = some t ↔ ∃ h a, m = .apply t.now (h, a) ∧ h.key = key ∧
      h.battery = .discharging t.percent ∧ h.sample = t.sample := by
  constructor
  · intro hsampled
    cases m with
    | apply now polled =>
        simp only [Move.sampled] at hsampled
        split at hsampled
        next hkey =>
          cases hbattery : polled.1.battery with
          | discharging percent =>
              rw [hbattery] at hsampled
              obtain rfl := Option.some.inj hsampled
              exact ⟨polled.1, polled.2, rfl, hkey, hbattery, rfl⟩
          | _ =>
              rw [hbattery] at hsampled
              cases hsampled
        next => cases hsampled
    | _ => cases hsampled
  · rintro ⟨h, a, rfl, hkey, hbattery, hsample⟩
    simp [Move.sampled, hkey, hbattery, hsample]

theorem level_of_not_sampled (h : m.sampled key = none) : m.level key = none := by
  refine Option.eq_none_iff_forall_not_mem.2 fun n hn => ?_
  obtain ⟨now, headset, a, rfl, hkey, hbattery⟩ := level_eq_some.1 hn
  simp [Move.sampled, hkey, hbattery] at h

/-- A reading that reaches a battery does to it what it does to one like it. -/
theorem alike_of_sampled (hb : b.batteries.InStep) (hupdates : Updates key m)
    (hstart : b.batteries.find? key = some start) (halike : entry.VetsAlike start) {t : Sampled}
    (ht : m.sampled key = some t) :
    ∃ left, (move b m).1.batteries.find? key = some left ∧ (entry.takes t).VetsAlike left := by
  obtain ⟨h, a, rfl, rfl, hbattery, hsample⟩ := sampled_eq_some.1 ht
  have hupdated : a.updated = .ok () := by
    have hok := hupdates t.now h a rfl rfl
    cases hu : a.updated with
    | ok _ => rfl
    | error err => simp [hu, Except.isOk, Except.toBool] at hok
  have hseen : entry.VetsAlike (start.see t.now) := ⟨halike.reading, halike.opinion⟩
  refine ⟨_, takes_of_move hb hstart hbattery hupdated, ?_⟩
  rw [hsample]
  exact hseen.takes t

/-- Any other move that leaves a battery leaves it as it is to vetting. -/
theorem alike_of_not_sampled (hb : b.batteries.InStep) (hunplugged : Unplugged key m)
    (hrenewed : ¬Renewed key (move b m).2) (hstart : b.batteries.find? key = some start)
    (halike : entry.VetsAlike start) (hnone : m.sampled key = none) {left : Entry Handle}
    (hleft : (move b m).1.batteries.find? key = some left) : entry.VetsAlike left := by
  obtain ⟨before, hbefore, hdevice, hdeferred, hsample, -⟩ :=
    quiet_of_no_level hb hunplugged (level_of_not_sampled hnone) hrenewed hleft
  obtain rfl := Option.some.inj (hstart.symm.trans hbefore)
  refine ⟨by rw [halike.reading, hdevice], fun sample => ?_⟩
  rw [halike.opinion, hdeferred, hsample]

/-- A battery that stays is left and shown as its readings alone would leave it. -/
theorem alike_of_moves {moves : List (Move Handle)} (hb : b.batteries.InStep)
    (hunplugged : ∀ m ∈ moves, Unplugged key m) (hupdates : ∀ m ∈ moves, Updates key m)
    (hrenewed : ¬Renewed key (Runs.exec move b moves).2) {left : Entry Handle}
    (hleft : (Runs.exec move b moves).1.batteries.find? key = some left)
    (hstart : b.batteries.find? key = some start) (halike : entry.VetsAlike start) :
    ((sampled key moves).foldl Entry.takes entry).VetsAlike left ∧
      (Runs.Along move (ShowsWithin key) b moves ↔ Within entry (sampled key moves)) := by
  induction moves generalizing b entry start with
  | nil =>
      obtain rfl := Option.some.inj (hstart.symm.trans hleft)
      exact ⟨halike, iff_of_true (Runs.along_nil _ _ _) trivial⟩
  | cons m moves ih =>
      obtain ⟨hplug, hunplugged⟩ := List.forall_mem_cons.1 hunplugged
      obtain ⟨hupdate, hupdates⟩ := List.forall_mem_cons.1 hupdates
      rw [Runs.exec_cons, renewed_append, not_or] at hrenewed
      have hnext := (move_keeps b m hb).inStep
      obtain ⟨next, hlive⟩ := live_before hnext hrenewed.2 hleft
      rw [Runs.along_cons, sampled, List.filterMap_cons]
      cases hm : m.sampled key with
      | none =>
          have hkept := alike_of_not_sampled hb hplug hrenewed.1 hstart halike hm hlive
          have hshows : ShowsWithin key b m := fun t ht => by simp [hm] at ht
          obtain ⟨hend, hwithin⟩ := ih hnext hunplugged hupdates hrenewed.2 hleft hlive hkept
          exact ⟨hend, (and_iff_right hshows).trans hwithin⟩
      | some t =>
          obtain ⟨after, hafter, htaken⟩ := alike_of_sampled hb hupdate hstart halike hm
          obtain rfl := Option.some.inj (hlive.symm.trans hafter)
          have hshows : ShowsWithin key b m ↔
              t.percent ≤ (entry.takes t).1.reading.percent + maxPlausibleStep := by
            rw [htaken.reading]
            simp [ShowsWithin, hm, hlive]
          obtain ⟨hend, hwithin⟩ := ih hnext hunplugged hupdates hrenewed.2 hleft hlive htaken
          exact ⟨hend, and_congr hshows hwithin⟩

end Run

/-- From any published level and any leftover deferral, two or more fresh readings on
battery that agree are shown within the bound from the second on, exactly when none
after the first is above the bound, or the first one is, and either the second is
too or what was deferred before confirms the first. It is the same in every run of the
bridge that gives them to a battery, whatever else happens in between, as long as the
battery stays, is not reported as charging and takes what is pushed. -/
theorem settled_gauge_within (entry : Entry Handle) {p : ℕ} {first second : Sampled}
    {rest : List Sampled} (hp : entry.1.reading = ⟨p, false⟩)
    (hagree : (first :: second :: rest).Pairwise Sampled.Agrees) :
    (Within (entry.takes first) (second :: rest) ↔
      (∀ u ∈ second :: rest, u.percent ≤ p + maxPlausibleStep) ∨
        p + maxPlausibleStep < first.percent ∧
          (p + maxPlausibleStep < second.percent ∨
            ∃ previous, secondOpinion entry.2.deferred entry.2.deferredSample first.sample =
              some previous ∧ absDiff previous first.percent ≤ confirmTolerance)) ∧
    ∀ (config : Config) (inherited : List Handle) (before pre since : List (Move Handle))
      (key : String), (reached config inherited before).batteries.find? key = some entry →
      sampled key pre = [first] → sampled key since = second :: rest →
      (∀ m ∈ pre ++ since, Unplugged key m ∧ Updates key m) →
      ¬Renewed key (Runs.exec move (reached config inherited before) (pre ++ since)).2 →
      (∃ left,
        (reached config inherited (before ++ pre ++ since)).batteries.find? key = some left) →
      (Runs.Along move (ShowsWithin key) (reached config inherited (before ++ pre)) since ↔
        Within (entry.takes first) (second :: rest)) := by
  refine ⟨within_after_first entry hp hagree, ?_⟩
  rintro config inherited before pre since key hlive hfirst hrest hmoves hrenewed ⟨left, hleft⟩
  have hmid := reached_append config inherited before pre
  rw [reached_append] at hleft
  rw [Runs.exec_append, renewed_append, not_or, ← hmid] at hrenewed
  obtain ⟨hpre, hsince⟩ := List.forall_mem_append.1 hmoves
  have hinStep := reached_inStep config inherited (before ++ pre)
  obtain ⟨taken, htaken⟩ := live_before hinStep hrenewed.2 hleft
  have hsame : entry.VetsAlike entry := ⟨rfl, fun _ => rfl⟩
  have halike : ((sampled key pre).foldl Entry.takes entry).VetsAlike taken :=
    (alike_of_moves (reached_inStep config inherited before) (fun m hm => (hpre m hm).1)
      (fun m hm => (hpre m hm).2) hrenewed.1 (by rwa [← hmid]) hlive hsame).1
  rw [hfirst, List.foldl_cons, List.foldl_nil] at halike
  rw [← hrest]
  exact (alike_of_moves hinStep (fun m hm => (hsince m hm).1) (fun m hm => (hsince m hm).2)
    hrenewed.2 hleft htaken halike).2

/-- Charged while out of range, and said twice: the level is shown. -/
theorem settled_gauge_within_of_rise :
    let config : Config := ⟨seconds 60, seconds 10, seconds 30, "/dev/uhid"⟩
    let answers : Answers ℕ := ⟨.error "unused", .ok (), .ok (some "hid-0"), .ok ()⟩
    let maxwell (percent sample : ℕ) : Headset :=
      ⟨"Maxwell", "Audeze Maxwell", 0x3329, 0x4b18, true, .discharging percent, some sample⟩
    let entry : Entry ℕ := .made 7 (maxwell 59 1) ⟨59, false⟩ 0
    let before := Tick.moves ⟨0, false, .ok [(maxwell 59 1, answers)]⟩
    let pre : List (Move ℕ) := [.apply (seconds 1) (maxwell 80 2, answers), .note (seconds 1)]
    let since : List (Move ℕ) :=
      [.apply (seconds 2) (maxwell 80 3, answers), .apply (seconds 3) (maxwell 76 4, answers)]
    Within (entry.takes ⟨seconds 1, 80, some 2⟩)
        [⟨seconds 2, 80, some 3⟩, ⟨seconds 3, 76, some 4⟩] ∧
      Runs.Along move (ShowsWithin "3329:4b18/Maxwell") (reached config [7] (before ++ pre))
        since := by
  intro config answers maxwell entry before pre since
  have hagree : [(⟨seconds 1, 80, some 2⟩ : Sampled), ⟨seconds 2, 80, some 3⟩,
      ⟨seconds 3, 76, some 4⟩].Pairwise Sampled.Agrees := by decide
  obtain ⟨hwithin, hruns⟩ := settled_gauge_within entry rfl hagree
  have hshown := hwithin.2 (.inr ⟨by decide, .inl (by decide)⟩)
  have htrace : (Runs.exec move (reached config [7] before) (pre ++ since)).2.map Event.deed =
      [.deferred ⟨80, false⟩ (some 2), .accepted ⟨80, false⟩ (some 3), .pushed ⟨80, false⟩ true,
        .accepted ⟨76, false⟩ (some 4), .pushed ⟨76, false⟩ true] := by decide +kernel
  have hgiven (now percent sample : ℕ) :
      Unplugged "3329:4b18/Maxwell" (.apply now (maxwell percent sample, answers)) ∧
        Updates "3329:4b18/Maxwell" (.apply now (maxwell percent sample, answers)) :=
    ⟨unplugged_apply rfl, updates_apply rfl⟩
  have hmoves : ∀ m ∈ pre ++ since, Unplugged "3329:4b18/Maxwell" m ∧
      Updates "3329:4b18/Maxwell" m := by
    intro m hm
    have hm : m = .apply (seconds 1) (maxwell 80 2, answers) ∨ m = .note (seconds 1) ∨
        m = .apply (seconds 2) (maxwell 80 3, answers) ∨
          m = .apply (seconds 3) (maxwell 76 4, answers) := by
      simpa only [pre, since, List.cons_append, List.nil_append, List.mem_cons,
        List.not_mem_nil, or_false] using hm
    obtain rfl | rfl | rfl | rfl := hm
    · exact hgiven _ 80 2
    · exact ⟨unplugged_note _ _, updates_note _ _⟩
    · exact hgiven _ 80 3
    · exact hgiven _ 76 4
  have hend : ((reached config [7] (before ++ pre ++ since)).batteries.find?
      "3329:4b18/Maxwell").isSome = true := by decide +kernel
  have hstart : (reached config [7] before).batteries.find? "3329:4b18/Maxwell" = some entry := by
    decide +kernel
  have hfirst : sampled "3329:4b18/Maxwell" pre = [⟨seconds 1, 80, some 2⟩] := by decide +kernel
  have hrest : sampled "3329:4b18/Maxwell" since =
      [⟨seconds 2, 80, some 3⟩, ⟨seconds 3, 76, some 4⟩] := by decide +kernel
  have hrun := hruns config [7] before pre since "3329:4b18/Maxwell" hstart hfirst hrest hmoves
    (not_renewed_of_deeds htrace (by simp)) (Option.isSome_iff_exists.1 hend)
  exact ⟨hshown, hrun.2 hshown⟩

/-- Settled at 65 to 67 with 50 published: the first reading is held, the later ones
are each deferred and held in turn, and the level stays at 50. -/
theorem settled_gauge_too_low :
    ¬∀ (entry : Entry ℕ) (p : ℕ) (first second : Sampled) (rest : List Sampled),
      entry.1.reading = ⟨p, false⟩ →
      (first :: second :: rest).Pairwise Sampled.Agrees →
      Within (entry.takes first) (second :: rest) := by
  intro hsettles
  have hwithin := hsettles (.made 7 ⟨"Maxwell", "Audeze Maxwell", 0x3329, 0x4b18, true,
    .discharging 50, some 1⟩ ⟨50, false⟩ 0) 50 ⟨seconds 1, 65, some 2⟩ ⟨seconds 2, 66, some 3⟩
    [⟨seconds 3, 65, some 4⟩, ⟨seconds 4, 67, some 5⟩] rfl (by decide)
  exact absurd hwithin.1 (by decide)

end HeadsetBattery.Bridge
