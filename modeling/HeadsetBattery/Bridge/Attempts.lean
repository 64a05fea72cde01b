import HeadsetBattery.Bridge.Retries

/-!
# Trying again when it is due

The other half of the rate limit. What bars the creation of a device is a failure of
the past that is recent, or final; so a headset that gives a level is given a battery
at the first poll at which neither is the case.
-/
namespace HeadsetBattery.Bridge

variable {Handle : Type}

/-! ## Where the records come from -/

/-- A record after a concern is an old one, or one the concern made. -/
structure Owes (s : Slot Handle) (now : ℕ) (s' : Slot Handle) (deeds : List Deed) : Prop where
  retry : ∀ retryAt, s'.retryAt = some retryAt → s.retryAt = some retryAt ∨
    retryAt = now + attachRetry ∧ ∃ d ∈ deeds, d.holdsOff = true
  never : s'.abandoned = true → s.abandoned = true ∨ .attachFailed true ∈ deeds

theorem owes_entry (s : Slot Handle) (now : ℕ) (entry : Option (Entry Handle)) (deeds : List Deed) :
    Owes s now { s with entry := entry } deeds := ⟨fun _ h => .inl h, fun h => .inl h⟩

theorem owes_later (s s' : Slot Handle) (now : ℕ) {d : Deed} {deeds : List Deed} (hd : d ∈ deeds)
    (hoff : d.holdsOff = true) (hretry : s'.retryAt = some (now + attachRetry))
    (habandoned : s'.abandoned = s.abandoned) : Owes s now s' deeds where
  retry _ h := .inr ⟨(Option.some.inj (hretry.symm.trans h)).symm, d, hd, hoff⟩
  never h := .inl (habandoned ▸ h)

theorem owes_keep (s : Slot Handle) (now : ℕ) (kept : Option (Entry Handle) × List Deed) :
    Owes s now (s.keep now kept).1 (s.keep now kept).2 := by
  by_cases hbroken : .removed .broken ∈ kept.2
  · simp only [Slot.keep, if_pos hbroken]
    exact owes_later _ _ _ hbroken (by simp [Deed.holdsOff]) rfl rfl
  · rw [s.keep_of_not_mem now hbroken]
    exact owes_entry s now kept.1 kept.2

theorem owes_attempt (s : Slot Handle) (h : Headset) (reading : Reading) (now : ℕ)
    (got : Option Handle) (a : Answers Handle) :
    Owes s now (s.attempt h reading now got a).1 (s.attempt h reading now got a).2 := by
  have hfailed : Deed.holdsOff (.attachFailed false) = true := rfl
  cases got with
  | none => exact owes_later s (s.retryLater now) now (List.mem_singleton_self _) hfailed rfl rfl
  | some handle =>
      simp only [Slot.attempt]
      obtain ⟨creations, -, hattached | ⟨failure, hattached⟩⟩ :=
        attachOn_creations handle h reading now a
      · simp only [hattached]
        exact ⟨fun _ h => (by cases h), fun h => .inl h⟩
      · cases failure with
        | retry err =>
            simp only [hattached]
            exact owes_later s (s.retryLater now) now (by simp) hfailed rfl rfl
        | giveUp err =>
            simp only [hattached]
            exact ⟨fun _ h => .inl h, fun _ => .inr (by simp)⟩

theorem take_owes (config : Config) (s : Slot Handle) (c : Concern Handle) :
    Owes s c.now (s.take config c).1 (s.take config c).2 := by
  cases c with
  | listed now h got a =>
      simp only [Slot.take]
      split
      · exact owes_keep s now _
      · split
        · exact owes_entry s now s.entry []
        · split
          · exact owes_entry s now s.entry []
          · exact owes_attempt s h _ now got a
  | noted now => exact owes_entry s now _ []
  | judged now =>
      simp only [Slot.take]
      split
      · exact owes_entry s now s.entry []
      · exact owes_entry s now none _
  | served now =>
      simp only [Slot.take]
      split
      · exact owes_entry s now s.entry []
      · exact owes_keep s now _

/-- Every record is owed to a failure on the trace. -/
structure Owed (s : Slot Handle) (events : List Event) : Prop where
  retry : ∀ retryAt, s.retryAt = some retryAt →
    ∃ f ∈ events, f.deed.holdsOff = true ∧ f.now + attachRetry = retryAt
  never : s.abandoned = true → ∃ f ∈ events, f.deed = .attachFailed true

theorem owed_run (config : Config) (key : String) (taken : List (Concern Handle)) :
    Owed (Runs.exec (Slot.step config key) .empty taken).1
      (Runs.exec (Slot.step config key) .empty taken).2 := by
  refine Runs.exec_invariant Owed ⟨fun _ h => (by cases h), fun h => (by cases h)⟩ ?_ taken
  intro c s events h
  obtain ⟨hretry, hnever⟩ := take_owes config s c
  constructor
  · intro retryAt hr
    obtain hold | ⟨rfl, d, hd, hoff⟩ := hretry retryAt hr
    · obtain ⟨f, hf, hfailed⟩ := h.retry retryAt hold
      exact ⟨f, List.mem_append_left _ hf, hfailed⟩
    · exact ⟨⟨key, c.now, d⟩, List.mem_append_right _ (List.mem_map_of_mem hd), hoff, rfl⟩
  · intro habandoned
    obtain hold | hd := hnever habandoned
    · obtain ⟨f, hf, hfailed⟩ := h.never hold
      exact ⟨f, List.mem_append_left _ hf, hfailed⟩
    · exact ⟨⟨key, c.now, _⟩, List.mem_append_right _ (List.mem_map_of_mem hd), rfl⟩

/-! ## When a creation is due -/

/-- Nothing that happened bars the creation of a device: no recent failure, and none
that is final. -/
def Due (key : String) (past : List Event) (now : ℕ) : Prop :=
  ∀ f ∈ past, f.key = key →
    (f.deed = .attachFailed false ∨ f.deed = .removed .broken → f.now + attachRetry ≤ now) ∧
      f.deed ≠ .attachFailed true

instance (key : String) (past : List Event) (now : ℕ) : Decidable (Due key past now) :=
  inferInstanceAs (Decidable (∀ f ∈ past, f.key = key →
    (f.deed = .attachFailed false ∨ f.deed = .removed .broken → f.now + attachRetry ≤ now) ∧
      f.deed ≠ .attachFailed true))

theorem holdsOff_iff {d : Deed} :
    d.holdsOff = true ↔ d = .attachFailed false ∨ d = .removed .broken := by
  cases d <;> simp [Deed.holdsOff]

/-- What is due is read off the events of the headset alone. -/
theorem due_own {key : String} {past : List Event} {now : ℕ} :
    Due key past now ↔ ∀ f ∈ own key past,
      (f.deed.holdsOff = true → f.now + attachRetry ≤ now) ∧ f.deed ≠ .attachFailed true := by
  simp only [Due, own, List.mem_filter, Event.isOwn, holdsOff_iff]
  constructor
  · rintro h f ⟨hf, hown⟩
    simp only [Bool.and_eq_true, decide_eq_true_eq] at hown
    exact h f hf hown.1
  · intro h f hf hkey
    by_cases hopens : f.deed = .opensNode
    · simp [hopens]
    · exact h f ⟨hf, by simp [hkey, hopens]⟩

/-- The records bar a creation exactly when it is not due. -/
theorem barred_eq_false_iff (config : Config) (key : String) {taken : List (Concern Handle)}
    (hmono : (taken.map Concern.now).Pairwise (· ≤ ·)) {now : ℕ} (hnow : ∀ c ∈ taken, c.now ≤ now) :
    (Runs.exec (Slot.step config key) .empty taken).1.barred now = false ↔
      ∀ f ∈ (Runs.exec (Slot.step config key) .empty taken).2,
        (f.deed.holdsOff = true → f.now + attachRetry ≤ now) ∧ f.deed ≠ .attachFailed true := by
  have hrecorded := recorded_run config key taken hmono
  have howed := owed_run config key taken
  constructor
  · intro hclear f hf
    refine ⟨fun hoff => hrecorded.later f hf hoff now hnow hclear, fun hnever => ?_⟩
    have habandoned := hrecorded.never f hf hnever
    simp [Slot.barred, habandoned] at hclear
  · intro hpast
    rw [Slot.barred, Bool.or_eq_false_iff]
    constructor
    · by_contra hany
      rw [Bool.not_eq_false, Option.any_eq_true] at hany
      obtain ⟨retryAt, hretry, hlt⟩ := hany
      obtain ⟨f, hf, hoff, rfl⟩ := howed.retry retryAt hretry
      have hle := (hpast f hf).1 hoff
      simp only [decide_eq_true_eq] at hlt
      omega
    · by_contra habandoned
      obtain ⟨f, hf, hnever⟩ := howed.never (Bool.not_eq_false _ ▸ habandoned)
      exact (hpast f hf).2 hnever

/-! ## Runs -/

/-- The bridge at the point where a tick comes to a headset of its poll, the ones in
`before` being applied, with the events so far. -/
def amid (config : Config) (inherited : List Handle) (inputs : List (Input Handle))
    (t : Tick Handle) (before : List (Headset × Answers Handle)) : Bridge Handle × List Event :=
  let past := run config inherited inputs
  let applied := Runs.exec (applyOne t.now) (past.1.probed t) before
  (applied.1, past.2 ++ applied.2)

/-- The moves up to that point. -/
def movesAmid (inputs : List (Input Handle)) (t : Tick Handle)
    (before : List (Headset × Answers Handle)) : List (Move Handle) :=
  inputs.flatMap Input.moves ++ .probe t :: before.map (.apply t.now)

theorem amid_eq_moves (config : Config) (inherited : List Handle) (inputs : List (Input Handle))
    (t : Tick Handle) (before : List (Headset × Answers Handle)) :
    amid config inherited inputs t before =
      Runs.exec move (new config inherited) (movesAmid inputs t before) := by
  have happlied := Runs.exec_map (applyOne t.now) move (.apply t.now) (fun _ _ => rfl)
    ((run config inherited inputs).1.probed t) before
  rw [movesAmid, Runs.exec_append, Runs.exec_cons, ← run_eq_moves]
  simp only [amid, happlied]
  rfl

/-- The poll comes to a headset after all the moves before it. -/
theorem movesAmid_nondecreasing {inputs : List (Input Handle)} {t : Tick Handle}
    {before after : List (Headset × Answers Handle)} {polled : Headset × Answers Handle}
    (hmono : ((inputs ++ [Input.tick t]).flatMap Input.instants).Pairwise (· ≤ ·))
    (hlisted : t.withBattery = before ++ polled :: after) :
    ((movesAmid inputs t before).map Move.now).Pairwise (· ≤ ·) ∧
      ∀ m ∈ movesAmid inputs t before, m.now ≤ t.now := by
  have hsplit : (inputs ++ [Input.tick t]).flatMap Input.moves =
      movesAmid inputs t before ++ .apply t.now polled :: (after.map (.apply t.now) ++
        [.note t.now, .expire t.now]) := by
    simp [movesAmid, Input.moves, Tick.moves, hlisted]
  have hmoves := moves_nondecreasing hmono
  rw [hsplit, List.map_append, List.pairwise_append] at hmoves
  exact ⟨hmoves.1, fun m hm => hmoves.2.2 _ (List.mem_map_of_mem hm) t.now (by simp [Move.now])⟩

/-- What an attempt does shows: a handle is taken, or there was none. -/
theorem attempt_shows (s : Slot Handle) (h : Headset) (reading : Reading) (now : ℕ)
    (got : Option Handle) (a : Answers Handle) :
    ∃ d ∈ (s.attempt h reading now got a).2, d = .acquired ∨ d = .attachFailed false := by
  cases got with
  | none => exact ⟨_, List.mem_singleton_self _, .inr rfl⟩
  | some handle =>
      have hacquired : .acquired ∈ (attachOn handle h reading now a).2.1 := by
        unfold attachOn
        split
        · simp
        · simp
        · split <;> simp
      refine ⟨.acquired, ?_, .inl rfl⟩
      simp only [Slot.attempt]
      split
      · exact hacquired
      · exact List.mem_append_left _ hacquired
      · exact List.mem_append_left _ hacquired

/-- The records of a headset bar a creation for it exactly when it is not due. -/
theorem barred_amid (config : Config) (inherited : List Handle) {inputs : List (Input Handle)}
    {t : Tick Handle} {before after : List (Headset × Answers Handle)}
    {polled : Headset × Answers Handle}
    (hmono : ((inputs ++ [Input.tick t]).flatMap Input.instants).Pairwise (· ≤ ·))
    (hlisted : t.withBattery = before ++ polled :: after) (key : String) :
    ((amid config inherited inputs t before).1.slot key).barred t.now = false ↔
      Due key (amid config inherited inputs t before).2 t.now := by
  obtain ⟨hmoves, hlast⟩ := movesAmid_nondecreasing hmono hlisted
  have hnow : ∀ c ∈ concerns key (new config inherited) (movesAmid inputs t before),
      c.now ≤ t.now := by
    intro c hc
    have hsub : ((concerns key (new config inherited) (movesAmid inputs t before)).map
        Concern.now).Sublist ((movesAmid inputs t before).map Move.now) :=
      Projections.views_sublist Move.now Concern.now (fun _ _ _ => now_of_concern) _ _
    obtain ⟨m, hm, hsame⟩ := List.mem_map.1 (hsub.subset (List.mem_map_of_mem hc))
    exact hsame ▸ hlast m hm
  have hiff := barred_eq_false_iff config key
    (concerns_nondecreasing key (new config inherited) hmoves) hnow
  rw [reached_slot] at hiff
  rw [amid_eq_moves, due_own]
  exact hiff

/-- A headset that gives a level and has no battery, at any poll of any run: a device
is asked for exactly when that is due, and where the pool and the kernel answer it has
its battery right away. -/
theorem attempted_when_due (config : Config) (inherited : List Handle)
    (inputs : List (Input Handle)) (t : Tick Handle)
    (before after : List (Headset × Answers Handle)) (h : Headset) (a : Answers Handle)
    (hmono : ((inputs ++ [Input.tick t]).flatMap Input.instants).Pairwise (· ≤ ·))
    (hlisted : t.withBattery = before ++ (h, a) :: after) {reading : Reading}
    (hlevel : h.battery.offer = some reading)
    (hnone : (amid config inherited inputs t before).1.batteries.find? h.key = none) :
    let past := amid config inherited inputs t before
    let applied := applyOne t.now past.1 (h, a)
    ((∃ e ∈ applied.2, e.deed = .acquired ∨ e.deed = .attachFailed false) ↔
        Due h.key past.2 t.now) ∧
      ∀ handle path, Due h.key past.2 t.now →
        (past.1.uhid.acquire a.opened).2.2 = .ok handle → a.created = .ok () →
        a.registered = .ok (some path) →
        applied.1.batteries.find? h.key = some (.made handle h reading t.now) := by
  intro past applied
  have hdue : (past.1.slot h.key).barred t.now = false ↔ Due h.key past.2 t.now :=
    barred_amid config inherited hmono hlisted h.key
  have hinStep : past.1.batteries.InStep := by
    have hreached := reached_inStep config inherited (movesAmid inputs t before)
    rwa [reached, ← amid_eq_moves] at hreached
  obtain ⟨hslot, hdeeds⟩ := apply_slot hinStep h t.now a config
  have hentry : (past.1.slot h.key).entry = none := hnone
  simp only [Slot.take, hentry, hlevel] at hslot hdeeds
  constructor
  · rw [← hdue]
    constructor
    · rintro ⟨e, he, hshows⟩
      obtain ⟨d, hd, rfl⟩ := List.mem_map.1 he
      have hown : d ∈ ownDeeds (past.1.apply h t.now a).2.1 := by
        refine List.mem_filter.2 ⟨hd, ?_⟩
        obtain hd | hd := hshows <;> simp [show d = _ from hd]
      by_contra hbarred
      rw [hdeeds, if_pos (Bool.not_eq_false _ ▸ hbarred)] at hown
      cases hown
    · intro hclear
      rw [if_neg (by simp [hclear])] at hdeeds
      obtain ⟨d, hd, hshows⟩ := attempt_shows (past.1.slot h.key) h reading t.now
        (past.1.uhid.acquire a.opened).2.2.toOption a
      rw [← hdeeds] at hd
      exact ⟨⟨h.key, t.now, d⟩, List.mem_map_of_mem (List.mem_of_mem_filter hd), hshows⟩
  · intro handle path hnow hgot hcreated hregistered
    have hclear := hdue.2 hnow
    have hmine := congrFun hslot h.key
    rw [Function.update_self, if_neg (by simp [hclear]), hgot] at hmine
    have hattempt : ((past.1.slot h.key).attempt h reading t.now (some handle) a).1.entry =
        some (.made handle h reading t.now) := by
      simp [Slot.attempt, attachOn, hcreated, hregistered, Entry.made]
    exact (congrArg Slot.entry hmine).trans hattempt

/-- A creation that failed is tried again a minute later, and then the battery is there. -/
theorem attempted_when_due_of_failure :
    let config : Config := ⟨seconds 60, seconds 10, seconds 30, "/dev/uhid"⟩
    let maxwell : Headset :=
      ⟨"Maxwell", "Audeze Maxwell", 0x3329, 0x4b18, true, .discharging 80, none⟩
    let answers (created : Except (CreateErrorKind × String) Unit) : Answers ℕ :=
      ⟨.error "unused", created, .ok (some "hid-0"), .ok ()⟩
    let inputs := [Input.tick ⟨0, false, .ok [(maxwell, answers (.error (.other, "EIO")))]⟩]
    let t : Tick ℕ := ⟨seconds 60, false, .ok [(maxwell, answers (.ok ()))]⟩
    (applyOne t.now (amid config [7] inputs t []).1 (maxwell, answers (.ok ()))).1.batteries.find?
      maxwell.key = some (.made 7 maxwell ⟨80, false⟩ (seconds 60)) := by
  intro config maxwell answers inputs t
  refine (attempted_when_due config [7] inputs t [] [] maxwell (answers (.ok ())) (by decide) rfl
    rfl (by decide +kernel)).2 7 "hid-0" (by decide +kernel) (by decide +kernel) rfl rfl

end HeadsetBattery.Bridge
