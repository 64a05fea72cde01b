import HeadsetBattery.Bridge.Turns

/-!
# A charge and the no-rise rule

A battery that is discharging never shows a rise within the plausible step. A
charge is to lift the rule, and the only mark of one is that the published
reading is a charging one. The mark is gone as soon as anything is published
after the cable is pulled, a cached reading included.
-/
namespace HeadsetBattery.Bridge

variable {Handle : Type}

/-- A level of this battery was pushed, and the push worked. -/
def Pushed (key : String) (events : List Event) : Prop :=
  ∃ e ∈ events, e.key = key ∧ ∃ reading, e.deed = .pushed reading true

/-- This battery was made anew. -/
def Renewed (key : String) (events : List Event) : Prop :=
  ∃ e ∈ events, e.key = key ∧ ∃ reading, e.deed = .appeared reading

/-- A move that does not report the headset as charging. -/
def Unplugged (key : String) (m : Move Handle) : Prop :=
  ∀ now h a, m = .apply now (h, a) → h.key = key → ∀ percent, h.battery ≠ .charging percent

section Traces

variable {key : String} {events events' : List Event}

theorem pushed_append : Pushed key (events ++ events') ↔ Pushed key events ∨ Pushed key events' := by
  simp only [Pushed, List.mem_append, or_and_right, exists_or]

theorem renewed_append :
    Renewed key (events ++ events') ↔ Renewed key events ∨ Renewed key events' := by
  simp only [Renewed, List.mem_append, or_and_right, exists_or]

theorem Quiet.not_pushed (h : Quiet key events) : ¬Pushed key events := by
  rintro ⟨e, he, hkey, reading, hdeed⟩
  have := h e he hkey
  simp [hdeed, Deed.isLevel] at this

theorem pushed_stamp {now : ℕ} {deeds : List Deed} :
    Pushed key (stamp key now deeds) ↔ ∃ reading, .pushed reading true ∈ deeds := by
  constructor
  · rintro ⟨e, he, -, reading, hdeed⟩
    obtain ⟨d, hd, rfl⟩ := List.mem_map.1 he
    exact ⟨reading, hdeed ▸ hd⟩
  · rintro ⟨reading, hd⟩
    exact ⟨_, List.mem_map_of_mem hd, rfl, reading, rfl⟩

end Traces

/-- The pushes among the deeds of one reading are those of the level it left. -/
theorem Answered.pushed_mem {entry : Entry Handle} {reading level : Reading} {sample : Option ℕ}
    {left : Option (Entry Handle)} {deeds : List Deed} {ok : Bool}
    (h : Answered entry reading sample left deeds) (hd : .pushed level ok ∈ deeds) :
    (entry.verdict reading sample).level entry.1.reading reading = some level ∧
      ∀ e, left = some e → e.1.reading = if ok then level else entry.1.reading := by
  obtain ⟨pushes, rest, rfl, hrest, hpushes⟩ := h.deeds
  obtain hd | hd := List.mem_cons.1 hd
  · cases hv : entry.verdict reading sample <;> rw [hv] at hd <;> cases hd
  · obtain hd | hd := List.mem_append.1 hd
    · obtain ⟨rfl, -, -⟩ | ⟨level', ok', hlevel, rfl, hleft⟩ := hpushes
      · cases hd
      · obtain ⟨rfl, rfl⟩ := Deed.pushed.inj (List.mem_singleton.1 hd)
        exact ⟨hlevel, hleft⟩
    · have := hrest _ hd
      cases this

/-- A discharging reading leaves a charging mark exactly when it pushes nothing
that works. -/
theorem Answered.mark {entry left : Entry Handle} {percent : ℕ} {sample : Option ℕ}
    {deeds : List Deed} (h : Answered entry ⟨percent, false⟩ sample (some left) deeds) :
    ((∃ reading, .pushed reading true ∈ deeds) → left.1.reading.charging = false) ∧
      ((¬∃ reading, .pushed reading true ∈ deeds) → left.1.reading = entry.1.reading) := by
  constructor
  · rintro ⟨level, hd⟩
    obtain ⟨hlevel, hleft⟩ := h.pushed_mem hd
    rw [hleft left rfl, if_pos rfl]
    obtain ⟨-, rfl⟩ | ⟨hv, rfl⟩ := Verdict.level_eq_some.1 hlevel
    · rfl
    · exact (vet_eq_hold.1 hv).2.2.1
  · intro hnone
    obtain ⟨pushes, rest, rfl, -, ⟨-, -, hleft⟩ | ⟨level, ok, -, rfl, hleft⟩⟩ := h.deeds
    · exact hleft left rfl
    · rw [hleft left rfl]
      cases ok with
      | true => exact absurd ⟨level, by simp⟩ hnone
      | false => rfl

/-- A move that does not report a battery as charging, nor makes it anew, leaves the
mark of a charge unless a push works. -/
theorem mark_of_move {b : Bridge Handle} (hb : b.batteries.InStep) {key : String}
    {m : Move Handle} (hunplugged : Unplugged key m) (hrenewed : ¬Renewed key (move b m).2)
    {left : Entry Handle} (hleft : (move b m).1.batteries.find? key = some left) :
    ∃ entry, b.batteries.find? key = some entry ∧
      (left.1.reading.charging = true ↔
        entry.1.reading.charging = true ∧ ¬Pushed key (move b m).2) := by
  have hturn := move_turn hb m key
  rw [hleft] at hturn
  generalize b.batteries.find? key = was at hturn
  generalize (move b m).2 = events at hturn hrenewed
  cases hturn with
  | same device _ _ quiet => exact ⟨_, rfl, by simp [device, quiet.not_pushed]⟩
  | appeared _ mine _ _ =>
      subst mine
      refine absurd ⟨_, List.mem_map_of_mem (List.mem_append_right _ (List.mem_singleton_self _)),
        rfl, _, rfl⟩ hrenewed
  | @answered now h a entry reading _ deeds moved mine read answered =>
      subst moved
      have hdischarging : reading.charging = false := by
        refine Bool.eq_false_iff.2 fun hcharging => ?_
        obtain ⟨percent, hstate⟩ := BatteryState.charging_of_reading read hcharging
        exact hunplugged now h a rfl mine percent hstate
      obtain ⟨percent, charging⟩ := reading
      subst hdischarging
      obtain ⟨hpushed, hkept⟩ := answered.mark
      refine ⟨entry, rfl, ?_⟩
      rw [pushed_stamp]
      by_cases hdone : ∃ reading, .pushed reading true ∈ deeds
      · simp [hpushed hdone, hdone]
      · simp [hkept hdone, hdone]

/-- While nothing reports it as charging, a battery keeps the mark of a charge
exactly as long as no push works. -/
theorem mark_of_moves {b : Bridge Handle} (hb : b.batteries.InStep) {key : String}
    {entry : Entry Handle} (hk : b.batteries.find? key = some entry)
    (hcharging : entry.1.reading.charging = true) {since : List (Move Handle)}
    (hunplugged : ∀ m ∈ since, Unplugged key m)
    (hrenewed : ¬Renewed key (Runs.exec move b since).2) {left : Entry Handle}
    (hleft : (Runs.exec move b since).1.batteries.find? key = some left) :
    left.1.reading.charging = true ↔ ¬Pushed key (Runs.exec move b since).2 := by
  suffices hinv : (Runs.exec move b since).1.batteries.InStep ∧
      (¬Renewed key (Runs.exec move b since).2 → ∀ left,
        (Runs.exec move b since).1.batteries.find? key = some left →
          (left.1.reading.charging = true ↔ ¬Pushed key (Runs.exec move b since).2)) by
    exact hinv.2 hrenewed left hleft
  refine Runs.exec_induction (fun _ m => Unplugged key m)
    (fun _ (st : Bridge Handle) tr => st.batteries.InStep ∧ (¬Renewed key tr → ∀ left,
      st.batteries.find? key = some left → (left.1.reading.charging = true ↔ ¬Pushed key tr)))
    ?_ ?_ since (fun before m after he => hunplugged m (by simp [he]))
  · refine ⟨hb, fun _ left hleft => ?_⟩
    obtain rfl := Option.some.inj (hk.symm.trans hleft)
    simp [hcharging, Pushed]
  · intro done m hdone hm
    obtain ⟨hst, hmark⟩ := hdone
    refine ⟨(move_keeps _ m hst).inStep, fun hnew left hleft => ?_⟩
    rw [renewed_append, not_or] at hnew
    rw [pushed_append]
    obtain ⟨entry, hentry, hstep⟩ := mark_of_move hst hm hnew.2 hleft
    rw [hstep, hmark hnew.1 entry hentry, not_or]

/-- A plausible reading is either accepted or held. -/
theorem vet_of_near {published candidate : Reading} {deferred : Option ℕ}
    (hnear : absDiff published.percent candidate.percent ≤ maxPlausibleStep)
    (hhold : vet published candidate deferred ≠ .hold) :
    vet published candidate deferred = .accept := by
  unfold vet at hhold ⊢
  rw [if_neg (by omega)] at hhold ⊢
  split
  next h => exact absurd (if_pos h) hhold
  next => rfl

/-- A plausible reading is published as it is, or was already, unless it is held. -/
theorem Answered.published {entry : Entry Handle} {reading : Reading} {sample : Option ℕ}
    {left : Option (Entry Handle)} {deeds : List Deed}
    (h : Answered entry reading sample left deeds)
    (hnear : absDiff entry.1.reading.percent reading.percent ≤ maxPlausibleStep) :
    (entry.1.reading = reading ∨ ∃ ok, .pushed reading ok ∈ deeds) ↔
      entry.verdict reading sample ≠ .hold := by
  constructor
  · intro hpublished hhold
    obtain ⟨-, -, -, hrise⟩ := vet_eq_hold.1 hhold
    have hne : entry.1.reading ≠ reading := fun he => by simp [he] at hrise
    obtain he | ⟨ok, hd⟩ := hpublished
    · exact hne he
    · obtain ⟨hlevel, -⟩ := h.pushed_mem hd
      rw [hhold] at hlevel
      exact hne (Option.some.inj hlevel)
  · intro hhold
    have haccept : entry.verdict reading sample = .accept := vet_of_near hnear hhold
    obtain ⟨pushes, rest, rfl, -, ⟨-, hlevel, -⟩ | ⟨level, ok, hlevel, rfl, -⟩⟩ := h.deeds
    · exact .inl (hlevel reading (by rw [haccept]; rfl))
    · rw [haccept] at hlevel
      obtain rfl := Option.some.inj hlevel
      exact .inr ⟨ok, by simp⟩

/-- A battery has been published charging, and from then on no move reports its
headset as charging or makes it anew. A plausible reading is then published as it
is exactly when nothing has been pushed since, so that the mark of the charge is
still there, or when it is no rise. -/
theorem charge_lifts_no_rise (config : Config) (inherited : List Handle)
    (before since : List (Move Handle)) (now : ℕ) (h : Headset) (a : Answers Handle)
    {charged entry : Entry Handle} {percent : ℕ}
    (hcharged : (reached config inherited before).batteries.find? h.key = some charged)
    (hcharging : charged.1.reading.charging = true)
    (hunplugged : ∀ m ∈ since, Unplugged h.key m)
    (hrenewed : ¬Renewed h.key (Runs.exec move (reached config inherited before) since).2)
    (hentry : (reached config inherited (before ++ since)).batteries.find? h.key = some entry)
    (hbattery : h.battery = .discharging percent)
    (hnear : absDiff entry.1.reading.percent percent ≤ maxPlausibleStep) :
    (entry.1.reading = ⟨percent, false⟩ ∨ ∃ ok, ⟨h.key, now, .pushed ⟨percent, false⟩ ok⟩ ∈
        (move (reached config inherited (before ++ since)) (.apply now (h, a))).2) ↔
      ¬Pushed h.key (Runs.exec move (reached config inherited before) since).2 ∨
        percent ≤ entry.1.reading.percent := by
  have hmark : entry.1.reading.charging = true ↔
      ¬Pushed h.key (Runs.exec move (reached config inherited before) since).2 := by
    rw [reached_append] at hentry
    exact mark_of_moves (reached_inStep config inherited before) hcharged hcharging hunplugged
      hrenewed hentry
  have hread : h.battery.reading entry.1.reading.percent = some ⟨percent, false⟩ := by
    rw [hbattery]
    rfl
  obtain ⟨deeds, hanswered, hevents⟩ :=
    applyOne_answered (reached_inStep config inherited (before ++ since)) now (h, a) hentry hread
  have hpushed (ok : Bool) : ⟨h.key, now, .pushed ⟨percent, false⟩ ok⟩ ∈
      (move (reached config inherited (before ++ since)) (.apply now (h, a))).2 ↔
        .pushed ⟨percent, false⟩ ok ∈ deeds := by
    rw [move, hevents]
    simp [stamp]
  have hhold : entry.verdict ⟨percent, false⟩ h.sample = .hold ↔
      entry.1.reading.charging = false ∧ entry.1.reading.percent < percent := by
    rw [Entry.verdict, vet_eq_hold]
    simp [hnear]
  simp only [hpushed]
  rw [hanswered.published hnear, ← hmark, ne_eq, hhold]
  simp [or_iff_not_imp_left]

/-- Off the cable without a level for a poll: the next level is published as it is,
though it is a rise. -/
theorem charge_lifts_no_rise_of_gap :
    let config : Config := ⟨seconds 60, seconds 10, seconds 30, "/dev/uhid"⟩
    let answers : Answers ℕ := ⟨.error "unused", .ok (), .ok (some "hid-0"), .ok ()⟩
    let maxwell (state : BatteryState) (sample : ℕ) : Headset :=
      ⟨"Maxwell", "Audeze Maxwell", 0x3329, 0x4b18, true, state, some sample⟩
    let poll (now : ℕ) (h : Headset) : Tick ℕ := ⟨seconds now, false, .ok [(h, answers)]⟩
    let b := reached config [7] ((poll 0 (maxwell (.charging (some 60)) 1)).moves ++
      (poll 1 (maxwell .unavailable 1)).moves)
    ∃ ok, ⟨"3329:4b18/Maxwell", seconds 2, .pushed ⟨65, false⟩ ok⟩ ∈
      (move b (.apply (seconds 2) (maxwell (.discharging 65) 2, answers))).2 := by
  intro config answers maxwell poll b
  let before := (poll 0 (maxwell (.charging (some 60)) 1)).moves
  let since := (poll 1 (maxwell .unavailable 1)).moves
  have hcharged : ((reached config [7] before).batteries.find? "3329:4b18/Maxwell").map
      (fun entry => entry.1.reading) = some ⟨60, true⟩ := by decide +kernel
  have hentry : (b.batteries.find? "3329:4b18/Maxwell").map
      (fun entry => entry.1.reading) = some ⟨60, true⟩ := by decide +kernel
  obtain ⟨charged, hfind, hcharging⟩ := Option.map_eq_some_iff.1 hcharged
  obtain ⟨entry, hlive, hshown⟩ := Option.map_eq_some_iff.1 hentry
  have hunplugged : ∀ m ∈ since, Unplugged "3329:4b18/Maxwell" m := by
    rintro m hm now h a rfl - percent hbattery
    have hheadset : h = maxwell .unavailable 1 := by
      simp [since, Tick.moves, Tick.withBattery, Tick.headsets, poll] at hm
      exact hm.1.1.1
    subst hheadset
    cases hbattery
  have hquiet : (Runs.exec move (reached config [7] before) since).2 = [] := by decide +kernel
  have hkey : (maxwell (.discharging 65) 2).key = "3329:4b18/Maxwell" := by decide +kernel
  have hlifts := charge_lifts_no_rise config [7] before since (seconds 2)
    (maxwell (.discharging 65) 2) answers (hkey ▸ hfind) (hcharging ▸ rfl) (hkey ▸ hunplugged)
    (by simp [hquiet, Renewed]) (hkey ▸ hlive) rfl (hshown ▸ by decide)
  rw [hkey, hquiet, hshown] at hlifts
  exact (hlifts.2 (.inl (by simp [Pushed]))).resolve_left (by simp)

/-- A cached level, reported once more when the cable is pulled, takes the mark of
the charge with it: the first fresh level after it is held. -/
theorem charge_forgotten_by_repeat :
    let config : Config := ⟨seconds 60, seconds 10, seconds 30, "/dev/uhid"⟩
    let answers : Answers ℕ := ⟨.error "unused", .ok (), .ok (some "hid-0"), .ok ()⟩
    let poll (now : ℕ) (state : BatteryState) (sample : ℕ) : Input ℕ := .tick ⟨seconds now, false,
      .ok [(⟨"Maxwell", "Audeze Maxwell", 0x3329, 0x4b18, true, state, some sample⟩, answers)]⟩
    let shown (inputs : List (Input ℕ)) : Option Reading :=
      ((run config [7] inputs).1.batteries.find? "3329:4b18/Maxwell").map
        fun entry => entry.1.reading
    let plugged := poll 0 (.charging (some 60)) 1
    let repeated := poll 1 (.discharging 60) 1
    let fresh := poll 2 (.discharging 65) 2
    shown [plugged] = some ⟨60, true⟩ ∧ shown [plugged, repeated] = some ⟨60, false⟩ ∧
      absDiff 60 65 ≤ maxPlausibleStep ∧ shown [plugged, repeated, fresh] = some ⟨60, false⟩ ∧
      ∀ e ∈ (run config [7] [plugged, repeated, fresh]).2,
        e.deed ≠ .pushed ⟨65, false⟩ true ∧ e.deed ≠ .pushed ⟨65, false⟩ false := by
  decide +kernel

end HeadsetBattery.Bridge
