import HeadsetBattery.Library.Traces
import HeadsetBattery.Bridge.Graces

/-!
# Silences

What becomes of a battery over polls that its headset does not answer. None comes of
such a poll, one that is left was kept by the graces, and where every poll follows
an unanswered one within a given time, how many of them there were bounds how long
the headset has been silent.
-/
namespace HeadsetBattery.Bridge

variable {Handle : Type}

/-- No battery comes of a poll that its headset does not answer. -/
theorem live_before_polled {b : Bridge Handle} (hb : b.batteries.InStep) {t : Tick Handle}
    {key : String} {entry : Entry Handle}
    (hlive : (b.polled t).1.batteries.find? key = some entry) (hquiet : t.answers key = false) :
    ∃ before, b.batteries.find? key = some before := by
  rw [Bridge.polled, find?_noteAll] at hlive
  obtain ⟨applied, hfound, -⟩ := Option.map_eq_some_iff.1 hlive
  have hkept : (Runs.exec (applyOne t.now) (b.probed t) t.withBattery).1.batteries.InStep ∧
      ∀ entry, (Runs.exec (applyOne t.now) (b.probed t) t.withBattery).1.batteries.find? key =
        some entry → ∃ before, b.batteries.find? key = some before := by
    refine Runs.exec_within
      (fun st : Bridge Handle => st.batteries.InStep ∧ ∀ entry, st.batteries.find? key = some entry →
        ∃ before, b.batteries.find? key = some before) ?_ ?_ (List.Subset.refl _)
    · rintro polled hpolled st ⟨hst, hold⟩ -
      refine ⟨(applyOne_keeps t.now hst polled).inStep, fun entry hentry => ?_⟩
      obtain ⟨left, deeds, htouches, hbecomes, -⟩ := applyOne_spec hst t.now polled
      by_cases hkey : key = polled.1.key
      · cases hk : st.batteries.find? polled.1.key with
        | some before => exact hold before (hkey ▸ hk)
        | none =>
            -- A headset without a battery gets one for a usable level only.
            subst hkey
            rw [htouches.here] at hentry
            subst hentry
            rw [hk] at hbecomes
            cases hbecomes with
            | battery handle offered attempts created =>
                have hanswers := List.any_eq_false.1 hquiet polled hpolled
                simp [BatteryState.answers_of_offer offered] at hanswers
      · exact hold entry ((htouches.elsewhere hkey).symm.trans hentry)
    · obtain ⟨hbatteries, -, -⟩ := probed_batteries b t
      exact ⟨(probed_keeps hb t).inStep, fun entry hentry => ⟨entry, hbatteries ▸ hentry⟩⟩
  exact hkept.2 applied hfound

/-- A battery that a tick leaves was judged, and kept. -/
theorem kept_of_tick {b : Bridge Handle} (hb : b.batteries.InStep) {t : Tick Handle} {key : String}
    {entry : Entry Handle} (hlive : (b.tick t).1.batteries.find? key = some entry) :
    (b.polled t).1.batteries.find? key = some entry ∧
      outlived b.config entry.2 t.now = .keep := by
  have hpolled := polled_keeps hb t
  have hkept := ((expire_spec hpolled.inStep t.now).find? key).symm.trans hlive
  obtain ⟨hfound, hverdict⟩ := Option.filter_eq_some_iff.1 hkept
  rw [hpolled.config, decide_eq_true_eq] at hverdict
  exact ⟨hfound, hverdict⟩

/-- Servicing changes nothing a battery is judged by. -/
theorem live_before_serve {b : Bridge Handle} (hb : b.batteries.InStep) (err : ServeError)
    {key : String} {entry : Entry Handle}
    (hlive : (serve b err).1.batteries.find? key = some entry) :
    ∃ before, b.batteries.find? key = some before ∧
      before.2.silentSince = entry.2.silentSince ∧ before.2.missingSince = entry.2.missingSince := by
  obtain he | ⟨before, hbefore, htouches, -⟩ := serve_spec hb err
  · rw [he] at hlive
    exact ⟨entry, hlive, rfl, rfl⟩
  · rw [htouches.find?] at hlive
    split at hlive
    next hkey =>
      obtain ⟨failures, rfl, -⟩ := settle_eq_some hlive
      exact ⟨before, hkey ▸ hbefore, rfl, rfl⟩
    next => exact ⟨entry, hlive, rfl, rfl⟩

/-- Nor does a wait. -/
theorem live_before_wait {b : Bridge Handle} (hb : b.batteries.InStep) (w : Wait) {key : String}
    {entry : Entry Handle} (hlive : (b.wait w).1.batteries.find? key = some entry) :
    ∃ before, b.batteries.find? key = some before ∧
      before.2.silentSince = entry.2.silentSince ∧ before.2.missingSince = entry.2.missingSince := by
  suffices hserved : (b.wait w).1.batteries.InStep ∧
      ∀ entry, (b.wait w).1.batteries.find? key = some entry →
        ∃ before, b.batteries.find? key = some before ∧
          before.2.silentSince = entry.2.silentSince ∧
          before.2.missingSince = entry.2.missingSince by
    exact hserved.2 entry hlive
  refine Runs.exec_invariant (fun (st : Bridge Handle) _ => st.batteries.InStep ∧
    ∀ entry, st.batteries.find? key = some entry →
      ∃ before, b.batteries.find? key = some before ∧
        before.2.silentSince = entry.2.silentSince ∧
        before.2.missingSince = entry.2.missingSince) ?_ ?_ w.errors
  · exact ⟨hb, fun entry hentry => ⟨entry, hentry, rfl, rfl⟩⟩
  · rintro err st - ⟨hst, hold⟩
    refine ⟨(serve_keeps hst err).inStep, fun entry hentry => ?_⟩
    obtain ⟨served, hserved, hsilent, hmissing⟩ := live_before_serve hst err hentry
    obtain ⟨before, hbefore, hsilent', hmissing'⟩ := hold served hserved
    exact ⟨before, hbefore, hsilent'.trans hsilent, hmissing'.trans hmissing⟩

theorem ticks_wait (inputs : List (Input Handle)) (w : Wait) :
    ticks (inputs ++ [.wait w]) = ticks inputs := by
  simp [ticks]

/-- The last tick of a run judged every battery that is left, and kept it. -/
theorem kept_run (config : Config) (inherited : List Handle) (inputs : List (Input Handle))
    {t : Tick Handle} (hlast : (ticks inputs).getLast? = some t) {key : String}
    {entry : Entry Handle}
    (hlive : (run config inherited inputs).1.batteries.find? key = some entry) :
    outlived config entry.2 t.now = .keep := by
  suffices hkept : (run config inherited inputs).1.batteries.InStep ∧
      (run config inherited inputs).1.config = config ∧
      ∀ t, (ticks inputs).getLast? = some t → ∀ key entry,
        (run config inherited inputs).1.batteries.find? key = some entry →
          outlived config entry.2 t.now = .keep by
    exact hkept.2.2 t hlast key entry hlive
  refine Runs.exec_history (fun inputs (b : Bridge Handle) _ => b.batteries.InStep ∧
    b.config = config ∧ ∀ t, (ticks inputs).getLast? = some t → ∀ key entry,
      b.batteries.find? key = some entry → outlived config entry.2 t.now = .keep) ?_ ?_ inputs
  · exact ⟨Batteries.inStep_empty, rfl, fun t ht => by cases ht⟩
  · rintro inputs input ⟨hstep, hconfig, hkept⟩
    have hkeeps := step_keeps _ input hstep
    refine ⟨hkeeps.inStep, hkeeps.config.trans hconfig, ?_⟩
    cases input with
    | tick t =>
        intro u hu key entry hentry
        rw [ticks_snoc, List.getLast?_concat] at hu
        obtain rfl := Option.some.inj hu
        exact hconfig ▸ (kept_of_tick hstep hentry).2
    | wait w =>
        intro t ht key entry hentry
        rw [ticks_wait] at ht
        obtain ⟨before, hbefore, hsilent, hmissing⟩ := live_before_wait hstep w hentry
        rw [outlived, ← hsilent, ← hmissing]
        exact hkept t ht key before hbefore

/-! ## Withdrawn as silent -/

/-- Vetting a reading is no withdrawal. -/
theorem vetted_deed_ne (battery : VirtualBattery) (known reading : Reading) (sample : Option ℕ)
    (cause : Cause) : (vetted battery known reading sample).2.2 ≠ .removed cause := by
  unfold vetted
  split <;> simp

/-- A device that is given up on is not silent. -/
theorem settle_deeds_ne (entry : Entry Handle) (ok : Bool) :
    ∀ d ∈ (entry.settle ok).2, d ≠ .removed .silent := by
  unfold Entry.settle
  cases ok with
  | true => simp
  | false =>
      simp only [Bool.false_eq_true, if_false]
      split <;> simp

/-- Nor is a headset that is listed. -/
theorem apply_deeds_ne (entry : Entry Handle) (h : Headset) (now : ℕ) (a : Answers Handle) :
    ∀ d ∈ (entry.apply h now a).2, d ≠ .removed .silent := by
  unfold Entry.apply
  cases h.battery.reading entry.1.reading.percent with
  | some reading =>
      simp only [Entry.answer]
      obtain ⟨tail, hdeeds, htail⟩ := refresh_deeds (entry.see now).1 (entry.see now).2 reading
        h.sample now a.updated
      have hrefreshed : ∀ d ∈ (refresh (entry.see now).1 (entry.see now).2 reading h.sample now
          a.updated).2.1, d ≠ .removed .silent := by
        rw [hdeeds]
        refine List.forall_mem_cons.2 ⟨vetted_deed_ne _ _ _ _ _, fun d hd => ?_⟩
        obtain ⟨shown, ok, rfl⟩ := htail d hd
        simp
      split
      · exact hrefreshed
      · exact fun d hd => (List.mem_append.1 hd).elim (hrefreshed d) (settle_deeds_ne _ _ d)
  | none =>
      simp only [Entry.leave]
      split
      · split <;> simp
      · simp

theorem applyOne_events_ne {b : Bridge Handle} (hb : b.batteries.InStep) (now : ℕ)
    (polled : Headset × Answers Handle) :
    ∀ e ∈ (applyOne now b polled).2, e.deed ≠ .removed .silent := by
  obtain ⟨left, deeds, -, hbecomes, hevents⟩ := applyOne_spec hb now polled
  suffices hdeeds : ∀ d ∈ deeds, d ≠ .removed .silent by
    rw [hevents]
    intro e he
    obtain ⟨d, hd, rfl⟩ := List.mem_map.1 he
    exact hdeeds d hd
  cases hk : b.batteries.find? polled.1.key with
  | some entry =>
      rw [hk] at hbecomes
      have happly : entry.apply polled.1 now polled.2 = (left, deeds) := hbecomes
      have hne := apply_deeds_ne entry polled.1 now polled.2
      rwa [happly] at hne
  | none =>
      rw [hk] at hbecomes
      have hattempt : ∀ {mayOpen : Bool}, ∀ d : Deed, d.isAttempt mayOpen = true →
          d ≠ .removed .silent := by
        rintro mayOpen d hd rfl
        cases hd
      cases hbecomes with
      | nothing attempts => exact fun d hd => hattempt d (attempts d hd)
      | battery handle offered attempts created =>
          intro d hd
          obtain hd | hd := List.mem_append.1 hd
          · exact hattempt d (attempts d hd)
          · simp [List.mem_singleton.1 hd]

/-- A tick that withdraws a battery as silent has judged it so. -/
theorem expired_of_removed {b : Bridge Handle} (hb : b.batteries.InStep) {t : Tick Handle}
    {key : String} {now : ℕ} (h : ⟨key, now, .removed .silent⟩ ∈ (b.tick t).2) :
    b.Expired t key .silent := by
  obtain hpolled | hexpired := List.mem_append.1 h
  · have happlied : (Runs.exec (applyOne t.now) (b.probed t) t.withBattery).1.batteries.InStep ∧
        ∀ e ∈ (b.polled t).2, e.deed ≠ .removed .silent := by
      refine Runs.exec_invariant (fun (st : Bridge Handle) (events : List Event) =>
        st.batteries.InStep ∧ ∀ e ∈ events, e.deed ≠ .removed .silent) ?_ ?_ t.withBattery
      · exact ⟨(probed_keeps hb t).inStep, by simp⟩
      · rintro polled st events ⟨hst, hold⟩
        exact ⟨(applyOne_keeps t.now hst polled).inStep, fun e he =>
          (List.mem_append.1 he).elim (hold e) (applyOne_events_ne hst t.now polled e)⟩
    exact absurd rfl (happlied.2 _ hpolled)
  · have hnow := hexpired
    rw [(expire_spec (polled_keeps hb t).inStep t.now).events] at hnow
    obtain ⟨entry, cause, -, -, he⟩ := hnow
    obtain ⟨-, rfl, -⟩ := Event.mk.inj he
    exact hexpired

/-- A wait withdraws no battery as silent. -/
theorem wait_events_ne {b : Bridge Handle} (hb : b.batteries.InStep) (w : Wait) :
    ∀ e ∈ (b.wait w).2.1, e.deed ≠ .removed .silent := by
  have hserved : (b.wait w).1.batteries.InStep ∧
      ∀ e ∈ (b.wait w).2.1, e.deed ≠ .removed .silent := by
    refine Runs.exec_invariant (fun (st : Bridge Handle) (events : List Event) =>
      st.batteries.InStep ∧ ∀ e ∈ events, e.deed ≠ .removed .silent) ⟨hb, by simp⟩ ?_ w.errors
    rintro err st events ⟨hst, hold⟩
    refine ⟨(serve_keeps hst err).inStep, fun e he => (List.mem_append.1 he).elim (hold e) ?_⟩
    obtain he | ⟨entry, -, -, hevents⟩ := serve_spec hst err
    · simp [he]
    · rw [hevents]
      intro hmem
      obtain ⟨d, hd, rfl⟩ := List.mem_map.1 hmem
      exact settle_deeds_ne entry false d hd
  exact hserved.2

/-! ## How many polls a silence spans -/

/-- How many polls in a row the headset has left without a usable level, up to the
last one. -/
def missed (key : String) (history : List (Tick Handle)) : ℕ :=
  (history.reverse.takeWhile fun t => !t.answers key).length

theorem missed_snoc (key : String) (history : List (Tick Handle)) (t : Tick Handle) :
    missed key (history ++ [t]) = if t.answers key then 0 else missed key history + 1 := by
  cases ht : t.answers key <;> simp [missed, ht]

/-- Every poll before which a battery is unanswered comes within `gap` of the poll
before it. -/
def Retried (gap : ℕ) (config : Config) (inherited : List Handle) (inputs : List (Input Handle)) :
    Prop :=
  Traces.Everywhere (fun pre input => ∀ u, input = .tick u → ∀ t, (ticks pre).getLast? = some t →
    (run config inherited pre).1.unanswered = true → u.now ≤ t.now + gap) inputs

/-- What is withdrawn was there to be judged. -/
theorem live_of_expired {b : Bridge Handle} (hb : b.batteries.InStep) {t : Tick Handle}
    {key : String} {cause : Cause} (hexpired : b.Expired t key cause) :
    ∃ entry, (b.polled t).1.batteries.find? key = some entry := by
  rw [Expired, (expire_spec (polled_keeps hb t).inStep t.now).events] at hexpired
  obtain ⟨entry, cause', hlive, -, he⟩ := hexpired
  exact ⟨entry, (Event.mk.inj he).1 ▸ hlive⟩

/-- A battery that is silent is unanswered. -/
theorem unanswered_of_find? {b : Bridge Handle} {key : String} {entry : Entry Handle}
    (hlive : b.batteries.find? key = some entry) (hsilent : entry.2.silentSince.isSome = true) :
    b.unanswered = true := by
  have hmem : entry ∈ b.batteries.entries := (KeyedList.mem_of_lookup hlive).1
  exact List.any_eq_true.2 ⟨entry.2, (List.of_mem_zip hmem).2, hsilent⟩

/-- A battery is unanswered if one that is found is silent. -/
theorem find?_of_unanswered {b : Bridge Handle} (hb : b.batteries.InStep)
    (h : b.unanswered = true) : ∃ key entry, b.batteries.find? key = some entry ∧
      entry.2.silentSince.isSome = true := by
  obtain ⟨battery, hmem, hsilent⟩ := List.any_eq_true.1 h
  obtain ⟨i, hi⟩ := List.getElem?_of_mem hmem
  have hlt : i < b.batteries.devices.length := hb.length ▸ (List.getElem?_eq_some_iff.1 hi).1
  have hpair : b.batteries.pair? i = some (b.batteries.devices[i], battery) :=
    List.getElem?_zip_eq_some.2 ⟨List.getElem?_eq_getElem hlt, hi⟩
  exact ⟨battery.key, _, hb.find?_of_pair? hpair, hsilent⟩

theorem unanswered_before_wait {b : Bridge Handle} (hb : b.batteries.InStep) (w : Wait)
    (h : (b.wait w).1.unanswered = true) : b.unanswered = true := by
  obtain ⟨key, entry, hlive, hsilent⟩ := find?_of_unanswered (step_keeps b (.wait w) hb).inStep h
  obtain ⟨before, hbefore, hsame, -⟩ := live_before_wait hb w hlive
  exact unanswered_of_find? hbefore (hsame ▸ hsilent)

section Runs

variable {gap : ℕ} {config : Config} {inherited : List Handle} {inputs : List (Input Handle)}
  {u : Tick Handle} {key : String} {entry : Entry Handle}

/-- A battery that a poll finds silent, and is left for the poll to judge, was there and
silent for as many polls fewer. -/
theorem silence_step (hretried : Retried gap config inherited (inputs ++ [.tick u]))
    (hincreasing : (ticks inputs).Pairwise fun t u => t.now < u.now)
    (hwithin : ∀ entry, (run config inherited inputs).1.batteries.find? key = some entry →
      ∀ start, silence key (ticks inputs) = some start → ∀ t, (ticks inputs).getLast? = some t →
        t.now + gap ≤ start + missed key (ticks inputs) * gap)
    (hlive : ((run config inherited inputs).1.polled u).1.batteries.find? key = some entry)
    {start : ℕ} (hstart : silence key (ticks inputs ++ [u]) = some start) :
    u.now ≤ start + missed key (ticks inputs) * gap := by
  have hclock := onClock_run config inherited hincreasing
  rw [silence_snoc] at hstart
  cases hanswers : u.answers key with
  | true => simp [hanswers, note] at hstart
  | false =>
      obtain ⟨before, hbefore⟩ := live_before_polled hclock.inStep hlive hanswers
      rw [hanswers, note_false, Option.some.injEq] at hstart
      cases hsilence : silence key (ticks inputs) with
      | none =>
          -- The first poll of the silence.
          rw [hsilence, Option.getD_none] at hstart
          omega
      | some since =>
          rw [hsilence, Option.getD_some] at hstart
          subst hstart
          have hsilent := (hclock.clocked key before hbefore).silent.trans hsilence
          have hunanswered := unanswered_of_find? hbefore (by simp [hsilent])
          obtain ⟨t, ht⟩ : ∃ t, (ticks inputs).getLast? = some t := by
            refine Option.ne_none_iff_exists'.1 fun hnone => ?_
            rw [List.getLast?_eq_none_iff.1 hnone] at hsilence
            cases hsilence
          have hnext := hretried inputs (.tick u) [] rfl u rfl t ht hunanswered
          have hold := hwithin before hbefore since hsilence t ht
          omega

/-- A battery has been silent for no longer than its unanswered polls but the first
take. -/
theorem silence_within (hretried : Retried gap config inherited inputs)
    (hincreasing : (ticks inputs).Pairwise fun t u => t.now < u.now)
    (hlive : (run config inherited inputs).1.batteries.find? key = some entry) {start : ℕ}
    (hstart : silence key (ticks inputs) = some start) {t : Tick Handle}
    (hlast : (ticks inputs).getLast? = some t) :
    t.now + gap ≤ start + missed key (ticks inputs) * gap := by
  induction inputs using List.reverseRecOn generalizing entry start t with
  | nil => cases hlast
  | append_singleton inputs input ih =>
      have hbefore' : Retried gap config inherited inputs := (Traces.everywhere_append.1 hretried).1
      rw [ticks_append] at hincreasing
      have hearlier := (List.pairwise_append.1 hincreasing).1
      have hclock := onClock_run config inherited hearlier
      rw [run, Runs.exec_snoc] at hlive
      cases input with
      | tick u =>
          rw [ticks_snoc, List.getLast?_concat] at hlast
          obtain rfl := Option.some.inj hlast
          rw [ticks_snoc] at hstart ⊢
          have hpolled := (kept_of_tick hclock.inStep hlive).1
          have hstep := silence_step hretried hearlier
            (fun entry hentry start hs t ht => ih hbefore' hearlier hentry hs ht) hpolled hstart
          cases hanswers : u.answers key with
          | true => simp [silence_snoc, hanswers, note] at hstart
          | false =>
              rw [missed_snoc, hanswers, if_neg (by simp), Nat.add_mul]
              omega
      | wait w =>
          rw [ticks_wait] at hstart hlast ⊢
          obtain ⟨before, hbefore, -, -⟩ := live_before_wait hclock.inStep w hlive
          exact ih hbefore' hearlier hbefore hstart hlast

/-- A battery that is withdrawn as silent has gone unanswered at more polls than the
grace has room for. -/
theorem missed_of_expired (hretried : Retried gap config inherited (inputs ++ [.tick u]))
    (hincreasing : (ticks inputs ++ [u]).Pairwise fun t u => t.now < u.now)
    (hexpired : (run config inherited inputs).1.Expired u key .silent) :
    config.offlineGrace + gap < missed key (ticks inputs ++ [u]) * gap := by
  have hearlier := (List.pairwise_append.1 hincreasing).1
  have hbefore : ∀ t ∈ ticks inputs, t.now < u.now := fun t ht =>
    (List.pairwise_append.1 hincreasing).2.2 t ht u (by simp)
  have hclock := onClock_run config inherited hearlier
  obtain ⟨entry, hlive⟩ := live_of_expired hclock.inStep hexpired
  have hcause := (expired_iff hclock.inStep hlive .silent).1 hexpired
  have hnoted := hclock.polled hbefore hlive
  have hlong : config.offlineGrace < since entry.2.silentSince u.now := by
    rw [hclock.configured, outlived, withdrawal] at hcause
    split at hcause
    next => split at hcause <;> cases hcause
    next =>
      split at hcause
      next hlong => exact hlong
      next => cases hcause
  obtain ⟨start, hstart, hgrace⟩ := lt_since_iff.1 hlong
  have hstep := silence_step hretried hearlier
    (fun entry hentry start hs t ht => silence_within (Traces.everywhere_append.1 hretried).1
      hearlier hentry hs ht) hlive (hnoted.silent.symm.trans hstart)
  cases hquiet : u.answers key with
  | true =>
      rw [hnoted.silent, silence_snoc, hquiet] at hstart
      cases hstart
  | false =>
      rw [missed_snoc, hquiet, if_neg (by simp), Nat.add_mul]
      omega

end Runs

end HeadsetBattery.Bridge
