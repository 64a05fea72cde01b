import HeadsetBattery.Bridge.Effects

/-!
# Runs of the bridge

What holds of the handles and of every battery after any number of ticks and
waits: no handle is lost, an index means the same in both lists, and a device
that failed too often is no longer there. The rule for batteries carries a
property of one battery over a run: it has to hold of a battery just made and
to survive whatever a battery survives.
-/
namespace HeadsetBattery.Bridge

variable {Handle : Type}

/-- The daemon's loop from its start. -/
def run (config : Config) (inherited : List Handle) (inputs : List (Input Handle)) :
    Bridge Handle × List Event :=
  Runs.exec step (new config inherited) inputs

/-! ## What every step keeps -/

section Keeps

variable {b : Bridge Handle}

theorem exec_keeps {ι : Type} {step : Bridge Handle → ι → Bridge Handle × List Event}
    (h : ∀ (b : Bridge Handle) i, b.batteries.InStep → Keeps b (step b i).1)
    (hb : b.batteries.InStep) (is : List ι) : Keeps b (Runs.exec step b is).1 :=
  Runs.exec_invariant (fun b' _ => Keeps b b') (.refl hb)
    (fun i _ _ hk => hk.trans (h _ i hk.inStep)) is

theorem applyOne_keeps (now : ℕ) (hb : b.batteries.InStep) (polled : Headset × Answers Handle) :
    Keeps b (applyOne now b polled).1 := by
  obtain ⟨left, deeds, htouches, -⟩ := applyOne_spec hb now polled
  exact htouches.toKeeps

theorem polled_keeps (hb : b.batteries.InStep) (t : Tick Handle) : Keeps b (b.polled t).1 := by
  have hprobed := probed_keeps hb t
  have happlied := exec_keeps (fun _ polled hb => applyOne_keeps t.now hb polled) hprobed.inStep
    t.withBattery
  exact (hprobed.trans happlied).trans (noteAll_keeps happlied.inStep t.now)

theorem tick_keeps (hb : b.batteries.InStep) (t : Tick Handle) : Keeps b (b.tick t).1 := by
  have hpolled := polled_keeps hb t
  exact hpolled.trans (expire_spec hpolled.inStep t.now).toKeeps

theorem serve_keeps (hb : b.batteries.InStep) (err : ServeError) : Keeps b (serve b err).1 := by
  obtain he | ⟨entry, -, htouches, -⟩ := serve_spec hb err
  · rw [he]
    exact .refl hb
  · exact htouches.toKeeps

theorem step_keeps (b : Bridge Handle) (input : Input Handle) (hb : b.batteries.InStep) :
    Keeps b (step b input).1 := by
  cases input with
  | tick t => exact tick_keeps hb t
  | wait w => exact exec_keeps (fun _ err hb => serve_keeps hb err) hb w.errors

theorem run_keeps (config : Config) (inherited : List Handle) (inputs : List (Input Handle)) :
    Keeps (new config inherited) (run config inherited inputs).1 :=
  exec_keeps step_keeps Batteries.inStep_empty inputs

end Keeps

/-! ## What holds of every battery -/

/-- A property of every live battery. -/
def Every (Q : Entry Handle → Prop) (b : Bridge Handle) : Prop :=
  ∀ key entry, b.batteries.find? key = some entry → Q entry

/-- A property a battery does not lose while it lives. -/
structure Stable (Q : Entry Handle → Prop) : Prop where
  survives : ∀ h now entry left, Survives h now entry left → Q entry → Q left
  noted : ∀ now (entry : Entry Handle), Q entry → Q (entry.1, noteClocks now entry.2)
  settled : ∀ (entry : Entry Handle) failures, failures < deviceFailureLimit → Q entry →
    Q (entry.1, { entry.2 with failures := failures })

section Every

variable {Q : Entry Handle → Prop} {b : Bridge Handle}

theorem Every.touched {b' : Bridge Handle} {key : String} {left : Option (Entry Handle)}
    (h : Every Q b) (htouches : Touches key left b b') (hleft : ∀ entry, left = some entry → Q entry) :
    Every Q b' := by
  intro key' entry hentry
  rw [htouches.find?] at hentry
  split at hentry
  · exact hleft entry hentry
  · exact h key' entry hentry

theorem every_applyOne (hQ : Stable Q) (hb : b.batteries.InStep) {now : ℕ}
    {polled : Headset × Answers Handle}
    (hmade : ∀ handle reading, polled.1.battery.offer = some reading →
      ⟨polled.1.key, now, .created (identityOf polled.1)⟩ ∈ (applyOne now b polled).2 →
      Q (.made handle polled.1 reading now)) (h : Every Q b) :
    Every Q (applyOne now b polled).1 := by
  obtain ⟨left, deeds, htouches, hbecomes, hevents⟩ := applyOne_spec hb now polled
  refine h.touched htouches fun entry hleft => ?_
  subst hleft
  cases hk : b.batteries.find? polled.1.key with
  | some before =>
      rw [hk] at hbecomes
      exact hQ.survives _ _ _ _ (Entry.apply_survives (congrArg Prod.fst hbecomes)) (h _ _ hk)
  | none =>
      rw [hk] at hbecomes
      cases hbecomes with
      | battery handle offered attempts created =>
          refine hmade handle _ offered ?_
          rw [hevents]
          exact List.mem_map_of_mem (List.mem_append_left _ created)

theorem every_applied (hQ : Stable Q) (hb : b.batteries.InStep) {now : ℕ}
    {polleds : List (Headset × Answers Handle)}
    (hmade : ∀ polled ∈ polleds, ∀ handle reading, polled.1.battery.offer = some reading →
      ⟨polled.1.key, now, .created (identityOf polled.1)⟩ ∈
        (Runs.exec (applyOne now) b polleds).2 →
      Q (.made handle polled.1 reading now)) (h : Every Q b) :
    Every Q (Runs.exec (applyOne now) b polleds).1 := by
  refine (Runs.exec_within (fun b => b.batteries.InStep ∧ Every Q b)
    ?_ ⟨hb, h⟩ (List.Subset.refl _)).2
  intro polled hpolled st hinv hout
  obtain ⟨hst, hevery⟩ := hinv
  exact ⟨(applyOne_keeps now hst polled).inStep, every_applyOne hQ hst
    (fun handle reading ho hc => hmade polled hpolled handle reading ho (hout hc)) hevery⟩

theorem Every.probed (h : Every Q b) (t : Tick Handle) : Every Q (b.probed t) := by
  intro key entry hentry
  rw [(probed_batteries b t).1] at hentry
  exact h key entry hentry

theorem every_polled (hQ : Stable Q) (hb : b.batteries.InStep) {t : Tick Handle}
    (hmade : ∀ polled ∈ t.withBattery, ∀ handle reading, polled.1.battery.offer = some reading →
      ⟨polled.1.key, t.now, .created (identityOf polled.1)⟩ ∈ (b.polled t).2 →
      Q (.made handle polled.1 reading t.now)) (h : Every Q b) : Every Q (b.polled t).1 := by
  have happlied := every_applied hQ (probed_keeps hb t).inStep hmade (h.probed t)
  intro key entry hentry
  rw [polled, find?_noteAll] at hentry
  obtain ⟨before, hbefore, rfl⟩ := Option.map_eq_some_iff.1 hentry
  exact hQ.noted t.now before (happlied key before hbefore)

theorem Every.expire (hb : b.batteries.InStep) (h : Every Q b) (now : ℕ) :
    Every Q (b.expire now).1 := by
  intro key entry hentry
  rw [(expire_spec hb now).find?] at hentry
  exact h key entry (Option.eq_some_of_filter_eq_some hentry)

theorem every_serve (hQ : Stable Q) (hb : b.batteries.InStep) (err : ServeError) (h : Every Q b) :
    Every Q (serve b err).1 := by
  obtain he | ⟨entry, hentry, htouches, -⟩ := serve_spec hb err
  · rw [he]
    exact h
  · refine h.touched htouches fun left hleft => ?_
    obtain ⟨failures, rfl, hlt⟩ := settle_eq_some hleft
    exact hQ.settled entry failures hlt (h _ _ hentry)

/-- The rule for batteries: a stable property that holds of every battery made
during a run holds of every battery at its end. -/
theorem every_run (hQ : Stable Q) {config : Config} {inherited : List Handle}
    {inputs : List (Input Handle)}
    (hmade : ∀ t, .tick t ∈ inputs → ∀ polled ∈ t.withBattery, ∀ handle reading,
      polled.1.battery.offer = some reading →
      ⟨polled.1.key, t.now, .created (identityOf polled.1)⟩ ∈ (run config inherited inputs).2 →
      Q (.made handle polled.1 reading t.now)) : Every Q (run config inherited inputs).1 := by
  refine (Runs.exec_within (fun b => b.batteries.InStep ∧ Every Q b)
    ?_ ⟨Batteries.inStep_empty, ?_⟩
    (List.Subset.refl _)).2
  · intro input hinput b hinv hout
    obtain ⟨hb, hevery⟩ := hinv
    refine ⟨(step_keeps b input hb).inStep, ?_⟩
    cases input with
    | tick t =>
        have hpolled : Every Q (b.polled t).1 := by
          refine every_polled hQ hb (fun polled hp handle reading ho hc => ?_) hevery
          exact hmade t hinput polled hp handle reading ho (hout (List.mem_append_left _ hc))
        exact hpolled.expire (polled_keeps hb t).inStep t.now
    | wait w =>
        refine (Runs.exec_invariant (fun b _ => b.batteries.InStep ∧ Every Q b)
          ⟨hb, hevery⟩ ?_ w.errors).2
        intro err st _ hinv
        obtain ⟨hst, hevery⟩ := hinv
        exact ⟨(serve_keeps hst err).inStep, every_serve hQ hst err hevery⟩
  · intro key entry hentry
    cases hentry

end Every

/-! ## The node is opened only where that is allowed -/

/-- What is done about a battery that exists. -/
def Deed.isUpkeep : Deed → Bool
  | deferred _ _ | held _ _ | accepted _ _ | pushed _ _ | struck _ | removed _ => true
  | _ => false

theorem settle_upkeep (entry : Entry Handle) (ok : Bool) :
    ∀ d ∈ (entry.settle ok).2, d.isUpkeep := by
  simp only [Entry.settle]
  repeat' split
  all_goals simp [Deed.isUpkeep]

theorem apply_upkeep (entry : Entry Handle) (h : Headset) (now : ℕ) (a : Answers Handle) :
    ∀ d ∈ (entry.apply h now a).2, d.isUpkeep := by
  have hvet (battery : VirtualBattery) (known reading : Reading) :
      (vetted battery known reading h.sample).2.2.isUpkeep := by
    unfold vetted
    split <;> rfl
  have hrefresh (reading : Reading) :
      ∀ d ∈ (refresh entry.1 (entry.see now).2 reading h.sample now a.updated).2.1, d.isUpkeep := by
    obtain ⟨tail, he, htail⟩ :=
      refresh_deeds entry.1 (entry.see now).2 reading h.sample now a.updated
    rw [he]
    intro d hd
    obtain rfl | hd := List.mem_cons.1 hd
    · exact hvet _ _ _
    · obtain ⟨shown, ok, rfl⟩ := htail d hd
      rfl
  unfold Entry.apply
  split
  next reading _ =>
    simp only [Entry.answer]
    split
    · exact hrefresh reading
    · intro d hd
      exact (List.mem_append.1 hd).elim (hrefresh reading d) (settle_upkeep _ _ d)
  next =>
    simp only [Entry.leave]
    repeat' split
    all_goals simp [Deed.isUpkeep]

theorem mayOpen_of_becomes {mayOpen : Bool} {h : Headset} {now : ℕ} {a : Answers Handle}
    {before left : Option (Entry Handle)} {deeds : List Deed}
    (hb : Becomes mayOpen h now a before left deeds) (hopen : .opensNode ∈ deeds) :
    mayOpen = true := by
  cases before with
  | some entry =>
      have hdeeds : (entry.apply h now a).2 = deeds := congrArg Prod.snd hb
      have hupkeep := apply_upkeep entry h now a .opensNode (hdeeds ▸ hopen)
      cases hupkeep
  | none =>
      cases hb with
      | nothing attempts => exact attempts _ hopen
      | battery handle offered attempts created =>
          obtain hopen | hopen := List.mem_append.1 hopen
          · exact attempts _ hopen
          · simp at hopen

/-- Events of a bridge that may not open the node. -/
def NodeUntouched (events : List Event) : Prop := ∀ e ∈ events, e.deed ≠ .opensNode

theorem NodeUntouched.append {es fs : List Event} (h : NodeUntouched es) (h' : NodeUntouched fs) :
    NodeUntouched (es ++ fs) := by
  intro e he
  exact (List.mem_append.1 he).elim (h e) (h' e)

theorem nodeUntouched_stamp {key : String} {now : ℕ} {deeds : List Deed}
    (h : .opensNode ∉ deeds) : NodeUntouched (stamp key now deeds) := by
  intro e he hopen
  obtain ⟨d, hd, rfl⟩ := List.mem_map.1 he
  simp only at hopen
  exact h (hopen ▸ hd)

theorem exec_untouched {ι : Type} {step : Bridge Handle → ι → Bridge Handle × List Event}
    (hkeeps : ∀ (b : Bridge Handle) i, b.batteries.InStep → Keeps b (step b i).1)
    (hstep : ∀ (b : Bridge Handle) i, b.batteries.InStep → b.uhid.mayOpen = false →
      NodeUntouched (step b i).2) {b : Bridge Handle} (hb : b.batteries.InStep)
    (hm : b.uhid.mayOpen = false) (is : List ι) : NodeUntouched (Runs.exec step b is).2 := by
  refine (Runs.exec_invariant (fun b' tr => Keeps b b' ∧ NodeUntouched tr)
    ⟨.refl hb, by simp [NodeUntouched]⟩ ?_ is).2
  intro i st tr hinv
  obtain ⟨hst, htr⟩ := hinv
  exact ⟨hst.trans (hkeeps st i hst.inStep),
    htr.append (hstep st i hst.inStep (hst.mayOpen.trans hm))⟩

theorem tick_untouched {b : Bridge Handle} (hb : b.batteries.InStep) (hm : b.uhid.mayOpen = false)
    (t : Tick Handle) : NodeUntouched (b.tick t).2 := by
  have hprobed := probed_keeps hb t
  have hexpired := expire_spec (polled_keeps hb t).inStep t.now
  refine NodeUntouched.append (exec_untouched (fun _ polled hb => applyOne_keeps t.now hb polled)
    (fun st polled hst hm => ?_) hprobed.inStep (hprobed.mayOpen.trans hm) t.withBattery) ?_
  · obtain ⟨left, deeds, -, hbecomes, hevents⟩ := applyOne_spec hst t.now polled
    rw [hevents]
    refine nodeUntouched_stamp fun hopen => ?_
    have := mayOpen_of_becomes hbecomes hopen
    simp [hm] at this
  · intro e he
    obtain ⟨entry, cause, -, -, rfl⟩ := (hexpired.events e).1 he
    simp

theorem serve_untouched {b : Bridge Handle} (hb : b.batteries.InStep) (err : ServeError) :
    NodeUntouched (serve b err).2 := by
  obtain he | ⟨entry, -, -, hevents⟩ := serve_spec hb err
  · rw [he]
    simp [NodeUntouched]
  · rw [hevents]
    refine nodeUntouched_stamp fun hopen => ?_
    have := settle_upkeep entry false .opensNode hopen
    cases this

theorem run_untouched (config : Config) {inherited : List Handle} (hn : inherited ≠ [])
    (inputs : List (Input Handle)) : NodeUntouched (run config inherited inputs).2 := by
  have hm : (new config inherited).uhid.mayOpen = false := by simpa [new, DevicePool.new] using hn
  refine exec_untouched step_keeps (fun b input hb hm => ?_) Batteries.inStep_empty hm inputs
  cases input with
  | tick t => exact tick_untouched hb hm t
  | wait w =>
      exact exec_untouched (fun _ err hb => serve_keeps hb err)
        (fun _ err hb _ => serve_untouched hb err) hb hm w.errors

/-! ## No handle is lost -/

/-- A battery whose device was created for the headset it mirrors, and which has
not failed too often. -/
structure Tended (inputs : List (Input Handle)) (events : List Event) (entry : Entry Handle) :
    Prop where
  created : ∃ t, .tick t ∈ inputs ∧ ∃ polled ∈ t.withBattery,
    entry.1.identity = identityOf polled.1 ∧ entry.2.key = polled.1.key ∧
      ⟨entry.2.key, t.now, .created entry.1.identity⟩ ∈ events
  failures : entry.2.failures < deviceFailureLimit

theorem tended_stable (inputs : List (Input Handle)) (events : List Event) :
    Stable (Tended inputs events) where
  survives h now entry left hs ht := by
    refine ⟨?_, hs.failures ht.failures⟩
    rw [hs.identity, hs.key]
    exact ht.created
  noted now entry ht := ⟨ht.created, ht.failures⟩
  settled entry failures hlt ht := ⟨ht.created, hlt⟩

theorem every_tended (config : Config) (inherited : List Handle) (inputs : List (Input Handle)) :
    Every (Tended inputs (run config inherited inputs).2) (run config inherited inputs).1 :=
  every_run (tended_stable _ _) fun t ht polled hp _ _ _ hc =>
    ⟨⟨t, ht, polled, hp, rfl, rfl, hc⟩, by show 0 < 3; omega⟩

/-- With handles inherited, after any ticks and waits: each of them is spare or
under one live device, and the node was never opened; the two lists are in step,
each device was created for the headset its bookkeeping names, no headset has
two batteries, and no battery has reached the failure limit. -/
theorem handles_in_custody (config : Config) (inherited : List Handle) (hn : inherited ≠ [])
    (inputs : List (Input Handle)) (b : Bridge Handle) (events : List Event)
    (hrun : run config inherited inputs = (b, events)) :
    (b.uhid.spare ++ b.batteries.devices.map Battery.handle).Perm inherited ∧
      b.uhid.spare.length + b.batteries.devices.length = inherited.length ∧
      (∀ e ∈ events, e.deed ≠ .opensNode) ∧
      b.batteries.devices.length = b.batteries.states.length ∧
      (b.batteries.states.map VirtualBattery.key).Nodup ∧
      ∀ (i : ℕ) (device : Battery Handle) (battery : VirtualBattery),
        b.batteries.devices[i]? = some device → b.batteries.states[i]? = some battery →
        (∃ t, .tick t ∈ inputs ∧ ∃ polled ∈ t.withBattery,
          device.identity = identityOf polled.1 ∧ battery.key = polled.1.key ∧
            ⟨battery.key, t.now, .created device.identity⟩ ∈ events) ∧
        battery.failures < deviceFailureLimit := by
  have hkeeps : Keeps (new config inherited) b := by
    simpa [hrun] using run_keeps config inherited inputs
  have hm : (new config inherited).uhid.mayOpen = false := by simpa [new, DevicePool.new] using hn
  have hnew : (new config inherited).handles = inherited := by
    simp [handles, new, DevicePool.new, Batteries.empty]
  have hperm : b.handles.Perm inherited := hnew ▸ hkeeps.custody hm
  have htended : Every (Tended inputs events) b := by
    simpa [hrun] using every_tended config inherited inputs
  refine ⟨hperm, by simpa [handles] using hperm.length_eq, ?_, hkeeps.inStep.length,
    hkeeps.inStep.keys, ?_⟩
  · simpa [hrun, NodeUntouched] using run_untouched config hn inputs
  · intro i device battery hdevice hbattery
    have hi : b.batteries.pair? i = some (device, battery) :=
      List.getElem?_zip_eq_some.2 ⟨hdevice, hbattery⟩
    have := htended _ _ (hkeeps.inStep.find?_of_pair? hi)
    exact ⟨this.created, this.failures⟩

/-- One handle, one headset, and a device that cannot be pushed to: after three
strikes the handle is back. -/
theorem handles_in_custody_of_strikes :
    let config : Config := ⟨seconds 60, seconds 10, seconds 30, "/dev/uhid"⟩
    let answers : Answers ℕ := ⟨.error "unused", .ok (), .ok (some "hid-0"), .error "ENODEV"⟩
    let poll (now percent : ℕ) : Input ℕ := .tick ⟨now, false, .ok
      [(⟨"Maxwell", "Audeze Maxwell", 0x3329, 0x4b18, true, .discharging percent, none⟩, answers)]⟩
    let b := (run config [7] [poll 0 80, poll 1 79, poll 2 78, .wait ⟨[⟨0, "EIO", 3⟩], .ok ()⟩]).1
    b.batteries.devices.length = 0 ∧ b.uhid.spare.length + b.batteries.devices.length = 1 := by
  intro config answers poll b
  refine ⟨by decide +kernel, ?_⟩
  have custody := handles_in_custody config [7] (by simp)
    [poll 0 80, poll 1 79, poll 2 78, .wait ⟨[⟨0, "EIO", 3⟩], .ok ()⟩] b _ Prod.mk.eta.symm
  exact custody.2.1

end HeadsetBattery.Bridge
