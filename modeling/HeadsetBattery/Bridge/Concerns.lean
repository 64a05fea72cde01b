import HeadsetBattery.Bridge.Slots

/-!
# What concerns a headset in a run

A run of the bridge is, for every headset, a run of the machine of that headset over
what concerns it. A condition on the moves is one on that run, and what is proved of
the machine, such as where a battery it leaves comes from, is proved of the bridge.
-/
namespace HeadsetBattery.Bridge

variable {Handle : Type}

/-! ## What a battery comes from -/

/-- A handle is taken for a new device, or the device created on it. -/
def Deed.creates : Deed → Bool
  | acquired | created _ => true
  | _ => false

/-- What a device is created with: a handle and an identity, if it comes to that. -/
theorem attachOn_creations (handle : Handle) (h : Headset) (reading : Reading) (now : ℕ)
    (a : Answers Handle) :
    ∃ creations, (∀ d ∈ creations, d.creates = true) ∧
      (attachOn handle h reading now a =
          (some (Entry.made handle h reading now), creations ++ [.appeared reading], .ok ()) ∨
        ∃ failure, attachOn handle h reading now a = (none, creations, .error failure)) := by
  unfold attachOn
  split
  · exact ⟨[.acquired], by simp [Deed.creates], .inr ⟨_, rfl⟩⟩
  · exact ⟨[.acquired], by simp [Deed.creates], .inr ⟨_, rfl⟩⟩
  · refine ⟨[.acquired, .created (identityOf h)], by simp [Deed.creates], ?_⟩
    split
    · exact .inl rfl
    · exact .inr ⟨_, rfl⟩
    · exact .inr ⟨_, rfl⟩

/-- A battery that is there after a concern: it was looked after, or is new. -/
inductive Leaves (s : Slot Handle) (left : Entry Handle) : Concern Handle → List Deed → Prop
  | listed {now : ℕ} {h : Headset} {got : Option Handle} {a : Answers Handle}
      {entry : Entry Handle} (live : s.entry = some entry)
      (applied : (entry.apply h now a).1 = some left) :
      Leaves s left (.listed now h got a) (entry.apply h now a).2
  | made {now : ℕ} {h : Headset} {got : Option Handle} {a : Answers Handle} {handle : Handle}
      {reading : Reading} {creations : List Deed} (absent : s.entry = none)
      (offered : h.battery.offer = some reading) (new : left = .made handle h reading now)
      (creates : ∀ d ∈ creations, d.creates = true) :
      Leaves s left (.listed now h got a) (creations ++ [.appeared reading])
  | noted {now : ℕ} {entry : Entry Handle} (live : s.entry = some entry)
      (clocks : left = (entry.1, noteClocks now entry.2)) : Leaves s left (.noted now) []
  | judged {now : ℕ} (live : s.entry = some left) : Leaves s left (.judged now) []
  | served {now failures : ℕ} {entry : Entry Handle} (live : s.entry = some entry)
      (settled : left = (entry.1, { entry.2 with failures := failures })) :
      Leaves s left (.served now) (entry.settle false).2

@[simp] theorem Slot.entry_keep (s : Slot Handle) (now : ℕ)
    (kept : Option (Entry Handle) × List Deed) : (s.keep now kept).1.entry = kept.1 := by
  unfold Slot.keep
  split <;> rfl

theorem take_leaves {config : Config} {s : Slot Handle} {c : Concern Handle} {left : Entry Handle}
    (h : (s.take config c).1.entry = some left) : Leaves s left c (s.take config c).2 := by
  cases c with
  | listed now headset got a =>
      simp only [Slot.take] at h ⊢
      cases hentry : s.entry with
      | some entry =>
          simp only [hentry, Slot.entry_keep, Slot.keep_deeds] at h ⊢
          exact .listed hentry h
      | none =>
          cases hoffer : headset.battery.offer with
          | none =>
              simp only [hentry, hoffer] at h
              cases h
          | some reading =>
              by_cases hbarred : s.barred now = true
              · simp only [hentry, hoffer, if_pos hbarred] at h
                cases h
              · simp only [hentry, hoffer, if_neg hbarred] at h ⊢
                cases got with
                | none => cases hentry.symm.trans h
                | some handle =>
                    simp only [Slot.attempt] at h ⊢
                    obtain ⟨creations, hcreates, hattached | ⟨failure, hattached⟩⟩ :=
                      attachOn_creations handle headset reading now a
                    · simp only [hattached] at h ⊢
                      exact .made hentry hoffer (Option.some.inj h).symm hcreates
                    · cases failure <;> simp only [hattached] at h <;> cases hentry.symm.trans h
  | noted now =>
      obtain ⟨entry, hentry, rfl⟩ := Option.map_eq_some_iff.1 h
      exact .noted hentry rfl
  | judged now =>
      simp only [Slot.take] at h ⊢
      split at h
      · exact .judged h
      · cases h
  | served now =>
      simp only [Slot.take] at h ⊢
      cases hentry : s.entry with
      | none =>
          simp only [hentry] at h
          cases h
      | some entry =>
          simp only [hentry, Slot.entry_keep, Slot.keep_deeds] at h ⊢
          obtain ⟨failures, hleft, -⟩ := settle_eq_some h
          exact .served hentry hleft

/-! ## Runs -/

/-- What concerns a headset in some moves. -/
def concerns (key : String) (b : Bridge Handle) (moves : List (Move Handle)) :
    List (Concern Handle) :=
  Projections.views move (concern key) b moves

theorem concerns_cons (key : String) (b : Bridge Handle) (m : Move Handle)
    (moves : List (Move Handle)) :
    concerns key b (m :: moves) = (b.concern key m).toList ++ concerns key (move b m).1 moves := rfl

/-- Some moves are, for every headset, a run of its machine. -/
theorem exec_slot {b : Bridge Handle} (hb : b.batteries.InStep) (key : String)
    (moves : List (Move Handle)) :
    Runs.exec (Slot.step b.config key) (b.slot key) (concerns key b moves) =
      ((Runs.exec move b moves).1.slot key, own key (Runs.exec move b moves).2) := by
  rw [own_eq_filterMap]
  refine Projections.exec_part (fun b => slot b key)
    (fun st => st.batteries.InStep ∧ st.config = b.config) (fun _ _ => True) ?_ ?_ ⟨hb, rfl⟩ moves
    fun _ _ _ _ => trivial
  · rintro st m ⟨hst, hconfig⟩
    have hkeeps := move_keeps st m hst
    exact ⟨hkeeps.inStep, hkeeps.config.trans hconfig⟩
  · rintro st m ⟨hst, hconfig⟩ -
    rw [← hconfig, ← own_eq_filterMap]
    exact move_follows hst m key

/-- The same, from the start. -/
theorem reached_slot (config : Config) (inherited : List Handle) (key : String)
    (moves : List (Move Handle)) :
    Runs.exec (Slot.step config key) .empty (concerns key (new config inherited) moves) =
      ((reached config inherited moves).slot key,
        own key (Runs.exec move (new config inherited) moves).2) :=
  exec_slot (b := new config inherited) Batteries.inStep_empty key moves

/-- A condition on the moves that concern a headset, as one on the run of its
machine. -/
theorem concerns_along {cond : Bridge Handle → Move Handle → Prop}
    {cond' : Slot Handle → Concern Handle → Prop} (config : Config) (inherited : List Handle)
    (key : String) {moves : List (Move Handle)}
    (hcond : ∀ b m c, cond b m → concern key b m = some c → cond' (b.slot key) c)
    (hc : Runs.Along move cond (new config inherited) moves) :
    Runs.Along (Slot.step config key) cond' .empty
      (concerns key (new config inherited) moves) := by
  refine Projections.along_part (fun b => slot b key) (Option.guard (Event.isOwn key))
    (fun st => st.batteries.InStep ∧ st.config = config) ?_ ?_ hcond
    ⟨Batteries.inStep_empty, rfl⟩ hc
  · rintro st m ⟨hst, hconfig⟩
    have hkeeps := move_keeps st m hst
    exact ⟨hkeeps.inStep, hkeeps.config.trans hconfig⟩
  · rintro st m ⟨hst, hconfig⟩
    rw [← hconfig, ← own_eq_filterMap]
    exact move_follows hst m key

/-- The instant of a move. -/
def Move.now : Move Handle → ℕ
  | .probe t => t.now
  | .apply now _ | .note now | .expire now => now
  | .serve err => err.now

/-- The instants of a tick or a wait. -/
def Input.instants : Input Handle → List ℕ
  | .tick t => [t.now]
  | .wait w => w.errors.map ServeError.now

theorem now_of_concern {key : String} {b : Bridge Handle} {m : Move Handle} {c : Concern Handle}
    (h : b.concern key m = some c) : c.now = m.now := by
  cases m with
  | probe t => cases h
  | apply now polled =>
      simp only [concern] at h
      split at h
      · obtain rfl := Option.some.inj h
        rfl
      · cases h
  | note now =>
      obtain rfl := Option.some.inj h
      rfl
  | expire now =>
      obtain rfl := Option.some.inj h
      rfl
  | serve err =>
      simp only [concern] at h
      split at h
      · cases h
      · split at h
        · obtain rfl := Option.some.inj h
          rfl
        · cases h

theorem apply_of_listed {key : String} {b : Bridge Handle} {m : Move Handle} {now : ℕ}
    {h : Headset} {got : Option Handle} {a : Answers Handle}
    (hc : b.concern key m = some (.listed now h got a)) :
    m = .apply now (h, a) ∧ h.key = key ∧ got = (b.uhid.acquire a.opened).2.2.toOption := by
  cases m with
  | probe t => cases hc
  | apply now' polled =>
      simp only [concern] at hc
      split at hc
      next hkey =>
        obtain ⟨rfl, rfl, rfl, rfl⟩ := Concern.listed.inj (Option.some.inj hc)
        exact ⟨rfl, hkey, rfl⟩
      next => cases hc
  | note now' => cases Option.some.inj hc
  | expire now' => cases Option.some.inj hc
  | serve err =>
      simp only [concern] at hc
      split at hc
      · cases hc
      · split at hc
        · cases Option.some.inj hc
        · cases hc

theorem Input.now_of_mem {input : Input Handle} {m : Move Handle} (h : m ∈ input.moves) :
    m.now ∈ input.instants := by
  cases input with
  | tick t =>
      simp only [Input.moves, Tick.moves, List.mem_cons, List.mem_append, List.mem_map,
        List.not_mem_nil, or_false] at h
      obtain rfl | ⟨polled, -, rfl⟩ | rfl | rfl := h <;> simp [Input.instants, Move.now]
  | wait w =>
      obtain ⟨err, herr, rfl⟩ := List.mem_map.1 h
      exact List.mem_map_of_mem herr

/-- Moves come at nondecreasing instants if ticks and waits do. -/
theorem moves_nondecreasing {inputs : List (Input Handle)}
    (h : (inputs.flatMap Input.instants).Pairwise (· ≤ ·)) :
    ((inputs.flatMap Input.moves).map Move.now).Pairwise (· ≤ ·) := by
  rw [List.pairwise_flatMap] at h
  rw [List.map_flatMap, List.pairwise_flatMap]
  refine ⟨fun input hinput => ?_, h.2.imp fun {input input'} hle x hx y hy => ?_⟩
  · cases input with
    | tick t =>
        refine List.pairwise_of_forall_mem_list fun x hx y hy => ?_
        obtain ⟨m, hm, rfl⟩ := List.mem_map.1 hx
        obtain ⟨m', hm', rfl⟩ := List.mem_map.1 hy
        rw [List.mem_singleton.1 (Input.now_of_mem hm), List.mem_singleton.1 (Input.now_of_mem hm')]
    | wait w =>
        rw [Input.moves, List.map_map]
        exact h.1 _ hinput
  · obtain ⟨m, hm, rfl⟩ := List.mem_map.1 hx
    obtain ⟨m', hm', rfl⟩ := List.mem_map.1 hy
    exact hle _ (Input.now_of_mem hm) _ (Input.now_of_mem hm')

/-- What concerns a headset comes at nondecreasing instants if the moves do. -/
theorem concerns_nondecreasing (key : String) (b : Bridge Handle) {moves : List (Move Handle)}
    (h : (moves.map Move.now).Pairwise (· ≤ ·)) :
    ((concerns key b moves).map Concern.now).Pairwise (· ≤ ·) :=
  h.sublist (Projections.views_sublist Move.now Concern.now (fun _ _ _ => now_of_concern) b moves)

end HeadsetBattery.Bridge
