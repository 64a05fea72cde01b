import HeadsetBattery.Library.Streaks
import HeadsetBattery.Bridge.Concerns

/-!
# A switch-off is believed once it has held

The reader says that a headset is gone, and takes it back when the link returns:
with a level, or without one yet. The clock of a switch-off is started by the
first and stopped by a level only. Where no headset is listed without a level
while its clock runs, the clock says how long the headset has been gone.
-/
namespace HeadsetBattery.Bridge

open Streaks

variable {Handle : Type}

/-! ## How a headset was listed -/

/-- When and as what a headset is listed. -/
def Concern.listing : Concern Handle → Option (ℕ × BatteryState)
  | .listed now h _ _ => some (now, h.battery)
  | _ => none

/-- When and as what a move lists the headset with this key. -/
def Move.listing (key : String) : Move Handle → Option (ℕ × BatteryState)
  | .apply now (h, _) => if h.key = key then some (now, h.battery) else none
  | _ => none

/-- All there is to say about how a headset was listed. -/
def listings (key : String) (moves : List (Move Handle)) : List (ℕ × BatteryState) :=
  moves.filterMap (Move.listing key)

theorem listing_of_concern (key : String) (b : Bridge Handle) (m : Move Handle) :
    (b.concern key m).bind Concern.listing = m.listing key := by
  cases m with
  | apply now polled =>
      simp only [concern, Move.listing]
      split <;> rfl
  | serve err =>
      simp only [concern]
      split
      · rfl
      · split <;> rfl
  | _ => rfl

theorem filterMap_concerns (key : String) (b : Bridge Handle) (moves : List (Move Handle)) :
    (concerns key b moves).filterMap Concern.listing = listings key moves :=
  Projections.views_filterMap (listing_of_concern key) b moves

theorem listings_nondecreasing (key : String) {moves : List (Move Handle)}
    (h : (moves.map Move.now).Pairwise (· ≤ ·)) :
    (listings key moves).Pairwise fun l l' => l.1 ≤ l'.1 := by
  have hnow {m : Move Handle} {l : ℕ × BatteryState} (hl : m.listing key = some l) :
      l.1 = m.now := by
    cases m with
    | apply now polled =>
        simp only [Move.listing] at hl
        split at hl
        · exact congrArg Prod.fst (Option.some.inj hl).symm
        · cases hl
    | _ => cases hl
  refine List.pairwise_filterMap.2 ((List.pairwise_map.1 h).imp ?_)
  intro m m' hle l hl l' hl'
  rw [hnow hl, hnow hl']
  exact hle

/-! ## The clock -/

/-- Since when a headset has been listed as gone. -/
def gone (history : List (ℕ × BatteryState)) : Option ℕ :=
  Streaks.since Prod.fst (fun l => l.2 = .disconnected) history

theorem gone_snoc (history : List (ℕ × BatteryState)) (now : ℕ) (state : BatteryState) :
    gone (history ++ [(now, state)]) =
      if state = .disconnected then some ((gone history).getD now) else none := since_snoc _ _

/-- The headset has been listed as gone for long enough. -/
theorem settled_iff {history : List (ℕ × BatteryState)}
    (hmono : history.Pairwise fun l l' => l.1 ≤ l'.1) (now : ℕ) :
    disconnectSettle ≤ now - (gone history).getD now ↔
      ∃ earlier s later, history = earlier ++ s :: later ∧ disconnectSettle ≤ now - s.1 ∧
        ∀ l ∈ s :: later, l.2 = .disconnected := by
  have hpositive : 0 < disconnectSettle := by decide
  have hlt (n : ℕ) : disconnectSettle - 1 < n ↔ disconnectSettle ≤ n := by omega
  have hheld : HeldFor Prod.fst (fun l => l.2 = BatteryState.disconnected) (disconnectSettle - 1)
      now history ↔ _ := heldFor_iff hmono
  simp only [HeldFor, hlt] at hheld
  rw [hheld]
  change _ ↔ ∃ start, gone history = some start ∧ _
  cases gone history with
  | none => simp [hpositive.ne']
  | some start => simp

/-- The clock of the battery, if there is one, shows since when its headset has been
listed as gone. -/
def GoneClock (history : List (ℕ × BatteryState)) (s : Slot Handle) : Prop :=
  ∀ entry, s.entry = some entry → entry.2.goneSince = gone history

/-- A battery whose clock runs is not listed without a level. -/
def KeepsLevel (s : Slot Handle) (c : Concern Handle) : Prop :=
  ∀ now h got a, c = .listed now h got a → h.battery = .unavailable →
    ∀ entry, s.entry = some entry → entry.2.goneSince = none

/-- A clock that has run long enough takes the battery down, another one runs on. -/
theorem leave_spec (entry : Entry Handle) (now : ℕ) :
    (.removed .switchedOff ∈ (entry.leave now).2 ↔
        disconnectSettle ≤ now - entry.2.goneSince.getD now) ∧
      ∀ left, (entry.leave now).1 = some left →
        left.2.goneSince = some (entry.2.goneSince.getD now) := by
  simp only [Entry.leave]
  split
  next hheld => exact ⟨by simpa using hheld, fun left hleft => by cases hleft⟩
  next hheld =>
    refine ⟨by simpa using hheld, fun left hleft => ?_⟩
    obtain rfl := Option.some.inj hleft
    rfl

/-- What a listing makes of the clock of a battery. -/
theorem goneSince_of_apply {entry left : Entry Handle} {h : Headset} {now : ℕ} {a : Answers Handle}
    (happly : (entry.apply h now a).1 = some left) :
    left.2.goneSince =
      if h.battery = .disconnected then some (entry.2.goneSince.getD now)
      else if h.battery = .unavailable then entry.2.goneSince else none := by
  unfold Entry.apply at happly
  cases hreading : h.battery.reading entry.1.reading.percent with
  | some reading =>
      simp only [hreading] at happly
      obtain ⟨_, _, _, _, _, _, _, rfl, -⟩ := answer_eq_some happly
      cases hstate : h.battery <;> rw [hstate] at hreading <;> first | rfl | cases hreading
  | none =>
      simp only [hreading] at happly
      by_cases hgone : h.battery = .disconnected
      · rw [if_pos hgone] at happly ⊢
        exact (leave_spec (entry.see now) now).2 left happly
      · rw [if_neg hgone] at happly ⊢
        obtain rfl := Option.some.inj happly
        cases hstate : h.battery with
        | unavailable => rfl
        | disconnected => exact absurd hstate hgone
        | discharging percent =>
            rw [hstate] at hreading
            cases hreading
        | charging percent =>
            rw [hstate] at hreading
            cases hreading

theorem GoneClock.take {history : List (ℕ × BatteryState)} {s : Slot Handle}
    (h : GoneClock history s) (config : Config) {c : Concern Handle} (hlevel : KeepsLevel s c) :
    GoneClock (history ++ c.listing.toList) (s.take config c).1 := by
  intro left hleft
  have hleaves := take_leaves hleft
  generalize (s.take config c).2 = deeds at hleaves
  cases hleaves with
  | @listed now headset got a entry live applied =>
      have hclock := h entry live
      have happlied := goneSince_of_apply applied
      rw [happlied, Concern.listing, Option.toList_some, gone_snoc, ← hclock]
      split
      next => rfl
      next =>
        split
        next hunavailable => exact hlevel now headset got a rfl hunavailable entry live
        next => rfl
  | @made now headset got a handle reading creations absent offered new creates =>
      subst new
      have hstate : headset.battery ≠ .disconnected := by
        intro hgone
        rw [hgone] at offered
        cases offered
      rw [Concern.listing, Option.toList_some, gone_snoc, if_neg hstate]
      rfl
  | noted live clocks =>
      subst clocks
      simpa [Concern.listing, noteClocks] using h _ live
  | judged live => simpa [Concern.listing] using h _ live
  | served live settled =>
      subst settled
      simpa [Concern.listing] using h _ live

/-- In a run that never lists a battery without a level while its clock runs, the
clock is right. -/
theorem goneClock_run (config : Config) (inherited : List Handle) (key : String)
    {moves : List (Move Handle)}
    (hlevel : Runs.Along move (fun b m => ∀ now h a, m = .apply now (h, a) → h.key = key →
      h.battery = .unavailable → ∀ entry, b.batteries.find? key = some entry →
        entry.2.goneSince = none) (new config inherited) moves) :
    GoneClock (listings key moves) ((reached config inherited moves).slot key) := by
  have halong : Runs.Along (Slot.step config key) KeepsLevel .empty
      (concerns key (new config inherited) moves) := by
    refine concerns_along config inherited key ?_ hlevel
    rintro b m c hm hc now h got a rfl hstate entry hentry
    obtain ⟨rfl, hkey, -⟩ := apply_of_listed hc
    exact hm now h a rfl hkey hstate entry hentry
  have hrun : GoneClock ((concerns key (new config inherited) moves).filterMap Concern.listing)
      (Runs.exec (Slot.step config key) Slot.empty
        (concerns key (new config inherited) moves)).1 := by
    refine Runs.exec_induction _ (fun taken s _ => GoneClock (taken.filterMap Concern.listing) s)
      ?_ ?_ _ halong
    · intro entry hentry
      cases hentry
    · intro taken c h hc
      have hlisting : [c].filterMap Concern.listing = c.listing.toList := by
        cases hlisted : c.listing <;> simp [hlisted]
      rw [List.filterMap_append, hlisting]
      exact h.take config hc
  rw [reached_slot, filterMap_concerns] at hrun
  exact hrun

theorem not_switchedOff_of_answer (entry : Entry Handle) (reading : Reading) (sample : Option ℕ)
    (now : ℕ) (updated : Except String Unit) :
    .removed .switchedOff ∉ (entry.answer reading sample now updated).2 := by
  have hrefresh := not_removed_of_refresh entry.1 entry.2 reading sample now updated .switchedOff
  simp only [Entry.answer]
  split
  · exact hrefresh
  · rw [List.mem_append, not_or]
    refine ⟨hrefresh, ?_⟩
    simp only [Entry.settle]
    repeat' split
    all_goals simp

/-- A battery is taken down as switched off when its headset is listed as gone and
its clock has run long enough. -/
theorem switchedOff_mem_apply {entry : Entry Handle} {h : Headset} {now : ℕ} {a : Answers Handle} :
    .removed .switchedOff ∈ (entry.apply h now a).2 ↔
      h.battery = .disconnected ∧ disconnectSettle ≤ now - entry.2.goneSince.getD now := by
  unfold Entry.apply
  cases hreading : h.battery.reading entry.1.reading.percent with
  | some reading =>
      have hstate : h.battery ≠ .disconnected := by
        intro hgone
        rw [hgone] at hreading
        cases hreading
      simp [hstate, not_switchedOff_of_answer]
  | none =>
      by_cases hgone : h.battery = .disconnected
      · simp only [hgone, true_and]
        exact (leave_spec (entry.see now) now).1
      · simp [hgone]

/-- Where no headset is listed without a level while the clock of its battery runs,
a live battery is taken down as switched off exactly when its headset is listed as
gone, and was already that long ago and at every listing since. -/
theorem switch_off_believed (config : Config) (inherited : List Handle)
    (before : List (Move Handle)) (now : ℕ) (h : Headset) (a : Answers Handle)
    {entry : Entry Handle}
    (hmono : (before.map Move.now).Pairwise (· ≤ ·))
    (hlive : (reached config inherited before).batteries.find? h.key = some entry)
    (hlevel : Runs.Along move (fun b m => ∀ now' h' a', m = .apply now' (h', a') →
      h'.key = h.key → h'.battery = .unavailable → ∀ entry, b.batteries.find? h.key = some entry →
        entry.2.goneSince = none) (new config inherited) before) :
    ⟨h.key, now, .removed .switchedOff⟩ ∈
        (move (reached config inherited before) (.apply now (h, a))).2 ↔
      h.battery = .disconnected ∧ ∃ earlier s later, listings h.key before = earlier ++ s :: later ∧
        disconnectSettle ≤ now - s.1 ∧ ∀ l ∈ s :: later, l.2 = .disconnected := by
  have hclock := goneClock_run config inherited h.key hlevel entry hlive
  obtain ⟨left, deeds, -, hbecomes, hevents⟩ :=
    applyOne_spec (reached_inStep config inherited before) now (h, a)
  rw [hlive] at hbecomes
  have hdeeds : deeds = (entry.apply h now a).2 := (congrArg Prod.snd hbecomes).symm
  have hmem : ⟨h.key, now, .removed .switchedOff⟩ ∈
      (move (reached config inherited before) (.apply now (h, a))).2 ↔
        .removed .switchedOff ∈ deeds := by
    rw [move, hevents]
    simp [stamp]
  rw [hmem, hdeeds, switchedOff_mem_apply, hclock,
    settled_iff (listings_nondecreasing h.key hmono)]

/-- Gone at a second, and still gone at four. -/
theorem switch_off_believed_of_silence :
    let config : Config := ⟨seconds 60, seconds 10, seconds 30, "/dev/uhid"⟩
    let answers : Answers ℕ := ⟨.error "unused", .ok (), .ok (some "hid-0"), .ok ()⟩
    let maxwell (state : BatteryState) : Headset :=
      ⟨"Maxwell", "Audeze Maxwell", 0x3329, 0x4b18, true, state, none⟩
    let poll (now : ℕ) (state : BatteryState) : List (Move ℕ) :=
      Tick.moves ⟨seconds now, false, .ok [(maxwell state, answers)]⟩
    let before := poll 0 (.discharging 80) ++ poll 1 .disconnected
    ⟨(maxwell .disconnected).key, seconds 4, .removed .switchedOff⟩ ∈
      (move (reached config [7] before) (.apply (seconds 4) (maxwell .disconnected, answers))).2 := by
  intro config answers maxwell poll before
  have hsome : ((reached config [7] before).batteries.find? (maxwell .disconnected).key).isSome := by
    decide +kernel
  obtain ⟨entry, hlive⟩ := Option.isSome_iff_exists.1 hsome
  refine (switch_off_believed config [7] before (seconds 4) (maxwell .disconnected) answers
    (by decide +kernel) hlive ?_).2 ?_
  · rintro earlier m later he now' h' a' rfl hkey hstate
    have hlevels : ∀ l ∈ listings (maxwell .disconnected).key before, l.2 ≠ .unavailable := by
      decide +kernel
    have hlisted : (Move.apply now' (h', a')).listing (maxwell .disconnected).key =
        some (now', h'.battery) := if_pos hkey
    have hmem : .apply now' (h', a') ∈ before := by simp [he]
    exact absurd hstate (hlevels _ (List.mem_filterMap.2 ⟨_, hmem, hlisted⟩))
  · exact ⟨rfl, [(seconds 0, .discharging 80)], (seconds 1, .disconnected), [], by decide +kernel,
      by decide, by simp⟩

/-- The link of a headset that was gone for a second comes back without a level, and
goes again: the headset is taken for switched off at once. -/
theorem switch_off_believed_at_once :
    let config : Config := ⟨seconds 60, seconds 10, seconds 30, "/dev/uhid"⟩
    let answers : Answers ℕ := ⟨.error "unused", .ok (), .ok (some "hid-0"), .ok ()⟩
    let maxwell (state : BatteryState) : Headset :=
      ⟨"Maxwell", "Audeze Maxwell", 0x3329, 0x4b18, true, state, none⟩
    let poll (now : ℕ) (state : BatteryState) : List (Move ℕ) :=
      Tick.moves ⟨seconds now, false, .ok [(maxwell state, answers)]⟩
    let before := poll 0 (.discharging 80) ++ poll 1 .disconnected ++ poll 2 .unavailable
    ⟨(maxwell .disconnected).key, seconds 4, .removed .switchedOff⟩ ∈
        (move (reached config [7] before)
          (.apply (seconds 4) (maxwell .disconnected, answers))).2 ∧
      ¬∃ earlier s later, listings (maxwell .disconnected).key before = earlier ++ s :: later ∧
        disconnectSettle ≤ seconds 4 - s.1 ∧ ∀ l ∈ s :: later, l.2 = .disconnected := by
  intro config answers maxwell poll before
  refine ⟨by decide +kernel, ?_⟩
  rw [← settled_iff (by decide +kernel)]
  decide +kernel

end HeadsetBattery.Bridge
