import HeadsetBattery.Library.Traces
import HeadsetBattery.Bridge.Concerns

/-!
# Holding off the next device

A creation that failed and a device that had to be destroyed hold off the next
creation for a while, and an identity the kernel can never accept holds it off for
good. The records that do so are written from two places and cleared in a third; a
record is cleared only once it no longer holds anything off.
-/
namespace HeadsetBattery.Bridge

open Traces

variable {Handle : Type}

/-- What holds off the next creation for a while. -/
def Deed.holdsOff : Deed → Bool
  | attachFailed final => !final
  | removed cause => cause = .broken
  | _ => false

theorem creates_of_isUpkeep {d : Deed} (h : d.isUpkeep = true) : d.creates = false := by
  cases d <;> first | rfl | exact absurd h Bool.false_ne_true

theorem broken_of_holdsOff {d : Deed} (h : d.isUpkeep = true) (hoff : d.holdsOff = true) :
    d = .removed .broken := by
  cases d with
  | removed cause => rw [of_decide_eq_true hoff]
  | attachFailed final => exact absurd h Bool.false_ne_true
  | _ => exact absurd hoff Bool.false_ne_true

/-- How a concern bears on the creation of devices. A creation comes first and is
barred by nothing; what holds off the next one is on record afterwards. -/
structure Bears (s : Slot Handle) (now : ℕ) (s' : Slot Handle) (deeds : List Deed) : Prop where
  clear : Everywhere (fun pre d => d.creates = true → s.barred now = false ∧
    ∀ f ∈ pre, f.holdsOff = false ∧ f ≠ .attachFailed true) deeds
  later : ∀ d ∈ deeds, d.holdsOff = true → s'.retryAt = some (now + attachRetry)
  never : .attachFailed true ∈ deeds → s'.abandoned = true
  records : s'.retryAt = s.retryAt ∨ s'.retryAt = some (now + attachRetry) ∨ s.barred now = false
  abandoned : s.abandoned = true → s'.abandoned = true

/-- A battery that is there is looked after, or gone for another reason. -/
theorem bears_entry (s : Slot Handle) (now : ℕ) (entry : Option (Entry Handle)) {deeds : List Deed}
    (h : ∀ d ∈ deeds, d.isUpkeep) (hbroken : .removed .broken ∉ deeds) :
    Bears s now { s with entry := entry } deeds where
  clear := everywhere_of_forall fun d hd _ hcreates => by
    simp [creates_of_isUpkeep (h d hd)] at hcreates
  later d hd hoff := absurd (broken_of_holdsOff (h d hd) hoff ▸ hd) hbroken
  never hd := absurd (h _ hd) Bool.false_ne_true
  records := .inl rfl
  abandoned := id

theorem bears_nothing (s : Slot Handle) (now : ℕ) : Bears s now s [] :=
  bears_entry s now s.entry (by simp) (by simp)

theorem bears_keep (s : Slot Handle) (now : ℕ) {kept : Option (Entry Handle) × List Deed}
    (h : ∀ d ∈ kept.2, d.isUpkeep) : Bears s now (s.keep now kept).1 (s.keep now kept).2 := by
  by_cases hbroken : .removed .broken ∈ kept.2
  · simp only [Slot.keep, if_pos hbroken]
    refine ⟨everywhere_of_forall fun d hd _ hcreates => ?_, fun _ _ _ => rfl, fun hd => ?_,
      .inr (.inl rfl), id⟩
    · simp [creates_of_isUpkeep (h d hd)] at hcreates
    · exact absurd (h _ hd) Bool.false_ne_true
  · rw [s.keep_of_not_mem now hbroken]
    exact bears_entry s now kept.1 h hbroken

theorem not_holdsOff_of_creates {d : Deed} (h : d.creates = true) :
    d.holdsOff = false ∧ d ≠ .attachFailed true := by
  cases d with
  | acquired => exact ⟨rfl, nofun⟩
  | created identity => exact ⟨rfl, nofun⟩
  | _ => exact absurd h Bool.false_ne_true

/-- Creations, and what becomes of them. -/
theorem bears_creations {s s' : Slot Handle} {now : ℕ} (hbarred : s.barred now = false)
    {creations : List Deed} (hcreations : ∀ d ∈ creations, d.creates = true) {last : Deed}
    (hlast : last.creates = false)
    (hlater : last.holdsOff = true → s'.retryAt = some (now + attachRetry))
    (hnever : .attachFailed true = last → s'.abandoned = true)
    (habandoned : s.abandoned = true → s'.abandoned = true) :
    Bears s now s' (creations ++ [last]) where
  clear := by
    rw [everywhere_append, everywhere_singleton]
    refine ⟨?_, by simp [hlast]⟩
    rintro pre d post rfl -
    exact ⟨hbarred, fun f hf => not_holdsOff_of_creates (hcreations f (by simp [hf]))⟩
  later d hd hoff := by
    obtain hd | hd := List.mem_append.1 hd
    · simp [(not_holdsOff_of_creates (hcreations d hd)).1] at hoff
    · exact hlater (List.mem_singleton.1 hd ▸ hoff)
  never hd := by
    obtain hd | hd := List.mem_append.1 hd
    · exact absurd rfl (not_holdsOff_of_creates (hcreations _ hd)).2
    · exact hnever (List.mem_singleton.1 hd)
  records := .inr (.inr hbarred)
  abandoned := habandoned

theorem bears_attempt {s : Slot Handle} {now : ℕ} (hbarred : s.barred now = false) (h : Headset)
    (reading : Reading) (got : Option Handle) (a : Answers Handle) :
    Bears s now (s.attempt h reading now got a).1 (s.attempt h reading now got a).2 := by
  cases got with
  | none =>
      have hnone : ∀ d ∈ ([] : List Deed), d.creates = true := by simp
      exact bears_creations hbarred hnone rfl (fun _ => rfl) (by simp) id
  | some handle =>
      simp only [Slot.attempt]
      obtain ⟨creations, hcreations, hattached | ⟨failure, hattached⟩⟩ :=
        attachOn_creations handle h reading now a
      · simp only [hattached]
        exact bears_creations hbarred hcreations rfl (fun h => by cases h) (by simp) id
      · cases failure with
        | retry err =>
            simp only [hattached]
            exact bears_creations hbarred hcreations rfl (fun _ => rfl) (by simp) id
        | giveUp err =>
            simp only [hattached]
            exact bears_creations hbarred hcreations rfl (fun h => by cases h) (fun _ => rfl) fun _ => rfl

/-- What each concern means for the creation of devices. -/
theorem take_bears (config : Config) (s : Slot Handle) (c : Concern Handle) :
    Bears s c.now (s.take config c).1 (s.take config c).2 := by
  cases c with
  | listed now h got a =>
      simp only [Slot.take]
      split
      · exact bears_keep s now (apply_upkeep _ h now a)
      · split
        · exact bears_nothing s now
        · split
          next => exact bears_nothing s now
          next hbarred => exact bears_attempt (Bool.not_eq_true _ ▸ hbarred) h _ got a
  | noted now => exact bears_entry s now _ (by simp [Slot.take]) (by simp [Slot.take])
  | judged now =>
      simp only [Slot.take]
      split
      · exact bears_nothing s now
      next cause hcause =>
        refine bears_entry s now none (by simp [Deed.isUpkeep]) ?_
        obtain ⟨entry, -, hcause⟩ := Option.bind_eq_some_iff.1 hcause
        cases houtlived : outlived config entry.2 now <;> rw [houtlived] at hcause <;>
          cases hcause <;> simp
  | served now =>
      simp only [Slot.take]
      split
      · exact bears_nothing s now
      · exact bears_keep s now (settle_upkeep _ false)

theorem Slot.retryAt_le {s : Slot Handle} {retryAt now : ℕ} (hclear : s.barred now = false)
    (h : s.retryAt = some retryAt) : retryAt ≤ now := by
  unfold Slot.barred at hclear
  rw [h, Option.any_some, Bool.or_eq_false_iff] at hclear
  exact Nat.not_lt.1 (of_decide_eq_false hclear.1)

/-! ## Runs -/

/-- An event keeps its distance from what held off a creation before it. -/
def Spaced (pre : List Event) (e : Event) : Prop :=
  e.deed.creates = true → ∀ f ∈ pre,
    (f.deed.holdsOff = true → f.now + attachRetry ≤ e.now) ∧ f.deed ≠ .attachFailed true

/-- Whatever held off a creation is on record, or long past once no record bars the
next one. -/
structure Recorded (taken : List (Concern Handle)) (s : Slot Handle) (events : List Event) :
    Prop where
  spaced : Everywhere Spaced events
  past : ∀ f ∈ events, ∃ c ∈ taken, f.now = c.now
  later : ∀ f ∈ events, f.deed.holdsOff = true → ∀ now, (∀ c ∈ taken, c.now ≤ now) →
    s.barred now = false → f.now + attachRetry ≤ now
  never : ∀ f ∈ events, f.deed = .attachFailed true → s.abandoned = true

theorem Recorded.step {taken : List (Concern Handle)} {s : Slot Handle} {events : List Event}
    (h : Recorded taken s events) (config : Config) (key : String) {c : Concern Handle}
    (hlast : ∀ c' ∈ taken, c'.now ≤ c.now) :
    Recorded (taken ++ [c]) (Slot.step config key s c).1
      (events ++ (Slot.step config key s c).2) := by
  have hbears := take_bears config s c
  simp only [Slot.step]
  generalize (s.take config c).1 = s' at hbears ⊢
  generalize (s.take config c).2 = deeds at hbears ⊢
  have hpast (f : Event) (hf : f ∈ events) : f.now ≤ c.now := by
    obtain ⟨c', hc', hnow⟩ := h.past f hf
    exact hnow ▸ hlast c' hc'
  refine ⟨everywhere_append.2 ⟨h.spaced, everywhere_map.2 ?_⟩, ?_, ?_, ?_⟩
  · rintro pre d post rfl hcreates f hf
    obtain ⟨hclear, hpre⟩ := hbears.clear pre d post rfl hcreates
    obtain hf | hf := List.mem_append.1 hf
    · refine ⟨fun hoff => h.later f hf hoff c.now hlast hclear, fun hnever => ?_⟩
      have habandoned := h.never f hf hnever
      simp [Slot.barred, habandoned] at hclear
    · obtain ⟨d', hd', rfl⟩ := List.mem_map.1 hf
      obtain ⟨hoff, hnever⟩ := hpre d' hd'
      exact ⟨fun hoff' => by simp [hoff] at hoff', hnever⟩
  · intro f hf
    obtain hf | hf := List.mem_append.1 hf
    · obtain ⟨c', hc', hnow⟩ := h.past f hf
      exact ⟨c', by simp [hc'], hnow⟩
    · obtain ⟨d, -, rfl⟩ := List.mem_map.1 hf
      exact ⟨c, by simp, rfl⟩
  · intro f hf hoff now hnow hclear
    have hc : c.now ≤ now := hnow c (by simp)
    obtain hf | hf := List.mem_append.1 hf
    · have hle := hpast f hf
      obtain hsame | hwritten | hfree := hbears.records
      · refine h.later f hf hoff now (fun c' hc' => hnow c' (by simp [hc'])) ?_
        simp only [Slot.barred, hsame, Bool.or_eq_false_iff] at hclear ⊢
        refine ⟨hclear.1, Bool.eq_false_iff.2 fun habandoned => ?_⟩
        simp [hbears.abandoned habandoned] at hclear
      · have := Slot.retryAt_le hclear hwritten
        omega
      · have := h.later f hf hoff c.now hlast hfree
        omega
    · obtain ⟨d, hd, rfl⟩ := List.mem_map.1 hf
      exact Slot.retryAt_le hclear (hbears.later d hd hoff)
  · intro f hf hnever
    obtain hf | hf := List.mem_append.1 hf
    · exact hbears.abandoned (h.never f hf hnever)
    · obtain ⟨d, hd, rfl⟩ := List.mem_map.1 hf
      simp only at hnever
      exact hbears.never (hnever ▸ hd)

/-- Whatever a headset is listed as, and whatever comes of it, its creations are
spaced. -/
theorem recorded_run (config : Config) (key : String) (taken : List (Concern Handle))
    (hmono : (taken.map Concern.now).Pairwise (· ≤ ·)) :
    Recorded taken (Runs.exec (Slot.step config key) .empty taken).1
      (Runs.exec (Slot.step config key) .empty taken).2 := by
  refine Runs.exec_induction (fun before c => ∀ c' ∈ before, c'.now ≤ c.now) Recorded ?_ ?_
    taken ?_
  · exact ⟨everywhere_nil _, by simp, by simp, by simp⟩
  · intro before c h hlast
    exact h.step config key hlast
  · rintro before c after rfl c' hc'
    rw [List.map_append, List.pairwise_append] at hmono
    exact hmono.2.2 _ (List.mem_map_of_mem hc') _ (by simp)

/-- In a run at nondecreasing instants, no handle is taken and no device created for
a headset until the retry time after a creation that failed, or after its device had
to be destroyed; and none ever after a creation that could never succeed. -/
theorem creations_rate_limited (config : Config) (inherited : List Handle)
    (inputs : List (Input Handle)) (hmono : (inputs.flatMap Input.instants).Pairwise (· ≤ ·))
    (key : String) :
    Everywhere (fun pre e => e.key = key →
        (e.deed = .acquired ∨ ∃ identity, e.deed = .created identity) →
        ∀ f ∈ pre, f.key = key →
          (f.deed = .attachFailed false ∨ f.deed = .removed .broken →
            f.now + attachRetry ≤ e.now) ∧
          f.deed ≠ .attachFailed true)
      (run config inherited inputs).2 := by
  have hmoves := moves_nondecreasing hmono
  have hrecorded := recorded_run config key _
    (concerns_nondecreasing key (new config inherited) hmoves)
  rw [reached_slot] at hrecorded
  rw [run_eq_moves]
  refine hrecorded.spaced.of_filter fun pre e hspaced hkey hcreates f hf hfkey => ?_
  have hown : e.isOwn key = true ∧ e.deed.creates = true := by
    obtain hd | ⟨identity, hd⟩ := hcreates <;> simp [Event.isOwn, hkey, hd, Deed.creates]
  by_cases hopens : f.deed = .opensNode
  · simp [hopens]
  · have hmem : f ∈ own key pre := List.mem_filter.2 ⟨hf, by simp [Event.isOwn, hfkey, hopens]⟩
    obtain ⟨hoff, hnever⟩ := hspaced hown.1 hown.2 f hmem
    refine ⟨fun hfailed => hoff ?_, hnever⟩
    obtain hd | hd := hfailed <;> simp [hd, Deed.holdsOff]

/-- A creation that fails, is not tried again at 59 seconds, and succeeds at 60. -/
theorem creations_rate_limited_of_failure :
    let config : Config := ⟨seconds 60, seconds 10, seconds 30, "/dev/uhid"⟩
    let poll (now : ℕ) (created : Except (CreateErrorKind × String) Unit) : Input ℕ :=
      .tick ⟨seconds now, false, .ok
        [(⟨"Maxwell", "Audeze Maxwell", 0x3329, 0x4b18, true, .discharging 80, none⟩,
          ⟨.error "unused", created, .ok (some "hid-0"), .ok ()⟩)]⟩
    let inputs := [poll 0 (.error (.other, "EIO")), poll 59 (.ok ()), poll 60 (.ok ())]
    let events := (run config [7] inputs).2
    (events.map fun e => (e.now, e.deed.creates, e.deed.holdsOff)) =
        [(0, true, false), (0, false, true), (seconds 60, true, false), (seconds 60, true, false),
          (seconds 60, false, false)] ∧
      Everywhere (fun pre e => e.key = "3329:4b18/Maxwell" →
        (e.deed = .acquired ∨ ∃ identity, e.deed = .created identity) →
        ∀ f ∈ pre, f.key = "3329:4b18/Maxwell" →
          (f.deed = .attachFailed false ∨ f.deed = .removed .broken →
            f.now + attachRetry ≤ e.now) ∧
          f.deed ≠ .attachFailed true) events := by
  intro config poll inputs events
  exact ⟨by decide +kernel,
    creations_rate_limited config [7] inputs (by decide +kernel) "3329:4b18/Maxwell"⟩

end HeadsetBattery.Bridge
