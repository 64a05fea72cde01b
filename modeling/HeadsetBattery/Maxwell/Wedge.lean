import HeadsetBattery.Headset

/-!
# Telling a wedged dongle from a headset that is switched off

The watch decides how long the silence has to last, how often the evidence is
looked at, and when to say so again. The evidence itself is a reading of the
sound card, given as an input that `check` may or may not ask for.
-/
namespace HeadsetBattery.Maxwell

/-- How long a dongle has to say nothing before it is suspected. -/
def wedgeSilence : ℕ := seconds 600

/-- How long between two warnings about the same wedge. -/
def wedgeReminder : ℕ := seconds (24 * 3600)

/-- How often the sound card is read while a wedge is suspected. -/
def probeEvery : ℕ := seconds 30

theorem probeEvery_le_wedgeSilence : probeEvery ≤ wedgeSilence := by decide

/-- The silence being watched, and whether it is worth a line yet. One per
reader, not per session. -/
structure WedgeWatch where
  /-- When a dongle last said anything, or when the watch began. -/
  heardAt : ℕ
  warnedAt : Option ℕ
  /-- The last look at the sound card, and when it was taken. -/
  probed : Option (ℕ × Option Bool)
  deriving DecidableEq, Repr

namespace WedgeWatch

def new (now : ℕ) : WedgeWatch := ⟨now, none, none⟩

/-- Take in that a dongle said something, and say whether the recovery is worth
a line: only if the silence was reported. -/
def heard (w : WedgeWatch) (now : ℕ) : WedgeWatch × Bool :=
  (⟨now, none, none⟩, w.warnedAt.isSome)

/-- How long nothing has been heard. -/
def silence (w : WedgeWatch) (now : ℕ) : ℕ := now - w.heardAt

/-- The last look at the sound card, if it is recent enough to stand. -/
def recentProbe (w : WedgeWatch) (now : ℕ) : Option (Option Bool) :=
  match w.probed with
  | some (taken, result) => if now - taken < probeEvery then some result else none
  | none => none

/-- Whether `check` reads the sound card at this pass. -/
def probes (w : WedgeWatch) (now : ℕ) : Bool :=
  wedgeSilence ≤ w.silence now && (w.recentProbe now).isNone

/-- What the sound card is taken to say: the last look, or a new one. -/
def evidence (w : WedgeWatch) (now : ℕ) (probe : Option Bool) : WedgeWatch × Option Bool :=
  match w.recentProbe now with
  | some result => (w, result)
  | none => ({ w with probed := some (now, probe) }, probe)

/-- Take in a pass over a dongle whose headset is not known to be linked: the
watch after it, and the silence to quote if a warning is due now. `probe` is
what the sound card says; it is used only when `probes` holds. -/
def check (w : WedgeWatch) (now : ℕ) (probe : Option Bool) : WedgeWatch × Option ℕ :=
  if w.silence now < wedgeSilence then (w, none)
  else
    let looked := w.evidence now probe
    if looked.2 ≠ some true then (looked.1, none)
    else if w.warnedAt.all (fun t => wedgeReminder ≤ now - t) then
      ({ looked.1 with warnedAt := some now }, some (w.silence now))
    else (looked.1, none)

@[simp] theorem heard_heardAt (w : WedgeWatch) (now : ℕ) : (w.heard now).1.heardAt = now := rfl

@[simp] theorem evidence_heardAt (w : WedgeWatch) (now : ℕ) (probe : Option Bool) :
    (w.evidence now probe).1.heardAt = w.heardAt := by
  unfold evidence
  split <;> rfl

@[simp] theorem evidence_snd (w : WedgeWatch) (now : ℕ) (probe : Option Bool) :
    (w.evidence now probe).2 = (w.recentProbe now).getD probe := by
  unfold evidence
  split <;> simp [*]

@[simp] theorem check_heardAt (w : WedgeWatch) (now : ℕ) (probe : Option Bool) :
    (w.check now probe).1.heardAt = w.heardAt := by
  unfold check
  grind [evidence_heardAt]

/-- What makes a warning due: the silence has lasted, the card streams as far as
is known, and the last warning is a day old. -/
def Due (w : WedgeWatch) (now : ℕ) (probe : Option Bool) : Prop :=
  wedgeSilence ≤ w.silence now ∧ (w.recentProbe now).getD probe = some true ∧
    ∀ t ∈ w.warnedAt, wedgeReminder ≤ now - t

/-- A warning is given when it is due, and quotes the silence. -/
theorem due_of_check {w : WedgeWatch} {now : ℕ} {probe : Option Bool} {silence : ℕ}
    (h : (w.check now probe).2 = some silence) :
    w.Due now probe ∧ silence = w.silence now := by
  unfold check at h
  split at h
  · cases h
  next hlong =>
    simp only [evidence_snd] at h
    split at h
    · cases h
    next hrunning =>
      split at h
      next hold =>
        refine ⟨⟨Nat.le_of_not_lt hlong, by simpa using hrunning, ?_⟩, (Option.some.inj h).symm⟩
        simpa [Option.all_eq_true] using hold
      next => cases h

/-- A warning that is due is given. -/
theorem check_of_due {w : WedgeWatch} {now : ℕ} {probe : Option Bool} (h : w.Due now probe) :
    (w.check now probe).2 = some (w.silence now) := by
  obtain ⟨hlong, hrunning, hold⟩ := h
  have hdue : w.warnedAt.all (fun t => wedgeReminder ≤ now - t) = true := by
    simpa [Option.all_eq_true] using hold
  rw [check, if_neg (Nat.not_lt.2 hlong)]
  simp only [evidence_snd, hrunning, hdue, ne_eq, not_true_eq_false, if_false, if_true]

/-- A look at the sound card is kept, and so is the last one when none is taken. -/
theorem check_probed (w : WedgeWatch) (now : ℕ) (probe : Option Bool) :
    (w.check now probe).1.probed = if w.probes now then some (now, probe) else w.probed := by
  have hlooked : (w.evidence now probe).1.probed =
      if (w.recentProbe now).isNone then some (now, probe) else w.probed := by
    unfold evidence
    split <;> simp [*]
  unfold check probes
  split
  next hshort => simp [Nat.not_le.2 hshort]
  next hlong =>
    have hsilent : wedgeSilence ≤ w.silence now := Nat.le_of_not_lt hlong
    simp only [hsilent, decide_true, Bool.true_and]
    split
    · exact hlooked
    · split
      · exact hlooked
      · exact hlooked

/-- What was last warned about is this pass's warning, or the last one before it. -/
theorem check_warnedAt (w : WedgeWatch) (now : ℕ) (probe : Option Bool) :
    (w.check now probe).1.warnedAt =
      if (w.check now probe).2.isSome then some now else w.warnedAt := by
  have hkept : (w.evidence now probe).1.warnedAt = w.warnedAt := by
    unfold evidence
    split <;> rfl
  unfold check
  split
  · rfl
  · simp only
    split
    · exact hkept
    · split
      · rfl
      · exact hkept

end WedgeWatch

end HeadsetBattery.Maxwell
