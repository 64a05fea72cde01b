import HeadsetBattery.Headset

/-!
# The decisions the bridge makes about a reading

Pure functions of their inputs: whether a level is to be believed, and whether
a battery still deserves its entry.
-/
namespace HeadsetBattery.Bridge

/-- What the virtual battery publishes: a level, and whether it is charging. -/
structure Reading where
  percent : ℕ
  charging : Bool
  deriving DecidableEq, Repr

/-- The graces of the bridge, its pacing and the uhid node. -/
structure Config where
  interval : ℕ
  offlineGrace : ℕ
  missingGrace : ℕ
  uhidPath : String

/-- A reading further than this from the last known level is held back until a
second one confirms it; a rise within it, while discharging, is never shown. -/
def maxPlausibleStep : ℕ := 15

/-- How close a confirmation has to be to the reading it confirms. -/
def confirmTolerance : ℕ := 5

/-- `u8::abs_diff`. -/
def absDiff (m n : ℕ) : ℕ := (m - n) + (n - m)

/-- Start, keep or clear the clock of a condition that is fine or not on this
poll. -/
def note (since : Option ℕ) (fine : Bool) (now : ℕ) : Option ℕ :=
  if fine then none else some (since.getD now)

/-- Why a virtual battery is being taken down, if it is. -/
inductive Withdrawal where
  | keep
  | silent
  | missing
  deriving DecidableEq, Repr

/-- Decide whether a battery still deserves its entry. A headset that is missing
is judged by the missing grace alone; a missing time of zero stands for one that
is still listed. -/
def withdrawal (silentFor missingFor : ℕ) (config : Config) : Withdrawal :=
  if 0 < missingFor then
    if config.missingGrace < missingFor then .missing else .keep
  else if config.offlineGrace < silentFor then .silent
  else .keep

theorem withdrawal_eq_keep {silentFor missingFor : ℕ} {config : Config} :
    withdrawal silentFor missingFor config = .keep ↔
      0 < missingFor ∧ missingFor ≤ config.missingGrace ∨
        missingFor = 0 ∧ silentFor ≤ config.offlineGrace := by
  unfold withdrawal
  split <;> split <;> simp <;> omega

/-- The deferred reading, if the one at hand can confirm it: a second opinion
has to be a second reading. -/
def secondOpinion (deferred deferredSample sample : Option ℕ) : Option ℕ :=
  if sample.isSome ∧ sample = deferredSample then none else deferred

/-- What to do with a freshly read battery level. -/
inductive Verdict where
  | accept
  | defer
  | hold
  deriving DecidableEq, Repr

/-- Vet a reading against the one last published, and against the one deferred
on an earlier poll, if any. -/
def vet (published candidate : Reading) (deferred : Option ℕ) : Verdict :=
  if maxPlausibleStep < absDiff published.percent candidate.percent then
    match deferred with
    | some previous =>
        if absDiff previous candidate.percent ≤ confirmTolerance then .accept else .defer
    | none => .defer
  else if !candidate.charging && !published.charging &&
      decide (published.percent < candidate.percent) then .hold
  else .accept

theorem vet_eq_hold {published candidate : Reading} {deferred : Option ℕ} :
    vet published candidate deferred = .hold ↔
      absDiff published.percent candidate.percent ≤ maxPlausibleStep ∧
        candidate.charging = false ∧ published.charging = false ∧
        published.percent < candidate.percent := by
  unfold vet
  split
  · split
    · split <;> simp <;> omega
    · simp; omega
  · split <;> simp_all

theorem vet_eq_defer {published candidate : Reading} {deferred : Option ℕ} :
    vet published candidate deferred = .defer ↔
      maxPlausibleStep < absDiff published.percent candidate.percent ∧
        ¬∃ previous, deferred = some previous ∧
          absDiff previous candidate.percent ≤ confirmTolerance := by
  unfold vet
  by_cases hjump : maxPlausibleStep < absDiff published.percent candidate.percent
  · rw [if_pos hjump]
    cases deferred with
    | none => simp [hjump]
    | some previous => by_cases hclose : absDiff previous candidate.percent ≤ confirmTolerance <;>
        simp [hjump, hclose]
  · rw [if_neg hjump]
    split <;> simp [hjump]

/-- A jump is accepted only with a confirmation close to it. -/
theorem confirmed_of_vet {published candidate : Reading} {deferred : Option ℕ}
    (h : vet published candidate deferred = .accept)
    (hjump : maxPlausibleStep < absDiff published.percent candidate.percent) :
    ∃ previous, deferred = some previous ∧
      absDiff previous candidate.percent ≤ confirmTolerance := by
  unfold vet at h
  rw [if_pos hjump] at h
  cases deferred with
  | none => cases h
  | some previous =>
      simp only at h
      split at h
      next hclose => exact ⟨previous, rfl, hclose⟩
      next => cases h

end HeadsetBattery.Bridge
