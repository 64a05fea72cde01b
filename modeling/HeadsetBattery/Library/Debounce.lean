import HeadsetBattery.Library.Runs
import HeadsetBattery.Library.Streaks
import Mathlib.Data.List.Chain

/-!
# Values that have settled

A monitor observes a value again and again and reports it once it has been the
same for long enough, unless that value is the one it reported last. It keeps
the value reported last and one clock. The specification looks at the whole
history instead: which value was the newest to last. Histories are newest first
where a definition recurses on them.
-/
namespace Debounce

open Runs

variable {α : Type*} [DecidableEq α]

/-- The value reported last, and one that may be next with its first observation. -/
structure Monitor (α : Type*) where
  told : Option α
  pending : Option (α × ℕ)

namespace Monitor

def start : Monitor α := ⟨none, none⟩

/-- Take in one observation, a value and its instant. A report is the observation it
is made at. -/
def observe (hold : ℕ) (m : Monitor α) (o : α × ℕ) : Monitor α × List (α × ℕ) :=
  if m.told = some o.1 then (⟨m.told, none⟩, [])
  else
    match m.pending with
    | some (a, since) =>
        if a = o.1 then
          if o.2 - since < hold then (m, []) else (⟨some o.1, none⟩, [o])
        else (⟨m.told, some o⟩, [])
    | none => (⟨m.told, some o⟩, [])

end Monitor

/-! ## What a history says -/

/-- Since when the last observations are all of `a`. -/
def since (a : α) (history : List (α × ℕ)) : Option ℕ :=
  Streaks.since Prod.snd (fun o => o.1 = a) history

/-- An observation after `history` whose value has been the same for long enough. -/
def Lasts (hold : ℕ) (history : List (α × ℕ)) (o : α × ℕ) : Prop :=
  ∃ start, since o.1 history = some start ∧ hold ≤ o.2 - start

/-- The newest value of a history that lasted, newest observation first. -/
def lasting (hold : ℕ) : List (α × ℕ) → Option α
  | [] => none
  | o :: earlier =>
      if (since o.1 earlier.reverse).any fun start => hold ≤ o.2 - start then some o.1
      else lasting hold earlier

/-- The newest value of a history that lasted, oldest observation first. -/
def settled (hold : ℕ) (history : List (α × ℕ)) : Option α := lasting hold history.reverse

/-- The value observed last, unless it is the one that has settled, with the instant
it was first observed. -/
def unsettled (hold : ℕ) (history : List (α × ℕ)) : Option (α × ℕ) :=
  match history.getLast? with
  | none => none
  | some o => if settled hold history = some o.1 then none else
      (since o.1 history).map fun start => (o.1, start)

instance (hold : ℕ) (history : List (α × ℕ)) (o : α × ℕ) : Decidable (Lasts hold history o) :=
  decidable_of_iff ((since o.1 history).any (fun start => hold ≤ o.2 - start) = true) (by
    simp [Lasts, Option.any_eq_true])

@[simp] theorem settled_nil (hold : ℕ) : settled hold ([] : List (α × ℕ)) = none := rfl

theorem settled_snoc (hold : ℕ) (history : List (α × ℕ)) (o : α × ℕ) :
    settled hold (history ++ [o]) = if Lasts hold history o then some o.1 else settled hold history := by
  rw [settled, List.reverse_append, List.reverse_singleton, List.singleton_append, lasting,
    List.reverse_reverse]
  refine if_congr ?_ rfl rfl
  simp [Lasts, Option.any_eq_true]

theorem since_snoc (a : α) (history : List (α × ℕ)) (o : α × ℕ) :
    since a (history ++ [o]) = if o.1 = a then some ((since a history).getD o.2) else none := by
  rw [since, Streaks.since_snoc, Streaks.observe]
  rfl

theorem unsettled_snoc (hold : ℕ) (history : List (α × ℕ)) (o : α × ℕ) :
    unsettled hold (history ++ [o]) =
      if settled hold (history ++ [o]) = some o.1 then none
      else some (o.1, (since o.1 history).getD o.2) := by
  simp [unsettled, since_snoc]

/-- Of the values that have not settled, only the one observed last has a streak. -/
theorem since_eq_of_unsettled {hold : ℕ} {history : List (α × ℕ)} {a : α}
    (h : settled hold history ≠ some a) :
    since a history = (unsettled hold history).bind fun p => if p.1 = a then some p.2 else none := by
  induction history using List.reverseRecOn with
  | nil => rfl
  | append_singleton history o =>
      rw [since_snoc, unsettled_snoc]
      by_cases ho : o.1 = a
      · subst ho
        simp [h]
      · by_cases hsettled : settled hold (history ++ [o]) = some o.1 <;> simp [ho, hsettled]

/-! ## What the monitor knows -/

/-- What the monitor has made of a history. -/
def Tracks (hold : ℕ) (history : List (α × ℕ)) (m : Monitor α) : Prop :=
  m.told = settled hold history ∧ m.pending = unsettled hold history

/-- One observation: the monitor keeps track, and reports exactly a value that has
lasted and is not the one settled before. -/
theorem Tracks.observe {hold : ℕ} {history : List (α × ℕ)} {m : Monitor α}
    (h : Tracks hold history m) (o : α × ℕ) :
    Tracks hold (history ++ [o]) (m.observe hold o).1 ∧
      (m.observe hold o).2 =
        if Lasts hold history o ∧ settled hold history ≠ some o.1 then [o] else [] := by
  obtain ⟨told, pending⟩ := m
  obtain ⟨rfl, hpending⟩ := h
  obtain rfl : pending = unsettled hold history := hpending
  unfold Monitor.observe Tracks
  rw [settled_snoc, unsettled_snoc, settled_snoc]
  by_cases htold : settled hold history = some o.1
  · simp [htold]
  · have hsince := since_eq_of_unsettled htold
    simp only [htold, if_false, ne_eq, not_false_eq_true, and_true]
    cases hu : unsettled hold history with
    | none =>
        have hlasts : ¬Lasts hold history o := by simp [Lasts, hsince, hu]
        simp [hlasts, htold, hsince, hu]
    | some pending =>
        obtain ⟨a, start⟩ := pending
        by_cases ha : a = o.1
        · have hstart : since o.1 history = some start := by simp [hsince, hu, ha]
          have hlasts : Lasts hold history o ↔ ¬o.2 - start < hold := by simp [Lasts, hstart]
          by_cases hearly : o.2 - start < hold
          · simp [ha, hlasts, hearly, htold, hstart]
          · simp [ha, hlasts, hearly]
        · have hnone : since o.1 history = none := by simp [hsince, hu, ha]
          have hlasts : ¬Lasts hold history o := by simp [Lasts, hnone]
          simp [ha, hlasts, htold, hnone]

/-- The monitor after a history. -/
def watched (hold : ℕ) (history : List (α × ℕ)) : Monitor α × List (α × ℕ) :=
  exec (Monitor.observe hold) .start history

theorem tracks_watched (hold : ℕ) (history : List (α × ℕ)) :
    Tracks hold history (watched hold history).1 := by
  induction history using List.reverseRecOn with
  | nil => exact ⟨rfl, rfl⟩
  | append_singleton history o ih =>
      rw [watched, exec_snoc]
      exact (ih.observe o).1

/-- The reports of a history. -/
def reports (hold : ℕ) (history : List (α × ℕ)) : List (α × ℕ) := (watched hold history).2

@[simp] theorem reports_nil (hold : ℕ) : reports hold ([] : List (α × ℕ)) = [] := rfl

theorem reports_snoc (hold : ℕ) (history : List (α × ℕ)) (o : α × ℕ) :
    reports hold (history ++ [o]) = reports hold history ++
      if Lasts hold history o ∧ settled hold history ≠ some o.1 then [o] else [] := by
  rw [reports, watched, exec_snoc]
  exact congrArg _ ((tracks_watched hold history).observe o).2

/-- What has settled is what was reported last. -/
theorem getLast_reports (hold : ℕ) (history : List (α × ℕ)) :
    (reports hold history).getLast?.map Prod.fst = settled hold history := by
  induction history using List.reverseRecOn with
  | nil => rfl
  | append_singleton history o ih =>
      rw [reports_snoc, settled_snoc]
      by_cases hlasts : Lasts hold history o
      · by_cases hsettled : settled hold history = some o.1 <;> simp [hlasts, hsettled, ih]
      · simp [hlasts, ih]

/-- A report is an observation of the history. -/
theorem mem_of_mem_reports {hold : ℕ} {history : List (α × ℕ)} {r : α × ℕ}
    (h : r ∈ reports hold history) : r ∈ history := by
  induction history using List.reverseRecOn with
  | nil => cases h
  | append_singleton history o ih =>
      rw [reports_snoc, List.mem_append] at h
      obtain hold | hnew := h
      · exact List.mem_append_left _ (ih hold)
      · split at hnew
        · exact List.mem_append_right _ hnew
        · cases hnew

/-- Every report was made before the last value began, unless that has settled. -/
theorem le_since_of_mem_reports {hold : ℕ} {history : List (α × ℕ)} {a : α} {start : ℕ}
    (hmono : history.Pairwise fun o o' => o.2 ≤ o'.2) (ha : settled hold history ≠ some a)
    (hstart : since a history = some start) : ∀ r ∈ reports hold history, r.2 ≤ start := by
  induction history using List.reverseRecOn generalizing start with
  | nil => simp
  | append_singleton history o ih =>
      intro r hr
      obtain ⟨hmono, -, hlast⟩ := List.pairwise_append.1 hmono
      rw [since_snoc] at hstart
      split at hstart
      next ho =>
        subst ho
        rw [settled_snoc] at ha
        by_cases hlasts : Lasts hold history o
        · simp [hlasts] at ha
        rw [if_neg hlasts] at ha
        rw [reports_snoc, if_neg fun h => hlasts h.1, List.append_nil] at hr
        cases hs : since o.1 history with
        | none =>
            obtain rfl : o.2 = start := by simpa [hs] using hstart
            exact hlast r (mem_of_mem_reports hr) o (by simp)
        | some s =>
            obtain rfl : s = start := by simpa [hs] using hstart
            exact ih hmono ha hs r hr
      next => cases hstart

/-- Two reports are at least as far apart as a value has to last. -/
theorem reports_apart {hold : ℕ} {history : List (α × ℕ)}
    (hmono : history.Pairwise fun o o' => o.2 ≤ o'.2) :
    (reports hold history).Pairwise fun r r' => r.2 + hold ≤ r'.2 := by
  induction history using List.reverseRecOn with
  | nil => simp
  | append_singleton history o ih =>
      obtain ⟨hbefore, -, hlast⟩ := List.pairwise_append.1 hmono
      rw [reports_snoc]
      split
      next h =>
        obtain ⟨⟨start, hstart, hheld⟩, hother⟩ := h
        refine List.pairwise_append.2 ⟨ih hbefore, by simp, fun r hr r' hr' => ?_⟩
        obtain rfl := List.mem_singleton.1 hr'
        have hle := le_since_of_mem_reports hbefore hother hstart r hr
        obtain ⟨first, hfirst, hat⟩ := Streaks.mem_of_since hstart
        have hfirst := hlast first hfirst r' (by simp)
        omega
      next => simpa using ih hbefore

/-- Two reports in a row are of different values. -/
theorem reports_differ (hold : ℕ) (history : List (α × ℕ)) :
    (reports hold history).IsChain fun r r' => r.1 ≠ r'.1 := by
  induction history using List.reverseRecOn with
  | nil => simp
  | append_singleton history o ih =>
      rw [reports_snoc]
      split
      next h =>
        refine List.isChain_append.2 ⟨ih, by simp, fun r hr r' hr' => ?_⟩
        obtain rfl : o = r' := by simpa using hr'
        intro hsame
        have hlast := getLast_reports hold history
        rw [Option.mem_def.1 hr, Option.map_some, hsame] at hlast
        exact h.2 hlast.symm
      next => simpa using ih

end Debounce
