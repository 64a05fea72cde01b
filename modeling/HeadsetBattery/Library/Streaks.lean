import Mathlib.Data.List.Induction
import Mathlib.Data.List.Pairwise

/-!
# Streaks

Since when a condition has held without a break. A monitor keeps one clock: it
starts at the first observation at which the condition holds and is cleared at
the first at which it does not. A specification speaks of a window of the
history instead. The two agree as long as time does not run backwards.
-/
namespace Streaks

variable {α : Type*} (time : α → ℕ) (p : α → Prop) [DecidablePred p]

/-- The clock after one more observation. -/
def observe (clock : Option ℕ) (a : α) : Option ℕ :=
  if p a then some (clock.getD (time a)) else none

/-- Since when the condition holds, at the end of a history. -/
def since (history : List α) : Option ℕ := history.foldl (observe time p) none

omit [DecidablePred p] in
/-- The condition has held for longer than `grace` at the instant `now`: there is
an observation that far back from which on it always held. -/
def HeldFor (grace now : ℕ) (history : List α) : Prop :=
  ∃ before a after, history = before ++ a :: after ∧ grace < now - time a ∧ ∀ b ∈ a :: after, p b

variable {time p}

@[simp] theorem since_nil : since time p [] = none := rfl

theorem since_snoc (history : List α) (a : α) :
    since time p (history ++ [a]) = observe time p (since time p history) a := by
  simp [since]

/-- The clock shows where the streak began: the condition has held from that
observation on, and did not hold at the one before. -/
theorem streak_of_since {history : List α} {start : ℕ} (h : since time p history = some start) :
    ∃ before a after, history = before ++ a :: after ∧ time a = start ∧
      (∀ b ∈ a :: after, p b) ∧ ∀ b, before.getLast? = some b → ¬p b := by
  induction history using List.reverseRecOn with
  | nil => cases h
  | append_singleton history c ih =>
      rw [since_snoc, observe] at h
      split at h
      next hc =>
        cases hs : since time p history with
        | none =>
            refine ⟨history, c, [], rfl, by simpa [hs] using h, by simpa using hc, ?_⟩
            intro b hb hpb
            obtain ⟨rest, rfl⟩ := List.getLast?_eq_some_iff.1 hb
            simp [since_snoc, observe, hpb] at hs
        | some s =>
            obtain ⟨before, a, after, rfl, hat, hall, hlast⟩ := ih (by simpa [hs] using h)
            refine ⟨before, a, after ++ [c], by simp, hat, fun b hb => ?_, hlast⟩
            rw [← List.cons_append] at hb
            exact (List.mem_append.1 hb).elim (hall b) fun hb => List.mem_singleton.1 hb ▸ hc
      next => cases h

/-- A running clock shows the instant of an observation. -/
theorem mem_of_since {history : List α} {start : ℕ} (h : since time p history = some start) :
    ∃ a ∈ history, time a = start := by
  obtain ⟨before, a, after, rfl, hat, -, -⟩ := streak_of_since h
  exact ⟨a, by simp, hat⟩

omit [DecidablePred p] in
theorem heldFor_snoc {grace now : ℕ} {history : List α} {a : α} :
    HeldFor time p grace now (history ++ [a]) ↔
      p a ∧ (HeldFor time p grace now history ∨ grace < now - time a) := by
  constructor
  · rintro ⟨before, b, after, he, hlt, hall⟩
    obtain rfl | ⟨after, c, rfl⟩ := List.eq_nil_or_concat after
    · obtain ⟨rfl, hb⟩ := List.append_inj' he rfl
      obtain rfl := List.singleton_inj.1 hb
      exact ⟨hall a (by simp), .inr hlt⟩
    · rw [List.concat_eq_append] at he hall
      rw [← List.cons_append, ← List.append_assoc] at he
      obtain ⟨rfl, hc⟩ := List.append_inj' he rfl
      obtain rfl := List.singleton_inj.1 hc
      exact ⟨hall a (by simp), .inl ⟨before, b, after, rfl, hlt,
        fun c hc => hall c (by rw [← List.cons_append]; exact List.mem_append_left _ hc)⟩⟩
  · rintro ⟨ha, ⟨before, b, after, rfl, hlt, hall⟩ | hlt⟩
    · refine ⟨before, b, after ++ [a], by simp, hlt, fun c hc => ?_⟩
      rw [← List.cons_append] at hc
      exact (List.mem_append.1 hc).elim (hall c) fun hc => List.mem_singleton.1 hc ▸ ha
    · exact ⟨history, a, [], rfl, hlt, by simpa using ha⟩

/-- The clock says how long the condition has held. -/
theorem heldFor_iff {grace now : ℕ} {history : List α}
    (hmono : history.Pairwise fun a b => time a ≤ time b) :
    HeldFor time p grace now history ↔
      ∃ start, since time p history = some start ∧ grace < now - start := by
  induction history using List.reverseRecOn with
  | nil => simp [HeldFor]
  | append_singleton history a ih =>
      obtain ⟨hmono, -, hlast⟩ := List.pairwise_append.1 hmono
      rw [heldFor_snoc, ih hmono, since_snoc, observe]
      by_cases ha : p a
      · cases hs : since time p history with
        | none => simp [ha]
        | some start =>
            obtain ⟨b, hb, rfl⟩ := mem_of_since hs
            have hle : time b ≤ time a := hlast b hb a (by simp)
            simp only [ha, true_and, if_true, Option.getD_some, Option.some.injEq,
              exists_eq_left']
            omega
      · simp [ha]

end Streaks
