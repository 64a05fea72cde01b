import HeadsetBattery.Library.Traces
import Mathlib.Algebra.Ring.Nat

/-!
# Beats

A component shows that it is alive by events that carry an instant. What it does
between two of them has a cost, and how long after the last one the next may come is
a function of that cost.
-/
namespace Beats

variable {ω : Type*} (beat : ω → Option ℕ) (cost : ω → ℕ)

/-- The last beat and what was spent since, after one more event. -/
def observe (seen : Option (ℕ × ℕ)) (e : ω) : Option (ℕ × ℕ) :=
  match beat e with
  | some t => some (t, 0)
  | none => seen.map fun s => (s.1, s.2 + cost e)

/-- The last beat of a trace, and what was spent since. -/
def last (tr : List ω) : Option (ℕ × ℕ) := tr.foldl (observe beat cost) none

/-- No beat follows the one before it later than what was spent in between allows. -/
def InTime (allowed : ℕ → ℕ) (tr : List ω) : Prop :=
  Traces.Everywhere (fun pre e => ∀ q, beat e = some q → ∀ p spent,
    last beat cost pre = some (p, spent) → q ≤ p + allowed spent) tr

variable {beat cost} {allowed : ℕ → ℕ} {tr es : List ω} {e : ω}

@[simp] theorem last_nil : last beat cost [] = none := rfl

theorem last_snoc (tr : List ω) (e : ω) :
    last beat cost (tr ++ [e]) = observe beat cost (last beat cost tr) e := by
  simp [last]

theorem last_beat {t : ℕ} (h : beat e = some t) : last beat cost (tr ++ [e]) = some (t, 0) := by
  rw [last_snoc, observe, h]

/-- Events that are no beats only cost something. -/
theorem last_quiet (h : ∀ e ∈ es, beat e = none) :
    last beat cost (tr ++ es) =
      (last beat cost tr).map fun s => (s.1, s.2 + (es.map cost).sum) := by
  induction es using List.reverseRecOn with
  | nil => simp
  | append_singleton es e ih =>
      rw [← List.append_assoc, last_snoc, ih fun e' he' => h e' (by simp [he']), observe,
        h e (by simp), Option.map_map]
      simp [Function.comp_def, Nat.add_assoc]

theorem inTime_nil : InTime beat cost allowed [] := Traces.everywhere_nil _

theorem InTime.quiet (htr : InTime beat cost allowed tr) (h : ∀ e ∈ es, beat e = none) :
    InTime beat cost allowed (tr ++ es) := by
  refine Traces.everywhere_append.2 ⟨htr, Traces.everywhere_of_forall fun e he pre q hq => ?_⟩
  simp [h e he] at hq

theorem InTime.snoc (htr : InTime beat cost allowed tr)
    (h : ∀ q, beat e = some q → ∀ p spent, last beat cost tr = some (p, spent) →
      q ≤ p + allowed spent) : InTime beat cost allowed (tr ++ [e]) := by
  refine Traces.everywhere_append.2 ⟨htr, Traces.everywhere_singleton.2 ?_⟩
  simpa using h

end Beats
