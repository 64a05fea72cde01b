import HeadsetBattery.Library.Runs

/-!
# Loops that leave when their world lets them

A turn of a loop either leaves with a result or takes something in and goes on
from another state; it may depend on how many turns there were, so that the
world the loop talks to is free. Fuel bounds the number of turns. A measure that
every further turn decreases is fuel enough, and bounds what the loop takes in.
-/
namespace Loops

variable {σ ι ω ρ : Type*}

/-- What one turn does. -/
inductive Turn (σ ι ρ : Type*) where
  | leave (result : ρ)
  | goOn (taken : ι) (next : σ)

/-- A loop that has left: the state it left in, what it took in, and its result. -/
structure Done (σ ι ρ : Type*) where
  state : σ
  taken : List ι
  result : ρ

/-- The loop from turn number `n` on, or nothing if the fuel runs out. -/
def run (turn : ℕ → σ → Turn σ ι ρ) : ℕ → ℕ → σ → Option (Done σ ι ρ)
  | 0, _, _ => none
  | fuel + 1, n, s =>
      match turn n s with
      | .leave result => some ⟨s, [], result⟩
      | .goOn taken next =>
          (run turn fuel (n + 1) next).map fun done =>
            ⟨done.state, taken :: done.taken, done.result⟩

/-- A loop leaves within its measure, and takes in no more than the measure allows. -/
theorem returns_within {turn : ℕ → σ → Turn σ ι ρ} {inv : σ → Prop} {measure : σ → ℕ}
    (h : ∀ n s taken next, inv s → turn n s = .goOn taken next →
      inv next ∧ measure next < measure s)
    {fuel : ℕ} (n : ℕ) {s : σ} (hs : inv s) (hfuel : measure s < fuel) :
    ∃ done, run turn fuel n s = some done ∧ inv done.state ∧
      done.taken.length + measure done.state ≤ measure s := by
  induction fuel generalizing n s with
  | zero => omega
  | succ fuel ih =>
      cases hturn : turn n s with
      | leave result => exact ⟨⟨s, [], result⟩, by simp [run, hturn], hs, by simp⟩
      | goOn taken next =>
          obtain ⟨hnext, hless⟩ := h n s taken next hs hturn
          obtain ⟨done, hdone, hinv, hlen⟩ := ih (n + 1) hnext (by omega)
          refine ⟨⟨done.state, taken :: done.taken, done.result⟩, by simp [run, hturn, hdone],
            hinv, ?_⟩
          simp only [List.length_cons]
          omega

/-- A loop whose further turns are steps is the run of those steps, each of which
meets what its turn guarantees; the turn that left it saw the state it left in. -/
theorem run_spec {turn : ℕ → σ → Turn σ ι ρ} {inv : σ → Prop} {step : σ → ι → σ × List ω}
    {cond : σ → ι → Prop}
    (h : ∀ n s taken next, inv s → turn n s = .goOn taken next →
      inv next ∧ next = (step s taken).1 ∧ cond s taken)
    {fuel n : ℕ} {s : σ} (hs : inv s) {done : Done σ ι ρ} (hrun : run turn fuel n s = some done) :
    done.state = (Runs.exec step s done.taken).1 ∧ Runs.Along step cond s done.taken ∧
      turn (n + done.taken.length) done.state = .leave done.result := by
  induction fuel generalizing n s done with
  | zero => cases hrun
  | succ fuel ih =>
      cases hturn : turn n s with
      | leave result =>
          simp only [run, hturn] at hrun
          obtain rfl := Option.some.inj hrun
          exact ⟨rfl, Runs.along_nil step cond s, hturn⟩
      | goOn taken next =>
          simp only [run, hturn] at hrun
          obtain ⟨rest, hrest, rfl⟩ := Option.map_eq_some_iff.1 hrun
          obtain ⟨hnext, rfl, hcond⟩ := h n s taken next hs hturn
          obtain ⟨hstate, halong, hleave⟩ := ih hnext hrest
          refine ⟨hstate, Runs.along_cons.2 ⟨hcond, halong⟩, ?_⟩
          rw [List.length_cons, ← hleave]
          congr 1
          omega

/-- What such a loop took in, turn by turn. -/
theorem turn_of_taken {turn : ℕ → σ → Turn σ ι ρ} {inv : σ → Prop} {step : σ → ι → σ × List ω}
    (h : ∀ n s taken next, inv s → turn n s = .goOn taken next →
      inv next ∧ next = (step s taken).1)
    {fuel n : ℕ} {s : σ} (hs : inv s) {done : Done σ ι ρ} (hrun : run turn fuel n s = some done)
    {before after : List ι} {taken : ι} (htaken : done.taken = before ++ taken :: after) :
    turn (n + before.length) (Runs.exec step s before).1 =
      .goOn taken (step (Runs.exec step s before).1 taken).1 := by
  induction fuel generalizing n s done before with
  | zero => cases hrun
  | succ fuel ih =>
      cases hturn : turn n s with
      | leave result =>
          simp only [run, hturn] at hrun
          obtain rfl := Option.some.inj hrun
          simp at htaken
      | goOn first next =>
          simp only [run, hturn] at hrun
          obtain ⟨rest, hrest, rfl⟩ := Option.map_eq_some_iff.1 hrun
          obtain ⟨hnext, rfl⟩ := h n s first next hs hturn
          cases before with
          | nil =>
              obtain ⟨rfl, -⟩ := List.cons.inj htaken
              exact hturn
          | cons other before =>
              obtain ⟨rfl, hlater⟩ := List.cons.inj htaken
              have hlast := ih hnext hrest hlater
              rw [List.length_cons, Runs.exec_cons, ← hlast]
              congr 1
              omega

end Loops
