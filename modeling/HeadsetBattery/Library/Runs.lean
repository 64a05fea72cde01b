import Mathlib.Data.List.Induction

/-!
# Runs of a step function that emits a trace

A component is a step function from a state and an input to the next state and
what that step lets out. A run threads the state through a list of inputs and
concatenates the output, so that every statement about "any point of any run"
is a statement about the run over some list of inputs. The one induction rule
below carries an invariant over the inputs consumed so far, the state and the
whole trace; a condition on a step may look at everything that came before it.
-/
namespace Runs

variable {σ ι κ ω : Type*}

/-- The state a run ends in, with its trace, oldest output first. -/
def exec (step : σ → ι → σ × List ω) (s : σ) : List ι → σ × List ω
  | [] => (s, [])
  | i :: is =>
      let next := step s i
      let rest := exec step next.1 is
      (rest.1, next.2 ++ rest.2)

@[simp] theorem exec_nil (step : σ → ι → σ × List ω) (s : σ) : exec step s [] = (s, []) := rfl

theorem exec_cons (step : σ → ι → σ × List ω) (s : σ) (i : ι) (is : List ι) :
    exec step s (i :: is) =
      ((exec step (step s i).1 is).1, (step s i).2 ++ (exec step (step s i).1 is).2) := rfl

theorem exec_append (step : σ → ι → σ × List ω) (s : σ) (is js : List ι) :
    exec step s (is ++ js) =
      ((exec step (exec step s is).1 js).1,
        (exec step s is).2 ++ (exec step (exec step s is).1 js).2) := by
  induction is generalizing s with
  | nil => simp
  | cons i is ih => simp [exec_cons, ih]

/-- The last step of a run, seen from the state the earlier ones reached. -/
theorem exec_snoc (step : σ → ι → σ × List ω) (s : σ) (is : List ι) (i : ι) :
    exec step s (is ++ [i]) =
      ((step (exec step s is).1 i).1, (exec step s is).2 ++ (step (exec step s is).1 i).2) := by
  simp [exec_append, exec_cons]

/-- A step that is itself a run of finer steps adds nothing: running the coarse
inputs is running all the fine ones. -/
theorem exec_flatMap (fine : σ → κ → σ × List ω) (expand : ι → List κ) (s : σ) (is : List ι) :
    exec (fun s i => exec fine s (expand i)) s is = exec fine s (is.flatMap expand) := by
  induction is generalizing s with
  | nil => rfl
  | cons i is ih => simp [exec_cons, exec_append, ih]

/-- Inputs that are wrapped for a larger step function. -/
theorem exec_map (step : σ → ι → σ × List ω) (step' : σ → κ → σ × List ω) (wrap : ι → κ)
    (h : ∀ s i, step' s (wrap i) = step s i) (s : σ) (is : List ι) :
    exec step s is = exec step' s (is.map wrap) := by
  induction is generalizing s with
  | nil => rfl
  | cons i is ih => simp [exec_cons, h, ih]

/-- Every step of a run meets a condition on the state it starts from. -/
def Along (step : σ → ι → σ × List ω) (cond : σ → ι → Prop) (s : σ) (is : List ι) : Prop :=
  ∀ pre i post, is = pre ++ i :: post → cond (exec step s pre).1 i

theorem along_nil (step : σ → ι → σ × List ω) (cond : σ → ι → Prop) (s : σ) :
    Along step cond s [] := by
  intro pre i post he
  simp at he

theorem along_cons {step : σ → ι → σ × List ω} {cond : σ → ι → Prop} {s : σ} {i : ι} {is : List ι} :
    Along step cond s (i :: is) ↔ cond s i ∧ Along step cond (step s i).1 is := by
  constructor
  · intro h
    refine ⟨h [] i is rfl, fun pre j post he => ?_⟩
    simpa [exec_cons] using h (i :: pre) j post (by rw [he]; rfl)
  · rintro ⟨hi, h⟩ pre j post he
    rcases List.cons_eq_append_iff.1 he with ⟨rfl, hj⟩ | ⟨pre', rfl, hj⟩
    · obtain ⟨rfl, -⟩ := List.cons.inj hj
      exact hi
    · simpa [exec_cons] using h pre' j post hj

instance decidableAlong (step : σ → ι → σ × List ω) (cond : σ → ι → Prop)
    [∀ s i, Decidable (cond s i)] : ∀ s is, Decidable (Along step cond s is)
  | s, [] => isTrue (along_nil step cond s)
  | s, i :: is =>
      haveI := decidableAlong step cond (step s i).1 is
      decidable_of_iff (cond s i ∧ Along step cond (step s i).1 is) along_cons.symm

theorem along_append {step : σ → ι → σ × List ω} {cond : σ → ι → Prop} {s : σ} {is js : List ι} :
    Along step cond s (is ++ js) ↔
      Along step cond s is ∧ Along step cond (exec step s is).1 js := by
  induction is generalizing s with
  | nil => simp [along_nil]
  | cons i is ih => rw [List.cons_append, along_cons, along_cons, ih, exec_cons, and_assoc]

/-- Every finer step meets a condition if all those of each coarse one do. -/
theorem along_flatMap {fine : σ → κ → σ × List ω} {expand : ι → List κ} {cond : σ → κ → Prop}
    {s : σ} {is : List ι} :
    Along fine cond s (is.flatMap expand) ↔
      Along (fun s i => exec fine s (expand i)) (fun s i => Along fine cond s (expand i)) s is := by
  induction is generalizing s with
  | nil => simp [along_nil]
  | cons i is ih => rw [List.flatMap_cons, along_append, along_cons, ih]

theorem Along.prefix {step : σ → ι → σ × List ω} {cond : σ → ι → Prop} {s : σ} {is js : List ι}
    (h : Along step cond s (is ++ js)) : Along step cond s is := by
  intro pre i post he
  exact h pre i (post ++ js) (by simp [he])

/-- The induction over runs: what holds of the consumed inputs, the state and the
trace at the start, and is kept by each step that meets `cond`, holds after
every run whose steps all meet it. -/
theorem exec_induction {step : σ → ι → σ × List ω} {s : σ} (cond : List ι → ι → Prop)
    (inv : List ι → σ → List ω → Prop) (start : inv [] s [])
    (keep : ∀ is i, inv is (exec step s is).1 (exec step s is).2 → cond is i →
      inv (is ++ [i]) (step (exec step s is).1 i).1
        ((exec step s is).2 ++ (step (exec step s is).1 i).2))
    (is : List ι) (hc : ∀ pre i post, is = pre ++ i :: post → cond pre i) :
    inv is (exec step s is).1 (exec step s is).2 := by
  induction is using List.reverseRecOn with
  | nil => exact start
  | append_singleton is i ih =>
      rw [exec_snoc]
      exact keep is i (ih fun pre j post he => hc pre j (post ++ [i]) (by simp [he]))
        (hc is i [] rfl)

/-- The same rule for inputs that need meet no condition. -/
theorem exec_history {step : σ → ι → σ × List ω} {s : σ} (inv : List ι → σ → List ω → Prop)
    (start : inv [] s [])
    (keep : ∀ is i, inv is (exec step s is).1 (exec step s is).2 →
      inv (is ++ [i]) (step (exec step s is).1 i).1
        ((exec step s is).2 ++ (step (exec step s is).1 i).2))
    (is : List ι) : inv is (exec step s is).1 (exec step s is).2 :=
  exec_induction (fun _ _ => True) inv start (fun is i h _ => keep is i h) is
    (fun _ _ _ _ => trivial)

/-- The same rule for an invariant that does not need the inputs either. -/
theorem exec_invariant {step : σ → ι → σ × List ω} {s : σ} (inv : σ → List ω → Prop)
    (start : inv s []) (keep : ∀ i st tr, inv st tr → inv (step st i).1 (tr ++ (step st i).2))
    (is : List ι) : inv (exec step s is).1 (exec step s is).2 :=
  exec_history (fun _ => inv) start (fun _ i h => keep i _ _ h) is

/-- The same rule for steps that each meet a condition on the state they start
from. -/
theorem exec_invariant_along {step : σ → ι → σ × List ω} {s : σ} (inv : σ → List ω → Prop)
    {cond : σ → ι → Prop} (start : inv s [])
    (keep : ∀ i st tr, inv st tr → cond st i → inv (step st i).1 (tr ++ (step st i).2))
    (is : List ι) (hc : Along step cond s is) : inv (exec step s is).1 (exec step s is).2 :=
  exec_induction (fun pre i => cond (exec step s pre).1 i) (fun _ => inv) start
    (fun _ i h hi => keep i _ _ h hi) is hc

/-- An invariant of the states alone, kept by each step whose input is one of the
run's and whose output goes into `out`, where all the run's output goes. -/
theorem exec_within {step : σ → ι → σ × List ω} (inv : σ → Prop) {out : List ω} {is : List ι}
    (keep : ∀ i ∈ is, ∀ st, inv st → (step st i).2 ⊆ out → inv (step st i).1) {s : σ}
    (start : inv s) (hout : (exec step s is).2 ⊆ out) : inv (exec step s is).1 := by
  induction is generalizing s with
  | nil => exact start
  | cons i is ih =>
      rw [exec_cons, List.append_subset] at hout
      have hnext : inv (step s i).1 := keep i (by simp) s start hout.1
      exact ih (fun j hj => keep j (by simp [hj])) hnext hout.2

/-! ## Steps made of smaller changes -/

/-- A state reached by changes, with everything they let out. -/
inductive Chain (change : σ → List ω → σ → Prop) : σ → List ω → σ → Prop
  | refl (s : σ) : Chain change s [] s
  | tail {s t u : σ} {es fs : List ω} (done : Chain change s es t) (last : change t fs u) :
      Chain change s (es ++ fs) u

namespace Chain

variable {change : σ → List ω → σ → Prop} {s t u : σ} {es fs : List ω}

theorem single (h : change s es t) : Chain change s es t := by
  simpa using (Chain.refl s).tail h

theorem trans (h : Chain change s es t) (k : Chain change t fs u) :
    Chain change s (es ++ fs) u := by
  induction k with
  | refl => simpa using h
  | tail _ last ih => rw [← List.append_assoc]; exact ih.tail last

/-- A run whose steps are chains is a chain. -/
theorem exec {step : σ → ι → σ × List ω} (h : ∀ s i, Chain change s (step s i).2 (step s i).1)
    (s : σ) (is : List ι) : Chain change s (Runs.exec step s is).2 (Runs.exec step s is).1 := by
  induction is generalizing s with
  | nil => exact .refl s
  | cons i is ih => exact (h s i).trans (ih _)

/-- What every change keeps, a chain keeps. -/
theorem keeps (h : Chain change s es t) (inv : σ → List ω → Prop)
    (keep : ∀ s es t tr, change s es t → inv s tr → inv t (tr ++ es)) (tr : List ω)
    (hi : inv s tr) : inv t (tr ++ es) := by
  induction h with
  | refl => simpa using hi
  | tail _ last ih => rw [← List.append_assoc]; exact keep _ _ _ _ last ih

end Chain

end Runs
