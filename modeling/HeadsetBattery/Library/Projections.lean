import HeadsetBattery.Library.Runs

/-!
# One component of a run

A system is made of components that share one run. Where every step of the system
does to a component what a machine of its own would do with the part of the input
that concerns it, the run of the system is, for that component, a run of its
machine. What concerns a component may depend on the state the system is in.
-/
namespace Projections

open Runs

variable {σ ι ω τ κ ψ : Type*}

/-- What a list of inputs has for a component, read off as the system runs. -/
def views (step : σ → ι → σ × List ω) (view : σ → ι → Option κ) (s : σ) : List ι → List κ
  | [] => []
  | i :: is => (view s i).toList ++ views step view (step s i).1 is

/-- A step does to the component what its machine does, if anything concerns it. -/
def Follows (machine : τ → κ → τ × List ψ) (before : τ) (concern : Option κ) (after : τ)
    (seen : List ψ) : Prop :=
  match concern with
  | some k => machine before k = (after, seen)
  | none => after = before ∧ seen = []

variable {step : σ → ι → σ × List ω} {machine : τ → κ → τ × List ψ}
  {view : σ → ι → Option κ} {see : ω → Option ψ}

theorem views_append (s : σ) (is js : List ι) :
    views step view s (is ++ js) =
      views step view s is ++ views step view (exec step s is).1 js := by
  induction is generalizing s with
  | nil => rfl
  | cons i is ih => simp [views, ih, exec_cons]

theorem views_snoc (s : σ) (is : List ι) (i : ι) :
    views step view s (is ++ [i]) =
      views step view s is ++ (view (exec step s is).1 i).toList := by
  simp [views_append, views]

theorem views_map {κ' : Type*} (f : κ → κ') (s : σ) (is : List ι) :
    views step (fun s i => (view s i).map f) s is = (views step view s is).map f := by
  induction is generalizing s with
  | nil => rfl
  | cons i is ih =>
      rw [views, views, ih, List.map_append]
      cases view s i <;> rfl

/-- What is read off the inputs alone. -/
theorem views_filterMap {ρ : Type*} {f : κ → Option ρ} {g : ι → Option ρ}
    (h : ∀ s i, (view s i).bind f = g i) (s : σ) (is : List ι) :
    (views step view s is).filterMap f = is.filterMap g := by
  induction is generalizing s with
  | nil => rfl
  | cons i is ih =>
      have hi := h s i
      rw [views, List.filterMap_append, ih]
      cases hview : view s i with
      | none =>
          rw [hview] at hi
          simp [← hi]
      | some k =>
          rw [hview, Option.bind_some] at hi
          simp [hi, List.filterMap_cons]
          cases g i <;> rfl

/-- What a component takes in comes in the order of the run. -/
theorem views_sublist {ρ : Type*} (time : ι → ρ) (time' : κ → ρ)
    (h : ∀ s i k, view s i = some k → time' k = time i) (s : σ) (is : List ι) :
    ((views step view s is).map time').Sublist (is.map time) := by
  induction is generalizing s with
  | nil => exact .slnil
  | cons i is ih =>
      rw [views, List.map_append, List.map_cons]
      cases hview : view s i with
      | none => exact (ih _).cons _
      | some k =>
          rw [Option.toList_some, List.map_singleton, h s i k hview]
          exact (ih _).cons_cons _

/-- The run of the system is a run of the component's machine, as long as each step
meets the condition under which the system follows it. -/
theorem exec_part (part : σ → τ) (inv : σ → Prop) (cond : σ → ι → Prop)
    (keep : ∀ s i, inv s → inv (step s i).1)
    (follows : ∀ s i, inv s → cond s i →
      Follows machine (part s) (view s i) (part (step s i).1) ((step s i).2.filterMap see))
    {s : σ} (start : inv s) (is : List ι) (hc : Along step cond s is) :
    exec machine (part s) (views step view s is) =
      (part (exec step s is).1, (exec step s is).2.filterMap see) := by
  induction is generalizing s with
  | nil => rfl
  | cons i is ih =>
      obtain ⟨hi, hc⟩ := along_cons.1 hc
      have hstep := follows s i start hi
      have hrest := ih (keep s i start) hc
      rw [exec_cons, List.filterMap_append]
      cases hview : view s i with
      | none =>
          rw [hview] at hstep
          obtain ⟨hsame, hnothing⟩ := hstep
          rw [hsame] at hrest
          simpa [views, hview, hnothing] using hrest
      | some k =>
          rw [hview] at hstep
          have hmachine : machine (part s) k = _ := hstep
          simp only [views, hview, Option.toList_some, List.singleton_append, exec_cons, hmachine,
            hrest]

/-- A condition the run meets, as one on the component's run. -/
theorem along_part (part : σ → τ) (see : ω → Option ψ) (inv : σ → Prop)
    {cond : σ → ι → Prop} {cond' : τ → κ → Prop}
    (keep : ∀ s i, inv s → inv (step s i).1)
    (follows : ∀ s i, inv s →
      Follows machine (part s) (view s i) (part (step s i).1) ((step s i).2.filterMap see))
    (hcond : ∀ s i k, cond s i → view s i = some k → cond' (part s) k)
    {s : σ} (start : inv s) {is : List ι} (hc : Along step cond s is) :
    Along machine cond' (part s) (views step view s is) := by
  induction is generalizing s with
  | nil => exact along_nil _ _ _
  | cons i is ih =>
      obtain ⟨hi, hc⟩ := along_cons.1 hc
      have hstep := follows s i start
      have hrest := ih (keep s i start) hc
      rw [views]
      cases hview : view s i with
      | none =>
          rw [hview] at hstep
          rw [hstep.1] at hrest
          exact hrest
      | some k =>
          rw [hview] at hstep
          have hmachine : machine (part s) k = _ := hstep
          refine along_cons.2 ⟨hcond s i k hi hview, ?_⟩
          rw [hmachine]
          exact hrest

/-! ## Step by step -/

/-- The state after each step, with what the step let out. -/
def log (step : σ → ι → σ × List ω) (s : σ) : List ι → List (σ × List ω)
  | [] => []
  | i :: is => step s i :: log step (step s i).1 is

/-- A component that every step concerns, and what is seen of it after each. -/
theorem log_part (part : σ → τ) (read : σ → ι → κ) (look : List ω → List ψ) (inv : σ → Prop)
    (cond : σ → ι → Prop) (keep : ∀ s i, inv s → inv (step s i).1)
    (follows : ∀ s i, inv s → cond s i →
      machine (part s) (read s i) = (part (step s i).1, look (step s i).2))
    {s : σ} (start : inv s) (is : List ι) (hc : Along step cond s is) :
    log machine (part s) (views step (fun s i => some (read s i)) s is) =
      (log step s is).map fun after => (part after.1, look after.2) := by
  induction is generalizing s with
  | nil => rfl
  | cons i is ih =>
      obtain ⟨hi, hc⟩ := along_cons.1 hc
      have hstep := follows s i start hi
      simp only [views, Option.toList_some, List.singleton_append, log, List.map_cons, hstep]
      rw [ih (keep s i start) hc]

end Projections
