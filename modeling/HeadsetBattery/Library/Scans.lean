import Mathlib.Data.List.Basic

/-!
# Scanning every suffix

A scan tries a reader at every offset of a list and keeps what it reads. Where the
list is a concatenation, what matters is at which offsets of a part the reader
reads anything, given what follows the part.
-/
namespace Scans

variable {α β : Type*}

/-- What `f` reads at every offset, first offset first. -/
def scan (f : List α → Option β) : List α → List β
  | [] => []
  | a :: l => (f (a :: l)).toList ++ scan f l

@[simp] theorem scan_nil (f : List α → Option β) : scan f [] = [] := rfl

/-- The reader reads nothing at any offset of `l`, with `rest` behind it. -/
def Silent (f : List α → Option β) (l rest : List α) : Prop :=
  ∀ i < l.length, f (l.drop i ++ rest) = none

theorem filterMap_range_eq_scan (f : List α → Option β) (l : List α) :
    (List.range l.length).filterMap (fun i => f (l.drop i)) = scan f l := by
  induction l with
  | nil => rfl
  | cons a l ih =>
      rw [List.length_cons, List.range_succ_eq_map, List.filterMap_cons, List.filterMap_map]
      simp only [List.drop_zero, Function.comp_def, List.drop_succ_cons, scan, ih]
      cases f (a :: l) <;> rfl

theorem Silent.of_cons {f : List α → Option β} {a : α} {l rest : List α}
    (h : Silent f (a :: l) rest) : f (a :: l ++ rest) = none ∧ Silent f l rest := by
  refine ⟨h 0 (by simp), fun i hi => ?_⟩
  simpa using h (i + 1) (by simpa using hi)

/-- A silent part does not show in the scan. -/
theorem scan_append_of_silent {f : List α → Option β} {l rest : List α} (h : Silent f l rest) :
    scan f (l ++ rest) = scan f rest := by
  induction l with
  | nil => rfl
  | cons a l ih =>
      obtain ⟨hnone, hsilent⟩ := h.of_cons
      have hstep : scan f (a :: l ++ rest) =
          (f (a :: l ++ rest)).toList ++ scan f (l ++ rest) := rfl
      rw [hstep, hnone, ih hsilent]
      rfl

theorem scan_of_silent {f : List α → Option β} {l : List α} (h : Silent f l []) :
    scan f l = [] := by
  simpa using scan_append_of_silent h

end Scans
