import Mathlib.Order.Lattice
import Mathlib.Data.List.Basic

/-!
# The running minimum

The lowest of a start value and of everything that came after it, and sequences
that keep near it: each value is related to the lowest of those before.
-/
namespace RunningMinimum

variable {α : Type*} [LinearOrder α]

/-- The lowest of `start` and a list. -/
def lowest (start : α) (l : List α) : α := l.foldl min start

@[simp] theorem lowest_nil (start : α) : lowest start [] = start := rfl

@[simp] theorem lowest_cons (start a : α) (l : List α) :
    lowest start (a :: l) = lowest (min start a) l := rfl

theorem lowest_append (start : α) (l m : List α) :
    lowest start (l ++ m) = lowest (lowest start l) m := List.foldl_append

/-- It is the greatest lower bound of them all. -/
theorem le_lowest_iff {start b : α} {l : List α} :
    b ≤ lowest start l ↔ b ≤ start ∧ ∀ a ∈ l, b ≤ a := by
  induction l generalizing start with
  | nil => simp
  | cons a l ih => simp [ih, and_assoc]

theorem lowest_le (start : α) (l : List α) : lowest start l ≤ start :=
  (le_lowest_iff.1 le_rfl).1

/-- Each value of a list is near the lowest before it. -/
def Near (near : α → α → Prop) (start : α) : List α → Prop
  | [] => True
  | a :: l => near start a ∧ Near near (min start a) l

theorem near_append {near : α → α → Prop} {start : α} {l m : List α} :
    Near near start (l ++ m) ↔ Near near start l ∧ Near near (lowest start l) m := by
  induction l generalizing start with
  | nil => simp [Near]
  | cons a l ih => simp [Near, ih, and_assoc]

end RunningMinimum
