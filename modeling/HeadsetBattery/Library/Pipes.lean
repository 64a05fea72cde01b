import HeadsetBattery.Library.Runs
import Mathlib.Algebra.BigOperators.Group.Finset.Basic
import Mathlib.Algebra.Order.BigOperators.Group.Finset
import Mathlib.Data.Fintype.BigOperators

/-!
# Bounded pipes

One writer fills several bounded pipes, in an order of its own, and every pipe has a
reader that drains it until the writer is gone or a read fails. Turns are taken in any
order: a turn of a party that is blocked does nothing. Whatever the order, nothing gets
out of order, nothing is lost unless a read fails, and as long as a pipe holds anything
at all, parties that keep getting their turns come to the end.
-/
namespace Pipes

variable {ι α : Type*} [DecidableEq ι]

/-- Where a reader is. -/
inductive Reader where
  | draining
  /-- It has seen the end of its pipe. -/
  | atEnd
  /-- A read failed: it takes nothing any more, and its end of the pipe is closed. -/
  | failed
  deriving DecidableEq, Repr

structure Net (ι α : Type*) where
  /-- What is yet to be written, each item with its pipe. -/
  left : List (ι × α)
  /-- Whether the writer is gone, and its ends of the pipes closed. -/
  gone : Bool
  held : ι → List α
  got : ι → List α
  reader : ι → Reader

/-- A turn of one of the parties; a reader takes one item more than `more` at most. -/
inductive Turn (ι : Type*) where
  | write
  /-- The writer goes on without an item that nobody would read. -/
  | skip
  | read (pipe : ι) (more : ℕ)
  | fail (pipe : ι)
  deriving DecidableEq, Repr

namespace Net

def new (items : List (ι × α)) : Net ι α :=
  ⟨items, false, fun _ => [], fun _ => [], fun _ => .draining⟩

/-- The writer writes its next item if its pipe has room, and leaves after the last.
Writing to a pipe that nobody reads any more is the end of it. -/
def write (capacity : ℕ) (n : Net ι α) : Net ι α :=
  if n.gone then n
  else
    match n.left with
    | [] => { n with gone := true }
    | (pipe, item) :: left =>
        if n.reader pipe = .failed then { n with gone := true }
        else if (n.held pipe).length < capacity then
          { n with left := left, held := Function.update n.held pipe (n.held pipe ++ [item]) }
        else n

/-- A writer that survives a pipe nobody reads any more loses the item. -/
def skip (n : Net ι α) : Net ι α :=
  if n.gone then n
  else
    match n.left with
    | [] => n
    | (pipe, _) :: left => if n.reader pipe = .failed then { n with left := left } else n

/-- A reader takes what there is, or sees the end once the writer is gone. -/
def read (n : Net ι α) (pipe : ι) (more : ℕ) : Net ι α :=
  if n.reader pipe = .draining then
    if n.held pipe = [] then
      if n.gone then { n with reader := Function.update n.reader pipe .atEnd } else n
    else
      { n with
          held := Function.update n.held pipe ((n.held pipe).drop (more + 1))
          got := Function.update n.got pipe (n.got pipe ++ (n.held pipe).take (more + 1)) }
  else n

/-- A read fails. -/
def fail (n : Net ι α) (pipe : ι) : Net ι α :=
  if n.reader pipe = .draining then
    { n with reader := Function.update n.reader pipe .failed }
  else n

def turn (capacity : ℕ) (n : Net ι α) : Turn ι → Net ι α
  | .write => n.write capacity
  | .skip => n.skip
  | .read pipe more => n.read pipe more
  | .fail pipe => n.fail pipe

/-- The pipes after some turns. -/
def after (capacity : ℕ) (n : Net ι α) (turns : List (Turn ι)) : Net ι α :=
  turns.foldl (turn capacity) n

@[simp] theorem after_nil (capacity : ℕ) (n : Net ι α) : n.after capacity [] = n := rfl

@[simp] theorem after_cons (capacity : ℕ) (n : Net ι α) (t : Turn ι) (ts : List (Turn ι)) :
    n.after capacity (t :: ts) = (n.turn capacity t).after capacity ts := rfl

theorem after_append (capacity : ℕ) (n : Net ι α) (ts us : List (Turn ι)) :
    n.after capacity (ts ++ us) = (n.after capacity ts).after capacity us :=
  List.foldl_append

/-! ## What a turn can do -/

/-- A turn that does nothing is not listed. -/
inductive Turns (capacity : ℕ) (n : Net ι α) : Turn ι → Net ι α → Prop
  | leaves (left : n.left = []) (here : n.gone = false) :
      Turns capacity n .write { n with gone := true }
  | dies {pipe : ι} {item : α} {left : List (ι × α)} (next : n.left = (pipe, item) :: left)
      (here : n.gone = false) (unread : n.reader pipe = .failed) :
      Turns capacity n .write { n with gone := true }
  | writes {pipe : ι} {item : α} {left : List (ι × α)} (next : n.left = (pipe, item) :: left)
      (here : n.gone = false) (read : n.reader pipe ≠ .failed)
      (room : (n.held pipe).length < capacity) :
      Turns capacity n .write
        { n with left := left, held := Function.update n.held pipe (n.held pipe ++ [item]) }
  | skips {pipe : ι} {item : α} {left : List (ι × α)} (next : n.left = (pipe, item) :: left)
      (here : n.gone = false) (unread : n.reader pipe = .failed) :
      Turns capacity n .skip { n with left := left }
  | ends {pipe : ι} {more : ℕ} (draining : n.reader pipe = .draining) (held : n.held pipe = [])
      (gone : n.gone = true) :
      Turns capacity n (.read pipe more) { n with reader := Function.update n.reader pipe .atEnd }
  | takes {pipe : ι} {more : ℕ} (draining : n.reader pipe = .draining) (held : n.held pipe ≠ []) :
      Turns capacity n (.read pipe more)
        { n with
            held := Function.update n.held pipe ((n.held pipe).drop (more + 1))
            got := Function.update n.got pipe (n.got pipe ++ (n.held pipe).take (more + 1)) }
  | fails {pipe : ι} (draining : n.reader pipe = .draining) :
      Turns capacity n (.fail pipe) { n with reader := Function.update n.reader pipe .failed }

theorem turn_cases (capacity : ℕ) (n : Net ι α) (t : Turn ι) :
    n.turn capacity t = n ∨ Turns capacity n t (n.turn capacity t) := by
  cases t with
  | write =>
      simp only [turn, write]
      split
      next => exact .inl rfl
      next here =>
        have here : n.gone = false := by simpa using here
        split
        next left => exact .inr (.leaves left here)
        next pipe item left next =>
          split
          next unread => exact .inr (.dies next here unread)
          next read =>
            split
            next room => exact .inr (.writes next here read room)
            next => exact .inl rfl
  | skip =>
      simp only [turn, skip]
      split
      next => exact .inl rfl
      next here =>
        split
        next => exact .inl rfl
        next pipe item left next =>
          split
          next unread => exact .inr (.skips next (by simpa using here) unread)
          next => exact .inl rfl
  | read pipe more =>
      simp only [turn, read]
      split
      next draining =>
        split
        next held =>
          split
          next gone => exact .inr (.ends draining held gone)
          next => exact .inl rfl
        next held => exact .inr (.takes draining held)
      next => exact .inl rfl
  | fail pipe =>
      simp only [turn, fail]
      split
      next draining => exact .inr (.fails draining)
      next => exact .inl rfl

/-! ## Nothing is lost -/

/-- The items for one pipe, in order. -/
def bound (pipe : ι) (items : List (ι × α)) : List α :=
  items.filterMap fun entry => if entry.1 = pipe then some entry.2 else none

@[simp] theorem bound_nil (pipe : ι) : bound pipe ([] : List (ι × α)) = [] := rfl

theorem bound_cons (pipe : ι) (entry : ι × α) (items : List (ι × α)) :
    bound pipe (entry :: items) =
      if entry.1 = pipe then entry.2 :: bound pipe items else bound pipe items := by
  by_cases h : entry.1 = pipe <;> simp [bound, h]

/-- What was read of a pipe is the start of what there was to write to it. Unless a read
of it failed, what was read, what is in it and what is yet to be written are together
all of that. A reader at the end has everything read, and a writer that is gone has
everything written unless a read failed. -/
structure Intact (items : List (ι × α)) (n : Net ι α) : Prop where
  begun : ∀ pipe, n.got pipe <+: bound pipe items
  whole : ∀ pipe, n.reader pipe ≠ .failed →
    n.got pipe ++ n.held pipe ++ bound pipe n.left = bound pipe items
  written : n.gone = true → n.left = [] ∨ ∃ pipe, n.reader pipe = .failed
  drained : ∀ pipe, n.reader pipe = .atEnd → n.gone = true ∧ n.held pipe = []

theorem intact_new (items : List (ι × α)) : Intact items (new items) :=
  ⟨fun _ => List.nil_prefix, fun _ _ => rfl, fun h => absurd h (by simp [new]),
    fun _ h => absurd h (by simp [new])⟩

section Intact

variable {items : List (ι × α)} {n n' : Net ι α} {capacity : ℕ} {t : Turn ι}

theorem Intact.turns (h : Intact items n) (hturn : Turns capacity n t n') : Intact items n' := by
  cases hturn with
  | leaves left here =>
      exact ⟨h.begun, h.whole, fun _ => .inl left, fun pipe hended =>
        ⟨rfl, (h.drained pipe hended).2⟩⟩
  | @dies pipe item left next here unread =>
      exact ⟨h.begun, h.whole, fun _ => .inr ⟨pipe, unread⟩, fun pipe hended =>
        ⟨rfl, (h.drained pipe hended).2⟩⟩
  | @writes pipe item left next here read room =>
      refine ⟨h.begun, fun other hread => ?_, fun hgone => absurd hgone (by simp [here]),
        fun other hended => absurd (h.drained other hended).1 (by simp [here])⟩
      have hwhole := h.whole other hread
      rw [next, bound_cons] at hwhole
      by_cases hother : other = pipe
      · subst hother
        simpa using hwhole
      · rw [if_neg (Ne.symm hother)] at hwhole
        simpa [Function.update_of_ne hother] using hwhole
  | @skips pipe item left next here unread =>
      refine ⟨h.begun, fun other hread => ?_, fun hgone => absurd hgone (by simp [here]),
        h.drained⟩
      have hwhole := h.whole other hread
      have hother : pipe ≠ other := fun he => hread (he ▸ unread)
      rwa [next, bound_cons, if_neg hother] at hwhole
  | @ends pipe more draining held gone =>
      refine ⟨h.begun, fun other hread => ?_, fun _ => ?_, fun other hended => ?_⟩
      · by_cases hother : other = pipe
        · exact h.whole other (by rw [hother, draining]; simp)
        · exact h.whole other (by simpa [Function.update_of_ne hother] using hread)
      · refine (h.written gone).imp id fun ⟨other, hfailed⟩ => ⟨other, ?_⟩
        have hother : other ≠ pipe := fun he => by simp [he, draining] at hfailed
        simpa [Function.update_of_ne hother] using hfailed
      · by_cases hother : other = pipe
        · exact ⟨gone, hother ▸ held⟩
        · exact h.drained other (by simpa [Function.update_of_ne hother] using hended)
  | @takes pipe more draining held =>
      have hwhole := h.whole pipe (by simp [draining])
      refine ⟨fun other => ?_, fun other hread => ?_, h.written, fun other hended => ?_⟩
      · by_cases hother : other = pipe
        · subst hother
          refine ⟨(n.held other).drop (more + 1) ++ bound other n.left, ?_⟩
          rw [← hwhole]
          simp [← List.append_assoc (List.take _ _)]
        · simpa [Function.update_of_ne hother] using h.begun other
      · by_cases hother : other = pipe
        · subst hother
          simpa using hwhole
        · simpa [Function.update_of_ne hother] using h.whole other hread
      · have hother : other ≠ pipe := fun he => by simp [he, draining] at hended
        simpa [Function.update_of_ne hother] using h.drained other hended
  | @fails pipe draining =>
      refine ⟨h.begun, fun other hread => ?_, fun hgone => .inr ⟨pipe, by simp⟩,
        fun other hended => ?_⟩
      · have hother : other ≠ pipe := fun he => hread (by simp [he])
        exact h.whole other (by simpa [Function.update_of_ne hother] using hread)
      · have hother : other ≠ pipe := fun he => by simp [he] at hended
        exact h.drained other (by simpa [Function.update_of_ne hother] using hended)

theorem Intact.turn (h : Intact items n) (t : Turn ι) : Intact items (n.turn capacity t) := by
  obtain hstill | hturn := turn_cases capacity n t
  · rwa [hstill]
  · exact h.turns hturn

theorem Intact.after (h : Intact items n) (ts : List (Turn ι)) :
    Intact items (n.after capacity ts) := by
  induction ts generalizing n with
  | nil => exact h
  | cons t ts ih => exact ih (h.turn t)

/-- Where no read failed, a reader that has seen the end has everything that was written
to its pipe. -/
theorem Intact.got_of_atEnd (h : Intact items n) (hread : ∀ pipe, n.reader pipe ≠ .failed)
    {pipe : ι} (hended : n.reader pipe = .atEnd) : n.got pipe = bound pipe items := by
  obtain ⟨hgone, hheld⟩ := h.drained pipe hended
  have hleft : n.left = [] := (h.written hgone).resolve_right fun ⟨other, hfailed⟩ =>
    hread other hfailed
  simpa [hheld, hleft] using h.whole pipe (hread pipe)

end Intact

/-- Only a failing read makes a reader fail. -/
theorem failed_turn {capacity : ℕ} {n : Net ι α} {t : Turn ι} {pipe : ι}
    (h : (n.turn capacity t).reader pipe = .failed) : n.reader pipe = .failed ∨ t = .fail pipe := by
  obtain hstill | hturn := turn_cases capacity n t
  · exact .inl (hstill ▸ h)
  · generalize n.turn capacity t = n' at h hturn
    cases hturn with
    | @ends other more draining held gone =>
        have hother : pipe ≠ other := fun he => by simp [he] at h
        exact .inl (by simpa [Function.update_of_ne hother] using h)
    | @fails other draining =>
        by_cases hother : pipe = other
        · exact .inr (hother ▸ rfl)
        · exact .inl (by simpa [Function.update_of_ne hother] using h)
    | _ => exact .inl h

/-! ## The end is reached -/

/-- The writer is gone and every reader is done. -/
structure Finished (n : Net ι α) : Prop where
  gone : n.gone = true
  read : ∀ pipe, n.reader pipe ≠ .draining

theorem gone_turn {n : Net ι α} (h : n.gone = true) (capacity : ℕ) (t : Turn ι) :
    (n.turn capacity t).gone = true := by
  obtain hstill | hturn := turn_cases capacity n t
  · rw [hstill]
    exact h
  · generalize n.turn capacity t = n' at hturn
    cases hturn with
    | leaves => rfl
    | dies => rfl
    | _ => exact h

/-- A reader that is done stays so, and takes nothing any more. -/
theorem done_turn {n : Net ι α} {pipe : ι} (h : n.reader pipe ≠ .draining) (capacity : ℕ)
    (t : Turn ι) : (n.turn capacity t).reader pipe ≠ .draining ∧
      (n.turn capacity t).got pipe = n.got pipe := by
  obtain hstill | hturn := turn_cases capacity n t
  · rw [hstill]
    exact ⟨h, rfl⟩
  · generalize n.turn capacity t = n' at hturn
    cases hturn with
    | @ends other more draining held gone =>
        have hother : pipe ≠ other := fun he => h (he ▸ draining)
        exact ⟨by simpa [Function.update_of_ne hother] using h, rfl⟩
    | @takes other more draining held =>
        have hother : pipe ≠ other := fun he => h (he ▸ draining)
        exact ⟨h, by simp [Function.update_of_ne hother]⟩
    | @fails other draining =>
        have hother : pipe ≠ other := fun he => h (he ▸ draining)
        exact ⟨by simpa [Function.update_of_ne hother] using h, rfl⟩
    | _ => exact ⟨h, rfl⟩

theorem Finished.after {n : Net ι α} (h : n.Finished) (capacity : ℕ) (ts : List (Turn ι)) :
    (n.after capacity ts).Finished := by
  induction ts generalizing n with
  | nil => exact h
  | cons t ts ih =>
      exact ih ⟨gone_turn h.gone capacity t, fun pipe => (done_turn (h.read pipe) capacity t).1⟩

/-- Where nobody's turn does anything, everybody is done: a full pipe has a reader that
can take something, or none any more. -/
theorem finished_of_still {n : Net ι α} {items : List (ι × α)} {capacity : ℕ}
    (h : Intact items n) (hcapacity : 0 < capacity) (hwrite : n.write capacity = n)
    (hread : ∀ pipe, ∃ more, n.read pipe more = n) : n.Finished := by
  have hempty : ∀ pipe, n.reader pipe = .draining → n.held pipe = [] := by
    intro pipe hdraining
    by_contra hheld
    obtain ⟨more, hstill⟩ := hread pipe
    have hgot := congrArg (fun n => (Net.got n pipe).length) hstill
    have hpos := List.length_pos_iff.2 hheld
    simp only [read, if_pos hdraining, if_neg hheld, Function.update_self, List.length_append,
      List.length_take] at hgot
    omega
  have hgone : n.gone = true := by
    by_contra hgone
    unfold write at hwrite
    rw [if_neg hgone] at hwrite
    split at hwrite
    next =>
      have hleft := congrArg Net.gone hwrite
      exact hgone hleft.symm
    next pipe item left hleft =>
      split at hwrite
      next =>
        have hdied := congrArg Net.gone hwrite
        exact hgone hdied.symm
      next hreader =>
        have hdraining : n.reader pipe = .draining := by
          cases hstate : n.reader pipe with
          | draining => rfl
          | atEnd => exact absurd (h.drained pipe hstate).1 hgone
          | failed => exact absurd hstate hreader
        have hroom : (n.held pipe).length < capacity := by
          simpa [hempty pipe hdraining] using hcapacity
        rw [if_pos hroom] at hwrite
        have hshorter := congrArg (fun n => (Net.left n).length) hwrite
        simp [hleft] at hshorter
  refine ⟨hgone, fun pipe hdraining => ?_⟩
  obtain ⟨more, hstill⟩ := hread pipe
  have hended := congrArg (fun n => Net.reader n pipe) hstill
  simp [read, hdraining, hempty pipe hdraining, hgone] at hended

/-! ### How much is left to do -/

section Work

variable [Fintype ι]

/-- A bound on the turns that still do something: an item is written once and read
once at most, and every party leaves once. -/
def work (n : Net ι α) : ℕ :=
  2 * n.left.length + (if n.gone then 0 else 1) + ∑ pipe, (n.held pipe).length +
    ∑ pipe, if n.reader pipe = .draining then 1 else 0

/-- Changing one of the values that are measured and summed up. -/
theorem sum_update {β : Type*} (size : β → ℕ) (f : ι → β) (i : ι) (b : β) :
    ∑ j, size (Function.update f i b j) + size (f i) = ∑ j, size (f j) + size b := by
  have hnew := Finset.add_sum_erase Finset.univ (fun j => size (Function.update f i b j))
    (Finset.mem_univ i)
  have hold := Finset.add_sum_erase Finset.univ (fun j => size (f j)) (Finset.mem_univ i)
  have hrest : ∑ j ∈ Finset.univ.erase i, size (Function.update f i b j) =
      ∑ j ∈ Finset.univ.erase i, size (f j) :=
    Finset.sum_congr rfl fun j hj => by rw [Function.update_of_ne (Finset.ne_of_mem_erase hj)]
  simp only [Function.update_self] at hnew
  omega

/-- A reader that is done is one less to wait for. -/
theorem sum_done {reader : ι → Reader} {pipe : ι} (h : reader pipe = .draining) {done : Reader}
    (hdone : done ≠ .draining) :
    (∑ other, if Function.update reader pipe done other = .draining then 1 else 0) + 1 =
      ∑ other, if reader other = .draining then 1 else 0 := by
  have hsum := sum_update (fun state => if state = .draining then 1 else 0) reader pipe done
  simpa [h, hdone] using hsum

/-- A turn that does anything leaves less to do. -/
theorem work_turn (n : Net ι α) (capacity : ℕ) (t : Turn ι) :
    n.turn capacity t = n ∨ (n.turn capacity t).work < n.work := by
  obtain hstill | hturn := turn_cases capacity n t
  · exact .inl hstill
  · right
    generalize n.turn capacity t = n' at hturn
    cases hturn with
    | leaves left here => simp [work, here]
    | dies next here unread => simp [work, here]
    | @writes pipe item left next here read room =>
        -- Two turns fewer for the item, and one more to read it.
        have hsum := sum_update List.length n.held pipe (n.held pipe ++ [item])
        rw [List.length_append, List.length_singleton] at hsum
        simp only [work, next, List.length_cons]
        omega
    | skips next here unread =>
        simp only [work, next, List.length_cons]
        omega
    | ends draining held gone =>
        have hsum := sum_done draining (show Reader.atEnd ≠ .draining by simp)
        simp only [work]
        omega
    | @takes pipe more draining held =>
        have hsum := sum_update List.length n.held pipe ((n.held pipe).drop (more + 1))
        have hpos := List.length_pos_iff.2 held
        rw [List.length_drop] at hsum
        simp only [work]
        omega
    | fails draining =>
        have hsum := sum_done draining (show Reader.failed ≠ .draining by simp)
        simp only [work]
        omega

theorem work_after_le (capacity : ℕ) (n : Net ι α) (ts : List (Turn ι)) :
    (n.after capacity ts).work ≤ n.work := by
  induction ts generalizing n with
  | nil => exact Nat.le_refl _
  | cons t ts ih =>
      obtain hstill | hless := work_turn n capacity t
      · rw [after_cons, hstill]
        exact ih n
      · exact Nat.le_trans (ih _) (Nat.le_of_lt hless)

/-- Turns that leave as much to do as before did nothing, each of them. -/
theorem still_of_work {capacity : ℕ} {n : Net ι α} {ts : List (Turn ι)}
    (h : n.work ≤ (n.after capacity ts).work) : ∀ t ∈ ts, n.turn capacity t = n := by
  induction ts with
  | nil => simp
  | cons t ts ih =>
      rw [after_cons] at h
      obtain hstill | hless := work_turn n capacity t
      · rw [hstill] at h
        exact List.forall_mem_cons.2 ⟨hstill, ih h⟩
      · have hle := work_after_le capacity (n.turn capacity t) ts
        omega

/-- Turns among which everybody has one. -/
def Round (ts : List (Turn ι)) : Prop := .write ∈ ts ∧ ∀ pipe, ∃ more, .read pipe more ∈ ts

/-- As many rounds as there is work bring everybody to the end, whatever the order of
the turns in each. -/
theorem finished_of_rounds {capacity : ℕ} (hcapacity : 0 < capacity) {items : List (ι × α)}
    {n : Net ι α} (h : Intact items n) {rounds : List (List (Turn ι))}
    (hrounds : ∀ ts ∈ rounds, Round ts) (henough : n.work ≤ rounds.length) :
    (n.after capacity rounds.flatten).Finished := by
  induction rounds generalizing n with
  | nil =>
      simp only [work, List.length_nil] at henough
      have hzero : ∑ pipe, (if n.reader pipe = .draining then 1 else 0) = 0 := by omega
      have hgone : (if n.gone then 0 else 1) = 0 := by omega
      refine ⟨by simpa using hgone, fun pipe hdraining => ?_⟩
      have hpipe := Finset.sum_eq_zero_iff.1 hzero pipe (Finset.mem_univ pipe)
      have hpipe : n.reader pipe ≠ .draining := by simpa using hpipe
      exact hpipe hdraining
  | cons ts rounds ih =>
      obtain ⟨hround, hrounds⟩ := List.forall_mem_cons.1 hrounds
      rw [List.flatten_cons, after_append]
      by_cases hless : (n.after capacity ts).work < n.work
      · exact ih (h.after ts) hrounds (by simp only [List.length_cons] at henough; omega)
      · have hstill := still_of_work (Nat.le_of_not_lt hless)
        have hfinished : n.Finished := finished_of_still h hcapacity (hstill .write hround.1)
          fun pipe => (hround.2 pipe).imp fun more hmem => hstill (.read pipe more) hmem
        exact (hfinished.after capacity ts).after capacity rounds.flatten

end Work

end Net

end Pipes
