import Mathlib.Data.List.Basic
import Mathlib.Data.List.Induction
import Mathlib.Data.List.Nodup
import Mathlib.Data.List.Perm.Subperm
import Mathlib.Data.List.Forall2

/-!
# Statements about traces

Three shapes cover most of what is said of a trace: a property of every event
relative to what came before it, the last event that has a say in some matter, and
two events of a kind.
-/
namespace Traces

variable {ω β : Type*}

/-! ## Every event, with its past -/

/-- Every event of a trace has a property relative to the events before it. -/
def Everywhere (P : List ω → ω → Prop) (tr : List ω) : Prop :=
  ∀ pre e post, tr = pre ++ e :: post → P pre e

@[simp] theorem everywhere_nil (P : List ω → ω → Prop) : Everywhere P [] := by
  intro pre e post h
  simp at h

/-- An event that is not in the first of two traces comes after it. -/
theorem eq_append_of_notMem {first rest pre post : List ω} {e : ω}
    (he : first ++ rest = pre ++ e :: post) (hnot : e ∉ first) :
    ∃ pre', pre = first ++ pre' ∧ rest = pre' ++ e :: post := by
  obtain ⟨pre', rfl, hrest⟩ | ⟨mid, rfl, hmid⟩ := List.append_eq_append_iff.1 he
  · exact ⟨pre', rfl, hrest⟩
  · cases mid with
    | nil => exact ⟨[], by simp, by simpa using hmid.symm⟩
    | cons b mid =>
        obtain ⟨rfl, -⟩ := List.cons.inj hmid
        exact absurd (by simp) hnot

theorem everywhere_append {P : List ω → ω → Prop} {tr es : List ω} :
    Everywhere P (tr ++ es) ↔ Everywhere P tr ∧ Everywhere (fun pre e => P (tr ++ pre) e) es := by
  constructor
  · intro h
    refine ⟨fun pre e post he => h pre e (post ++ es) (by simp [he]), fun pre e post he => ?_⟩
    exact h (tr ++ pre) e post (by simp [he])
  · rintro ⟨hold, hnew⟩ pre e post he
    rcases List.append_eq_append_iff.1 he with ⟨mid, rfl, hmid⟩ | ⟨mid, rfl, hmid⟩
    · exact hnew mid e post hmid
    · cases mid with
      | nil => simpa using hnew [] e post (by simpa using hmid.symm)
      | cons a mid =>
          obtain ⟨rfl, -⟩ := List.cons.inj hmid
          exact hold pre e mid rfl

@[simp] theorem everywhere_singleton {P : List ω → ω → Prop} {e : ω} :
    Everywhere P [e] ↔ P [] e := by
  constructor
  · exact fun h => h [] e [] rfl
  · intro h pre e' post he
    obtain ⟨rfl, he⟩ | ⟨pre', rfl, he⟩ := List.cons_eq_append_iff.1 he
    · obtain ⟨rfl, -⟩ := List.cons.inj he
      exact h
    · simp at he

/-- Events that have the property whatever came before. -/
theorem everywhere_of_forall {P : List ω → ω → Prop} {tr : List ω}
    (h : ∀ e ∈ tr, ∀ pre, P pre e) : Everywhere P tr := by
  rintro pre e post rfl
  exact h e (by simp) pre

theorem everywhere_map {α : Type*} {P : List ω → ω → Prop} {f : α → ω} {l : List α} :
    Everywhere P (l.map f) ↔ Everywhere (fun pre a => P (pre.map f) (f a)) l := by
  constructor
  · rintro h pre a post rfl
    exact h (pre.map f) (f a) (post.map f) (by simp)
  · intro h pre e post he
    obtain ⟨before, rest, rfl, rfl, hrest⟩ := List.map_eq_append_iff.1 he
    obtain ⟨a, after, rfl, rfl, rfl⟩ := List.map_eq_cons_iff.1 hrest
    exact h before a after rfl

/-- The past as some of its events. -/
theorem Everywhere.of_filter {P Q : List ω → ω → Prop} {p : ω → Bool} {tr : List ω}
    (h : Everywhere P (tr.filter p))
    (hQ : ∀ pre e, (p e = true → P (pre.filter p) e) → Q pre e) : Everywhere Q tr := by
  rintro pre e post rfl
  refine hQ pre e fun he => h (pre.filter p) e (post.filter p) ?_
  simp [he]

/-! ## The last event that counts -/

/-- `f` says which events count and what for; the last one of the trace comes
right after `before` and counts for `b`. -/
def Last (f : ω → Option β) (tr before : List ω) (b : β) : Prop :=
  ∃ e after, tr = before ++ e :: after ∧ f e = some b ∧ ∀ e' ∈ after, f e' = none

theorem last_snoc {f : ω → Option β} {e : ω} {b : β} (tr : List ω) (he : f e = some b) :
    Last f (tr ++ [e]) tr b :=
  ⟨e, [], rfl, he, by simp⟩

/-- Events that do not count leave the last one where it is. -/
theorem Last.append {f : ω → Option β} {tr before es : List ω} {b : β} (h : Last f tr before b)
    (hes : ∀ e ∈ es, f e = none) : Last f (tr ++ es) before b := by
  obtain ⟨e, after, rfl, he, hafter⟩ := h
  refine ⟨e, after ++ es, by simp, he, fun e' h' => ?_⟩
  exact (List.mem_append.1 h').elim (hafter e') (hes e')

/-- The last event that counts, found among those that may. -/
theorem Last.of_filter {f : ω → Option β} {p : ω → Bool} {tr before : List ω} {b : β}
    (h : Last f (tr.filter p) before b) (hp : ∀ e b, f e = some b → p e = true) :
    ∃ before', Last f tr before' b := by
  obtain ⟨e, after, heq, he, hafter⟩ := h
  obtain ⟨first, rest, rfl, -, hrest⟩ := List.filter_eq_append_iff.1 heq
  obtain ⟨skipped, last, rfl, -, -, hlast⟩ := List.filter_eq_cons_iff.1 hrest
  refine ⟨first ++ skipped, e, last, by simp, he, fun e' he' => ?_⟩
  by_cases hkept : p e' = true
  · exact hafter e' (hlast ▸ List.mem_filter.2 ⟨he', hkept⟩)
  · exact Option.eq_none_iff_forall_ne_some.2 fun b hb => hkept (hp e' b hb)

theorem Last.unique {f : ω → Option β} {tr before before' : List ω} {b b' : β}
    (h : Last f tr before b) (h' : Last f tr before' b') : before = before' ∧ b = b' := by
  obtain ⟨e, after, rfl, he, hafter⟩ := h
  obtain ⟨e', after', heq, he', hafter'⟩ := h'
  rcases List.append_eq_append_iff.1 heq with ⟨mid, rfl, hmid⟩ | ⟨mid, rfl, hmid⟩
  · cases mid with
    | nil =>
        obtain ⟨rfl, -⟩ := List.cons.inj hmid
        exact ⟨by simp, Option.some.inj (he.symm.trans he')⟩
    | cons a mid =>
        obtain ⟨rfl, rfl⟩ := List.cons.inj hmid
        have := hafter e' (by simp)
        simp [he'] at this
  · cases mid with
    | nil =>
        obtain ⟨rfl, -⟩ := List.cons.inj hmid
        exact ⟨by simp, Option.some.inj (he.symm.trans he')⟩
    | cons a mid =>
        obtain ⟨rfl, rfl⟩ := List.cons.inj hmid
        have := hafter' e (by simp)
        simp [he] at this

/-! ## Two events of a kind -/

/-- Two of a kind: two that differ, or one that comes twice. -/
theorem two_le_countP [DecidableEq ω] {mine : ω → Prop} [DecidablePred mine] {l : List ω} :
    2 ≤ l.countP mine ↔
      (∃ a b, a ≠ b ∧ (mine a ∧ a ∈ l) ∧ mine b ∧ b ∈ l) ∨ ∃ a, mine a ∧ 2 ≤ l.count a := by
  rw [List.countP_eq_length_filter]
  constructor
  · intro htwo
    by_cases hdistinct : (l.filter mine).Nodup
    · rcases hl : l.filter mine with _ | ⟨a, _ | ⟨b, rest⟩⟩
      · simp [hl] at htwo
      · simp [hl] at htwo
      · have ha : a ∈ l.filter mine := by simp [hl]
        have hb : b ∈ l.filter mine := by simp [hl]
        rw [hl, List.nodup_cons] at hdistinct
        refine .inl ⟨a, b, fun hab => hdistinct.1 (by simp [hab]), ?_, ?_⟩
        · simpa [and_comm] using ha
        · simpa [and_comm] using hb
    · simp only [List.nodup_iff_count_le_one, not_forall, Nat.not_le] at hdistinct
      obtain ⟨a, ha⟩ := hdistinct
      have hmine : mine a := by
        have hmem : a ∈ l.filter mine := List.count_pos_iff.1 (by omega)
        simpa using (List.mem_filter.1 hmem).2
      rw [List.count_filter (by simpa using hmine)] at ha
      exact .inr ⟨a, hmine, ha⟩
  · rintro (⟨a, b, hne, ⟨ha, hal⟩, hb, hbl⟩ | ⟨a, ha, hcount⟩)
    · have hsub : [a, b] ⊆ l.filter mine := by simp [ha, hal, hb, hbl]
      exact (List.subperm_of_subset (by simp [hne]) hsub).length_le
    · rw [← List.count_filter (p := mine) (by simpa using ha)] at hcount
      exact Nat.le_trans hcount List.count_le_length

/-- Two events of a kind with as many of the kind before them are the same one. -/
theorem before_eq_of_countP {p : ω → Bool} {tr before before' after after' : List ω} {e e' : ω}
    (h : tr = before ++ e :: after) (h' : tr = before' ++ e' :: after') (he : p e = true)
    (he' : p e' = true) (hn : before.countP p = before'.countP p) : before = before' := by
  rw [h] at h'
  rcases List.append_eq_append_iff.1 h' with ⟨mid, rfl, hmid⟩ | ⟨mid, rfl, hmid⟩
  · cases mid with
    | nil => simp
    | cons a mid =>
        obtain ⟨rfl, -⟩ := List.cons.inj hmid
        simp [he] at hn
  · cases mid with
    | nil => simp
    | cons a mid =>
        obtain ⟨rfl, -⟩ := List.cons.inj hmid
        simp [he'] at hn

/-! ## Two traces -/

/-- Traces that look the same through a filter, event by event. -/
theorem forall₂_of_filterMap {f : ω → Option β} {tr tr' : List ω}
    (h : tr.filterMap f = tr'.filterMap f) {P : ω → ω → Prop}
    (hP : ∀ pre e post pre' e' post' b, tr = pre ++ e :: post → tr' = pre' ++ e' :: post' →
      pre.filterMap f = pre'.filterMap f → f e = some b → f e' = some b → P e e') :
    List.Forall₂ P (tr.filter fun e => (f e).isSome) (tr'.filter fun e => (f e).isSome) := by
  induction tr generalizing tr' with
  | nil =>
      have hnone : tr'.filter (fun e => (f e).isSome) = [] := by
        refine List.filter_eq_nil_iff.2 fun e he => ?_
        simp [List.filterMap_eq_nil_iff.1 h.symm e he]
      rw [hnone]
      exact .nil
  | cons e tr ih =>
      cases hf : f e with
      | none =>
          rw [List.filterMap_cons_none hf] at h
          rw [List.filter_cons_of_neg (by simp [hf])]
          refine ih h fun pre e₁ post pre' e₁' post' b he he' hpre => ?_
          exact hP (e :: pre) e₁ post pre' e₁' post' b (by rw [he]; rfl) he'
            (by rw [List.filterMap_cons_none hf, hpre])
      | some b =>
          rw [List.filterMap_cons_some hf] at h
          obtain ⟨skipped, e', rest, rfl, hskipped, he', hrest⟩ :=
            List.filterMap_eq_cons_iff.1 h.symm
          have hnone : skipped.filter (fun e => (f e).isSome) = [] :=
            List.filter_eq_nil_iff.2 fun e he => by simp [hskipped e he]
          have hquiet : skipped.filterMap f = [] := List.filterMap_eq_nil_iff.2 hskipped
          rw [List.filter_append, hnone, List.nil_append, List.filter_cons_of_pos (by simp [hf]),
            List.filter_cons_of_pos (by simp [he'])]
          refine .cons (hP [] e tr skipped e' rest b rfl rfl hquiet.symm hf he')
            (ih hrest.symm fun pre e₁ post pre' e₁' post' b' he₁ he₁' hpre => ?_)
          refine hP (e :: pre) e₁ post (skipped ++ e' :: pre') e₁' post' b' (by rw [he₁]; rfl)
            (by rw [he₁']; simp) ?_
          rw [List.filterMap_append, hquiet, List.nil_append, List.filterMap_cons_some hf,
            List.filterMap_cons_some he', hpre]

/-- Lists whose elements are related in one respect and equal in another. -/
theorem forall₂_of_map {α α' γ γ' : Type*} {R : γ → γ' → Prop} {f : α → γ} {f' : α' → γ'}
    {g : α → β} {g' : α' → β} {l : List α} {l' : List α'}
    (hrel : List.Forall₂ R (l.map f) (l'.map f')) (heq : l.map g = l'.map g') :
    List.Forall₂ (fun a a' => R (f a) (f' a') ∧ g a = g' a') l l' := by
  rw [List.forall₂_map_left_iff, List.forall₂_map_right_iff] at hrel
  induction hrel with
  | nil => exact .nil
  | cons hone _ ih =>
      obtain ⟨hsame, hrest⟩ := List.cons.inj heq
      exact .cons ⟨hone, hsame⟩ (ih hrest)

end Traces
