import HeadsetBattery.Library.Runs
import HeadsetBattery.Library.Traces
import HeadsetBattery.Maxwell.Wedge
import Mathlib.Data.List.Pairwise

/-!
# The wedge watch over any history

A history is a list of calls at nondecreasing instants, with whatever the sound
card answers. Its trace says what every call returned and when the card was
read. The watch's three instants turn out to be what the trace says of the last
time a dongle was heard, the last look and the last warning, and the laws of
the watch are statements about the trace alone.
-/
namespace HeadsetBattery.Maxwell

namespace WedgeWatch

/-- A call on the watch; `probe` is what the sound card says if it is read. -/
inductive Call where
  | heard (now : ℕ)
  | check (now : ℕ) (probe : Option Bool)
  deriving DecidableEq, Repr

def Call.now : Call → ℕ
  | .heard now | .check now _ => now

/-- What a call lets out: whether the recovery is worth a line, a look at the
sound card, and what a check returns. -/
inductive Told where
  | heard (now : ℕ) (recovered : Bool)
  | probed (now : ℕ) (answer : Option Bool)
  | checked (now : ℕ) (warning : Option ℕ)
  deriving DecidableEq, Repr

namespace Told

def now : Told → ℕ
  | heard now _ | probed now _ | checked now _ => now

def heard? : Told → Option ℕ
  | heard now _ => some now
  | _ => none

def look? : Told → Option (ℕ × Option Bool)
  | probed now answer => some (now, answer)
  | _ => none

end Told

def step (w : WedgeWatch) : Call → WedgeWatch × List Told
  | .heard now => ((w.heard now).1, [.heard now (w.heard now).2])
  | .check now probe =>
      ((w.check now probe).1,
        (if w.probes now then [.probed now probe] else []) ++ [.checked now (w.check now probe).2])

/-- A history from the moment the watch begins. -/
def run (start : ℕ) (calls : List Call) : WedgeWatch × List Told :=
  Runs.exec step (new start) calls

/-! ## What a trace says -/

/-- When a dongle was last heard, or when the watch began. -/
def lastHeard (start : ℕ) (tr : List Told) : ℕ := (tr.filterMap Told.heard?).getLastD start

/-- A warning was given at `t`, and no dongle was heard since. -/
def WarnedSince (tr : List Told) (t : ℕ) : Prop :=
  ∃ before silence after, tr = before ++ .checked t (some silence) :: after ∧
    ∀ e ∈ after, e.heard? = none

/-- What the watch promises of an event, given the trace before it. -/
def Lawful (start : ℕ) (tr : List Told) : Told → Prop
  | .heard _ recovered => recovered = true ↔ ∃ t, WarnedSince tr t
  | .probed now _ =>
      (∀ t answer, .probed t answer ∈ tr → t + probeEvery ≤ now) ∧
        lastHeard start tr + wedgeSilence ≤ now
  | .checked now warning =>
      (∀ silence ∈ warning,
        now = lastHeard start tr + silence ∧ wedgeSilence ≤ silence ∧
          (∃ t, .probed t (some true) ∈ tr ∧ t ≤ now ∧ now < t + probeEvery) ∧
          ∀ t, WarnedSince tr t → t + wedgeReminder ≤ now) ∧
      (lastHeard start tr + wedgeSilence ≤ now →
        (∃ before t, Traces.Last Told.look? tr before (t, some true) ∧ now < t + probeEvery) →
        (∀ t, WarnedSince tr t → t + wedgeReminder ≤ now) → warning.isSome)

@[simp] theorem lastHeard_nil (start : ℕ) : lastHeard start [] = start := rfl

theorem lastHeard_snoc (start : ℕ) (tr : List Told) (e : Told) :
    lastHeard start (tr ++ [e]) = e.heard?.getD (lastHeard start tr) := by
  cases e <;> simp [lastHeard, Told.heard?, List.getLastD_eq_getLast?]

theorem not_warnedSince_nil (t : ℕ) : ¬WarnedSince [] t := by
  rintro ⟨before, silence, after, htr, -⟩
  simp at htr

/-- The warnings that count after one more event: none after a dongle is heard, and
otherwise those before it and the one it gives. -/
theorem warnedSince_snoc {tr : List Told} {e : Told} {t : ℕ} :
    WarnedSince (tr ++ [e]) t ↔
      (WarnedSince tr t ∧ e.heard? = none) ∨ ∃ silence, e = .checked t (some silence) := by
  constructor
  · rintro ⟨before, silence, after, htr, hafter⟩
    cases after using List.reverseRecOn with
    | nil =>
        obtain ⟨-, he⟩ := List.append_inj' htr rfl
        exact .inr ⟨silence, List.singleton_inj.1 he⟩
    | append_singleton after last =>
        rw [← List.cons_append, ← List.append_assoc] at htr
        obtain ⟨rfl, he⟩ := List.append_inj' htr rfl
        obtain rfl := List.singleton_inj.1 he
        refine .inl ⟨⟨before, silence, after, rfl, fun e' he' => ?_⟩, ?_⟩
        · exact hafter e' (List.mem_append_left _ he')
        · exact hafter e (by simp)
  · rintro (⟨⟨before, silence, after, rfl, hafter⟩, he⟩ | ⟨silence, rfl⟩)
    · refine ⟨before, silence, after ++ [e], by simp, fun e' he' => ?_⟩
      rcases List.mem_append.1 he' with hold | hnew
      · exact hafter e' hold
      · rwa [List.mem_singleton.1 hnew]
    · exact ⟨tr, silence, [], rfl, by simp⟩

/-! ## The state of a watch is what its trace says -/

/-- What the three instants of a watch owe to the events before: each is one of
theirs, and nothing of its kind came later that still counts. -/
structure Follows (start : ℕ) (tr : List Told) (w : WedgeWatch) : Prop where
  heard : w.heardAt = lastHeard start tr
  warned : ∀ t ∈ w.warnedAt, WarnedSince tr t
  latest : ∀ t, WarnedSince tr t → ∃ t' ∈ w.warnedAt, t ≤ t'
  probed : ∀ look ∈ w.probed, .probed look.1 look.2 ∈ tr
  looked : ∀ t answer, .probed t answer ∈ tr → t ≤ w.heardAt ∨ ∃ look ∈ w.probed, t ≤ look.1
  current : ∀ before look, Traces.Last Told.look? tr before look →
    look.1 ≤ w.heardAt ∨ w.probed = some look

/-- One event, as the watch takes it in. -/
def after (w : WedgeWatch) : Told → WedgeWatch
  | .heard now _ => (w.heard now).1
  | .probed now answer => { w with probed := some (now, answer) }
  | .checked now warning => { w with warnedAt := if warning.isSome then some now else w.warnedAt }

theorem follows_new (start : ℕ) : Follows start [] (new start) where
  heard := rfl
  warned t ht := by cases ht
  latest t ht := absurd ht (not_warnedSince_nil t)
  probed look hl := by cases hl
  looked t answer ht := by simp at ht
  current before look hl := by
    obtain ⟨e, rest, htr, -⟩ := hl
    simp at htr

/-- An event that is no look at the sound card leaves the last one where it is. -/
theorem last_look_of_snoc {tr before : List Told} {e : Told} {look : ℕ × Option Bool}
    (h : Traces.Last Told.look? (tr ++ [e]) before look) (he : e.look? = none) :
    Traces.Last Told.look? tr before look := by
  obtain ⟨e', rest, htr, hlook, hrest⟩ := h
  cases rest using List.reverseRecOn with
  | nil =>
      obtain ⟨-, hlast⟩ := List.append_inj' htr rfl
      rw [← List.singleton_inj.1 hlast, he] at hlook
      cases hlook
  | append_singleton rest last =>
      rw [← List.cons_append, ← List.append_assoc] at htr
      obtain ⟨rfl, -⟩ := List.append_inj' htr rfl
      exact ⟨e', rest, rfl, hlook, fun e'' he'' => hrest e'' (List.mem_append_left _ he'')⟩

section snoc

variable {start : ℕ} {tr : List Told} {w : WedgeWatch}

/-- Hearing a dongle forgets the looks and the warnings before it. -/
theorem Follows.heard_snoc (h : Follows start tr w) {now : ℕ}
    (hbound : ∀ e ∈ tr, e.now ≤ now) (recovered : Bool) :
    Follows start (tr ++ [.heard now recovered]) (w.after (.heard now recovered)) where
  heard := by rw [lastHeard_snoc]; rfl
  warned t ht := by cases ht
  latest t ht := by simp [warnedSince_snoc, Told.heard?] at ht
  probed look hl := by cases hl
  looked t answer ht := by
    have hmem : .probed t answer ∈ tr := by simpa using ht
    exact .inl (hbound _ hmem)
  current before look hl := by
    obtain ⟨e, rest, rfl, hlook, -⟩ := last_look_of_snoc hl rfl
    have := hbound e (by simp)
    cases e with
    | probed t answer =>
        obtain rfl := Option.some.inj hlook
        exact .inl this
    | heard t recovered => cases hlook
    | checked t warning => cases hlook

/-- A look at the sound card replaces the last one. -/
theorem Follows.probed_snoc (h : Follows start tr w) {now : ℕ}
    (hbound : ∀ e ∈ tr, e.now ≤ now) (answer : Option Bool) :
    Follows start (tr ++ [.probed now answer]) (w.after (.probed now answer)) where
  heard := by rw [lastHeard_snoc]; exact h.heard
  warned t ht := warnedSince_snoc.2 (.inl ⟨h.warned t ht, rfl⟩)
  latest t ht := by
    rcases warnedSince_snoc.1 ht with ⟨hold, -⟩ | ⟨silence, he⟩
    · exact h.latest t hold
    · cases he
  probed look hl := by
    obtain rfl := Option.some.inj hl
    simp
  looked t answer' ht := by
    refine .inr ⟨(now, answer), rfl, ?_⟩
    rcases List.mem_append.1 ht with hold | hnew
    · exact hbound _ hold
    · obtain ⟨rfl, -⟩ := Told.probed.inj (List.mem_singleton.1 hnew)
      exact le_rfl
  current before look hl := by
    have hnew : Traces.Last Told.look? (tr ++ [.probed now answer]) tr (now, answer) :=
      Traces.last_snoc tr rfl
    exact .inr (congrArg some (hnew.unique hl).2)

/-- A check that warns is the last warning; one that does not changes nothing. -/
theorem Follows.checked_snoc (h : Follows start tr w) {now : ℕ}
    (hbound : ∀ e ∈ tr, e.now ≤ now) (warning : Option ℕ) :
    Follows start (tr ++ [.checked now warning]) (w.after (.checked now warning)) where
  heard := by rw [lastHeard_snoc]; exact h.heard
  warned t ht := by
    refine warnedSince_snoc.2 ?_
    cases warning with
    | none => exact .inl ⟨h.warned t ht, rfl⟩
    | some silence =>
        obtain rfl := Option.some.inj ht
        exact .inr ⟨silence, rfl⟩
  latest t ht := by
    rcases warnedSince_snoc.1 ht with ⟨hold, -⟩ | ⟨silence, he⟩
    · cases warning with
      | none => exact h.latest t hold
      | some silence =>
          obtain ⟨before, silence', rest, rfl, -⟩ := hold
          exact ⟨now, rfl, hbound (.checked t (some silence')) (by simp)⟩
    · obtain ⟨rfl, rfl⟩ := Told.checked.inj he
      exact ⟨now, rfl, le_rfl⟩
  probed look hl := List.mem_append_left _ (h.probed look hl)
  looked t answer ht := h.looked t answer (by simpa using ht)
  current before look hl := h.current before look (last_look_of_snoc hl rfl)

theorem Follows.snoc (h : Follows start tr w) {e : Told} (hbound : ∀ e' ∈ tr, e'.now ≤ e.now) :
    Follows start (tr ++ [e]) (w.after e) := by
  cases e with
  | heard now recovered => exact h.heard_snoc hbound recovered
  | probed now answer => exact h.probed_snoc hbound answer
  | checked now warning => exact h.checked_snoc hbound warning

/-! ## Every event is lawful -/

theorem Follows.lawful_heard (h : Follows start tr w) (now : ℕ) :
    Lawful start tr (.heard now (w.heard now).2) := by
  change w.warnedAt.isSome = true ↔ _
  constructor
  · intro hsome
    obtain ⟨t, ht⟩ := Option.isSome_iff_exists.1 hsome
    exact ⟨t, h.warned t ht⟩
  · rintro ⟨t, ht⟩
    obtain ⟨t', ht', -⟩ := h.latest t ht
    exact Option.isSome_of_mem ht'

/-- The card is read once the silence has lasted, and the last look is too old to
stand. -/
theorem probes_spec {w : WedgeWatch} {now : ℕ} (h : w.probes now = true) :
    wedgeSilence ≤ w.silence now ∧ ∀ look ∈ w.probed, probeEvery ≤ now - look.1 := by
  simp only [probes, Bool.and_eq_true, decide_eq_true_eq] at h
  refine ⟨h.1, fun look hl => ?_⟩
  by_contra hrecent
  have hstands : w.recentProbe now = some look.2 := by
    simp only [recentProbe, Option.mem_def.1 hl]
    exact if_pos (Nat.lt_of_not_le hrecent)
  simp [hstands] at h

theorem Follows.lawful_probed (h : Follows start tr w) {now : ℕ} (hprobes : w.probes now = true)
    (answer : Option Bool) : Lawful start tr (.probed now answer) := by
  obtain ⟨hlong, hold⟩ := probes_spec hprobes
  have hle := probeEvery_le_wedgeSilence
  have hpos : 0 < wedgeSilence := by decide
  have hsilent : w.heardAt + wedgeSilence ≤ now := by
    unfold silence at hlong
    omega
  refine ⟨fun t answer' ht => ?_, h.heard ▸ hsilent⟩
  obtain hbefore | ⟨look, hl, hlater⟩ := h.looked t answer' ht
  · omega
  · have := hold look hl
    have hevery : 0 < probeEvery := by decide
    omega

end snoc

/-- The watch a check decides on: with a new look at the sound card if it takes one. -/
def looking (w : WedgeWatch) (now : ℕ) (probe : Option Bool) : WedgeWatch :=
  if w.probes now then w.after (.probed now probe) else w

@[simp] theorem looking_heardAt (w : WedgeWatch) (now : ℕ) (probe : Option Bool) :
    (w.looking now probe).heardAt = w.heardAt := by
  unfold looking
  split <;> rfl

@[simp] theorem looking_warnedAt (w : WedgeWatch) (now : ℕ) (probe : Option Bool) :
    (w.looking now probe).warnedAt = w.warnedAt := by
  unfold looking
  split <;> rfl

@[simp] theorem looking_probed (w : WedgeWatch) (now : ℕ) (probe : Option Bool) :
    (w.looking now probe).probed = if w.probes now then some (now, probe) else w.probed := by
  unfold looking
  split <;> rfl

/-- A check is a look at the sound card, if it is time for one, and a decision. -/
theorem check_eq_after (w : WedgeWatch) (now : ℕ) (probe : Option Bool) :
    (w.check now probe).1 = (w.looking now probe).after (.checked now (w.check now probe).2) := by
  have hheard := check_heardAt w now probe
  have hprobed := check_probed w now probe
  have hwarned := check_warnedAt w now probe
  generalize (w.check now probe).1 = checked at hheard hprobed hwarned
  obtain ⟨heardAt, warnedAt, probed⟩ := checked
  simp only [after, looking_heardAt, looking_warnedAt, looking_probed, mk.injEq]
  exact ⟨hheard, hwarned, hprobed⟩

/-- Once the silence has lasted, what counts is a look that still stands. -/
theorem looking_stands {w : WedgeWatch} {now : ℕ} (hlong : wedgeSilence ≤ w.silence now)
    (probe : Option Bool) :
    ∃ taken, (w.looking now probe).probed = some (taken, (w.recentProbe now).getD probe) ∧
      now - taken < probeEvery := by
  cases hrecent : w.recentProbe now with
  | none =>
      have hprobes : w.probes now = true := by simp [probes, hlong, hrecent]
      refine ⟨now, by rw [looking, if_pos hprobes]; rfl, ?_⟩
      rw [Nat.sub_self]
      decide
  | some answer =>
      have hprobes : ¬w.probes now = true := by simp [probes, hrecent]
      rw [looking, if_neg hprobes]
      unfold recentProbe at hrecent
      split at hrecent
      next taken result hl =>
        split at hrecent
        next hstands =>
          obtain rfl := Option.some.inj hrecent
          exact ⟨taken, hl, hstands⟩
        next => cases hrecent
      next => cases hrecent

/-- A check is lawful for the watch it decides on. -/
theorem lawful_checked {start : ℕ} {tr : List Told} {w : WedgeWatch} {now : ℕ}
    {probe : Option Bool} (h : Follows start tr (w.looking now probe))
    (hbound : ∀ e ∈ tr, e.now ≤ now) :
    Lawful start tr (.checked now (w.check now probe).2) := by
  have hheard : w.heardAt = lastHeard start tr := by rw [← h.heard, looking_heardAt]
  have hpos : 0 < wedgeSilence := by decide
  constructor
  · intro silence hsilence
    obtain ⟨⟨hlong, hrunning, hold⟩, rfl⟩ := due_of_check hsilence
    obtain ⟨taken, hlook, hrecent⟩ := looking_stands hlong probe
    rw [hrunning] at hlook
    have hmem := h.probed _ hlook
    have htaken : taken ≤ now := hbound _ hmem
    refine ⟨?_, hlong, ⟨taken, hmem, htaken, by omega⟩, fun t ht => ?_⟩
    · unfold WedgeWatch.silence at hlong ⊢
      omega
    · obtain ⟨t', ht', hle⟩ := h.latest t ht
      rw [looking_warnedAt] at ht'
      have hreminder : 0 < wedgeReminder := by decide
      have := hold t' ht'
      omega
  · rintro hfar ⟨before, taken, hlast, hrecent⟩ hold
    have hlong : wedgeSilence ≤ w.silence now := by
      unfold WedgeWatch.silence
      omega
    obtain ⟨taken', hlook, -⟩ := looking_stands hlong probe
    -- A look from before the dongle was last heard is too old by now.
    have hcurrent := (h.current before _ hlast).resolve_left fun hbefore => by
      have hle := probeEvery_le_wedgeSilence
      rw [looking_heardAt] at hbefore
      simp only at hbefore
      omega
    rw [hlook] at hcurrent
    have hrunning : (w.recentProbe now).getD probe = some true :=
      (Prod.mk.inj (Option.some.inj hcurrent)).2
    have hdue : w.Due now probe := by
      refine ⟨hlong, hrunning, fun t ht => ?_⟩
      have := hold t (h.warned t (by rwa [looking_warnedAt]))
      omega
    rw [check_of_due hdue]
    rfl

/-! ## Whole histories -/

/-- What holds of a watch, its trace and the instants after each call. -/
structure Kept (start : ℕ) (calls : List Call) (w : WedgeWatch) (tr : List Told) : Prop where
  follows : Follows start tr w
  bound : ∀ e ∈ tr, ∃ c ∈ calls, e.now = c.now
  lawful : Traces.Everywhere (Lawful start) tr

theorem now_of_mem_step {w : WedgeWatch} {c : Call} {e : Told} (he : e ∈ (w.step c).2) :
    e.now = c.now := by
  cases c with
  | heard now =>
      rw [List.mem_singleton.1 he]
      rfl
  | check now probe =>
      simp only [step, List.mem_append, List.mem_singleton] at he
      rcases he with hlook | rfl
      · split at hlook
        · rw [List.mem_singleton.1 hlook]
          rfl
        · simp at hlook
      · rfl

/-- A call takes a watch to one that says what the longer trace says, by lawful
events. -/
theorem Follows.step {start : ℕ} {tr : List Told} {w : WedgeWatch} (h : Follows start tr w)
    {c : Call} (hbound : ∀ e ∈ tr, e.now ≤ c.now) :
    Follows start (tr ++ (w.step c).2) (w.step c).1 ∧
      Traces.Everywhere (fun pre e => Lawful start (tr ++ pre) e) (w.step c).2 := by
  cases c with
  | heard now =>
      refine ⟨h.heard_snoc hbound _, ?_⟩
      rw [WedgeWatch.step, Traces.everywhere_singleton, List.append_nil]
      exact h.lawful_heard now
  | check now probe =>
      simp only [WedgeWatch.step]
      rw [check_eq_after]
      by_cases hprobes : w.probes now = true
      · have hlooking : w.looking now probe = w.after (.probed now probe) := if_pos hprobes
        have hbound' : ∀ e ∈ tr ++ [.probed now probe], e.now ≤ now := fun e he => by
          rcases List.mem_append.1 he with hold | hnew
          · exact hbound e hold
          · exact (congrArg Told.now (List.mem_singleton.1 hnew)).le
        have hlooked : Follows start (tr ++ [.probed now probe]) (w.looking now probe) := by
          rw [hlooking]
          exact h.probed_snoc hbound probe
        rw [if_pos hprobes, ← List.append_assoc, Traces.everywhere_append,
          Traces.everywhere_singleton, Traces.everywhere_singleton, List.append_nil, List.append_nil]
        exact ⟨hlooked.checked_snoc hbound' _, h.lawful_probed hprobes probe,
          lawful_checked hlooked hbound'⟩
      · have hlooking : w.looking now probe = w := if_neg hprobes
        have hlooked : Follows start tr (w.looking now probe) := by rwa [hlooking]
        rw [if_neg hprobes, List.nil_append, Traces.everywhere_singleton, List.append_nil]
        exact ⟨hlooked.checked_snoc hbound _, lawful_checked hlooked hbound⟩

theorem Kept.step {start : ℕ} {calls : List Call} {w : WedgeWatch} {tr : List Told}
    (h : Kept start calls w tr) {c : Call} (hmono : ∀ c' ∈ calls, c'.now ≤ c.now) :
    Kept start (calls ++ [c]) (w.step c).1 (tr ++ (w.step c).2) := by
  have hbound : ∀ e ∈ tr, e.now ≤ c.now := fun e he => by
    obtain ⟨c', hc', heq⟩ := h.bound e he
    exact heq ▸ hmono c' hc'
  obtain ⟨hfollows, hlawful⟩ := h.follows.step hbound
  refine ⟨hfollows, fun e he => ?_, Traces.everywhere_append.2 ⟨h.lawful, hlawful⟩⟩
  rcases List.mem_append.1 he with hold | hnew
  · obtain ⟨c', hc', heq⟩ := h.bound e hold
    exact ⟨c', List.mem_append_left _ hc', heq⟩
  · exact ⟨c, by simp, now_of_mem_step hnew⟩

/-- After any history, the watch is what its trace says, and every event was lawful. -/
theorem kept_run (start : ℕ) {calls : List Call}
    (hmono : calls.Pairwise fun c c' => c.now ≤ c'.now) :
    Kept start calls (run start calls).1 (run start calls).2 := by
  refine Runs.exec_induction (fun pre c => ∀ c' ∈ pre, c'.now ≤ c.now) (Kept start)
    ⟨follows_new start, by simp, Traces.everywhere_nil _⟩ (fun pre c h hc => h.step hc) calls ?_
  rintro pre c post rfl c' hc'
  exact (List.pairwise_append.1 hmono).2.2 c' hc' c (by simp)

/-- Over any history, the card is read no sooner than it may, a warning is given
exactly when it is due, and a recovery is told exactly when a warning was given. -/
theorem history_lawful (start : ℕ) (calls : List Call)
    (hmono : calls.Pairwise fun c c' => c.now ≤ c'.now) :
    Traces.Everywhere (Lawful start) (run start calls).2 :=
  (kept_run start hmono).lawful

/-- Ten silent minutes of a streaming card, a look that still stands, and a recovery. -/
def noticed : List Call :=
  [.check (seconds 600) (some true), .check (seconds 620) none, .heard (seconds 700)]

theorem history_lawful_noticed : Traces.Everywhere (Lawful 0) (run 0 noticed).2 :=
  history_lawful 0 noticed (by decide)

example : (run 0 noticed).2 =
    [.probed (seconds 600) (some true), .checked (seconds 600) (some (seconds 600)),
      .checked (seconds 620) none, .heard (seconds 700) true] := by decide

end WedgeWatch

end HeadsetBattery.Maxwell
