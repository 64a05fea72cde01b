import HeadsetBattery.Library.Projections
import HeadsetBattery.Maxwell.Changes

/-!
# Access errors that last

All dongles of a process share one access watch, which remembers one error. Each
visit tells it how that visit ended, and the watch decides which visits are worth
a line: a warning once the same error has lasted, and a recovery after a warning.
-/
namespace HeadsetBattery.Maxwell

variable {Path : Type}

/-- One visit, for the access watch: whose, how it failed if it did, when a failure
was reported, what the watch was at before it, and whether it was given a line. -/
structure Visited (Path : Type) where
  node : Path
  failure : Option String
  instant : ℕ
  watch : AccessWatch
  line : Bool
  deriving DecidableEq, Repr

/-- Whether an event is a line of the access watch: a warning or a recovery. -/
def Event.isLine : Event Path → Bool
  | .reachable => true
  | .unreachable _ warning => warning
  | _ => false

/-- What the watch makes of a visit: its failure, or its success. -/
def AccessWatch.take (w : AccessWatch) (failure : Option String) (now : ℕ) : AccessWatch × Bool :=
  match failure with
  | some message => w.failing message now
  | none => w.recovered

namespace Reader

variable [LinearOrder Path] [ToString Path]

/-- How a visit ends, for the access watch. -/
def failure (r : Reader Path) (p : Pass Path) (dongle : Dongle Path) (x : Exchange Path) :
    Option String :=
  match (r.listenTo p dongle x).2.2 with
  | .ok _ => none
  | .error err => some (toString dongle.node ++ ": " ++ err.text)

def visited (r : Reader Path) : Move Path → Option (Visited Path)
  | .scan _ => none
  | .visit p dongle x =>
      some ⟨dongle.node, r.failure p dongle x, x.failedAt, r.access,
        (r.visit p dongle x).2.any Event.isLine⟩

/-- The visits of each pass of a run. -/
def visits (r : Reader Path) : List (Pass Path) → List (List (Visited Path))
  | [] => []
  | p :: ps => Projections.views move visited r p.moves :: visits (r.reconcile p).1 ps

theorem flatten_visits (r : Reader Path) (passes : List (Pass Path)) :
    (r.visits passes).flatten = Projections.views move visited r (passes.flatMap Pass.moves) := by
  induction passes generalizing r with
  | nil => rfl
  | cons p passes ih =>
      rw [visits, List.flatten_cons, ih, List.flatMap_cons, Projections.views_append]
      rfl

theorem instants_of_listed (p : Pass Path) (listed : List (Dongle Path × Exchange Path))
    (r : Reader Path) :
    (Projections.views move visited r (listed.map fun v => .visit p v.1 v.2)).map Visited.instant =
      listed.map fun v => v.2.failedAt := by
  induction listed generalizing r with
  | nil => rfl
  | cons v listed ih =>
      rw [List.map_cons, Projections.views, List.map_append, ih]
      rfl

/-- The failures of a run are reported at the instants its passes give. -/
theorem instants_visits (r : Reader Path) (passes : List (Pass Path)) :
    (r.visits passes).flatten.map Visited.instant =
      passes.flatMap fun p => p.listed.map fun v => v.2.failedAt := by
  induction passes generalizing r with
  | nil => rfl
  | cons p passes ih =>
      rw [visits, List.flatten_cons, List.map_append, ih, List.flatMap_cons,
        ← instants_of_listed p p.listed (r.move (.scan p)).1]
      rfl

/-! ## The watch of a run -/

/-- Steps that neither touch the watch nor give a line. -/
def Quiet (before after : Reader Path) (events : List (Event Path)) : Prop :=
  after.access = before.access ∧ ∀ e ∈ events, e.isLine = false

section Quiet

omit [ToString Path]

theorem Quiet.trans {r r' r'' : Reader Path} {es fs : List (Event Path)} (h : Quiet r r' es)
    (h' : Quiet r' r'' fs) : Quiet r r'' (es ++ fs) := by
  refine ⟨h'.1.trans h.1, fun e he => ?_⟩
  obtain hold | hnew := List.mem_append.1 he
  · exact h.2 e hold
  · exact h'.2 e hnew

theorem quiet_close (r : Reader Path) (node : Path) : Quiet r (r.close node).1 (r.close node).2 := by
  unfold close
  split
  · exact ⟨rfl, by simp [Event.isLine]⟩
  · exact ⟨rfl, by simp⟩

/-- Listening to a dongle leaves the watch alone, and gives no line. -/
theorem quiet_listenTo (r : Reader Path) (p : Pass Path) (dongle : Dongle Path) (x : Exchange Path) :
    Quiet r (r.listenTo p dongle x).1 (r.listenTo p dongle x).2.1 := by
  constructor
  · have hentered (s : Session Path) : (r.enter dongle s).1.access = r.access := by
      unfold enter
      split <;> rfl
    have hsuspected (asker : Reader Path) (s : Session Path) :
        (asker.suspect dongle.node s p.now x.playback).1.access = asker.access := by
      unfold suspect
      split <;> rfl
    unfold listenTo
    split
    · rfl
    · dsimp only
      split
      · exact hentered _
      · split
        · exact hentered _
        · exact (hsuspected _ _).trans (hentered _)
  · intro e he
    have hlistening := isListening_of_mem e he
    cases e with
    | reachable | unreachable => cases hlistening
    | _ => rfl

end Quiet

theorem access_scan (r : Reader Path) (p : Pass Path) :
    (r.move (.scan p)).1.access = r.access := by
  refine (scan_chain r p).keeps (fun r' _ => r'.access = r.access) (fun r₁ es r₂ tr c hi => ?_) [] rfl
  cases c with
  | began => exact hi
  | closed held => exact hi

/-- A visit tells the watch how it ended, and gives the line the watch decides on. -/
theorem take_visit (r : Reader Path) (p : Pass Path) (dongle : Dongle Path) (x : Exchange Path) :
    r.access.take (r.failure p dongle x) x.failedAt =
      ((r.visit p dongle x).1.access, (r.visit p dongle x).2.any Event.isLine) := by
  have hquiet := quiet_listenTo r p dongle x
  cases hl : (r.listenTo p dongle x).2.2 with
  | ok s =>
      have hnone : (r.listenTo p dongle x).2.1.any Event.isLine = false := by
        simpa [List.any_eq_false] using hquiet.2
      simp only [failure, visit, hl, AccessWatch.take, reportRecovery, hquiet.1, List.any_append,
        hnone]
      obtain ⟨w, line⟩ := r.access.recovered
      cases line <;> simp [Event.isLine]
  | error err =>
      have hclosed : Quiet r
          (if err.gone then (r.listenTo p dongle x).1.close dongle.node
            else ((r.listenTo p dongle x).1, [])).1
          ((r.listenTo p dongle x).2.1 ++ (if err.gone then
            (r.listenTo p dongle x).1.close dongle.node else ((r.listenTo p dongle x).1, [])).2) := by
        refine hquiet.trans ?_
        split
        · exact quiet_close _ dongle.node
        · exact ⟨rfl, by simp⟩
      have hnone := List.any_eq_false.2 fun e he => Bool.eq_false_iff.1 (hclosed.2 e he)
      simp only [failure, visit, hl, AccessWatch.take, reportError, hclosed.1, List.any_append]
      rw [List.any_append] at hnone
      simp [hnone, Event.isLine]

end Reader

/-- Visits that follow one another, from a watch on: each finds the watch the one
before it left, and is given the line the watch decides on. -/
def Tracks : AccessWatch → List (Visited Path) → Prop
  | _, [] => True
  | w, v :: vs =>
      v.watch = w ∧ v.line = (w.take v.failure v.instant).2 ∧
        Tracks (w.take v.failure v.instant).1 vs

theorem Tracks.start {w : AccessWatch} {us vs : List (Visited Path)} (h : Tracks w (us ++ vs)) :
    Tracks w us := by
  induction us generalizing w with
  | nil => trivial
  | cons u us ih => exact ⟨h.1, h.2.1, ih h.2.2⟩

/-- The visits from any one on follow the watch it found. -/
theorem Tracks.rest {w : AccessWatch} {us vs : List (Visited Path)} {v : Visited Path}
    (h : Tracks w (us ++ v :: vs)) : Tracks v.watch (v :: vs) := by
  induction us generalizing w with
  | nil =>
      obtain rfl := h.1
      exact h
  | cons u us ih => exact ih h.2.2

theorem tracks_views [LinearOrder Path] [ToString Path] (r : Reader Path) (ms : List (Move Path)) :
    Tracks r.access (Projections.views Reader.move Reader.visited r ms) := by
  induction ms generalizing r with
  | nil => trivial
  | cons m ms ih =>
      cases m with
      | scan p =>
          have hrest := ih (r.move (.scan p)).1
          rwa [Reader.access_scan] at hrest
      | visit p dongle x =>
          have hrest := ih (r.visit p dongle x).1
          have htake := r.take_visit p dongle x
          have hafter : (r.access.take (r.failure p dongle x) x.failedAt).1 =
              (r.visit p dongle x).1.access := congrArg Prod.fst htake
          refine ⟨rfl, (congrArg Prod.snd htake).symm, ?_⟩
          change Tracks (r.access.take (r.failure p dongle x) x.failedAt).1 _
          rw [hafter]
          exact hrest

/-! ## One error, as long as it lasts -/

namespace AccessWatch

/-- Since when a watch has seen an error, if it starts or goes on now. -/
def onset (w : AccessWatch) (message : String) (now : ℕ) : ℕ :=
  match w.last with
  | some (previous, since, _) => if previous = message then since else now
  | none => now

/-- Whether a watch has warned about an error that it still sees. -/
def Warned (w : AccessWatch) (message : String) : Prop :=
  ∃ since, w.last = some (message, since, true)

theorem warned_iff {w : AccessWatch} {message : String} :
    w.Warned message ↔ w.last.any (fun held => held.1 = message && held.2.2) = true := by
  obtain ⟨last⟩ := w
  cases last with
  | none => simp [Warned]
  | some held =>
      obtain ⟨previous, since, reported⟩ := held
      simp [Warned]

instance (w : AccessWatch) (message : String) : Decidable (w.Warned message) :=
  decidable_of_iff _ warned_iff.symm

/-- A failure that has not been warned about goes on from its onset, and is warned
about once it has lasted. -/
theorem failing_of_not_warned {w : AccessWatch} {message : String} (h : ¬w.Warned message)
    (now : ℕ) :
    let report := decide (errorSettle ≤ now - w.onset message now)
    w.failing message now = (⟨some (message, w.onset message now, report)⟩, report) := by
  obtain ⟨last⟩ := w
  cases last with
  | none => simp [failing, onset]
  | some held =>
      obtain ⟨previous, since, reported⟩ := held
      by_cases hsame : previous = message
      · subst hsame
        cases reported with
        | true => exact absurd ⟨since, rfl⟩ h
        | false => simp [failing, onset]
      · simp [failing, onset, hsame]

theorem failing_of_warned {w : AccessWatch} {message : String} (h : w.Warned message) (now : ℕ) :
    ∃ since, w.failing message now = (⟨some (message, since, true)⟩, false) := by
  obtain ⟨since, hlast⟩ := h
  exact ⟨since, by simp [failing, hlast]⟩

end AccessWatch

section Streak

variable {message : String} {vs after : List (Visited Path)} {w : AccessWatch}

/-- An error that has been warned about gives no more lines while it lasts, and stays
warned about. -/
theorem Tracks.warned (h : Tracks w vs) (hw : w.Warned message)
    (hall : ∀ v ∈ vs, v.failure = some message) :
    (∀ v ∈ vs, v.line = false) ∧
      ∀ us v, Tracks w (vs ++ v :: us) → v.watch.Warned message := by
  induction vs generalizing w with
  | nil =>
      refine ⟨by simp, fun us v h => ?_⟩
      rw [h.1]
      exact hw
  | cons u vs ih =>
      obtain ⟨hwatch, hline, hrest⟩ := h
      obtain ⟨since, hfailing⟩ := AccessWatch.failing_of_warned hw u.instant
      have htake : w.take u.failure u.instant = (⟨some (message, since, true)⟩, false) := by
        rw [hall u (by simp)]
        exact hfailing
      rw [htake] at hline hrest
      obtain ⟨hquiet, hafter⟩ := ih hrest ⟨since, rfl⟩ fun v hv => hall v (by simp [hv])
      refine ⟨fun v hv => ?_, fun us v h => hafter us v ?_⟩
      · rcases List.mem_cons.1 hv with rfl | hv
        · exact hline
        · exact hquiet v hv
      · rw [List.cons_append] at h
        have hnext := h.2.2
        rwa [htake] at hnext

/-- An error that has not been warned about is, once, if it lasts. -/
theorem Tracks.lasting (h : Tracks w vs) (hw : ¬w.Warned message)
    (hall : ∀ v ∈ vs, v.failure = some message) {onset : ℕ}
    (honset : ∀ v ∈ vs.head?, w.onset message v.instant = onset)
    (hlasts : ∃ v ∈ vs, errorSettle ≤ v.instant - onset) :
    (vs.filter Visited.line).length = 1 := by
  induction vs generalizing w with
  | nil => simp at hlasts
  | cons u vs ih =>
      obtain ⟨hwatch, hline, hrest⟩ := h
      have hfailing := AccessWatch.failing_of_not_warned hw u.instant
      rw [honset u rfl] at hfailing
      have htake : w.take u.failure u.instant = w.failing message u.instant := by
        rw [hall u (by simp)]
        rfl
      rw [htake, hfailing] at hline hrest
      have hothers : ∀ v ∈ vs, v.failure = some message := fun v hv => hall v (by simp [hv])
      by_cases hnow : errorSettle ≤ u.instant - onset
      · simp only [hnow, decide_true] at hline hrest
        obtain ⟨hquiet, -⟩ := hrest.warned ⟨onset, rfl⟩ hothers
        have hnone : vs.filter Visited.line = [] :=
          List.filter_eq_nil_iff.2 fun v hv => by simp [hquiet v hv]
        rw [List.filter_cons_of_pos hline, hnone]
        rfl
      · simp only [hnow, decide_false] at hline hrest
        rw [List.filter_cons_of_neg (by simp [hline])]
        refine ih hrest ?_ hothers (fun v hv => by simp [AccessWatch.onset]) ?_
        · rintro ⟨since, hlast⟩
          simp at hlast
        · obtain ⟨v, hv, hlate⟩ := hlasts
          rcases List.mem_cons.1 hv with rfl | hv
          · exact absurd hlate hnow
          · exact ⟨v, hv, hlate⟩

/-- A watch only remembers instants it was told, or had from the start. -/
theorem AccessWatch.since_of_take {failure : Option String} {now since : ℕ} {reported : Bool}
    (h : (w.take failure now).1.last = some (message, since, reported)) :
    since = now ∨ ∃ previous reported', w.last = some (previous, since, reported') := by
  cases failure with
  | none => cases h
  | some next =>
      obtain ⟨last⟩ := w
      cases last with
      | none =>
          simp only [take, failing, Option.some.injEq, Prod.mk.injEq] at h
          exact .inl h.2.1.symm
      | some held =>
          obtain ⟨previous, since', reported'⟩ := held
          simp only [take, failing] at h
          split at h
          · simp only [Option.some.injEq, Prod.mk.injEq] at h
            exact .inr ⟨previous, reported', by rw [h.2.1]⟩
          · simp only [Option.some.injEq, Prod.mk.injEq] at h
            exact .inl h.2.1.symm

theorem Tracks.since_mem {us : List (Visited Path)} {v : Visited Path} {since : ℕ}
    {reported : Bool} (h : Tracks w (us ++ v :: vs))
    (hlast : v.watch.last = some (message, since, reported)) :
    (∃ previous reported', w.last = some (previous, since, reported')) ∨
      ∃ u ∈ us, u.instant = since := by
  induction us generalizing w with
  | nil => exact .inl ⟨message, reported, h.1 ▸ hlast⟩
  | cons u us ih =>
      obtain ⟨previous, reported', hafter⟩ | ⟨u', hu', heq⟩ := ih h.2.2
      · obtain heq | hbefore := AccessWatch.since_of_take hafter
        · exact .inr ⟨u, by simp, heq.symm⟩
        · exact .inl hbefore
      · exact .inr ⟨u', by simp [hu'], heq⟩

/-- An error a visit goes on with began no later than that visit. -/
theorem Tracks.onset_le {us : List (Visited Path)} {v : Visited Path}
    (h : Tracks AccessWatch.new (us ++ v :: vs))
    (hmono : (us ++ v :: vs).Pairwise fun u v => u.instant ≤ v.instant) :
    v.watch.onset message v.instant ≤ v.instant := by
  unfold AccessWatch.onset
  split
  next previous since reported hlast =>
    split
    · obtain ⟨previous', reported', hnew⟩ | ⟨u, hu, rfl⟩ := h.since_mem hlast
      · cases hnew
      · exact (List.pairwise_append.1 hmono).2.2 u hu v (by simp)
    · exact le_rfl
  next => exact le_rfl

/-- An error that was not warned about when it came, and lasts, is warned about once. -/
theorem Tracks.told_once {us : List (Visited Path)} {streak : List (Visited Path)}
    (h : Tracks AccessWatch.new (us ++ (streak ++ vs)))
    (hmono : (us ++ (streak ++ vs)).Pairwise fun u v => u.instant ≤ v.instant)
    (hall : ∀ v ∈ streak, v.failure = some message)
    (hfresh : ∀ v ∈ streak.head?, ¬v.watch.Warned message)
    (hlasts : ∃ u ∈ streak, ∃ v ∈ streak, u.instant + errorSettle ≤ v.instant) :
    (streak.filter Visited.line).length = 1 := by
  obtain ⟨u, hu, v, hv, hfar⟩ := hlasts
  cases streak with
  | nil => cases hu
  | cons head tail =>
      have honset : head.watch.onset message head.instant ≤ head.instant := h.onset_le hmono
      have hstart : head.instant ≤ u.instant := by
        rcases List.mem_cons.1 hu with rfl | htail
        · exact le_rfl
        · have hlater := (List.pairwise_append.1 hmono).2.1
          exact (List.pairwise_cons.1 hlater).1 u (List.mem_append_left _ htail)
      have hlate : errorSettle ≤ v.instant - head.watch.onset message head.instant := by omega
      have hstreak : Tracks head.watch (head :: tail) := h.rest.start
      refine hstreak.lasting (hfresh head rfl) hall (fun v hv => ?_) ⟨v, hv, hlate⟩
      obtain rfl := Option.some.inj hv
      rfl

/-- A warned failure leaves a watch that has warned about it. -/
theorem AccessWatch.warned_of_report {now : ℕ} (h : (w.failing message now).2 = true) :
    (w.failing message now).1.Warned message := by
  by_cases hw : w.Warned message
  · obtain ⟨since, hfailing⟩ := failing_of_warned hw now
    rw [hfailing]
    exact ⟨since, rfl⟩
  · have hfailing := failing_of_not_warned hw now
    rw [hfailing] at h ⊢
    refine ⟨w.onset message now, ?_⟩
    change some (message, w.onset message now, decide _) = _
    rw [show decide (errorSettle ≤ now - w.onset message now) = true from h]

/-- A success right after an error that was warned about gives the recovery. -/
theorem Tracks.recovers {warned recovered : Visited Path}
    (h : Tracks w (warned :: (vs ++ recovered :: after))) (hwarned : warned.failure = some message)
    (hline : warned.line = true) (hall : ∀ v ∈ vs, v.failure = some message)
    (hsuccess : recovered.failure = none) : recovered.line = true := by
  obtain ⟨-, htold, hrest⟩ := h
  have htake : w.take warned.failure warned.instant = w.failing message warned.instant := by
    rw [hwarned]
    rfl
  rw [htake] at htold hrest
  have hheld := AccessWatch.warned_of_report (htold.symm.trans hline)
  obtain ⟨since, hlast⟩ := (hrest.start.warned hheld hall).2 after recovered hrest
  have hrecovered := hrest.rest.2.1
  rw [hsuccess] at hrecovered
  rw [hrecovered, AccessWatch.take, AccessWatch.recovered, hlast]

end Streak

/-! ## Runs -/

section Spans

variable (node : Path) (message : String) (span : List (List (Visited Path)))

/-- On every pass the dongle on a node is listed, and fails with the same error. -/
def FailsThroughout : Prop :=
  ∀ pass ∈ span, (∃ v ∈ pass, v.node = node) ∧ ∀ v ∈ pass, v.node = node → v.failure = some message

instance [DecidableEq Path] : Decidable (FailsThroughout node message span) :=
  inferInstanceAs (Decidable (∀ _ ∈ span, _ ∧ _))

/-- Two visits to a node are far enough apart for an error to be worth a warning. -/
def Lasts : Prop :=
  ∃ u ∈ span.flatten, ∃ v ∈ span.flatten, u.node = node ∧ v.node = node ∧
    u.instant + errorSettle ≤ v.instant

instance [DecidableEq Path] : Decidable (Lasts node span) :=
  inferInstanceAs (Decidable (∃ _ ∈ span.flatten, ∃ _ ∈ span.flatten, _ ∧ _ ∧ _))

/-- No other dongle is visited between the first and the last visit to a node, and
the watch does not come to the first with a warning about that error behind it. -/
def Alone : Prop :=
  ∃ before streak after, span.flatten = before ++ streak ++ after ∧
    (∀ v ∈ before ++ after, v.node ≠ node) ∧ (∀ v ∈ streak, v.node = node) ∧
    ∀ v ∈ streak.head?, ¬v.watch.Warned message

/-- How many lines the visits to a node are given. -/
def lines [DecidableEq Path] : ℕ :=
  (span.flatten.filter fun v => decide (v.node = node) && v.line).length

end Spans

/-- The lines of a dongle's visits, where they follow one another. -/
theorem lines_eq [DecidableEq Path] {node : Path} {span : List (List (Visited Path))}
    {before streak after : List (Visited Path)} (hspan : span.flatten = before ++ streak ++ after)
    (haside : ∀ v ∈ before ++ after, v.node ≠ node) (hown : ∀ v ∈ streak, v.node = node) :
    lines node span = (streak.filter Visited.line).length := by
  have hbefore : before.filter (fun v => decide (v.node = node) && v.line) = [] :=
    List.filter_eq_nil_iff.2 fun v hv => by simp [haside v (List.mem_append_left _ hv)]
  have hafter : after.filter (fun v => decide (v.node = node) && v.line) = [] :=
    List.filter_eq_nil_iff.2 fun v hv => by simp [haside v (List.mem_append_right _ hv)]
  have hkept : streak.filter (fun v => decide (v.node = node) && v.line) =
      streak.filter Visited.line :=
    List.filter_congr fun v hv => by simp [hown v hv]
  rw [lines, hspan, List.filter_append, List.filter_append, hbefore, hafter, hkept]
  simp

variable [LinearOrder Path] [ToString Path]

theorem tracks_visits (passes : List (Pass Path)) :
    Tracks AccessWatch.new (Reader.visits Reader.new passes).flatten := by
  rw [Reader.flatten_visits]
  exact tracks_views Reader.new _

/-- Over a whole run, an error that lasts while no other dongle is visited is warned
about exactly once, and the first success after that, if nothing else was visited or
went wrong since, gives the recovery. -/
theorem lasting_errors_told (passes : List (Pass Path))
    (hmono : (passes.flatMap fun p => p.listed.map fun v => v.2.failedAt).Pairwise (· ≤ ·)) :
    (∀ before span after (node : Path) message,
      Reader.visits Reader.new passes = before ++ span ++ after →
      FailsThroughout node message span → Lasts node span → Alone node message span →
      lines node span = 1) ∧
    ∀ before warned between recovered after message,
      (Reader.visits Reader.new passes).flatten =
        before ++ warned :: (between ++ recovered :: after) →
      warned.failure = some message → warned.line = true →
      recovered.node = warned.node → recovered.failure = none →
      (∀ v ∈ between, v.failure = some message) → recovered.line = true := by
  have htracks := tracks_visits passes
  rw [← Reader.instants_visits Reader.new passes, List.pairwise_map] at hmono
  constructor
  · intro before span after node message hrun hfails hlasts halone
    obtain ⟨first, streak, last, hspan, haside, hown, hfresh⟩ := halone
    rw [hrun, List.flatten_append, List.flatten_append, hspan, ← List.append_assoc,
      ← List.append_assoc, List.append_assoc _ last, List.append_assoc _ streak] at htracks hmono
    have hin : ∀ v ∈ span.flatten, v.node = node → v ∈ streak := by
      intro v hv hnode
      rw [hspan] at hv
      obtain (hfirst | hstreak) | hlast := List.mem_append.1 hv |>.imp_left List.mem_append.1
      · exact absurd hnode (haside v (List.mem_append_left _ hfirst))
      · exact hstreak
      · exact absurd hnode (haside v (List.mem_append_right _ hlast))
    have hall : ∀ v ∈ streak, v.failure = some message := by
      intro v hv
      have hflat : v ∈ span.flatten := by
        rw [hspan]
        exact List.mem_append_left _ (List.mem_append_right _ hv)
      obtain ⟨pass, hpass, hvpass⟩ := List.mem_flatten.1 hflat
      exact (hfails pass hpass).2 v hvpass (hown v hv)
    obtain ⟨u, hu, v, hv, hunode, hvnode, hfar⟩ := hlasts
    rw [lines_eq hspan haside hown]
    exact htracks.told_once hmono hall hfresh ⟨u, hin u hu hunode, v, hin v hv hvnode, hfar⟩
  · intro before warned between recovered after message hrun hwarned hline _ hsuccess hbetween
    rw [hrun] at htracks
    exact htracks.rest.recovers hwarned hline hbetween hsuccess

/-- A visit at which the node may not be opened. -/
def Exchange.denied (now : ℕ) : Exchange Path :=
  { Exchange.fetching silentFrame now with opens := .error ⟨"Permission denied", false, true⟩ }

/-- One dongle that may not be opened for seven seconds, and then may: a warning after
five, and a recovery. -/
theorem lasting_errors_told_of_denied :
    let denied := (List.range 7).map fun n =>
      Pass.daily n [(Dongle.on 1 (1 : ℕ), Exchange.denied (seconds n))]
    let passes := denied ++ [Pass.daily 7 [(Dongle.on 1 1, .fetching silentFrame (seconds 7))]]
    let message := "1: Permission denied"
    lines 1 (Reader.visits Reader.new denied) = 1 ∧
      (⟨1, none, seconds 7, ⟨some (message, 0, true)⟩, true⟩ : Visited ℕ) ∈
        (Reader.visits Reader.new passes).flatten := by
  intro denied passes message
  constructor
  · refine (lasting_errors_told denied (by decide +kernel)).1 [] _ [] 1 message (by simp)
      (by decide +kernel) (by decide +kernel)
      ⟨[], (Reader.visits Reader.new denied).flatten, [], by simp, by simp, ?_, ?_⟩
    · decide +kernel
    · decide +kernel
  · obtain ⟨recovered, hlast, hfields⟩ : ∃ recovered,
        (Reader.visits Reader.new passes).flatten = ((Reader.visits Reader.new passes).flatten.take 5)
          ++ ⟨1, some message, seconds 5, ⟨some (message, 0, false)⟩, true⟩ ::
            ([⟨1, some message, seconds 6, ⟨some (message, 0, true)⟩, false⟩] ++ [recovered]) ∧
        recovered = ⟨1, none, seconds 7, ⟨some (message, 0, true)⟩, recovered.line⟩ :=
      ⟨⟨1, none, seconds 7, ⟨some (message, 0, true)⟩, true⟩, by decide +kernel⟩
    have hline := (lasting_errors_told passes (by decide +kernel)).2 _ _ _ _ [] message hlast rfl rfl
      (by rw [hfields]) (by rw [hfields]) (by simp)
    rw [hline] at hfields
    rw [hlast, ← hfields]
    simp

/-- Two dongles, each visited on every pass. The first may not be opened for eleven
seconds, and the second answers: nothing is said. One dongle whose error is warned
about and then changes: nothing is said of its recovery. -/
theorem lasting_errors_missed :
    let passes := (List.range 12).map fun n =>
      Pass.daily n [(Dongle.on 1 (1 : ℕ), Exchange.denied (seconds n)),
        (Dongle.on 2 2, .fetching silentFrame (seconds n))]
    let broken (n : ℕ) : Exchange ℕ :=
      { Exchange.fetching silentFrame (seconds n) with fetched := .error ⟨"EIO", false, false⟩ }
    let changing := ((List.range 6).map fun n =>
        Pass.daily n [(Dongle.on 1 (1 : ℕ), Exchange.denied (seconds n))]) ++
      [Pass.daily 6 [(Dongle.on 1 1, broken 6)],
        Pass.daily 7 [(Dongle.on 1 1, .fetching silentFrame (seconds 7))]]
    (FailsThroughout 1 "1: Permission denied" (Reader.visits Reader.new passes) ∧
      Lasts 1 (Reader.visits Reader.new passes) ∧ lines 1 (Reader.visits Reader.new passes) = 0) ∧
    ((Reader.visits Reader.new changing).flatten.drop 5).map (fun v => (v.failure, v.line)) =
      [(some "1: Permission denied", true), (some "1: EIO", false), (none, false)] := by
  decide +kernel

end HeadsetBattery.Maxwell
