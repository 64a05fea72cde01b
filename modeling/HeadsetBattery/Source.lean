import HeadsetBattery.Library.Traces
import HeadsetBattery.Headsetcontrol.Child
import HeadsetBattery.MainLoop.Pacing
import HeadsetBattery.Maxwell.Listing
import HeadsetBattery.Maxwell.ReadOnce

/-!
# Where battery readings come from

The native reader goes first and HeadsetControl is the general answer. A dongle that
vanished only moments ago is given time to come back before HeadsetControl is tried.
What the world looks like at a probe, and what running HeadsetControl comes to, are
inputs; a run of probes leaves a record of each.
-/
namespace HeadsetBattery

open Maxwell Headsetcontrol

/-- How long a vanished dongle is given to re-enumerate before HeadsetControl is
tried instead. -/
def reenumerationGrace : ℕ := seconds 30

/-- Which reader to use. -/
inductive Backend where
  /-- The native reader when it recognises the hardware, HeadsetControl otherwise. -/
  | auto
  /-- Only the native reader. -/
  | native
  /-- Only HeadsetControl. -/
  | headsetControl
  deriving DecidableEq, Repr

/-- A configured source of battery readings. -/
structure Source (Path : Type) [LinearOrder Path] where
  backend : Backend
  control : HeadsetControl
  /-- Whether the last probe was answered by the native reader. -/
  native : Bool
  reader : Reader Path
  nativeInterval : ℕ
  /-- When the native reader last had a dongle to listen to. -/
  nativeSeenAt : Option ℕ

/-- How the report is read from its text. -/
abbrev Decoding := List Char → Except String RawReport

/-- What a probe meets: the world of the reader's pass, the instant after it, and what
running HeadsetControl comes to if that is done. -/
structure Meeting (Path : Type) where
  look : Maxwell.Look Path
  listenedAt : ℕ
  ran : Except (List String) Output

namespace Source

variable {Path : Type} [LinearOrder Path]

def new (backend : Backend) (control : HeadsetControl) (nativeInterval : ℕ) : Source Path :=
  ⟨backend, control, false, .new, nativeInterval, none⟩

/-- Whether a dongle the native reader was listening to vanished only moments ago. -/
def dongleIsComingBack (s : Source Path) (now : ℕ) : Bool :=
  s.nativeSeenAt.any fun seenAt => now - seenAt < reenumerationGrace

/-- The pass of a probe. -/
def pass (s : Source Path) (met : Meeting Path) : Pass Path :=
  ⟨met.look.listed, met.look.wired, met.look.now, s.nativeInterval, Maxwell.listenFirst⟩

/-- What a probe leaves: whether HeadsetControl was run, and the answer. -/
structure Probed (Path : Type) where
  met : Meeting Path
  heard : List (Maxwell.Event Path)
  ran : Bool
  answer : Except (List String) (List Headset)

variable [ToString Path]

/-- One pass of the native reader. -/
def listen (s : Source Path) (met : Meeting Path) :
    Source Path × List (Maxwell.Event Path) × List Headset :=
  let listened := s.reader.reconcile (s.pass met)
  ({ s with reader := listened.1 }, listened.2, Reader.headsets listened.2)

/-- The battery state of every headset the source can see. Only HeadsetControl can
fail. -/
def probe (d : Decoding) (s : Source Path) (met : Meeting Path) : Source Path × Probed Path :=
  let control := s.control.probe d met.ran
  match s.backend with
  | .native =>
      let listened := s.listen met
      ({ listened.1 with native := true }, ⟨met, listened.2.1, false, .ok listened.2.2⟩)
  | .headsetControl => ({ s with native := false }, ⟨met, [], true, control⟩)
  | .auto =>
      let listened := s.listen met
      if listened.2.2.isEmpty && s.dongleIsComingBack met.listenedAt then
        -- Still the native reader's turn.
        ({ listened.1 with native := true }, ⟨met, listened.2.1, false, .ok listened.2.2⟩)
      else if listened.2.2.isEmpty then
        ({ listened.1 with native := false }, ⟨met, listened.2.1, true, control⟩)
      else
        ({ listened.1 with native := true, nativeSeenAt := some met.listenedAt },
          ⟨met, listened.2.1, false, .ok listened.2.2⟩)

/-- The source, as the bridge uses it. -/
def batterySource (d : Decoding) : MainLoop.BatterySource (Source Path) (Meeting Path) where
  probe s met := ((s.probe d met).1, (s.probe d met).2.answer)
  lastProbeWasNative := native

/-- A run of probes. -/
def run (d : Decoding) (s : Source Path) (meetings : List (Meeting Path)) :
    Source Path × List (Probed Path) :=
  Runs.exec (fun s met => ((s.probe d met).1, [(s.probe d met).2])) s meetings

/-! ## What a probe can do -/

theorem listen_isEmpty (s : Source Path) (met : Meeting Path) :
    (s.listen met).2.2.isEmpty = met.look.listed.isEmpty := by
  have hall : List.Forall₂ (fun v h => ∃ battery sample, h = Reader.headset v.1 battery sample)
      met.look.listed (s.listen met).2.2 := Reader.headsets_reconcile s.reader (s.pass met)
  generalize met.look.listed = listed, (s.listen met).2.2 = headsets at hall
  cases hall <;> rfl

theorem met_probe (d : Decoding) (s : Source Path) (met : Meeting Path) :
    (s.probe d met).2.met = met := by
  unfold probe
  split
  · rfl
  · rfl
  · simp only
    split
    · rfl
    · split <;> rfl

/-- What the native reader answers: a headset for every dongle that is listed, in that
order, and nothing of HeadsetControl's. -/
def OfDongles (met : Meeting Path) (answer : Except (List String) (List Headset)) : Prop :=
  ∃ headsets, answer = .ok headsets ∧ List.Forall₂
    (fun v h => ∃ battery sample, h = Reader.headset v.1 battery sample) met.look.listed headsets

/-- What a probe of a source that may use either reader can do. -/
inductive Probes (d : Decoding) (s : Source Path) (met : Meeting Path) :
    Source Path → Probed Path → Prop
  | listens (listed : met.look.listed ≠ []) {headsets : List Headset}
      (answer : OfDongles met (.ok headsets)) :
      Probes d s met
        { s with
            reader := (s.reader.reconcile (s.pass met)).1
            native := true
            nativeSeenAt := some met.listenedAt }
        ⟨met, (s.reader.reconcile (s.pass met)).2, false, .ok headsets⟩
  | waits (listed : met.look.listed = []) (back : s.dongleIsComingBack met.listenedAt = true)
      {headsets : List Headset} (answer : OfDongles met (.ok headsets)) :
      Probes d s met { s with reader := (s.reader.reconcile (s.pass met)).1, native := true }
        ⟨met, (s.reader.reconcile (s.pass met)).2, false, .ok headsets⟩
  | fallsBack (listed : met.look.listed = []) (back : s.dongleIsComingBack met.listenedAt = false) :
      Probes d s met { s with reader := (s.reader.reconcile (s.pass met)).1, native := false }
        ⟨met, (s.reader.reconcile (s.pass met)).2, true, s.control.probe d met.ran⟩

theorem probe_probes (d : Decoding) {s : Source Path} (hauto : s.backend = .auto)
    (met : Meeting Path) : Probes d s met (s.probe d met).1 (s.probe d met).2 := by
  have hanswer : OfDongles met (.ok (s.listen met).2.2) :=
    ⟨_, rfl, Reader.headsets_reconcile s.reader (s.pass met)⟩
  have hempty := s.listen_isEmpty met
  unfold probe
  rw [hauto]
  simp only [hempty]
  cases hlisted : met.look.listed with
  | nil =>
      cases hback : s.dongleIsComingBack met.listenedAt with
      | true => exact .waits hlisted hback hanswer
      | false => exact .fallsBack hlisted hback
  | cons v listed => exact .listens (by simp [hlisted]) hanswer

/-! ## Runs of probes -/

/-- What a probe does, given the probes before it: HeadsetControl is run exactly when no
dongle is listed and none was within the grace, and its answer and the native reader's
are never mixed. -/
structure FallsBack (d : Decoding) (control : HeadsetControl) (before : List (Probed Path))
    (probed : Probed Path) : Prop where
  ran : probed.ran = true ↔ probed.met.look.listed = [] ∧ ∀ b ∈ before, b.met.look.listed ≠ [] →
    b.met.listenedAt + reenumerationGrace ≤ probed.met.listenedAt
  own : probed.ran = false → OfDongles probed.met probed.answer
  other : probed.ran = true →
    probed.answer = control.probe d probed.met.ran

/-- The source remembers the last sighting of a dongle, and who answered last. -/
structure Remembers (d : Decoding) (control : HeadsetControl) (s : Source Path)
    (done : List (Probed Path)) : Prop where
  backend : s.backend = .auto
  configured : s.control = control
  seen : ∀ seenAt, s.nativeSeenAt = some seenAt →
    (∃ b ∈ done, b.met.look.listed ≠ [] ∧ b.met.listenedAt = seenAt) ∧
      ∀ b ∈ done, b.met.look.listed ≠ [] → b.met.listenedAt ≤ seenAt
  unseen : s.nativeSeenAt = none → ∀ b ∈ done, b.met.look.listed = []
  native : ∀ last, done.getLast? = some last → s.native = !last.ran
  fallsBack : Traces.Everywhere (FallsBack d control) done

section Runs

variable {d : Decoding} {control : HeadsetControl} {s s' : Source Path}
  {done : List (Probed Path)} {met : Meeting Path}

omit [ToString Path] in
theorem Remembers.isComingBack (h : Remembers d control s done)
    (hlater : ∀ b ∈ done, b.met.listenedAt ≤ met.listenedAt) :
    s.dongleIsComingBack met.listenedAt = false ↔ ∀ b ∈ done, b.met.look.listed ≠ [] →
      b.met.listenedAt + reenumerationGrace ≤ met.listenedAt := by
  cases hseen : s.nativeSeenAt with
  | none =>
      have hunseen := h.unseen hseen
      simp only [dongleIsComingBack, hseen, Option.any_none, true_iff]
      exact fun b hb hlisted => absurd (hunseen b hb) hlisted
  | some seenAt =>
      obtain ⟨⟨b, hb, hlisted, rfl⟩, hlast⟩ := h.seen seenAt hseen
      have hle := hlater b hb
      simp only [dongleIsComingBack, hseen, Option.any_some, decide_eq_false_iff_not, Nat.not_lt]
      constructor
      · intro hgrace b' hb' hlisted'
        have := hlast b' hb' hlisted'
        omega
      · intro hgrace
        have := hgrace b hb hlisted
        omega

omit [ToString Path] in
/-- A probe that finds no dongle. -/
theorem Remembers.unlisted (h : Remembers d control s done) {probed : Probed Path}
    (hlisted : probed.met.look.listed = []) (hfalls : FallsBack d control done probed)
    (hbackend : s'.backend = s.backend) (hcontrol : s'.control = s.control)
    (hseen : s'.nativeSeenAt = s.nativeSeenAt) (hnative : s'.native = !probed.ran) :
    Remembers d control s' (done ++ [probed]) where
  backend := hbackend.trans h.backend
  configured := hcontrol.trans h.configured
  seen seenAt he := by
    obtain ⟨⟨b, hb, hb', he'⟩, hlast⟩ := h.seen seenAt (hseen.symm.trans he)
    refine ⟨⟨b, by simp [hb], hb', he'⟩, fun b' hmem hne => ?_⟩
    obtain hmem | hmem := List.mem_append.1 hmem
    · exact hlast b' hmem hne
    · exact absurd (List.mem_singleton.1 hmem ▸ hlisted) hne
  unseen he b hmem := by
    obtain hmem | hmem := List.mem_append.1 hmem
    · exact h.unseen (hseen.symm.trans he) b hmem
    · exact List.mem_singleton.1 hmem ▸ hlisted
  native last he := by
    rw [List.getLast?_concat] at he
    exact Option.some.inj he ▸ hnative
  fallsBack := Traces.everywhere_append.2 ⟨h.fallsBack, Traces.everywhere_singleton.2 (by simpa)⟩

theorem Remembers.step (h : Remembers d control s done)
    (hlater : ∀ b ∈ done, b.met.listenedAt ≤ met.listenedAt) :
    Remembers d control (s.probe d met).1 (done ++ [(s.probe d met).2]) := by
  have hprobes := probe_probes d h.backend met
  have hback := h.isComingBack hlater
  generalize s.probe d met = next at hprobes ⊢
  obtain ⟨s', probed⟩ := next
  cases hprobes with
  | @listens listed headsets answer =>
      have hfalls : FallsBack d control done
          ⟨met, (s.reader.reconcile (s.pass met)).2, false, .ok headsets⟩ :=
        ⟨by simp [listed], fun _ => answer, by simp⟩
      refine ⟨h.backend, h.configured, fun seenAt he => ?_, by simp, fun last he => ?_,
        Traces.everywhere_append.2 ⟨h.fallsBack, Traces.everywhere_singleton.2 (by simpa)⟩⟩
      · obtain rfl := Option.some.inj he
        refine ⟨⟨⟨met, (s.reader.reconcile (s.pass met)).2, false, .ok headsets⟩, by simp, listed,
          rfl⟩, fun b hmem _ => ?_⟩
        obtain hmem | hmem := List.mem_append.1 hmem
        · exact hlater b hmem
        · rw [List.mem_singleton.1 hmem]
      · rw [List.getLast?_concat] at he
        rw [← Option.some.inj he]
        rfl
  | @waits listed back headsets answer =>
      refine h.unlisted listed ⟨?_, fun _ => answer, by simp⟩ rfl rfl rfl rfl
      have hnot : ¬∀ b ∈ done, b.met.look.listed ≠ [] →
          b.met.listenedAt + reenumerationGrace ≤ met.listenedAt := by
        rw [← hback, back]
        simp
      simpa [listed] using hnot
  | fallsBack listed back =>
      refine h.unlisted listed ⟨?_, by simp, fun _ => by rw [h.configured]⟩ rfl rfl rfl rfl
      simpa [listed] using hback.1 back

end Runs

/-- HeadsetControl is a fallback. Of all the probes of a source that may use either
reader, it is run at exactly those at which no dongle is listed and none was listed by
any probe of the last thirty seconds. Its answer is then the whole answer; otherwise the
answer is one headset for every dongle that is listed, and never an error. Whether the
last probe was native says which of the two it was. -/
theorem headsetcontrol_is_fallback (d : Decoding) (control : HeadsetControl)
    (nativeInterval : ℕ) (meetings : List (Meeting Path))
    (hmonotone : meetings.Pairwise fun m n => m.listenedAt ≤ n.listenedAt) :
    let done := run d (.new .auto control nativeInterval) meetings
    Traces.Everywhere (FallsBack d control) done.2 ∧
      ∀ last, done.2.getLast? = some last → done.1.native = !last.ran := by
  intro done
  have hremembers : done.2.map Probed.met = meetings ∧ Remembers d control done.1 done.2 := by
    refine Runs.exec_induction
      (fun pre met => ∀ m ∈ pre, m.listenedAt ≤ met.listenedAt)
      (fun pre s done => done.map Probed.met = pre ∧ Remembers d control s done) ?_ ?_ meetings ?_
    · refine ⟨rfl, rfl, rfl, ?_, by simp, by simp, Traces.everywhere_nil _⟩
      intro seenAt he
      cases he
    · rintro pre met ⟨hmet, h⟩ hlater
      exact ⟨by rw [List.map_append, hmet, List.map_singleton, met_probe],
        h.step fun b hb => hlater _ (hmet ▸ List.mem_map_of_mem hb)⟩
    · rintro pre met post rfl m hm
      exact (List.pairwise_append.1 hmonotone).2.2 m hm met (by simp)
  exact ⟨hremembers.2.fallsBack, hremembers.2.native⟩

/-- A dongle that is there, then gone for a second, then for forty, while HeadsetControl
is not installed. -/
theorem headsetcontrol_is_fallback_of_replug :
    let d : Decoding := fun _ => .error "EOF while parsing a value"
    let met (n : ℕ) (listed : List (Dongle ℕ × Exchange ℕ)) : Meeting ℕ :=
      ⟨⟨listed, false, seconds n⟩, seconds n, .error ["could not run headsetcontrol", "ENOENT"]⟩
    let done := run d (.new .auto ⟨"headsetcontrol", seconds 10⟩ (seconds 300))
      [met 1 [(.on 0x4b18 4, .fetching silentFrame (seconds 1))], met 2 [], met 41 []]
    done.2.map Probed.ran = [false, false, true] ∧ done.1.native = false := by
  intro d met done
  have hfallback := headsetcontrol_is_fallback d ⟨"headsetcontrol", seconds 10⟩ (seconds 300)
    [met 1 [(.on 0x4b18 4, .fetching silentFrame (seconds 1))], met 2 [], met 41 []]
    (by decide +kernel)
  have hran : done.2.map Probed.ran = [false, false, true] := by decide +kernel
  obtain ⟨last, hlast⟩ : ∃ last, done.2.getLast? = some last := by
    refine Option.isSome_iff_exists.1 ?_
    decide +kernel
  refine ⟨hran, (hfallback.2 last hlast).trans ?_⟩
  have htrue : (done.2.map Probed.ran).getLast? = some last.ran := by
    rw [List.getLast?_map, hlast]
    rfl
  rw [hran] at htrue
  rw [← Option.some.inj htrue]
  rfl

/-! ## The native half -/

theorem reader_probe (d : Decoding) {s : Source Path} (hbackend : s.backend ≠ .headsetControl)
    (met : Meeting Path) : (s.probe d met).1.reader = (s.reader.reconcile (s.pass met)).1 ∧
      (s.probe d met).1.backend = s.backend ∧ (s.probe d met).1.control = s.control ∧
      (s.probe d met).1.nativeInterval = s.nativeInterval := by
  unfold probe
  cases hs : s.backend with
  | native => exact ⟨rfl, hs, rfl, rfl⟩
  | headsetControl => exact absurd hs hbackend
  | auto =>
      simp only
      split
      · exact ⟨rfl, hs, rfl, rfl⟩
      · split <;> exact ⟨rfl, hs, rfl, rfl⟩

/-- Without HeadsetControl the answer is that of the native reader. -/
theorem answer_probe (d : Decoding) {s : Source Path} {met : Meeting Path}
    (hran : (s.probe d met).2.ran = false) :
    (s.probe d met).2.answer = .ok (Reader.headsets (s.reader.reconcile (s.pass met)).2) := by
  unfold probe at hran ⊢
  cases hs : s.backend with
  | native => rfl
  | headsetControl =>
      rw [hs] at hran
      cases hran
  | auto =>
      simp only [hs] at hran ⊢
      split
      · rfl
      · split
        next => simp_all
        next => rfl

/-- The flag the pacing goes by says which reader answered. -/
theorem native_probe (d : Decoding) (s : Source Path) (met : Meeting Path) :
    (s.probe d met).1.native = !(s.probe d met).2.ran := by
  unfold probe
  split
  · rfl
  · rfl
  · simp only
    split
    · rfl
    · split <;> rfl

end Source

end HeadsetBattery
