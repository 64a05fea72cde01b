import HeadsetBattery.Maxwell.WedgeWarnings
import HeadsetBattery.Maxwell.Listening

/-!
# That a wedge is noticed

A dongle that says nothing for long enough, and streams at the end of it, is
warned about, provided the one watch of the reader is left alone: no other dongle
speaks within the silence, and no other dongle's card is found without a stream
within the time a look at the sound card stands.
-/
namespace HeadsetBattery.Maxwell

variable {Path : Type}

namespace WedgeWatch

variable {w : WedgeWatch} {now stop : ℕ} {probe : Option Bool}

/-- A watch none of whose instants is past `now`, and whose last warning was given. -/
structure Timed (now : ℕ) (given : ℕ → Prop) (w : WedgeWatch) : Prop where
  heard : w.heardAt ≤ now
  looked : ∀ taken result, w.probed = some (taken, result) → taken ≤ now
  warned : ∀ t ∈ w.warnedAt, given t

theorem Timed.mono {given given' : ℕ → Prop} (h : w.Timed now given) {now' : ℕ}
    (hnow : now ≤ now') (hgiven : ∀ t, given t → given' t) : w.Timed now' given' :=
  ⟨h.heard.trans hnow, fun taken result hl => (h.looked taken result hl).trans hnow,
    fun t ht => hgiven t (h.warned t ht)⟩

theorem timed_new (now : ℕ) (given : ℕ → Prop) : (new now).Timed now given :=
  ⟨le_rfl, nofun, nofun⟩

theorem timed_heard (w : WedgeWatch) (now : ℕ) (given : ℕ → Prop) :
    (w.heard now).1.Timed now given :=
  ⟨le_rfl, nofun, nofun⟩

theorem Timed.check {given : ℕ → Prop} (h : w.Timed now given)
    (hgiven : (w.check now probe).2.isSome → given now) :
    (w.check now probe).1.Timed now given where
  heard := by rw [check_heardAt]; exact h.heard
  looked taken result hl := by
    rw [check_probed] at hl
    split at hl
    · obtain ⟨rfl, -⟩ := Prod.mk.inj (Option.some.inj hl)
      exact le_rfl
    · exact h.looked taken result hl
  warned t ht := by
    rw [check_warnedAt] at ht
    split at ht
    next hsome =>
      obtain rfl : now = t := Option.some.inj ht
      exact hgiven hsome
    next => exact h.warned t ht

/-- A watch that will have heard nothing for the silence by `stop`, and whose last look
at the sound card found a stream if it still stands by then. -/
structure Ready (stop : ℕ) (w : WedgeWatch) : Prop where
  silent : w.heardAt + wedgeSilence ≤ stop
  looked : ∀ taken result, w.probed = some (taken, result) → stop - taken < probeEvery →
    result = some true

theorem Ready.heard (hsilent : now + wedgeSilence ≤ stop) : (w.heard now).1.Ready stop :=
  ⟨hsilent, nofun⟩

theorem Ready.check (h : w.Ready stop)
    (hprobe : w.probes now → stop - now < probeEvery → probe = some true) :
    (w.check now probe).1.Ready stop where
  silent := by rw [check_heardAt]; exact h.silent
  looked taken result hl := by
    rw [check_probed] at hl
    split at hl
    next hprobes =>
      obtain ⟨rfl, rfl⟩ := Prod.mk.inj (Option.some.inj hl)
      exact hprobe hprobes
    next => exact h.looked taken result hl

/-- Long before `stop`, every watch is ready. -/
theorem Timed.ready {given : ℕ → Prop} (h : w.Timed now given)
    (hlong : wedgeSilence + probeEvery < stop - now) : w.Ready stop := by
  refine ⟨?_, fun taken result hl hrecent => ?_⟩
  · have := h.heard
    omega
  · have := h.looked taken result hl
    omega

/-- Once it has come to `stop`, a ready watch that finds a stream warns, or warned less
than a reminder ago. -/
theorem Ready.warns (h : w.Ready now) :
    (w.check now (some true)).2 = some (w.silence now) ∨
      ∃ t ∈ w.warnedAt, now - t < wedgeReminder := by
  have hlong : wedgeSilence ≤ w.silence now := Nat.le_sub_of_add_le' h.silent
  have hrunning : (w.recentProbe now).getD (some true) = some true := by
    unfold recentProbe
    split
    next taken result hl =>
      split
      next hrecent => exact h.looked taken result hl hrecent
      next => rfl
    next => rfl
  by_cases hold : ∀ t ∈ w.warnedAt, wedgeReminder ≤ now - t
  · exact .inl (check_of_due ⟨hlong, hrunning, hold⟩)
  · push Not at hold
    exact .inr hold

end WedgeWatch

/-- Whether an event is a wedge warning. -/
def Event.isWarning : Event Path → Bool
  | .warned .. => true
  | _ => false

/-- A warning given at an instant, of whichever dongle. -/
def Given (tr : List (Event Path)) (t : ℕ) : Prop :=
  ∃ node pid silence, .warned node pid t silence ∈ tr

theorem Given.append {tr : List (Event Path)} {t : ℕ} (h : Given tr t) (es : List (Event Path)) :
    Given (tr ++ es) t := by
  obtain ⟨node, pid, silence, hmem⟩ := h
  exact ⟨node, pid, silence, List.mem_append_left _ hmem⟩

namespace Reader

variable [LinearOrder Path]

/-- A look at the sound card leaves what the watch makes of it, and warns if that is
due. -/
theorem suspect_spec {r : Reader Path} {w : WedgeWatch} (hw : r.wedge = some w) (node : Path)
    {s : Session Path} (hlink : s.link ≠ .up) (now : ℕ) (playback : Path → Option Bool) :
    (r.suspect node s now playback).1.wedge = some (w.check now (s.playbackRunning playback)).1 ∧
      (r.suspect node s now playback).2 =
        (w.check now (s.playbackRunning playback)).2.toList.map
          (.warned node s.productId now) := by
  simp [suspect, hlink, hw]

theorem wedge_close (r : Reader Path) (node : Path) : (r.close node).1.wedge = r.wedge := by
  unfold close
  split <;> rfl

/-- What a visit makes of the watch. One that fetches nothing leaves it; one that fetches
a report lets it know, and then looks at the sound card unless its question failed or the
headset is believed linked. -/
theorem listenTo_watch (r : Reader Path) (p : Pass Path) (d : Dongle Path) (x : Exchange Path) :
    (r.listenTo p d x).1.wedge = r.wedge ∧ (∀ s, (r.listenTo p d x).2.2 ≠ .ok s) ∨
      ∃ s frame, r.sessionFor d x = .ok s ∧ x.fetched = .ok frame ∧
        let w := (r.watchAfter frame p.now).1
        let asked := (s.takeIn frame r.readings).1.question p.now p.interval p.listenFirst x.written
        ((r.listenTo p d x).1.wedge = some w ∧
            ∀ t, (r.listenTo p d x).2.2 = .ok t → t.link = .up) ∨
          asked.1.link ≠ .up ∧ (∀ err, asked.2 ≠ some (.failed err)) ∧
            (r.listenTo p d x).2.2 = .ok asked.1 ∧
            (r.listenTo p d x).1.wedge =
              some (w.check p.now (asked.1.playbackRunning x.playback)).1 ∧
            ∀ silence ∈ (w.check p.now (asked.1.playbackRunning x.playback)).2,
              .warned d.node asked.1.productId p.now silence ∈ (r.listenTo p d x).2.1 := by
  cases hs : r.sessionFor d x with
  | error err => simp [listenTo, hs]
  | ok s =>
      have hwedge : (r.enter d s).1.wedge = r.wedge := by
        unfold enter
        split <;> rfl
      cases hf : x.fetched with
      | error err => simp [listenTo, hs, hf, hwedge]
      | ok frame =>
          refine .inr ⟨s, frame, rfl, rfl, ?_⟩
          intro w asked
          have hheard : ((r.enter d s).1.hear d.node s frame p.now).1.wedge = some w := by
            simp [hear, w]
          have hput : (((r.enter d s).1.hear d.node s frame p.now).1.put d.node asked.1).wedge =
              some w := hheard
          by_cases hok : ∀ err, asked.2 ≠ some (.failed err)
          · rw [listenTo_of_asked hs hf hok]
            by_cases hup : asked.1.link = .up
            · refine .inl ⟨?_, fun t ht => Except.ok.inj ht ▸ hup⟩
              rw [suspect, if_pos hup]
              exact hput
            · obtain ⟨hchecked, hwarned⟩ := suspect_spec hput d.node hup p.now x.playback
              refine .inr ⟨hup, hok, rfl, hchecked, fun silence hsilence => ?_⟩
              refine List.mem_append_right _ ?_
              rw [hwarned, Option.mem_def.1 hsilence]
              exact List.mem_singleton_self _
          · push Not at hok
            obtain ⟨err, herr⟩ := hok
            rw [listenTo_of_failed hs hf herr]
            exact .inl ⟨hheard, fun t ht => by cases ht⟩

variable [ToString Path]

theorem wedge_visit (r : Reader Path) (p : Pass Path) (d : Dongle Path) (x : Exchange Path) :
    (r.visit p d x).1.wedge = (r.listenTo p d x).1.wedge := by
  cases hl : (r.listenTo p d x).2.2 with
  | ok s =>
      simp only [visit, hl]
      rfl
  | error err =>
      simp only [visit, hl, reportError]
      split
      · exact wedge_close _ _
      · rfl

theorem wedge_scan (r : Reader Path) (p : Pass Path) :
    (r.move (.scan p)).1.wedge = r.wedge := by
  refine (scan_chain r p).keeps (fun r' _ => r'.wedge = r.wedge) (fun r₁ es r₂ tr c hi => ?_) [] rfl
  cases c with
  | began => exact hi
  | closed held => exact hi

/-! ## What the watch was told -/

/-- The watch of a reader is timed, and its last warning is in the trace. -/
def Timed (now : ℕ) (r : Reader Path) (tr : List (Event Path)) : Prop :=
  ∀ w ∈ r.wedge, w.Timed now (Given tr)

omit [ToString Path] in
theorem Timed.watchAfter {now : ℕ} {r : Reader Path} {tr : List (Event Path)}
    (h : Timed now r tr) (frame : Frame) :
    (r.watchAfter frame now).1.Timed now (Given tr) := by
  unfold Reader.watchAfter
  cases hw : r.wedge with
  | none =>
      simp only [Option.getD_none]
      split
      · exact WedgeWatch.timed_new now _
      · exact WedgeWatch.timed_heard _ now _
  | some w =>
      simp only [Option.getD_some]
      split
      · exact h w hw
      · exact WedgeWatch.timed_heard _ now _

theorem Timed.move {m : Move Path} {r : Reader Path} {tr : List (Event Path)}
    (h : Timed m.pass.now r tr) :
    Timed m.pass.now (r.move m).1 (tr ++ (r.move m).2) := by
  intro w' hw'
  cases m with
  | scan p =>
      rw [wedge_scan] at hw'
      exact (h w' hw').mono le_rfl fun t ht => ht.append _
  | visit p d x =>
      obtain ⟨tail, htail, -⟩ := visit_tail r p d x
      have hw : w' ∈ (r.listenTo p d x).1.wedge := wedge_visit r p d x ▸ hw'
      obtain ⟨hsame, -⟩ | ⟨s, frame, -, -, ⟨htold, -⟩ | ⟨-, -, -, hchecked, hwarned⟩⟩ :=
        listenTo_watch r p d x
      · rw [hsame] at hw
        exact (h w' hw).mono le_rfl fun t ht => ht.append _
      · obtain rfl : _ = w' := Option.some.inj (htold.symm.trans hw)
        exact (h.watchAfter frame).mono le_rfl fun t ht => ht.append _
      · obtain rfl : _ = w' := Option.some.inj (hchecked.symm.trans hw)
        refine ((h.watchAfter frame).mono le_rfl fun t ht => ht.append _).check fun hsome => ?_
        obtain ⟨silence, hsilence⟩ := Option.isSome_iff_exists.1 hsome
        have hmem := List.mem_append_left tail (hwarned silence hsilence)
        rw [← htail] at hmem
        exact ⟨_, _, silence, List.mem_append_right tr hmem⟩

/-- Whatever a run has been through, its watch is timed. -/
theorem timed_exec {ms : List (Move Path)}
    (hmono : ms.Pairwise fun m m' => m.pass.now ≤ m'.pass.now) (now : ℕ)
    (hnow : ∀ m ∈ ms, m.pass.now ≤ now) :
    Timed now (Runs.exec move new ms).1 (Runs.exec move new ms).2 := by
  refine Runs.exec_induction (fun pre m => ∀ m' ∈ pre, m'.pass.now ≤ m.pass.now)
    (fun done (r : Reader Path) tr => ∀ now, (∀ m ∈ done, m.pass.now ≤ now) → Timed now r tr)
    ?_ ?_ ms ?_ now hnow
  · rintro _ _ w ⟨⟩
  · intro done m hdone hpast now hle w hw
    exact ((hdone _ hpast).move w hw).mono (hle m (by simp)) fun t ht => ht
  · rintro pre m post rfl m' hm'
    exact (List.pairwise_append.1 hmono).2.2 m' hm' m (by simp)

/-! ## A watch that is left alone -/

/-- The reader has a watch, and it will be ready by `stop`. -/
def Watching (stop : ℕ) (r : Reader Path) : Prop := ∃ w ∈ r.wedge, w.Ready stop

/-- A visit that leaves the watch alone until `stop`. A report that says something comes
before the silence that ends then, and a look at the sound card that would still stand
then finds a stream. -/
def Harmless (stop : ℕ) (r : Reader Path) (p : Pass Path) (d : Dongle Path) (x : Exchange Path) :
    Prop :=
  ∀ s frame, r.sessionFor d x = .ok s → x.fetched = .ok frame →
    (stop - p.now < wedgeSilence → messages frame.bytes = []) ∧
      let asked := (s.takeIn frame r.readings).1.question p.now p.interval p.listenFirst x.written
      ∀ w, r.wedge = some w → w.probes p.now → stop - p.now < probeEvery →
        asked.1.link ≠ .up → (∀ err, asked.2 ≠ some (.failed err)) →
        asked.1.playbackRunning x.playback = some true

theorem Watching.visit {stop : ℕ} {r : Reader Path} {p : Pass Path} {d : Dongle Path}
    {x : Exchange Path} (h : Watching stop r) (hx : Harmless stop r p d x) :
    Watching stop (r.visit p d x).1 := by
  obtain ⟨w, hw, hready⟩ := h
  rw [Watching, wedge_visit]
  have hafter (frame : Frame) (hsilent : stop - p.now < wedgeSilence → messages frame.bytes = []) :
      (r.watchAfter frame p.now).1.Ready stop := by
    rw [watchAfter, Option.mem_def.1 hw, Option.getD_some]
    split
    · exact hready
    next hm =>
      have hlate : ¬stop - p.now < wedgeSilence := fun hsoon => hm (by simp [hsilent hsoon])
      have hpos : 0 < wedgeSilence := by decide
      exact WedgeWatch.Ready.heard (by omega)
  obtain ⟨hsame, -⟩ | ⟨s, frame, hs, hf, hcases⟩ := listenTo_watch r p d x
  · exact ⟨w, hsame ▸ hw, hready⟩
  obtain ⟨hsilent, hlook⟩ := hx s frame hs hf
  obtain ⟨htold, -⟩ | ⟨hlink, hok, -, hchecked, -⟩ := hcases
  · exact ⟨_, htold, hafter frame hsilent⟩
  · refine ⟨_, hchecked, (hafter frame hsilent).check fun hprobes hsoon => ?_⟩
    have hnone : messages frame.bytes = [] :=
      hsilent (hsoon.trans_le probeEvery_le_wedgeSilence)
    have hkept : (r.watchAfter frame p.now).1 = w := by
      simp [watchAfter, hnone, Option.mem_def.1 hw]
    exact hlook w hw (hkept ▸ hprobes) hsoon hlink hok

/-! ## A dongle that says nothing -/

/-- The dongle is listened to without failure, and says nothing. In the last
`probeEvery` before `stop` it is not believed linked, and its card has a playback
stream running. Which of the dongles listed it is, `own` tells. -/
def Mute (own : Dongle Path → Prop) (stop : ℕ) (r : Reader Path) : Move Path → Prop
  | .scan _ => True
  | .visit p d x => own d → (r.turnOf p x).heard = [] ∧
      ∃ s, (r.listenTo p d x).2.2 = .ok s ∧
        (stop - p.now < probeEvery → s.link ≠ .up ∧ s.playbackRunning x.playback = some true)

instance decidableOk {ε α : Type} (P : α → Prop) [DecidablePred P] :
    ∀ e : Except ε α, Decidable (∃ s, e = .ok s ∧ P s)
  | .ok s => decidable_of_iff (P s) (by simp)
  | .error _ => isFalse (by simp)

instance decidableMute (own : Dongle Path → Prop) [DecidablePred own] (stop : ℕ)
    (r : Reader Path) : ∀ m, Decidable (Mute own stop r m)
  | .scan _ => isTrue trivial
  | .visit p d x => inferInstanceAs (Decidable (own d → (r.turnOf p x).heard = [] ∧
      ∃ s, (r.listenTo p d x).2.2 = .ok s ∧
        (stop - p.now < probeEvery → s.link ≠ .up ∧ s.playbackRunning x.playback = some true)))

/-- The other dongles leave the watch alone. -/
def Undisturbed (own : Dongle Path → Prop) (stop : ℕ) (r : Reader Path) : Move Path → Prop
  | .scan _ => True
  | .visit p d x => ¬own d → r.Harmless stop p d x

omit [LinearOrder Path] [ToString Path] in
theorem messages_of_heard {t : Turn} {frame : Frame} (hf : t.fetched = .ok frame)
    (h : t.heard = []) : messages frame.bytes = [] := by
  rwa [Turn.heard, hf] at h

omit [ToString Path] in
/-- A dongle that says nothing leaves the watch alone. -/
theorem Mute.harmless {own : Dongle Path → Prop} {stop : ℕ} {r : Reader Path} {p : Pass Path}
    {d : Dongle Path} {x : Exchange Path} (h : Mute own stop r (.visit p d x)) (hown : own d) :
    r.Harmless stop p d x := by
  intro s frame hs hf
  obtain ⟨hheard, t, hok, hlast⟩ := h hown
  refine ⟨fun _ => messages_of_heard hf hheard, fun w _ _ hsoon _ hanswered => ?_⟩
  rw [listenTo_of_asked hs hf hanswered] at hok
  obtain rfl := Except.ok.inj hok
  exact (hlast hsoon).2

theorem Watching.step {own : Dongle Path → Prop} {stop : ℕ} {r : Reader Path} {m : Move Path}
    (h : Watching stop r) (hmute : Mute own stop r m) (hothers : Undisturbed own stop r m) :
    Watching stop (r.move m).1 := by
  cases m with
  | scan p =>
      rw [Watching, wedge_scan]
      exact h
  | visit p d x =>
      by_cases hown : own d
      · exact h.visit (hmute.harmless hown)
      · exact h.visit (hothers hown)

/-- The watch has begun once a visit has listened without failure. -/
theorem watching_of_listened {r : Reader Path} {p : Pass Path} {d : Dongle Path}
    {x : Exchange Path} {s : Session Path} {tr : List (Event Path)} {stop : ℕ}
    (hok : (r.listenTo p d x).2.2 = .ok s) (htimed : Timed p.now (r.visit p d x).1 tr)
    (hlong : wedgeSilence + probeEvery < stop - p.now) : Watching stop (r.visit p d x).1 := by
  have hbegun : ∃ w, (r.visit p d x).1.wedge = some w := by
    rw [wedge_visit]
    obtain ⟨-, hnever⟩ | ⟨t, frame, -, -, ⟨htold, -⟩ | ⟨-, -, -, hchecked, -⟩⟩ :=
      listenTo_watch r p d x
    · exact absurd hok (hnever s)
    · exact ⟨_, htold⟩
    · exact ⟨_, hchecked⟩
  obtain ⟨w, hw⟩ := hbegun
  exact ⟨w, hw, (htimed w hw).ready hlong⟩

/-- A ready watch at the visit of a dongle that streams and says nothing: it warns, or it
has warned less than a reminder ago. -/
theorem given_of_watching (own : Dongle Path → Prop) {r : Reader Path} {p : Pass Path}
    {d : Dongle Path} {x : Exchange Path} {tr : List (Event Path)} (htimed : Timed p.now r tr)
    (hwatching : Watching p.now r) (hmute : Mute own p.now r (.visit p d x)) (hown : own d) :
    ∃ t, Given (tr ++ (r.visit p d x).2) t ∧ p.now - t < wedgeReminder := by
  obtain ⟨w, hw, hready⟩ := hwatching
  obtain ⟨hheard, s, hok, hlast⟩ := hmute hown
  obtain ⟨hlink, hrunning⟩ := hlast (by rw [Nat.sub_self]; decide)
  obtain ⟨-, hnever⟩ | ⟨t, frame, -, hf, ⟨-, hup⟩ | ⟨-, -, hanswered, -, hwarned⟩⟩ :=
    listenTo_watch r p d x
  · exact absurd hok (hnever s)
  · exact absurd (hup s hok) hlink
  obtain rfl := Except.ok.inj (hok.symm.trans hanswered)
  have hnone : messages frame.bytes = [] := messages_of_heard (t := r.turnOf p x) hf hheard
  have hkept : (r.watchAfter frame p.now).1 = w := by
    simp [watchAfter, hnone, Option.mem_def.1 hw]
  rw [hkept, hrunning] at hwarned
  obtain hnow | ⟨t, ht, hrecent⟩ := hready.warns
  · obtain ⟨tail, htail, -⟩ := visit_tail r p d x
    have hmem := List.mem_append_left tail (hwarned _ hnow)
    rw [← htail] at hmem
    exact ⟨p.now, ⟨_, _, _, List.mem_append_right tr hmem⟩, by rw [Nat.sub_self]; decide⟩
  · exact ⟨t, ((htimed w hw).warned t ht).append _, hrecent⟩

/-- What leaves the watch alone, move by move, keeps it getting ready. -/
theorem Watching.exec {own : Dongle Path → Prop} {stop : ℕ} {r : Reader Path}
    {ms : List (Move Path)} (h : Watching stop r) (hmute : Runs.Along move (Mute own stop) r ms)
    (hothers : Runs.Along move (Undisturbed own stop) r ms) :
    Watching stop (Runs.exec move r ms).1 := by
  refine Runs.exec_induction
    (fun pre m => Mute own stop (Runs.exec move r pre).1 m ∧
      Undisturbed own stop (Runs.exec move r pre).1 m)
    (fun _ r' _ => Watching stop r') h ?_ ms fun pre m post he =>
      ⟨hmute pre m post he, hothers pre m post he⟩
  rintro done m hw ⟨hm, ho⟩
  exact hw.step hm ho

/-- Between two visits of a dongle that says nothing, long enough apart, a watch that is
left alone gets ready. -/
theorem given_between (own : Dongle Path → Prop) (done between : List (Move Path))
    {p q : Pass Path} {d d' : Dongle Path} {x x' : Exchange Path}
    (hmono : (done ++ [Move.visit p d x] ++ between ++ [Move.visit q d' x']).Pairwise
      fun m m' => m.pass.now ≤ m'.pass.now)
    (hlong : wedgeSilence + probeEvery < q.now - p.now) (hown : own d) (hown' : own d')
    (hmute : Runs.Along move (Mute own q.now) (Runs.exec move new done).1
      ([.visit p d x] ++ between ++ [.visit q d' x']))
    (hothers : Runs.Along move (Undisturbed own q.now) (Runs.exec move new done).1
      ([.visit p d x] ++ between)) :
    ∃ t, Given (Runs.exec move new
        (done ++ [.visit p d x] ++ between ++ [.visit q d' x'])).2 t ∧
      q.now - t < wedgeReminder := by
  obtain ⟨hupto, -, hpast⟩ := List.pairwise_append.1 hmono
  obtain ⟨hearlier, -, -⟩ := List.pairwise_append.1 hupto
  obtain ⟨-, -, hbefore⟩ := List.pairwise_append.1 hearlier
  obtain ⟨hspan, hlast⟩ := Runs.along_append.1 hmute
  obtain ⟨hfirst, hbetween⟩ := Runs.along_append.1 hspan
  obtain ⟨-, hleft⟩ := Runs.along_append.1 hothers
  have hstart : Runs.exec move new (done ++ [.visit p d x]) =
      (((Runs.exec move new done).1.visit p d x).1,
        (Runs.exec move new done).2 ++ ((Runs.exec move new done).1.visit p d x).2) :=
    Runs.exec_snoc move new done _
  have hwatching : Watching q.now (Runs.exec move new (done ++ [.visit p d x] ++ between)).1 := by
    obtain ⟨-, s, hok, -⟩ := (Runs.along_cons.1 hfirst).1 hown
    have htimed := timed_exec hearlier p.now fun m hm => ?_
    · rw [hstart] at htimed
      have hbegun : Watching q.now _ := watching_of_listened hok htimed hlong
      rw [Runs.exec_append, hstart]
      exact hbegun.exec hbetween hleft
    · obtain hm | hm := List.mem_append.1 hm
      · exact hbefore m hm _ (List.mem_singleton_self _)
      · rw [List.mem_singleton.1 hm]
        exact le_rfl
  rw [Runs.exec_snoc]
  have htimed := timed_exec hupto q.now fun m hm => hpast m hm _ (List.mem_singleton_self _)
  refine given_of_watching own htimed hwatching ?_ hown'
  have hend := (Runs.along_cons.1 hlast).1
  rw [Runs.exec_append, Runs.exec_append]
  rwa [Runs.exec_append] at hend

/-- A dongle that is listed and says nothing in every pass of a span longer than the
silence and a look at the sound card, and streams unlinked at its end, has been warned
about within a reminder of that end, in every run in which the other dongles leave the
watch alone until the dongle is visited in the last pass. -/
theorem wedge_noticed (own : Dongle Path → Prop) (before mid : List (Pass Path))
    (first last : Pass Path)
    (hmono : (before ++ (first :: mid ++ [last])).Pairwise fun p q => p.now ≤ q.now)
    (hlong : wedgeSilence + probeEvery < last.now - first.now)
    (hlisted : ∀ p ∈ first :: mid ++ [last], ∃ v ∈ p.listed, own v.1)
    (hmute : Runs.Along move (Mute own last.now) (run before).1
      ((first :: mid ++ [last]).flatMap Pass.moves))
    (pre post : List (Move Path)) {d : Dongle Path} {x : Exchange Path}
    (hlast : last.moves = pre ++ .visit last d x :: post) (hown : own d)
    (hothers : Runs.Along move (Undisturbed own last.now) (run before).1
      ((first :: mid).flatMap Pass.moves ++ pre)) :
    ∃ node pid t silence,
      .warned node pid t silence ∈ (run (before ++ (first :: mid ++ [last]))).2 ∧
        last.now - t < wedgeReminder := by
  obtain ⟨v, hv, hownv⟩ := hlisted first (by simp)
  obtain ⟨lead, rest, hlead⟩ : ∃ lead rest,
      first.moves = lead ++ .visit first v.1 v.2 :: rest :=
    List.append_of_mem (List.mem_cons_of_mem _ (List.mem_map_of_mem hv))
  let between := rest ++ mid.flatMap Pass.moves ++ pre
  have hspan : (first :: mid ++ [last]).flatMap Pass.moves =
      lead ++ ([Move.visit first v.1 v.2] ++ between ++ [.visit last d x]) ++ post := by
    simp [hlead, hlast, between]
  have hothers' : (first :: mid).flatMap Pass.moves ++ pre =
      lead ++ ([Move.visit first v.1 v.2] ++ between) := by
    simp [hlead, between]
  have hall : (before ++ (first :: mid ++ [last])).flatMap Pass.moves =
      before.flatMap Pass.moves ++ lead ++ [Move.visit first v.1 v.2] ++ between ++
        [.visit last d x] ++ post := by
    rw [List.flatMap_append, hspan]
    simp
  have hstate : (Runs.exec move new (before.flatMap Pass.moves ++ lead)).1 =
      (Runs.exec move (run before).1 lead).1 := by
    rw [Runs.exec_append, ← run_eq_moves]
  have hordered := pairwise_moves hmono
  rw [hall] at hordered
  rw [hspan] at hmute
  rw [hothers'] at hothers
  have hsays := (Runs.along_append.1 hmute.prefix).2
  have hleft := (Runs.along_append.1 hothers).2
  rw [← hstate] at hsays hleft
  obtain ⟨t, ⟨node, pid, silence, hmem⟩, hrecent⟩ := given_between own _ between
    (List.pairwise_append.1 hordered).1 hlong hownv hown hsays hleft
  refine ⟨node, pid, t, silence, ?_, hrecent⟩
  rw [run_eq_moves, hall, Runs.exec_append]
  exact List.mem_append_left _ hmem

/-- A mute dongle on its own is warned about once the silence has lasted. -/
theorem wedge_noticed_of_mute :
    let first : Pass ℕ := .daily 0 [mute 0]
    let last : Pass ℕ := .daily 631 [mute 0]
    ∃ node pid t silence, .warned node pid t silence ∈ (run [first, last]).2 ∧
      last.now - t < wedgeReminder := by
  intro first last
  let own : Dongle ℕ → Prop := fun d => d.node = 4
  have hothers : ∀ (r : Reader ℕ) p, Undisturbed own last.now r (.visit p (mute 0).1 (mute 0).2) :=
    fun r p hother => absurd rfl hother
  refine wedge_noticed own [] [] first last (by decide) (by decide) ?_ (by decide)
    [.scan last] [] rfl rfl ?_
  · intro p hp
    obtain rfl | rfl : p = first ∨ p = last := by simpa using hp
    · exact ⟨mute 0, List.mem_singleton_self _, rfl⟩
    · exact ⟨mute 0, List.mem_singleton_self _, rfl⟩
  · refine Runs.along_cons.2 ⟨trivial, Runs.along_cons.2 ⟨hothers _ _, ?_⟩⟩
    exact Runs.along_cons.2 ⟨trivial, Runs.along_nil _ _ _⟩

/-- A pass over a mute dongle and one that reports its level every five minutes. -/
def inCompany (n : ℕ) : Pass ℕ :=
  .daily n [mute 0,
    (.on 0x4b19 5, .fetching (if n % 300 = 0 then batteryFrame 80 else silentFrame) 0)]

/-- A wedge that is never noticed. A dongle says nothing and streams for ten minutes and a
half, at passes a second apart; the other one's messages restart the silence. -/
theorem wedge_unnoticed_in_company :
    ¬∀ (own : Dongle ℕ → Prop) (before mid : List (Pass ℕ)) (first last : Pass ℕ),
      ((before ++ (first :: mid ++ [last])).Pairwise fun p q => p.now ≤ q.now) →
      ((before ++ (first :: mid ++ [last])).IsChain fun p q => q.now - p.now ≤ seconds 1) →
      wedgeSilence + probeEvery < last.now - first.now →
      (∀ p ∈ first :: mid ++ [last], ∃ v ∈ p.listed, own v.1) →
      Runs.Along move (Mute own last.now) (run before).1
        ((first :: mid ++ [last]).flatMap Pass.moves) →
      ∃ node pid t silence,
        .warned node pid t silence ∈ (run (before ++ (first :: mid ++ [last]))).2 ∧
          last.now - t < wedgeReminder := by
  intro h
  let own : Dongle ℕ → Prop := fun d => d.node = 4
  let mid : List (Pass ℕ) := (List.range' 1 630).map inCompany
  have hrange : 0 :: List.range' 1 630 ++ [631] = List.range 632 := by decide +kernel
  have hspan : inCompany 0 :: mid ++ [inCompany 631] = (List.range 632).map inCompany := by
    rw [← hrange]
    simp [mid]
  have hmono : (inCompany 0 :: mid ++ [inCompany 631]).Pairwise fun p q => p.now ≤ q.now := by
    rw [hspan, List.pairwise_map]
    exact List.pairwise_lt_range.imp fun hlt => Nat.mul_le_mul_right _ hlt.le
  have hclose : (inCompany 0 :: mid ++ [inCompany 631]).IsChain fun p q =>
      q.now - p.now ≤ seconds 1 := by
    decide +kernel
  have hlisted : ∀ p ∈ inCompany 0 :: mid ++ [inCompany 631], ∃ v ∈ p.listed, own v.1 := by
    rw [hspan]
    intro p hp
    obtain ⟨n, -, rfl⟩ := List.mem_map.1 hp
    exact ⟨mute 0, List.mem_cons_self, rfl⟩
  have hmute : Runs.Along move (Mute own (inCompany 631).now) (run []).1
      ((inCompany 0 :: mid ++ [inCompany 631]).flatMap Pass.moves) := by
    decide +kernel
  have hnone : (run (inCompany 0 :: mid ++ [inCompany 631])).2.any Event.isWarning = false := by
    decide +kernel
  obtain ⟨node, pid, t, silence, hmem, -⟩ := h own [] mid (inCompany 0) (inCompany 631) hmono
    hclose (by decide) hlisted hmute
  exact List.any_eq_false.1 hnone _ hmem rfl

end Reader

end HeadsetBattery.Maxwell
