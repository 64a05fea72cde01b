import HeadsetBattery.Maxwell.Listening
import HeadsetBattery.Maxwell.Listing
import HeadsetBattery.Maxwell.Standing

/-!
# A one-shot reading

The status command opens every dongle, asks, and listens for the answer for ten
more passes at most. The request that is out stays out: the interval of the later
passes never ends, so a session that asked does not ask again. What that leaves
open is a dongle reached through a second session.
-/
namespace HeadsetBattery.Maxwell

variable {Path : Type}

/-- How many times, at most, a one-shot reading looks for its answer. -/
def answerPolls : ℕ := 10

/-- `Duration::MAX`. -/
def durationMax : ℕ := (2 ^ 64 - 1) * 1000000000 + 999999999

/-- What the world is like at one pass: the dongles sysfs lists, each with what the
kernel answers, the wired headset, and the instant. -/
structure Look (Path : Type) where
  listed : List (Dongle Path × Exchange Path)
  wired : Bool
  now : ℕ

/-- The pass of a poll that does not listen before it asks. -/
def Look.pass (l : Look Path) (interval : ℕ) : Pass Path := ⟨l.listed, l.wired, l.now, interval, 0⟩

/-- No headset is unavailable. -/
def answered (headsets : List Headset) : Bool := headsets.all fun h => h.battery != .unavailable

/-- A reading under way: the reader, the headsets of its last pass, what it did so
far, and the passes it made. -/
structure Reading (Path : Type) [LinearOrder Path] where
  reader : Reader Path
  headsets : List Headset
  trace : List (Event Path)
  passes : List (Pass Path)

namespace Reading

variable [LinearOrder Path] [ToString Path]

/-- Make one pass. -/
def poll (reading : Reading Path) (p : Pass Path) : Reading Path :=
  let polled := reading.reader.reconcile p
  ⟨polled.1, Reader.headsets polled.2, reading.trace ++ polled.2, reading.passes ++ [p]⟩

/-- Look again until no headset is unavailable, a number of times at most. -/
def await (world : ℕ → Look Path) : ℕ → Reading Path → Reading Path
  | 0, reading => reading
  | polls + 1, reading =>
      if answered reading.headsets then reading
      else
        -- Listen only: the one request is already out.
        await world polls (reading.poll ((world reading.passes.length).pass durationMax))

end Reading

/-- A one-shot reading: open, ask once, and give the answer time to arrive. -/
def Reader.readOnce [LinearOrder Path] [ToString Path] (r : Reader Path) (world : ℕ → Look Path) :
    Reading Path :=
  ((⟨r, [], [], []⟩ : Reading Path).poll ((world 0).pass 0)).await world answerPolls

namespace Reading

variable [LinearOrder Path] [ToString Path]

/-- What a reading has done is the run of its passes: one that asks whatever the
interval, and then those that listen only. -/
structure Made (r : Reader Path) (world : ℕ → Look Path) (reading : Reading Path) : Prop where
  run : Runs.exec Reader.reconcile r reading.passes = (reading.reader, reading.trace)
  cadence : ∃ later, reading.passes = (world 0).pass 0 :: later ∧
    ∀ p ∈ later, p.interval = durationMax ∧ p.listenFirst = 0

theorem Made.poll {r : Reader Path} {world : ℕ → Look Path} {reading : Reading Path}
    (h : reading.Made r world) (l : Look Path) : (reading.poll (l.pass durationMax)).Made r world where
  run := by rw [Reading.poll, Runs.exec_snoc, h.run]
  cadence := by
    obtain ⟨later, hpasses, hlater⟩ := h.cadence
    refine ⟨later ++ [l.pass durationMax], by simp [Reading.poll, hpasses], fun p hp => ?_⟩
    obtain hold | hnew := List.mem_append.1 hp
    · exact hlater p hold
    · rw [List.mem_singleton.1 hnew]
      exact ⟨rfl, rfl⟩

theorem made_await {r : Reader Path} {world : ℕ → Look Path} (polls : ℕ) {reading : Reading Path}
    (h : reading.Made r world) : (reading.await world polls).Made r world := by
  induction polls generalizing reading with
  | zero => exact h
  | succ polls ih =>
      unfold await
      split
      · exact h
      · exact ih (h.poll _)

theorem made_readOnce (r : Reader Path) (world : ℕ → Look Path) : (r.readOnce world).Made r world :=
  made_await answerPolls ⟨by simp [poll, Runs.exec_cons], [], rfl, by simp⟩

end Reading

/-! ## Requests -/

/-- The node a request was written to. -/
def Event.asks? : Event Path → Option Path
  | .requested node _ _ => some node
  | _ => none

/-- The nodes requests were written to, oldest first. -/
def askedNodes (tr : List (Event Path)) : List Path := tr.filterMap Event.asks?

/-! ## The sessions of a reading -/

namespace Session

variable {start : ℕ} {s : Session Path}

/-- In a reading that began at `start`: a session that has asked did so since then, and
one that has not has no request open. -/
structure Asking (start : ℕ) (s : Session Path) : Prop where
  unasked : s.askedAt = none → s.pending = false ∧ s.unanswered = 0
  since : ∀ a, s.askedAt = some a → start ≤ a

theorem asking_opened (start : ℕ) (d : Dongle Path) (link : Link) (openedAt : ℕ) :
    (opened d link openedAt).Asking start :=
  ⟨fun _ => ⟨rfl, rfl⟩, by simp [opened]⟩

theorem Asking.takeIn (h : s.Asking start) (frame : Frame) (readings : ℕ) :
    (s.takeIn frame readings).1.Asking start := by
  unfold Session.takeIn
  constructor
  · rw [askedAt_hearAll]
    exact fun hnone => unasked_hearAll readings _ (h.unasked hnone)
  · rw [askedAt_hearAll]
    exact h.since

theorem Asking.countLost (h : s.Asking start) (hnone : s.askedAt = none) :
    s.countLost.Asking start := by
  obtain ⟨hpending, hunanswered⟩ := h.unasked hnone
  refine ⟨fun _ => ⟨hpending, ?_⟩, h.since⟩
  simp [Session.countLost, hpending, hunanswered]

/-- How an open session stands. -/
def standing (s : Session Path) : Standing := if s.askedAt.isSome then .asked else .waiting

theorem standing_ne_closed (s : Session Path) : s.standing ≠ .closed := by
  unfold standing
  split <;> simp

/-- A session that asked in the last ten seconds is not due again before its interval. -/
theorem question_of_asked {now interval a : ℕ} (h : s.Asking start) (ha : s.askedAt = some a)
    (hlong : seconds 10 ≤ interval) (hsoon : now < start + seconds 10) (first : ℕ)
    (written : Except IoError Unit) : s.question now interval first written = (s, none) := by
  cases hdue : s.shouldAsk now interval first with
  | false => simp [question, hdue]
  | true =>
      have hgap := spaced_of_shouldAsk hdue ha
      have hstart := h.since a ha
      rw [min_eq_right hlong] at hgap
      have hten : 0 < seconds 10 := by decide
      omega

/-- A session that has not asked asks at once. -/
theorem question_of_unasked (h : s.Asking start) (hnone : s.askedAt = none) (now interval : ℕ)
    (written : Except IoError Unit) :
    written = .ok () ∧ s.question now interval 0 written = (s.countLost.sent now, some .sent) ∨
      ∃ err, written = .error err ∧
        s.question now interval 0 written = (s.countLost, some (.failed err)) := by
  rcases s.question_cases now interval 0 written with
    ⟨hnot, -⟩ | ⟨-, -, hmute, -⟩ | ⟨-, -, ⟨hw, hq⟩ | ⟨err, hw, hq⟩⟩
  · cases hl : s.link <;> simp [shouldAsk, hl, hnone] at hnot
  · obtain ⟨hpending, hunanswered⟩ := h.unasked hnone
    simp [hpending, hunanswered, maxUnanswered] at hmute
  · exact .inl ⟨hw, hq⟩
  · exact .inr ⟨err, hw, hq⟩

end Session

@[simp] theorem askedNodes_nil : askedNodes ([] : List (Event Path)) = [] := rfl

@[simp] theorem askedNodes_cons (e : Event Path) (tr : List (Event Path)) :
    askedNodes (e :: tr) = e.asks?.toList ++ askedNodes tr := by
  unfold askedNodes
  rw [List.filterMap_cons]
  cases e.asks? <;> rfl

@[simp] theorem askedNodes_append (tr es : List (Event Path)) :
    askedNodes (tr ++ es) = askedNodes tr ++ askedNodes es := List.filterMap_append

theorem askedNodes_eq_nil {tr : List (Event Path)} (h : ∀ e ∈ tr, e.asks? = none) :
    askedNodes tr = [] := List.filterMap_eq_nil_iff.2 h

namespace Reader

variable [LinearOrder Path]

/-- How a node stands with a reader. -/
def standing (r : Reader Path) (node : Path) : Standing :=
  (r.session? node).elim .closed Session.standing

theorem standing_congr {r r' : Reader Path} {node : Path} (h : r'.session? node = r.session? node) :
    r'.standing node = r.standing node := by
  rw [standing, standing, h]

@[simp] theorem askedNodes_enter (r : Reader Path) (d : Dongle Path) (s : Session Path) :
    askedNodes (r.enter d s).2 = [] := by
  unfold enter
  split <;> rfl

@[simp] theorem askedNodes_hear (r : Reader Path) (node : Path) (s : Session Path) (frame : Frame)
    (now : ℕ) : askedNodes (r.hear node s frame now).2 = [] :=
  askedNodes_eq_nil fun e he => by obtain ⟨m, -, rfl⟩ | rfl := mem_hear he <;> rfl

@[simp] theorem askedNodes_suspect (r : Reader Path) (node : Path) (s : Session Path) (now : ℕ)
    (playback : Path → Option Bool) : askedNodes (r.suspect node s now playback).2 = [] :=
  askedNodes_eq_nil fun e he => by
    obtain ⟨silence, rfl⟩ := mem_suspect he
    rfl

omit [LinearOrder Path] in
@[simp] theorem askedNodes_askedEvents (node : Path) (s : Session Path) (now : ℕ)
    (asked : Option Asked) :
    askedNodes (askedEvents node s now asked) = if asked = some .sent then [node] else [] := by
  rcases asked with _ | _ | _ | err <;> rfl

@[simp] theorem askedNodes_close (r : Reader Path) (node : Path) :
    askedNodes (r.close node).2 = [] := by
  unfold close
  split <;> rfl

@[simp] theorem askedNodes_reportRecovery (r : Reader Path) :
    askedNodes r.reportRecovery.2 = [] :=
  askedNodes_eq_nil fun e he => by
    rw [mem_reportRecovery he]
    rfl

/-- What a visit to an open session makes of how it stands. -/
theorem meet_standing {r : Reader Path} {d : Dongle Path} {x : Exchange Path} {s : Session Path}
    (h : r.sessionFor d x = .ok s) :
    (r.standing d.node).meet (some x) = s.standing.listen x := by
  obtain hheld | ⟨hnone, hopen, rfl⟩ := sessionFor_eq_ok.1 h
  · simp [standing, hheld, Standing.meet, s.standing_ne_closed]
  · simp [standing, hnone, Standing.meet, hopen, Session.standing, Session.opened]

/-- What listening to an open session leaves it with, and what it asks. -/
theorem standing_listenTo {r : Reader Path} {p : Pass Path} {d : Dongle Path} {x : Exchange Path}
    {s : Session Path} {start : ℕ} (hs : r.sessionFor d x = .ok s) (h : s.Asking start)
    (hfirst : p.listenFirst = 0) (hlong : s.askedAt = none ∨ seconds 10 ≤ p.interval)
    (htime : start ≤ p.now) (hsoon : p.now < start + seconds 10) :
    ∃ t, (r.listenTo p d x).1.session? d.node = some t ∧ t.Asking start ∧
      askedNodes (r.listenTo p d x).2.1 = (if (s.standing.listen x).2 then [d.node] else []) ∧
      ((∃ told, (r.listenTo p d x).2.2 = .ok told ∧ (s.standing.listen x).1 = t.standing) ∨
        ∃ err, (r.listenTo p d x).2.2 = .error err ∧
          (s.standing.listen x).1 = if err.gone then .closed else t.standing) := by
  rcases hf : x.fetched with err | frame
  · refine ⟨s, ?_, h, ?_, .inr ⟨err, ?_, ?_⟩⟩
    · simp [listenTo, hs, hf, session?_enter hs]
    · simp [listenTo, hs, hf, Standing.listen]
    · simp [listenTo, hs, hf]
    · simp [Standing.listen, hf]
  have htold := h.takeIn frame r.readings
  have hsame : (s.takeIn frame r.readings).1.askedAt = s.askedAt :=
    Session.askedAt_hearAll _ _ _
  have hlisten := listenTo_of_asked (p := p) hs hf
  have hfailed := fun err => @listenTo_of_failed _ _ r p d x s frame err hs hf
  rw [hfirst] at hlisten hfailed
  cases hasked : s.askedAt with
  | some a =>
      rw [hasked] at hsame
      have hlong : seconds 10 ≤ p.interval := by simpa [hasked] using hlong
      rw [Session.question_of_asked htold hsame hlong hsoon] at hlisten
      have hl := hlisten (by simp)
      refine ⟨_, ?_, htold, ?_, .inl ⟨_, by rw [hl], ?_⟩⟩
      · simp [hl]
      · simp [hl, Standing.listen, hf, Session.standing, hasked]
      · simp [Standing.listen, hf, Session.standing, hasked, hsame]
  | none =>
      rw [hasked] at hsame
      obtain ⟨hw, hq⟩ | ⟨err, hw, hq⟩ :=
        Session.question_of_unasked htold hsame p.now p.interval x.written
      · rw [hq] at hlisten
        have hl := hlisten (by simp)
        refine ⟨(s.takeIn frame r.readings).1.countLost.sent p.now, ?_,
          ⟨fun hnone => absurd hnone (by simp), fun a ha => ?_⟩, ?_, .inl ⟨_, by rw [hl], ?_⟩⟩
        · simp [hl]
        · obtain rfl := Option.some.inj ha
          exact htime
        · simp [hl, Standing.listen, hf, hw, Session.standing, hasked]
        · simp [Standing.listen, hf, hw, Session.standing, hasked]
      · have hl := hfailed err (by rw [hq])
        rw [hq] at hl
        refine ⟨_, ?_, htold.countLost hsame, ?_, .inr ⟨err, by rw [hl], ?_⟩⟩
        · simp [hl]
        · simp [hl, Standing.listen, hf, hw, Session.standing, hasked]
        · simp [Standing.listen, hf, hw, Session.standing, hasked, hsame]

variable [ToString Path]

theorem askedNodes_visit (r : Reader Path) (p : Pass Path) (d : Dongle Path) (x : Exchange Path) :
    askedNodes (r.visit p d x).2 = askedNodes (r.listenTo p d x).2.1 := by
  cases hl : (r.listenTo p d x).2.2 with
  | ok s => simp [visit, hl, Event.asks?]
  | error err =>
      simp only [visit, hl, askedNodes_append]
      split <;> simp [reportError, Event.asks?]

/-- A visit leaves other nodes alone. -/
theorem visit_elsewhere (r : Reader Path) (p : Pass Path) {d : Dongle Path} (x : Exchange Path)
    {node : Path} (h : node ≠ d.node) :
    (r.visit p d x).1.session? node = r.session? node ∧ node ∉ askedNodes (r.visit p d x).2 := by
  constructor
  · exact session?_visit_of_ne r p x h
  · refine (visit_chain r p d x).keeps (fun _ tr => node ∉ askedNodes tr)
      (fun r₁ es r₂ tr c hi => ?_) [] (by simp)
    cases c with
    | sent => simpa [hi, Event.asks?] using h
    | heard | suspected | reachable | lost => simpa using hi
    | _ => simpa [reportError, Event.asks?] using hi

/-- A node after some moves that met it so: how it stands, with a session that keeps to
the reading, and whether a request was written to it. -/
structure Followed (start : ℕ) (node : Path) (met : Standing × Bool) (r : Reader Path)
    (es : List (Event Path)) : Prop where
  asking : ∀ s, r.session? node = some s → s.Asking start
  standing : r.standing node = met.1
  asked : (askedNodes es).count node = met.2.toNat

namespace Followed

variable {start : ℕ} {node : Path} {met : Standing × Bool} {r r' : Reader Path}
  {es fs : List (Event Path)}

omit [ToString Path]

/-- Moves elsewhere before those that met the node. -/
theorem since (h : Followed start node met r es) (hnone : node ∉ askedNodes fs) :
    Followed start node met r (fs ++ es) :=
  ⟨h.asking, h.standing, by
    rw [askedNodes_append, List.count_append, List.count_eq_zero_of_not_mem hnone, h.asked,
      Nat.zero_add]⟩

/-- Moves elsewhere after those that met the node. -/
theorem still (h : Followed start node met r es) (hsession : r'.session? node = r.session? node)
    (hnone : node ∉ askedNodes fs) : Followed start node met r' (es ++ fs) where
  asking s hs := h.asking s (hsession ▸ hs)
  standing := (standing_congr hsession).trans h.standing
  asked := by
    rw [askedNodes_append, List.count_append, List.count_eq_zero_of_not_mem hnone, h.asked,
      Nat.add_zero]

end Followed

/-- A pass of a reading that began at `start`: it listens for nothing before asking, and its
interval is short only where the node has no session yet. -/
structure Brief (start : ℕ) (node : Path) (r : Reader Path) (p : Pass Path) : Prop where
  nodes : (p.listed.map fun v => v.1.node).Nodup
  first : p.listenFirst = 0
  long : r.session? node = none ∨ seconds 10 ≤ p.interval
  past : start ≤ p.now
  soon : p.now < start + seconds 10

theorem followed_visit {start : ℕ} {r : Reader Path} {p : Pass Path} {d : Dongle Path}
    (x : Exchange Path) (h : ∀ s, r.session? d.node = some s → s.Asking start)
    (hp : Brief start d.node r p) :
    Followed start d.node ((r.standing d.node).meet (some x)) (r.visit p d x).1
      (r.visit p d x).2 := by
  obtain ⟨hok, herror⟩ := session?_visit_eq r p d x d.node
  cases hs : r.sessionFor d x with
  | error err =>
      have hlisten : r.listenTo p d x = (r, [], .error err) := by simp [listenTo, hs]
      have hnone := sessionFor_eq_error.1 hs
      have hafter : (r.visit p d x).1.session? d.node = none := by
        rw [herror err (by rw [hlisten]), hlisten, hnone.1, ite_self]
      refine ⟨fun s hheld => ?_, ?_, ?_⟩
      · rw [hafter] at hheld
        cases hheld
      · simp [standing, hafter, hnone, Standing.meet]
      · simp [askedNodes_visit, hlisten, standing, hnone, Standing.meet]
  | ok s =>
      have hasking : s.Asking start ∧ (s.askedAt = none ∨ seconds 10 ≤ p.interval) := by
        obtain hheld | ⟨-, -, rfl⟩ := sessionFor_eq_ok.1 hs
        · exact ⟨h s hheld, .inr (hp.long.resolve_left (by simp [hheld]))⟩
        · exact ⟨Session.asking_opened start d _ _, .inl rfl⟩
      obtain ⟨t, hheld, ht, hasked, hend⟩ :=
        standing_listenTo hs hasking.1 hp.first hasking.2 hp.past hp.soon
      rw [meet_standing hs]
      have hcount : (askedNodes (r.visit p d x).2).count d.node =
          (s.standing.listen x).2.toNat := by
        rw [askedNodes_visit, hasked]
        cases (s.standing.listen x).2 <;> simp
      obtain ⟨told, hl, hstanding⟩ | ⟨err, hl, hstanding⟩ := hend
      · have hafter : (r.visit p d x).1.session? d.node = some t := (hok told hl).trans hheld
        refine ⟨fun s' hs' => ?_, ?_, hcount⟩
        · obtain rfl := Option.some.inj (hafter.symm.trans hs')
          exact ht
        · simp [standing, hafter, hstanding]
      · have hafter := herror err hl
        rw [hheld] at hafter
        refine ⟨fun s' hs' => ?_, ?_, hcount⟩
        · rw [hafter] at hs'
          split at hs'
          · cases hs'
          · obtain rfl := Option.some.inj hs'
            exact ht
        · rw [standing, hafter, hstanding]
          cases err.gone <;> simp

/-- The visits to other nodes. -/
theorem visits_elsewhere {p : Pass Path} {node : Path}
    {visits : List (Dongle Path × Exchange Path)} (h : ∀ v ∈ visits, v.1.node ≠ node)
    (r : Reader Path) :
    let done := Runs.exec move r (visits.map fun v => .visit p v.1 v.2)
    done.1.session? node = r.session? node ∧ node ∉ askedNodes done.2 := by
  induction visits generalizing r with
  | nil => simp
  | cons v visits ih =>
      obtain ⟨hv, hvisits⟩ := List.forall_mem_cons.1 h
      obtain ⟨hsession, hasked⟩ := visit_elsewhere r p v.2 hv.symm
      obtain ⟨hrest, hnone⟩ := ih hvisits (r.visit p v.1 v.2).1
      refine ⟨hrest.trans hsession, ?_⟩
      change node ∉ askedNodes ((r.visit p v.1 v.2).2 ++ _)
      rw [askedNodes_append, List.mem_append, not_or]
      exact ⟨hasked, hnone⟩

end Reader

/-- What a pass meets on a node: how the visit goes, if the node is listed. -/
def Pass.contact [DecidableEq Path] (p : Pass Path) (node : Path) : Option (Exchange Path) :=
  (p.listed.find? fun v => v.1.node = node).map Prod.snd

namespace Reader

variable [LinearOrder Path] [ToString Path]

theorem askedNodes_scan (r : Reader Path) (p : Pass Path) :
    askedNodes (r.move (.scan p)).2 = [] := by
  refine askedNodes_eq_nil fun e he => ?_
  cases e with
  | requested node pid sentAt => exact absurd he (not_requested_of_scan r p node pid sentAt)
  | _ => rfl

/-- The session of a node that a pass lists is met once, and between visits to others. -/
theorem followed_listed {start : ℕ} {r : Reader Path} {p : Pass Path} {d : Dongle Path}
    {x : Exchange Path} {before later : List (Dongle Path × Exchange Path)}
    (h : ∀ s, r.session? d.node = some s → s.Asking start) (hp : Brief start d.node r p)
    (hlisted : p.listed = before ++ (d, x) :: later) :
    let done := Runs.exec move r (p.listed.map fun v => .visit p v.1 v.2)
    Followed start d.node ((r.standing d.node).meet (some x)) done.1 done.2 := by
  have hnodes := hp.nodes
  rw [hlisted, List.map_append, List.map_cons, List.nodup_append, List.nodup_cons] at hnodes
  obtain ⟨-, ⟨hlater, -⟩, hbefore⟩ := hnodes
  have hearlier : ∀ v ∈ before, v.1.node ≠ d.node := fun v hv =>
    hbefore _ (List.mem_map_of_mem hv) _ (by simp)
  have hafter : ∀ v ∈ later, v.1.node ≠ d.node := fun v hv he =>
    hlater (he ▸ List.mem_map_of_mem hv)
  obtain ⟨hcame, hnone⟩ := visits_elsewhere (p := p) hearlier r
  set came := Runs.exec move r (before.map fun v => .visit p v.1 v.2)
  have hmet : Followed start d.node ((came.1.standing d.node).meet (some x))
      (came.1.visit p d x).1 (came.1.visit p d x).2 := by
    refine followed_visit x (by rwa [hcame]) ⟨hp.nodes, hp.first, ?_, hp.past, hp.soon⟩
    rw [hcame]
    exact hp.long
  obtain ⟨hgone, hquiet⟩ := visits_elsewhere (p := p) hafter (came.1.visit p d x).1
  rw [standing_congr hcame] at hmet
  simp only [hlisted, List.map_append, List.map_cons, Runs.exec_append, Runs.exec_cons]
  exact (hmet.still hgone hquiet).since hnone

/-- One pass, for one node. -/
theorem followed_reconcile {start : ℕ} {r : Reader Path} {p : Pass Path} {node : Path}
    (h : ∀ s, r.session? node = some s → s.Asking start) (hp : Brief start node r p) :
    Followed start node ((r.standing node).meet (p.contact node)) (r.reconcile p).1
      (r.reconcile p).2 := by
  have hscan : (r.move (.scan p)).1.session? node =
      if p.listed.any (fun v => v.1.node = node) then r.session? node else none :=
    session?_closeVanished r p node
  rw [reconcile, Pass.moves, Runs.exec_cons]
  cases hfind : p.listed.find? fun v => v.1.node = node with
  | none =>
      have hnone : ∀ v ∈ p.listed, v.1.node ≠ node := by simpa using hfind
      have hunlisted : p.listed.any (fun v => v.1.node = node) = false := by simpa using hnone
      rw [hunlisted] at hscan
      obtain ⟨hsession, hasked⟩ := visits_elsewhere (p := p) hnone (r.move (.scan p)).1
      have hmet : (r.standing node).meet (p.contact node) = (.closed, false) := by
        rw [Pass.contact, hfind]
        rfl
      have hclosed : Followed start node (.closed, false) (r.move (.scan p)).1
          (r.move (.scan p)).2 := by
        refine ⟨fun s hs => ?_, ?_, ?_⟩
        · rw [hscan] at hs
          cases hs
        · simp [standing, hscan]
        · simp [askedNodes_scan]
      rw [hmet]
      exact hclosed.still hsession hasked
  | some v =>
      obtain ⟨hnode, before, later, hlisted, -⟩ := List.find?_eq_some_iff_append.1 hfind
      obtain rfl : v.1.node = node := by simpa using hnode
      have hlists : p.listed.any (fun w => w.1.node = v.1.node) = true := by simp [hlisted]
      rw [hlists, if_pos rfl] at hscan
      have hcontact : p.contact v.1.node = some v.2 := by rw [Pass.contact, hfind]; rfl
      have hlong : (r.move (.scan p)).1.session? v.1.node = none ∨ seconds 10 ≤ p.interval := by
        rw [hscan]
        exact hp.long
      have hmet := followed_listed (r := (r.move (.scan p)).1) (by rwa [hscan])
        ⟨hp.nodes, hp.first, hlong, hp.past, hp.soon⟩ hlisted
      rw [standing_congr hscan, ← hcontact] at hmet
      exact hmet.since (by simp [askedNodes_scan])

/-- Passes that ask a session that has asked no sooner than in ten seconds. -/
theorem count_asked {start : ℕ} {node : Path} {passes : List (Pass Path)}
    (hall : ∀ p ∈ passes, (p.listed.map fun v => v.1.node).Nodup ∧ p.listenFirst = 0 ∧
      seconds 10 ≤ p.interval ∧ start ≤ p.now ∧ p.now < start + seconds 10)
    {r : Reader Path} (h : ∀ s, r.session? node = some s → s.Asking start) :
    (askedNodes (Runs.exec reconcile r passes).2).count node =
      (r.standing node).asks (passes.map fun p => p.contact node) := by
  induction passes generalizing r with
  | nil => rfl
  | cons p passes ih =>
      obtain ⟨⟨hnodes, hfirst, hlong, hpast, hsoon⟩, hrest⟩ := List.forall_mem_cons.1 hall
      have hmet := followed_reconcile h ⟨hnodes, hfirst, .inr hlong, hpast, hsoon⟩
      rw [Runs.exec_cons, askedNodes_append, List.count_append, ih hrest hmet.asking, hmet.asked,
        hmet.standing]
      rfl

/-- The requests of a reading to one node. -/
theorem count_readOnce (world : ℕ → Look Path) (node : Path)
    (hnodes : ∀ p ∈ (new.readOnce world).passes, (p.listed.map fun v => v.1.node).Nodup)
    (htime : ∀ p ∈ (new.readOnce world).passes,
      (world 0).now ≤ p.now ∧ p.now < (world 0).now + seconds 10) :
    (askedNodes (new.readOnce world).trace).count node =
      Standing.closed.asks ((new.readOnce world).passes.map fun p => p.contact node) := by
  obtain ⟨hrun, later, hpasses, hlater⟩ := Reading.made_readOnce new world
  have htrace : (Runs.exec reconcile new _).2 = (new.readOnce world).trace := congrArg Prod.snd hrun
  rw [hpasses] at hnodes htime htrace ⊢
  obtain ⟨hfirst, hrest⟩ := List.forall_mem_cons.1 htime
  have hopening : Brief (world 0).now node new ((world 0).pass 0) :=
    ⟨hnodes _ (by simp), rfl, .inl rfl, hfirst.1, hfirst.2⟩
  have hmet := followed_reconcile (fun s hs => by cases hs) hopening
  have hlistening : ∀ p ∈ later, (p.listed.map fun v => v.1.node).Nodup ∧ p.listenFirst = 0 ∧
      seconds 10 ≤ p.interval ∧ (world 0).now ≤ p.now ∧ p.now < (world 0).now + seconds 10 := by
    intro p hp
    refine ⟨hnodes p (by simp [hp]), (hlater p hp).2, ?_, hrest p hp⟩
    rw [(hlater p hp).1]
    decide
  rw [← htrace, Runs.exec_cons, askedNodes_append, List.count_append,
    count_asked hlistening hmet.asking, hmet.asked, hmet.standing]
  rfl

end Reader

variable [LinearOrder Path] [ToString Path]

/-- The dongle with these nodes is reached on two of them, or on one again after it was
lost. -/
def ReachedTwice (mine : Path → Prop) (passes : List (Pass Path)) : Prop :=
  (∃ node node', node ≠ node' ∧ (mine node ∧ Reached (passes.map fun p => p.contact node)) ∧
    mine node' ∧ Reached (passes.map fun p => p.contact node')) ∨
  ∃ node, mine node ∧ ReachedAgain (passes.map fun p => p.contact node)

/-- A one-shot reading within ten seconds, from a reader with no dongle open. At most one
request is written to a dongle, whichever nodes it has meanwhile, exactly if it is not
reached on two of them, nor on one again after that was lost. -/
theorem asked_once_iff (world : ℕ → Look Path) (mine : Path → Prop) [DecidablePred mine]
    (hnodes : ∀ p ∈ (Reader.new.readOnce world).passes, (p.listed.map fun v => v.1.node).Nodup)
    (htime : ∀ p ∈ (Reader.new.readOnce world).passes,
      (world 0).now ≤ p.now ∧ p.now < (world 0).now + seconds 10) :
    (askedNodes (Reader.new.readOnce world).trace).countP mine ≤ 1 ↔
      ¬ReachedTwice mine (Reader.new.readOnce world).passes := by
  have hcount := fun node => Reader.count_readOnce world node hnodes htime
  have hreached (node : Path) : node ∈ askedNodes (Reader.new.readOnce world).trace ↔
      Reached ((Reader.new.readOnce world).passes.map fun p => p.contact node) := by
    rw [← List.one_le_count_iff, hcount, Standing.one_le_asks]
    rfl
  have hagain (node : Path) : 2 ≤ (askedNodes (Reader.new.readOnce world).trace).count node ↔
      ReachedAgain ((Reader.new.readOnce world).passes.map fun p => p.contact node) := by
    rw [hcount, Standing.two_le_asks]
    rfl
  rw [← not_lt, not_iff_not]
  change 2 ≤ _ ↔ _
  rw [Traces.two_le_countP, ReachedTwice]
  simp only [hreached, hagain]

/-- One dongle, on a node of its own at each pass, and how each visit to it goes; the
passes are sixty milliseconds apart. -/
def lookAt (node : ℕ → ℕ) (visit : ℕ → Exchange ℕ) (k : ℕ) : Look ℕ :=
  ⟨[(Dongle.on 0x4b18 (node k), visit k)], false, k * 60000000⟩

/-- A dongle that answers the second time it is looked at: it was asked once, and was not
reached twice. -/
theorem asked_once_iff_of_answer :
    let visit (k : ℕ) := Exchange.fetching (if k = 0 then silentFrame else batteryFrame 80) 0
    let reading := Reader.new.readOnce (lookAt (fun _ => 4) visit)
    reading.headsets.map Headset.battery = [.discharging 80] ∧ askedNodes reading.trace = [4] ∧
      ¬ReachedTwice (· = 4) reading.passes := by
  intro visit reading
  have hasked : askedNodes reading.trace = [4] := by decide +kernel
  refine ⟨by decide +kernel, hasked, ?_⟩
  refine (asked_once_iff (lookAt (fun _ => 4) visit) (· = 4) (by decide +kernel)
    (by decide +kernel)).1 ?_
  change (askedNodes reading.trace).countP _ ≤ 1
  rw [hasked]
  decide

/-- A dongle that vanishes after it was asked and is back at the next pass is asked again,
and so is one that is back under another node. -/
theorem asked_twice_when_reopened :
    let visit (k : ℕ) : Exchange ℕ :=
      if k = 1 then .vanishing 0 else .fetching (if k < 3 then silentFrame else batteryFrame 80) 0
    let vanishing := Reader.new.readOnce (lookAt (fun _ => 4) visit)
    let moving := Reader.new.readOnce (lookAt (fun k => if k = 0 then 4 else 5) visit)
    askedNodes vanishing.trace = [4, 4] ∧ askedNodes moving.trace = [4, 5] ∧
      ∀ p ∈ vanishing.passes ++ moving.passes,
        (p.listed.map fun v => v.1.node).Nodup ∧ p.now < seconds 10 := by
  decide +kernel

end HeadsetBattery.Maxwell
