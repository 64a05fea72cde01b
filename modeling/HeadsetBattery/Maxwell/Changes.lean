import HeadsetBattery.Maxwell.Reader

/-!
# What a reader can do

Every move of a reader is a chain of the few changes listed here. An invariant
of the reader is proved change by change, and holds after every run.
-/
namespace HeadsetBattery.Maxwell.Reader

variable {Path : Type} [LinearOrder Path]

@[simp] theorem session?_put (r : Reader Path) (node node' : Path) (s : Session Path) :
    (r.put node s).session? node' = if node' = node then some s else r.session? node' :=
  OrderedMap.get?_insert _ _ _ _

@[simp] theorem session?_drop (r : Reader Path) (node node' : Path) (s : Session Path) :
    (r.drop node s).session? node' = if node' = node then none else r.session? node' :=
  OrderedMap.get?_erase _ _ _

theorem held_of_drop {r : Reader Path} {node node' : Path} {s t : Session Path}
    (h : (r.drop node s).session? node' = some t) : node' ≠ node ∧ r.session? node' = some t := by
  rw [session?_drop] at h
  split at h
  · cases h
  next hne => exact ⟨hne, h⟩

@[simp] theorem session?_close (r : Reader Path) (node node' : Path) :
    (r.close node).1.session? node' = if node' = node then none else r.session? node' := by
  unfold close
  split
  · exact session?_drop _ _ _ _
  next hnone =>
    split
    next heq => rw [heq, hnone]
    next => rfl

/-- The scan closes the sessions of the nodes that are not listed, and no others. -/
theorem session?_closeVanished (r : Reader Path) (p : Pass Path) (node : Path) :
    (r.closeVanished p).1.session? node =
      if p.listed.any (fun v => v.1.node = node) then r.session? node else none := by
  have hclosing : ∀ (l : List Path) (r : Reader Path),
      (Runs.exec (fun r n => if p.listed.any (fun v => v.1.node = n) then (r, []) else r.close n)
        r l).1.session? node =
      if node ∈ l ∧ ¬p.listed.any (fun v => v.1.node = node) then none else r.session? node := by
    intro l
    induction l with
    | nil => simp
    | cons n l ih =>
        intro r
        rw [Runs.exec_cons, ih]
        by_cases hn : p.listed.any (fun v => v.1.node = n)
        · rw [if_pos hn]
          grind
        · rw [if_neg hn]
          grind [session?_close]
  rw [closeVanished, hclosing]
  cases hheld : r.session? node with
  | none => simp
  | some s =>
      have hmem : node ∈ r.sessions.entries.map Prod.fst :=
        List.mem_map_of_mem ((OrderedMap.get?_eq_some _).1 hheld)
      by_cases hlisted : p.listed.any (fun v => v.1.node = node)
      · rw [if_pos hlisted, if_neg fun h => h.2 hlisted]
      · rw [if_neg hlisted, if_pos ⟨hmem, hlisted⟩]

@[simp] theorem lastLink_drop (r : Reader Path) (node : Path) (s : Session Path) :
    (r.drop node s).lastLink = Function.update r.lastLink s.productId (some s.link) := rfl

@[simp] theorem readings_put (r : Reader Path) (node : Path) (s : Session Path) :
    (r.put node s).readings = r.readings := rfl

@[simp] theorem lastLink_put (r : Reader Path) (node : Path) (s : Session Path) :
    (r.put node s).lastLink = r.lastLink := rfl

@[simp] theorem wedge_put (r : Reader Path) (node : Path) (s : Session Path) :
    (r.put node s).wedge = r.wedge := rfl

@[simp] theorem session?_new (node : Path) : (new : Reader Path).session? node = none := rfl

theorem put_self {r : Reader Path} {node : Path} {s : Session Path}
    (held : r.session? node = some s) : r.put node s = r := by
  rw [put, OrderedMap.insert_self _ held]

/-- A visit listens to the session that is open on its node, or to a new one that takes
over the belief about its product. -/
theorem sessionFor_eq_ok {r : Reader Path} {d : Dongle Path} {x : Exchange Path}
    {s : Session Path} :
    r.sessionFor d x = .ok s ↔ r.session? d.node = some s ∨
      r.session? d.node = none ∧ x.opens = .ok () ∧
        s = Session.opened d ((r.lastLink d.productId).getD .unknown) x.openedAt := by
  cases hold : r.session? d.node with
  | some t => simp [sessionFor, hold]
  | none =>
      cases hopen : x.opens with
      | error err => simp [sessionFor, hold, hopen]
      | ok u => simp [sessionFor, hold, hopen, eq_comm]

theorem sessionFor_eq_error {r : Reader Path} {d : Dongle Path} {x : Exchange Path}
    {err : IoError} :
    r.sessionFor d x = .error err ↔ r.session? d.node = none ∧ x.opens = .error err := by
  cases hold : r.session? d.node with
  | some t => simp [sessionFor, hold]
  | none => cases hopen : x.opens <;> simp [sessionFor, hold, hopen]

/-- A visit listens to the session it finds under its node, or puts there. -/
theorem session?_enter {r : Reader Path} {d : Dongle Path} {x : Exchange Path} {s : Session Path}
    (h : r.sessionFor d x = .ok s) : (r.enter d s).1.session? d.node = some s := by
  obtain hold | ⟨hold, -, -⟩ := sessionFor_eq_ok.1 h
  · simp [enter, hold]
  · simp [enter, hold]

@[simp] theorem readings_enter (r : Reader Path) (d : Dongle Path) (s : Session Path) :
    (r.enter d s).1.readings = r.readings := by
  unfold enter
  split <;> rfl

@[simp] theorem watchAfter_enter (r : Reader Path) (d : Dongle Path) (s : Session Path)
    (frame : Frame) (now : ℕ) :
    (r.enter d s).1.watchAfter frame now = r.watchAfter frame now := by
  unfold enter
  split <;> rfl

@[simp] theorem session?_hear (r : Reader Path) (node : Path) (s : Session Path) (frame : Frame)
    (now : ℕ) :
    (r.hear node s frame now).1.session? node = some (s.takeIn frame r.readings).1 := by
  simp [hear, session?, put]

/-- The events of a report are its messages, and perhaps that the dongle answers
again. -/
theorem mem_hear {r : Reader Path} {node : Path} {s : Session Path} {frame : Frame} {now : ℕ}
    {e : Event Path} (he : e ∈ (r.hear node s frame now).2) :
    (∃ m ∈ messages frame.bytes, e = .message node s.productId m) ∨ e = .answersAgain node := by
  rw [hear] at he
  obtain he | he := List.mem_append.1 he
  · obtain ⟨m, hm, rfl⟩ := List.mem_map.1 he
    exact .inl ⟨m, hm, rfl⟩
  · split at he
    · exact .inr (List.mem_singleton.1 he)
    · cases he

theorem mem_suspect {r : Reader Path} {node : Path} {s : Session Path} {now : ℕ}
    {playback : Path → Option Bool} {e : Event Path} (he : e ∈ (r.suspect node s now playback).2) :
    ∃ silence, e = .warned node s.productId now silence := by
  unfold suspect at he
  split at he
  · cases he
  · obtain ⟨silence, -, rfl⟩ := List.mem_map.1 he
    exact ⟨silence, rfl⟩

/-- Whether an event may come of listening to a dongle: no session is closed, nothing is
said of the access to it, and nothing reported. -/
def isListening : Event Path → Bool
  | .opened _ _ | .message _ _ _ | .answersAgain _ | .requested _ _ _ | .gaveUp _ _
  | .warned _ _ _ _ => true
  | .pass _ | .closed _ _ | .reachable | .unreachable _ _ | .reported _ _ _ => false

theorem isListening_of_mem {r : Reader Path} {p : Pass Path} {d : Dongle Path} {x : Exchange Path} :
    ∀ e ∈ (r.listenTo p d x).2.1, isListening e = true := by
  cases hs : r.sessionFor d x with
  | error err => simp [listenTo, hs]
  | ok s =>
      have hentered : ∀ e ∈ (r.enter d s).2, isListening e = true := by
        unfold enter
        split <;> simp [isListening]
      cases hf : x.fetched with
      | error err => simpa only [listenTo, hs, hf] using hentered
      | ok frame =>
          have hheard : ∀ e ∈ ((r.enter d s).1.hear d.node s frame p.now).2,
              isListening e = true := fun e he => by
            obtain ⟨m, -, rfl⟩ | rfl := mem_hear he <;> rfl
          have hasked (t : Session Path) (asked : Option Asked) :
              ∀ e ∈ askedEvents d.node t p.now asked, isListening e = true := by
            rcases asked with _ | _ | _ | err <;> simp [askedEvents, isListening]
          have hsuspected (asker : Reader Path) (t : Session Path) :
              ∀ e ∈ (asker.suspect d.node t p.now x.playback).2, isListening e = true :=
            fun e he => by
              obtain ⟨silence, rfl⟩ := mem_suspect he
              rfl
          simp only [listenTo, hs, hf]
          split
          · exact List.forall_mem_append.2
              ⟨List.forall_mem_append.2 ⟨hentered, hheard⟩, hasked _ _⟩
          · refine List.forall_mem_append.2 ⟨?_, hsuspected _ _⟩
            exact List.forall_mem_append.2
              ⟨List.forall_mem_append.2 ⟨hentered, hheard⟩, hasked _ _⟩

theorem mem_reportRecovery {r : Reader Path} {e : Event Path} (he : e ∈ r.reportRecovery.2) :
    e = .reachable := by
  unfold reportRecovery at he
  split at he
  · exact List.mem_singleton.1 he
  · cases he

@[simp] theorem readings_suspect (r : Reader Path) (node : Path) (s : Session Path) (now : ℕ)
    (playback : Path → Option Bool) : (r.suspect node s now playback).1.readings = r.readings := by
  unfold suspect
  split <;> rfl

@[simp] theorem lastLink_suspect (r : Reader Path) (node : Path) (s : Session Path) (now : ℕ)
    (playback : Path → Option Bool) : (r.suspect node s now playback).1.lastLink = r.lastLink := by
  unfold suspect
  split <;> rfl

@[simp] theorem session?_suspect (r : Reader Path) (node node' : Path) (s : Session Path)
    (now : ℕ) (playback : Path → Option Bool) :
    (r.suspect node s now playback).1.session? node' = r.session? node' := by
  unfold suspect
  split <;> rfl

theorem session?_listenTo_of_ne (r : Reader Path) (p : Pass Path) {d : Dongle Path}
    (x : Exchange Path) {node : Path} (h : node ≠ d.node) :
    (r.listenTo p d x).1.session? node = r.session? node := by
  have hentered (s : Session Path) : (r.enter d s).1.session? node = r.session? node := by
    unfold enter
    split
    · rfl
    · simp [h]
  have hheard (s : Session Path) (frame : Frame) :
      ((r.enter d s).1.hear d.node s frame p.now).1.session? node = r.session? node := by
    rw [← hentered s]
    exact (session?_put _ _ _ _).trans (if_neg h)
  cases hs : r.sessionFor d x with
  | error err => simp [listenTo, hs]
  | ok s =>
      cases hf : x.fetched with
      | error err => simp [listenTo, hs, hf, hentered]
      | ok frame =>
          simp only [listenTo, hs, hf]
          split <;> simp [h, hheard]

/-- Listening without a failed question: the report is taken in, the question asked if
it is due, and the sound card looked at. -/
theorem listenTo_of_asked {r : Reader Path} {p : Pass Path} {d : Dongle Path} {x : Exchange Path}
    {s : Session Path} {frame : Frame} (hs : r.sessionFor d x = .ok s)
    (hf : x.fetched = .ok frame) :
    let asked := (s.takeIn frame r.readings).1.question p.now p.interval p.listenFirst x.written
    let heard := (r.enter d s).1.hear d.node s frame p.now
    let suspected := (heard.1.put d.node asked.1).suspect d.node asked.1 p.now x.playback
    (∀ err, asked.2 ≠ some (.failed err)) →
      r.listenTo p d x = (suspected.1, (r.enter d s).2 ++ heard.2 ++
        askedEvents d.node asked.1 p.now asked.2 ++ suspected.2, .ok asked.1) := by
  intro asked heard suspected hok
  simp only [listenTo, hs, hf, readings_enter]
  split
  next err herr => exact absurd herr (hok err)
  next => rfl

/-- Listening up to a question that fails. -/
theorem listenTo_of_failed {r : Reader Path} {p : Pass Path} {d : Dongle Path} {x : Exchange Path}
    {s : Session Path} {frame : Frame} {err : IoError} (hs : r.sessionFor d x = .ok s)
    (hf : x.fetched = .ok frame) :
    let asked := (s.takeIn frame r.readings).1.question p.now p.interval p.listenFirst x.written
    let heard := (r.enter d s).1.hear d.node s frame p.now
    asked.2 = some (.failed err) →
      r.listenTo p d x =
        (heard.1.put d.node asked.1, (r.enter d s).2 ++ heard.2, .error err) := by
  intro asked heard herr
  simp only [listenTo, hs, hf, readings_enter]
  split
  next err' herr' =>
    obtain rfl : err = err' := by
      have hsame : some (Asked.failed err) = some (.failed err') := herr.symm.trans herr'
      simpa using hsame
    rw [herr', askedEvents, List.append_nil]
  next hnot => exact absurd herr (hnot err)

variable [ToString Path]

/-- The session and the watch of a visit, once its report is taken in. -/
def Told (start : Reader Path) (p : Pass Path) (d : Dongle Path) (x : Exchange Path)
    (r : Reader Path) (s : Session Path) : Prop :=
  ∃ s₀ frame, start.sessionFor d x = .ok s₀ ∧ x.fetched = .ok frame ∧
    (s₀.takeIn frame start.readings).1 = s ∧ r.wedge = some (start.watchAfter frame p.now).1

/-- The session and the watch of a visit, once its question is out of the way. -/
def Questioned (start : Reader Path) (p : Pass Path) (d : Dongle Path) (x : Exchange Path)
    (r : Reader Path) (s : Session Path) : Prop :=
  ∃ s₁, Told start p d x r s₁ ∧ (s₁.question p.now p.interval p.listenFirst x.written).1 = s ∧
    ∀ err, (s₁.question p.now p.interval p.listenFirst x.written).2 ≠ some (.failed err)

/-- One change of a reader within a move that began at `start`. -/
inductive Change (start : Reader Path) :
    Move Path → Reader Path → List (Event Path) → Reader Path → Prop
  | began {p r} : Change start (.scan p) r [.pass p.now] r
  | opened {p d x} (absent : start.session? d.node = none) (done : x.opens = .ok ()) :
      Change start (.visit p d x) start [.opened d.node d.productId]
        (start.put d.node
          (Session.opened d ((start.lastLink d.productId).getD .unknown) x.openedAt))
  | heard {p d x r s frame} (held : r.session? d.node = some s) (fetched : x.fetched = .ok frame) :
      Change start (.visit p d x) r (r.hear d.node s frame p.now).2
        (r.hear d.node s frame p.now).1
  | gaveUp {p d x r s} (held : r.session? d.node = some s) (told : Told start p d x r s)
      (due : s.shouldAsk p.now p.interval p.listenFirst) (up : s.link = .up)
      (mute : maxUnanswered ≤ s.unanswered + s.pending.toNat) :
      Change start (.visit p d x) r [.gaveUp d.node s.productId]
        (r.put d.node (s.countLost.giveUp p.now))
  | sent {p d x r s} (held : r.session? d.node = some s) (told : Told start p d x r s)
      (due : s.shouldAsk p.now p.interval p.listenFirst) :
      Change start (.visit p d x) r [.requested d.node s.productId p.now]
        (r.put d.node (s.countLost.sent p.now))
  | lost {p d x r s} (held : r.session? d.node = some s) (told : Told start p d x r s) :
      Change start (.visit p d x) r [] (r.put d.node s.countLost)
  | suspected {p d x r s} (held : r.session? d.node = some s) (asked : Questioned start p d x r s) :
      Change start (.visit p d x) r (r.suspect d.node s p.now x.playback).2
        (r.suspect d.node s p.now x.playback).1
  | closed {m r node s} (held : r.session? node = some s) :
      Change start m r [.closed node s.productId] (r.drop node s)
  | reachable {p d x r} : Change start (.visit p d x) r r.reportRecovery.2 r.reportRecovery.1
  | unreachable {p d x r err} :
      Change start (.visit p d x) r (r.reportError d.node err x.failedAt).2
        (r.reportError d.node err x.failedAt).1
  | reported {p d x r s} (held : r.session? d.node = some s) :
      Change start (.visit p d x) r
        [.reported d.node (some s.link) (headset d (s.battery p.wired) s.sample)] r
  | withheld {p d x r} :
      Change start (.visit p d x) r [.reported d.node none (headset d .unavailable 0)] r

theorem close_chain (start : Reader Path) (m : Move Path) (r : Reader Path) (node : Path) :
    Runs.Chain (Change start m) r (r.close node).2 (r.close node).1 := by
  unfold close
  split
  next s held => exact .single (.closed held)
  next => exact .refl r

theorem scan_chain (r : Reader Path) (p : Pass Path) :
    Runs.Chain (Change r (.scan p)) r (r.move (.scan p)).2 (r.move (.scan p)).1 := by
  refine (Runs.Chain.single Change.began).trans (Runs.Chain.exec (fun r node => ?_) r _)
  split
  · exact .refl r
  · exact close_chain _ _ r node

/-- Entering a dongle's session: nothing for one that is open, an opening for
one that is not. -/
theorem enter_chain {r : Reader Path} {p : Pass Path} {d : Dongle Path} {x : Exchange Path}
    {s : Session Path} (h : r.sessionFor d x = .ok s) :
    Runs.Chain (Change r (.visit p d x)) r (r.enter d s).2 (r.enter d s).1 := by
  obtain hold | ⟨hold, hopen, rfl⟩ := sessionFor_eq_ok.1 h
  · simp only [enter, hold]
    exact .refl r
  · simp only [enter, hold]
    exact .single (.opened hold hopen)

/-- The question of a visit, with what it leaves in the session. -/
theorem question_chain {start r : Reader Path} {p : Pass Path} {d : Dongle Path}
    {x : Exchange Path} {s : Session Path} (held : r.session? d.node = some s)
    (told : Told start p d x r s) :
    let asked := s.question p.now p.interval p.listenFirst x.written
    Runs.Chain (Change start (.visit p d x)) r (askedEvents d.node asked.1 p.now asked.2)
      (r.put d.node asked.1) := by
  rcases s.question_cases p.now p.interval p.listenFirst x.written with
    ⟨-, hq⟩ | ⟨due, up, mute, hq⟩ | ⟨due, -, ⟨-, hq⟩ | ⟨err, -, hq⟩⟩
  · simp only [hq, askedEvents, put_self held]
    exact .refl r
  · have change : Change start (.visit p d x) r [.gaveUp d.node s.productId] _ :=
      .gaveUp held told due up mute
    simp only [hq, askedEvents]
    exact .single change
  · have change : Change start (.visit p d x) r [.requested d.node s.productId p.now] _ :=
      .sent held told due
    simp only [hq, askedEvents]
    exact .single change
  · simpa only [hq, askedEvents] using Runs.Chain.single (Change.lost held told)

theorem listenTo_chain (r : Reader Path) (p : Pass Path) (d : Dongle Path) (x : Exchange Path) :
    Runs.Chain (Change r (.visit p d x)) r (r.listenTo p d x).2.1 (r.listenTo p d x).1 ∧
      ∀ s, (r.listenTo p d x).2.2 = .ok s → (r.listenTo p d x).1.session? d.node = some s := by
  unfold listenTo
  cases hs : r.sessionFor d x with
  | error err => exact ⟨.refl r, fun s h => by cases h⟩
  | ok s =>
      have entering := enter_chain (p := p) hs
      have held := session?_enter hs
      cases hf : x.fetched with
      | error err => exact ⟨entering, fun s h => by cases h⟩
      | ok frame =>
          have hearing : Runs.Chain (Change r (.visit p d x)) r _
              ((r.enter d s).1.hear d.node s frame p.now).1 :=
            entering.trans (.single (.heard held hf))
          have told : Told r p d x ((r.enter d s).1.hear d.node s frame p.now).1
              (s.takeIn frame (r.enter d s).1.readings).1 :=
            ⟨s, frame, hs, hf, by simp, by simp [hear]⟩
          have asking := hearing.trans (question_chain (session?_hear _ _ _ _ _) told)
          simp only
          split
          next err he => exact ⟨asking, fun s h => by cases h⟩
          next he =>
              refine ⟨asking.trans (.single (.suspected ?_ ⟨_, told, rfl, he⟩)), fun t ht => ?_⟩
              · simp
              · cases ht
                simp

theorem visit_chain (r : Reader Path) (p : Pass Path) (d : Dongle Path) (x : Exchange Path) :
    Runs.Chain (Change r (.visit p d x)) r (r.visit p d x).2 (r.visit p d x).1 := by
  obtain ⟨listening, held⟩ := listenTo_chain r p d x
  unfold visit
  cases hl : (r.listenTo p d x).2.2 with
  | ok s =>
      simp only [hl]
      refine (listening.trans (.single .reachable)).trans (.single (.reported ?_))
      exact held s hl
  | error err =>
      simp only [hl]
      refine ((listening.trans ?_).trans (.single .unreachable)).trans (.single .withheld)
      split
      · exact close_chain _ _ _ _
      · exact .refl _

/-- Everything a move does is a chain of changes. -/
theorem move_chain (r : Reader Path) (m : Move Path) :
    Runs.Chain (Change r m) r (r.move m).2 (r.move m).1 :=
  match m with
  | .scan p => scan_chain r p
  | .visit p d x => visit_chain r p d x

/-- After listening, a visit closes the session it listened to, if the device is gone. -/
theorem session?_visit_eq (r : Reader Path) (p : Pass Path) (d : Dongle Path) (x : Exchange Path)
    (node : Path) :
    (∀ s, (r.listenTo p d x).2.2 = .ok s →
      (r.visit p d x).1.session? node = (r.listenTo p d x).1.session? node) ∧
    ∀ err, (r.listenTo p d x).2.2 = .error err →
      (r.visit p d x).1.session? node =
        if err.gone = true ∧ node = d.node then none else (r.listenTo p d x).1.session? node := by
  constructor
  · intro s hl
    simp only [visit, hl]
    rfl
  · intro err hl
    simp only [visit, hl]
    cases hgone : err.gone with
    | false => simp [reportError, session?]
    | true =>
        simp only [if_true, true_and]
        exact session?_close _ _ _

/-- A visit leaves the sessions of other nodes as they were. -/
theorem session?_visit_of_ne (r : Reader Path) (p : Pass Path) {d : Dongle Path}
    (x : Exchange Path) {node : Path} (h : node ≠ d.node) :
    (r.visit p d x).1.session? node = r.session? node := by
  obtain ⟨hok, herror⟩ := session?_visit_eq r p d x node
  have hlistened := session?_listenTo_of_ne r p x h
  cases hl : (r.listenTo p d x).2.2 with
  | ok s => rw [hok s hl, hlistened]
  | error err => rw [herror err hl, if_neg fun hd => h hd.2, hlistened]

theorem session?_visit {r : Reader Path} {p : Pass Path} {d : Dongle Path} {x : Exchange Path}
    {node : Path} {s : Session Path} (h : (r.visit p d x).1.session? node = some s) :
    node = d.node ∨ r.session? node = some s := by
  by_cases hn : node = d.node
  · exact .inl hn
  · exact .inr (session?_visit_of_ne r p x hn ▸ h)

/-- What every change keeps holds after every run. -/
theorem run_invariant (inv : Reader Path → List (Event Path) → Prop) (start : inv new [])
    (keep : ∀ first m r es r' tr, Change first m r es r' → inv r tr → inv r' (tr ++ es))
    (passes : List (Pass Path)) : inv (run passes).1 (run passes).2 := by
  rw [run_eq_moves]
  exact Runs.exec_invariant inv start
    (fun m r tr h => (move_chain r m).keeps inv (fun _ _ _ _ c => keep _ _ _ _ _ _ c) tr h) _

omit [LinearOrder Path] [ToString Path] in
theorem pass_of_mem_moves {p : Pass Path} {m : Move Path} (hm : m ∈ p.moves) : m.pass = p := by
  rcases List.mem_cons.1 hm with rfl | hm
  · rfl
  · obtain ⟨v, -, rfl⟩ := List.mem_map.1 hm
    rfl

omit [LinearOrder Path] [ToString Path] in
/-- The moves of some passes come in the order of their instants. -/
theorem pairwise_moves {passes : List (Pass Path)}
    (hmono : passes.Pairwise fun p q => p.now ≤ q.now) :
    (passes.flatMap Pass.moves).Pairwise fun m m' => m.pass.now ≤ m'.pass.now := by
  refine List.pairwise_flatMap.2 ⟨fun p _ => ?_, hmono.imp fun hle m hm m' hm' => ?_⟩
  · exact List.pairwise_of_forall_mem_list fun m hm m' hm' => by
      rw [pass_of_mem_moves hm, pass_of_mem_moves hm']
  · rwa [pass_of_mem_moves hm, pass_of_mem_moves hm']

omit [LinearOrder Path] [ToString Path] in
/-- The latest instant of the moves of some passes. -/
theorem now_le_of_mem {passes : List (Pass Path)} (hmono : passes.Pairwise fun p q => p.now ≤ q.now)
    {pre post : List (Move Path)} {m : Move Path}
    (he : passes.flatMap Pass.moves = pre ++ m :: post) : ∀ m' ∈ pre, m'.pass.now ≤ m.pass.now := by
  have hall := pairwise_moves hmono
  rw [he] at hall
  exact fun m' hm' => (List.pairwise_append.1 hall).2.2 m' hm' m (by simp)

end HeadsetBattery.Maxwell.Reader
