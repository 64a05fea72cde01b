import HeadsetBattery.Library.Traces
import HeadsetBattery.Maxwell.RequestBudget

/-!
# Listening before asking

A session listens for three seconds before it asks anything. One that believes
the headset linked asks at once: rightly if a message told it so, but the belief
may be the one it inherited. Requests come after the listening in every run in
which no session that inherited such a belief, and has heard and asked nothing,
fetches an empty report within its first three seconds.
-/
namespace HeadsetBattery.Maxwell

variable {Path : Type}

/-- A message that says the headset is linked: an event of that kind, or an answer. -/
def Message.linked : Message → Bool
  | .link up => up
  | .battery _ => true

/-- The messages of a turn. -/
def Turn.heard (t : Turn) : List Message :=
  match t.fetched with
  | .ok frame => messages frame.bytes
  | .error _ => []

namespace Session

variable {first now : ℕ} {said : Bool} {s : Session Path}

/-! ## One session -/

/-- A turn that asks on an inherited belief: the session believes the headset linked,
has asked nothing, and is less than three seconds old; the report says nothing and
the write works. -/
def Hasty (s : Session Path) (t : Turn) : Prop :=
  s.link = .up ∧ s.askedAt = none ∧ t.now - s.openedAt < Maxwell.listenFirst ∧
    (∃ frame, t.fetched = .ok frame ∧ messages frame.bytes = []) ∧ t.written = .ok ()

/-- What has been asked by `now` was asked after listening, unless the dongle said the
headset is linked. -/
structure Listened (now : ℕ) (said : Bool) (s : Session Path) : Prop where
  asked : ∀ a, s.askedAt = some a →
    a ≤ now ∧ (said = true ∨ Maxwell.listenFirst ≤ a - s.openedAt)
  unasked : s.askedAt = none → s.pending = false ∧ s.unanswered = 0

theorem listened_opened (d : Dongle Path) (link : Link) (openedAt now : ℕ) (said : Bool) :
    Listened now said (opened d link openedAt) :=
  ⟨nofun, fun _ => ⟨rfl, rfl⟩⟩

theorem Listened.mono (h : Listened now said s) {now' : ℕ} {said' : Bool} (hnow : now ≤ now')
    (hsaid : said = true → said' = true) : Listened now' said' s := by
  refine ⟨fun a ha => ?_, h.unasked⟩
  obtain ⟨hle, hasked⟩ := h.asked a ha
  exact ⟨hle.trans hnow, hasked.imp_left hsaid⟩

/-- A session that asked before has listened by now. -/
theorem Listened.since_asked (h : Listened now said s) {a : ℕ} (ha : s.askedAt = some a) :
    said = true ∨ Maxwell.listenFirst ≤ now - s.openedAt := by
  obtain ⟨hle, hasked⟩ := h.asked a ha
  exact hasked.imp_right fun hlate => hlate.trans (Nat.sub_le_sub_right hle _)

@[simp] theorem openedAt_hear (s : Session Path) (readings : ℕ) (m : Message) :
    (s.hear readings m).1.openedAt = s.openedAt := by
  rcases m with (_ | _) | level <;> rfl

@[simp] theorem openedAt_hearAll (ms : List Message) (s : Session Path) (readings : ℕ) :
    (s.hearAll readings ms).1.openedAt = s.openedAt := by
  induction ms generalizing s readings with
  | nil => rfl
  | cons m ms ih => rw [hearAll_cons, ih, openedAt_hear]

/-- Taking in messages opens no request, and counts none as lost. -/
theorem unasked_hearAll (readings : ℕ) (ms : List Message)
    (h : s.pending = false ∧ s.unanswered = 0) :
    (s.hearAll readings ms).1.pending = false ∧ (s.hearAll readings ms).1.unanswered = 0 := by
  induction ms generalizing s readings with
  | nil => exact h
  | cons m ms ih =>
      refine ih _ ?_
      rcases m with (_ | _) | level
      · exact ⟨rfl, rfl⟩
      · exact ⟨h.1, rfl⟩
      · exact ⟨rfl, rfl⟩

theorem Listened.hearAll (h : Listened now said s) (readings : ℕ) (ms : List Message) :
    Listened now said (s.hearAll readings ms).1 := by
  refine ⟨fun a ha => ?_, fun hnone => ?_⟩
  · rw [askedAt_hearAll] at ha
    rw [openedAt_hearAll]
    exact h.asked a ha
  · rw [askedAt_hearAll] at hnone
    exact unasked_hearAll readings ms (h.unasked hnone)

/-- Believed linked: a message said so, or nothing was heard and it was believed
before. -/
theorem linked_of_hearAll {readings : ℕ} {ms : List Message}
    (hup : (s.hearAll readings ms).1.link = .up) :
    ms.any Message.linked = true ∨ ms = [] ∧ s.link = .up := by
  induction ms generalizing s readings with
  | nil => exact .inr ⟨rfl, hup⟩
  | cons m ms ih =>
      obtain hany | ⟨-, hlink⟩ := ih hup
      · exact .inl (by simp [hany])
      · rcases m with (_ | _) | level
        · cases hlink
        · exact .inl rfl
        · exact .inl rfl

/-- A question that is due comes after listening, unless it is the first one of a session
that believes the headset linked. -/
theorem Listened.of_due {interval : ℕ} (h : Listened now said s)
    (hfirst : Maxwell.listenFirst ≤ first) (hdue : s.shouldAsk now interval first)
    (hup : s.link = .up → s.askedAt = none →
      said = true ∨ Maxwell.listenFirst ≤ now - s.openedAt) :
    said = true ∨ Maxwell.listenFirst ≤ now - s.openedAt := by
  cases hbefore : s.askedAt with
  | some a => exact h.since_asked hbefore
  | none =>
      cases hl : s.link with
      | unknown =>
          simp only [shouldAsk, hl, hbefore, decide_eq_true_eq] at hdue
          exact .inr (hfirst.trans hdue)
      | down =>
          simp only [shouldAsk, hl, hbefore, Option.isNone_none, Bool.true_and,
            decide_eq_true_eq] at hdue
          exact .inr (hfirst.trans hdue)
      | up => exact hup hl hbefore

/-- A request that goes out does so after listening, or because a message said the
headset is linked; a turn that is not hasty keeps it so. -/
theorem Listened.turn (h : Listened now said s) (interval : ℕ) {t : Turn} (hnow : now ≤ t.now)
    (hfirst : Maxwell.listenFirst ≤ first) (hhasty : said = false → ¬Hasty s t) :
    Listened t.now (said || t.heard.any Message.linked) (s.turn interval first t).1 ∧
      (s.turn interval first t).1.openedAt = s.openedAt ∧
      ((.sent, t.now) ∈ (s.turn interval first t).2 →
        (said || t.heard.any Message.linked) = true ∨
          Maxwell.listenFirst ≤ t.now - s.openedAt) := by
  have hlater : Listened t.now (said || t.heard.any Message.linked) s :=
    h.mono hnow fun hsaid => by simp [hsaid]
  rcases s.turn_cases interval first t with he | ⟨frame, hf, hcases⟩
  · simp [he, hlater]
  have htold : Listened t.now (said || t.heard.any Message.linked)
      (s.takeIn frame t.readings).1 := hlater.hearAll _ _
  have hopened : (s.takeIn frame t.readings).1.openedAt = s.openedAt := openedAt_hearAll _ _ _
  have hasked : (s.takeIn frame t.readings).1.askedAt = s.askedAt := askedAt_hearAll _ _ _
  have hheard : t.heard = messages frame.bytes := by rw [Turn.heard, hf]
  have hinherited : (s.takeIn frame t.readings).1.link = .up →
      t.heard.any Message.linked = true ∨ messages frame.bytes = [] ∧ s.link = .up := by
    rw [hheard]
    exact linked_of_hearAll
  generalize (s.takeIn frame t.readings).1 = told at hcases htold hopened hasked hinherited
  rcases hcases with ⟨hs, hout⟩ | ⟨-, hup, hmute, he⟩ | ⟨hdue, -, hw, he⟩ | ⟨hdue, err, hw, he⟩
  · rw [hs, hout]
    exact ⟨htold, hopened, by simp⟩
  · rw [he]
    refine ⟨⟨?_, fun hnone => by cases hnone⟩, hopened, by simp⟩
    rintro a ⟨⟩
    cases hbefore : told.askedAt with
    | some a => exact ⟨le_rfl, htold.since_asked hbefore⟩
    | none =>
        obtain ⟨hopen, hcount⟩ := htold.unasked hbefore
        rw [hopen, hcount] at hmute
        cases hmute
  · have hlistened : (said || t.heard.any Message.linked) = true ∨
        Maxwell.listenFirst ≤ t.now - told.openedAt := by
      refine htold.of_due hfirst hdue fun hl hbefore => ?_
      rw [Bool.or_eq_true, or_assoc]
      refine or_iff_not_imp_left.2 fun hunsaid => ?_
      obtain hany | ⟨hsilent, hlink⟩ := hinherited hl
      · exact .inl hany
      refine .inr (Nat.le_of_not_lt fun hsoon => ?_)
      exact hhasty (Bool.eq_false_iff.2 hunsaid)
        ⟨hlink, hasked ▸ hbefore, hopened ▸ hsoon, ⟨frame, hf, hsilent⟩, hw⟩
    rw [he]
    refine ⟨⟨?_, fun hnone => by cases hnone⟩, hopened, fun _ => hopened ▸ hlistened⟩
    rintro a ⟨⟩
    exact ⟨le_rfl, hlistened⟩
  · rw [he]
    refine ⟨⟨htold.asked, fun hnone => ?_⟩, hopened, by simp⟩
    obtain ⟨hopen, hcount⟩ := htold.unasked hnone
    exact ⟨hopen, by simp [countLost, hopen, hcount]⟩

end Session

/-! ## The sessions of a reader -/

namespace Reader

variable [LinearOrder Path]

/-- Whether the session of a node was told that the headset is linked, after one more
event. -/
def linked (node : Path) (said : Bool) : Event Path → Bool
  | .opened n _ => if n = node then false else said
  | .message n _ m => said || decide (n = node) && m.linked
  | _ => said

/-- Whether a message since a node was last opened says that the headset is linked. -/
def linkHeard (node : Path) (tr : List (Event Path)) : Bool := tr.foldl (linked node) false

/-- An event that is neither an opening nor a message. -/
def Untelling (e : Event Path) : Prop := ∀ node said, linked node said e = said

/-- Events that neither open a node nor are messages of it. -/
theorem linkHeard_append {node : Path} {es : List (Event Path)}
    (h : ∀ e ∈ es, ∀ said, linked node said e = said) (tr : List (Event Path)) :
    linkHeard node (tr ++ es) = linkHeard node tr := by
  rw [linkHeard, List.foldl_append]
  change es.foldl (linked node) (linkHeard node tr) = linkHeard node tr
  induction es with
  | nil => rfl
  | cons e es ih =>
      rw [List.foldl_cons, h e (by simp)]
      exact ih fun e' he' => h e' (by simp [he'])

theorem linkHeard_append_messages (node : Path) (pid : UInt16) (ms : List Message)
    (tr : List (Event Path)) :
    linkHeard node (tr ++ ms.map (.message node pid)) =
      (linkHeard node tr || ms.any Message.linked) := by
  induction ms generalizing tr with
  | nil => simp
  | cons m ms ih =>
      have hm : linkHeard node (tr ++ [.message node pid m]) = (linkHeard node tr || m.linked) := by
        simp [linkHeard, linked]
      rw [List.map_cons, List.append_cons, ih, hm, List.any_cons, Bool.or_assoc]

/-- The turn of a visit. -/
def turnOf (r : Reader Path) (p : Pass Path) (x : Exchange Path) : Turn :=
  ⟨p.now, r.readings, x.fetched, x.written⟩

/-- What a visit does to the session it listens to is a turn, and so are its messages
and its request. -/
theorem listenTo_turn {r : Reader Path} (p : Pass Path) {d : Dongle Path} {x : Exchange Path}
    {s : Session Path} (h : r.sessionFor d x = .ok s) :
    ∃ rest, (r.listenTo p d x).2.1 =
        (r.enter d s).2 ++ (r.turnOf p x).heard.map (.message d.node s.productId) ++ rest ∧
      (∀ e ∈ rest, Untelling e) ∧
      ∀ node pid sentAt, .requested node pid sentAt ∈ rest →
        node = d.node ∧ sentAt = p.now ∧
          (.sent, p.now) ∈ (s.turn p.interval p.listenFirst (r.turnOf p x)).2 ∧
          (r.listenTo p d x).2.2 =
            .ok (s.turn p.interval p.listenFirst (r.turnOf p x)).1 := by
  cases hf : x.fetched with
  | error err =>
      refine ⟨[], ?_, by simp, by simp⟩
      simp [listenTo, h, hf, turnOf, Turn.heard]
  | ok frame =>
      let asked := (s.takeIn frame r.readings).1.question p.now p.interval p.listenFirst x.written
      obtain ⟨again, hsaid, hagain⟩ : ∃ again,
          ((r.enter d s).1.hear d.node s frame p.now).2 =
            (r.turnOf p x).heard.map (.message d.node s.productId) ++ again ∧
          ∀ e ∈ again, Untelling e ∧ ∀ node pid sentAt, e ≠ .requested node pid sentAt := by
        refine ⟨_, by rw [Turn.heard, turnOf, hf]; rfl, ?_⟩
        split <;> simp [Untelling, linked]
      have hturn : s.turn p.interval p.listenFirst (r.turnOf p x) =
          (asked.1, asked.2.toList.map fun a => (a, p.now)) := by
        simp only [Session.turn, turnOf, hf, asked]
      have hasked : ∀ e ∈ askedEvents d.node asked.1 p.now asked.2, Untelling e ∧
          ∀ node pid sentAt, e = .requested node pid sentAt →
            node = d.node ∧ sentAt = p.now ∧ asked.2 = some .sent := by
        rcases asked.2 with _ | _ | _ | err <;> simp [askedEvents, Untelling, linked]
      have hsuspect (asker : Reader Path) :
          ∀ e ∈ (asker.suspect d.node asked.1 p.now x.playback).2, Untelling e ∧
            ∀ node pid sentAt, e ≠ .requested node pid sentAt := by
        intro e he
        obtain ⟨silence, rfl⟩ := mem_suspect he
        exact ⟨fun _ _ => rfl, by simp⟩
      by_cases hok : ∀ err, asked.2 ≠ some (.failed err)
      · rw [listenTo_of_asked h hf hok, hsaid, hturn]
        refine ⟨_, by simp only [List.append_assoc]; rfl, fun e he => ?_,
          fun node pid sentAt he => ?_⟩
        · obtain he | he := List.mem_append.1 he
          · exact (hagain e he).1
          · obtain he | he := List.mem_append.1 he
            · exact (hasked e he).1
            · exact (hsuspect _ e he).1
        · obtain he | he := List.mem_append.1 he
          · exact absurd rfl ((hagain _ he).2 node pid sentAt)
          · obtain he | he := List.mem_append.1 he
            · obtain ⟨hnode, hsent, hwrote⟩ := (hasked _ he).2 node pid sentAt rfl
              exact ⟨hnode, hsent, by simp [hwrote], rfl⟩
            · exact absurd rfl ((hsuspect _ _ he).2 node pid sentAt)
      · push Not at hok
        obtain ⟨err, herr⟩ := hok
        rw [listenTo_of_failed h hf herr, hsaid]
        refine ⟨again, (List.append_assoc _ _ _).symm, fun e he => (hagain e he).1,
          fun node pid sentAt he => ?_⟩
        exact absurd rfl ((hagain _ he).2 node pid sentAt)

/-- Closing a session leaves the others, and says so. -/
theorem close_spec (r : Reader Path) (node : Path) :
    (∀ n t, (r.close node).1.session? n = some t → r.session? n = some t) ∧
      ∀ e ∈ (r.close node).2, ∃ pid, e = .closed node pid := by
  unfold close
  split
  · exact ⟨fun n t ht => (held_of_drop ht).2, fun e he => ⟨_, List.mem_singleton.1 he⟩⟩
  · exact ⟨fun n t ht => ht, by simp⟩

variable [ToString Path]

/-- After listening, a visit tells nothing more about a session and asks nothing, and
closes one at most, if listening failed. -/
theorem visit_tail (r : Reader Path) (p : Pass Path) (d : Dongle Path) (x : Exchange Path) :
    ∃ tail, (r.visit p d x).2 = (r.listenTo p d x).2.1 ++ tail ∧
      (∀ e ∈ tail, Untelling e ∧ ∀ node pid sentAt, e ≠ .requested node pid sentAt) ∧
      (∀ node t, (r.visit p d x).1.session? node = some t →
        (r.listenTo p d x).1.session? node = some t) ∧
      ∀ told, (r.listenTo p d x).2.2 = .ok told →
        (r.visit p d x).1.session? d.node = (r.listenTo p d x).1.session? d.node := by
  cases hl : (r.listenTo p d x).2.2 with
  | ok told =>
      simp only [visit, hl]
      refine ⟨_, List.append_assoc _ _ _, fun e he => ?_, fun node t ht => ht, fun _ _ => rfl⟩
      obtain he | he := List.mem_append.1 he
      · rw [mem_reportRecovery he]
        exact ⟨fun _ _ => rfl, by simp⟩
      · rw [List.mem_singleton.1 he]
        exact ⟨fun _ _ => rfl, by simp⟩
  | error err =>
      simp only [visit, hl]
      have hclosed : (∀ n t, (if err.gone then (r.listenTo p d x).1.close d.node
            else ((r.listenTo p d x).1, [])).1.session? n = some t →
              (r.listenTo p d x).1.session? n = some t) ∧
          ∀ e ∈ (if err.gone then (r.listenTo p d x).1.close d.node
            else ((r.listenTo p d x).1, [])).2, ∃ pid, e = .closed d.node pid := by
        split
        · exact close_spec _ _
        · exact ⟨fun n t ht => ht, by simp⟩
      generalize (if err.gone then (r.listenTo p d x).1.close d.node
        else ((r.listenTo p d x).1, [])) = closed at hclosed ⊢
      obtain ⟨hsessions, hevents⟩ := hclosed
      refine ⟨closed.2 ++ ((closed.1.reportError d.node err x.failedAt).2 ++
          [.reported d.node none (headset d .unavailable 0)]),
        by simp only [List.append_assoc], fun e he => ?_, hsessions, by simp⟩
      obtain he | he := List.mem_append.1 he
      · obtain ⟨pid, rfl⟩ := hevents e he
        exact ⟨fun _ _ => rfl, by simp⟩
      · obtain he | he := List.mem_append.1 he
        · rw [List.mem_singleton.1 he]
          exact ⟨fun _ _ => rfl, by simp⟩
        · rw [List.mem_singleton.1 he]
          exact ⟨fun _ _ => rfl, by simp⟩

/-- A visit, seen from the session it listens to: a turn, unless the session is
closed, with its messages and its request. -/
theorem visit_turn {r : Reader Path} (p : Pass Path) {d : Dongle Path} {x : Exchange Path}
    {s : Session Path} (h : r.sessionFor d x = .ok s) :
    ∃ rest, (r.visit p d x).2 =
        (r.enter d s).2 ++ (r.turnOf p x).heard.map (.message d.node s.productId) ++ rest ∧
      (∀ e ∈ rest, Untelling e) ∧
      (∀ node pid sentAt, .requested node pid sentAt ∈ rest →
        node = d.node ∧ sentAt = p.now ∧
          (.sent, p.now) ∈ (s.turn p.interval p.listenFirst (r.turnOf p x)).2 ∧
          (r.visit p d x).1.session? d.node =
            some (s.turn p.interval p.listenFirst (r.turnOf p x)).1) ∧
      ∀ t, (r.visit p d x).1.session? d.node = some t →
        t = (s.turn p.interval p.listenFirst (r.turnOf p x)).1 := by
  obtain ⟨rest, hevents, hrest, hrequested⟩ := listenTo_turn p h
  obtain ⟨tail, hvisit, htail, hsessions, hkept⟩ := visit_tail r p d x
  have hheld : (r.listenTo p d x).1.session? d.node =
      some (s.turn p.interval p.listenFirst (r.turnOf p x)).1 := Session.turn_of_listenTo p h
  refine ⟨rest ++ tail, by rw [hvisit, hevents, List.append_assoc], fun e he => ?_,
    fun node pid sentAt he => ?_,
    fun t ht => Option.some.inj ((hsessions _ t ht).symm.trans hheld)⟩
  · obtain he | he := List.mem_append.1 he
    · exact hrest e he
    · exact (htail e he).1
  · obtain he | he := List.mem_append.1 he
    · obtain ⟨hnode, hsent, hwrote, hok⟩ := hrequested node pid sentAt he
      exact ⟨hnode, hsent, hwrote, (hkept _ hok).trans hheld⟩
    · exact absurd rfl ((htail _ he).2 node pid sentAt)

/-- A dongle that cannot be opened has no session before or after its visit. -/
theorem visit_unopened {r : Reader Path} (p : Pass Path) {d : Dongle Path} {x : Exchange Path}
    {err : IoError} (h : r.sessionFor d x = .error err) :
    (∀ e ∈ (r.visit p d x).2, Untelling e ∧ ∀ node pid sentAt, e ≠ .requested node pid sentAt) ∧
      ∀ node t, (r.visit p d x).1.session? node = some t → r.session? node = some t := by
  obtain ⟨tail, hvisit, htail, hsessions, -⟩ := visit_tail r p d x
  have hlisten : r.listenTo p d x = (r, [], .error err) := by simp [listenTo, h]
  rw [hlisten] at hvisit hsessions
  rw [hvisit]
  exact ⟨htail, hsessions⟩

/-! ## Every session listens first -/

/-- What every open session has asked was asked after listening, unless a message of
its own said the headset is linked. -/
def Listening (now : ℕ) (r : Reader Path) (tr : List (Event Path)) : Prop :=
  ∀ node s, r.session? node = some s → s.Listened now (linkHeard node tr)

/-- A visit at which a session asks on an inherited belief: none of its messages said
that the headset is linked, and its turn is hasty. -/
def AsksUnheard (r : Reader Path) (tr : List (Event Path)) : Move Path → Prop
  | .scan _ => False
  | .visit p d x => ∃ s, r.sessionFor d x = .ok s ∧
      linkHeard d.node (tr ++ (r.enter d s).2) = false ∧ s.Hasty (r.turnOf p x)

theorem Listening.scan {now : ℕ} {r : Reader Path} {tr : List (Event Path)}
    (h : Listening now r tr) (p : Pass Path) :
    Listening now (r.move (.scan p)).1 (tr ++ (r.move (.scan p)).2) := by
  refine (scan_chain r p).keeps (Listening now) (fun r₁ es r₂ tr c hi node s hs => ?_) tr h
  cases c with
  | began =>
      rw [linkHeard_append (by simp [linked])]
      exact hi node s hs
  | closed held =>
      rw [linkHeard_append (by simp [linked])]
      exact hi node s (held_of_drop hs).2

omit [ToString Path] in
/-- The session a visit listens to has listened, as its opening leaves it. -/
theorem Listening.sessionFor {now : ℕ} {r : Reader Path} {tr : List (Event Path)}
    (h : Listening now r tr) {d : Dongle Path} {x : Exchange Path} {s : Session Path}
    (hs : r.sessionFor d x = .ok s) :
    s.Listened now (linkHeard d.node (tr ++ (r.enter d s).2)) := by
  obtain hold | ⟨-, -, rfl⟩ := sessionFor_eq_ok.1 hs
  · simpa [enter, hold] using h d.node s hold
  · exact Session.listened_opened _ _ _ _ _

omit [ToString Path] in
theorem enter_events (r : Reader Path) (d : Dongle Path) (s : Session Path) :
    ∀ e ∈ (r.enter d s).2, e = .opened d.node d.productId := by
  unfold enter
  split
  · nofun
  · exact fun e he => List.mem_singleton.1 he

omit [ToString Path] in
/-- What a visit adds to what the session of its node was told. -/
theorem linkHeard_visited (r : Reader Path) (d : Dongle Path) (s : Session Path)
    (ms : List Message) {rest : List (Event Path)} (hrest : ∀ e ∈ rest, Untelling e)
    (tr : List (Event Path)) :
    linkHeard d.node (tr ++ ((r.enter d s).2 ++ ms.map (.message d.node s.productId) ++ rest)) =
      (linkHeard d.node (tr ++ (r.enter d s).2) || ms.any Message.linked) := by
  rw [← List.append_assoc, linkHeard_append fun e he => hrest e he d.node,
    ← List.append_assoc, linkHeard_append_messages]

omit [ToString Path] in
/-- A visit tells the sessions of other nodes nothing. -/
theorem linkHeard_elsewhere (r : Reader Path) (d : Dongle Path) (s : Session Path)
    (ms : List Message) {rest : List (Event Path)} (hrest : ∀ e ∈ rest, Untelling e) {node : Path}
    (hnode : node ≠ d.node) (tr : List (Event Path)) :
    linkHeard node (tr ++ ((r.enter d s).2 ++ ms.map (.message d.node s.productId) ++ rest)) =
      linkHeard node tr := by
  refine linkHeard_append (fun e he said => ?_) tr
  obtain he | he := List.mem_append.1 he
  · obtain he | he := List.mem_append.1 he
    · rw [enter_events r d s e he]
      exact if_neg (Ne.symm hnode)
    · obtain ⟨m, -, rfl⟩ := List.mem_map.1 he
      simp [linked, Ne.symm hnode]
  · exact hrest e he node said

theorem Listening.visit {now : ℕ} {r : Reader Path} {tr : List (Event Path)}
    (h : Listening now r tr) {p : Pass Path} {d : Dongle Path} {x : Exchange Path}
    (hnow : now ≤ p.now) (hfirst : Maxwell.listenFirst ≤ p.listenFirst)
    (hheard : ¬AsksUnheard r tr (.visit p d x)) :
    Listening p.now (r.visit p d x).1 (tr ++ (r.visit p d x).2) ∧
      ∀ pre post node pid sentAt,
        (r.visit p d x).2 = pre ++ .requested node pid sentAt :: post →
          ∃ s, (r.visit p d x).1.session? node = some s ∧
            (linkHeard node (tr ++ pre) = true ∨ Maxwell.listenFirst ≤ sentAt - s.openedAt) := by
  cases hs : r.sessionFor d x with
  | error err =>
      obtain ⟨hevents, hsessions⟩ := visit_unopened p hs
      refine ⟨fun node s hheld => ?_, fun pre post node pid sentAt he => ?_⟩
      · rw [linkHeard_append fun e he => (hevents e he).1 node]
        exact (h node s (hsessions node s hheld)).mono hnow id
      · exact absurd rfl ((hevents _ (by rw [he]; simp)).2 node pid sentAt)
  | ok s =>
      obtain ⟨rest, hevents, hrest, hrequested, hsession⟩ := visit_turn p hs
      have hcond : linkHeard d.node (tr ++ (r.enter d s).2) = false → ¬s.Hasty (r.turnOf p x) :=
        fun hunsaid hhasty => hheard ⟨s, hs, hunsaid, hhasty⟩
      have hnow' : now ≤ (r.turnOf p x).now := hnow
      obtain ⟨hturn, hopened, hsent⟩ :=
        (h.sessionFor hs).turn p.interval hnow' hfirst hcond
      refine ⟨fun node t ht => ?_, fun pre post node pid sentAt he => ?_⟩
      · rw [hevents]
        by_cases hnode : node = d.node
        · subst hnode
          rw [linkHeard_visited r d s _ hrest, hsession t ht]
          exact hturn
        · have hheld := (session?_visit ht).resolve_left hnode
          rw [linkHeard_elsewhere r d s _ hrest hnode]
          exact (h node t hheld).mono hnow id
      · rw [hevents] at he
        have hbefore : .requested node pid sentAt ∉ (r.enter d s).2 ++
            (r.turnOf p x).heard.map (.message d.node s.productId) := by
          intro hmem
          obtain hmem | hmem := List.mem_append.1 hmem
          · cases enter_events r d s _ hmem
          · obtain ⟨m, -, hm⟩ := List.mem_map.1 hmem
            cases hm
        obtain ⟨pre', rfl, rfl⟩ := Traces.eq_append_of_notMem he hbefore
        obtain ⟨rfl, rfl, hwrote, hheld⟩ := hrequested node pid sentAt (by simp)
        refine ⟨_, hheld, ?_⟩
        rw [linkHeard_visited r d s _ fun e he => hrest e (by simp [he]), hopened]
        exact hsent hwrote

theorem not_requested_of_scan (r : Reader Path) (p : Pass Path) (node : Path) (pid : UInt16)
    (sentAt : ℕ) : .requested node pid sentAt ∉ (r.move (.scan p)).2 := by
  refine (scan_chain r p).keeps (fun _ tr => .requested node pid sentAt ∉ tr)
    (fun r₁ es r₂ tr c hi => ?_) [] (by simp)
  cases c with
  | began => simpa using hi
  | closed held => simpa using hi

/-- In every run of passes that are to listen for three seconds at least, at
nondecreasing instants, and none of whose visits lets a session ask on a belief it
inherited: every request is written three seconds or more after its session was
opened, or after a message of that session that says the headset is linked. -/
theorem listens_before_asking (passes : List (Pass Path))
    (hmono : passes.Pairwise fun p q => p.now ≤ q.now)
    (hfirst : ∀ p ∈ passes, Maxwell.listenFirst ≤ p.listenFirst)
    (hheard : ∀ before m after, passes.flatMap Pass.moves = before ++ m :: after →
      ¬AsksUnheard (Runs.exec move new before).1 (Runs.exec move new before).2 m) :
    ∀ before m after, passes.flatMap Pass.moves = before ++ m :: after →
      let run := Runs.exec move new before
      ∀ pre post node pid sentAt, (run.1.move m).2 = pre ++ .requested node pid sentAt :: post →
        ∃ s, (run.1.move m).1.session? node = some s ∧
          (linkHeard node (run.2 ++ pre) = true ∨ Maxwell.listenFirst ≤ sentAt - s.openedAt) := by
  have hmoves : ∀ m ∈ passes.flatMap Pass.moves, Maxwell.listenFirst ≤ m.pass.listenFirst := by
    intro m hm
    obtain ⟨p, hp, hm⟩ := List.mem_flatMap.1 hm
    rw [pass_of_mem_moves hm]
    exact hfirst p hp
  intro before m after he run pre post node pid sentAt hsent
  have hlistening : ∀ now, (∀ m ∈ before, m.pass.now ≤ now) →
      Listening now (Runs.exec move new before).1 (Runs.exec move new before).2 := by
    refine Runs.exec_induction
      (fun pre m => (∀ m' ∈ pre, m'.pass.now ≤ m.pass.now) ∧
        Maxwell.listenFirst ≤ m.pass.listenFirst ∧
        ¬AsksUnheard (Runs.exec move new pre).1 (Runs.exec move new pre).2 m)
      (fun done (r : Reader Path) tr =>
        ∀ now, (∀ m ∈ done, m.pass.now ≤ now) → Listening now r tr) ?_ ?_ before ?_
    · intro now _ node s hs
      cases hs
    · rintro done m hdone ⟨hpast, hlong, hunheard⟩ now hnow
      have hthen := hdone _ hpast
      cases m with
      | scan p =>
          have hscan := hthen.scan p
          exact fun node s hs => (hscan node s hs).mono (hnow _ (by simp)) id
      | visit p d x =>
          have hvisit := (hthen.visit (p := p) le_rfl hlong hunheard).1
          exact fun node s hs => (hvisit node s hs).mono (hnow (.visit p d x) (by simp)) id
    · intro done next rest hsplit
      have hwhole : passes.flatMap Pass.moves = done ++ next :: (rest ++ m :: after) := by
        rw [he, hsplit, List.append_assoc, List.cons_append]
      exact ⟨now_le_of_mem hmono hwhole, hmoves next (by rw [hwhole]; simp),
        hheard done next _ hwhole⟩
  cases m with
  | scan p => exact absurd (by rw [hsent]; simp) (not_requested_of_scan run.1 p node pid sentAt)
  | visit p d x =>
      refine ((hlistening _ (now_le_of_mem hmono he)).visit le_rfl ?_ ?_).2 pre post node pid
        sentAt hsent
      · exact hmoves _ (by rw [he]; simp)
      · exact hheard before _ after he

/-- A silent dongle is asked three seconds after it was opened. -/
theorem listens_before_asking_of_silence :
    let visit : Dongle ℕ × Exchange ℕ := (.on 0x4b18 4, .fetching silentFrame 0)
    let before : List (Move ℕ) := [.scan (.daily 0 [visit]),
      .visit (.daily 0 [visit]) visit.1 visit.2, .scan (.daily 3 [visit])]
    let asked := (Runs.exec move new before).1.move (.visit (.daily 3 [visit]) visit.1 visit.2)
    asked.2.head? = some (.requested 4 0x4b18 (seconds 3)) ∧
      ∃ s, asked.1.session? 4 = some s ∧
        (linkHeard 4 (Runs.exec move new before).2 = true ∨
          Maxwell.listenFirst ≤ seconds 3 - s.openedAt) := by
  intro visit before asked
  have hheard : ∀ done m rest, [Pass.daily 0 [visit], Pass.daily 3 [visit]].flatMap Pass.moves =
      done ++ m :: rest →
        ¬AsksUnheard (Runs.exec move new done).1 (Runs.exec move new done).2 m := by
    intro done m rest he hunheard
    rcases done with _ | ⟨_, _ | ⟨_, _ | ⟨_, _ | ⟨_, done⟩⟩⟩⟩
    · obtain ⟨rfl, -⟩ := List.cons.inj he
      exact hunheard
    · obtain ⟨rfl, htail⟩ := List.cons.inj he
      obtain ⟨rfl, -⟩ := List.cons.inj htail
      obtain ⟨s, hs, -, hup, -⟩ := hunheard
      obtain rfl : _ = s := Except.ok.inj hs
      cases hup
    · obtain ⟨rfl, htail⟩ := List.cons.inj he
      obtain ⟨rfl, hrest⟩ := List.cons.inj htail
      obtain ⟨rfl, -⟩ := List.cons.inj hrest
      exact hunheard
    · obtain ⟨rfl, htail⟩ := List.cons.inj he
      obtain ⟨rfl, hrest⟩ := List.cons.inj htail
      obtain ⟨rfl, hlast⟩ := List.cons.inj hrest
      obtain ⟨rfl, -⟩ := List.cons.inj hlast
      obtain ⟨s, hs, -, hup, -⟩ := hunheard
      obtain rfl : _ = s := Except.ok.inj hs
      cases hup
    · have hlength := congrArg List.length he
      simp [Pass.moves, Pass.daily] at hlength
  refine ⟨by decide, ?_⟩
  have hlistens := listens_before_asking [.daily 0 [visit], .daily 3 [visit]] (by decide)
    (by decide) hheard before _ [] rfl [] asked.2.tail 4 0x4b18 (seconds 3) (by decide)
  simpa using hlistens

/-- A belief handed over: the headset was linked on the old node, and the session on the
new one asks the moment it is opened. -/
theorem asks_at_once_on_inherited_belief :
    ¬∀ passes : List (Pass ℕ), (passes.Pairwise fun p q => p.now ≤ q.now) →
      (∀ p ∈ passes, Maxwell.listenFirst ≤ p.listenFirst) →
      ∀ before m after, passes.flatMap Pass.moves = before ++ m :: after →
        ∀ pre post node pid sentAt, ((Runs.exec move new before).1.move m).2 =
            pre ++ .requested node pid sentAt :: post →
          ∃ s, ((Runs.exec move new before).1.move m).1.session? node = some s ∧
            (linkHeard node ((Runs.exec move new before).2 ++ pre) = true ∨
              Maxwell.listenFirst ≤ sentAt - s.openedAt) := by
  intro h
  let linked : Pass ℕ := .daily 0 [(.on 0x4b18 4, .fetching (linkFrame 1) 0)]
  let back : Pass ℕ := .daily 2 [(.on 0x4b18 5, .fetching silentFrame (seconds 2))]
  let before : List (Move ℕ) := linked.moves ++ [.scan (.daily 1 []), .scan back]
  let asked := (Runs.exec move new before).1.move
    (.visit back (.on 0x4b18 5) (.fetching silentFrame (seconds 2)))
  obtain ⟨s, hs, hheard | hlate⟩ := h [linked, .daily 1 [], back] (by decide) (by decide) before
    _ [] rfl [.opened 5 0x4b18] (asked.2.drop 2) 5 0x4b18 (seconds 2) (by decide)
  · revert hheard
    decide
  · have hopened : (asked.1.session? 5).map Session.openedAt = some (seconds 2) := by decide
    rw [hs] at hopened
    rw [Option.some.inj hopened] at hlate
    revert hlate
    decide

end Reader

end HeadsetBattery.Maxwell
