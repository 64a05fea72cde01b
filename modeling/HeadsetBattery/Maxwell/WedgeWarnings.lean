import HeadsetBattery.Library.Traces
import HeadsetBattery.Maxwell.Changes

/-!
# What a wedge warning rests on

A warning says that a dongle streams and answers nothing. It is founded if a
request was written to the dongle inside that silence and nothing was heard
since. The watch keeps one silence for the whole reader, while questions are
asked per session, so the two have to be tied together: the warnings of a run
are founded as long as the reader only warns about sessions that wait for the
answer to a request they made after the last message.
-/
namespace HeadsetBattery.Maxwell

open Traces

variable {Path : Type}

/-- A request written to a product strictly between two instants, and no
message of any dongle since. -/
def Unanswered (tr : List (Event Path)) (pid : UInt16) (since upTo : ℕ) : Prop :=
  ∃ before node sentAt after, tr = before ++ .requested node pid sentAt :: after ∧
    since < sentAt ∧ sentAt < upTo ∧ ∀ n q m, .message n q m ∉ after

theorem Unanswered.append {tr es : List (Event Path)} {pid : UInt16} {since upTo : ℕ}
    (h : Unanswered tr pid since upTo) (hes : ∀ n q m, .message n q m ∉ es) :
    Unanswered (tr ++ es) pid since upTo := by
  obtain ⟨before, node, sentAt, after, rfl, hsince, hupTo, hafter⟩ := h
  refine ⟨before, node, sentAt, after ++ es, by simp, hsince, hupTo, fun n q m hm => ?_⟩
  exact (List.mem_append.1 hm).elim (hafter n q m) (hes n q m)

theorem Unanswered.mono {tr : List (Event Path)} {pid : UInt16} {since upTo upTo' : ℕ}
    (h : Unanswered tr pid since upTo) (hle : upTo ≤ upTo') : Unanswered tr pid since upTo' := by
  obtain ⟨before, node, sentAt, after, rfl, hsince, hupTo, hafter⟩ := h
  exact ⟨before, node, sentAt, after, rfl, hsince, hupTo.trans_le hle, hafter⟩

/-- A warning has a request inside its silence that was left unanswered. -/
def Event.Founded (before : List (Event Path)) : Event Path → Prop
  | .warned _ pid now silence => Unanswered before pid (now - silence) now
  | _ => True

namespace Reader

variable [LinearOrder Path]

/-- The condition on a move. When a report says nothing and a warning is due, for
a headset not known to be linked or one the reader gives up on, the session waits
for the answer to a request it made at an earlier pass, after the last message of
any dongle. -/
def AsksFirst (r : Reader Path) : Move Path → Prop
  | .scan _ => True
  | .visit p d x => ∀ s w frame, r.sessionFor d x = .ok s → r.wedge = some w →
      x.fetched = .ok frame → messages frame.bytes = [] →
      w.Due p.now (s.playbackRunning x.playback) →
      (s.link ≠ .up ∧ (s.shouldAsk p.now p.interval p.listenFirst → x.written = .ok ()) ∨
        s.link = .up ∧ s.shouldAsk p.now p.interval p.listenFirst ∧
          maxUnanswered ≤ s.unanswered + s.pending.toNat) →
      s.pending = true ∧ ∃ a, s.askedAt = some a ∧ w.heardAt < a ∧ a < p.now

/-- The instants of a reader, none of which is past `now`: when a dongle was
last heard, and when each session was last asked. A session that waits for an
answer since after the last message has an unanswered request. -/
structure Dated (now : ℕ) (r : Reader Path) (tr : List (Event Path)) : Prop where
  watch : ∀ w, r.wedge = some w → w.heardAt ≤ now
  asked : ∀ node s a, r.session? node = some s → s.askedAt = some a → a ≤ now
  waits : ∀ w node s a, r.wedge = some w → r.session? node = some s → s.pending = true →
    s.askedAt = some a → w.heardAt < a → Unanswered tr s.productId w.heardAt (a + 1)

namespace Dated

variable {now : ℕ} {r r' : Reader Path} {tr es : List (Event Path)}

theorem mono (h : r.Dated now tr) {now' : ℕ} (hle : now ≤ now') : r.Dated now' tr :=
  ⟨fun w hw => (h.watch w hw).trans hle, fun n s a hs ha => (h.asked n s a hs ha).trans hle,
    h.waits⟩

/-- Events that carry no message, and sessions asked no later than before and
waiting for nothing else. -/
theorem quiet (h : r.Dated now tr) (hes : ∀ n q m, .message n q m ∉ es)
    (hw : ∀ w, r'.wedge = some w → ∃ w₀, r.wedge = some w₀ ∧ w.heardAt = w₀.heardAt)
    (hs : ∀ node s a, r'.session? node = some s → s.askedAt = some a →
      ∃ s₀, r.session? node = some s₀ ∧ s₀.askedAt = some a ∧ s₀.productId = s.productId ∧
        s₀.pending = s.pending) :
    r'.Dated now (tr ++ es) where
  watch w hw' := by
    obtain ⟨w₀, hw₀, he⟩ := hw w hw'
    exact he ▸ h.watch w₀ hw₀
  asked node s a hs' ha := by
    obtain ⟨s₀, hs₀, ha₀, -⟩ := hs node s a hs' ha
    exact h.asked node s₀ a hs₀ ha₀
  waits w node s a hw' hs' hpending ha hlt := by
    obtain ⟨w₀, hw₀, he⟩ := hw w hw'
    obtain ⟨s₀, hs₀, ha₀, hp, hsame⟩ := hs node s a hs' ha
    rw [he, ← hp]
    exact (h.waits w₀ node s₀ a hw₀ hs₀ (hsame.trans hpending) ha₀ (he ▸ hlt)).append hes

/-- A watch that was told just now is later than every question. -/
theorem told (hw : ∀ w, r'.wedge = some w → w.heardAt = now)
    (hs : ∀ node s a, r'.session? node = some s → s.askedAt = some a → a ≤ now)
    (tr : List (Event Path)) : r'.Dated now tr where
  watch w hw' := (hw w hw').le
  asked := hs
  waits w node s a hw' hs' _ ha hlt := by
    have := hw w hw'
    have := hs node s a hs' ha
    omega

/-- One session asked just now, with a request to show for it if it waits for an
answer. -/
theorem ask {node : Path} {s : Session Path} (h : r.Dated now tr)
    (hes : ∀ n q m, .message n q m ∉ es) (ha : s.askedAt = some now)
    (hopen : s.pending = true → ∀ w, r.wedge = some w → w.heardAt < now →
      Unanswered (tr ++ es) s.productId w.heardAt (now + 1)) :
    (r.put node s).Dated now (tr ++ es) where
  watch := h.watch
  asked n t a ht hat := by
    rw [session?_put] at ht
    split at ht
    · obtain rfl := Option.some.inj ht
      exact (Option.some.inj (ha.symm.trans hat)).ge
    · exact h.asked n t a ht hat
  waits w n t a hw ht hpending hat hlt := by
    rw [session?_put] at ht
    split at ht
    · obtain rfl := Option.some.inj ht
      obtain rfl := Option.some.inj (ha.symm.trans hat)
      exact hopen hpending w hw hlt
    · exact (h.waits w n t a hw ht hpending hat hlt).append hes

end Dated

theorem dated_new (now : ℕ) : (new : Reader Path).Dated now [] :=
  ⟨by simp [new], by simp, by simp [new]⟩

/-- A watch that was told before this pass: the report of the visit says
nothing, and the session and the watch are those the visit began with. -/
theorem Told.silent {start r : Reader Path} {p : Pass Path} {d : Dongle Path} {x : Exchange Path}
    {s : Session Path} {w : WedgeWatch} (h : Told start p d x r s) (hw : r.wedge = some w)
    (hlt : w.heardAt < p.now) :
    ∃ frame, start.sessionFor d x = .ok s ∧ start.wedge = some w ∧ x.fetched = .ok frame ∧
      messages frame.bytes = [] := by
  obtain ⟨s₀, frame, hs, hf, rfl, hwatch⟩ := h
  rw [hw, Option.some.injEq] at hwatch
  by_cases hm : messages frame.bytes = []
  · refine ⟨frame, by simpa [Session.takeIn, hm] using hs, ?_, hf, hm⟩
    cases hstart : start.wedge with
    | none => simp [hwatch, watchAfter, hm, hstart, WedgeWatch.new] at hlt
    | some w₀ => simp [hwatch, watchAfter, hm, hstart]
  · simp [hwatch, watchAfter, hm] at hlt

/-- A session with a question behind it was open when the visit began. -/
theorem session?_of_sessionFor {r : Reader Path} {d : Dongle Path} {x : Exchange Path}
    {s : Session Path} {a : ℕ} (h : r.sessionFor d x = .ok s) (ha : s.askedAt = some a) :
    r.session? d.node = some s := by
  obtain hold | ⟨-, -, rfl⟩ := sessionFor_eq_ok.1 h
  · exact hold
  · simp [Session.opened] at ha

/-- Taking in a report either says nothing to a watch that was there, or sets
the watch to now. -/
theorem Dated.hear {r : Reader Path} {tr : List (Event Path)} {now : ℕ} {node : Path}
    {s : Session Path} {frame : Frame} (h : r.Dated now tr) (held : r.session? node = some s) :
    (r.hear node s frame now).1.Dated now (tr ++ (r.hear node s frame now).2) := by
  have old : ∀ n t a, (r.hear node s frame now).1.session? n = some t → t.askedAt = some a →
      ∃ s₀, r.session? n = some s₀ ∧ s₀.askedAt = some a ∧ s₀.productId = t.productId ∧
        (messages frame.bytes = [] → s₀.pending = t.pending) := by
    intro n t a ht hat
    rw [show (r.hear node s frame now).1.session? n = _ from session?_put r node n _] at ht
    split at ht
    next hn =>
      obtain rfl := Option.some.inj ht
      exact ⟨s, hn ▸ held, by rw [← hat, Session.takeIn, Session.askedAt_hearAll],
        by rw [Session.takeIn, Session.productId_hearAll],
        fun hm => by rw [Session.takeIn, hm, Session.hearAll_nil]⟩
    next => exact ⟨t, ht, hat, rfl, fun _ => rfl⟩
  have late : (∀ w, (r.hear node s frame now).1.wedge = some w → w.heardAt = now) →
      (r.hear node s frame now).1.Dated now (tr ++ (r.hear node s frame now).2) :=
    fun hw => .told hw (fun n t a ht hat => by
      obtain ⟨s₀, hs₀, ha₀, -⟩ := old n t a ht hat
      exact h.asked n s₀ a hs₀ ha₀) _
  by_cases hm : messages frame.bytes = []
  · cases hwedge : r.wedge with
    | none =>
        refine late fun w hw => ?_
        obtain rfl : _ = w := by simpa [Reader.hear, watchAfter, hm, hwedge] using hw
        rfl
    | some w₀ =>
        refine h.quiet (by simp [Reader.hear, watchAfter, hm]) (fun w hw => ⟨w₀, hwedge, ?_⟩)
          fun n t a ht hat => ?_
        · obtain rfl : w₀ = w := by simpa [Reader.hear, watchAfter, hm, hwedge] using hw
          rfl
        · obtain ⟨s₀, hs₀, ha₀, hp, hsame⟩ := old n t a ht hat
          exact ⟨s₀, hs₀, ha₀, hp, hsame hm⟩
  · refine late fun w hw => ?_
    obtain rfl : _ = w := by simpa [Reader.hear, watchAfter, hm] using hw
    rfl

variable [ToString Path]

theorem Dated.change {start r r' : Reader Path} {m : Move Path} {es tr : List (Event Path)}
    (c : Change start m r es r') (h : r.Dated m.pass.now tr) :
    r'.Dated m.pass.now (tr ++ es) := by
  have same : ∀ {n : Path} {t : Session Path} {a : ℕ}, r.session? n = some t → t.askedAt = some a →
      ∃ s₀, r.session? n = some s₀ ∧ s₀.askedAt = some a ∧ s₀.productId = t.productId ∧
        s₀.pending = t.pending :=
    fun ht hat => ⟨_, ht, hat, rfl, rfl⟩
  cases c with
  | began => exact h.quiet (by simp) (fun w hw => ⟨w, hw, rfl⟩) fun _ _ _ => same
  | @opened p d x absent done =>
      refine h.quiet (by simp) (fun w hw => ⟨w, hw, rfl⟩) fun n t a ht hat => ?_
      rw [session?_put] at ht
      split at ht
      · obtain rfl := Option.some.inj ht
        simp [Session.opened] at hat
      · exact same ht hat
  | heard held fetched => exact h.hear held
  | gaveUp held told due up mute =>
      -- Nothing waits for an answer any more.
      exact h.ask (by simp) rfl fun hpending => absurd hpending (by simp [Session.giveUp])
  | @sent p d x _ s held told due =>
      refine h.ask (by simp) rfl fun _ w hw hlt => ?_
      exact ⟨tr, d.node, p.now, [], rfl, hlt, Nat.lt_succ_self _, by simp⟩
  | @lost p d x _ s held told =>
      refine h.quiet (by simp) (fun w hw => ⟨w, hw, rfl⟩) fun n t a ht hat => ?_
      rw [session?_put] at ht
      split at ht
      next hn =>
        obtain rfl := Option.some.inj ht
        exact ⟨s, hn ▸ held, hat, rfl, rfl⟩
      · exact same ht hat
  | @suspected p d x _ s held asked =>
      obtain ⟨_, ⟨_, _, _, _, _, hwedge⟩, _⟩ := asked
      refine h.quiet ?_ (fun w hw => ⟨_, hwedge, ?_⟩) fun n t a ht hat => ?_
      · intro n q msg he
        obtain ⟨silence, hsilence⟩ := mem_suspect he
        cases hsilence
      · unfold suspect at hw
        split at hw
        · rw [hwedge, Option.some.injEq] at hw
          rw [hw]
        · simp only [hwedge, Option.getD_some, Option.some.injEq] at hw
          rw [← hw, WedgeWatch.check_heardAt]
      · exact same (by rwa [session?_suspect] at ht) hat
  | @closed m _ node s held =>
      refine h.quiet (by simp) (fun w hw => ⟨w, hw, rfl⟩) fun n t a ht hat => ?_
      exact same (held_of_drop ht).2 hat
  | reachable =>
      refine h.quiet (fun n q msg he => ?_) (fun w hw => ⟨w, hw, rfl⟩) fun _ _ _ => same
      cases mem_reportRecovery he
  | unreachable =>
      exact h.quiet (by simp [reportError]) (fun w hw => ⟨w, hw, rfl⟩) fun _ _ _ => same
  | @reported p d x _ s held =>
      exact h.quiet (by simp) (fun w hw => ⟨w, hw, rfl⟩) fun _ _ _ => same
  | withheld => exact h.quiet (by simp) (fun w hw => ⟨w, hw, rfl⟩) fun _ _ _ => same

/-- The report of a move was fetched and says nothing. -/
def Silent : Move Path → Prop
  | .scan _ => False
  | .visit _ _ x => ∃ frame, x.fetched = .ok frame ∧ messages frame.bytes = []

/-- A change of a move whose report says nothing lets no message out. -/
theorem no_message_of_silent {start r r' : Reader Path} {m : Move Path} {es : List (Event Path)}
    (c : Change start m r es r') (hm : Silent m) : ∀ n q msg, .message n q msg ∉ es := by
  cases c with
  | @heard p d x _ s frame held fetched =>
      obtain ⟨frame', hf, hnone⟩ := hm
      rw [fetched, Except.ok.injEq] at hf
      subst hf
      simp [Reader.hear, watchAfter, hnone]
  | suspected =>
      unfold suspect
      split <;> simp
  | reachable =>
      unfold reportRecovery
      split <;> simp
  | _ => simp [reportError]

omit [ToString Path] in
/-- A warning within a visit, seen from the reader the visit began with. -/
theorem founded_of_check {start r : Reader Path} {p : Pass Path} {d : Dongle Path}
    {x : Exchange Path} {s : Session Path} {tr mid : List (Event Path)} {silence : ℕ}
    (hm : start.AsksFirst (.visit p d x)) (h : start.Dated p.now tr)
    (hmid : Silent (.visit p d x) → ∀ n q msg, Event.message n q msg ∉ mid)
    (asked : Questioned start p d x r s) (hlink : s.link ≠ .up)
    (hwarn : silence ∈ ((r.wedge.getD (WedgeWatch.new p.now)).check p.now
      (s.playbackRunning x.playback)).2) :
    Unanswered (tr ++ mid) s.productId (p.now - silence) p.now := by
  obtain ⟨hdue, rfl⟩ := WedgeWatch.due_of_check hwarn
  obtain ⟨s₁, told, rfl, hsent⟩ := asked
  obtain ⟨w, hw⟩ : ∃ w, r.wedge = some w := by
    obtain ⟨_, _, _, _, _, hwedge⟩ := told
    exact ⟨_, hwedge⟩
  rw [hw, Option.getD_some] at hdue ⊢
  have hlt : w.heardAt < p.now := by
    have hlong := hdue.1
    have hpos : 0 < wedgeSilence := by decide
    simp only [WedgeWatch.silence] at hlong
    omega
  obtain ⟨frame, hs, hstart, hf, hsilent⟩ := told.silent hw hlt
  have hq : s₁.pending = true ∧ ∃ a, s₁.askedAt = some a ∧ w.heardAt < a ∧ a < p.now := by
    refine hm s₁ w frame hs hstart hf hsilent ?_ ?_
    · rcases s₁.question_cases p.now p.interval p.listenFirst x.written with
        ⟨-, hq⟩ | ⟨-, -, -, hq⟩ | ⟨-, -, ⟨-, hq⟩ | ⟨err, -, hq⟩⟩ <;> rw [hq] at hdue <;> exact hdue
    · rcases s₁.question_cases p.now p.interval p.listenFirst x.written with
        ⟨hnot, hq⟩ | ⟨due, up, mute, hq⟩ | ⟨due, below, ⟨hok, hq⟩ | ⟨err, herr, hq⟩⟩
      · rw [hq] at hlink
        exact .inl ⟨hlink, fun h => absurd h (by simp [hnot])⟩
      · exact .inr ⟨up, due, mute⟩
      · rw [hq] at hlink
        exact .inl ⟨hlink, fun _ => hok⟩
      · exact absurd (by rw [hq]) (hsent err)
  obtain ⟨hpending, a, ha, hask, hnow⟩ := hq
  have hopen := h.waits w d.node s₁ a hstart (session?_of_sessionFor hs ha) hpending ha hask
  have hpid : (s₁.question p.now p.interval p.listenFirst x.written).1.productId =
      s₁.productId := by
    rcases s₁.question_cases p.now p.interval p.listenFirst x.written with
      ⟨-, hq⟩ | ⟨-, -, -, hq⟩ | ⟨-, -, ⟨-, hq⟩ | ⟨err, -, hq⟩⟩ <;> rw [hq] <;> rfl
  have hsince : p.now - w.silence p.now = w.heardAt := by
    simp only [WedgeWatch.silence]
    omega
  rw [hpid, hsince]
  exact (hopen.append (hmid ⟨frame, hf, hsilent⟩)).mono hnow

/-- A move that asks first keeps the instants in order and warns only where a
request was left unanswered. -/
theorem founded_move {start : Reader Path} {m : Move Path} {tr : List (Event Path)}
    (hm : start.AsksFirst m) (h : start.Dated m.pass.now tr) (hf : Everywhere Event.Founded tr) :
    (start.move m).1.Dated m.pass.now (tr ++ (start.move m).2) ∧
      Everywhere Event.Founded (tr ++ (start.move m).2) := by
  have hall := (move_chain start m).keeps
    (fun r tr' => r.Dated m.pass.now tr' ∧ Everywhere Event.Founded tr' ∧
      ∃ mid, tr' = tr ++ mid ∧ (Silent m → ∀ n q msg, .message n q msg ∉ mid))
    ?_ tr ⟨h, hf, [], by simp, by simp⟩
  · exact ⟨hall.1, hall.2.1⟩
  rintro r es r' tr' c ⟨hr, hfr, mid, rfl, hmid⟩
  refine ⟨hr.change c, everywhere_append.2 ⟨hfr, ?_⟩, mid ++ es, by simp, fun hs n q msg hin => ?_⟩
  · cases c with
    | @suspected p d x _ s held asked =>
        unfold suspect
        split
        · exact everywhere_nil _
        next hlink =>
          cases hwarn : ((r.wedge.getD (WedgeWatch.new p.now)).check p.now
            (s.playbackRunning x.playback)).2 with
          | none => simp [hwarn]
          | some silence =>
              simp only [hwarn, Option.toList_some, List.map_cons, List.map_nil,
                everywhere_singleton, List.append_nil]
              exact founded_of_check hm h hmid asked hlink (by rw [hwarn]; rfl)
    | @heard p d x _ s frame held fetched =>
        refine everywhere_of_forall fun e he pre => ?_
        rcases List.mem_append.1 he with he | he
        · obtain ⟨msg, -, rfl⟩ := List.mem_map.1 he
          trivial
        · split at he
          · obtain rfl := List.mem_singleton.1 he
            trivial
          · simp at he
    | reachable =>
        unfold reportRecovery
        split <;> simp [Event.Founded]
    | _ => simp [reportError, Event.Founded]
  · exact (List.mem_append.1 hin).elim (hmid hs n q msg) (no_message_of_silent c hs n q msg)

/-- In every run that only warns about sessions that wait for the answer to a
request of the silence, a warning that a dongle has answered nothing for a while
rests on a request that was written to it inside that while, at an earlier pass,
and that nothing has answered since. -/
theorem warnings_founded (passes : List (Pass Path))
    (hmono : passes.Pairwise fun p q => p.now ≤ q.now)
    (hc : Runs.Along move AsksFirst new (passes.flatMap Pass.moves))
    {pre post : List (Event Path)} {node : Path} {pid : UInt16} {now silence : ℕ}
    (he : (run passes).2 = pre ++ .warned node pid now silence :: post) :
    Unanswered pre pid (now - silence) now := by
  have hall : (∀ now, (∀ m ∈ passes.flatMap Pass.moves, m.pass.now ≤ now) →
      (Runs.exec move new (passes.flatMap Pass.moves)).1.Dated now
        (Runs.exec move new (passes.flatMap Pass.moves)).2) ∧
      Everywhere Event.Founded (Runs.exec move new (passes.flatMap Pass.moves)).2 := by
    refine Runs.exec_induction
      (fun pre m => (∀ m' ∈ pre, m'.pass.now ≤ m.pass.now) ∧ (Runs.exec move new pre).1.AsksFirst m)
      (fun ms (r : Reader Path) tr => (∀ now, (∀ m ∈ ms, m.pass.now ≤ now) → r.Dated now tr) ∧
        Everywhere Event.Founded tr)
      ⟨fun now _ => dated_new now, everywhere_nil _⟩ ?_ _
      fun pre m post he => ⟨now_le_of_mem hmono he, hc pre m post he⟩
    rintro ms m ⟨hdated, hfounded⟩ ⟨hle, hm⟩
    obtain ⟨hdated', hfounded'⟩ := founded_move hm (hdated _ hle) hfounded
    exact ⟨fun now hnow => hdated'.mono (hnow m (by simp)), hfounded'⟩
  rw [← run_eq_moves] at hall
  exact hall.2 pre _ post he

/-- A dongle that says nothing while its sound card streams, were it opened now. -/
def mute (openedAt : ℕ) : Dongle ℕ × Exchange ℕ :=
  ({ Dongle.on 0x4b18 4 with usbDevice := some 1 },
    { (Exchange.fetching silentFrame openedAt : Exchange ℕ) with playback := fun _ => some true })

/-- A mute dongle that was asked three seconds after it was opened is warned
about ten minutes later. -/
theorem warnings_founded_of_mute :
    let passes : List (Pass ℕ) := [.daily 0 [mute 0], .daily 3 [mute 0],
      .daily 603 [mute 0]]
    Runs.Along move AsksFirst new (passes.flatMap Pass.moves) ∧
      Unanswered ((run passes).2.take 8) 0x4b18 0 (seconds 603) := by
  intro passes
  have hc : Runs.Along move AsksFirst new (passes.flatMap Pass.moves) := by
    refine Runs.along_cons.2 ⟨trivial, Runs.along_cons.2 ⟨?_, Runs.along_cons.2 ⟨trivial,
      Runs.along_cons.2 ⟨?_, Runs.along_cons.2 ⟨trivial, Runs.along_cons.2
        ⟨?_, Runs.along_nil _ _ _⟩⟩⟩⟩⟩⟩
    · rintro s w frame - hw
      cases hw
    · rintro s w frame - hw - - hdue -
      obtain rfl : _ = w := Option.some.inj hw
      exact absurd hdue.1 (by decide)
    · rintro s w frame hs hw - - - -
      obtain rfl : _ = w := Option.some.inj hw
      obtain rfl : ⟨0x4b18, some 1, .unknown, none, 0, 0, some (seconds 3), 1, true, 0⟩ = s :=
        Except.ok.inj (Eq.trans (by rfl) hs)
      exact ⟨rfl, seconds 3, rfl, by decide, by decide⟩
  have he : (run passes).2 = (run passes).2.take 8 ++
      .warned 4 0x4b18 (seconds 603) (seconds 603) :: (run passes).2.drop 9 := by decide
  exact ⟨hc, by simpa using warnings_founded passes (by decide) hc he⟩

/-- A warning nothing was asked for: a dongle that was unplugged for ten minutes
is warned about at the pass that opens it again, before it is asked anything. -/
theorem warning_unfounded_on_replug :
    ¬ ∀ passes : List (Pass ℕ), (passes.Pairwise fun p q => p.now ≤ q.now) →
      ∀ pre post node pid now silence,
        (run passes).2 = pre ++ .warned node pid now silence :: post →
        Unanswered pre pid (now - silence) now := by
  intro h
  let passes : List (Pass ℕ) := [.daily 0 [mute 0], .daily 1 [], .daily 700 [mute (seconds 700)]]
  have he : (run passes).2 = (run passes).2.take 7 ++
      .warned 4 0x4b18 (seconds 700) (seconds 700) :: (run passes).2.drop 8 := by decide
  obtain ⟨before, node, sentAt, after, hsplit, -, -, -⟩ := h passes (by decide) _ _ _ _ _ _ he
  have hmem : Event.requested node 0x4b18 sentAt ∈ (run passes).2.take 7 := by simp [hsplit]
  have hnone : ∀ e ∈ (run passes).2.take 7, ∀ n q t, e ≠ Event.requested n q t := by
    have htake : (run passes).2.take 7 = [.pass 0, .opened 4 0x4b18,
        .reported 4 (some .unknown) (headset (mute 0).1 .unavailable 0), .pass (seconds 1),
        .closed 4 0x4b18, .pass (seconds 700), .opened 4 0x4b18] := by decide
    rw [htake]
    simp
  exact hnone _ hmem _ _ _ rfl

end Reader

end HeadsetBattery.Maxwell
