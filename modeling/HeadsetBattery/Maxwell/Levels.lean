import HeadsetBattery.Library.Traces
import HeadsetBattery.Maxwell.Changes

/-!
# The level a reader reports

A session caches the level between the dongle's messages, so a report has to
be traced back to the message it comes from. The level of a session is settled
by the last event on its node that has a say in it: a battery message gives one,
a headset said to be gone, a give-up, an opening and a closing take it away.
-/
namespace HeadsetBattery.Maxwell

open Traces

variable {Path : Type}

/-- What an event says about the level on a node, if it says anything. -/
def Event.settles [DecidableEq Path] (node : Path) : Event Path → Option (Option ℕ)
  | .message n _ (.battery level) => if n = node then some (some level) else none
  | .message n _ (.link false) => if n = node then some none else none
  | .opened n _ | .closed n _ | .gaveUp n _ => if n = node then some none else none
  | _ => none

def Event.isBattery : Event Path → Bool
  | .message _ _ (.battery _) => true
  | _ => false

/-- How many battery messages a trace holds. -/
def batteries (tr : List (Event Path)) : ℕ := tr.countP Event.isBattery

theorem batteries_append (tr es : List (Event Path)) :
    batteries (tr ++ es) = batteries tr + batteries es := List.countP_append

@[simp] theorem batteries_message (node : Path) (pid : UInt16) (m : Message) :
    batteries [Event.message node pid m] = match m with | .battery _ => 1 | .link _ => 0 := by
  cases m <;> rfl

/-- Only a battery message settles a level. -/
theorem Event.eq_of_settles [DecidableEq Path] {node : Path} {e : Event Path} {level : ℕ}
    (h : e.settles node = some (some level)) : ∃ pid, e = .message node pid (.battery level) := by
  unfold settles at h
  split at h
  · split at h
    next n pid level' hn => exact ⟨pid, by grind⟩
    next => cases h
  all_goals first | cases h | (split at h <;> cases h)

theorem hear_readings (s : Session Path) (readings : ℕ) (m : Message) (node : Path) (pid : UInt16) :
    (s.hear readings m).2 = readings + batteries [Event.message node pid m] := by
  match m with
  | .link true => rfl
  | .link false => rfl
  | .battery _ => rfl

/-! ## The invariant -/

variable [LinearOrder Path]

/-- A session holds what its node's last settling event gave, numbered by the
battery messages so far, and a level only while linked. -/
def Session.Settled (node : Path) (s : Session Path) (tr : List (Event Path)) : Prop :=
  ∃ before, Last (Event.settles node) tr before s.level ∧
    ∀ level, s.level = some level → level ≤ 100 ∧ s.link = .up ∧ s.sample = batteries before + 1

theorem Session.Settled.append {node : Path} {s : Session Path} {tr es : List (Event Path)}
    (h : s.Settled node tr) (hes : ∀ e ∈ es, e.settles node = none) :
    s.Settled node (tr ++ es) := by
  obtain ⟨before, hlast, hlevel⟩ := h
  exact ⟨before, hlast.append hes, hlevel⟩

/-- One message, taken in by the session it is for. -/
theorem Session.Settled.hear {node : Path} {s : Session Path} {tr : List (Event Path)}
    (pid : UInt16) {m : Message} (h : s.Settled node tr)
    (hm : ∀ level, m = .battery level → level ≤ 100) :
    (s.hear (batteries tr) m).1.Settled node (tr ++ [.message node pid m]) := by
  match m with
  | .link true =>
      obtain ⟨before, hlast, hlevel⟩ := h
      refine ⟨before, hlast.append (by simp [Event.settles]), fun level hl => ?_⟩
      obtain ⟨hle, -, hn⟩ := hlevel level hl
      exact ⟨hle, rfl, hn⟩
  | .link false => exact ⟨tr, last_snoc tr (by simp [Event.settles, Session.hear]), by simp [Session.hear]⟩
  | .battery level =>
      refine ⟨tr, last_snoc tr (by simp [Event.settles, Session.hear]), fun level' hl => ?_⟩
      obtain rfl : level = level' := by simpa [Session.hear] using hl
      exact ⟨hm level rfl, rfl, rfl⟩

/-- A whole report, taken in by the session it is for. -/
theorem Session.Settled.hearAll {node : Path} (pid : UInt16) (ms : List Message)
    (hms : ∀ level, .battery level ∈ ms → level ≤ 100) {s : Session Path}
    {tr : List (Event Path)} (h : s.Settled node tr) :
    (s.hearAll (batteries tr) ms).1.Settled node (tr ++ ms.map (.message node pid)) ∧
      (s.hearAll (batteries tr) ms).2 = batteries (tr ++ ms.map (.message node pid)) := by
  induction ms generalizing s tr with
  | nil => simpa using h
  | cons m ms ih =>
      have hone := h.hear pid fun level (hm : m = _) => hms level (by simp [hm])
      have hcount : (s.hear (batteries tr) m).2 = batteries (tr ++ [.message node pid m]) := by
        rw [hear_readings _ _ _ node pid, batteries_append]
      have hrest := ih (fun level hm => hms level (by simp [hm])) hone
      rw [Session.hearAll_cons, hcount]
      simpa using hrest

/-- A report comes from a session whose level is settled. -/
def Event.Sound (before : List (Event Path)) : Event Path → Prop
  | .reported node (some link) h =>
      ∃ (s : Session Path) (wired : Bool), s.Settled node before ∧ h.battery = s.battery wired ∧
        h.sample = some s.sample ∧ link = s.link
  | _ => True

/-- The numbering, the sessions and the reports of a reader. -/
structure Reader.Levelled (r : Reader Path) (tr : List (Event Path)) : Prop where
  readings : r.readings = batteries tr
  sessions : ∀ node s, r.session? node = some s → s.Settled node tr
  reports : Everywhere Event.Sound tr

namespace Reader.Levelled

variable {r r' : Reader Path} {tr es : List (Event Path)}

/-- Events that are no battery messages leave the numbering alone. -/
theorem numbered (h : r.Levelled tr) (hes : ∀ e ∈ es, e.isBattery = false) :
    r.readings = batteries (tr ++ es) := by
  have hnone : batteries es = 0 := List.countP_eq_zero.2 fun e he => by simpa using hes e he
  rw [h.readings, batteries_append, hnone, Nat.add_zero]

/-- Events that settle nothing and number nothing. -/
theorem quiet (h : r.Levelled tr) (hr : r'.readings = r.readings)
    (hs : ∀ node, r'.session? node = r.session? node)
    (hes : ∀ e ∈ es, e.isBattery = false ∧ ∀ node, e.settles node = none)
    (hsound : Everywhere (fun pre e => e.Sound (tr ++ pre)) es) : r'.Levelled (tr ++ es) where
  readings := by rw [hr, h.numbered fun e he => (hes e he).1]
  sessions node s hheld :=
    (h.sessions node s (by rw [← hs, hheld])).append fun e he => (hes e he).2 node
  reports := everywhere_append.2 ⟨h.reports, hsound⟩

/-- Events about one node, whose session is replaced by a settled one. -/
theorem put (node : Path) (s : Session Path) (h : r.Levelled tr)
    (hr : r'.readings = batteries (tr ++ es))
    (hs : ∀ node', r'.session? node' = if node' = node then some s else r.session? node')
    (hes : ∀ node', node' ≠ node → ∀ e ∈ es, e.settles node' = none)
    (hsound : Everywhere (fun pre e => e.Sound (tr ++ pre)) es) (hset : s.Settled node (tr ++ es)) :
    r'.Levelled (tr ++ es) where
  readings := hr
  sessions node' s' hheld := by
    rw [hs] at hheld
    by_cases hn : node' = node
    · rw [if_pos hn, Option.some.injEq] at hheld
      rwa [hn, ← hheld]
    · rw [if_neg hn] at hheld
      exact (h.sessions node' s' hheld).append (hes node' hn)
  reports := everywhere_append.2 ⟨h.reports, hsound⟩

end Reader.Levelled

/-- A session that changes neither level, link nor sample stays settled. -/
theorem Session.Settled.of_eq {node : Path} {s s' : Session Path} {tr : List (Event Path)}
    (h : s.Settled node tr) (hlevel : s'.level = s.level) (hlink : s'.link = s.link)
    (hsample : s'.sample = s.sample) : s'.Settled node tr := by
  unfold Settled
  rw [hlevel, hlink, hsample]
  exact h

/-- A session that just lost its level. -/
theorem Session.Settled.lose {node : Path} {s : Session Path} (tr : List (Event Path))
    {e : Event Path} (hlevel : s.level = none) (he : e.settles node = some none) :
    s.Settled node (tr ++ [e]) :=
  ⟨tr, by rw [hlevel]; exact last_snoc tr he, by simp [hlevel]⟩

namespace Reader

theorem levelled_new : (new : Reader Path).Levelled [] :=
  ⟨rfl, by simp, everywhere_nil _⟩

/-- Taking in a report numbers its battery messages, and settles the session it
comes from. -/
theorem Levelled.hear {r : Reader Path} {tr : List (Event Path)} {node : Path} {s : Session Path}
    {frame : Frame} {now : ℕ} (h : r.Levelled tr) (held : r.session? node = some s) :
    (r.hear node s frame now).1.Levelled (tr ++ (r.hear node s frame now).2) := by
  obtain ⟨hset, hcount⟩ := (h.sessions _ _ held).hearAll s.productId (messages frame.bytes)
    fun level => battery_le_of_mem_messages
  rw [← h.readings] at hset hcount
  have hagain : ∀ e ∈ if (r.watchAfter frame now).2 then [Event.answersAgain node] else [],
      e.isBattery = false ∧ (∀ node', e.settles node' = none) ∧ ∀ pre, e.Sound pre := by
    split <;> simp [Event.isBattery, Event.settles, Event.Sound]
  have hfrom : ∀ e ∈ (messages frame.bytes).map (Event.message node s.productId),
      (∀ node' ≠ node, e.settles node' = none) ∧ ∀ pre, e.Sound pre := by
    intro e he
    obtain ⟨m, -, rfl⟩ := List.mem_map.1 he
    refine ⟨fun node' hn => ?_, fun pre => trivial⟩
    rcases m with (_ | _) | level <;> simp [Event.settles, hn.symm]
  refine h.put node _ ?_ (fun _ => session?_put _ _ _ _) ?_ ?_ ?_
  · have hnone := List.countP_eq_zero.2 fun e he => by simpa using (hagain e he).1
    rw [Reader.hear, ← List.append_assoc, batteries_append, ← hcount, batteries, hnone]
    rfl
  · intro node' hn e he
    exact (List.mem_append.1 he).elim (fun he => (hfrom e he).1 node' hn)
      fun he => (hagain e he).2.1 node'
  · exact everywhere_of_forall fun e he pre =>
      (List.mem_append.1 he).elim (fun he => (hfrom e he).2 _) fun he => (hagain e he).2.2 _
  · rw [Reader.hear, ← List.append_assoc]
    exact hset.append fun e he => (hagain e he).2.1 node

variable [ToString Path]

/-- Every change keeps the numbering, the sessions and the reports sound. -/
theorem Levelled.change {start r r' : Reader Path} {m : Move Path} {es tr : List (Event Path)}
    (h : r.Levelled tr) (c : Change start m r es r') : r'.Levelled (tr ++ es) := by
  cases c with
  | began =>
      exact h.quiet rfl (fun _ => rfl) (by simp [Event.settles, Event.isBattery])
        (by simp [Event.Sound])
  | @opened p d x absent done =>
      exact h.put d.node _ (h.numbered (by simp [Event.isBattery]))
        (fun _ => session?_put _ _ _ _) (by simp [Event.settles, eq_comm]) (by simp [Event.Sound])
        (.lose tr rfl (by simp [Event.settles]))
  | heard held fetched => exact h.hear held
  | @gaveUp p d x _ s held told due up mute =>
      exact h.put d.node _ (h.numbered (by simp [Event.isBattery]))
        (fun _ => session?_put _ _ _ _) (by simp [Event.settles, eq_comm]) (by simp [Event.Sound])
        (.lose tr rfl (by simp [Event.settles]))
  | @sent p d x _ s held told due =>
      exact h.put d.node _ (h.numbered (by simp [Event.isBattery]))
        (fun _ => session?_put _ _ _ _) (by simp [Event.settles]) (by simp [Event.Sound])
        (((h.sessions _ _ held).of_eq rfl rfl rfl).append (by simp [Event.settles]))
  | @lost p d x _ s held told =>
      exact h.put d.node _ (h.numbered (by simp))
        (fun _ => session?_put _ _ _ _) (by simp) (by simp)
        (((h.sessions _ _ held).of_eq rfl rfl rfl).append (by simp))
  | @suspected p d x _ s held asked =>
      refine h.quiet (readings_suspect _ _ _ _ _) (session?_suspect _ _ · _ _ _) (fun e he => ?_)
        (everywhere_of_forall fun e he pre => ?_)
      · obtain ⟨silence, rfl⟩ := mem_suspect he
        exact ⟨rfl, fun _ => rfl⟩
      · obtain ⟨silence, rfl⟩ := mem_suspect he
        trivial
  | @closed m _ node s held =>
      refine ⟨h.numbered (by simp [Event.isBattery]), fun node' s' hheld => ?_,
        everywhere_append.2 ⟨h.reports, by simp [Event.Sound]⟩⟩
      obtain ⟨hn, hheld⟩ := held_of_drop hheld
      exact (h.sessions _ _ hheld).append (by simpa [Event.settles, eq_comm] using hn)
  | reachable =>
      refine h.quiet rfl (fun _ => rfl) (fun e he => ?_) (everywhere_of_forall fun e he pre => ?_)
      · obtain rfl := mem_reportRecovery he
        exact ⟨rfl, fun _ => rfl⟩
      · obtain rfl := mem_reportRecovery he
        trivial
  | unreachable =>
      exact h.quiet rfl (fun _ => rfl) (by simp [reportError, Event.settles, Event.isBattery])
        (by simp [reportError, Event.Sound])
  | @reported p d x _ s held =>
      refine h.quiet rfl (fun _ => rfl) (by simp [Event.settles, Event.isBattery]) ?_
      rw [everywhere_singleton, List.append_nil]
      exact ⟨s, p.wired, h.sessions _ _ held, rfl, rfl, rfl⟩
  | withheld =>
      exact h.quiet rfl (fun _ => rfl) (by simp [Event.settles, Event.isBattery])
        (by simp [Event.Sound])

theorem levelled_run (passes : List (Pass Path)) : (run passes).1.Levelled (run passes).2 :=
  run_invariant Levelled levelled_new (fun _ _ _ _ _ _ c h => h.change c) passes

/-- What a report says, traced back to the message its level comes from. -/
theorem settled_of_reported {passes : List (Pass Path)} {pre post : List (Event Path)}
    {node : Path} {link : Link} {h : Headset}
    (he : (run passes).2 = pre ++ .reported node (some link) h :: post) :
    (∀ level, h.battery.level = some level →
      ∃ before, Last (Event.settles node) pre before (some level)) ∧
    (∀ level before, Last (Event.settles node) pre before (some level) →
      h.battery.level = some level ∧ level ≤ 100 ∧ link = .up ∧
        h.sample = some (batteries before + 1)) ∧
    (h.battery = .disconnected ↔ link = .down) := by
  obtain ⟨s, wired, ⟨before, hlast, hlevel⟩, hb, hsample, rfl⟩ :=
    (levelled_run passes).reports _ _ _ he
  have hup : h.battery.level = s.level := by
    rw [hb, Session.level_battery]
    cases hs : s.level with
    | none => simp
    | some level => simp [(hlevel level hs).2.1]
  refine ⟨fun level hl => ⟨before, by rwa [← hl, hup]⟩, fun level before' hl => ?_, ?_⟩
  · obtain ⟨rfl, hs⟩ := hlast.unique hl
    obtain ⟨hle, hlink, hn⟩ := hlevel level hs
    exact ⟨hup.trans hs, hle, hlink, hsample.trans (congrArg some hn)⟩
  · rw [hb, Session.battery_eq_disconnected]

/-- A dongle that could be read is reported with a level exactly when the last
event to settle the level of its open session is a battery message, and with
that level; the headset is then linked and the sample is the number of that
message among all battery messages, so that equal samples come from one
message. It is reported as disconnected exactly when the link is down. -/
theorem reported_level (passes : List (Pass Path)) {pre post : List (Event Path)} {node : Path}
    {link : Link} {h : Headset}
    (he : (run passes).2 = pre ++ .reported node (some link) h :: post) :
    (∀ level, h.battery.level = some level ↔
      ∃ before, Last (Event.settles node) pre before (some level)) ∧
    (∀ level before, Last (Event.settles node) pre before (some level) →
      level ≤ 100 ∧ link = .up ∧ h.sample = some (batteries before + 1)) ∧
    (h.battery = .disconnected ↔ link = .down) ∧
    ∀ {pre' post' node' link' h'}, (run passes).2 = pre' ++ .reported node' (some link') h' :: post' →
      h.battery.level.isSome → h'.battery.level.isSome → h.sample = h'.sample →
      ∃ before level level', Last (Event.settles node) pre before (some level) ∧
        Last (Event.settles node') pre' before (some level') := by
  obtain ⟨hto, hfrom, hdown⟩ := settled_of_reported he
  refine ⟨fun level => ⟨hto level, fun ⟨before, hl⟩ => (hfrom level before hl).1⟩,
    fun level before hl => (hfrom level before hl).2, hdown, ?_⟩
  intro pre' post' node' link' h' he' hsome hsome' hsample
  obtain ⟨level, hl⟩ := Option.isSome_iff_exists.1 hsome
  obtain ⟨level', hl'⟩ := Option.isSome_iff_exists.1 hsome'
  obtain ⟨hto', hfrom', -⟩ := settled_of_reported he'
  obtain ⟨before, hlast⟩ := hto level hl
  obtain ⟨before', hlast'⟩ := hto' level' hl'
  have hn : batteries before = batteries before' := by
    have := (hfrom level before hlast).2.2.2
    have := (hfrom' level' before' hlast').2.2.2
    grind
  suffices hsame : before = before' from ⟨before, level, level', hlast, hsame ▸ hlast'⟩
  obtain ⟨e, after, rfl, hset, -⟩ := hlast
  obtain ⟨e', after', rfl, hset', -⟩ := hlast'
  obtain ⟨pid, rfl⟩ := Event.eq_of_settles hset
  obtain ⟨pid', rfl⟩ := Event.eq_of_settles hset'
  simp only [List.append_assoc, List.cons_append] at he he'
  exact before_eq_of_countP he he' rfl rfl hn

/-- A level repeated by a pass that fetched nothing is still the message's. -/
theorem reported_level_of_cached :
    let d : Dongle ℕ := .on 0x4b18 4
    let events := (run [.daily 1 [(d, .fetching (batteryFrame 92) (seconds 1))],
      .daily 2 [(d, .fetching silentFrame (seconds 1))]]).2
    events = events.take 6 ++ [.reported 4 (some .up) (headset d (.discharging 92) 1)] ∧
      ∃ before, Last (Event.settles 4) (events.take 6) before (some 92) := by
  intro d events
  have he : events = events.take 6 ++ [.reported 4 (some .up) (headset d (.discharging 92) 1)] := by
    decide
  exact ⟨he, ((reported_level _ he).1 92).1 rfl⟩

end Reader

end HeadsetBattery.Maxwell
