import HeadsetBattery.Maxwell.Samples

/-!
# What dongles share

One reader visits every dongle. The dongles share the count of battery messages, the
wedge watch and the access watch, and nothing else: as long as a listing names a node
for each product, what a reader does about one of them is what a machine of its own
does with its visits, whatever the other dongles do.
-/
namespace HeadsetBattery.Maxwell

variable {Path : Type}

/-! ## The machine of one dongle -/

/-- A session but for the number of its level, which counts the messages of every
dongle. -/
def Session.unnumbered (s : Session Path) : Session Path := { s with sample := 0 }

/-- An event but for the number of a reading. -/
def Event.unnumbered : Event Path → Event Path
  | .reported node link headset => .reported node link { headset with sample := none }
  | e => e

/-- The product an event is about, unless it tells of a watch that all dongles share. -/
def Event.product? : Event Path → Option UInt16
  | .opened _ pid | .closed _ pid | .message _ pid _ | .requested _ pid _ | .gaveUp _ pid => some pid
  | .reported _ _ headset => some headset.productId
  | _ => none

/-- What there is to say about one product. -/
def Event.about (pid : UInt16) (e : Event Path) : Option (Event Path) :=
  if e.product? = some pid then some e.unnumbered else none

/-- What a reader keeps for one product: its session with the node it is on, and what the
last one knew of the link. -/
structure Own (Path : Type) where
  held : Option (Path × Session Path)
  link : Option Link

namespace Own

def new : Own Path := ⟨none, none⟩

/-- The session goes if its node does. -/
def part (o : Own Path) (leaves : Path → Bool) : Own Path × List (Event Path) :=
  match o.held with
  | some (node, s) =>
      if leaves node then (⟨none, some s.link⟩, [.closed node s.productId]) else (o, [])
  | none => (o, [])

/-- The session a visit listens to, and what opening it says. -/
def sessionFor (o : Own Path) (d : Dongle Path) (x : Exchange Path) :
    Except IoError (Session Path × List (Event Path)) :=
  match o.held with
  | some (_, s) => .ok (s, [])
  | none =>
      match x.opens with
      | .error err => .error err
      | .ok _ =>
          .ok (Session.opened d (o.link.getD .unknown) x.openedAt, [.opened d.node d.productId])

/-- A failure withholds the level, and takes the session if the dongle is gone. -/
def fail (o : Own Path) (d : Dongle Path) (err : IoError) : Own Path × List (Event Path) :=
  let parted := o.part fun _ => err.gone
  (parted.1, parted.2 ++ [(Event.reported d.node none (Reader.headset d .unavailable 0)).unnumbered])

def visit (o : Own Path) (p : Pass Path) (d : Dongle Path) (x : Exchange Path) :
    Own Path × List (Event Path) :=
  match o.sessionFor d x with
  | .error err => o.fail d err
  | .ok (s, entering) =>
      match x.fetched with
      | .error err =>
          let failed := Own.fail ⟨some (d.node, s), o.link⟩ d err
          (failed.1, entering ++ failed.2)
      | .ok frame =>
          let asked := (s.takeIn frame 0).1.question p.now p.interval p.listenFirst x.written
          let own : Own Path := ⟨some (d.node, asked.1.unnumbered), o.link⟩
          let told := entering ++ (messages frame.bytes).map (.message d.node s.productId) ++
            Reader.askedEvents d.node asked.1 p.now asked.2
          match asked.2 with
          | some (.failed err) =>
              let failed := own.fail d err
              (failed.1, told ++ failed.2)
          | _ =>
              (own, told ++ [(Event.reported d.node (some asked.1.link)
                (Reader.headset d (asked.1.battery p.wired) 0)).unnumbered])

/-- The product's turn, if it is listed. -/
def turn (o : Own Path) (p : Pass Path) :
    List (Dongle Path × Exchange Path) → Own Path × List (Event Path)
  | [] => (o, [])
  | (d, x) :: _ => o.visit p d x

/-- One pass, in which the product is listed first or not at all. -/
def pass [DecidableEq Path] (o : Own Path) (p : Pass Path) : Own Path × List (Event Path) :=
  let scanned := o.part fun node => p.listed.all fun v => v.1.node ≠ node
  let visited := scanned.1.turn p p.listed
  (visited.1, scanned.2 ++ visited.2)

end Own

/-- A pass as one product sees it. -/
def Pass.only (pid : UInt16) (p : Pass Path) : Pass Path :=
  { p with listed := p.listed.filter fun v => v.1.productId = pid }

/-! ## Numbers -/

namespace Session

theorem unnumbered_hear {s t : Session Path} (h : s.unnumbered = t.unnumbered) (n k : ℕ)
    (m : Message) : (s.hear n m).1.unnumbered = (t.hear k m).1.unnumbered := by
  simp only [unnumbered, Session.mk.injEq] at h
  rcases m with (_ | _) | level <;> simp [hear, unnumbered, h]

theorem unnumbered_hearAll (ms : List Message) {s t : Session Path}
    (h : s.unnumbered = t.unnumbered) (n k : ℕ) :
    (s.hearAll n ms).1.unnumbered = (t.hearAll k ms).1.unnumbered := by
  induction ms generalizing s t n k with
  | nil => exact h
  | cons m ms ih => exact ih (unnumbered_hear h n k m) _ _

/-- The questions of a session do not depend on the number of its level. -/
theorem question_unnumbered (s : Session Path) (now interval first : ℕ)
    (written : Except IoError Unit) :
    s.unnumbered.question now interval first written =
      ((s.question now interval first written).1.unnumbered,
        (s.question now interval first written).2) := by
  have hdue : s.unnumbered.shouldAsk now interval first = s.shouldAsk now interval first := rfl
  have hmute : (s.unnumbered.countLost.link = .up ∧ maxUnanswered ≤ s.unnumbered.countLost.unanswered) =
      (s.countLost.link = .up ∧ maxUnanswered ≤ s.countLost.unanswered) := rfl
  unfold question
  rw [hdue]
  split
  · simp only [ask, hmute]
    split
    · rfl
    · cases written <;> rfl
  · rfl

/-- A report is taken in and a question asked in the same way whatever the numbers. -/
theorem question_takeIn_unnumbered (s : Session Path) (frame : Frame) (n now interval first : ℕ)
    (written : Except IoError Unit) :
    let asked := (s.takeIn frame n).1.question now interval first written
    let asked' := (s.unnumbered.takeIn frame 0).1.question now interval first written
    asked'.1.unnumbered = asked.1.unnumbered ∧ asked'.2 = asked.2 := by
  intro asked asked'
  have hsame : (s.unnumbered.takeIn frame 0).1.unnumbered = (s.takeIn frame n).1.unnumbered :=
    unnumbered_hearAll (s := s.unnumbered) (t := s) (messages frame.bytes) rfl 0 n
  have hasked := congrArg (fun t : Session Path => t.question now interval first written) hsame
  simp only [question_unnumbered] at hasked
  exact Prod.mk.inj hasked

theorem productId_question (s : Session Path) (now interval first : ℕ)
    (written : Except IoError Unit) :
    (s.question now interval first written).1.productId = s.productId := by
  rcases s.question_cases now interval first written with
    ⟨-, hq⟩ | ⟨-, -, -, hq⟩ | ⟨-, -, ⟨-, hq⟩ | ⟨err, -, hq⟩⟩ <;> rw [hq] <;> rfl

end Session

/-! ## One visit -/

section Visit

variable [LinearOrder Path]

/-- What a reader keeps for the dongle on a node. -/
def Reader.own (r : Reader Path) (d : Dongle Path) : Own Path :=
  ⟨(r.session? d.node).map fun s => (d.node, s.unnumbered), r.lastLink d.productId⟩

/-- A reader does something about one dongle: this is left for it, nothing is for the
others, and this is what there is to say. -/
structure Does (d : Dongle Path) (r r' : Reader Path) (es : List (Event Path)) (left : Own Path)
    (told : List (Event Path)) : Prop where
  own : r'.own d = left
  elsewhere : ∀ pid, pid ≠ d.productId → r'.lastLink pid = r.lastLink pid
  matched : ∀ s, r'.session? d.node = some s → s.productId = d.productId
  events : es.filterMap (Event.about d.productId) = told
  others : ∀ e ∈ es, ∀ pid, e.product? = some pid → pid = d.productId

theorem Does.trans {d : Dongle Path} {r r' r'' : Reader Path} {es es' told told' : List (Event Path)}
    {left left' : Own Path} (h : Does d r r' es left told) (h' : Does d r' r'' es' left' told') :
    Does d r r'' (es ++ es') left' (told ++ told') where
  own := h'.own
  elsewhere pid hpid := (h'.elsewhere pid hpid).trans (h.elsewhere pid hpid)
  matched := h'.matched
  events := by rw [List.filterMap_append, h.events, h'.events]
  others e he := (List.mem_append.1 he).elim (h.others e) (h'.others e)

/-- Events about one product that carry no number. -/
def OwnEvents (pid : UInt16) (es : List (Event Path)) : Prop :=
  ∀ e ∈ es, e.product? = some pid ∧ e.unnumbered = e

omit [LinearOrder Path] in
theorem OwnEvents.about {pid : UInt16} {es : List (Event Path)} (h : OwnEvents pid es) :
    es.filterMap (Event.about pid) = es := by
  have hsome : es.filterMap (Event.about pid) = es.filterMap some :=
    List.filterMap_congr fun e he => by simp [Event.about, h e he]
  rw [hsome, List.filterMap_some]

omit [LinearOrder Path] in
theorem ownEvents_messages (node : Path) (pid : UInt16) (ms : List Message) :
    OwnEvents pid (ms.map (.message node pid)) := by
  intro e he
  obtain ⟨m, -, rfl⟩ := List.mem_map.1 he
  exact ⟨rfl, rfl⟩

omit [LinearOrder Path] in
theorem ownEvents_asked (node : Path) (s : Session Path) (now : ℕ) (asked : Option Asked) :
    OwnEvents s.productId (Reader.askedEvents node s now asked) := by
  rcases asked with _ | _ | _ | err <;> simp [OwnEvents, Reader.askedEvents, Event.product?,
    Event.unnumbered]

/-- What the shared watches say is about no product. -/
theorem Does.aside {d : Dongle Path} {r r' r'' : Reader Path} {es es' told : List (Event Path)}
    {left : Own Path} (h : Does d r r' es left told) (hs : r''.session? d.node = r'.session? d.node)
    (hl : r''.lastLink = r'.lastLink) (hes : ∀ e ∈ es', e.product? = none) :
    Does d r r'' (es ++ es') left told where
  own := by rw [← h.own, Reader.own, Reader.own, hs, hl]
  elsewhere pid hpid := hl ▸ h.elsewhere pid hpid
  matched s hsession := h.matched s (hs ▸ hsession)
  events := by
    have hnone : es'.filterMap (Event.about d.productId) = [] := by
      refine List.filterMap_eq_nil_iff.2 fun e he => ?_
      simp [Event.about, hes e he]
    rw [List.filterMap_append, h.events, hnone, List.append_nil]
  others e he pid hpid := by
    obtain he | he := List.mem_append.1 he
    · exact h.others e he pid hpid
    · simp [hes e he] at hpid

theorem Does.suspect {d : Dongle Path} {r r' : Reader Path} {es told : List (Event Path)}
    {left : Own Path} (h : Does d r r' es left told) (s : Session Path) (now : ℕ)
    (playback : Path → Option Bool) :
    Does d r (r'.suspect d.node s now playback).1 (es ++ (r'.suspect d.node s now playback).2) left
      told := by
  refine h.aside (Reader.session?_suspect ..) (Reader.lastLink_suspect ..) fun e he => ?_
  obtain ⟨silence, rfl⟩ := Reader.mem_suspect he
  rfl

theorem Does.reportRecovery {d : Dongle Path} {r r' : Reader Path} {es told : List (Event Path)}
    {left : Own Path} (h : Does d r r' es left told) :
    Does d r r'.reportRecovery.1 (es ++ r'.reportRecovery.2) left told := by
  refine h.aside rfl rfl fun e he => ?_
  rw [Reader.mem_reportRecovery he]
  rfl

namespace Reader

variable {r : Reader Path} {d : Dongle Path} {x : Exchange Path} {s : Session Path}

theorem own_put (r : Reader Path) (d : Dongle Path) (s : Session Path) :
    (r.put d.node s).own d = ⟨some (d.node, s.unnumbered), r.lastLink d.productId⟩ := by
  simp [own]

/-- Nothing but a report of the dongle. -/
theorem does_report (r : Reader Path) (d : Dongle Path) (link : Option Link) (battery : BatteryState)
    (sample : ℕ) (hmatched : ∀ s, r.session? d.node = some s → s.productId = d.productId) :
    Does d r r [.reported d.node link (headset d battery sample)] (r.own d)
      [(Event.reported d.node link (headset d battery 0)).unnumbered] where
  own := rfl
  elsewhere _ _ := rfl
  matched := hmatched
  events := by simp [Event.about, Event.product?, headset, Event.unnumbered]
  others e he pid hpid := by
    obtain rfl := List.mem_singleton.1 he
    exact (Option.some.inj hpid).symm

/-- The session a visit listens to is that of the machine, up to its number. -/
theorem does_enter (h : r.sessionFor d x = .ok s)
    (hmatched : ∀ s, r.session? d.node = some s → s.productId = d.productId) :
    ∃ entering, (r.own d).sessionFor d x = .ok (s.unnumbered, entering) ∧
      s.productId = d.productId ∧
      Does d r (r.enter d s).1 (r.enter d s).2 ⟨some (d.node, s.unnumbered), (r.own d).link⟩
        entering := by
  obtain hold | ⟨hnone, hopen, rfl⟩ := sessionFor_eq_ok.1 h
  · refine ⟨[], by simp [Own.sessionFor, own, hold], hmatched s hold, ?_⟩
    simp only [enter, hold]
    exact ⟨by simp [own, hold], fun _ _ => rfl, hmatched, rfl, by simp⟩
  · refine ⟨[.opened d.node d.productId], by simp [Own.sessionFor, own, hnone, hopen]; rfl, rfl, ?_⟩
    simp only [enter, hnone]
    refine ⟨own_put r d _, fun _ _ => rfl, fun s hs => ?_, ?_, fun e he pid hpid => ?_⟩
    · obtain rfl : Session.opened d _ x.openedAt = s := by simpa using hs
      rfl
    · simp [Event.about, Event.product?, Event.unnumbered]
    · obtain rfl := List.mem_singleton.1 he
      exact (Option.some.inj hpid).symm

/-- Listening to an open session: its messages, and what becomes of its question. -/
theorem does_ask (r : Reader Path) (p : Pass Path) (x : Exchange Path) (frame : Frame)
    (hmatched : s.productId = d.productId) :
    let asked := (s.takeIn frame r.readings).1.question p.now p.interval p.listenFirst x.written
    let asked' := (s.unnumbered.takeIn frame 0).1.question p.now p.interval p.listenFirst x.written
    Does d r ((r.hear d.node s frame p.now).1.put d.node asked.1)
      ((r.hear d.node s frame p.now).2 ++ askedEvents d.node asked.1 p.now asked.2)
      ⟨some (d.node, asked'.1.unnumbered), (r.own d).link⟩
      ((messages frame.bytes).map (.message d.node s.unnumbered.productId) ++
        askedEvents d.node asked'.1 p.now asked'.2) := by
  intro asked asked'
  obtain ⟨hsame, hanswer⟩ := s.question_takeIn_unnumbered frame r.readings p.now p.interval
    p.listenFirst x.written
  have hproduct : asked.1.productId = d.productId := by
    rw [Session.productId_question, Session.takeIn, Session.productId_hearAll, hmatched]
  have hproduct' : asked'.1.productId = d.productId := (congrArg Session.productId hsame).trans hproduct
  have hsaid : OwnEvents d.productId ((messages frame.bytes).map (.message d.node s.productId)) :=
    hmatched ▸ ownEvents_messages d.node s.productId _
  have hasked : OwnEvents d.productId (askedEvents d.node asked.1 p.now asked.2) :=
    hproduct ▸ ownEvents_asked d.node asked.1 p.now asked.2
  have hsameEvents : askedEvents d.node asked'.1 p.now asked'.2 =
      askedEvents d.node asked.1 p.now asked.2 := by
    rw [hanswer]
    rcases asked.2 with _ | _ | _ | err <;> simp [askedEvents, hproduct, hproduct']
  -- Whether the dongle answers again is a matter of the shared watch.
  obtain ⟨again, hheard, hagain⟩ : ∃ again, (r.hear d.node s frame p.now).2 =
      (messages frame.bytes).map (.message d.node s.productId) ++ again ∧
      ∀ e ∈ again, e.product? = none := by
    refine ⟨_, rfl, ?_⟩
    split <;> simp [Event.product?]
  have hnone : again.filterMap (Event.about d.productId) = [] :=
    List.filterMap_eq_nil_iff.2 fun e he => by simp [Event.about, hagain e he]
  refine ⟨?_, fun _ _ => rfl, fun t ht => ?_, ?_, fun e he pid hpid => ?_⟩
  · rw [own_put]
    exact congrArg₂ Own.mk (congrArg (fun t => some (d.node, t)) hsame.symm) rfl
  · obtain rfl : asked.1 = t := by simpa using ht
    exact hproduct
  · rw [hheard, List.filterMap_append, List.filterMap_append, hsaid.about, hnone, hasked.about,
      List.append_nil, hsameEvents]
    rfl
  · rw [hheard] at he
    simp only [List.mem_append] at he
    obtain (he | he) | he := he
    · exact (Option.some.inj ((hsaid e he).1.symm.trans hpid)).symm
    · simp [hagain e he] at hpid
    · exact (Option.some.inj ((hasked e he).1.symm.trans hpid)).symm

variable [ToString Path]

/-- A failure closes the session if the dongle is gone, and withholds the level. -/
theorem does_fail (r : Reader Path) (d : Dongle Path) (err : IoError) (now : ℕ)
    (hmatched : ∀ s, r.session? d.node = some s → s.productId = d.productId) :
    let closed := if err.gone then r.close d.node else (r, [])
    let failed := closed.1.reportError d.node err now
    Does d r failed.1 (closed.2 ++ failed.2 ++ [.reported d.node none (headset d .unavailable 0)])
      ((r.own d).fail d err).1 ((r.own d).fail d err).2 := by
  intro closed failed
  have hclosed : Does d r closed.1 closed.2 ((r.own d).part fun _ => err.gone).1
      ((r.own d).part fun _ => err.gone).2 := by
    by_cases hgone : err.gone = true
    · simp only [closed, hgone, if_true]
      cases hs : r.session? d.node with
      | none =>
          simp only [close, hs, Own.part, own, Option.map_none]
          exact ⟨by simp [own, hs], fun _ _ => rfl, by simp [hs], rfl, by simp⟩
      | some s =>
          have hpid := hmatched s hs
          simp only [close, hs, Own.part, own, Option.map_some]
          refine ⟨by simp [own, hpid]; rfl, fun pid hne => ?_, by simp, ?_, fun e he pid h => ?_⟩
          · simp [hpid, hne]
          · simp [Event.about, Event.product?, Event.unnumbered, hpid, Session.unnumbered]
          · obtain rfl := List.mem_singleton.1 he
            exact (Option.some.inj h).symm.trans hpid
    · have hsame : (r.own d).part (fun _ => err.gone) = (r.own d, []) := by
        unfold Own.part
        split <;> simp [hgone]
      simp only [closed, if_neg hgone, hsame]
      exact ⟨rfl, fun _ _ => rfl, hmatched, rfl, by simp⟩
  have hfailed : Does d r failed.1 (closed.2 ++ failed.2) _ _ :=
    hclosed.aside rfl rfl (by simp [failed, reportError, Event.product?])
  have hreport := hfailed.trans (does_report failed.1 d none .unavailable 0 hfailed.matched)
  rw [hfailed.own] at hreport
  exact hreport

/-- What a visit does about its dongle is what the machine of the dongle does. -/
theorem does_visit (r : Reader Path) (p : Pass Path) (d : Dongle Path) (x : Exchange Path)
    (hmatched : ∀ s, r.session? d.node = some s → s.productId = d.productId) :
    Does d r (r.visit p d x).1 (r.visit p d x).2 ((r.own d).visit p d x).1
      ((r.own d).visit p d x).2 := by
  cases hs : r.sessionFor d x with
  | error err =>
      obtain ⟨hnone, hopen⟩ := sessionFor_eq_error.1 hs
      have hown : (r.own d).visit p d x = (r.own d).fail d err := by
        simp [Own.visit, Own.sessionFor, own, hnone, hopen]
      have hfail := does_fail r d err x.failedAt hmatched
      rw [hown]
      simpa [visit, listenTo, hs] using hfail
  | ok s =>
      obtain ⟨entering, hsession, hpid, henter⟩ := does_enter hs hmatched
      cases hf : x.fetched with
      | error err =>
          have hfail := henter.trans (does_fail (r.enter d s).1 d err x.failedAt henter.matched)
          rw [henter.own] at hfail
          simpa only [visit, listenTo, hs, hf, Own.visit, hsession, List.append_assoc] using hfail
      | ok frame =>
          have hask := henter.trans (does_ask (r.enter d s).1 p x frame hpid)
          rw [henter.own, readings_enter] at hask
          let asked := (s.takeIn frame r.readings).1.question p.now p.interval p.listenFirst x.written
          let asked' :=
            (s.unnumbered.takeIn frame 0).1.question p.now p.interval p.listenFirst x.written
          obtain ⟨hsame, hanswer⟩ : asked'.1.unnumbered = asked.1.unnumbered ∧ asked'.2 = asked.2 :=
            s.question_takeIn_unnumbered frame r.readings p.now p.interval p.listenFirst x.written
          by_cases hok : ∀ err, asked.2 ≠ some (.failed err)
          · -- The watch may warn; the report is of the session as it is now.
            have hlisten := listenTo_of_asked (p := p) hs hf hok
            have hown : (r.own d).visit p d x = (⟨some (d.node, asked'.1.unnumbered), (r.own d).link⟩,
                entering ++ (messages frame.bytes).map (.message d.node s.unnumbered.productId) ++
                  askedEvents d.node asked'.1 p.now asked'.2 ++
                  [(Event.reported d.node (some asked'.1.link)
                    (headset d (asked'.1.battery p.wired) 0)).unnumbered]) := by
              simp only [Own.visit, hsession, hf]
              split
              next err herr => exact absurd (hanswer.symm.trans herr) (hok err)
              next => rfl
            have hrecovered := (hask.suspect asked.1 p.now x.playback).reportRecovery
            have hreport := hrecovered.trans (does_report _ d (some asked.1.link)
              (asked.1.battery p.wired) asked.1.sample hrecovered.matched)
            have hlink : asked'.1.link = asked.1.link := by
              have hlinks := congrArg Session.link hsame
              exact hlinks
            have hbattery : asked'.1.battery p.wired = asked.1.battery p.wired := by
              have hbatteries := congrArg (fun t : Session Path => t.battery p.wired) hsame
              exact hbatteries
            rw [hrecovered.own] at hreport
            rw [hown, hlink, hbattery]
            simpa only [visit, hlisten, List.append_assoc] using hreport
          · push Not at hok
            obtain ⟨err, herr⟩ := hok
            have hlisten := listenTo_of_failed (p := p) hs hf herr
            have hown : (r.own d).visit p d x =
                let failed := Own.fail ⟨some (d.node, asked'.1.unnumbered), (r.own d).link⟩ d err
                (failed.1, entering ++
                  (messages frame.bytes).map (.message d.node s.unnumbered.productId) ++
                  askedEvents d.node asked'.1 p.now asked'.2 ++ failed.2) := by
              simp only [Own.visit, hsession, hf]
              split
              next err' herr' =>
                obtain rfl : err = err' := by
                  have hsome := herr.symm.trans (hanswer.symm.trans herr')
                  simpa using hsome
                rfl
              next hnot => exact absurd (hanswer.trans herr) (hnot err)
            have hfail := hask.trans (does_fail _ d err x.failedAt hask.matched)
            rw [hask.own] at hfail
            rw [hown]
            have hquiet : askedEvents d.node ((s.takeIn frame r.readings).1.question p.now p.interval
                p.listenFirst x.written).1 p.now ((s.takeIn frame r.readings).1.question p.now
                p.interval p.listenFirst x.written).2 = [] := by
              rw [show (_ : Option Asked) = _ from herr]
              rfl
            rw [hquiet] at hfail
            simpa only [visit, hlisten, List.append_nil, List.append_assoc] using hfail

end Reader

/-! ## What a reader keeps for a product -/

/-- A reader keeps for one product what its machine keeps. -/
structure Owns (pid : UInt16) (r : Reader Path) (o : Own Path) : Prop where
  held : ∀ node s, o.held = some (node, s) ↔
    ∃ t, r.session? node = some t ∧ t.productId = pid ∧ t.unnumbered = s
  link : r.lastLink pid = o.link

/-- Every session is on a node that the pass lists with its product. -/
def Placed (p : Pass Path) (r : Reader Path) : Prop :=
  ∀ node s, r.session? node = some s → p.Lists node s.productId

namespace Own

omit [LinearOrder Path] in
theorem part_congr {o : Own Path} {f g : Path → Bool}
    (h : ∀ node s, o.held = some (node, s) → f node = g node) : o.part f = o.part g := by
  unfold part
  split
  next node s hheld => rw [h node s hheld]
  next => rfl

omit [LinearOrder Path] in
theorem part_of_stays {o : Own Path} {f : Path → Bool}
    (h : ∀ node s, o.held = some (node, s) → f node = false) : o.part f = (o, []) := by
  unfold part
  split
  next node s hheld => simp [h node s hheld]
  next => rfl

omit [LinearOrder Path] in
/-- Parting twice. -/
theorem part_part (o : Own Path) (f g : Path → Bool) :
    ((o.part f).1.part g).1 = (o.part fun node => f node || g node).1 ∧
      (o.part f).2 ++ ((o.part f).1.part g).2 = (o.part fun node => f node || g node).2 := by
  obtain ⟨held, link⟩ := o
  rcases held with _ | ⟨node, s⟩
  · exact ⟨rfl, rfl⟩
  · by_cases hf : f node = true <;> simp [part, hf]

end Own

namespace Owns

variable {pid : UInt16} {r : Reader Path} {o : Own Path}

/-- Closing the session of a node. -/
theorem close (h : Owns pid r o) (node : Path) :
    Owns pid (r.close node).1 (o.part fun n => n = node).1 ∧
      (r.close node).2.filterMap (Event.about pid) = (o.part fun n => n = node).2 := by
  cases hs : r.session? node with
  | none =>
      have hstays : o.part (fun n => n = node) = (o, []) := by
        refine Own.part_of_stays fun n s hheld => ?_
        obtain ⟨t, ht, -, -⟩ := (h.held n s).1 hheld
        simp only [decide_eq_false_iff_not]
        rintro rfl
        rw [hs] at ht
        cases ht
      rw [hstays, Reader.close, hs]
      exact ⟨h, rfl⟩
  | some t =>
      rw [Reader.close, hs]
      by_cases hpid : t.productId = pid
      · have hheld := (h.held node t.unnumbered).2 ⟨t, hs, hpid, rfl⟩
        have hpart : o.part (fun n => n = node) = (⟨none, some t.link⟩, [.closed node pid]) := by
          simp only [Own.part, hheld, decide_true, if_true]
          rw [← hpid]
          rfl
        rw [hpart]
        refine ⟨⟨fun n s => ?_, by simp [hpid]⟩, by
          simp [Event.about, Event.product?, Event.unnumbered, hpid]⟩
        refine iff_of_false (by simp) ?_
        rintro ⟨t', ht', hpid', -⟩
        obtain ⟨hne, ht'⟩ := Reader.held_of_drop ht'
        have hother := (h.held n t'.unnumbered).2 ⟨t', ht', hpid', rfl⟩
        exact hne (Prod.mk.inj (Option.some.inj (hother.symm.trans hheld))).1
      · have hstays : o.part (fun n => n = node) = (o, []) := by
          refine Own.part_of_stays fun n s hheld => ?_
          obtain ⟨t', ht', hpid', -⟩ := (h.held n s).1 hheld
          simp only [decide_eq_false_iff_not]
          rintro rfl
          obtain rfl := Option.some.inj (hs.symm.trans ht')
          exact hpid hpid'
        rw [hstays]
        refine ⟨⟨fun n s => ?_, ?_⟩, by simp [Event.about, Event.product?, hpid]⟩
        · rw [h.held]
          refine exists_congr fun t' => and_congr_left fun hmine => ?_
          rw [Reader.session?_drop]
          split
          next hn =>
            subst hn
            simp only [reduceCtorEq, iff_false]
            intro ht'
            obtain rfl := Option.some.inj (hs.symm.trans ht')
            exact hpid hmine.1
          next => rfl
        · rw [← h.link, Reader.lastLink_drop, Function.update_of_ne (Ne.symm hpid)]

/-- Closing the sessions of the nodes that are not listed. -/
theorem closing (listed : Path → Bool) (nodes : List Path) (h : Owns pid r o) :
    let closed := Runs.exec (fun r n => if listed n then (r, []) else r.close n) r nodes
    let parted := o.part fun n => decide (n ∈ nodes) && !listed n
    Owns pid closed.1 parted.1 ∧ closed.2.filterMap (Event.about pid) = parted.2 := by
  induction nodes generalizing r o with
  | nil =>
      have hstays : o.part (fun n => decide (n ∈ []) && !listed n) = (o, []) :=
        Own.part_of_stays fun n s _ => by simp
      intro closed parted
      simp only [parted, hstays]
      exact ⟨h, rfl⟩
  | cons node nodes ih =>
      intro closed parted
      simp only [closed, Runs.exec_cons, List.filterMap_append]
      by_cases hlisted : listed node = true
      · have hsame : parted = o.part fun n => decide (n ∈ nodes) && !listed n := by
          refine Own.part_congr fun n s _ => ?_
          by_cases hn : n = node <;> simp [hn, hlisted]
        rw [if_pos hlisted, hsame]
        exact ih h
      · have hsame : parted = o.part fun n => decide (n = node) || decide (n ∈ nodes) && !listed n := by
          refine Own.part_congr fun n s _ => ?_
          by_cases hn : n = node <;> simp [hn, hlisted]
        obtain ⟨hclose, hsaid⟩ := h.close node
        obtain ⟨hrest, hsaids⟩ := ih hclose
        obtain ⟨hleft, htold⟩ := o.part_part (fun n => n = node) fun n => decide (n ∈ nodes) && !listed n
        rw [if_neg hlisted, hsame, hsaid, hsaids, ← hleft, ← htold]
        exact ⟨hrest, rfl⟩

/-- The scan of a pass, after one that listed the same products on the same nodes. -/
theorem scan {p q : Pass Path} (h : Owns pid r o) (hplaced : Placed p r)
    (hstays : ∀ v ∈ p.listed, ∀ w ∈ q.listed, v.1.node = w.1.node →
      v.1.productId = w.1.productId) :
    let scanned := o.part fun node => (q.only pid).listed.all fun v => v.1.node ≠ node
    Owns pid (r.closeVanished q).1 scanned.1 ∧
      (r.closeVanished q).2.filterMap (Event.about pid) = scanned.2 := by
  have hsame : (o.part fun node => (q.only pid).listed.all fun v => v.1.node ≠ node) =
      o.part fun n => decide (n ∈ r.sessions.entries.map Prod.fst) &&
        !q.listed.any fun v => v.1.node = n := by
    refine Own.part_congr fun node s hheld => ?_
    obtain ⟨t, ht, rfl, -⟩ := (h.held node s).1 hheld
    have hopen : node ∈ r.sessions.entries.map Prod.fst :=
      List.mem_map_of_mem ((OrderedMap.get?_eq_some _).1 ht)
    obtain ⟨v, hv, rfl, hpid⟩ := hplaced node t ht
    -- A node that is listed is listed with the product.
    have hown (w : Dongle Path × Exchange Path) (hw : w ∈ q.listed) (hn : w.1.node = v.1.node) :
        w.1.productId = t.productId := by
      rw [← hpid, hstays v hv w hw hn.symm]
    rw [decide_eq_true hopen, Bool.true_and, Bool.eq_iff_iff, Bool.not_eq_true', List.any_eq_false]
    simp only [Pass.only, List.all_filter, List.all_eq_true, Bool.or_eq_true, Bool.not_eq_true',
      decide_eq_false_iff_not, decide_eq_true_eq]
    exact ⟨fun hall w hw hn => (hall w hw).elim (fun hne => hne (hown w hw hn)) fun hne => hne hn,
      fun hall w hw => .inr (hall w hw)⟩
  rw [hsame]
  exact h.closing _ _

/-- A machine knows all of what a reader keeps for its product. -/
theorem unique {o' : Own Path} (h : Owns pid r o) (h' : Owns pid r o') : o = o' := by
  have hheld : o.held = o'.held := Option.ext fun v => by rw [h.held, h'.held]
  have hlink : o.link = o'.link := h.link.symm.trans h'.link
  obtain ⟨held, link⟩ := o
  simp_all

end Owns

namespace Placed

variable {p : Pass Path} {r : Reader Path} {d : Dongle Path}

/-- The session on the node of a listed dongle is of that dongle. -/
theorem matched (h : Placed p r) (hp : p.Single) (hlists : p.Lists d.node d.productId) :
    ∀ s, r.session? d.node = some s → s.productId = d.productId :=
  fun s hs => (hp _ _ _ _ (h d.node s hs) hlists).1 rfl

/-- What a reader keeps for the product of a listed dongle is on that dongle's node. -/
theorem owns_own (h : Placed p r) (hp : p.Single) (hlists : p.Lists d.node d.productId) :
    Owns d.productId r (r.own d) where
  held node s := by
    have hnode (t : Session Path) (ht : r.session? node = some t) (hpid : t.productId = d.productId) :
        node = d.node := (hp _ _ _ _ (h node t ht) hlists).2 hpid
    simp only [Reader.own, Option.map_eq_some_iff, Prod.mk.injEq]
    constructor
    · rintro ⟨t, ht, rfl, rfl⟩
      exact ⟨t, ht, h.matched hp hlists t ht, rfl⟩
    · rintro ⟨t, ht, hpid, rfl⟩
      obtain rfl := hnode t ht hpid
      exact ⟨t, ht, rfl, rfl⟩
  link := rfl

/-- The scan leaves the sessions of listed nodes. -/
theorem scan {q : Pass Path} (h : Placed p r)
    (hstays : ∀ v ∈ p.listed, ∀ w ∈ q.listed, v.1.node = w.1.node →
      v.1.productId = w.1.productId) : Placed q (r.closeVanished q).1 := by
  intro node s hs
  obtain ⟨hheld, w, hw, hnode⟩ := Reader.held_of_closeVanished hs
  obtain ⟨v, hv, rfl, hpid⟩ := h node s hheld
  exact ⟨w, hw, hnode, (hstays v hv w hw hnode.symm).symm.trans hpid⟩

variable [ToString Path]

theorem visit (h : Placed p r) (hp : p.Single) (hlists : p.Lists d.node d.productId)
    (x : Exchange Path) : Placed p (r.visit p d x).1 := by
  intro node s hs
  have hdoes := Reader.does_visit r p d x (h.matched hp hlists)
  obtain rfl | hheld := Reader.session?_visit hs
  · rw [hdoes.matched s hs]
    exact hlists
  · exact h node s hheld

end Placed

namespace Owns

variable {pid : UInt16} {p : Pass Path} {r : Reader Path} {o : Own Path} [ToString Path]

/-- A visit to a dongle of another product. -/
theorem visit_other {d : Dongle Path} (x : Exchange Path) (h : Owns pid r o)
    (hmatched : ∀ s, r.session? d.node = some s → s.productId = d.productId)
    (hne : pid ≠ d.productId) :
    Owns pid (r.visit p d x).1 o ∧ (r.visit p d x).2.filterMap (Event.about pid) = [] := by
  have hdoes := Reader.does_visit r p d x hmatched
  refine ⟨⟨fun node s => ?_, ?_⟩, List.filterMap_eq_nil_iff.2 fun e he => ?_⟩
  · rw [h.held]
    refine exists_congr fun t => and_congr_left fun hmine => ?_
    by_cases hnode : node = d.node
    · subst hnode
      exact iff_of_false (fun ht => hne (hmine.1.symm.trans (hmatched t ht)))
        fun ht => hne (hmine.1.symm.trans (hdoes.matched t ht))
    · rw [Reader.session?_visit_of_ne r p x hnode]
  · rw [hdoes.elsewhere pid hne, h.link]
  · by_cases hpid : e.product? = some pid
    · exact absurd (hdoes.others e he pid hpid) hne
    · exact if_neg hpid

/-- A visit to the product's own dongle. -/
theorem visit {d : Dongle Path} (x : Exchange Path) (h : Owns d.productId r o) (hplaced : Placed p r)
    (hp : p.Single) (hlists : p.Lists d.node d.productId) :
    Owns d.productId (r.visit p d x).1 (o.visit p d x).1 ∧
      (r.visit p d x).2.filterMap (Event.about d.productId) = (o.visit p d x).2 := by
  obtain rfl := h.unique (hplaced.owns_own hp hlists)
  have hdoes := Reader.does_visit r p d x (hplaced.matched hp hlists)
  exact ⟨hdoes.own ▸ (hplaced.visit hp hlists x).owns_own hp hlists, hdoes.events⟩

/-- The visits of a pass: of these one is the product's own, at most. -/
theorem visits (visits : List (Dongle Path × Exchange Path)) (hp : p.Single)
    (hsub : visits ⊆ p.listed) (honce : (visits.map fun v => v.1.productId).Nodup)
    (h : Owns pid r o) (hplaced : Placed p r) :
    let visited := Runs.exec Reader.move r (visits.map fun v => .visit p v.1 v.2)
    let turn := o.turn p (visits.filter fun v => v.1.productId = pid)
    Owns pid visited.1 turn.1 ∧ Placed p visited.1 ∧
      visited.2.filterMap (Event.about pid) = turn.2 := by
  induction visits generalizing r o with
  | nil => exact ⟨h, hplaced, rfl⟩
  | cons v visits ih =>
      obtain ⟨hv, hsub⟩ := List.cons_subset.1 hsub
      obtain ⟨hnew, honce⟩ := List.nodup_cons.1 honce
      have hlists : p.Lists v.1.node v.1.productId := ⟨v, hv, rfl, rfl⟩
      have hstill := hplaced.visit hp hlists v.2
      intro visited turn
      simp only [visited, turn, List.map_cons, Runs.exec_cons, List.filterMap_append]
      by_cases hpid : v.1.productId = pid
      · subst hpid
        obtain ⟨hown, hsaid⟩ := h.visit v.2 hplaced hp hlists
        obtain ⟨hrest, hplaced, hsaids⟩ := ih hsub honce hown hstill
        -- None of the other visits is the product's.
        have hnone : (visits.filter fun w => w.1.productId = v.1.productId) = [] := by
          refine List.filter_eq_nil_iff.2 fun w hw => ?_
          simp only [decide_eq_true_eq]
          exact fun hsame => hnew (List.mem_map.2 ⟨w, hw, hsame⟩)
        rw [hnone] at hrest hsaids
        rw [List.filter_cons_of_pos (by simp)]
        exact ⟨hrest, hplaced, (congrArg₂ (· ++ ·) hsaid hsaids).trans (List.append_nil _)⟩
      · obtain ⟨hown, hsaid⟩ := h.visit_other v.2 (hplaced.matched hp hlists) (Ne.symm hpid)
        obtain ⟨hrest, hplaced, hsaids⟩ := ih hsub honce hown hstill
        rw [List.filter_cons_of_neg (by simpa using hpid)]
        exact ⟨hrest, hplaced, congrArg₂ (· ++ ·) hsaid hsaids⟩

/-- A pass of the reader is a pass of the machine. -/
theorem pass {q : Pass Path} (h : Owns pid r o) (hplaced : Placed p r) (hq : q.Single)
    (honce : (q.listed.map fun v => v.1.productId).Nodup)
    (hstays : ∀ v ∈ p.listed, ∀ w ∈ q.listed, v.1.node = w.1.node →
      v.1.productId = w.1.productId) :
    Owns pid (r.reconcile q).1 (o.pass (q.only pid)).1 ∧ Placed q (r.reconcile q).1 ∧
      (r.reconcile q).2.filterMap (Event.about pid) = (o.pass (q.only pid)).2 := by
  obtain ⟨hscan, hsaid⟩ := h.scan hplaced hstays
  obtain ⟨hvisits, hplaced, hsaids⟩ :=
    hscan.visits q.listed hq (List.Subset.refl _) honce (hplaced.scan hstays)
  rw [Reader.reconcile, Pass.moves, Runs.exec_cons, List.filterMap_append]
  exact ⟨hvisits, hplaced, congrArg₂ (· ++ ·) hsaid hsaids⟩

end Owns

/-- The induction on a tidy run: before the first pass nothing is listed and nothing is
open, and every pass is tidy after the one before it. -/
theorem Reader.run_tidy [ToString Path]
    {motive : List (Pass Path) → Pass Path → Reader Path → List (Event Path) → Prop}
    (start : motive [] ⟨[], false, 0, 0, 0⟩ new [])
    (step : ∀ done p q r tr, motive done p r tr → q.Single →
      (q.listed.map fun v => v.1.productId).Nodup →
      (∀ v ∈ p.listed, ∀ w ∈ q.listed, v.1.node = w.1.node → v.1.productId = w.1.productId) →
      motive (done ++ [q]) q (r.reconcile q).1 (tr ++ (r.reconcile q).2))
    {passes : List (Pass Path)} (h : Tidy passes) : ∃ p, motive passes p (run passes).1 (run passes).2 := by
  have hrun : ∀ (passes done : List (Pass Path)) (p : Pass Path) (r : Reader Path)
      (tr : List (Event Path)), Tidy (p :: passes) → motive done p r tr →
      ∃ p', motive (done ++ passes) p' (Runs.exec reconcile r passes).1
        (tr ++ (Runs.exec reconcile r passes).2) := by
    intro passes
    induction passes with
    | nil => exact fun done p r tr _ hr => ⟨p, by simpa using hr⟩
    | cons q passes ih =>
        intro done p r tr htidy hr
        obtain ⟨hstays, hchain⟩ := List.isChain_cons_cons.1 htidy.stays
        have hrest : Tidy (q :: passes) :=
          ⟨fun p' hp' => htidy.products p' (List.mem_cons_of_mem _ hp'),
            fun p' hp' => htidy.nodes p' (List.mem_cons_of_mem _ hp'), hchain⟩
        have hone := step done p q r tr hr (hrest.single (by simp)) (hrest.products q (by simp)) hstays
        have hdone := ih (done ++ [q]) q _ _ hrest hone
        rw [Runs.exec_cons, ← List.append_assoc, ← List.append_cons] at *
        exact hdone
  refine hrun passes [] ⟨[], false, 0, 0, 0⟩ new [] ?_ start
  exact ⟨by simpa using h.products, by simpa using h.nodes, List.isChain_cons.2 ⟨by simp, h.stays⟩⟩

/-- A tidy run says of a product what its machine says. -/
theorem about_run {passes : List (Pass Path)} [ToString Path] (h : Tidy passes) (pid : UInt16) :
    (Reader.run passes).2.filterMap (Event.about pid) =
      (Runs.exec Own.pass Own.new (passes.map (Pass.only pid))).2 := by
  refine (Reader.run_tidy (motive := fun done p r tr =>
    let alone := Runs.exec Own.pass Own.new (done.map (Pass.only pid))
    Owns pid r alone.1 ∧ Placed p r ∧ tr.filterMap (Event.about pid) = alone.2) ?_ ?_ h).elim
    fun p hrun => hrun.2.2
  · exact ⟨⟨by simp [Own.new], rfl⟩, by simp [Placed], rfl⟩
  · rintro done p q r tr ⟨hown, hplaced, hsaid⟩ hq honce hstays
    obtain ⟨hown, hplaced, hsaids⟩ := hown.pass hplaced hq honce hstays
    rw [List.map_append, List.map_singleton, Runs.exec_snoc, List.filterMap_append, hsaid, hsaids]
    exact ⟨hown, hplaced, rfl⟩

/-- Dongles do not interfere: two tidy runs in which the dongles of a product go through
the same say the same of it, whatever else is listed. -/
theorem dongles_do_not_interfere [ToString Path] (passes passes' : List (Pass Path)) (pid : UInt16)
    (h : Tidy passes) (h' : Tidy passes')
    (hsame : passes.map (Pass.only pid) = passes'.map (Pass.only pid)) :
    (Reader.run passes).2.filterMap (Event.about pid) =
      (Reader.run passes').2.filterMap (Event.about pid) := by
  rw [about_run h, about_run h', hsame]

/-- A dongle tells its level and vanishes; what another one of its listing tells is what it
tells when it is alone. -/
theorem dongles_do_not_interfere_of_two :
    let told (frame : Frame) : Dongle ℕ × Exchange ℕ := (.on 0x4b18 4, .fetching frame 0)
    let other (x : Exchange ℕ) : Dongle ℕ × Exchange ℕ := (.on 0x4b19 2, x)
    let alone : List (Pass ℕ) := [.daily 0 [told silentFrame], .daily 4 [told (batteryFrame 80)]]
    let both : List (Pass ℕ) := [.daily 0 [other (.fetching (batteryFrame 50) 0), told silentFrame],
      .daily 4 [other (.vanishing 0), told (batteryFrame 80)]]
    (Reader.run both).2.filterMap (Event.about 0x4b18) =
      (Reader.run alone).2.filterMap (Event.about 0x4b18) := by
  intro told other alone both
  refine dongles_do_not_interfere both alone 0x4b18 ⟨?_, ?_, ?_⟩ ⟨?_, ?_, ?_⟩ rfl
  all_goals decide +kernel

end Visit

end HeadsetBattery.Maxwell
