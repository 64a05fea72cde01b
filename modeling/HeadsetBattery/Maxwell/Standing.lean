import HeadsetBattery.Maxwell.Reader
import Mathlib.Data.List.Infix

/-!
# How a node stands with a reader

A pass meets a node with an exchange, or does not list it. What a reader that asks
every session once makes of that is a machine of three states, whatever the belief
and the messages: the node has no session, one that has asked nothing, or one that
has asked. It writes two requests exactly when the passes reach the dongle, lose it
and reach it again.
-/
namespace HeadsetBattery.Maxwell

variable {Path : Type}

/-- How a dongle's node stands with a reader: no session, a session that has asked
nothing, or one that has asked. -/
inductive Standing where
  | closed
  | waiting
  | asked
  deriving DecidableEq, Repr

namespace Standing

/-- A visit to an open session: only a fetch that succeeds lets it ask, and only a
failure that means the device is gone closes it. -/
def listen (st : Standing) (x : Exchange Path) : Standing × Bool :=
  match x.fetched with
  | .error err => (if err.gone then closed else st, false)
  | .ok _ =>
      if st = asked then (asked, false)
      else
        match x.written with
        | .ok _ => (asked, true)
        | .error err => (if err.gone then closed else waiting, false)

/-- What a pass makes of a node, listed or not, and whether a request was written. -/
def meet (st : Standing) : Option (Exchange Path) → Standing × Bool
  | none => (closed, false)
  | some x =>
      if st = closed then
        match x.opens with
        | .error _ => (closed, false)
        | .ok _ => waiting.listen x
      else st.listen x

/-- How many requests are written over some passes. -/
def asks (st : Standing) : List (Option (Exchange Path)) → ℕ
  | [] => 0
  | c :: cs => (st.meet c).2.toNat + (st.meet c).1.asks cs

/-- Where a node stands after some passes. -/
def after (st : Standing) : List (Option (Exchange Path)) → Standing
  | [] => st
  | c :: cs => (st.meet c).1.after cs

theorem asks_append (st : Standing) (cs ds : List (Option (Exchange Path))) :
    st.asks (cs ++ ds) = st.asks cs + (st.after cs).asks ds := by
  induction cs generalizing st with
  | nil => simp [asks, after]
  | cons c cs ih =>
      rw [List.cons_append, asks, asks, ih, after]
      omega

end Standing

/-! ## Reaching a dongle twice -/

/-- From an open session that has not asked: no visit finds the device gone, up to one
at which the report is fetched and the request written. -/
inductive Kept : List (Option (Exchange Path)) → Prop
  | through {x : Exchange Path} {frame : Frame} (fetched : x.fetched = .ok frame)
      (written : x.written = .ok ()) : Kept [some x]
  | unfetched {x : Exchange Path} {err : IoError} {cs : List (Option (Exchange Path))}
      (fetched : x.fetched = .error err) (still : err.gone = false) (rest : Kept cs) :
      Kept (some x :: cs)
  | unwritten {x : Exchange Path} {frame : Frame} {err : IoError}
      {cs : List (Option (Exchange Path))} (fetched : x.fetched = .ok frame)
      (written : x.written = .error err) (still : err.gone = false) (rest : Kept cs) :
      Kept (some x :: cs)

/-- A stretch of passes that reaches the dongle on a node: it opens, and is kept until a
request is through. -/
def Reaches (stretch : List (Option (Exchange Path))) : Prop :=
  (∃ x, stretch.head? = some (some x) ∧ x.opens = .ok ()) ∧ Kept stretch

/-- Some stretch of passes reaches the dongle on a node. -/
def Reached (cs : List (Option (Exchange Path))) : Prop := ∃ stretch, stretch <:+: cs ∧ Reaches stretch

/-- A pass that loses a node: it is not listed, or its fetch finds the device gone. -/
def Lost (c : Option (Exchange Path)) : Prop :=
  ∀ x ∈ c, ∃ err, x.fetched = .error err ∧ err.gone = true

/-- The dongle on a node is reached, lost, and reached again. -/
def ReachedAgain (cs : List (Option (Exchange Path))) : Prop :=
  ∃ before c later, cs = before ++ c :: later ∧ Lost c ∧ Reached before ∧ Reached later

/-- The passes begin with a stretch at which an open session is kept until a request is
through. -/
def Soon (cs : List (Option (Exchange Path))) : Prop := ∃ stretch, stretch <+: cs ∧ Kept stretch

theorem not_kept_nil : ¬Kept ([] : List (Option (Exchange Path))) := fun h => by cases h

theorem not_soon_none (cs : List (Option (Exchange Path))) : ¬Soon (none :: cs) := by
  rintro ⟨stretch, hprefix, hkept⟩
  obtain rfl | ⟨rest, rfl, -⟩ := List.prefix_cons_iff.1 hprefix
  · exact not_kept_nil hkept
  · cases hkept

/-- A visit to an open session that has not asked: it is closed, kept, or asks. -/
theorem listen_waiting (x : Exchange Path) :
    Standing.waiting.listen x = (.closed, false) ∨ Standing.waiting.listen x = (.waiting, false) ∨
      Standing.waiting.listen x = (.asked, true) := by
  rcases hf : x.fetched with err | frame
  · cases hgone : err.gone <;> simp [Standing.listen, hf, hgone]
  · rcases hw : x.written with err | _
    · cases hgone : err.gone <;> simp [Standing.listen, hf, hw, hgone]
    · simp [Standing.listen, hf, hw]

theorem soon_some {x : Exchange Path} {cs : List (Option (Exchange Path))} :
    Soon (some x :: cs) ↔
      Standing.waiting.listen x = (.asked, true) ∨
        Standing.waiting.listen x = (.waiting, false) ∧ Soon cs := by
  constructor
  · rintro ⟨stretch, hprefix, hkept⟩
    obtain rfl | ⟨rest, rfl, hrest⟩ := List.prefix_cons_iff.1 hprefix
    · exact absurd hkept not_kept_nil
    · cases hkept with
      | through fetched written => exact .inl (by simp [Standing.listen, fetched, written])
      | unfetched fetched still kept =>
          exact .inr ⟨by simp [Standing.listen, fetched, still], rest, hrest, kept⟩
      | unwritten fetched written still kept =>
          exact .inr ⟨by simp [Standing.listen, fetched, written, still], rest, hrest, kept⟩
  · rintro (hasked | ⟨hwaiting, rest, hrest, kept⟩)
    · rcases hf : x.fetched with err | frame
      · simp [Standing.listen, hf] at hasked
      · rcases hw : x.written with err | _
        · simp [Standing.listen, hf, hw] at hasked
        · exact ⟨[some x], by simp, .through hf hw⟩
    · have hprefix : some x :: rest <+: some x :: cs := (List.prefix_cons_inj _).2 hrest
      rcases hf : x.fetched with err | frame
      · cases hgone : err.gone with
        | true => simp [Standing.listen, hf, hgone] at hwaiting
        | false => exact ⟨_, hprefix, .unfetched hf hgone kept⟩
      · rcases hw : x.written with err | _
        · cases hgone : err.gone with
          | true => simp [Standing.listen, hf, hw, hgone] at hwaiting
          | false => exact ⟨_, hprefix, .unwritten hf hw hgone kept⟩
        · simp [Standing.listen, hf, hw] at hwaiting

theorem not_reached_nil : ¬Reached ([] : List (Option (Exchange Path))) := by
  rintro ⟨stretch, hinfix, -, hkept⟩
  rw [List.infix_nil.1 hinfix] at hkept
  exact not_kept_nil hkept

/-- A dongle is reached from its first pass on, or later. -/
theorem reached_cons {c : Option (Exchange Path)} {cs : List (Option (Exchange Path))} :
    Reached (c :: cs) ↔ (∃ x, c = some x ∧ x.opens = .ok ()) ∧ Soon (c :: cs) ∨ Reached cs := by
  constructor
  · rintro ⟨stretch, hinfix, ⟨x, hhead, hopens⟩, hkept⟩
    obtain hprefix | hinfix := List.infix_cons_iff.1 hinfix
    · left
      refine ⟨⟨x, ?_, hopens⟩, stretch, hprefix, hkept⟩
      obtain rfl | ⟨rest, rfl, -⟩ := List.prefix_cons_iff.1 hprefix
      · exact absurd hkept not_kept_nil
      · simpa using hhead
    · exact .inr ⟨stretch, hinfix, ⟨x, hhead, hopens⟩, hkept⟩
  · rintro (⟨⟨x, rfl, hopens⟩, stretch, hprefix, hkept⟩ | ⟨stretch, hinfix, hreaches⟩)
    · refine ⟨stretch, hprefix.isInfix, ⟨x, ?_, hopens⟩, hkept⟩
      obtain rfl | ⟨rest, rfl, -⟩ := List.prefix_cons_iff.1 hprefix
      · exact absurd hkept not_kept_nil
      · rfl
    · exact ⟨stretch, List.infix_cons_iff.2 (.inr hinfix), hreaches⟩

namespace Standing

/-- Passes over which a node that stands so is written a request. -/
def Through : Standing → List (Option (Exchange Path)) → Prop
  | closed, cs => Reached cs
  | waiting, cs => Soon cs ∨ Reached cs
  | asked, cs => ∃ before c later, cs = before ++ c :: later ∧ Lost c ∧ Reached later

theorem Through.reached {cs : List (Option (Exchange Path))} (h : asked.Through cs) : Reached cs := by
  obtain ⟨before, c, later, rfl, -, stretch, hinfix, hreaches⟩ := h
  exact ⟨stretch, hinfix.trans ⟨before ++ [c], [], by simp⟩, hreaches⟩

theorem through_asked_cons {c : Option (Exchange Path)} {cs : List (Option (Exchange Path))} :
    asked.Through (c :: cs) ↔ Lost c ∧ Reached cs ∨ asked.Through cs := by
  constructor
  · rintro ⟨before, lost, later, he, hlost, hreached⟩
    obtain ⟨rfl, he⟩ | ⟨before, rfl, rfl⟩ := List.cons_eq_append_iff.1 he
    · obtain ⟨rfl, rfl⟩ := List.cons.inj he
      exact .inl ⟨hlost, hreached⟩
    · exact .inr ⟨before, lost, later, rfl, hlost, hreached⟩
  · rintro (⟨hlost, hreached⟩ | ⟨before, lost, later, rfl, hlost, hreached⟩)
    · exact ⟨[], c, cs, rfl, hlost, hreached⟩
    · exact ⟨c :: before, lost, later, rfl, hlost, hreached⟩

/-- A pass that loses a node leaves it closed. -/
theorem meet_of_lost (st : Standing) {c : Option (Exchange Path)} (h : Lost c) :
    st.meet c = (closed, false) := by
  cases c with
  | none => rfl
  | some x =>
      obtain ⟨err, hf, hgone⟩ := h x rfl
      rcases ho : x.opens with err' | _ <;> simp [meet, listen, hf, hgone, ho]

theorem meet_asked_of_not_lost {c : Option (Exchange Path)} (h : ¬Lost c) :
    asked.meet c = (asked, false) := by
  cases c with
  | none => exact absurd (by simp [Lost]) h
  | some x =>
      rcases hf : x.fetched with err | frame
      · have hgone : err.gone = false := by
          by_contra hgone
          refine h fun y hy => ⟨err, ?_, by simpa using hgone⟩
          obtain rfl := Option.some.inj hy
          exact hf
        simp [meet, listen, hf, hgone]
      · simp [meet, listen, hf]

/-- A request that is written leaves the node asked. -/
theorem meet_of_wrote {st : Standing} {c : Option (Exchange Path)} (h : (st.meet c).2 = true) :
    (st.meet c).1 = asked := by
  have hopen (x : Exchange Path) (hx : (waiting.listen x).2 = true) :
      (waiting.listen x).1 = asked := by
    obtain he | he | he := listen_waiting x <;> simp_all
  cases c with
  | none => cases h
  | some x =>
      cases st with
      | closed =>
          rcases ho : x.opens with err | _
          · simp [meet, ho] at h
          · simp only [meet, ho, if_true] at h ⊢
            exact hopen x h
      | waiting => exact hopen x h
      | asked =>
          rcases hf : x.fetched with err | frame <;> simp [meet, listen, hf] at h

/-- One pass of a node: a request is written now or over the passes that follow. -/
theorem through_cons {st : Standing} {c : Option (Exchange Path)}
    {cs : List (Option (Exchange Path))} :
    st.Through (c :: cs) ↔ (st.meet c).2 = true ∨ (st.meet c).1.Through cs := by
  have hopen (x : Exchange Path) : Soon (some x :: cs) ∨ Reached cs ↔
      (waiting.listen x).2 = true ∨ (waiting.listen x).1.Through cs := by
    rw [soon_some]
    obtain hx | hx | hx := listen_waiting x <;> simp [hx, Through]
  cases st with
  | closed =>
      rw [Through, reached_cons]
      cases c with
      | none => simp [meet, Through]
      | some x =>
          rcases ho : x.opens with err | _
          · simp [meet, ho, Through]
          · simpa [meet, ho] using hopen x
  | waiting =>
      rw [Through, reached_cons]
      cases c with
      | none => simp [meet, Through, not_soon_none]
      | some x =>
          rw [← or_assoc, or_iff_left_of_imp (a := Soon _) And.right]
          exact hopen x
  | asked =>
      rw [through_asked_cons]
      by_cases hlost : Lost c
      · rw [meet_of_lost asked hlost]
        constructor
        · rintro (⟨-, hreached⟩ | hlater)
          · exact .inr hreached
          · exact .inr hlater.reached
        · rintro (hwrote | hreached)
          · cases hwrote
          · exact .inl ⟨hlost, hreached⟩
      · simp [meet_asked_of_not_lost hlost, hlost]

theorem one_le_asks {st : Standing} {cs : List (Option (Exchange Path))} :
    1 ≤ st.asks cs ↔ st.Through cs := by
  induction cs generalizing st with
  | nil => cases st <;> simp [asks, Through, not_reached_nil, Soon, not_kept_nil]
  | cons c cs ih =>
      rw [through_cons, ← ih, asks]
      cases (st.meet c).2 <;> simp

/-- A second request takes a loss of the node between it and the first. -/
theorem two_le_asks {st : Standing} {cs : List (Option (Exchange Path))} :
    2 ≤ st.asks cs ↔
      ∃ before c later, cs = before ++ c :: later ∧ Lost c ∧ st.Through before ∧ Reached later := by
  constructor
  · intro h
    induction cs generalizing st with
    | nil => simp [asks] at h
    | cons c cs ih =>
        rw [asks] at h
        cases hwrote : (st.meet c).2 with
        | false =>
            rw [hwrote, Bool.toNat_false, Nat.zero_add] at h
            obtain ⟨before, lost, later, rfl, hlost, hthrough, hreached⟩ := ih h
            exact ⟨c :: before, lost, later, rfl, hlost, through_cons.2 (.inr hthrough), hreached⟩
        | true =>
            rw [hwrote, Bool.toNat_true] at h
            have hmore : (st.meet c).1.Through cs := one_le_asks.1 (by omega)
            rw [meet_of_wrote hwrote] at hmore
            obtain ⟨before, lost, later, rfl, hlost, hreached⟩ := hmore
            exact ⟨c :: before, lost, later, rfl, hlost, through_cons.2 (.inl hwrote), hreached⟩
  · rintro ⟨before, c, later, rfl, hlost, hthrough, hreached⟩
    have hfirst := one_le_asks.2 hthrough
    have hagain : 1 ≤ closed.asks later := one_le_asks.2 hreached
    rw [asks_append, asks, meet_of_lost _ hlost]
    exact (Nat.add_le_add hfirst hagain).trans (by simp)

end Standing

end HeadsetBattery.Maxwell
