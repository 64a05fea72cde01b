import HeadsetBattery.Bridge.Concerns
import Mathlib.Logic.Relator
import Mathlib.Data.List.Forall2

/-!
# What the number of a reading is for

The bridge compares the number of a reading with that of the one it deferred, and does
nothing else with it. Let a relation pair the numbers of two readers one to one: then
a headset that is told the same, but for numbers so paired, goes through the same.
-/
namespace HeadsetBattery

variable {Handle : Type} {R : ℕ → ℕ → Prop}

/-- The same headset, with the number of a reading for one that is paired with it. -/
def Headset.Alike (R : ℕ → ℕ → Prop) (h h' : Headset) : Prop :=
  ∃ sample, h' = { h with sample := sample } ∧
    (h.battery.answers = true → Option.Rel R h.sample sample)

theorem Headset.Alike.mono {S : ℕ → ℕ → Prop} {h h' : Headset} (hmono : ∀ n n', R n n' → S n n')
    (halike : h.Alike R h') : h.Alike S h' := by
  obtain ⟨sample, rfl, hsample⟩ := halike
  refine ⟨sample, rfl, fun hanswers => ?_⟩
  have hrel := hsample hanswers
  generalize h.sample = given at hrel ⊢
  cases hrel with
  | none => exact .none
  | some hn => exact .some (hmono _ _ hn)

namespace Bridge

/-! ## States and deeds, but for numbers -/

def VirtualBattery.Alike (R : ℕ → ℕ → Prop) (battery battery' : VirtualBattery) : Prop :=
  ∃ sample, battery' = { battery with deferredSample := sample } ∧
    Option.Rel R battery.deferredSample sample

def Entry.Alike (R : ℕ → ℕ → Prop) (entry entry' : Entry Handle) : Prop :=
  ∃ battery, entry' = (entry.1, battery) ∧ entry.2.Alike R battery

/-- A slot that is kept alike. -/
structure Slot.Alike (R : ℕ → ℕ → Prop) (s s' : Slot Handle) : Prop where
  entry : Option.Rel (Entry.Alike R) s.entry s'.entry
  retryAt : s'.retryAt = s.retryAt
  abandoned : s'.abandoned = s.abandoned

/-- Concerns that differ in the number of a reading. -/
inductive Concern.Alike (R : ℕ → ℕ → Prop) : Concern Handle → Concern Handle → Prop
  | listed {now : ℕ} {h h' : Headset} {got : Option Handle} {a : Answers Handle}
      (headset : h.Alike R h') : Concern.Alike R (.listed now h got a) (.listed now h' got a)
  | noted {now : ℕ} : Concern.Alike R (.noted now) (.noted now)
  | judged {now : ℕ} : Concern.Alike R (.judged now) (.judged now)
  | served {now : ℕ} : Concern.Alike R (.served now) (.served now)

theorem Concern.Alike.mono {S : ℕ → ℕ → Prop} {c c' : Concern Handle}
    (hmono : ∀ n n', R n n' → S n n') (h : Concern.Alike R c c') : Concern.Alike S c c' := by
  cases h with
  | listed headset => exact .listed (headset.mono hmono)
  | noted => exact .noted
  | judged => exact .judged
  | served => exact .served

/-- A deed but for the number it quotes. -/
def Deed.unnumbered : Deed → Deed
  | deferred reading _ => deferred reading none
  | held reading _ => held reading none
  | accepted reading _ => accepted reading none
  | d => d

def Event.unnumbered (e : Event) : Event := { e with deed := e.deed.unnumbered }

/-- What becomes of a battery, with what is done, alike. -/
def Kept (R : ℕ → ℕ → Prop) (kept kept' : Option (Entry Handle) × List Deed) : Prop :=
  Option.Rel (Entry.Alike R) kept.1 kept'.1 ∧
    kept'.2.map Deed.unnumbered = kept.2.map Deed.unnumbered

/-! ## One battery -/

theorem secondOpinion_alike (hR : Relator.BiUnique R) (deferred : Option ℕ)
    {deferredSample deferredSample' sample sample' : Option ℕ}
    (hdeferred : Option.Rel R deferredSample deferredSample') (hsample : Option.Rel R sample sample') :
    secondOpinion deferred deferredSample' sample' =
      secondOpinion deferred deferredSample sample := by
  cases hsample with
  | none => rfl
  | @some n n' hn =>
      cases hdeferred with
      | none => rfl
      | @some m m' hm =>
          have hsame : n = m ↔ n' = m' := Relator.rel_eq hR hn hm
          simp [secondOpinion, hsame]

/-- A reading is vetted the same way, and what is left to remember is alike. -/
theorem vetted_alike (hR : Relator.BiUnique R) {battery battery' : VirtualBattery}
    (h : battery.Alike R battery') (known reading : Reading) {sample sample' : Option ℕ}
    (hsample : Option.Rel R sample sample') :
    (vetted battery known reading sample).1.Alike R (vetted battery' known reading sample').1 ∧
      (vetted battery' known reading sample').2.1 = (vetted battery known reading sample).2.1 ∧
      (vetted battery' known reading sample').2.2.unnumbered =
        (vetted battery known reading sample).2.2.unnumbered := by
  obtain ⟨deferredSample, rfl, hdeferred⟩ := h
  simp only [vetted, secondOpinion_alike hR battery.deferred hdeferred hsample]
  split
  · exact ⟨⟨sample', rfl, hsample⟩, rfl, rfl⟩
  · exact ⟨⟨none, rfl, .none⟩, rfl, rfl⟩
  · exact ⟨⟨none, rfl, .none⟩, rfl, rfl⟩

/-- The push does not depend on what is remembered, and leaves it. -/
theorem refresh_alike (hR : Relator.BiUnique R) {battery battery' : VirtualBattery}
    (h : battery.Alike R battery') (device : Battery Handle) (reading : Reading)
    {sample sample' : Option ℕ} (hsample : Option.Rel R sample sample') (now : ℕ)
    (updated : Except String Unit) :
    let done := refresh device battery reading sample now updated
    let done' := refresh device battery' reading sample' now updated
    Entry.Alike R done.1 done'.1 ∧
      done'.2.1.map Deed.unnumbered = done.2.1.map Deed.unnumbered ∧ done'.2.2 = done.2.2 := by
  have halive : VirtualBattery.Alike R { battery with lastReading := now, goneSince := none }
      { battery' with lastReading := now, goneSince := none } := by
    obtain ⟨deferredSample, rfl, hdeferred⟩ := h
    exact ⟨deferredSample, rfl, hdeferred⟩
  have hvetted := vetted_alike hR halive device.reading reading hsample
  simp only [refresh]
  generalize vetted { battery with lastReading := now, goneSince := none } device.reading reading
    sample = vet at hvetted ⊢
  generalize vetted { battery' with lastReading := now, goneSince := none } device.reading reading
    sample' = vet' at hvetted ⊢
  obtain ⟨noted, shown, deed⟩ := vet
  obtain ⟨noted', shown', deed'⟩ := vet'
  obtain ⟨⟨left, rfl, hleft⟩, hshown, hdeed⟩ := hvetted
  obtain rfl : shown' = shown := hshown
  cases shown' with
  | none => exact ⟨⟨_, rfl, left, rfl, hleft⟩, congrArg (fun d => [d]) hdeed, rfl⟩
  | some level =>
      by_cases hsame : device.reading = level ∧ now - noted.publishedAt < republishEvery
      · simp only [if_pos hsame, and_true]
        exact ⟨⟨_, rfl, left, rfl, hleft⟩, congrArg (fun d => [d]) hdeed⟩
      · simp only [if_neg hsame]
        cases updated with
        | ok u => exact ⟨⟨_, rfl, left, rfl, hleft⟩, congrArg (fun d => [d, _]) hdeed, rfl⟩
        | error err => exact ⟨⟨_, rfl, left, rfl, hleft⟩, congrArg (fun d => [d, _]) hdeed, rfl⟩

namespace Entry

theorem settle_alike {entry entry' : Entry Handle} (h : entry.Alike R entry') (ok : Bool) :
    Kept R (entry.settle ok) (entry'.settle ok) := by
  obtain ⟨-, rfl, deferredSample, rfl, hdeferred⟩ := h
  simp only [settle, strike]
  split
  · exact ⟨.some ⟨_, rfl, deferredSample, rfl, hdeferred⟩, rfl⟩
  · split
    · exact ⟨.some ⟨_, rfl, deferredSample, rfl, hdeferred⟩, rfl⟩
    · exact ⟨.none, rfl⟩

theorem see_alike {entry entry' : Entry Handle} (h : entry.Alike R entry') (now : ℕ) :
    (entry.see now).Alike R (entry'.see now) := by
  obtain ⟨-, rfl, deferredSample, rfl, hdeferred⟩ := h
  exact ⟨_, rfl, deferredSample, rfl, hdeferred⟩

theorem leave_alike {entry entry' : Entry Handle} (h : entry.Alike R entry') (now : ℕ) :
    Kept R (entry.leave now) (entry'.leave now) := by
  obtain ⟨-, rfl, deferredSample, rfl, hdeferred⟩ := h
  simp only [leave]
  split
  · exact ⟨.none, rfl⟩
  · exact ⟨.some ⟨_, rfl, deferredSample, rfl, hdeferred⟩, rfl⟩

theorem answer_alike (hR : Relator.BiUnique R) {entry entry' : Entry Handle}
    (h : entry.Alike R entry') (reading : Reading) {sample sample' : Option ℕ}
    (hsample : Option.Rel R sample sample') (now : ℕ) (updated : Except String Unit) :
    Kept R (entry.answer reading sample now updated) (entry'.answer reading sample' now updated) := by
  obtain ⟨battery, rfl, hbattery⟩ := h
  obtain ⟨hleft, hdeeds, hpushed⟩ := refresh_alike hR hbattery entry.1 reading hsample now updated
  simp only [answer, hpushed]
  split
  · exact ⟨.some hleft, hdeeds⟩
  next pushed _ =>
    obtain ⟨hsettled, hstruck⟩ := settle_alike hleft pushed.isOk
    refine ⟨hsettled, ?_⟩
    rw [List.map_append, List.map_append, hdeeds, hstruck]

theorem apply_alike (hR : Relator.BiUnique R) {entry entry' : Entry Handle}
    (h : entry.Alike R entry') {headset headset' : Headset} (hheadset : headset.Alike R headset')
    (now : ℕ) (a : Answers Handle) :
    Kept R (entry.apply headset now a) (entry'.apply headset' now a) := by
  obtain ⟨sample, rfl, hsample⟩ := hheadset
  have hsee := see_alike h now
  obtain ⟨battery, rfl, -⟩ := h
  simp only [apply]
  split
  next reading hreading =>
    have hanswers : headset.battery.answers = true := by
      rw [← BatteryState.isSome_reading _ entry.1.reading.percent, hreading]
      rfl
    exact answer_alike hR hsee reading (hsample hanswers) now a.updated
  · split
    · exact leave_alike hsee now
    · exact ⟨.some hsee, rfl⟩

end Entry

/-! ## One slot -/

theorem mem_of_unnumbered {deeds deeds' : List Deed}
    (h : deeds'.map Deed.unnumbered = deeds.map Deed.unnumbered) (cause : Cause) :
    .removed cause ∈ deeds' ↔ .removed cause ∈ deeds := by
  have hmem (deeds : List Deed) : .removed cause ∈ deeds ↔
      .removed cause ∈ deeds.map Deed.unnumbered := by
    refine ⟨fun hd => List.mem_map.2 ⟨_, hd, rfl⟩, fun hd => ?_⟩
    obtain ⟨d, hd, he⟩ := List.mem_map.1 hd
    cases d <;> cases he
    exact hd
  rw [hmem, hmem deeds, h]

namespace Slot

theorem keep_alike {s s' : Slot Handle} (h : s.Alike R s') (now : ℕ)
    {kept kept' : Option (Entry Handle) × List Deed} (hkept : Kept R kept kept') :
    (s.keep now kept).1.Alike R (s'.keep now kept').1 ∧
      (s'.keep now kept').2.map Deed.unnumbered = (s.keep now kept).2.map Deed.unnumbered := by
  rw [keep_deeds, keep_deeds]
  refine ⟨?_, hkept.2⟩
  by_cases hbroken : .removed .broken ∈ kept.2
  · have hbroken' := (mem_of_unnumbered hkept.2 _).2 hbroken
    simp only [keep, if_pos hbroken, if_pos hbroken']
    exact ⟨hkept.1, rfl, h.abandoned⟩
  · have hbroken' := mt (mem_of_unnumbered hkept.2 _).1 hbroken
    simp only [keep, if_neg hbroken, if_neg hbroken']
    exact ⟨hkept.1, h.retryAt, h.abandoned⟩

/-- A headset is given a device whatever number its reading has. -/
theorem attempt_alike {s s' : Slot Handle} (h : s.Alike R s') {headset headset' : Headset}
    (hheadset : headset.Alike R headset') (reading : Reading) (now : ℕ) (got : Option Handle)
    (a : Answers Handle) :
    (s.attempt headset reading now got a).1.Alike R (s'.attempt headset' reading now got a).1 ∧
      (s'.attempt headset' reading now got a).2 = (s.attempt headset reading now got a).2 := by
  obtain ⟨sample, rfl, -⟩ := hheadset
  cases got with
  | none => exact ⟨⟨h.entry, rfl, h.abandoned⟩, rfl⟩
  | some handle =>
      have hsame : attachOn handle { headset with sample := sample } reading now a =
          attachOn handle headset reading now a := rfl
      obtain ⟨creations, -, hmade | ⟨failure, hfailed⟩⟩ :=
        attachOn_creations handle headset reading now a
      · simp only [attempt, hsame, hmade]
        exact ⟨⟨.some ⟨_, rfl, none, rfl, .none⟩, rfl, h.abandoned⟩, trivial⟩
      · cases failure with
        | retry err =>
            simp only [attempt, hsame, hfailed]
            exact ⟨⟨h.entry, rfl, h.abandoned⟩, trivial⟩
        | giveUp err =>
            simp only [attempt, hsame, hfailed]
            exact ⟨⟨h.entry, h.retryAt, rfl⟩, trivial⟩

/-- A concern makes of a slot that is kept alike what it makes of it. -/
theorem take_alike (hR : Relator.BiUnique R) (config : Config) {s s' : Slot Handle}
    (h : s.Alike R s') {c c' : Concern Handle} (hc : c.Alike R c') :
    (s.take config c).1.Alike R (s'.take config c').1 ∧
      (s'.take config c').2.map Deed.unnumbered = (s.take config c).2.map Deed.unnumbered := by
  obtain ⟨live, retryAt, abandoned⟩ := s
  obtain ⟨live', retryAt', abandoned'⟩ := s'
  obtain ⟨hlive, rfl, rfl⟩ := id h
  cases hc with
  | @listed now headset headset' got a hheadset =>
      cases hlive with
      | @some entry entry' hentry => exact keep_alike h now (Entry.apply_alike hR hentry hheadset now a)
      | none =>
          have hattempt (reading : Reading) := attempt_alike h hheadset reading now got a
          obtain ⟨sample, rfl, -⟩ := hheadset
          simp only [take]
          split
          · exact ⟨h, rfl⟩
          next reading _ =>
            by_cases hbarred : (⟨none, retryAt', abandoned'⟩ : Slot Handle).barred now = true
            · simp only [if_pos hbarred]
              exact ⟨h, trivial⟩
            · simp only [if_neg hbarred]
              exact ⟨(hattempt reading).1, congrArg _ (hattempt reading).2⟩
  | @noted now =>
      refine ⟨⟨?_, rfl, rfl⟩, rfl⟩
      cases hlive with
      | none => exact .none
      | some hentry =>
          obtain ⟨-, rfl, left, rfl, hleft⟩ := hentry
          exact .some ⟨_, rfl, left, rfl, hleft⟩
  | @judged now =>
      cases hlive with
      | none => exact ⟨h, rfl⟩
      | some hentry =>
          obtain ⟨-, rfl, left, rfl, hleft⟩ := hentry
          simp only [take, Option.bind_some, outlived]
          split
          · exact ⟨h, rfl⟩
          · exact ⟨⟨.none, rfl, rfl⟩, rfl⟩
  | @served now =>
      cases hlive with
      | none => exact ⟨h, rfl⟩
      | some hentry => exact keep_alike h now (Entry.settle_alike hentry false)

theorem step_alike (hR : Relator.BiUnique R) (config : Config) (key : String) {s s' : Slot Handle}
    (h : s.Alike R s') {c c' : Concern Handle} (hc : c.Alike R c') :
    (s.step config key c).1.Alike R (s'.step config key c').1 ∧
      (s'.step config key c').2.map Event.unnumbered =
        (s.step config key c).2.map Event.unnumbered := by
  obtain ⟨hleft, hdeeds⟩ := take_alike hR config h hc
  have hnow : c'.now = c.now := by cases hc <;> rfl
  have hstamp (deeds : List Deed) : (stamp key c.now deeds).map Event.unnumbered =
      stamp key c.now (deeds.map Deed.unnumbered) := by
    simp only [stamp, List.map_map]
    rfl
  refine ⟨hleft, ?_⟩
  simp only [step, hnow, hstamp, hdeeds]

/-- Concerns that differ in the numbers of readings take a slot through the same. -/
theorem exec_alike (hR : Relator.BiUnique R) (config : Config) (key : String) {s s' : Slot Handle}
    (h : s.Alike R s') {cs cs' : List (Concern Handle)}
    (hcs : List.Forall₂ (Concern.Alike R) cs cs') :
    (Runs.exec (Slot.step config key) s cs).1.Alike R (Runs.exec (Slot.step config key) s' cs').1 ∧
      (Runs.exec (Slot.step config key) s' cs').2.map Event.unnumbered =
        (Runs.exec (Slot.step config key) s cs).2.map Event.unnumbered := by
  induction hcs generalizing s s' with
  | nil => exact ⟨h, rfl⟩
  | cons hc _ ih =>
      obtain ⟨hleft, hsaid⟩ := step_alike hR config key h hc
      obtain ⟨hlast, hsaids⟩ := ih hleft
      simp only [Runs.exec_cons, List.map_append, hsaid, hsaids]
      exact ⟨hlast, trivial⟩

end Slot

end Bridge

end HeadsetBattery
