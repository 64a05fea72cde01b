import HeadsetBattery.DisplayName
import HeadsetBattery.Bridge.Concerns

/-!
# That no headset is abandoned

A headset is given up on when uhid-battery refuses its identity. The identity
made of a headset is within every limit there is, so if nothing else is refused,
no headset ever is.
-/
namespace HeadsetBattery.Bridge

variable {Handle : Type}

/-- What uhid-battery asks of an identity. -/
structure Acceptable (identity : Identity) : Prop where
  name : Headset.Showable identity.name
  uniq : Headset.FileSafe identity.uniq
  phys : Headset.FileSafe identity.phys

/-- An identity is refused only for what uhid-battery asks of it. -/
def Answers.Documented (a : Answers Handle) (h : Headset) : Prop :=
  ∀ source, a.created = .error (.invalidIdentity, source) → ¬Acceptable (identityOf h)

theorem identityOf_acceptable (h : Headset) : Acceptable (identityOf h) := by
  have hstart : (physPrefix ++ "/").utf8ByteSize = 26 ∧
      ∀ c ∈ (physPrefix ++ "/").toList, Headset.Plain c :=
    ⟨by decide +kernel, Headset.plain_of_all (by decide +kernel)⟩
  obtain ⟨hsize, hplain⟩ := h.uniq_plain hstart.2
  refine ⟨h.displayName_showable, h.uniq_fileSafe, ?_, hplain⟩
  change (physPrefix ++ "/" ++ h.uniq).utf8ByteSize ≤ 63
  rw [hsize, hstart.1]
  decide

theorem created_of_documented {a : Answers Handle} {h : Headset} (ha : a.Documented h)
    (source : String) : a.created ≠ .error (.invalidIdentity, source) := by
  intro hcreated
  exact ha source hcreated (identityOf_acceptable h)

/-- Nothing but a refused identity makes the bridge give up. -/
theorem attachOn_result {a : Answers Handle} {h : Headset} (ha : a.Documented h)
    (handle : Handle) (reading : Reading) (now : ℕ) (err : List String) :
    (attachOn handle h reading now a).2.2 ≠ .error (.giveUp err) := by
  unfold attachOn
  split
  next source hcreated => exact absurd hcreated (created_of_documented ha source)
  next => simp
  next =>
    split
    · simp
    · simp
    · simp

theorem attach_result {a : Answers Handle} {h : Headset} (ha : a.Documented h)
    (b : Bridge Handle) (reading : Reading) (now : ℕ) (err : List String) :
    (b.attach h reading now a).2.2 ≠ .error (.giveUp err) := by
  cases hgot : (b.uhid.acquire a.opened).2.2 with
  | error refusal => simp [attach, hgot]
  | ok handle =>
      have hresult := attachOn_result ha handle reading now err
      simp only [attach, hgot]
      split
      · exact hresult
      · exact hresult

/-! ## The machine of one headset -/

theorem Slot.abandoned_keep (s : Slot Handle) (now : ℕ)
    (kept : Option (Entry Handle) × List Deed) : (s.keep now kept).1.abandoned = s.abandoned := by
  unfold Slot.keep
  split
  · rfl
  · rfl

/-- What a headset's machine may be given: answers that refuse nothing acceptable. -/
def Concern.Documented : Concern Handle → Prop
  | .listed _ h _ a => a.Documented h
  | .noted _ | .judged _ | .served _ => True

theorem Slot.abandoned_attempt {a : Answers Handle} {h : Headset} (ha : a.Documented h)
    (s : Slot Handle) (reading : Reading) (now : ℕ) (got : Option Handle) :
    (s.attempt h reading now got a).1.abandoned = s.abandoned := by
  cases got with
  | none => rfl
  | some handle =>
      cases hresult : (attachOn handle h reading now a).2.2 with
      | ok done => simp only [Slot.attempt, hresult]
      | error failure =>
          cases failure with
          | retry err =>
              simp only [Slot.attempt, hresult]
              rfl
          | giveUp err => exact absurd hresult (attachOn_result ha handle reading now err)

theorem Slot.abandoned_take (s : Slot Handle) (config : Config) {c : Concern Handle}
    (hc : c.Documented) : (s.take config c).1.abandoned = s.abandoned := by
  cases c with
  | listed now h got a =>
      cases hentry : s.entry with
      | some entry =>
          simp only [Slot.take, hentry]
          exact s.abandoned_keep now _
      | none =>
          cases hoffer : h.battery.offer with
          | none => simp only [Slot.take, hentry, hoffer]
          | some reading =>
              simp only [Slot.take, hentry, hoffer]
              split
              · rfl
              · exact s.abandoned_attempt hc reading now got
  | noted now => rfl
  | judged now =>
      simp only [Slot.take]
      split
      · rfl
      · rfl
  | served now =>
      simp only [Slot.take]
      split
      · rfl
      · exact s.abandoned_keep now _

theorem Slot.abandoned_step (config : Config) (key : String) (s : Slot Handle) {c : Concern Handle}
    (hc : c.Documented) : (s.step config key c).1.abandoned = s.abandoned :=
  s.abandoned_take config hc

/-- The answers a move is given refuse nothing acceptable. -/
def Move.Documented : Move Handle → Prop
  | .apply _ polled => polled.2.Documented polled.1
  | .probe _ | .note _ | .expire _ | .serve _ => True

theorem documented_of_concern {key : String} {b : Bridge Handle} {m : Move Handle}
    {c : Concern Handle} (hm : m.Documented) (hc : concern key b m = some c) : c.Documented := by
  cases c with
  | listed now h got a =>
      obtain ⟨rfl, -, -⟩ := apply_of_listed hc
      exact hm
  | noted now => trivial
  | judged now => trivial
  | served now => trivial

/-- No headset is abandoned by any moves whose answers refuse nothing acceptable. -/
theorem abandoned_reached (config : Config) (inherited : List Handle) {moves : List (Move Handle)}
    (hm : ∀ m ∈ moves, m.Documented) (key : String) :
    (reached config inherited moves).abandoned key = false := by
  have halong : Runs.Along move (fun _ m => m.Documented) (new config inherited) moves := by
    rintro pre m post rfl
    exact hm m (by simp)
  have hconcerns : Runs.Along (Slot.step config key) (fun _ c => c.Documented) .empty
      (concerns key (new config inherited) moves) :=
    concerns_along config inherited key (fun _ _ _ hm hc => documented_of_concern hm hc) halong
  have hempty : (Slot.empty : Slot Handle).abandoned = false := rfl
  have hnever : (Runs.exec (Slot.step config key) .empty
      (concerns key (new config inherited) moves)).1.abandoned = false :=
    Runs.exec_invariant_along (fun (s : Slot Handle) _ => s.abandoned = false) hempty
      (fun c s _ hs hc => (s.abandoned_step config key hc).trans hs) _ hconcerns
  rw [reached_slot] at hnever
  exact hnever

/-- Every headset has a name that can be shown, which is the longest part of its own
that fits or the word Headset, and identifiers with nothing exotic in them. So when
only other identities are refused, attaching never gives up and no headset is
abandoned. -/
theorem no_headset_abandoned :
    (∀ h : Headset,
      Headset.Showable h.displayName ∧
        (h.displayName = "Headset" ∨
          Headset.LongestFitting 127 h.cleaned h.displayName.toList) ∧
        Headset.FileSafe h.uniq ∧ Headset.FileSafe (identityOf h).phys) ∧
    (∀ (b : Bridge Handle) (h : Headset) (reading : Reading) (now : ℕ) (a : Answers Handle),
      a.Documented h → ∀ err, (b.attach h reading now a).2.2 ≠ .error (.giveUp err)) ∧
    ∀ (config : Config) (inherited : List Handle) (inputs : List (Input Handle)),
      (∀ t, .tick t ∈ inputs → ∀ polled ∈ t.withBattery, polled.2.Documented polled.1) →
      ∀ key, (run config inherited inputs).1.abandoned key = false := by
  refine ⟨fun h => ?_, fun b h reading now a ha err => attach_result ha b reading now err,
    fun config inherited inputs hinputs key => ?_⟩
  · have hacceptable := identityOf_acceptable h
    exact ⟨h.displayName_showable, h.displayName_cases.2, hacceptable.uniq, hacceptable.phys⟩
  · rw [run_eq_moves]
    refine abandoned_reached config inherited (fun m hm => ?_) key
    obtain ⟨input, hinput, hmove⟩ := List.mem_flatMap.1 hm
    cases input with
    | tick t =>
        simp only [Input.moves, Tick.moves, List.mem_cons, List.mem_append, List.mem_map,
          List.not_mem_nil, or_false] at hmove
        obtain rfl | ⟨polled, hpolled, rfl⟩ | rfl | rfl := hmove
        · trivial
        · exact hinputs t hinput polled hpolled
        · trivial
        · trivial
    | wait w =>
        obtain ⟨err, -, rfl⟩ := List.mem_map.1 hmove
        trivial

/-- A name one byte too long and one of control characters, side by side. -/
theorem no_headset_abandoned_of_names :
    let config : Config := ⟨seconds 60, seconds 10, seconds 30, "/dev/uhid"⟩
    let answers : Answers ℕ := ⟨.error "unused", .ok (), .ok (some "hid-0"), .ok ()⟩
    let named (name : String) (id : UInt16) : Headset :=
      ⟨name, "", 0x3329, id, true, .discharging 80, none⟩
    let long := String.ofList (List.replicate 64 'é')
    let inputs : List (Input ℕ) := [.tick ⟨0, false, .ok
      [(named long 0x4b18, answers), (named "\u0000\n" 0x4b19, answers)]⟩]
    ((named long 0x4b18).displayName.utf8ByteSize, (named "\u0000\n" 0x4b19).displayName) =
        (126, "Headset") ∧
      ∀ key, (run config [1, 2] inputs).1.abandoned key = false := by
  intro config answers named long inputs
  refine ⟨by decide +kernel, ?_⟩
  refine (@no_headset_abandoned ℕ).2.2 config [1, 2] inputs fun t ht polled hpolled source hrefused => ?_
  obtain rfl := Input.tick.inj (List.mem_singleton.1 ht)
  have hanswers : polled.2 = answers := by
    have hlisted := List.mem_of_mem_filter hpolled
    simp only [Tick.headsets, List.mem_cons, List.not_mem_nil, or_false] at hlisted
    obtain rfl | rfl := hlisted <;> rfl
  rw [hanswers] at hrefused
  cases hrefused

end HeadsetBattery.Bridge
