import HeadsetBattery.Maxwell.RequestBudget

/-!
# Giving up on a mute headset

A headset that is said to be linked and leaves three requests unanswered is not
asked again for ten minutes. That rests on each unanswered request having been
written, so that the quick questions are spent by then. A write that fails while
a request is open counts it as lost all the same.
-/
namespace HeadsetBattery.Maxwell.Session

variable {Path : Type} {interval first : ℕ} {s : Session Path} {t : Turn}

/-- A due request of a linked headset whose write fails, with the one before it still
open and fewer than three written so far. -/
def Spoils (interval first : ℕ) (s : Session Path) (t : Turn) : Prop :=
  ∃ frame err, t.fetched = .ok frame ∧ t.written = .error err ∧
    let told := (s.takeIn frame t.readings).1
    told.shouldAsk t.now interval first = true ∧ told.link = .up ∧ told.pending = true ∧
      told.asks < maxUnanswered

/-! ## Every unanswered request was written -/

/-- A linked headset has not left more requests unanswered, the open one included,
than were written, until three were. -/
structure Earned (s : Session Path) : Prop where
  opened : s.pending = true → 1 ≤ s.asks
  unanswered : s.link = .up → s.asks < maxUnanswered → s.unanswered + s.pending.toNat ≤ s.asks

theorem earned_opened (d : Dongle Path) (link : Link) (openedAt : ℕ) :
    Earned (opened d link openedAt) :=
  ⟨nofun, fun _ _ => le_rfl⟩

@[simp] theorem asks_hear (s : Session Path) (readings : ℕ) (m : Message) :
    (s.hear readings m).1.asks = s.asks := by
  rcases m with (_ | _) | level <;> rfl

theorem Earned.hear (h : Earned s) (readings : ℕ) (m : Message) :
    Earned (s.hear readings m).1 := by
  rcases m with (_ | _) | level
  · exact ⟨nofun, nofun⟩
  · refine ⟨h.opened, fun _ _ => ?_⟩
    simp only [Session.hear, Nat.zero_add]
    cases hp : s.pending with
    | false => exact Nat.zero_le _
    | true => exact h.opened hp
  · exact ⟨nofun, fun _ _ => Nat.zero_le _⟩

theorem Earned.hearAll (h : Earned s) (readings : ℕ) (ms : List Message) :
    Earned (s.hearAll readings ms).1 := by
  induction ms generalizing s readings with
  | nil => exact h
  | cons m ms ih => exact ih (h.hear readings m) _

@[simp] theorem asks_hearAll (ms : List Message) (s : Session Path) (readings : ℕ) :
    (s.hearAll readings ms).1.asks = s.asks := by
  induction ms generalizing s readings with
  | nil => rfl
  | cons m ms ih => rw [hearAll_cons, ih, asks_hear]

theorem Earned.sent (h : Earned s) (now : ℕ) : Earned (s.countLost.sent now) := by
  refine ⟨fun _ => Nat.le_add_left 1 s.asks, fun hup hfew => ?_⟩
  have hbefore := h.unanswered hup (Nat.lt_of_succ_lt hfew)
  exact Nat.succ_le_succ hbefore

/-- A write that fails keeps the count, if no request is open or three were written. -/
theorem Earned.failed (h : Earned s)
    (hspared : s.link = .up → s.pending = true → maxUnanswered ≤ s.asks) :
    Earned s.countLost := by
  refine ⟨h.opened, fun hup hfew => ?_⟩
  have hclosed : s.pending = false := by
    refine Bool.eq_false_iff.2 fun hpending => ?_
    exact absurd (hspared hup hpending) (Nat.not_le.2 hfew)
  have hbefore := h.unanswered hup hfew
  simpa [countLost, hclosed] using hbefore

/-- A turn keeps the count unless it spoils it, and the requests are those written. -/
theorem Earned.turn (h : Earned s) (hspared : ¬Spoils interval first s t) :
    Earned (s.turn interval first t).1 ∧
      (s.turn interval first t).1.asks =
        s.asks + (requests (s.turn interval first t).2).length ∧
      ((.gaveUp, t.now) ∈ (s.turn interval first t).2 → maxUnanswered ≤ s.asks) := by
  rcases s.turn_cases interval first t with he | ⟨frame, hf, hcases⟩
  · simp [he, h]
  have htold : Earned (s.takeIn frame t.readings).1 := h.hearAll _ _
  have hasks : (s.takeIn frame t.readings).1.asks = s.asks := asks_hearAll _ _ _
  rcases hcases with ⟨hs, hout⟩ | ⟨-, hup, hmute, he⟩ | ⟨-, -, -, he⟩ | ⟨hdue, err, hw, he⟩
  · rw [hs, hout]
    exact ⟨htold, hasks, by simp⟩
  · rw [he]
    refine ⟨⟨nofun, nofun⟩, by simp [giveUp, countLost, requests, hasks], fun _ => ?_⟩
    rw [← hasks]
    by_contra hfew
    have hfew := Nat.lt_of_not_le hfew
    exact absurd (hmute.trans (htold.unanswered hup hfew)) (Nat.not_le.2 hfew)
  · rw [he]
    refine ⟨htold.sent t.now, ?_, by simp⟩
    simp [Session.sent, countLost, requests, hasks]
  · rw [he]
    refine ⟨htold.failed fun hup hopen => ?_, by simp [countLost, requests, hasks], by simp⟩
    by_contra hfew
    exact hspared ⟨frame, err, hf, hw, hdue, hup, hopen, Nat.lt_of_not_le hfew⟩

theorem earned_run (d : Dongle Path) (link : Link) (openedAt : ℕ) {turns : List Turn}
    (hspared : Runs.Along (turn interval first) (fun s t => ¬Spoils interval first s t)
      (opened d link openedAt) turns) :
    Earned (Runs.exec (turn interval first) (opened d link openedAt) turns).1 ∧
      (Runs.exec (turn interval first) (opened d link openedAt) turns).1.asks =
        (requests (Runs.exec (turn interval first) (opened d link openedAt) turns).2).length := by
  refine Runs.exec_invariant_along
    (fun s tr => Earned s ∧ s.asks = (requests tr).length) ⟨earned_opened _ _ _, rfl⟩ ?_ turns
    hspared
  rintro t s tr ⟨h, hasks⟩ hspared
  obtain ⟨hturn, hcount, -⟩ := h.turn hspared
  exact ⟨hturn, by rw [hcount, requests_append, List.length_append, hasks]⟩

/-! ## Left alone -/

/-- A session that gave up at `at`, or asked last then, with the quick questions
spent. -/
structure LeftAlone (gaveUp : ℕ) (s : Session Path) : Prop where
  link : s.link = .unknown
  asked : s.askedAt = some gaveUp
  spent : maxUnanswered ≤ s.asks

/-- While nothing is heard, a session left alone writes nothing before the slow
cadence is due. -/
theorem LeftAlone.stays {gaveUp : ℕ} (h : LeftAlone gaveUp s) (hq : t.Quiet)
    (hsoon : t.now < gaveUp + askIdleRetry) :
    LeftAlone gaveUp (s.turn interval first t).1 ∧
      requests (s.turn interval first t).2 = [] := by
  have hdelay : askAgainDelay s.asks = askIdleRetry := askAgainDelay_slow (.inr h.spent)
  have hlate {wait : ℕ} (hpositive : 0 < wait) (hwait : wait ≤ t.now - gaveUp) :
      gaveUp + wait ≤ t.now := by omega
  have hdue : s.shouldAsk t.now interval first = false := by
    simp only [shouldAsk, h.link, h.asked, hdelay, decide_eq_false_iff_not]
    exact fun hwait => absurd hsoon (Nat.not_lt.2 (hlate (by decide) hwait))
  rcases s.turn_cases interval first t with he | ⟨frame, hf, hcases⟩
  · simp [he, h]
  have htold : (s.takeIn frame t.readings).1 = s := by simp [takeIn, hq frame hf]
  simp only [htold, hdue] at hcases
  obtain ⟨hs, hout⟩ : (s.turn interval first t).1 = s ∧ (s.turn interval first t).2 = [] := by
    simpa using hcases
  rw [hs, hout]
  exact ⟨h, rfl⟩

theorem LeftAlone.writes_nothing {gaveUp : ℕ} (h : LeftAlone gaveUp s) {window : List Turn}
    {u : Turn}
    (hq : ∀ w ∈ window ++ [u], w.Quiet)
    (hsoon : ∀ w ∈ window ++ [u], w.now < gaveUp + askIdleRetry) :
    requests ((Runs.exec (turn interval first) s window).1.turn interval first u).2 = [] := by
  induction window generalizing s with
  | nil => exact (h.stays (hq u (by simp)) (hsoon u (by simp))).2
  | cons w window ih =>
      have hnext : LeftAlone gaveUp (s.turn interval first w).1 :=
        (h.stays (hq w (by simp)) (hsoon w (by simp))).1
      exact ih hnext (fun w' hw' => hq w' (by simp_all)) (fun w' hw' => hsoon w' (by simp_all))

/-- A turn that gives up leaves the session alone, if the requests that went
unanswered were written. -/
theorem leftAlone_of_gaveUp (h : Earned s) (hspared : ¬Spoils interval first s t)
    (hgave : (.gaveUp, t.now) ∈ (s.turn interval first t).2) :
    LeftAlone t.now (s.turn interval first t).1 := by
  have hspent := (h.turn hspared).2.2 hgave
  rcases s.turn_cases interval first t with he | ⟨frame, hf, hcases⟩
  · simp [he] at hgave
  rcases hcases with ⟨hs, hout⟩ | ⟨-, hup, hmute, he⟩ | ⟨-, -, -, he⟩ | ⟨-, err, -, he⟩
  · simp [hout] at hgave
  · rw [he]
    refine ⟨rfl, rfl, ?_⟩
    have hasks : (s.takeIn frame t.readings).1.asks = s.asks := asks_hearAll _ _ _
    simpa [giveUp, countLost, hasks] using hspent
  · simp [he] at hgave
  · simp [he] at hgave

/-- Where no write of a due request fails while the headset is said to be linked, the
request before it is open and fewer than three were written: a session that gives
up has written three requests at least, and until ten minutes have passed it
writes none in a turn up to which it has heard nothing. -/
theorem giving_up_earned (d : Dongle Path) (link : Link) (openedAt interval first : ℕ)
    (turns : List Turn) (hmono : turns.Pairwise fun t t' => t.now ≤ t'.now)
    (hspared : Runs.Along (turn interval first) (fun s t => ¬Spoils interval first s t)
      (opened d link openedAt) turns) :
    ∀ before t after, turns = before ++ t :: after →
      let run := Runs.exec (turn interval first) (opened d link openedAt) before
      (.gaveUp, t.now) ∈ (run.1.turn interval first t).2 →
        maxUnanswered ≤ (requests run.2).length ∧
        ∀ window u rest, after = window ++ u :: rest → (∀ w ∈ window ++ [u], w.Quiet) →
          u.now < t.now + askIdleRetry →
          requests ((Runs.exec (turn interval first) (run.1.turn interval first t).1
            window).1.turn interval first u).2 = [] := by
  rintro before t after rfl run hgave
  obtain ⟨hearned, hasks⟩ := earned_run d link openedAt hspared.prefix
  have hturn : ¬Spoils interval first run.1 t := hspared before t after rfl
  refine ⟨hasks ▸ (hearned.turn hturn).2.2 hgave, ?_⟩
  rintro window u rest rfl hq hsoon
  refine (leftAlone_of_gaveUp hearned hturn hgave).writes_nothing hq fun w hw => ?_
  have hwu : w.now ≤ u.now := by
    have hlater := (List.pairwise_cons.1 (List.pairwise_append.1 hmono).2.1).2
    obtain hw | hw := List.mem_append.1 hw
    · exact (List.pairwise_append.1 hlater).2.2 w hw u (by simp)
    · rw [List.mem_singleton.1 hw]
  exact Nat.lt_of_le_of_lt hwu hsoon

/-- A dongle that says the headset is linked, and a headset that never answers: three
requests, then nothing for ten minutes. -/
theorem giving_up_earned_of_mute :
    let dongle : Dongle ℕ := ⟨0, "Audeze Maxwell", 0x4b18, none⟩
    let before := [⟨seconds 1, 0, .ok (linkFrame 1), .ok ()⟩, silentTurn 301, silentTurn 601]
    let run := Runs.exec (turn (seconds 300) listenFirst) (opened dongle .unknown 0) before
    let gaveUp := (run.1.turn (seconds 300) listenFirst (silentTurn 901)).1
    maxUnanswered ≤ (requests run.2).length ∧
      requests (gaveUp.turn (seconds 300) listenFirst (silentTurn 1500)).2 = [] := by
  intro dongle before run gaveUp
  let turns := before ++ silentTurn 901 :: [silentTurn 1500]
  have hwritten : ∀ t ∈ turns, t.written = .ok () := by simp [turns, before, silentTurn]
  have hspared : Runs.Along (turn (seconds 300) listenFirst)
      (fun s t => ¬Spoils (seconds 300) listenFirst s t) (opened dongle .unknown 0) turns := by
    rintro pre t post he ⟨frame, err, -, hfailed, -⟩
    rw [hwritten t (by simp [he])] at hfailed
    cases hfailed
  obtain ⟨hasked, halone⟩ := giving_up_earned dongle .unknown 0 (seconds 300) listenFirst turns
    (by decide) hspared before (silentTurn 901) [silentTurn 1500] rfl (by decide)
  have hsilent := halone [] (silentTurn 1500) [] rfl (by simp [silentTurn_quiet]) (by decide)
  simp only [Runs.exec_nil] at hsilent
  exact ⟨hasked, hsilent⟩

/-- The second request fails to be written, three times in a row: the session gives up
after one request, and asks again ten seconds later. -/
theorem gave_up_after_one_request :
    let dongle : Dongle ℕ := ⟨0, "Audeze Maxwell", 0x4b18, none⟩
    let broken : IoError := ⟨"protocol error", false, false⟩
    let failing (n : ℕ) : Turn := ⟨seconds n, 0, .ok silentFrame, .error broken⟩
    let turns := [⟨seconds 1, 0, .ok (linkFrame 1), .ok ()⟩, failing 301, failing 302, failing 303,
      silentTurn 313]
    (Runs.exec (turn (seconds 300) listenFirst) (opened dongle .unknown 0) turns).2 =
        [(.sent, seconds 1), (.failed broken, seconds 301), (.failed broken, seconds 302),
          (.gaveUp, seconds 303), (.sent, seconds 313)] ∧
      1 < maxUnanswered ∧ seconds 313 < seconds 303 + askIdleRetry ∧ (silentTurn 313).Quiet := by
  refine ⟨by decide, by decide, by decide, silentTurn_quiet 313⟩

end HeadsetBattery.Maxwell.Session
