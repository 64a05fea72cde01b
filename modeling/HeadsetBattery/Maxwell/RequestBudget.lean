import HeadsetBattery.Maxwell.Changes
import Mathlib.Data.List.Chain
import Mathlib.Order.Lattice

/-!
# The request budget

Requests left unanswered are what wedges the dongle, so a session that hears
nothing may only write so many. A session is driven by turns, one per pass:
fetch the report, then ask if a question is due. The bound is a potential: the
quick questions a session still has, whatever its link, are at most three and
never grow while nothing is heard; every other question waits for the slow
cadence.
-/
namespace HeadsetBattery.Maxwell

/-- One pass seen from an open session, with what the kernel answers; `readings`
is the reader's count of battery messages when the pass gets to it. -/
structure Turn where
  now : ℕ
  readings : ℕ
  fetched : Except IoError Frame
  written : Except IoError Unit

/-- No message was fetched. -/
def Turn.Quiet (t : Turn) : Prop := ∀ frame, t.fetched = .ok frame → messages frame.bytes = []

namespace Session

variable {Path : Type}

/-- Listen, then ask if that is due; a fetch that fails ends the turn. The
output is what became of the question, with its instant. -/
def turn (interval first : ℕ) (s : Session Path) (t : Turn) :
    Session Path × List (Asked × ℕ) :=
  match t.fetched with
  | .error _ => (s, [])
  | .ok frame =>
      let asked := (s.takeIn frame t.readings).1.question t.now interval first t.written
      (asked.1, asked.2.toList.map fun a => (a, t.now))

/-- The instants of the requests that were written. -/
def requests (deeds : List (Asked × ℕ)) : List ℕ :=
  deeds.filterMap fun deed => if deed.1 = .sent then some deed.2 else none

@[simp] theorem requests_nil : requests [] = [] := rfl

theorem requests_append (deeds more : List (Asked × ℕ)) :
    requests (deeds ++ more) = requests deeds ++ requests more := List.filterMap_append

/-- The quick questions a session that hears nothing has left: one for a
headset said to be gone and never asked about, three in all for an unknown
link, and as many as make it give up for one said to be linked. -/
def quick (s : Session Path) : ℕ :=
  match s.link with
  | .down => if s.askedAt.isNone then 1 else 0
  | .unknown => 3 - s.asks
  | .up => max (3 - (s.unanswered + s.pending.toNat)) (3 - s.asks)

/-- Two quick delays, and the slow one before and after them. -/
theorem askAgainDelay_slow {asks : ℕ} (h : asks = 0 ∨ 3 ≤ asks) :
    askAgainDelay asks = askIdleRetry := by
  cases asks with
  | zero => simp only [askAgainDelay]
  | succ extra =>
      have hlen : askAgainAfter.length ≤ extra := by simp only [askAgainAfter, List.length]; omega
      rw [askAgainDelay, List.getElem?_eq_none hlen, Option.getD_none]

theorem seconds_ten_le_askAgainDelay (asks : ℕ) : seconds 10 ≤ askAgainDelay asks := by
  by_cases h : asks = 0 ∨ 3 ≤ asks
  · rw [askAgainDelay_slow h, askIdleRetry]
    simp only [seconds]
    omega
  · obtain rfl | rfl : asks = 1 ∨ asks = 2 := by omega
    all_goals simp [askAgainDelay, askAgainAfter, seconds]

/-- What became of a turn, once the report is taken in. -/
theorem turn_cases (s : Session Path) (interval first : ℕ) (t : Turn) :
    s.turn interval first t = (s, []) ∨
    ∃ frame, t.fetched = .ok frame ∧
      let told := (s.takeIn frame t.readings).1
      (s.turn interval first t).1 = told ∧ (s.turn interval first t).2 = [] ∨
      told.shouldAsk t.now interval first ∧ told.link = .up ∧
        maxUnanswered ≤ told.unanswered + told.pending.toNat ∧
        s.turn interval first t = (told.countLost.giveUp t.now, [(.gaveUp, t.now)]) ∨
      told.shouldAsk t.now interval first ∧
        (told.link = .up → told.unanswered + told.pending.toNat < maxUnanswered) ∧
        t.written = .ok () ∧
        s.turn interval first t = (told.countLost.sent t.now, [(.sent, t.now)]) ∨
      told.shouldAsk t.now interval first ∧ ∃ err, t.written = .error err ∧
        s.turn interval first t = (told.countLost, [(.failed err, t.now)]) := by
  unfold turn
  cases hf : t.fetched with
  | error err => exact .inl rfl
  | ok frame =>
      refine .inr ⟨frame, rfl, ?_⟩
      rcases (s.takeIn frame t.readings).1.question_cases t.now interval first t.written with
        ⟨-, hq⟩ | ⟨due, up, mute, hq⟩ | ⟨due, below, ⟨hw, hq⟩ | ⟨err, hw, hq⟩⟩
      · left; simp [hq]
      · right; left; exact ⟨due, up, mute, by simp [hq]⟩
      · right; right; left; exact ⟨due, below, hw, by simp [hq]⟩
      · right; right; right; exact ⟨due, err, hw, by simp [hq]⟩

theorem quick_countLost_le (s : Session Path) : s.countLost.quick ≤ s.quick := by
  cases hl : s.link <;> simp only [quick, countLost, hl]
  · exact le_rfl
  · exact max_le_max (by omega) le_rfl
  · exact le_rfl

theorem quick_giveUp_le (s : Session Path) (now : ℕ) (up : s.link = .up) :
    (s.countLost.giveUp now).quick ≤ s.quick := by
  simp only [quick, giveUp, countLost, up]
  exact le_max_right _ _

theorem quick_sent_le (s : Session Path) (now : ℕ) : (s.countLost.sent now).quick ≤ 2 := by
  cases hl : s.link <;> simp only [quick, sent, countLost, hl]
  · omega
  · exact max_le (by simp only [Bool.toNat_true]; omega) (by omega)
  · simp

/-- A request that goes out was a quick one, or waited for the slow cadence. -/
theorem quick_sent (s : Session Path) {now interval first : ℕ}
    (due : s.shouldAsk now interval first)
    (below : s.link = .up → s.unanswered + s.pending.toNat < maxUnanswered) :
    (s.countLost.sent now).quick + 1 ≤ s.quick ∨
      (s.countLost.sent now).quick ≤ s.quick ∧
        ∀ a, s.askedAt = some a → askIdleRetry ≤ now - a := by
  cases hl : s.link with
  | down =>
      simp only [shouldAsk, hl, Bool.and_eq_true, Option.isNone_iff_eq_none] at due
      have hnone : s.askedAt = none := due.1
      left
      simp [quick, sent, countLost, hl, hnone]
  | unknown =>
      by_cases hslow : s.asks = 0 ∨ 3 ≤ s.asks
      · right
        refine ⟨by simp only [quick, sent, countLost, hl]; omega, fun a ha => ?_⟩
        simpa [shouldAsk, hl, ha, askAgainDelay_slow hslow] using due
      · left
        simp only [quick, sent, countLost, hl]
        omega
  | up =>
      have := below hl
      left
      simp only [quick, sent, countLost, hl, maxUnanswered, Bool.toNat_true] at *
      omega

/-- What a turn that hears nothing does: there are never more quick questions
left than before, and a request costs one or waited for the slow cadence. -/
theorem turn_quiet (s : Session Path) (interval first : ℕ) {t : Turn} (hq : t.Quiet) :
    (requests (s.turn interval first t).2 = [] ∧ (s.turn interval first t).1.quick ≤ s.quick ∧
      ((s.turn interval first t).1.askedAt = s.askedAt ∨
        (s.turn interval first t).1.askedAt = some t.now)) ∨
    (requests (s.turn interval first t).2 = [t.now] ∧
      (s.turn interval first t).1.askedAt = some t.now ∧
      (s.turn interval first t).1.quick ≤ 2 ∧
      ((s.turn interval first t).1.quick + 1 ≤ s.quick ∨
        (s.turn interval first t).1.quick ≤ s.quick ∧
          ∀ a, s.askedAt = some a → askIdleRetry ≤ t.now - a)) := by
  rcases s.turn_cases interval first t with he | ⟨frame, hf, hcases⟩
  · simp [he]
  have htold : (s.takeIn frame t.readings).1 = s := by simp [takeIn, hq frame hf]
  simp only [htold] at hcases
  rcases hcases with ⟨hs, hout⟩ | ⟨-, up, -, he⟩ | ⟨due, below, -, he⟩ | ⟨-, err, -, he⟩
  · left; simp [hs, hout]
  · left; simp [he, requests, quick_giveUp_le s t.now up]
  · right
    rw [he]
    exact ⟨by simp [requests], rfl, quick_sent_le s t.now, quick_sent s due below⟩
  · left; simp [he, requests, quick_countLost_le]

/-! ## Windows that hear nothing -/

/-- The count of a window that began at `start`: nothing was written yet, or
every ten minutes up to the last question allow one more than the quick ones. -/
def Spent (start last : ℕ) (s : Session Path) (count : ℕ) : Prop :=
  count = 0 ∨ ∃ k a, s.askedAt = some a ∧ a ≤ last ∧ start + askIdleRetry * k ≤ a ∧
    count + s.quick ≤ 3 + k

theorem spent_turn (interval first : ℕ) {start last count : ℕ} {s : Session Path} {t : Turn}
    (hq : t.Quiet) (hstart : start ≤ t.now) (hlast : last ≤ t.now)
    (h : Spent start last s count) :
    Spent start t.now (s.turn interval first t).1
      (count + (requests (s.turn interval first t).2).length) := by
  rcases s.turn_quiet interval first hq with ⟨hr, hquick, hasked⟩ | ⟨hr, hasked, htwo, hcost⟩
  · rw [hr]
    rcases h with h | ⟨k, a, ha, hal, hk, hcount⟩
    · exact .inl h
    · right
      rcases hasked with hasked | hasked
      · exact ⟨k, a, hasked.trans ha, hal.trans hlast, hk, by simp only [List.length_nil]; omega⟩
      · exact ⟨k, t.now, hasked, le_rfl, by omega, by simp only [List.length_nil]; omega⟩
  · rw [hr]
    right
    rcases h with rfl | ⟨k, a, ha, hal, hk, hcount⟩
    · exact ⟨0, t.now, hasked, le_rfl, by simpa using hstart, by simpa using by omega⟩
    · rcases hcost with hcost | ⟨hcost, hslow⟩
      · exact ⟨k, t.now, hasked, le_rfl, by omega, by simp only [List.length_singleton]; omega⟩
      · have hwait := hslow a ha
        refine ⟨k + 1, t.now, hasked, le_rfl, ?_, by simp only [List.length_singleton]; omega⟩
        rw [Nat.mul_succ]
        have hidle : 0 < askIdleRetry := by decide
        omega

/-- The count holds over every window that hears nothing. -/
theorem spent_window (interval first : ℕ) {start : ℕ} (window : List Turn) :
    ∀ {last count : ℕ} {s : Session Path}, (∀ t ∈ window, t.Quiet) → start ≤ last →
      (last :: window.map Turn.now).Pairwise (· ≤ ·) → Spent start last s count →
      Spent start ((last :: window.map Turn.now).getLast (by simp))
        (Runs.exec (turn interval first) s window).1
        (count + (requests (Runs.exec (turn interval first) s window).2).length) := by
  induction window with
  | nil => intro last count s _ _ _ h; simpa using h
  | cons t window ih =>
      intro last count s hq hstart hmono h
      simp only [List.map_cons, List.pairwise_cons, List.mem_cons, forall_eq_or_imp] at hmono hq
      obtain ⟨⟨hlast, -⟩, hnow, hmono⟩ := hmono
      have hstep := spent_turn interval first hq.1 (hstart.trans hlast) hlast h
      have hrest := ih hq.2 (hstart.trans hlast) (List.pairwise_cons.2 ⟨hnow, hmono⟩) hstep
      simpa [Runs.exec_cons, requests_append, Nat.add_assoc] using hrest

/-! ## The distance between two requests -/

/-- No question comes sooner than ten seconds after the last, unless the
interval itself is shorter. -/
theorem spaced_of_shouldAsk {s : Session Path} {now interval first a : ℕ}
    (due : s.shouldAsk now interval first) (ha : s.askedAt = some a) :
    min interval (seconds 10) ≤ now - a := by
  cases hl : s.link with
  | down => simp [shouldAsk, hl, ha] at due
  | up =>
      have hwait : interval ≤ now - a := by simpa [shouldAsk, hl, ha] using due
      exact (min_le_left _ _).trans hwait
  | unknown =>
      have hwait : askAgainDelay s.asks ≤ now - a := by simpa [shouldAsk, hl, ha] using due
      exact (min_le_right _ _).trans ((seconds_ten_le_askAgainDelay _).trans hwait)

/-- The requests of a run are spaced, and the last one is no later than the
last question the session remembers, which is no later than the last turn. -/
structure Spaced (gap : ℕ) (turns : List Turn) (s : Session Path) (sent : List ℕ) : Prop where
  chain : sent.IsChain fun a b => a + gap ≤ b
  remembered : ∀ b ∈ sent.getLast?, ∃ a, s.askedAt = some a ∧ b ≤ a
  past : ∀ a, s.askedAt = some a → ∃ t ∈ turns, a ≤ t.now

theorem spaced_turn {interval first : ℕ} {turns : List Turn} {s : Session Path} {sent : List ℕ}
    {t : Turn} (h : Spaced (min interval (seconds 10)) turns s sent)
    (hmono : ∀ t' ∈ turns, t'.now ≤ t.now) :
    Spaced (min interval (seconds 10)) (turns ++ [t]) (s.turn interval first t).1
      (sent ++ requests (s.turn interval first t).2) := by
  have hpast : ∀ a, s.askedAt = some a → ∃ t' ∈ turns ++ [t], a ≤ t'.now := fun a ha => by
    obtain ⟨t', ht', hle⟩ := h.past a ha
    exact ⟨t', by simp [ht'], hle⟩
  have hsame : ∀ s' : Session Path, s'.askedAt = s.askedAt →
      Spaced (min interval (seconds 10)) (turns ++ [t]) s' sent := fun s' hs' =>
    ⟨h.chain, by simpa [hs'] using h.remembered, by simpa [hs'] using hpast⟩
  rcases s.turn_cases interval first t with he | ⟨frame, hf, hcases⟩
  · simpa [he] using hsame s rfl
  have htold : (s.takeIn frame t.readings).1.askedAt = s.askedAt := askedAt_hearAll _ _ _
  generalize (s.takeIn frame t.readings).1 = told at htold hcases
  rcases hcases with ⟨hs, hout⟩ | ⟨due, -, -, he⟩ | ⟨due, -, -, he⟩ | ⟨-, err, -, he⟩
  · rw [hs, hout]
    simpa using hsame _ htold
  · rw [he]
    refine ⟨by simpa [requests] using h.chain, ?_, ?_⟩
    · intro b hb
      obtain ⟨a, ha, hle⟩ := h.remembered b (by simpa [requests] using hb)
      obtain ⟨t', ht', hat⟩ := h.past a ha
      exact ⟨t.now, rfl, hle.trans (hat.trans (hmono t' ht'))⟩
    · rintro a ⟨⟩
      exact ⟨t, by simp, le_rfl⟩
  · rw [he]
    refine ⟨?_, by simp [requests], ?_⟩
    · simp only [requests, List.filterMap_cons, if_true, List.filterMap_nil]
      refine List.isChain_append.2 ⟨h.chain, by simp, fun b hb c hc => ?_⟩
      obtain rfl : t.now = c := by simpa using hc
      obtain ⟨a, ha, hle⟩ := h.remembered b hb
      obtain ⟨t', ht', hat⟩ := h.past a ha
      have hgap := spaced_of_shouldAsk due (htold.trans ha)
      have := hmono t' ht'
      omega
    · rintro a ⟨⟩
      exact ⟨t, by simp, le_rfl⟩
  · rw [he]
    simpa [requests] using hsame told.countLost htold

/-- The request budget of a session, whatever belief it inherits. In a window of
turns that fetch no message at most three requests are written, and one more
for every ten minutes it lasts; and over the whole session two consecutive
requests are as far apart as the interval, or ten seconds. -/
theorem requests_within_budget (d : Dongle Path) (link : Link) (openedAt interval first : ℕ)
    (turns : List Turn) (hmono : turns.Pairwise fun t t' => t.now ≤ t'.now) :
    (∀ before head window after, turns = before ++ (head :: window) ++ after →
      (∀ t ∈ head :: window, t.Quiet) →
      (requests (Runs.exec (turn interval first)
        (Runs.exec (turn interval first) (opened d link openedAt) before).1
          (head :: window)).2).length ≤
        3 + (((head :: window).getLast (by simp)).now - head.now) / askIdleRetry) ∧
    (requests (Runs.exec (turn interval first) (opened d link openedAt) turns).2).IsChain
      fun a b => a + min interval (seconds 10) ≤ b := by
  constructor
  · rintro before head window after rfl hq
    set s := (Runs.exec (turn interval first) (opened d link openedAt) before).1
    have hwindow : (head.now :: (head :: window).map Turn.now).Pairwise (· ≤ ·) := by
      have hsub := (hmono.sublist (List.sublist_append_left _ after)).sublist
        (List.sublist_append_right before (head :: window))
      refine List.pairwise_cons.2 ⟨?_, List.pairwise_map.2 hsub⟩
      simpa using fun t ht => (List.pairwise_cons.1 hsub).1 t ht
    have hspent : Spent head.now _ _ _ :=
      spent_window interval first (s := s) (head :: window) hq le_rfl hwindow (.inl rfl)
    set count := (requests (Runs.exec (turn interval first) s (head :: window)).2).length
    have hlast : (head.now :: (head :: window).map Turn.now).getLast (by simp) =
        ((head :: window).getLast (by simp)).now := by
      rw [List.getLast_cons (by simp), List.getLast_map]
    rw [hlast, Nat.zero_add] at hspent
    rcases hspent with h | ⟨k, a, -, hal, hk, hcount⟩
    · exact h.le.trans (Nat.zero_le _)
    · have hdiv : k ≤ (((head :: window).getLast (by simp)).now - head.now) / askIdleRetry :=
        (Nat.le_div_iff_mul_le (by decide)).2 (by rw [Nat.mul_comm]; omega)
      omega
  · refine (Runs.exec_induction (fun is t => ∀ t' ∈ is, t'.now ≤ t.now)
      (fun is s tr => Spaced (min interval (seconds 10)) is s (requests tr)) ?_ ?_ turns ?_).chain
    · exact ⟨by simp, by simp, by simp [opened]⟩
    · intro is t h hcond
      rw [requests_append]
      exact spaced_turn h hcond
    · rintro before t after rfl t' ht'
      exact (List.pairwise_append.1 hmono).2.2 t' ht' t (by simp)

/-- A turn that fetches an empty report. -/
def silentTurn (n : ℕ) : Turn := ⟨seconds n, 0, .ok silentFrame, .ok ()⟩

theorem silentTurn_quiet (n : ℕ) : (silentTurn n).Quiet := by
  rintro frame ⟨⟩
  decide

/-- A dongle nobody answers from: the session asks three times within forty
seconds, then once more ten minutes later, which is all the budget allows. -/
theorem requests_within_budget_of_silence :
    let turns := [silentTurn 3, silentTurn 13, silentTurn 43, silentTurn 643]
    let sent := requests (Runs.exec (turn (seconds 300) listenFirst)
      (opened (⟨0, "Audeze Maxwell", 0x4b18, none⟩ : Dongle ℕ) .unknown 0) turns).2
    sent = [seconds 3, seconds 13, seconds 43, seconds 643] ∧
      sent.length ≤ 3 + (seconds 643 - seconds 3) / askIdleRetry := by
  refine ⟨by decide, ?_⟩
  exact (requests_within_budget (⟨0, "Audeze Maxwell", 0x4b18, none⟩ : Dongle ℕ) .unknown 0
    (seconds 300) listenFirst [silentTurn 3, silentTurn 13, silentTurn 43, silentTurn 643]
    (by decide)).1 [] (silentTurn 3) [silentTurn 13, silentTurn 43, silentTurn 643] [] rfl
    (by simp [silentTurn_quiet])

/-! ## The turns of a reader's session -/

/-- What a visit makes of the session on its dongle is a turn, unless the
failure is one that closes it. -/
theorem turn_of_listenTo [LinearOrder Path] {r : Reader Path} (p : Pass Path) {d : Dongle Path}
    {x : Exchange Path} {s : Session Path} (h : r.sessionFor d x = .ok s) :
    (r.listenTo p d x).1.session? d.node =
      some (s.turn p.interval p.listenFirst ⟨p.now, r.readings, x.fetched, x.written⟩).1 := by
  cases hf : x.fetched with
  | error err => simp [Reader.listenTo, h, hf, turn, Reader.session?_enter h]
  | ok frame =>
      simp only [Reader.listenTo, h, hf, turn, Reader.readings_enter]
      split <;> simp

end Session

end HeadsetBattery.Maxwell
