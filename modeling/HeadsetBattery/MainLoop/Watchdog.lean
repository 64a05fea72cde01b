import HeadsetBattery.Library.Beats
import HeadsetBattery.MainLoop.Pacing

/-!
# The watchdog is fed

The service manager restarts a daemon whose pings stop coming. A ping goes out on
every turn of either loop, so that the time between two is that of a poll and a
wait at most: a reading, which is cut off, and the registration of every device the
poll creates.
-/
namespace HeadsetBattery.MainLoop

open Bridge

variable {Source World Handle : Type}

/-- How long the kernel gets to register the power supply after a device is
created. -/
def registrationTimeout : ℕ := seconds 2

/-- The longest the loop can go without pinging the watchdog: a wait, a reading, a
device registration. -/
def watchdogWorstCase : ℕ := seconds (5 + 10 + 2)

/-- A sign of life, and its instant. -/
def Act.alive : Act Handle → Option ℕ
  | notified .ready now => some now
  | notified .watchdog now => some now
  | _ => none

/-- The devices created in an act. -/
def Act.creations : Act Handle → ℕ
  | did ⟨_, _, .created _⟩ => 1
  | _ => 0

/-- How long things take: a reading is cut off, a device has so long to be registered,
a wait returns at its deadline, and everything else takes the slack at most. -/
structure Prompt (src : BatterySource Source World) (cutoff slack : ℕ) (s : State Source Handle)
    (m : Moment World Handle) : Prop where
  soon : s.started = true → m.now ≤ s.clock + slack
  poll : s.polls m = true →
    m.done ≤ m.now + cutoff + registrationTimeout * ((step src s m).2.map Act.creations).sum + slack
  wait : ∀ timeout ∈ s.timeout m, m.done ≤ m.now + timeout + slack

instance (src : BatterySource Source World) (cutoff slack : ℕ) (s : State Source Handle)
    (m : Moment World Handle) : Decidable (Prompt src cutoff slack s m) :=
  decidable_of_iff
    ((s.started = true → m.now ≤ s.clock + slack) ∧
      (s.polls m = true → m.done ≤ m.now + cutoff +
        registrationTimeout * ((step src s m).2.map Act.creations).sum + slack) ∧
      ∀ timeout ∈ s.timeout m, m.done ≤ m.now + timeout + slack)
    ⟨fun h => ⟨h.1, h.2.1, h.2.2⟩, fun h => ⟨h.soon, h.poll, h.wait⟩⟩

/-- How long after a sign of life the next one may come, for the devices created in
between. -/
def longestGap (cutoff slack creations : ℕ) : ℕ :=
  maxWait + cutoff + registrationTimeout * creations + 3 * slack

/-- How far the loop may be from its last sign of life, at the instant `p`. -/
def State.recent (cutoff slack : ℕ) (s : State Source Handle) (p creations : ℕ) : Prop :=
  match s.phase with
  | .polling => s.clock ≤ p + cutoff + registrationTimeout * creations + 2 * slack
  | .waiting _ => s.clock ≤ p + cutoff + registrationTimeout * creations + slack
  | .stopping => s.clock ≤ p + cutoff + registrationTimeout * creations + 3 * slack
  | _ => True

/-- The loop has shown that it is alive in time, and last did so not long ago. -/
structure Alive (cutoff slack : ℕ) (s : State Source Handle) (acts : List (Act Handle)) : Prop where
  inTime : Beats.InTime Act.alive Act.creations (longestGap cutoff slack) acts
  recent : ∀ p creations, Beats.last Act.alive Act.creations acts = some (p, creations) →
    s.recent cutoff slack p creations
  started : s.phase = .starting → Beats.last Act.alive Act.creations acts = none

theorem alive_did (es : List Bridge.Event) :
    ∀ act ∈ es.map (.did : Bridge.Event → Act Handle), act.alive = none := by
  intro act hact
  obtain ⟨e, -, rfl⟩ := List.mem_map.1 hact
  rfl

section Alive

variable {cutoff slack : ℕ} {s s' : State Source Handle} {acts acts' : List (Act Handle)}

/-- Acts without a sign of life. -/
theorem Alive.quiet (h : Alive cutoff slack s acts) (hquiet : ∀ act ∈ acts', act.alive = none)
    (hphase : s'.phase ≠ .starting)
    (hrecent : ∀ p creations, s.recent cutoff slack p creations →
      s'.recent cutoff slack p (creations + (acts'.map Act.creations).sum)) :
    Alive cutoff slack s' (acts ++ acts') := by
  refine ⟨h.inTime.quiet hquiet, fun p creations hlast => ?_, fun hs => absurd hs hphase⟩
  rw [Beats.last_quiet hquiet] at hlast
  obtain ⟨⟨p, before⟩, hbefore, he⟩ := Option.map_eq_some_iff.1 hlast
  obtain ⟨rfl, rfl⟩ := Prod.mk.inj he
  exact hrecent p before (h.recent p before hbefore)

/-- A sign of life, in time, and acts without one after it. -/
theorem Alive.sign (h : Alive cutoff slack s acts) {act : Act Handle} {q : ℕ}
    (hsign : act.alive = some q) (hquiet : ∀ act ∈ acts', act.alive = none)
    (hphase : s'.phase ≠ .starting)
    (htime : ∀ p creations, Beats.last Act.alive Act.creations acts = some (p, creations) →
      q ≤ p + longestGap cutoff slack creations)
    (hrecent : s'.recent cutoff slack q (acts'.map Act.creations).sum) :
    Alive cutoff slack s' (acts ++ act :: acts') := by
  have hin : Beats.InTime Act.alive Act.creations (longestGap cutoff slack) (acts ++ [act]) := by
    refine h.inTime.snoc fun q' hq p creations hlast => ?_
    obtain rfl := Option.some.inj (hsign.symm.trans hq)
    exact htime p creations hlast
  have hlast : Beats.last Act.alive Act.creations (acts ++ [act] ++ acts') =
      some (q, 0 + (acts'.map Act.creations).sum) := by
    rw [Beats.last_quiet hquiet, Beats.last_beat hsign]
    rfl
  rw [← List.singleton_append, ← List.append_assoc]
  refine ⟨hin.quiet hquiet, fun p creations hp => ?_, fun hs => absurd hs hphase⟩
  rw [hlast] at hp
  obtain ⟨rfl, rfl⟩ := Prod.mk.inj (Option.some.inj hp)
  simpa using hrecent

theorem Alive.step (h : Alive cutoff slack s acts) {src : BatterySource Source World}
    {m : Moment World Handle} (hm : Prompt src cutoff slack s m) :
    Alive cutoff slack (MainLoop.step src s m).1 (acts ++ (MainLoop.step src s m).2) := by
  have hsteps := step_steps src s m
  obtain ⟨hsoon, hpoll, hwait⟩ := hm
  generalize MainLoop.step src s m = next at hsteps hpoll ⊢
  obtain ⟨s', acts'⟩ := next
  cases hsteps with
  | starts phase =>
      refine h.sign rfl (by simp) (by simp) (fun p creations hlast => ?_) ?_
      · rw [h.started phase] at hlast
        cases hlast
      · simp only [State.recent]
        omega
  | stops phase stop =>
      have hlater := hsoon (by simp [State.started, phase])
      refine h.quiet (by simp [Act.alive]) (by simp) fun p creations hrecent => ?_
      simp only [State.recent, phase, List.map_cons, List.map_nil, List.sum_cons, List.sum_nil,
        Act.creations, Nat.add_zero] at hrecent ⊢
      omega
  | polls phase stop =>
      have hdone := hpoll (by simp [State.polls, phase, stop])
      have hlater := hsoon (by simp [State.started, phase])
      refine h.sign rfl ?_ (by simp) (fun p creations hlast => ?_) ?_
      · exact List.forall_mem_cons.2 ⟨rfl, alive_did _⟩
      · have hrecent := h.recent p creations hlast
        simp only [State.recent, phase] at hrecent
        simp only [longestGap]
        omega
      · simpa [State.recent, Act.creations] using hdone
  | resumes phase due =>
      have hlater := hsoon (by simp [State.started, phase])
      refine h.quiet (by simp) (by simp) fun p creations hrecent => ?_
      simp only [State.recent, phase, List.map_nil, List.sum_nil, Nat.add_zero] at hrecent ⊢
      omega
  | @serves deadline phase stop early =>
      have hdone := hwait _ (s.timeout_of_waiting phase stop early)
      have hlater := hsoon (by simp [State.started, phase])
      -- What servicing does comes before the ping, and only costs something.
      have hserved : Alive cutoff slack s (acts ++ (.waited (min (deadline - m.now) maxWait) m.wait ::
          (s.bridge.wait m.wait).2.1.map .did)) := by
        refine h.quiet (List.forall_mem_cons.2 ⟨rfl, alive_did _⟩) (by simp [phase])
          fun p creations hrecent => ?_
        simp only [State.recent, phase, Nat.mul_add] at hrecent ⊢
        omega
      rw [← List.cons_append, ← List.append_assoc]
      refine hserved.sign rfl (by simp) (by simp [phase]) (fun p creations hlast => ?_) ?_
      · have hrecent := hserved.recent p creations hlast
        simp only [State.recent, phase] at hrecent
        simp only [longestGap]
        omega
      · simp only [State.recent, phase]
        omega
  | fails err phase stop early =>
      exact h.quiet (List.forall_mem_cons.2 ⟨rfl, alive_did _⟩) (by simp) fun _ _ _ => trivial
  | withdraws phase => exact h.quiet (by simp) (by simp) fun _ _ _ => trivial
  | rests phase => simpa using h

end Alive

/-- The service manager hears from the daemon in time: from one sign of life to the
next it is no longer than a wait, a reading, the registration of the devices created in
between and some slack, and while the loop runs the last one is no older. With the
cutoff of the unit and one device created, that is the worst case the unit is written
for. -/
theorem watchdog_fed (src : BatterySource Source World) (source : Source) (config : Config)
    (inherited : List Handle) (cutoff slack : ℕ) {moments : List (Moment World Handle)}
    (hprompt : Runs.Along (step src) (Prompt src cutoff slack) (start source config inherited)
      moments) :
    let done := run src source config inherited moments
    Beats.InTime Act.alive Act.creations (longestGap cutoff slack) done.2 ∧
      (∀ p creations, Beats.last Act.alive Act.creations done.2 = some (p, creations) →
        (∀ result, done.1.phase ≠ .ended result) →
        done.1.clock ≤ p + longestGap cutoff slack creations) ∧
      longestGap (seconds 10) slack 1 = watchdogWorstCase + 3 * slack := by
  intro done
  have halive : Alive cutoff slack done.1 done.2 :=
    Runs.exec_invariant_along (Alive cutoff slack) ⟨Beats.inTime_nil, by simp, by simp⟩
      (fun m _ _ h hm => h.step hm) moments hprompt
  refine ⟨halive.inTime, fun p creations hlast hrunning => ?_, ?_⟩
  · have hrecent := halive.recent p creations hlast
    simp only [State.recent, longestGap] at hrecent ⊢
    cases hphase : done.1.phase with
    | starting =>
        rw [halive.started hphase] at hlast
        cases hlast
    | polling =>
        rw [hphase] at hrecent
        simp only at hrecent
        omega
    | waiting deadline =>
        rw [hphase] at hrecent
        simp only at hrecent
        omega
    | stopping =>
        rw [hphase] at hrecent
        simp only at hrecent
        omega
    | ended result => exact absurd hphase (hrunning result)
  · simp [longestGap, watchdogWorstCase, maxWait, registrationTimeout, seconds]

/-- A first reading that takes nine seconds and a device that takes two, then a wait
that is due. -/
theorem watchdog_fed_of_slow_reading :
    let config : Config := ⟨seconds 60, seconds 10, seconds 30, "/dev/uhid"⟩
    let maxwell : Headset :=
      ⟨"Maxwell", "Audeze Maxwell", 0x3329, 0x4b18, true, .discharging 80, none⟩
    let script : Scripted := ⟨[.ok [maxwell]], false⟩
    let moments : List (Moment Unit ℕ) :=
      [.smooth 0 0, .smooth 0 (seconds 11), .smooth (seconds 11) (seconds 16)]
    Beats.last Act.alive Act.creations (run scripted script config [7] (moments.take 2)).2 =
        some (0, 1) ∧
      Beats.InTime Act.alive Act.creations (longestGap (seconds 10) 1)
        (run scripted script config [7] moments).2 := by
  intro config maxwell script moments
  exact ⟨by decide +kernel,
    (watchdog_fed scripted script config [7] (seconds 10) 1 (by decide +kernel)).1⟩

end HeadsetBattery.MainLoop
