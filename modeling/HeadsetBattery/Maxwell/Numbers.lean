import HeadsetBattery.Maxwell.Sharing

/-!
# The numbers of two runs

The number of a reading counts the battery messages of every dongle. In a tidy run the
level of a product has the number of the product's newest message, so that two runs
that say the same of the product pair these numbers one to one.
-/
namespace HeadsetBattery.Maxwell

open Traces

variable {Path : Type}

/-- A battery message of a product. -/
def Event.batteryOf (pid : UInt16) : Event Path → Option Unit
  | .message _ pid' (.battery _) => if pid' = pid then some () else none
  | _ => none

/-- The number of the product's newest battery message. -/
def IsNewest (pid : UInt16) (tr : List (Event Path)) (n : ℕ) : Prop :=
  ∃ before, Last (Event.batteryOf pid) tr before () ∧ n = batteries before + 1

theorem IsNewest.append {pid : UInt16} {tr es : List (Event Path)} {n : ℕ} (h : IsNewest pid tr n)
    (hes : ∀ e ∈ es, e.batteryOf pid = none) : IsNewest pid (tr ++ es) n := by
  obtain ⟨before, hlast, hn⟩ := h
  exact ⟨before, hlast.append hes, hn⟩

/-- A session of a product with a level has it from the newest message. -/
def Session.Newest (pid : UInt16) (s : Session Path) (tr : List (Event Path)) : Prop :=
  s.productId = pid → s.level.isSome → IsNewest pid tr s.sample

theorem Session.Newest.append {pid : UInt16} {s : Session Path} {tr es : List (Event Path)}
    (h : s.Newest pid tr) (hes : ∀ e ∈ es, e.batteryOf pid = none) : s.Newest pid (tr ++ es) :=
  fun hpid hlevel => (h hpid hlevel).append hes

/-- One message, taken in by the session it is for. -/
theorem Session.Newest.hear {pid : UInt16} {s : Session Path} {tr : List (Event Path)} (node : Path)
    (h : s.Newest pid tr) (m : Message) :
    (s.hear (batteries tr) m).1.Newest pid (tr ++ [.message node s.productId m]) := by
  intro hpid hlevel
  rw [productId_hear] at hpid
  match m with
  | .link true => exact (h hpid hlevel).append (by simp [Event.batteryOf])
  | .link false => cases hlevel
  | .battery level => exact ⟨tr, last_snoc tr (by simp [Event.batteryOf, hpid]), rfl⟩

/-- A whole report. -/
theorem Session.Newest.hearAll {pid : UInt16} (node : Path) (ms : List Message) {s : Session Path}
    {tr : List (Event Path)} (h : s.Newest pid tr) :
    (s.hearAll (batteries tr) ms).1.Newest pid (tr ++ ms.map (.message node s.productId)) := by
  induction ms generalizing s tr with
  | nil => simpa using h
  | cons m ms ih =>
      have hone := h.hear node m
      have hcount : (s.hear (batteries tr) m).2 =
          batteries (tr ++ [.message node s.productId m]) := by
        rw [hear_readings _ _ _ node s.productId, batteries_append]
      have hrest := ih hone
      rw [productId_hear] at hrest
      rw [Session.hearAll_cons, hcount]
      simpa using hrest

/-- A report of a product with a level has it from the newest message. -/
def Event.Newest (pid : UInt16) (before : List (Event Path)) : Event Path → Prop
  | .reported _ _ h => h.productId = pid → h.battery.level.isSome →
      ∃ n, h.sample = some n ∧ IsNewest pid before n
  | _ => True

theorem newest_of_noReport {pid : UInt16} {es : List (Event Path)}
    (h : ∀ e ∈ es, e.isReport = false) (tr : List (Event Path)) :
    Everywhere (fun pre e => e.Newest pid (tr ++ pre)) es := by
  refine everywhere_of_forall fun e he pre => ?_
  cases e with
  | reported node link headset =>
      intro _ hsome
      exact absurd ((h _ he).symm.trans hsome) Bool.false_ne_true
  | _ => trivial

theorem batteryOf_of_noBattery {pid : UInt16} {es : List (Event Path)}
    (h : ∀ e ∈ es, e.isBattery = false) :
    ∀ e ∈ es, e.batteryOf pid = none := by
  intro e he
  have hnone := h e he
  cases e with
  | message node pid' m =>
      cases m with
      | link up => rfl
      | battery level => cases hnone
  | _ => rfl

theorem readings_hearAll (s : Session Path) (readings : ℕ) (ms : List Message) (node : Path)
    (pid : UInt16) :
    (s.hearAll readings ms).2 = readings + batteries (ms.map (Event.message node pid)) := by
  induction ms generalizing s readings with
  | nil => rfl
  | cons m ms ih =>
      rw [Session.hearAll_cons, ih, hear_readings s readings m node pid, Nat.add_assoc,
        ← batteries_append]
      rfl

variable [LinearOrder Path]

/-- Within a pass: the sessions are where the pass lists their products, numbered by the
messages so far, and the product's has its level from the newest. -/
structure Reader.Current (pid : UInt16) (p : Pass Path) (r : Reader Path) (tr : List (Event Path)) :
    Prop where
  placed : Placed p r
  readings : r.readings = batteries tr
  sessions : ∀ node s, r.session? node = some s → s.Newest pid tr
  reports : Everywhere (Event.Newest pid) tr

namespace Reader.Current

variable {pid : UInt16} {p : Pass Path} {r r' : Reader Path} {tr es : List (Event Path)}

/-- Events without messages and reports, with sessions that were there before. -/
theorem quiet (h : r.Current pid p tr) (hr : r'.readings = r.readings)
    (hs : ∀ node s, r'.session? node = some s → r.session? node = some s)
    (hes : ∀ e ∈ es, e.isBattery = false) (hreports : ∀ e ∈ es, e.isReport = false) :
    r'.Current pid p (tr ++ es) where
  placed node s hheld := h.placed node s (hs node s hheld)
  readings := by
    have hnone : batteries es = 0 := List.countP_eq_zero.2 fun e he => by simpa using hes e he
    rw [hr, h.readings, batteries_append, hnone, Nat.add_zero]
  sessions node s hheld :=
    (h.sessions node s (hs node s hheld)).append (batteryOf_of_noBattery hes)
  reports := everywhere_append.2 ⟨h.reports, newest_of_noReport hreports tr⟩

/-- The session of a listed node is replaced, with the messages of its product. -/
theorem put {node : Path} {s : Session Path} (hp : p.Single) (hlists : p.Lists node s.productId)
    (h : r.Current pid p tr) (hr : r'.readings = batteries (tr ++ es))
    (hs : ∀ node', r'.session? node' = if node' = node then some s else r.session? node')
    (hmine : s.productId = pid ∨ ∀ e ∈ es, e.batteryOf pid = none)
    (hreports : ∀ e ∈ es, e.isReport = false) (hnewest : s.Newest pid (tr ++ es)) :
    r'.Current pid p (tr ++ es) where
  placed node' s' hheld := by
    rw [hs] at hheld
    split at hheld
    next hnode =>
      obtain rfl := Option.some.inj hheld
      exact hnode ▸ hlists
    next => exact h.placed node' s' hheld
  readings := hr
  sessions node' s' hheld := by
    rw [hs] at hheld
    split at hheld
    next hnode =>
      obtain rfl := Option.some.inj hheld
      exact hnewest
    next hnode =>
      obtain hpid | hnone := hmine
      · -- The product has no other session.
        intro hpid'
        exact absurd ((hp _ _ _ _ (h.placed node' s' hheld) hlists).2 (hpid'.trans hpid.symm)) hnode
      · exact (h.sessions node' s' hheld).append hnone
  reports := everywhere_append.2 ⟨h.reports, newest_of_noReport hreports tr⟩

/-- A report of the session on a node. -/
theorem report {node : Path} {s : Session Path} (h : r.Current pid p tr)
    (held : r.session? node = some s) {link : Option Link} {headset : Headset}
    (hpid : headset.productId = s.productId) (hsample : headset.sample = some s.sample)
    (hlevel : headset.battery.level.isSome → s.level.isSome) :
    r.Current pid p (tr ++ [.reported node link headset]) where
  placed := h.placed
  readings := by
    rw [h.readings, batteries_append]
    rfl
  sessions node' s' hheld := (h.sessions node' s' hheld).append (by simp [Event.batteryOf])
  reports := by
    refine everywhere_append.2 ⟨h.reports, everywhere_singleton.2 fun hmine hsome => ?_⟩
    rw [List.append_nil]
    exact ⟨s.sample, hsample, h.sessions node s held (hpid.symm.trans hmine) (hlevel hsome)⟩

variable [ToString Path]

/-- Every change of a visit to a listed dongle. -/
theorem change {start : Reader Path} {d : Dongle Path} {x : Exchange Path} (hp : p.Single)
    (hlists : p.Lists d.node d.productId) (h : r.Current pid p tr)
    (c : Change start (.visit p d x) r es r') : r'.Current pid p (tr ++ es) := by
  have hsame (es' : List (Event Path)) (hes' : ∀ e ∈ es', e.isBattery = false) :
      r.readings = batteries (tr ++ es') := by
    have hnone : batteries es' = 0 := List.countP_eq_zero.2 fun e he => by simpa using hes' e he
    rw [h.readings, batteries_append, hnone, Nat.add_zero]
  have hmatched := h.placed.matched hp hlists
  cases c with
  | opened absent done =>
      exact h.put hp hlists (hsame _ (by simp [Event.isBattery])) (fun _ => session?_put _ _ _ _)
        (.inr (by simp [Event.batteryOf])) (by simp [Event.isReport])
        fun _ hlevel => by cases hlevel
  | @heard _ _ _ _ s frame held fetched =>
      have hproduct : (s.takeIn frame r.readings).1.productId = s.productId :=
        Session.productId_hearAll _ _ _
      have hagain : ∀ e ∈ if (r.watchAfter frame p.now).2 then [Event.answersAgain d.node] else [],
          e.isBattery = false := by
        split <;> simp [Event.isBattery]
      refine h.put hp (hproduct ▸ h.placed _ s held) ?_ (fun _ => session?_put _ _ _ _) ?_ ?_ ?_
      · have hnone := List.countP_eq_zero.2 fun e he => by simpa using hagain e he
        rw [Reader.hear, ← List.append_assoc, batteries_append, batteries_append, ← h.readings,
          ← readings_hearAll s, batteries, hnone]
        rfl
      · by_cases hpid : s.productId = pid
        · exact .inl (hproduct.trans hpid)
        · refine .inr fun e he => ?_
          obtain ⟨m, -, rfl⟩ | rfl := mem_hear he
          · cases m <;> simp [Event.batteryOf, hpid]
          · rfl
      · intro e he
        obtain ⟨m, -, rfl⟩ | rfl := mem_hear he <;> rfl
      · have hheard := (h.sessions _ s held).hearAll d.node (messages frame.bytes)
        rw [← h.readings] at hheard
        rw [Reader.hear, ← List.append_assoc]
        exact hheard.append (batteryOf_of_noBattery hagain)
  | @gaveUp _ _ _ _ s held told due up mute =>
      exact h.put (s := s.countLost.giveUp p.now) hp (h.placed _ s held)
        (hsame _ (by simp [Event.isBattery])) (fun _ => session?_put _ _ _ _)
        (.inr (by simp [Event.batteryOf])) (by simp [Event.isReport]) fun _ hlevel => by cases hlevel
  | @sent _ _ _ _ s held =>
      exact h.put (s := s.countLost.sent p.now) hp (h.placed _ s held)
        (hsame _ (by simp [Event.isBattery])) (fun _ => session?_put _ _ _ _)
        (.inr (by simp [Event.batteryOf])) (by simp [Event.isReport])
        ((h.sessions _ s held).append (by simp [Event.batteryOf]))
  | @lost _ _ _ _ s held =>
      exact h.put (s := s.countLost) hp (h.placed _ s held) (hsame _ (by simp))
        (fun _ => session?_put _ _ _ _) (.inr (by simp)) (by simp)
        ((h.sessions _ s held).append (by simp))
  | suspected =>
      refine h.quiet (readings_suspect _ _ _ _ _) (fun node s hs => by rwa [session?_suspect] at hs)
        (fun e he => ?_) fun e he => ?_
      all_goals
        obtain ⟨silence, rfl⟩ := mem_suspect he
        rfl
  | closed =>
      exact h.quiet rfl (fun _ _ hs => (held_of_drop hs).2) (by simp [Event.isBattery])
        (by simp [Event.isReport])
  | reachable =>
      refine h.quiet rfl (fun _ _ hs => hs) (fun e he => ?_) fun e he => ?_
      all_goals
        obtain rfl := mem_reportRecovery he
        rfl
  | unreachable =>
      exact h.quiet rfl (fun _ _ hs => hs) (by simp [reportError, Event.isBattery])
        (by simp [reportError, Event.isReport])
  | @reported _ _ _ _ s held =>
      refine h.report held (hmatched s held).symm rfl fun hsome => ?_
      rw [headset, Session.level_battery] at hsome
      split at hsome
      · cases hsome
      · exact hsome
  | withheld =>
      exact h.quiet rfl (fun _ _ hs => hs) (by simp [Event.isBattery])
        (by simp [Event.isReport, headset, BatteryState.level])

theorem visit {d : Dongle Path} (x : Exchange Path) (hp : p.Single)
    (hlists : p.Lists d.node d.productId) (h : r.Current pid p tr) :
    (r.visit p d x).1.Current pid p (tr ++ (r.visit p d x).2) :=
  (visit_chain r p d x).keeps (Current pid p) (fun _ _ _ _ c hi => hi.change hp hlists c) tr h

/-- The scan hands the sessions that stay over to the next pass. -/
theorem scan {q : Pass Path} (h : r.Current pid p tr)
    (hstays : ∀ v ∈ p.listed, ∀ w ∈ q.listed, v.1.node = w.1.node →
      v.1.productId = w.1.productId) :
    (r.move (.scan q)).1.Current pid q (tr ++ (r.move (.scan q)).2) := by
  have hscan := (scan_chain r q).keeps (fun r' tr' => r'.Current pid p tr') ?_ tr h
  · exact ⟨h.placed.scan hstays, hscan.readings, hscan.sessions, hscan.reports⟩
  · intro r₁ es r₂ tr₁ c hi
    cases c with
    | began =>
        exact hi.quiet rfl (fun _ _ hs => hs) (by simp [Event.isBattery]) (by simp [Event.isReport])
    | closed =>
        exact hi.quiet rfl (fun _ _ hs => (held_of_drop hs).2) (by simp [Event.isBattery])
          (by simp [Event.isReport])

/-- A whole pass, after one that listed the same products on the same nodes. -/
theorem reconcile {q : Pass Path} (hq : q.Single) (h : r.Current pid p tr)
    (hstays : ∀ v ∈ p.listed, ∀ w ∈ q.listed, v.1.node = w.1.node →
      v.1.productId = w.1.productId) :
    (r.reconcile q).1.Current pid q (tr ++ (r.reconcile q).2) := by
  have hscan := h.scan hstays
  rw [Reader.reconcile, Pass.moves, Runs.exec_cons, ← List.append_assoc]
  refine Runs.exec_induction (fun _ m => m ∈ q.listed.map fun v => Move.visit q v.1 v.2)
    (fun _ r' es => Current pid q r' (tr ++ (r.move (.scan q)).2 ++ es)) (by simpa using hscan)
    (fun _ m hr hm => ?_) _ fun pre m post he => by rw [he]; simp
  obtain ⟨v, hv, rfl⟩ := List.mem_map.1 hm
  have hnext := hr.visit v.2 hq ⟨v, hv, rfl, rfl⟩
  rw [← List.append_assoc]
  exact hnext

end Reader.Current

/-- In a tidy run a level of a product has the number of the product's newest message. -/
theorem newest_run [ToString Path] {passes : List (Pass Path)} (h : Tidy passes) (pid : UInt16) :
    Everywhere (Event.Newest pid) (Reader.run passes).2 := by
  refine (Reader.run_tidy (motive := fun _ p r tr => r.Current pid p tr) ?_ ?_ h).elim
    fun p hrun => hrun.reports
  · exact ⟨by simp [Placed], rfl, by simp, everywhere_nil _⟩
  · exact fun _ p q r tr hr hq _ hstays => hr.reconcile hq hstays

omit [LinearOrder Path] in
theorem Tidy.init {passes passes' : List (Pass Path)} (h : Tidy (passes ++ passes')) :
    Tidy passes where
  products p hp := h.products p (List.mem_append_left _ hp)
  nodes p hp := h.nodes p (List.mem_append_left _ hp)
  stays := (List.isChain_append.1 h.stays).1

/-! ## Pairing the numbers of two runs -/

section Paired

variable {pid : UInt16} {tr tr' : List (Event Path)} {k k' n n' : ℕ}

omit [LinearOrder Path]

/-- How many battery messages of a product a trace holds. -/
def ownBatteries (pid : UInt16) (tr : List (Event Path)) : ℕ :=
  tr.countP fun e => (e.batteryOf pid).isSome

/-- The number of a battery message that comes after so many of its product. -/
def IsNumber (pid : UInt16) (tr : List (Event Path)) (k n : ℕ) : Prop :=
  ∃ before e after, tr = before ++ e :: after ∧ (e.batteryOf pid).isSome = true ∧
    ownBatteries pid before = k ∧ n = batteries before + 1

/-- The numbers that two traces give to the same battery message of a product. -/
def Paired (pid : UInt16) (tr tr' : List (Event Path)) (n n' : ℕ) : Prop :=
  ∃ k, IsNumber pid tr k n ∧ IsNumber pid tr' k n'

theorem IsNumber.append (h : IsNumber pid tr k n) (es : List (Event Path)) :
    IsNumber pid (tr ++ es) k n := by
  obtain ⟨before, e, after, rfl, he⟩ := h
  exact ⟨before, e, after ++ es, by simp, he⟩

theorem isBattery_of_batteryOf {e : Event Path} (h : (e.batteryOf pid).isSome = true) :
    e.isBattery = true := by
  cases e with
  | message node pid' m =>
      cases m with
      | link up => cases h
      | battery level => rfl
  | _ => cases h

theorem IsNumber.eq_iff (h : IsNumber pid tr k n) (h' : IsNumber pid tr k' n') :
    k = k' ↔ n = n' := by
  obtain ⟨before, e, after, he, hown, rfl, rfl⟩ := h
  obtain ⟨before', e', after', he', hown', rfl, rfl⟩ := h'
  constructor
  · intro hk
    rw [before_eq_of_countP he he' hown hown' hk]
  · intro hn
    have hcount : batteries before = batteries before' := by omega
    rw [before_eq_of_countP he he' (isBattery_of_batteryOf hown) (isBattery_of_batteryOf hown')
      hcount]

/-- One to one. -/
theorem paired_biUnique (pid : UInt16) (tr tr' : List (Event Path)) :
    Relator.BiUnique (Paired pid tr tr') := by
  refine ⟨fun m n n' ⟨k, hm, hn⟩ ⟨k', hm', hn'⟩ => ?_, fun m n n' ⟨k, hm, hn⟩ ⟨k', hm', hn'⟩ => ?_⟩
  · exact (hm.eq_iff hm').1 ((hn.eq_iff hn').2 rfl)
  · exact (hn.eq_iff hn').1 ((hm.eq_iff hm').2 rfl)

theorem Paired.append (h : Paired pid tr tr' n n') (es es' : List (Event Path)) :
    Paired pid (tr ++ es) (tr' ++ es') n n' := by
  obtain ⟨k, hn, hn'⟩ := h
  exact ⟨k, hn.append es, hn'.append es'⟩

/-- What is said of a product has all of its battery messages. -/
theorem ownBatteries_about (pid : UInt16) (tr : List (Event Path)) :
    ownBatteries pid (tr.filterMap (Event.about pid)) = ownBatteries pid tr := by
  rw [ownBatteries, List.countP_filterMap]
  refine List.countP_congr fun e _ => ?_
  cases e with
  | message node pid' m =>
      by_cases hpid : pid' = pid
      · simp [Event.about, Event.product?, hpid, Event.unnumbered]
      · cases m <;> simp [Event.about, Event.product?, hpid, Event.batteryOf]
  | _ =>
      rw [Event.about]
      split <;> simp [Event.unnumbered, Event.batteryOf]

theorem IsNewest.isNumber (h : IsNewest pid tr n) :
    ∃ k, IsNumber pid tr k n ∧ ownBatteries pid tr = k + 1 := by
  obtain ⟨before, ⟨e, after, rfl, he, hafter⟩, rfl⟩ := h
  have hown : (e.batteryOf pid).isSome = true := by rw [he]; rfl
  have hnone : ownBatteries pid after = 0 :=
    List.countP_eq_zero.2 fun e' he' => by simp [hafter e' he']
  refine ⟨ownBatteries pid before, ⟨before, e, after, rfl, hown, rfl, rfl⟩, ?_⟩
  rw [ownBatteries] at hnone ⊢
  rw [List.countP_append, List.countP_cons, if_pos hown, hnone]
  rfl

/-- Traces that say the same of a product pair the numbers of its newest messages. -/
theorem paired_of_newest (h : IsNewest pid tr n) (h' : IsNewest pid tr' n')
    (hsame : tr.filterMap (Event.about pid) = tr'.filterMap (Event.about pid)) :
    Paired pid tr tr' n n' := by
  obtain ⟨k, hn, hk⟩ := h.isNumber
  obtain ⟨k', hn', hk'⟩ := h'.isNumber
  have hcount : ownBatteries pid tr = ownBatteries pid tr' := by
    rw [← ownBatteries_about, hsame, ownBatteries_about]
  obtain rfl : k = k' := by omega
  exact ⟨k, hn, hn'⟩

end Paired

end HeadsetBattery.Maxwell
