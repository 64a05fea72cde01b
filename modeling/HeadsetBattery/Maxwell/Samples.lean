import HeadsetBattery.Maxwell.Levels
import HeadsetBattery.Maxwell.Belief
import Mathlib.Data.List.Chain

/-!
# The battery messages behind the reports

A report with a level gives the number and the level of one battery message.
Two dongles of one product may give theirs in any order. Where no two of them
are listed together, the reports of a product never go back to an older message.
-/
namespace HeadsetBattery.Maxwell

open Traces

variable {Path : Type}

/-- The battery message with this number gave this level. -/
def IsLevel (tr : List (Event Path)) (n level : ℕ) : Prop :=
  ∃ before node pid after, tr = before ++ .message node pid (.battery level) :: after ∧
    n = batteries before + 1

theorem IsLevel.append {tr : List (Event Path)} {n level : ℕ} (h : IsLevel tr n level)
    (es : List (Event Path)) : IsLevel (tr ++ es) n level := by
  obtain ⟨before, node, pid, after, rfl, hn⟩ := h
  exact ⟨before, node, pid, after ++ es, by simp, hn⟩

/-- A report with a level of a headset on this product, with this sample. -/
def Numbered (tr : List (Event Path)) (pid : UInt16) (n : ℕ) : Prop :=
  ∃ node link h, .reported node link h ∈ tr ∧ h.productId = pid ∧ h.battery.level.isSome ∧
    h.sample = some n

theorem numbered_append {tr es : List (Event Path)} {pid : UInt16} {n : ℕ} :
    Numbered (tr ++ es) pid n ↔ Numbered tr pid n ∨ Numbered es pid n := by
  simp only [Numbered, List.mem_append, or_and_right, exists_or]

/-- No earlier report of the product has a newer sample. -/
def Event.InOrder (before : List (Event Path)) : Event Path → Prop
  | .reported _ _ h => h.battery.level.isSome → ∀ n, h.sample = some n →
      ∀ n', Numbered before h.productId n' → n' ≤ n
  | _ => True

/-- A report with a level. -/
def Event.isReport : Event Path → Bool
  | .reported _ _ h => h.battery.level.isSome
  | _ => false

theorem not_numbered_of_noReport {es : List (Event Path)} (h : ∀ e ∈ es, e.isReport = false)
    (pid : UInt16) (n : ℕ) : ¬Numbered es pid n := by
  rintro ⟨node, link, headset, he, -, hsome, -⟩
  exact Bool.false_ne_true ((h _ he).symm.trans hsome)

theorem numbered_of_append {tr es : List (Event Path)} (hes : ∀ e ∈ es, e.isReport = false)
    {pid : UInt16} {n : ℕ} (h : Numbered (tr ++ es) pid n) : Numbered tr pid n :=
  (numbered_append.1 h).resolve_right (not_numbered_of_noReport hes pid n)

theorem inOrder_of_noReport {es : List (Event Path)} (h : ∀ e ∈ es, e.isReport = false)
    (tr : List (Event Path)) : Everywhere (fun pre e => e.InOrder (tr ++ pre)) es := by
  refine everywhere_of_forall fun e he pre => ?_
  cases e with
  | reported node link headset =>
      intro hsome
      exact absurd ((h _ he).symm.trans hsome) Bool.false_ne_true
  | _ => trivial

/-- What a report says of a headset: never charging without a level, and no level at
all unless the dongle could be read. -/
def Event.Plain : Event Path → Prop
  | .reported _ link h => h.battery ≠ .charging none ∧ (link = none → h.battery = .unavailable)
  | _ => True

/-- Taking in a report either keeps the level with its number, loses it, or gives
one with a new number. -/
theorem Session.sample_hearAll (ms : List Message) (s : Session Path) (readings : ℕ) :
    readings ≤ (s.hearAll readings ms).2 ∧
      ((s.hearAll readings ms).1.level = s.level ∧ (s.hearAll readings ms).1.sample = s.sample ∨
        (s.hearAll readings ms).1.level = none ∨
        readings < (s.hearAll readings ms).1.sample ∧
          (s.hearAll readings ms).1.sample ≤ (s.hearAll readings ms).2) := by
  induction ms generalizing s readings with
  | nil => exact ⟨le_rfl, .inl ⟨rfl, rfl⟩⟩
  | cons m ms ih =>
      rw [hearAll_cons]
      obtain ⟨hle, hcases⟩ := ih (s.hear readings m).1 (s.hear readings m).2
      match m with
      | .link true => exact ⟨hle, hcases⟩
      | .link false =>
          refine ⟨hle, ?_⟩
          obtain ⟨hlevel, -⟩ | hnone | hnew := hcases
          · exact .inr (.inl hlevel)
          · exact .inr (.inl hnone)
          · exact .inr (.inr hnew)
      | .battery level =>
          change readings + 1 ≤ _ at hle
          refine ⟨by omega, .inr ?_⟩
          obtain ⟨-, hsample⟩ | hnone | ⟨hlt, hbound⟩ := hcases
          · change _ = readings + 1 at hsample
            exact .inr ⟨by omega, by omega⟩
          · exact .inl hnone
          · change readings + 1 < _ at hlt
            exact .inr ⟨by omega, hbound⟩

/-- The dongle listed on a node, by its product. -/
def Pass.Lists (p : Pass Path) (node : Path) (pid : UInt16) : Prop :=
  ∃ v ∈ p.listed, v.1.node = node ∧ v.1.productId = pid

/-- Every pass lists a node and a product once at most, and a node that is listed
again at the next pass is the same product. -/
structure Tidy (passes : List (Pass Path)) : Prop where
  products : ∀ p ∈ passes, (p.listed.map fun v => v.1.productId).Nodup
  nodes : ∀ p ∈ passes, (p.listed.map fun v => v.1.node).Nodup
  stays : passes.IsChain fun p q => ∀ v ∈ p.listed, ∀ w ∈ q.listed, v.1.node = w.1.node →
    v.1.productId = w.1.productId

/-- A listing that names a product for each node and a node for each product. -/
def Pass.Single (p : Pass Path) : Prop :=
  ∀ node node' pid pid', p.Lists node pid → p.Lists node' pid' → (node = node' ↔ pid = pid')

theorem Tidy.single {passes : List (Pass Path)} (h : Tidy passes) {p : Pass Path}
    (hp : p ∈ passes) : p.Single := by
  rintro node node' pid pid' ⟨v, hv, rfl, rfl⟩ ⟨w, hw, rfl, rfl⟩
  constructor
  · intro hn
    rw [List.inj_on_of_nodup_map (h.nodes p hp) hv hw hn]
  · intro hpid
    rw [List.inj_on_of_nodup_map (h.products p hp) hv hw hpid]

variable [LinearOrder Path]

namespace Reader

/-- Within a pass: the level of a session is no older than any report of the product
listed on its node, and no report goes back. -/
structure Ordered (p : Pass Path) (r : Reader Path) (tr : List (Event Path)) : Prop where
  sessions : ∀ node s, r.session? node = some s → ∃ pid, p.Lists node pid ∧
    (s.level.isSome → s.sample ≤ r.readings ∧ ∀ n, Numbered tr pid n → n ≤ s.sample)
  bounded : ∀ pid n, Numbered tr pid n → n ≤ r.readings
  reports : Everywhere Event.InOrder tr

namespace Ordered

variable {p : Pass Path} {r r' : Reader Path} {tr es : List (Event Path)}

/-- Events that report nothing, with sessions that were there before. -/
theorem quiet (h : r.Ordered p tr) (hr : r'.readings = r.readings)
    (hs : ∀ node s, r'.session? node = some s → r.session? node = some s)
    (hes : ∀ e ∈ es, e.isReport = false) : r'.Ordered p (tr ++ es) where
  sessions node s hheld := by
    obtain ⟨pid, hlists, hlevel⟩ := h.sessions node s (hs node s hheld)
    refine ⟨pid, hlists, fun hsome => ?_⟩
    rw [hr]
    exact ⟨(hlevel hsome).1, fun n hn => (hlevel hsome).2 n (numbered_of_append hes hn)⟩
  bounded pid n hn := hr ▸ h.bounded pid n (numbered_of_append hes hn)
  reports := everywhere_append.2 ⟨h.reports, inOrder_of_noReport hes tr⟩

/-- Events that report nothing, with the session of one listed node replaced by
one that has no level, the level it had, or a new one. -/
theorem put {node : Path} {pid : UInt16} {s : Session Path} (hlists : p.Lists node pid)
    (h : r.Ordered p tr) (hr : r.readings ≤ r'.readings)
    (hs : ∀ node', r'.session? node' = if node' = node then some s else r.session? node')
    (hes : ∀ e ∈ es, e.isReport = false)
    (hcases : (∃ old, r.session? node = some old ∧ s.level = old.level ∧ s.sample = old.sample) ∨
      s.level = none ∨ r.readings < s.sample ∧ s.sample ≤ r'.readings) :
    r'.Ordered p (tr ++ es) where
  sessions node' s' hheld := by
    rw [hs] at hheld
    split at hheld
    next hnode =>
      obtain rfl := Option.some.inj hheld
      subst hnode
      obtain ⟨old, hold, hlevel, hsample⟩ | hnone | ⟨hnew, hle⟩ := hcases
      · obtain ⟨pid', hlists', hkept⟩ := h.sessions _ old hold
        refine ⟨pid', hlists', fun hsome => ?_⟩
        obtain ⟨hle, hall⟩ := hkept (hlevel ▸ hsome)
        rw [hsample]
        exact ⟨hle.trans hr, fun n hn => hall n (numbered_of_append hes hn)⟩
      · refine ⟨pid, hlists, fun hsome => ?_⟩
        rw [hnone] at hsome
        cases hsome
      · refine ⟨pid, hlists, fun _ => ⟨hle, fun n hn => ?_⟩⟩
        have := h.bounded pid n (numbered_of_append hes hn)
        omega
    next =>
      obtain ⟨pid', hlists', hkept⟩ := h.sessions node' s' hheld
      refine ⟨pid', hlists', fun hsome => ?_⟩
      exact ⟨(hkept hsome).1.trans hr, fun n hn => (hkept hsome).2 n (numbered_of_append hes hn)⟩
  bounded pid' n hn := (h.bounded pid' n (numbered_of_append hes hn)).trans hr
  reports := everywhere_append.2 ⟨h.reports, inOrder_of_noReport hes tr⟩

/-- A report of the session on a node, for the product listed there. -/
theorem report {node : Path} {pid : UInt16} {s : Session Path} (hp : p.Single)
    (hlists : p.Lists node pid) (h : r.Ordered p tr) (held : r.session? node = some s)
    {link : Option Link} {headset : Headset} (hpid : headset.productId = pid)
    (hsample : headset.sample = some s.sample)
    (hlevel : headset.battery.level.isSome → s.level.isSome) :
    r.Ordered p (tr ++ [.reported node link headset]) := by
  have hnew (pid' : UInt16) (n : ℕ)
      (hn : Numbered [.reported node link headset] pid' n) :
      pid' = pid ∧ n = s.sample ∧ s.level.isSome := by
    obtain ⟨node', link', headset', he, rfl, hsome, hs⟩ := hn
    obtain ⟨rfl, rfl, rfl⟩ := Event.reported.inj (List.mem_singleton.1 he)
    exact ⟨hpid, Option.some.inj (hs.symm.trans hsample), hlevel hsome⟩
  obtain ⟨own, hown, hkept⟩ := h.sessions node s held
  obtain rfl : pid = own := (hp _ _ _ _ hlists hown).1 rfl
  refine ⟨fun node' s' hheld => ?_, fun pid' n hn => ?_, ?_⟩
  · obtain ⟨pid', hlists', hkept'⟩ := h.sessions node' s' hheld
    refine ⟨pid', hlists', fun hsome => ⟨(hkept' hsome).1, fun n hn => ?_⟩⟩
    obtain hn | hn := numbered_append.1 hn
    · exact (hkept' hsome).2 n hn
    · obtain ⟨rfl, rfl, -⟩ := hnew pid' n hn
      obtain rfl := (hp _ _ _ _ hlists hlists').2 rfl
      rw [Option.some.inj (held.symm.trans hheld)]
  · obtain hn | hn := numbered_append.1 hn
    · exact h.bounded pid' n hn
    · obtain ⟨-, rfl, hsome⟩ := hnew pid' n hn
      exact (hkept hsome).1
  · refine everywhere_append.2 ⟨h.reports, everywhere_singleton.2 ?_⟩
    intro hsome n hn n' hn'
    rw [hsample] at hn
    obtain rfl := Option.some.inj hn
    rw [List.append_nil, hpid] at hn'
    exact (hkept (hlevel hsome)).2 n' hn'

variable [ToString Path]

/-- Every change of a visit to a listed dongle. -/
theorem change {start : Reader Path} {d : Dongle Path} {x : Exchange Path} (hp : p.Single)
    (hlists : p.Lists d.node d.productId) (h : r.Ordered p tr)
    (c : Change start (.visit p d x) r es r') : r'.Ordered p (tr ++ es) := by
  cases c with
  | opened absent done =>
      exact h.put hlists le_rfl (fun _ => session?_put _ _ _ _) (by simp [Event.isReport])
        (.inr (.inl rfl))
  | @heard _ _ _ _ s frame held fetched =>
      obtain ⟨hle, hcases⟩ := Session.sample_hearAll (messages frame.bytes) s r.readings
      refine h.put hlists hle (fun _ => session?_put _ _ _ _) ?_ ?_
      · intro e he
        obtain ⟨m, -, rfl⟩ | rfl := mem_hear he <;> rfl
      · obtain ⟨hlevel, hsample⟩ | hnone | hnew := hcases
        · exact .inl ⟨s, held, hlevel, hsample⟩
        · exact .inr (.inl hnone)
        · exact .inr (.inr hnew)
  | gaveUp =>
      exact h.put hlists le_rfl (fun _ => session?_put _ _ _ _) (by simp [Event.isReport])
        (.inr (.inl rfl))
  | @sent _ _ _ _ s held =>
      exact h.put hlists le_rfl (fun _ => session?_put _ _ _ _) (by simp [Event.isReport])
        (.inl ⟨s, held, rfl, rfl⟩)
  | @lost _ _ _ _ s held =>
      exact h.put hlists le_rfl (fun _ => session?_put _ _ _ _) (by simp) (.inl ⟨s, held, rfl, rfl⟩)
  | suspected =>
      refine h.quiet (readings_suspect _ _ _ _ _) (fun node s hs => by rwa [session?_suspect] at hs)
        fun e he => ?_
      obtain ⟨silence, rfl⟩ := mem_suspect he
      rfl
  | closed =>
      exact h.quiet rfl (fun _ _ hs => (held_of_drop hs).2) (by simp [Event.isReport])
  | reachable =>
      refine h.quiet rfl (fun _ _ hs => hs) fun e he => ?_
      obtain rfl := mem_reportRecovery he
      rfl
  | unreachable => exact h.quiet rfl (fun _ _ hs => hs) (by simp [reportError, Event.isReport])
  | @reported _ _ _ _ s held =>
      refine h.report hp hlists held rfl rfl fun hsome => ?_
      rw [headset, Session.level_battery] at hsome
      split at hsome
      · cases hsome
      · exact hsome
  | withheld => exact h.quiet rfl (fun _ _ hs => hs) (by simp [Event.isReport, headset,
      BatteryState.level])

theorem visit {d : Dongle Path} (x : Exchange Path) (hp : p.Single)
    (hlists : p.Lists d.node d.productId) (h : r.Ordered p tr) :
    (r.visit p d x).1.Ordered p (tr ++ (r.visit p d x).2) :=
  (visit_chain r p d x).keeps (Ordered p) (fun _ _ _ _ c hi => hi.change hp hlists c) tr h

/-- The scan hands the sessions that stay over to the next pass. -/
theorem scan {q : Pass Path} (h : r.Ordered p tr)
    (hstays : ∀ v ∈ p.listed, ∀ w ∈ q.listed, v.1.node = w.1.node →
      v.1.productId = w.1.productId) :
    (r.move (.scan q)).1.Ordered q (tr ++ (r.move (.scan q)).2) := by
  have hscan := (scan_chain r q).keeps (fun r' tr' => r'.Ordered p tr') ?_ tr h
  · refine ⟨fun node s hs => ?_, hscan.bounded, hscan.reports⟩
    obtain ⟨w, hw, hnode⟩ := (held_of_closeVanished hs).2
    obtain ⟨pid, ⟨v, hv, rfl, rfl⟩, hlevel⟩ := hscan.sessions node s hs
    exact ⟨v.1.productId, ⟨w, hw, hnode, (hstays v hv w hw hnode.symm).symm⟩, hlevel⟩
  · intro r₁ es r₂ tr₁ c hi
    cases c with
    | began => exact hi.quiet rfl (fun _ _ hs => hs) (by simp [Event.isReport])
    | closed => exact hi.quiet rfl (fun _ _ hs => (held_of_drop hs).2) (by simp [Event.isReport])

/-- A whole pass, after one that listed the same products on the same nodes. -/
theorem reconcile {q : Pass Path} (hq : q.Single) (h : r.Ordered p tr)
    (hstays : ∀ v ∈ p.listed, ∀ w ∈ q.listed, v.1.node = w.1.node →
      v.1.productId = w.1.productId) :
    (r.reconcile q).1.Ordered q (tr ++ (r.reconcile q).2) := by
  have hvisits : ∀ (visits : List (Dongle Path × Exchange Path)) (r : Reader Path)
      (tr : List (Event Path)), visits ⊆ q.listed → r.Ordered q tr →
      (Runs.exec move r (visits.map fun v => .visit q v.1 v.2)).1.Ordered q
        (tr ++ (Runs.exec move r (visits.map fun v => .visit q v.1 v.2)).2) := by
    intro visits
    induction visits with
    | nil => intro r tr _ hr; simpa using hr
    | cons v visits ih =>
        intro r tr hsub hr
        obtain ⟨hv, hsub⟩ := List.cons_subset.1 hsub
        have hnext := ih _ _ hsub (hr.visit v.2 hq ⟨v, hv, rfl, rfl⟩)
        rw [List.map_cons, Runs.exec_cons, ← List.append_assoc]
        exact hnext
  have hdone := hvisits q.listed _ _ (List.Subset.refl _) (h.scan hstays)
  rw [Reader.reconcile, Pass.moves, Runs.exec_cons, ← List.append_assoc]
  exact hdone

end Ordered

variable [ToString Path]

/-- In a tidy run the reports of a product never go back to an older message. -/
theorem reports_inOrder {passes : List (Pass Path)} (h : Tidy passes) :
    Everywhere Event.InOrder (run passes).2 := by
  have hrun : ∀ (passes : List (Pass Path)) (p : Pass Path) (r : Reader Path)
      (tr : List (Event Path)), Tidy (p :: passes) → r.Ordered p tr →
      Everywhere Event.InOrder (tr ++ (Runs.exec reconcile r passes).2) := by
    intro passes
    induction passes with
    | nil => intro p r tr _ hr; simpa using hr.reports
    | cons q passes ih =>
        intro p r tr htidy hr
        obtain ⟨hstays, hchain⟩ := List.isChain_cons_cons.1 htidy.stays
        have hrest : Tidy (q :: passes) :=
          ⟨fun p' hp' => htidy.products p' (List.mem_cons_of_mem _ hp'),
            fun p' hp' => htidy.nodes p' (List.mem_cons_of_mem _ hp'), hchain⟩
        have hdone := ih q _ _ hrest (hr.reconcile (hrest.single (by simp)) hstays)
        rw [Runs.exec_cons, ← List.append_assoc]
        exact hdone
  -- Before the first pass nothing is listed and nothing is open.
  refine hrun passes ⟨[], false, 0, 0, 0⟩ new [] ?_ ⟨by simp, ?_, everywhere_nil _⟩
  · exact ⟨by simpa using h.products, by simpa using h.nodes,
      List.isChain_cons.2 ⟨by simp, h.stays⟩⟩
  · rintro pid n ⟨_, _, _, he, -⟩
    cases he

theorem plain_of_mem (passes : List (Pass Path)) : ∀ e ∈ (run passes).2, e.Plain := by
  refine run_invariant (fun _ tr => ∀ e ∈ tr, e.Plain) (by simp)
    (fun start m r es r' tr c h e he => ?_) passes
  obtain he | he := List.mem_append.1 he
  · exact h e he
  · cases c with
    | heard => obtain ⟨m, -, rfl⟩ | rfl := mem_hear he <;> trivial
    | suspected =>
        obtain ⟨silence, rfl⟩ := mem_suspect he
        trivial
    | reachable =>
        obtain rfl := mem_reportRecovery he
        trivial
    | lost => cases he
    | @reported p d x _ s =>
        obtain rfl := List.mem_singleton.1 he
        refine ⟨?_, by simp⟩
        rw [headset, Session.battery]
        split
        · simp
        · split <;> simp
        · simp
    | withheld =>
        obtain rfl := List.mem_singleton.1 he
        exact ⟨by simp [headset], fun _ => rfl⟩
    | _ =>
        obtain rfl := List.mem_singleton.1 he
        trivial

/-- The level of a report is that of the battery message its sample numbers. -/
theorem isLevel_of_reported {passes : List (Pass Path)} {pre post : List (Event Path)}
    {node : Path} {link : Option Link} {h : Headset} {level : ℕ}
    (he : (run passes).2 = pre ++ .reported node link h :: post)
    (hlevel : h.battery.level = some level) :
    ∃ n, h.sample = some n ∧ IsLevel pre n level := by
  cases link with
  | none =>
      have hmem : .reported node none h ∈ (run passes).2 := by simp [he]
      obtain ⟨-, hnone⟩ := plain_of_mem passes _ hmem
      rw [hnone rfl] at hlevel
      cases hlevel
  | some link =>
      obtain ⟨hto, hfrom, -⟩ := settled_of_reported he
      obtain ⟨before, hlast⟩ := hto level hlevel
      obtain ⟨-, -, -, hsample⟩ := hfrom level before hlast
      obtain ⟨e, after, rfl, hsettles, -⟩ := hlast
      obtain ⟨pid, rfl⟩ := Event.eq_of_settles hsettles
      exact ⟨_, hsample, before, node, pid, after, rfl, rfl⟩

end Reader

end HeadsetBattery.Maxwell
