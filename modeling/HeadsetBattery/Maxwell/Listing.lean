import HeadsetBattery.Maxwell.Changes

/-!
# The headsets of a pass

Every dongle listed gives one headset, whatever becomes of the visit, and nothing
else does.
-/
namespace HeadsetBattery.Maxwell.Reader

variable {Path : Type}

@[simp] theorem headsets_nil : headsets ([] : List (Event Path)) = [] := rfl

@[simp] theorem headsets_append (events events' : List (Event Path)) :
    headsets (events ++ events') = headsets events ++ headsets events' := List.filterMap_append

@[simp] theorem headsets_reported (node : Path) (link : Option Link) (h : Headset) :
    headsets [Event.reported node link h] = [h] := rfl

/-- A headset among those of a trace is in one of its reports. -/
theorem split_of_headsets {tr : List (Event Path)} {earlier later : List Headset} {h : Headset}
    (hh : headsets tr = earlier ++ h :: later) :
    ∃ pre node link post, tr = pre ++ .reported node link h :: post ∧ headsets pre = earlier := by
  obtain ⟨pre, rest, rfl, hpre, hrest⟩ := List.filterMap_eq_append_iff.1 hh
  obtain ⟨quiet, e, post, rfl, hquiet, he, -⟩ := List.filterMap_eq_cons_iff.1 hrest
  cases e with
  | reported node link headset =>
      obtain rfl := Option.some.inj he
      refine ⟨pre ++ quiet, node, link, post, by simp, ?_⟩
      have hnone : headsets quiet = [] := List.filterMap_eq_nil_iff.2 hquiet
      rw [headsets_append, hnone, List.append_nil]
      exact hpre
  | _ => cases he

/-- The key of the headset behind a dongle. -/
def keyOf (productId : UInt16) : String :=
  Headset.key ⟨"Audeze Maxwell", "", vendorId, productId, true, .unavailable, none⟩

theorem key_headset (d : Dongle Path) (battery : BatteryState) (sample : ℕ) :
    (headset d battery sample).key = keyOf d.productId := rfl

theorem keyOf_injective : Function.Injective keyOf :=
  fun _ _ h => (Headset.key_eq_iff.1 h).2.1

variable [LinearOrder Path]

theorem headsets_listenTo (r : Reader Path) (p : Pass Path) (d : Dongle Path) (x : Exchange Path) :
    headsets (r.listenTo p d x).2.1 = [] := by
  refine List.filterMap_eq_nil_iff.2 fun e he => ?_
  have hlistening := isListening_of_mem e he
  cases e with
  | reported node link h => cases hlistening
  | _ => rfl

@[simp] theorem headsets_close (r : Reader Path) (node : Path) :
    headsets (r.close node).2 = [] := by
  unfold close
  split <;> rfl

theorem headsets_closeVanished (r : Reader Path) (p : Pass Path) :
    headsets (r.closeVanished p).2 = [] := by
  unfold closeVanished
  generalize r.sessions.entries.map Prod.fst = nodes
  induction nodes generalizing r with
  | nil => rfl
  | cons node nodes ih =>
      rw [Runs.exec_cons, headsets_append, ih]
      split <;> simp

variable [ToString Path]

/-- A visit gives one headset, that of the dongle. -/
theorem headsets_visit (r : Reader Path) (p : Pass Path) (d : Dongle Path) (x : Exchange Path) :
    ∃ battery sample, headsets (r.visit p d x).2 = [headset d battery sample] := by
  have hlistened := headsets_listenTo r p d x
  unfold visit
  cases hl : (r.listenTo p d x).2.2 with
  | ok s =>
      have hrecovered : headsets (r.listenTo p d x).1.reportRecovery.2 = [] := by
        unfold reportRecovery
        split <;> rfl
      exact ⟨s.battery p.wired, s.sample, by simp [hl, hlistened, hrecovered]⟩
  | error err =>
      have hclosed : headsets (if err.gone then (r.listenTo p d x).1.close d.node
          else ((r.listenTo p d x).1, [])).2 = [] := by
        split <;> simp
      have hfailed (r : Reader Path) : headsets (r.reportError d.node err x.failedAt).2 = [] := rfl
      exact ⟨.unavailable, 0, by simp [hl, hlistened, hclosed, hfailed]⟩

/-- A pass gives a headset for every dongle listed, in that order. -/
theorem headsets_reconcile (r : Reader Path) (p : Pass Path) :
    List.Forall₂ (fun v h => ∃ battery sample, h = headset v.1 battery sample) p.listed
      (headsets (r.reconcile p).2) := by
  have hvisits : ∀ (visits : List (Dongle Path × Exchange Path)) (r : Reader Path),
      List.Forall₂ (fun v h => ∃ battery sample, h = headset v.1 battery sample) visits
        (headsets (Runs.exec move r (visits.map fun v => .visit p v.1 v.2)).2) := by
    intro visits
    induction visits with
    | nil => exact fun r => .nil
    | cons v visits ih =>
        intro r
        obtain ⟨battery, sample, hone⟩ := headsets_visit r p v.1 v.2
        have hmove : headsets (r.move (.visit p v.1 v.2)).2 = [headset v.1 battery sample] := hone
        rw [List.map_cons, Runs.exec_cons, headsets_append, hmove]
        exact .cons ⟨battery, sample, rfl⟩ (ih _)
  have hscan : headsets (r.move (.scan p)).2 = [] := headsets_closeVanished r p
  rw [reconcile, Pass.moves, Runs.exec_cons, headsets_append, hscan, List.nil_append]
  exact hvisits p.listed _

theorem supports_of_mem_headsets {r : Reader Path} {p : Pass Path} :
    ∀ h ∈ headsets (r.reconcile p).2, h.supportsBattery = true := by
  have hall := headsets_reconcile r p
  generalize p.listed = listed, headsets (r.reconcile p).2 = headsets at hall
  induction hall with
  | nil => simp
  | cons hone _ ih =>
      obtain ⟨battery, sample, rfl⟩ := hone
      exact List.forall_mem_cons.2 ⟨rfl, ih⟩

theorem keys_reconcile (r : Reader Path) (p : Pass Path) :
    (headsets (r.reconcile p).2).map Headset.key = p.listed.map fun v => keyOf v.1.productId := by
  have hall := headsets_reconcile r p
  generalize p.listed = listed, headsets (r.reconcile p).2 = headsets at hall
  induction hall with
  | nil => rfl
  | cons hone _ ih =>
      obtain ⟨battery, sample, rfl⟩ := hone
      rw [List.map_cons, List.map_cons, ih, key_headset]

/-- Where each product is listed once, no two headsets of a pass share a key. -/
theorem keys_nodup (r : Reader Path) {p : Pass Path}
    (hp : (p.listed.map fun v => v.1.productId).Nodup) :
    ((headsets (r.reconcile p).2).map Headset.key).Nodup := by
  rw [keys_reconcile, ← Function.comp_def keyOf, ← List.map_map]
  exact hp.map keyOf_injective

end HeadsetBattery.Maxwell.Reader
