import HeadsetBattery.Headsetcontrol
import HeadsetBattery.Bridge.Custody

/-!
# Who the kernel thinks a device is

Batteries are matched across polls by a key that holds the USB IDs and the model
name, and registered with the kernel under an identifier that holds the IDs
alone. Live devices are therefore told apart by the kernel as long as no device
is created next to one of another model with the same IDs.
-/
namespace HeadsetBattery.Bridge

variable {Handle : Type}

/-- Applying this headset creates a device: it has no battery and offers a level,
nothing puts it off, there is a handle to be had and the kernel agrees. -/
structure Creates (b : Bridge Handle) (now : ℕ) (polled : Headset × Answers Handle) : Prop where
  absent : b.batteries.find? polled.1.key = none
  offers : polled.1.battery.offer.isSome
  due : (b.attachRetryAt polled.1.key).any (fun retryAt => now < retryAt) = false
  welcome : b.abandoned polled.1.key = false
  handle : b.uhid.spare ≠ [] ∨ b.uhid.mayOpen = true ∧ polled.2.opened.isOk
  created : polled.2.created.isOk
  registered : ∃ sysfs, polled.2.registered = .ok (some sysfs)

/-- No device is created next to one with the same USB IDs. -/
def Unclashing (now : ℕ) (b : Bridge Handle) (polled : Headset × Answers Handle) : Prop :=
  b.Creates now polled → ∀ key entry, b.batteries.find? key = some entry →
    ¬(entry.1.identity.vendor = polled.1.vendorId ∧ entry.1.identity.product = polled.1.productId)

/-- No headset of the tick clashes, in the state the ones before it left. -/
def NoClash (b : Bridge Handle) : Input Handle → Prop
  | .tick t => Runs.Along (applyOne t.now) (Unclashing t.now) (b.probed t) t.withBattery
  | .wait _ => True

theorem attachOn_isSome {handle : Handle} {h : Headset} {reading : Reading} {now : ℕ}
    {a : Answers Handle} {entry : Entry Handle}
    (hsome : (attachOn handle h reading now a).1 = some entry) :
    a.created.isOk ∧ ∃ sysfs, a.registered = .ok (some sysfs) := by
  unfold attachOn at hsome
  split at hsome
  · cases hsome
  · cases hsome
  next hcreated =>
    split at hsome
    next sysfs hregistered => exact ⟨by rw [hcreated]; rfl, sysfs, hregistered⟩
    · cases hsome
    · cases hsome

/-- Without a handle, or without the kernel agreeing, the batteries stay. -/
theorem attach_batteries (b : Bridge Handle) (h : Headset) (reading : Reading) (now : ℕ)
    (a : Answers Handle) :
    (b.attach h reading now a).1.batteries = b.batteries ∨
      (b.uhid.spare ≠ [] ∨ b.uhid.mayOpen = true ∧ a.opened.isOk) ∧ a.created.isOk ∧
        ∃ sysfs, a.registered = .ok (some sysfs) := by
  cases hgot : (b.uhid.acquire a.opened).2.2 with
  | error err => exact .inl (by simp only [attach, hgot])
  | ok handle =>
      have hhandle : b.uhid.spare ≠ [] ∨ b.uhid.mayOpen = true ∧ a.opened.isOk := by
        unfold DevicePool.acquire at hgot
        cases hlast : b.uhid.spare.getLast? with
        | some _ => exact .inl fun hnil => by simp [hnil] at hlast
        | none =>
            rw [hlast] at hgot
            cases hm : b.uhid.mayOpen with
            | true =>
                cases ho : a.opened with
                | ok _ => exact .inr ⟨rfl, rfl⟩
                | error _ => simp [hm, ho] at hgot
            | false => simp [hm] at hgot
      cases hattached : (attachOn handle h reading now a).1 with
      | none => exact .inl (by simp only [attach, hgot, hattached])
      | some entry => exact .inr ⟨hhandle, attachOn_isSome hattached⟩

/-- A new battery came of what `Creates` asks for. -/
theorem creates_of_apply {b : Bridge Handle} (hb : b.batteries.InStep) {now : ℕ}
    {polled : Headset × Answers Handle} (hk : b.batteries.find? polled.1.key = none)
    (hsome : (applyOne now b polled).1.batteries.find? polled.1.key ≠ none) :
    b.Creates now polled := by
  obtain ⟨reading, ho, he⟩ | ⟨-, he⟩ :=
    apply_absent_cases (hb.position_eq_none.2 hk) now polled.2
  · simp only [applyOne, he] at hsome
    unfold introduce at hsome
    split at hsome
    next => exact absurd hk hsome
    next hopen =>
      have hsame : (b.attach polled.1 reading now polled.2).1.batteries.find? polled.1.key ≠
          none := by
        dsimp only at hsome
        split at hsome <;> exact hsome
      simp only [Bool.or_eq_true, not_or, Bool.not_eq_true] at hopen
      obtain he | ⟨hhandle, hcreated, hregistered⟩ :=
        attach_batteries b polled.1 reading now polled.2
      · rw [he] at hsame
        exact absurd hk hsame
      · exact ⟨hk, by simp [ho], hopen.1, hopen.2, hhandle, hcreated, hregistered⟩
  · simp only [applyOne, he] at hsome
    exact absurd hk hsome

/-- Every device carries the identity of the headset its bookkeeping names, and no
two carry the same identifier. -/
structure Distinct (b : Bridge Handle) : Prop where
  inStep : b.batteries.InStep
  named : Every (fun entry => ∃ h, entry.1.identity = identityOf h ∧ entry.2.key = h.key) b
  uniq : ∀ key key' entry entry', b.batteries.find? key = some entry →
    b.batteries.find? key' = some entry' → entry.1.identity.uniq = entry'.1.identity.uniq →
    key = key'

namespace Distinct

variable {b b' : Bridge Handle}

/-- Batteries may go, as long as those that stay keep their identity. -/
theorem fewer (h : Distinct b) (hb' : b'.batteries.InStep)
    (hold : ∀ key entry', b'.batteries.find? key = some entry' → ∃ entry,
      b.batteries.find? key = some entry ∧ entry'.1.identity = entry.1.identity ∧
        entry'.2.key = entry.2.key) : Distinct b' where
  inStep := hb'
  named key entry' hentry' := by
    obtain ⟨entry, hentry, hidentity, hkey⟩ := hold key entry' hentry'
    rw [hidentity, hkey]
    exact h.named key entry hentry
  uniq key key' entry₁ entry₂ h₁ h₂ he := by
    obtain ⟨old₁, hold₁, hi₁, -⟩ := hold key entry₁ h₁
    obtain ⟨old₂, hold₂, hi₂, -⟩ := hold key' entry₂ h₂
    exact h.uniq key key' old₁ old₂ hold₁ hold₂ (by rw [← hi₁, ← hi₂, he])

/-- The battery that is touched goes, or keeps its identity. -/
theorem kept (h : Distinct b) {k : String} {left : Option (Entry Handle)}
    (htouches : Touches k left b b') (hleft : ∀ new, left = some new → ∃ entry,
      b.batteries.find? k = some entry ∧ new.1.identity = entry.1.identity ∧
        new.2.key = entry.2.key) : Distinct b' := by
  refine h.fewer htouches.inStep fun key entry' hentry' => ?_
  rw [htouches.find?] at hentry'
  split at hentry'
  next hkey => exact hkey ▸ hleft entry' hentry'
  next => exact ⟨entry', hentry', rfl, rfl⟩

/-- A new battery joins the others, which all have another identifier. -/
theorem joined (h : Distinct b) {k : String} {new : Entry Handle}
    (htouches : Touches k (some new) b b')
    (hnamed : ∃ h, new.1.identity = identityOf h ∧ new.2.key = h.key)
    (hapart : ∀ key entry, b.batteries.find? key = some entry →
      entry.1.identity.uniq ≠ new.1.identity.uniq) : Distinct b' where
  inStep := htouches.inStep
  named := h.named.touched htouches fun _ hleft => Option.some.inj hleft ▸ hnamed
  uniq key key' entry entry' hentry hentry' he := by
    rw [htouches.find?] at hentry hentry'
    split at hentry <;> split at hentry'
    next hkey hkey' => rw [hkey, hkey']
    next =>
      obtain rfl := Option.some.inj hentry
      exact absurd he.symm (hapart key' entry' hentry')
    next =>
      obtain rfl := Option.some.inj hentry'
      exact absurd he (hapart key entry hentry)
    next => exact h.uniq key key' entry entry' hentry hentry' he

theorem applyOne (h : Distinct b) {now : ℕ} {polled : Headset × Answers Handle}
    (hc : Unclashing now b polled) : Distinct (applyOne now b polled).1 := by
  obtain ⟨left, deeds, htouches, hbecomes, -⟩ := applyOne_spec h.inStep now polled
  cases hk : b.batteries.find? polled.1.key with
  | some before =>
      rw [hk] at hbecomes
      refine h.kept htouches fun new hnew => ?_
      subst hnew
      have hs := Entry.apply_survives (congrArg Prod.fst hbecomes)
      exact ⟨before, hk, hs.identity, hs.key⟩
  | none =>
      rw [hk] at hbecomes
      cases hbecomes with
      | nothing attempts => exact h.kept htouches fun new hnew => by cases hnew
      | @battery _ handle reading offered attempts created =>
          have hcreates : b.Creates now polled := by
            refine creates_of_apply h.inStep hk ?_
            rw [htouches.here]
            simp
          refine h.joined htouches ⟨polled.1, rfl, rfl⟩ fun key entry hentry he => ?_
          -- Whatever lives on was created for other IDs.
          obtain ⟨h', hidentity, -⟩ := h.named key entry hentry
          rw [hidentity] at he
          have hids := Headset.uniq_eq_iff.1 he
          exact hc hcreates key entry hentry (by rw [hidentity]; exact hids)

theorem polled (h : Distinct b) {t : Tick Handle} (hc : b.NoClash (.tick t)) :
    Distinct (b.polled t).1 := by
  obtain ⟨hbatteries, -, -⟩ := probed_batteries b t
  have hprobed : Distinct (b.probed t) := by
    refine h.fewer (probed_keeps h.inStep t).inStep fun key entry hentry => ?_
    exact ⟨entry, hbatteries ▸ hentry, rfl, rfl⟩
  have happlied := Runs.exec_invariant_along (fun b _ => Distinct b) hprobed
    (fun _ _ _ h hc => h.applyOne hc) t.withBattery hc
  refine happlied.fewer (noteAll_keeps happlied.inStep t.now).inStep fun key entry' hentry' => ?_
  rw [Bridge.polled, find?_noteAll] at hentry'
  obtain ⟨entry, hentry, rfl⟩ := Option.map_eq_some_iff.1 hentry'
  exact ⟨entry, hentry, rfl, rfl⟩

theorem step (h : Distinct b) (input : Input Handle) (hc : b.NoClash input) :
    Distinct (step b input).1 := by
  cases input with
  | tick t =>
      have hpolled := h.polled hc
      have hexpired := expire_spec hpolled.inStep t.now
      refine hpolled.fewer hexpired.inStep fun key entry hentry => ?_
      have hkept := (hexpired.find? key).symm.trans hentry
      exact ⟨entry, Option.eq_some_of_filter_eq_some hkept, rfl, rfl⟩
  | wait w =>
      refine Runs.exec_invariant (fun b _ => Distinct b) h (fun err st _ h => ?_) w.errors
      obtain he | ⟨entry, hentry, htouches, -⟩ := serve_spec h.inStep err
      · rw [he]
        exact h
      · refine h.fewer htouches.inStep fun key entry' hentry' => ?_
        rw [htouches.find?] at hentry'
        split at hentry'
        next hkey =>
          obtain ⟨failures, rfl, -⟩ := settle_eq_some hentry'
          exact ⟨entry, hkey ▸ hentry, rfl, rfl⟩
        next => exact ⟨entry', hentry', rfl, rfl⟩

end Distinct

theorem distinct_new (config : Config) (inherited : List Handle) :
    Distinct (new config inherited) where
  inStep := Batteries.inStep_empty
  named key entry hentry := by cases hentry
  uniq key key' entry entry' hentry := by cases hentry

/-- In a run in which no device is created next to one with the same USB IDs, any
two live devices have different identifiers. -/
theorem identities_distinct (config : Config) (inherited : List Handle)
    (inputs : List (Input Handle)) (hc : Runs.Along step NoClash (new config inherited) inputs)
    (i j : ℕ) (device device' : Battery Handle)
    (hi : (run config inherited inputs).1.batteries.devices[i]? = some device)
    (hj : (run config inherited inputs).1.batteries.devices[j]? = some device')
    (he : device.identity.uniq = device'.identity.uniq) : i = j := by
  have hrun : Distinct (run config inherited inputs).1 :=
    Runs.exec_invariant_along (fun b _ => Distinct b) (distinct_new config inherited)
      (fun _ _ _ h hc => h.step _ hc) inputs hc
  obtain ⟨battery, hbattery⟩ := hrun.inStep.pair?_of_device hi
  obtain ⟨battery', hbattery'⟩ := hrun.inStep.pair?_of_device hj
  have hkeys := hrun.uniq _ _ _ _ (hrun.inStep.find?_of_pair? hbattery)
    (hrun.inStep.find?_of_pair? hbattery') he
  exact hrun.inStep.index_eq hbattery hbattery' hkeys

/-- The headsets with a battery that are listed in a run. -/
def listed (inputs : List (Input Handle)) : List Headset :=
  inputs.flatMap fun
    | .tick t => t.withBattery.map Prod.fst
    | .wait _ => []

theorem mem_listed {inputs : List (Input Handle)} {t : Tick Handle} (ht : .tick t ∈ inputs)
    {polled : Headset × Answers Handle} (hp : polled ∈ t.withBattery) :
    polled.1 ∈ listed inputs :=
  List.mem_flatMap.2 ⟨.tick t, ht, List.mem_map_of_mem hp⟩

theorem stable_named (headsets : List Headset) :
    Stable fun entry : Entry Handle =>
      ∃ h ∈ headsets, entry.1.identity = identityOf h ∧ entry.2.key = h.key where
  survives h now entry left hs hq := by rwa [hs.identity, hs.key]
  noted now entry hq := hq
  settled entry failures hlt hq := hq

/-- As long as equal USB IDs come with equal names, nothing clashes. -/
theorem noClash_of_names (config : Config) (inherited : List Handle)
    {inputs : List (Input Handle)}
    (hn : ∀ h ∈ listed inputs, ∀ h' ∈ listed inputs, h.vendorId = h'.vendorId →
      h.productId = h'.productId → h.name = h'.name) :
    Runs.Along step NoClash (new config inherited) inputs := by
  rintro before input after rfl
  cases input with
  | wait w => trivial
  | tick t =>
      rintro earlier polled later hsplit hcreates key entry hentry ⟨hvendor, hproduct⟩
      have hall : .tick t ∈ before ++ .tick t :: after := by simp
      have hmem : polled ∈ t.withBattery := by simp [hsplit]
      have hstart : Every _ (run config inherited before).1 :=
        every_run (stable_named (listed (before ++ .tick t :: after)))
          fun t' ht' polled hp _ _ _ _ =>
            ⟨polled.1, mem_listed (List.mem_append_left _ ht') hp, rfl, rfl⟩
      have happlied : Every _ (Runs.exec (applyOne t.now)
          ((run config inherited before).1.probed t) earlier).1 :=
        every_applied (stable_named (listed (before ++ .tick t :: after)))
          (probed_keeps (run_keeps config inherited before).inStep t).inStep
          (fun polled hp _ _ _ _ =>
            ⟨polled.1, mem_listed hall (by simp [hsplit, hp]), rfl, rfl⟩) (hstart.probed t)
      obtain ⟨h', hlisted, hidentity, hkey⟩ := happlied key entry hentry
      rw [hidentity] at hvendor hproduct
      have hname := hn h' hlisted polled.1 (mem_listed hall hmem) hvendor hproduct
      have hsame : key = polled.1.key := by
        rw [← Batteries.key_of_find? hentry, hkey]
        exact Headset.key_eq_iff.2 ⟨hvendor, hproduct, hname⟩
      rw [hsame] at hentry
      exact absurd (hcreates.absent.symm.trans hentry) (by simp)

/-- Two models, one of them without USB IDs, side by side. -/
theorem identities_distinct_of_models :
    let config : Config := ⟨seconds 60, seconds 10, seconds 30, "/dev/uhid"⟩
    let answers : Answers ℕ := ⟨.error "unused", .ok (), .ok (some "hid-0"), .ok ()⟩
    let inputs : List (Input ℕ) := [.tick ⟨0, false, .ok
      [(⟨"Maxwell", "Audeze Maxwell", 0x3329, 0x4b18, true, .discharging 80, none⟩, answers),
        (⟨"G PRO", "Logitech", 0, 0, true, .charging (some 40), none⟩, answers)]⟩]
    (run config [1, 2] inputs).1.batteries.devices.map (fun device => device.identity.uniq) =
        ["headset-3329-4b18", "headset-0000-0000"] ∧
      ∀ (i j : ℕ) (device device' : Battery ℕ),
        (run config [1, 2] inputs).1.batteries.devices[i]? = some device →
        (run config [1, 2] inputs).1.batteries.devices[j]? = some device' →
        device.identity.uniq = device'.identity.uniq → i = j := by
  intro config answers inputs
  have hnames : ∀ h ∈ listed inputs, ∀ h' ∈ listed inputs, h.vendorId = h'.vendorId →
      h.productId = h'.productId → h.name = h'.name := by decide +kernel
  exact ⟨by decide +kernel,
    identities_distinct config [1, 2] inputs (noClash_of_names config [1, 2] hnames)⟩

/-- Two devices of one HeadsetControl report whose IDs do not parse: two keys, two
live devices, and one identifier. -/
theorem identities_clash_without_ids :
    let config : Config := ⟨seconds 60, seconds 10, seconds 30, "/dev/uhid"⟩
    let answers : Answers ℕ := ⟨.error "unused", .ok (), .ok (some "hid-0"), .ok ()⟩
    let device (model : String) : Headsetcontrol.Device :=
      ⟨model, model, "", "", ["CAP_BATTERY_STATUS"], some ⟨"BATTERY_AVAILABLE", 80⟩⟩
    let inputs : List (Input ℕ) := [.tick ⟨0, false, .ok
      [(Headsetcontrol.headset (device "G PRO"), answers),
        (Headsetcontrol.headset (device "Arctis 7"), answers)]⟩]
    (run config [1, 2] inputs).1.batteries.states.map VirtualBattery.key =
        ["0000:0000/G PRO", "0000:0000/Arctis 7"] ∧
      (run config [1, 2] inputs).1.batteries.devices.map (fun device => device.identity.uniq) =
        ["headset-0000-0000", "headset-0000-0000"] := by
  decide +kernel

end HeadsetBattery.Bridge
