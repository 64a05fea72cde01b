import HeadsetBattery.Library.Projections
import HeadsetBattery.Bridge.Turns

/-!
# One headset, on its own

What the bridge keeps about one headset is its battery, if it has one, and the
records that hold off the creation of the next. A machine for that much takes in
what concerns the headset and nothing else, and the bridge, seen at one key, is a
run of it: the other headsets, and the indices they are found at, do not show.
-/
namespace HeadsetBattery.Bridge

variable {Handle : Type}

/-! ## The machine of one headset -/

/-- What the bridge keeps about one headset. -/
structure Slot (Handle : Type) where
  entry : Option (Entry Handle)
  retryAt : Option ℕ
  abandoned : Bool

deriving instance DecidableEq for Answers

/-- What concerns one headset: it is listed, with the handle there is for a new
device; the poll it may not be in ends; its battery is judged; its device cannot
be serviced. -/
inductive Concern (Handle : Type) where
  | listed (now : ℕ) (h : Headset) (got : Option Handle) (a : Answers Handle)
  | noted (now : ℕ)
  | judged (now : ℕ)
  | served (now : ℕ)
  deriving DecidableEq

def Concern.now : Concern Handle → ℕ
  | listed now _ _ _ | noted now | judged now | served now => now

namespace Slot

def empty : Slot Handle := ⟨none, none, false⟩

/-- The creation of a device is held off, or given up. -/
def barred (s : Slot Handle) (now : ℕ) : Bool :=
  s.retryAt.any (fun retryAt => now < retryAt) || s.abandoned

/-- A creation that may be tried again later. -/
def retryLater (s : Slot Handle) (now : ℕ) : Slot Handle :=
  { s with retryAt := some (now + attachRetry) }

/-- A device is to be created for a headset without one. -/
def attempt (s : Slot Handle) (h : Headset) (reading : Reading) (now : ℕ) (got : Option Handle)
    (a : Answers Handle) : Slot Handle × List Deed :=
  match got with
  | none => (s.retryLater now, [.attachFailed false])
  | some handle =>
      let attached := attachOn handle h reading now a
      match attached.2.2 with
      | .ok _ => (⟨attached.1, none, s.abandoned⟩, attached.2.1)
      | .error (.retry _) => (s.retryLater now, attached.2.1 ++ [.attachFailed false])
      | .error (.giveUp _) =>
          ({ s with abandoned := true }, attached.2.1 ++ [.attachFailed true])

/-- What became of the battery; one that had to be destroyed is not replaced at
once. -/
def keep (s : Slot Handle) (now : ℕ) (kept : Option (Entry Handle) × List Deed) :
    Slot Handle × List Deed :=
  if .removed .broken ∈ kept.2 then ({ s.retryLater now with entry := kept.1 }, kept.2)
  else ({ s with entry := kept.1 }, kept.2)

/-- What a concern makes of the slot of a headset. -/
def take (config : Config) (s : Slot Handle) : Concern Handle → Slot Handle × List Deed
  | .listed now h got a =>
      match s.entry with
      | some entry => s.keep now (entry.apply h now a)
      | none =>
          match h.battery.offer with
          | none => (s, [])
          | some reading => if s.barred now then (s, []) else s.attempt h reading now got a
  | .noted now =>
      ({ s with entry := s.entry.map fun entry => (entry.1, noteClocks now entry.2) }, [])
  | .judged now =>
      match s.entry.bind fun entry => (outlived config entry.2 now).cause with
      | none => (s, [])
      | some cause => ({ s with entry := none }, [.removed cause])
  | .served now =>
      match s.entry with
      | none => (s, [])
      | some entry => s.keep now (entry.settle false)

/-- The same, with what is done stamped. -/
def step (config : Config) (key : String) (s : Slot Handle) (c : Concern Handle) :
    Slot Handle × List Event :=
  ((s.take config c).1, stamp key c.now (s.take config c).2)

end Slot

/-! ## What concerns one headset in a run of the bridge -/

/-- What the bridge keeps about the headset with this key. -/
def slot (b : Bridge Handle) (key : String) : Slot Handle :=
  ⟨b.batteries.find? key, b.attachRetryAt key, b.abandoned key⟩

/-- What of a move concerns the headset with this key. -/
def concern (key : String) (b : Bridge Handle) : Move Handle → Option (Concern Handle)
  | .probe _ => none
  | .apply now (h, a) =>
      if h.key = key then some (.listed now h (b.uhid.acquire a.opened).2.2.toOption a) else none
  | .note now => some (.noted now)
  | .expire now => some (.judged now)
  | .serve err =>
      match b.batteries.pair? err.index with
      | none => none
      | some (_, battery) => if battery.key = key then some (.served err.now) else none

/-- The events of one headset. Whether the node has to be opened for it depends on
the pool, which all share. -/
def Event.isOwn (key : String) (e : Event) : Bool := e.key = key && e.deed ≠ .opensNode

/-- The events of one headset, in their order. -/
def own (key : String) (events : List Event) : List Event := events.filter (Event.isOwn key)

/-! ## The records of the bridge -/

section Records

variable {b b' : Bridge Handle} {key : String} {index : ℕ} {entry : Entry Handle}

theorem slot_eq_update {left : Option (Entry Handle)} {retryAt : Option ℕ} {abandoned : Bool}
    (hfind : ∀ key', b'.batteries.find? key' = if key' = key then left else b.batteries.find? key')
    (hretry : b'.attachRetryAt = Function.update b.attachRetryAt key retryAt)
    (habandoned : b'.abandoned = Function.update b.abandoned key abandoned) :
    b'.slot = Function.update b.slot key ⟨left, retryAt, abandoned⟩ := by
  funext key'
  by_cases hkey : key' = key
  · subst hkey
    simp [slot, hfind, hretry, habandoned]
  · simp [slot, hfind, hretry, habandoned, hkey]

/-- A change to the batteries alone. -/
theorem slot_eq_update_entry {left : Option (Entry Handle)}
    (hfind : ∀ key', b'.batteries.find? key' = if key' = key then left else b.batteries.find? key')
    (hretry : b'.attachRetryAt = b.attachRetryAt) (habandoned : b'.abandoned = b.abandoned) :
    b'.slot = Function.update b.slot key { b.slot key with entry := left } :=
  slot_eq_update hfind (by rw [hretry, slot, Function.update_eq_self])
    (by rw [habandoned, slot, Function.update_eq_self])

theorem outcome_slot (hb : b.batteries.InStep) (hi : b.batteries.pair? index = some entry)
    (result : Except (List String) Unit) (now : ℕ) :
    (b.outcome index result now).1.slot = Function.update b.slot entry.2.key
      ((b.slot entry.2.key).keep now (entry.settle result.isOk)).1 := by
  obtain ⟨htouches, -⟩ := outcome_spec hb hi result now
  have hfind := htouches.find?
  simp only [outcome, hi, Entry.settle, Slot.keep] at hfind ⊢
  split at hfind <;> rename_i hok
  · simp only [if_pos hok]
    exact slot_eq_update_entry hfind rfl rfl
  · simp only [if_neg hok]
    split at hfind <;> rename_i hfew
    · simp only [if_pos hfew]
      exact slot_eq_update_entry hfind rfl rfl
    · simp only [if_neg hfew]
      exact slot_eq_update hfind rfl (by simp [slot, withdraw, Slot.retryLater])

/-! ### A battery that is there -/

@[simp] theorem Slot.keep_deeds (s : Slot Handle) (now : ℕ)
    (kept : Option (Entry Handle) × List Deed) : (s.keep now kept).2 = kept.2 := by
  unfold Slot.keep
  split <;> rfl

/-- What was there before does not matter for what is kept. -/
@[simp] theorem Slot.keep_entry (s : Slot Handle) (now : ℕ) (entry : Option (Entry Handle))
    (kept : Option (Entry Handle) × List Deed) :
    ({ s with entry := entry } : Slot Handle).keep now kept = s.keep now kept := rfl

theorem Slot.keep_of_not_mem (s : Slot Handle) (now : ℕ)
    {kept : Option (Entry Handle) × List Deed} (h : .removed .broken ∉ kept.2) :
    s.keep now kept = ({ s with entry := kept.1 }, kept.2) := if_neg h

/-- Deeds before those of a device that was talked to. -/
theorem Slot.keep_append (s : Slot Handle) (now : ℕ) (left : Option (Entry Handle))
    {deeds : List Deed} (deeds' : List Deed) (h : .removed .broken ∉ deeds) :
    (s.keep now (left, deeds ++ deeds')).1 = (s.keep now (left, deeds')).1 := by
  simp only [Slot.keep, List.mem_append, h, false_or]
  split <;> rfl

theorem not_removed_of_refresh (device : Battery Handle) (battery : VirtualBattery)
    (reading : Reading) (sample : Option ℕ) (now : ℕ) (updated : Except String Unit)
    (cause : Cause) :
    .removed cause ∉ (refresh device battery reading sample now updated).2.1 := by
  obtain ⟨tail, he, hpushes⟩ := refresh_deeds device battery reading sample now updated
  rw [he, List.mem_cons, not_or]
  constructor
  · rw [vetted_eq]
    intro hd
    cases hv : vet device.reading reading (secondOpinion battery.deferred battery.deferredSample
      sample) <;> rw [hv] at hd <;> cases hd
  · intro hd
    obtain ⟨shown, ok, he⟩ := hpushes _ hd
    cases he

theorem present_slot (hb : b.batteries.InStep) (hi : b.batteries.pair? index = some entry)
    (h : Headset) (reading : Reading) (now : ℕ) (a : Answers Handle) :
    (b.present (some index) h reading now a).1.slot = Function.update b.slot entry.2.key
      ((b.slot entry.2.key).keep now (entry.answer reading h.sample now a.updated)).1 := by
  obtain ⟨hkey, hhandle⟩ := refresh_identity entry.1 entry.2 reading h.sample now a.updated
  have hquiet := not_removed_of_refresh entry.1 entry.2 reading h.sample now a.updated
    .broken
  have hset := touches_setPair _ hb hi hkey hhandle
  have hpair := Batteries.pair?_setPair
    (refresh entry.1 entry.2 reading h.sample now a.updated).1 hi
  have hslot := slot_eq_update_entry hset.find? rfl rfl
  simp only [present, hi, Option.bind_some, Option.map_some, Entry.answer]
  cases hpushed : (refresh entry.1 entry.2 reading h.sample now a.updated).2.2 with
  | none =>
      rw [Slot.keep_of_not_mem _ now hquiet]
      exact hslot
  | some pushed =>
      have houtcome := outcome_slot hset.inStep hpair pushed now
      rw [hkey, hslot] at houtcome
      rw [Slot.keep_append _ now _ _ hquiet]
      simpa using houtcome

theorem switchOff_slot (hb : b.batteries.InStep) (hi : b.batteries.pair? index = some entry)
    (now : ℕ) :
    (b.switchOff (some index) now).1.slot = Function.update b.slot entry.2.key
      ((b.slot entry.2.key).keep now (entry.leave now)).1 := by
  obtain ⟨htouches, -⟩ := switchOff_spec hb hi now
  have hfind := htouches.find?
  simp only [switchOff, hi, Option.bind_some, Option.map_some, Entry.leave] at hfind ⊢
  split at hfind <;> rename_i hheld
  · simp only [if_pos hheld]
    exact slot_eq_update_entry hfind rfl rfl
  · simp only [if_neg hheld]
    exact slot_eq_update_entry hfind rfl rfl

/-- Listing a headset with a battery: being seen comes first, whatever it says. -/
theorem apply_slot_live (hb : b.batteries.InStep) {h : Headset}
    (hposition : b.batteries.position h.key = some index)
    (hi : b.batteries.pair? index = some entry) (hk : b.batteries.find? h.key = some entry)
    (now : ℕ) (a : Answers Handle) :
    (b.apply h now a).1.slot = Function.update b.slot h.key
      ((b.slot h.key).keep now (entry.apply h now a)).1 := by
  have hseen := touches_setPair (entry.see now) hb hi rfl rfl
  have hi' := Batteries.pair?_setPair (entry.see now) hi
  have hslot := slot_eq_update_entry hseen.find? rfl rfl
  rw [← Batteries.key_of_find? hk]
  obtain ⟨reading, hr, he⟩ | ⟨hstate, he⟩ | ⟨hstate, he⟩ := apply_live_cases hposition hi now a
  · have hpresent := present_slot hseen.inStep hi' h reading now a
    rw [hslot] at hpresent
    rw [he]
    simpa [Entry.apply, hr, Entry.see] using hpresent
  · rw [he, Slot.keep_of_not_mem _ now (by simp [Entry.apply, hstate, BatteryState.reading])]
    simpa [Entry.apply, hstate, BatteryState.reading] using hslot
  · have hleft := switchOff_slot hseen.inStep hi' now
    rw [hslot] at hleft
    rw [he]
    simpa [Entry.apply, hstate, BatteryState.reading, Entry.see] using hleft

/-! ### A headset without a battery -/

/-- The deeds that are about the headset alone. -/
def ownDeeds (deeds : List Deed) : List Deed := deeds.filter (· ≠ .opensNode)

theorem ownDeeds_append (deeds deeds' : List Deed) :
    ownDeeds (deeds ++ deeds') = ownDeeds deeds ++ ownDeeds deeds' := List.filter_append ..

theorem ownDeeds_acquire (pool : DevicePool Handle) (opened : Except String Handle) :
    ownDeeds (pool.acquire opened).2.1 = [] := by
  unfold DevicePool.acquire
  repeat' split
  all_goals rfl

theorem attachOn_own (handle : Handle) (h : Headset) (reading : Reading) (now : ℕ)
    (a : Answers Handle) :
    ownDeeds (attachOn handle h reading now a).2.1 = (attachOn handle h reading now a).2.1 := by
  unfold attachOn
  repeat' split
  all_goals rfl

theorem introduce_slot (hb : b.batteries.InStep) {h : Headset}
    (hk : b.batteries.find? h.key = none) (reading : Reading) (now : ℕ) (a : Answers Handle) :
    (b.introduce h reading now a).1.slot = Function.update b.slot h.key
        (if (b.slot h.key).barred now then b.slot h.key
          else ((b.slot h.key).attempt h reading now (b.uhid.acquire a.opened).2.2.toOption a).1) ∧
      ownDeeds (b.introduce h reading now a).2.1 =
        if (b.slot h.key).barred now then []
          else
            ((b.slot h.key).attempt h reading now (b.uhid.acquire a.opened).2.2.toOption a).2 := by
  unfold introduce
  by_cases hbarred : (b.slot h.key).barred now
  · have hpending : ((b.attachRetryAt h.key).any (fun retryAt => now < retryAt) ||
        b.abandoned h.key) = true := hbarred
    simp [hbarred, hpending, ownDeeds]
  · have hpending : ¬((b.attachRetryAt h.key).any (fun retryAt => now < retryAt) ||
        b.abandoned h.key) = true := hbarred
    have hpool := ownDeeds_acquire b.uhid a.opened
    simp only [if_neg hbarred, if_neg hpending, attach, Slot.attempt]
    have idle : ∀ key', b.batteries.find? key' =
        if key' = h.key then none else b.batteries.find? key' := by
      intro key'
      split
      next hkey => rw [hkey, hk]
      next => rfl
    cases hgot : (b.uhid.acquire a.opened).2.2 with
    | error err =>
        refine ⟨?_, by rw [ownDeeds_append, hpool]; rfl⟩
        simp only [Except.toOption, Slot.retryLater, slot, hk]
        exact slot_eq_update idle rfl (Function.update_eq_self _ _).symm
    | ok handle =>
        have hown := attachOn_own handle h reading now a
        obtain ⟨deeds, -, ⟨hattached, -⟩ | ⟨failure, hattached⟩⟩ :=
          attachOn_spec b.uhid.mayOpen handle h reading now a
        · rw [hattached] at hown
          simp only [hattached, Except.toOption]
          refine ⟨?_, by rw [ownDeeds_append, hpool, hown]; rfl⟩
          exact slot_eq_update (hb.find?_push hk) rfl (Function.update_eq_self _ _).symm
        · rw [hattached] at hown
          simp only [hattached, Except.toOption]
          cases failure with
          | retry err =>
              refine ⟨?_, by rw [ownDeeds_append, ownDeeds_append, hpool, hown]; rfl⟩
              simp only [Slot.retryLater, slot, hk]
              exact slot_eq_update idle rfl (Function.update_eq_self _ _).symm
          | giveUp err =>
              refine ⟨?_, by rw [ownDeeds_append, ownDeeds_append, hpool, hown]; rfl⟩
              simp only [slot, hk]
              exact slot_eq_update idle (Function.update_eq_self _ _).symm rfl

/-! ### A headset that is listed -/

theorem ownDeeds_of_upkeep {deeds : List Deed} (h : ∀ d ∈ deeds, d.isUpkeep) :
    ownDeeds deeds = deeds := by
  refine List.filter_eq_self.2 fun d hd => ?_
  have hupkeep := h d hd
  cases d <;> first | rfl | cases hupkeep

/-- Listing a headset does to its slot what its machine does, and nothing to the
others. -/
theorem apply_slot (hb : b.batteries.InStep) (h : Headset) (now : ℕ) (a : Answers Handle)
    (config : Config) :
    (b.apply h now a).1.slot = Function.update b.slot h.key ((b.slot h.key).take config
        (.listed now h (b.uhid.acquire a.opened).2.2.toOption a)).1 ∧
      ownDeeds (b.apply h now a).2.1 = ((b.slot h.key).take config
        (.listed now h (b.uhid.acquire a.opened).2.2.toOption a)).2 := by
  cases hposition : b.batteries.position h.key with
  | some index =>
      obtain ⟨entry, hi, hk⟩ := hb.pair?_of_position hposition
      have hentry : (b.slot h.key).entry = some entry := hk
      obtain ⟨left, -, hdeeds⟩ := apply_spec_live hb hposition hi hk now a
      simp only [Slot.take, hentry, Slot.keep_deeds]
      refine ⟨apply_slot_live hb hposition hi hk now a, ?_⟩
      rw [show (b.apply h now a).2.1 = (entry.apply h now a).2 by rw [hdeeds],
        ownDeeds_of_upkeep (apply_upkeep entry h now a)]
  | none =>
      have hk := hb.position_eq_none.1 hposition
      have hentry : (b.slot h.key).entry = none := hk
      obtain ⟨reading, ho, he⟩ | ⟨ho, he⟩ := apply_absent_cases hposition now a
      · obtain ⟨hslot, hdeeds⟩ := introduce_slot hb hk reading now a
        rw [he, hslot, hdeeds]
        simp only [Slot.take, hentry, ho]
        split <;> exact ⟨rfl, rfl⟩
      · rw [he]
        simp only [Slot.take, hentry, ho]
        exact ⟨(Function.update_eq_self _ _).symm, rfl⟩

/-! ### All batteries at once -/

/-- Only batteries that are there are withdrawn. -/
theorem live_of_mem_expireFrom (now fuel : ℕ) : ∀ (index : ℕ) (b : Bridge Handle),
    b.batteries.InStep → ∀ e ∈ (expireFrom now fuel index b).2,
      ∃ entry, b.batteries.find? e.key = some entry := by
  induction fuel with
  | zero =>
      intro index b _ e he
      cases he
  | succ fuel ih =>
      intro index b hb e he
      simp only [expireFrom] at he
      cases hi : b.batteries.pair? index with
      | none => simp [hi] at he
      | some entry =>
          have hwithdraw := touches_withdraw hb hi
          have withdrawn (cause : Cause) (he : e ∈ ⟨entry.2.key, now, .removed cause⟩ ::
              (expireFrom now fuel index (b.withdraw index entry.1)).2) :
              ∃ entry, b.batteries.find? e.key = some entry := by
            obtain rfl | he := List.mem_cons.1 he
            · exact ⟨entry, hb.find?_of_pair? hi⟩
            · obtain ⟨other, hother⟩ := ih index _ hwithdraw.inStep e he
              rw [hwithdraw.find?] at hother
              split at hother
              · cases hother
              · exact ⟨other, hother⟩
          simp only [hi] at he
          cases hverdict : outlived b.config entry.2 now with
          | keep =>
              simp only [hverdict] at he
              exact ih _ b hb e he
          | silent =>
              simp only [hverdict] at he
              exact withdrawn .silent he
          | missing =>
              simp only [hverdict] at he
              exact withdrawn .missing he

/-- No battery is withdrawn twice. -/
theorem nodup_expireFrom (now fuel : ℕ) : ∀ (index : ℕ) (b : Bridge Handle),
    b.batteries.InStep → ((expireFrom now fuel index b).2.map Event.key).Nodup := by
  induction fuel with
  | zero => exact fun _ _ _ => List.nodup_nil
  | succ fuel ih =>
      intro index b hb
      simp only [expireFrom]
      cases hi : b.batteries.pair? index with
      | none => exact List.nodup_nil
      | some entry =>
          have hwithdraw := touches_withdraw hb hi
          have withdrawn : (entry.2.key ::
              (expireFrom now fuel index (b.withdraw index entry.1)).2.map Event.key).Nodup := by
            refine List.nodup_cons.2 ⟨fun hmem => ?_, ih index _ hwithdraw.inStep⟩
            obtain ⟨e, he, hkey⟩ := List.mem_map.1 hmem
            obtain ⟨other, hother⟩ := live_of_mem_expireFrom now fuel index _ hwithdraw.inStep e he
            rw [hkey, hwithdraw.here] at hother
            cases hother
          simp only
          cases outlived b.config entry.2 now with
          | keep => exact ih _ b hb
          | silent => exact withdrawn
          | missing => exact withdrawn

theorem own_eq_filterMap (key : String) (events : List Event) :
    own key events = events.filterMap (Option.guard (Event.isOwn key)) :=
  (congrFun List.filterMap_eq_filter events).symm

theorem own_stamp (key : String) (now : ℕ) (deeds : List Deed) :
    own key (stamp key now deeds) = stamp key now (ownDeeds deeds) := by
  rw [own, stamp, List.filter_map, stamp, ownDeeds]
  congr 2
  funext d
  simp [Event.isOwn]

theorem own_stamp_ne {key key' : String} (hk : key' ≠ key) (now : ℕ) (deeds : List Deed) :
    own key (stamp key' now deeds) = [] := by
  refine List.filter_eq_nil_iff.2 fun e he => ?_
  obtain ⟨d, -, rfl⟩ := List.mem_map.1 he
  simp [Event.isOwn, hk]

theorem expireFrom_records (now fuel index : ℕ) (b : Bridge Handle) :
    (expireFrom now fuel index b).1.attachRetryAt = b.attachRetryAt ∧
      (expireFrom now fuel index b).1.abandoned = b.abandoned := by
  induction fuel generalizing index b with
  | zero => exact ⟨rfl, rfl⟩
  | succ fuel ih =>
      simp only [expireFrom]
      split
      · exact ⟨rfl, rfl⟩
      · split
        · exact ih _ b
        · exact ih _ (b.withdraw index _)
        · exact ih _ (b.withdraw index _)

theorem Withdrawal.cause_eq_none {verdict : Withdrawal} :
    verdict.cause = none ↔ verdict = .keep := by
  cases verdict <;> simp [Withdrawal.cause]

/-- Judging the batteries judges each of them on its own. -/
theorem expire_slot (hb : b.batteries.InStep) (now : ℕ) (key : String) :
    (b.expire now).1.slot key = ((b.slot key).take b.config (.judged now)).1 ∧
      own key (b.expire now).2 = stamp key now ((b.slot key).take b.config (.judged now)).2 := by
  have hexpired := expire_spec hb now
  obtain ⟨hretry, habandoned⟩ : (b.expire now).1.attachRetryAt = b.attachRetryAt ∧
      (b.expire now).1.abandoned = b.abandoned := expireFrom_records now _ 0 b
  have hnodup : ((b.expire now).2.map Event.key).Nodup := nodup_expireFrom now _ 0 b hb
  have hown : own key (b.expire now).2 =
      (KeyedList.lookup Event.key (b.expire now).2 key).toList := by
    rw [← KeyedList.filter_eq_lookup hnodup, own]
    refine List.filter_congr fun e he => ?_
    obtain ⟨entry, cause, -, -, rfl⟩ := (hexpired.events e).1 he
    simp [Event.isOwn]
  have hslot : (b.expire now).1.slot key = { b.slot key with
      entry := (b.slot key).entry.filter fun entry => outlived b.config entry.2 now = .keep } := by
    rw [slot, hexpired.find?, hretry, habandoned]
    rfl
  rw [hown, hslot]
  simp only [Slot.take]
  cases hcause : (b.slot key).entry.bind fun entry => (outlived b.config entry.2 now).cause with
  | none =>
      have hnone : KeyedList.lookup Event.key (b.expire now).2 key = none := by
        refine KeyedList.lookup_eq_none.2 fun e he hkey => ?_
        obtain ⟨entry, cause, hlive, hremoved, rfl⟩ := (hexpired.events e).1 he
        subst hkey
        rw [slot, hlive, Option.bind_some, hremoved] at hcause
        cases hcause
      rw [hnone]
      refine ⟨?_, rfl⟩
      generalize b.slot key = s at hcause ⊢
      obtain ⟨entry, retryAt, abandoned⟩ := s
      cases entry with
      | none => rfl
      | some entry =>
          have hkeep : outlived b.config entry.2 now = .keep := Withdrawal.cause_eq_none.1 hcause
          simp [hkeep]
  | some cause =>
      obtain ⟨entry, hentry, hremoved⟩ := Option.bind_eq_some_iff.1 hcause
      have hkey : entry.2.key = key := Batteries.key_of_find? hentry
      have hsome : KeyedList.lookup Event.key (b.expire now).2 key =
          some ⟨key, now, .removed cause⟩ := by
        refine (KeyedList.lookup_eq_some hnodup).2 ⟨(hexpired.events _).2 ?_, rfl⟩
        exact ⟨entry, cause, hkey ▸ hentry, hremoved, by rw [hkey]⟩
      have hgone : outlived b.config entry.2 now ≠ .keep := by
        intro hkeep
        rw [hkeep] at hremoved
        cases hremoved
      rw [hsome]
      exact ⟨by simp [hentry, hgone], rfl⟩

/-- A failure of servicing is one of the battery it happened to. -/
theorem serve_slot (hb : b.batteries.InStep) (err : ServeError) (config : Config) (key : String) :
    Projections.Follows (Slot.step config key) (b.slot key) (b.concern key (.serve err))
      ((serve b err).1.slot key) (own key (serve b err).2) := by
  cases hi : b.batteries.pair? err.index with
  | none =>
      simp only [concern, serve, hi]
      exact ⟨rfl, rfl⟩
  | some entry =>
      have hslot := outcome_slot hb hi
        (.error ["servicing the virtual device of " ++ entry.2.name, err.source]) err.now
      obtain ⟨-, hdeeds⟩ := outcome_spec hb hi
        (.error ["servicing the virtual device of " ++ entry.2.name, err.source]) err.now
      have hentry : (b.slot entry.2.key).entry = some entry := hb.find?_of_pair? hi
      simp only [concern, serve, hi, hslot, hdeeds]
      by_cases hkey : entry.2.key = key
      · subst hkey
        rw [if_pos rfl, Function.update_self, own_stamp,
          ownDeeds_of_upkeep (settle_upkeep entry _)]
        simp [Projections.Follows, Slot.step, Slot.take, hentry, Concern.now, Except.isOk,
          Except.toBool]
      · rw [if_neg hkey, Function.update_of_ne (Ne.symm hkey), own_stamp_ne hkey]
        exact ⟨rfl, rfl⟩

theorem probed_records (b : Bridge Handle) (t : Tick Handle) :
    (b.probed t).attachRetryAt = b.attachRetryAt ∧ (b.probed t).abandoned = b.abandoned := by
  unfold probed announce
  repeat' split
  all_goals exact ⟨rfl, rfl⟩

/-- Every move is, for every headset, a step of its machine or nothing. -/
theorem move_follows (hb : b.batteries.InStep) (m : Move Handle) (key : String) :
    Projections.Follows (Slot.step b.config key) (b.slot key) (b.concern key m)
      ((move b m).1.slot key) (own key (move b m).2) := by
  cases m with
  | probe t =>
      obtain ⟨hretry, habandoned⟩ := probed_records b t
      refine ⟨?_, rfl⟩
      rw [move, slot, (probed_batteries b t).1, hretry, habandoned]
      rfl
  | apply now polled =>
      obtain ⟨h, a⟩ := polled
      obtain ⟨hslot, hdeeds⟩ := apply_slot hb h now a b.config
      simp only [move, applyOne, concern, hslot]
      by_cases hkey : h.key = key
      · subst hkey
        rw [if_pos rfl, Function.update_self, own_stamp, hdeeds]
        rfl
      · rw [if_neg hkey, Function.update_of_ne (Ne.symm hkey), own_stamp_ne hkey]
        exact ⟨rfl, rfl⟩
  | note now =>
      have hslot : (b.noteAll now).slot key = ((b.slot key).take b.config (.noted now)).1 := by
        rw [slot, find?_noteAll]
        rfl
      rw [move, hslot]
      rfl
  | expire now =>
      obtain ⟨hslot, hevents⟩ := expire_slot hb now key
      rw [move, hslot, hevents]
      rfl
  | serve err => exact serve_slot hb err b.config key

end Records

end HeadsetBattery.Bridge
