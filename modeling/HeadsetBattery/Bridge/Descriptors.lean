import HeadsetBattery.Bridge.Identities
import HeadsetBattery.Bridge.Concerns
import Mathlib.Data.Finset.Card

/-!
# Descriptors of a daemon run by hand

Without inherited handles the pool opens the node itself. It does so only when it has
nothing to spare and a headset without a battery gives a level, and it keeps what it
opened: a withdrawn device, or one that could not be created, leaves its handle to the
next. So there is never more than one handle for each headset there ever was.
-/
namespace HeadsetBattery.Bridge

variable {Handle : Type}

/-! ## What an operation does to the handles -/

section Operations

variable {b : Bridge Handle} {index : ℕ} {entry : Entry Handle}

/-- The bridge, with a pool that may not open the node. -/
def closed (b : Bridge Handle) : Bridge Handle :=
  { b with uhid := { b.uhid with mayOpen := false } }

theorem handles_setPair (pair : Entry Handle) (hb : b.batteries.InStep)
    (hi : b.batteries.pair? index = some entry) (hk : pair.2.key = entry.2.key)
    (hh : pair.1.handle = entry.1.handle) :
    { b with batteries := b.batteries.setPair index pair }.handles.Perm b.handles :=
  (touches_setPair (b := b.closed) pair hb hi hk hh).custody rfl

theorem handles_withdraw (hb : b.batteries.InStep) (hi : b.batteries.pair? index = some entry) :
    (b.withdraw index entry.1).handles.Perm b.handles :=
  (touches_withdraw (b := b.closed) hb hi).custody rfl

theorem handles_outcome (hb : b.batteries.InStep) (hi : b.batteries.pair? index = some entry)
    (result : Except (List String) Unit) (now : ℕ) :
    (b.outcome index result now).1.handles.Perm b.handles := by
  simp only [outcome, hi]
  split
  · exact handles_setPair _ hb hi rfl rfl
  · split
    · exact handles_setPair _ hb hi rfl rfl
    · exact handles_withdraw hb hi

theorem handles_present (hb : b.batteries.InStep) (hi : b.batteries.pair? index = some entry)
    (h : Headset) (reading : Reading) (now : ℕ) (a : Answers Handle) :
    (b.present (some index) h reading now a).1.handles.Perm b.handles := by
  obtain ⟨hkey, hhandle⟩ := refresh_identity entry.1 entry.2 reading h.sample now a.updated
  have hset := handles_setPair _ hb hi hkey hhandle
  have hpair := Batteries.pair?_setPair
    (refresh entry.1 entry.2 reading h.sample now a.updated).1 hi
  simp only [present, hi, Option.bind_some, Option.map_some]
  split
  · exact hset
  · exact (handles_outcome (touches_setPair _ hb hi hkey hhandle).inStep hpair _ now).trans hset

theorem handles_switchOff (hb : b.batteries.InStep) (hi : b.batteries.pair? index = some entry)
    (now : ℕ) : (b.switchOff (some index) now).1.handles.Perm b.handles := by
  simp only [switchOff, hi, Option.bind_some, Option.map_some]
  split
  · exact handles_withdraw hb hi
  · exact handles_setPair _ hb hi rfl rfl

theorem handles_expireFrom (now fuel : ℕ) : ∀ (index : ℕ) (b : Bridge Handle),
    b.batteries.InStep → (expireFrom now fuel index b).1.handles.Perm b.handles := by
  induction fuel with
  | zero => exact fun index b _ => .refl _
  | succ fuel ih =>
      intro index b hb
      cases hi : b.batteries.pair? index with
      | none =>
          simp only [expireFrom, hi]
          exact .refl _
      | some entry =>
          have hwithdrawn := (ih index _ (touches_withdraw hb hi).inStep).trans
            (handles_withdraw hb hi)
          simp only [expireFrom, hi]
          cases outlived b.config entry.2 now with
          | keep => exact ih (index + 1) b hb
          | silent => exact hwithdrawn
          | missing => exact hwithdrawn

/-- Where the pool gets a handle: from those to spare, from the node, or not at all. -/
theorem acquire_cases (pool : DevicePool Handle) (opened : Except String Handle) :
    (∃ rest deeds handle, pool.spare = rest ++ [handle] ∧
        pool.acquire opened = ({ pool with spare := rest }, deeds, .ok handle)) ∨
      (∃ deeds handle, pool.spare = [] ∧ opened = .ok handle ∧
        pool.acquire opened = (pool, deeds, .ok handle)) ∨
      ∃ deeds err, pool.acquire opened = (pool, deeds, .error err) := by
  unfold DevicePool.acquire
  cases hlast : pool.spare.getLast? with
  | some handle =>
      exact .inl ⟨_, [], handle, (List.dropLast_append_getLast? handle hlast).symm, rfl⟩
  | none =>
      have hspare : pool.spare = [] := List.getLast?_eq_none_iff.1 hlast
      by_cases hm : pool.mayOpen = true
      · simp only [hm, if_true]
        cases opened with
        | ok handle => exact .inr (.inl ⟨_, handle, hspare, rfl, rfl⟩)
        | error err => exact .inr (.inr ⟨_, _, rfl⟩)
      · simp only [hm]
        exact .inr (.inr ⟨_, _, rfl⟩)

/-- A handle for a new device was to spare, or is one that was opened because there was
none. -/
theorem handles_introduce (b : Bridge Handle) (h : Headset) (reading : Reading) (now : ℕ)
    (a : Answers Handle) :
    (b.introduce h reading now a).1.handles.Perm b.handles ∨
      b.uhid.spare = [] ∧ ∃ handle, a.opened = .ok handle ∧
        (b.introduce h reading now a).1.handles.Perm (handle :: b.handles) := by
  have hrecords : (b.introduce h reading now a).1.handles = b.handles ∨
      (b.introduce h reading now a).1.handles = (b.attach h reading now a).1.handles := by
    unfold introduce
    split
    · exact .inl rfl
    · right
      dsimp only
      split <;> rfl
  -- Either way the handle ends up under the device or among the spare ones.
  have hon {pool : DevicePool Handle} {deeds : List Deed} {handle : Handle}
      (hgot : b.uhid.acquire a.opened = (pool, deeds, .ok handle)) :
      (b.attach h reading now a).1.handles.Perm
        (handle :: (pool.spare ++ b.batteries.devices.map Battery.handle)) := by
    obtain ⟨creations, -, hattached | ⟨failure, hattached⟩⟩ :=
      attachOn_creations handle h reading now a
    · simp only [attach, hgot, hattached, Entry.made, handles, Batteries.push, List.map_append,
        List.map_cons, List.map_nil, ← List.append_assoc]
      exact List.perm_append_singleton handle _
    · simp [attach, hgot, hattached, handles, DevicePool.putBack]
  obtain hsame | hattach := hrecords
  · exact .inl (.of_eq hsame)
  · rw [hattach]
    obtain ⟨rest, deeds, handle, hspare, hgot⟩ | ⟨deeds, handle, hspare, hopened, hgot⟩ |
      ⟨deeds, err, hgot⟩ := acquire_cases b.uhid a.opened
    · refine .inl ((hon hgot).trans ?_)
      simpa [handles, hspare] using List.perm_middle.symm
    · exact .inr ⟨hspare, handle, hopened, hon hgot⟩
    · exact .inl (.of_eq (by simp [attach, hgot, handles]))

end Operations

/-! ## Moves -/

/-- The headset a move may give a battery to. -/
def Move.offers : Move Handle → Option String
  | .apply _ (h, _) => if h.battery.offer.isSome then some h.key else none
  | _ => none

/-- A move keeps every handle. One it adds was opened for a headset that gives a level
and has no battery, while none was to spare. -/
def Opens (b : Bridge Handle) (m : Move Handle) (handles : List Handle) : Prop :=
  handles.Perm b.handles ∨
    b.uhid.spare = [] ∧ ∃ key handle, m.offers = some key ∧ b.batteries.find? key = none ∧
      handles.Perm (handle :: b.handles)

theorem move_opens {b : Bridge Handle} (hb : b.batteries.InStep) (m : Move Handle) :
    Opens b m (move b m).1.handles := by
  cases m with
  | probe t =>
      obtain ⟨hbatteries, huhid, -⟩ := probed_batteries b t
      exact .inl (.of_eq (by simp [move, handles, hbatteries, huhid]))
  | apply now polled =>
      obtain ⟨h, a⟩ := polled
      simp only [move, applyOne]
      cases hposition : b.batteries.position h.key with
      | none =>
          have hnone := hb.position_eq_none.1 hposition
          obtain ⟨reading, hoffer, he⟩ | ⟨-, he⟩ := apply_absent_cases hposition now a
          · rw [he]
            obtain hsame | ⟨hspare, handle, -, hperm⟩ := handles_introduce b h reading now a
            · exact .inl hsame
            · exact .inr ⟨hspare, h.key, handle, by simp [Move.offers, hoffer], hnone, hperm⟩
          · rw [he]
            exact .inl (.refl _)
      | some index =>
          left
          obtain ⟨entry, hi, -⟩ := hb.pair?_of_position hposition
          have hseen := handles_setPair (entry.see now) hb hi rfl rfl
          have hinStep := (touches_setPair (entry.see now) hb hi rfl rfl).inStep
          have hi' := Batteries.pair?_setPair (entry.see now) hi
          obtain ⟨reading, -, he⟩ | ⟨-, he⟩ | ⟨-, he⟩ := apply_live_cases hposition hi now a
          · rw [he]
            exact (handles_present hinStep hi' h reading now a).trans hseen
          · rw [he]
            exact hseen
          · rw [he]
            exact (handles_switchOff hinStep hi' now).trans hseen
  | note now => exact .inl (.refl _)
  | expire now => exact .inl (handles_expireFrom now _ 0 b hb)
  | serve err =>
      left
      simp only [move, serve]
      cases hi : b.batteries.pair? err.index with
      | none => exact .refl _
      | some entry => exact handles_outcome hb hi _ err.now

/-- A battery that is there after a move was there before it, or the move offers it. -/
theorem live_of_move {b : Bridge Handle} (hb : b.batteries.InStep) {m : Move Handle} {key : String}
    (h : ((move b m).1.batteries.find? key).isSome) :
    (b.batteries.find? key).isSome ∨ m.offers = some key := by
  have hfollows := move_follows hb m key
  obtain ⟨left, hleft⟩ := Option.isSome_iff_exists.1 h
  cases hc : b.concern key m with
  | none =>
      rw [hc] at hfollows
      have hsame : (move b m).1.batteries.find? key = b.batteries.find? key :=
        congrArg Slot.entry hfollows.1
      exact .inl (hsame ▸ h)
  | some c =>
      rw [hc] at hfollows
      have hentry : ((b.slot key).take b.config c).1.entry = some left :=
        (congrArg (fun p => p.1.entry) hfollows).trans hleft
      have hbefore {entry : Entry Handle} (hlive : (b.slot key).entry = some entry) :
          (b.batteries.find? key).isSome := Option.isSome_iff_exists.2 ⟨entry, hlive⟩
      have hleaves := take_leaves hentry
      generalize ((b.slot key).take b.config c).2 = deeds at hleaves
      cases hleaves with
      | listed live => exact .inl (hbefore live)
      | made absent offered =>
          obtain ⟨rfl, rfl, -⟩ := apply_of_listed hc
          exact .inr (by simp [Move.offers, offered])
      | noted live => exact .inl (hbefore live)
      | judged live => exact .inl (hbefore live)
      | served live => exact .inl (hbefore live)

/-! ## Runs -/

/-- What some moves leave: batteries of headsets that gave a level, and no more handles
than there are such headsets. -/
structure Counted (moves : List (Move Handle)) (b : Bridge Handle) : Prop where
  inStep : b.batteries.InStep
  live : ∀ key, (b.batteries.find? key).isSome → key ∈ moves.filterMap Move.offers
  few : b.handles.length ≤ (moves.filterMap Move.offers).toFinset.card

/-- The batteries there are, by their keys. -/
theorem live_of_mem_keys {b : Bridge Handle} (hb : b.batteries.InStep) {key : String}
    (h : key ∈ b.batteries.states.map VirtualBattery.key) : (b.batteries.find? key).isSome := by
  rw [← Batteries.entries_keys hb.length] at h
  rw [Option.isSome_iff_ne_none]
  intro hnone
  obtain ⟨entry, hentry, hkey⟩ := List.mem_map.1 h
  exact KeyedList.lookup_eq_none.1 hnone entry hentry hkey

theorem counted_move {moves : List (Move Handle)} {b : Bridge Handle} (h : Counted moves b)
    (m : Move Handle) : Counted (moves ++ [m]) (move b m).1 := by
  have hgrows : moves.filterMap Move.offers ⊆ (moves ++ [m]).filterMap Move.offers := by
    rw [List.filterMap_append]
    exact List.subset_append_left _ _
  refine ⟨(move_keeps b m h.inStep).inStep, fun key hkey => ?_, ?_⟩
  · obtain hold | hoffers := live_of_move h.inStep hkey
    · exact hgrows (h.live key hold)
    · simp [hoffers]
  · obtain hsame | ⟨hspare, key, handle, hoffers, hnone, hperm⟩ := move_opens h.inStep m
    · rw [hsame.length_eq]
      exact h.few.trans (Finset.card_le_card fun key => by simpa using @hgrows key)
    · -- Every handle is under a battery, and the new one is for a headset without.
      let keys := key :: b.batteries.states.map VirtualBattery.key
      have hlength : (move b m).1.handles.length = keys.length := by
        rw [hperm.length_eq]
        simp [keys, handles, hspare, h.inStep.length]
      have hnodup : keys.Nodup := by
        refine List.nodup_cons.2 ⟨fun hmem => ?_, h.inStep.keys⟩
        simpa [hnone] using live_of_mem_keys h.inStep hmem
      have hkeys : keys ⊆ (moves ++ [m]).filterMap Move.offers := by
        refine List.cons_subset.2 ⟨by simp [hoffers], fun key' hkey' => ?_⟩
        exact hgrows (h.live key' (live_of_mem_keys h.inStep hkey'))
      rw [hlength, ← List.toFinset_card_of_nodup hnodup]
      exact Finset.card_le_card fun key' => by simpa using @hkeys key'

/-- The headsets that ever gave a level, by their keys. -/
def offering (inputs : List (Input Handle)) : List String :=
  ((listed inputs).filter fun h => h.battery.offer.isSome).map Headset.key

theorem offers_applied (now : ℕ) (polled : List (Headset × Answers Handle)) :
    (polled.map (Move.apply now)).filterMap Move.offers =
      ((polled.map Prod.fst).filter fun h => h.battery.offer.isSome).map Headset.key := by
  induction polled with
  | nil => rfl
  | cons headset polled ih =>
      by_cases hoffer : headset.1.battery.offer.isSome
      · have hoffers : Move.offers (.apply now headset) = some headset.1.key := if_pos hoffer
        simp [hoffers, hoffer, ih]
      · have hoffers : Move.offers (.apply now headset) = none := if_neg hoffer
        simp [hoffers, hoffer, ih]

theorem offers_moves (inputs : List (Input Handle)) :
    (inputs.flatMap Input.moves).filterMap Move.offers = offering inputs := by
  induction inputs with
  | nil => rfl
  | cons input inputs ih =>
      have hinput : input.moves.filterMap Move.offers = offering [input] := by
        cases input with
        | wait w => simp [Input.moves, offering, listed, Move.offers]
        | tick t =>
            rw [Input.moves, Tick.moves, List.filterMap_cons_none rfl, List.filterMap_append,
              offers_applied]
            simp [offering, listed, Move.offers]
      rw [List.flatMap_cons, List.filterMap_append, ih, hinput]
      simp [offering, listed]

theorem counted_run (config : Config) (moves : List (Move Handle)) :
    Counted moves (reached config [] moves) := by
  refine Runs.exec_history (fun moves b _ => Counted moves b) ?_ (fun moves m h => counted_move h m)
    moves
  exact ⟨Batteries.inStep_empty, fun key hkey => (by cases hkey), by
    simp [handles, new, DevicePool.new, Batteries.empty]⟩

/-- What a bridge holds it holds from then on. -/
theorem handles_kept {b : Bridge Handle} (hb : b.batteries.InStep) (moves : List (Move Handle)) :
    ∃ opened, (Runs.exec move b moves).1.handles.Perm (opened ++ b.handles) := by
  induction moves generalizing b with
  | nil => exact ⟨[], .refl _⟩
  | cons m moves ih =>
      obtain ⟨opened, hheld⟩ := ih (move_keeps b m hb).inStep
      rw [Runs.exec_cons]
      obtain hsame | ⟨-, -, handle, -, -, hperm⟩ := move_opens hb m
      · exact ⟨opened, hheld.trans (hsame.append_left opened)⟩
      · refine ⟨opened ++ [handle], hheld.trans ?_⟩
        rw [List.append_assoc]
        exact hperm.append_left opened

/-- In any run of a daemon that opens the node itself, there are no more handles than
headsets that ever gave a level, and none is ever lost. -/
theorem one_handle_a_headset (config : Config) (inputs inputs' : List (Input Handle)) :
    (run config [] inputs).1.handles.length ≤ (offering inputs).toFinset.card ∧
      ∃ opened, (run config [] (inputs ++ inputs')).1.handles.Perm
        (opened ++ (run config [] inputs).1.handles) := by
  constructor
  · rw [← offers_moves, run_eq_moves]
    exact (counted_run config (inputs.flatMap Input.moves)).few
  · rw [run_eq_moves, run_eq_moves, List.flatMap_append, Runs.exec_append]
    exact handles_kept (reached_inStep config [] _) _

/-- Two headsets in turn, the second after the first was given up: one handle for both. -/
example :
    let headset (name : String) (state : BatteryState) : Headset × Answers ℕ :=
      (⟨name, name, 0x3329, 0x4b18, true, state, none⟩,
        ⟨.ok 7, .ok (), .ok (some "hid-0"), .ok ()⟩)
    let poll (n : ℕ) (listed : List (Headset × Answers ℕ)) : Input ℕ :=
      .tick ⟨seconds n, false, .ok listed⟩
    (run ⟨seconds 60, seconds 10, seconds 30, "/dev/uhid"⟩ [] [poll 0 [headset "A" (.discharging 80)],
      poll 1 [], poll 60 [], poll 61 [headset "B" (.discharging 50)]]).1.handles = [7] := by
  decide +kernel

end HeadsetBattery.Bridge
