import HeadsetBattery.Native
import HeadsetBattery.Bridge.Independence
import HeadsetBattery.Bridge.Renumbering
import HeadsetBattery.Maxwell.Numbers

/-!
# What a battery depends on

A daemon on its native reader serves every dongle with one reader, and every headset
with one bridge. What the desktop is shown of a headset is nevertheless a function of
what its own dongle goes through and what the kernel says of its own device: neither
the reader nor the bridge carries anything over from the others.
-/
namespace HeadsetBattery.Native

open Maxwell Bridge Traces KeyedList

variable {Path Handle Handle' : Type}

/-- What a round has for one product: the pass as it sees it, the instant of the poll,
and what the kernel will say to its headset. -/
def Round.only (pid : UInt16) (round : Round Path Handle) :
    Pass Path × ℕ × List (Answers Unit) :=
  (round.pass.only pid, round.now,
    (round.pass.listed.zipIdx.filter fun v => v.1.1.productId = pid).map
      fun v => (round.answers v.2).blind)

/-! ## The reports of a product -/

section Reports

variable [LinearOrder Path] [ToString Path] {pid : UInt16} {passes passes' : List (Pass Path)}

/-- A headset of the product among those of a trace. -/
def reportOf (pid : UInt16) (e : Maxwell.Event Path) : Option Headset :=
  match e with
  | .reported _ _ headset => if headset.productId = pid then some headset else none
  | _ => none

/-- Reports at the same place of what two tidy runs say of a product. -/
theorem report_alike (h : Tidy passes) (h' : Tidy passes')
    {pre post pre' post' : List (Maxwell.Event Path)} {node node' : Path} {link link' : Option Link}
    {headset headset' : Headset}
    (he : (Reader.run passes).2 = pre ++ .reported node link headset :: post)
    (he' : (Reader.run passes').2 = pre' ++ .reported node' link' headset' :: post')
    (hpid : headset.productId = pid)
    (hpre : pre.filterMap (Event.about pid) = pre'.filterMap (Event.about pid))
    (hsaid : (Maxwell.Event.reported node link headset).unnumbered =
      (Maxwell.Event.reported node' link' headset').unnumbered) :
    headset.Alike (Paired pid (Reader.run passes).2 (Reader.run passes').2) headset' := by
  obtain ⟨-, -, hsame⟩ := Maxwell.Event.reported.inj hsaid
  have hrest : headset' = { headset with sample := headset'.sample } := by
    obtain ⟨name, product, vendorId, productId, supports, battery, sample⟩ := headset
    obtain ⟨name', product', vendorId', productId', supports', battery', sample'⟩ := headset'
    simp_all
  refine ⟨headset'.sample, hrest, fun hanswers => ?_⟩
  have hlevel : headset.battery.level.isSome = true := by
    have hmem : .reported node link headset ∈ (Reader.run passes).2 := by simp [he]
    obtain ⟨hplain, -⟩ := Reader.plain_of_mem passes _ hmem
    match hb : headset.battery with
    | .discharging percent => rfl
    | .charging (some percent) => rfl
    | .charging none => exact absurd hb hplain
    | .unavailable | .disconnected => simp [hb, BatteryState.answers] at hanswers
  obtain ⟨n, hn, hnewest⟩ := newest_run h pid _ _ _ he hpid hlevel
  obtain ⟨n', hn', hnewest'⟩ := newest_run h' pid _ _ _ he' (by rw [hrest]; exact hpid)
    (by rw [hrest]; exact hlevel)
  rw [hn, hn', he, he']
  exact .some ((paired_of_newest hnewest hnewest' hpre).append _ _)

/-- The reports of a product in one more pass of two tidy runs that say the same of it. -/
theorem reports_alike (h : Tidy passes) (h' : Tidy passes')
    {done es done' es' : List (Maxwell.Event Path)} (he : (Reader.run passes).2 = done ++ es)
    (he' : (Reader.run passes').2 = done' ++ es')
    (hdone : done.filterMap (Event.about pid) = done'.filterMap (Event.about pid))
    (hes : es.filterMap (Event.about pid) = es'.filterMap (Event.about pid)) :
    List.Forall₂ (Headset.Alike (Paired pid (Reader.run passes).2 (Reader.run passes').2))
      ((Reader.headsets es).filter fun h => h.productId = pid)
      ((Reader.headsets es').filter fun h => h.productId = pid) := by
  let R := Paired pid (Reader.run passes).2 (Reader.run passes').2
  have hreports (es : List (Maxwell.Event Path)) :
      (Reader.headsets es).filter (fun h => h.productId = pid) =
        (es.filter fun e => (e.about pid).isSome).filterMap (reportOf pid) := by
    rw [Reader.headsets, List.filter_filterMap, List.filterMap_filter]
    refine List.filterMap_congr fun e _ => ?_
    cases e with
    | reported node link headset =>
        by_cases hpid : headset.productId = pid <;>
          simp [hpid, reportOf, Event.about, Maxwell.Event.product?]
    | _ => simp [reportOf]
  have hevents := forall₂_of_filterMap hes (P := fun e e' =>
      Option.Rel (Headset.Alike R) (reportOf pid e) (reportOf pid e'))
    fun pre e post pre' e' post' b hsplit hsplit' hpre hb hb' => ?_
  · rw [hreports, hreports]
    exact List.rel_filterMap (fun _ _ hrel => hrel) hevents
  · have hsaid : e.unnumbered = e'.unnumbered := by
      simp only [Event.about, Option.ite_none_right_eq_some, Option.some.injEq] at hb hb'
      exact hb.2.trans hb'.2.symm
    have hproduct : e.product? = some pid := by
      simp only [Event.about, Option.ite_none_right_eq_some] at hb
      exact hb.1
    cases e with
    | reported node link headset =>
        cases e' with
        | reported node' link' headset' =>
            have hpid : headset.productId = pid := Option.some.inj hproduct
            have hpid' : headset'.productId = pid := by
              obtain ⟨-, -, hsame⟩ := Maxwell.Event.reported.inj hsaid
              rw [← hpid]
              exact (congrArg Headset.productId hsame).symm
            simp only [reportOf, hpid, hpid', if_true]
            have hfull : (Reader.run passes).2 =
                (done ++ pre) ++ .reported node link headset :: post := by
              rw [he, hsplit, List.append_assoc]
            have hfull' : (Reader.run passes').2 =
                (done' ++ pre') ++ .reported node' link' headset' :: post' := by
              rw [he', hsplit', List.append_assoc]
            exact .some (report_alike h h' hfull hfull' hpid
              (by rw [List.filterMap_append, List.filterMap_append, hdone, hpre]) hsaid)
        | _ => cases hsaid
    | _ =>
        cases e' with
        | reported node' link' headset' => cases hsaid
        | _ => exact .none

end Reports

/-! ## What a poll tells a headset -/

section Polls

variable [LinearOrder Path] [ToString Path]

/-- The headsets of a product in a poll, with what the kernel will say to each. -/
def ownPolled (pid : UInt16) (r : Reader Path) (round : Round Path Handle) :
    List (Headset × Answers Handle) :=
  (round.tick (Reader.headsets (r.reconcile round.pass).2)).withBattery.filter
    fun polled => polled.1.key = Reader.keyOf pid

/-- Among the headsets of a pass a product is told by its key. -/
theorem key_iff_product (pid : UInt16) (r : Reader Path) (p : Pass Path) :
    ∀ h ∈ Reader.headsets (r.reconcile p).2,
      (h.key = Reader.keyOf pid ↔ h.productId = pid) := by
  have hall := Reader.headsets_reconcile r p
  generalize p.listed = listed, Reader.headsets (r.reconcile p).2 = headsets at hall
  induction hall with
  | nil => simp
  | cons hone _ ih =>
      obtain ⟨battery, sample, rfl⟩ := hone
      exact List.forall_mem_cons.2 ⟨Reader.keyOf_injective.eq_iff, ih⟩

/-- The poll gives each headset of the reader the answers at its place. -/
theorem ownPolled_eq (pid : UInt16) (r : Reader Path) (round : Round Path Handle) :
    ownPolled pid r round =
      ((Reader.headsets (r.reconcile round.pass).2).zipIdx.filter fun h =>
        h.1.key = Reader.keyOf pid).map fun h => (h.1, round.answers h.2) := by
  have hall : (round.tick (Reader.headsets (r.reconcile round.pass).2)).withBattery =
      (Reader.headsets (r.reconcile round.pass).2).zipIdx.map fun h =>
        (h.1, round.answers h.2) := by
    refine List.filter_eq_self.2 fun polled hp => ?_
    obtain ⟨indexed, hmem, rfl⟩ := List.mem_map.1 hp
    exact Reader.supports_of_mem_headsets _ (List.fst_mem_of_mem_zipIdx hmem)
  rw [ownPolled, hall, List.filter_map]
  rfl

theorem ownPolled_headsets (pid : UInt16) (r : Reader Path) (round : Round Path Handle) :
    (ownPolled pid r round).map Prod.fst =
      (Reader.headsets (r.reconcile round.pass).2).filter fun h => h.productId = pid := by
  have hkeys : (Reader.headsets (r.reconcile round.pass).2).filter (fun h => h.productId = pid) =
      (Reader.headsets (r.reconcile round.pass).2).filter fun h => h.key = Reader.keyOf pid :=
    List.filter_congr fun h hh => by simp [key_iff_product pid r round.pass h hh]
  rw [ownPolled_eq, hkeys, List.map_map]
  exact filter_zipIdx_fst (fun h : Headset => decide (h.key = Reader.keyOf pid)) _

theorem ownPolled_answers (pid : UInt16) (r : Reader Path) (round : Round Path Handle) :
    (ownPolled pid r round).map (fun polled => polled.2.blind) = (round.only pid).2.2 := by
  have hplaces : ((Reader.headsets (r.reconcile round.pass).2).zipIdx.filter
        fun h => h.1.key = Reader.keyOf pid).map Prod.snd =
      (round.pass.listed.zipIdx.filter fun v => v.1.1.productId = pid).map Prod.snd := by
    rw [← filter_zipIdx_snd (fun key => decide (key = Reader.keyOf pid)) Headset.key,
      Reader.keys_reconcile, filter_zipIdx_snd (fun key => decide (key = Reader.keyOf pid))]
    simp only [Reader.keyOf_injective.eq_iff]
  have hanswers := congrArg (List.map fun i => (round.answers i).blind) hplaces
  rw [ownPolled_eq, Round.only]
  simpa only [List.map_map, Function.comp_def] using hanswers

/-- A poll tells a headset what the kernel will say to it, and how it was reported. -/
theorem told_of_poll (pid : UInt16) (b : Bridge Handle) (r : Reader Path) (round : Round Path Handle) :
    (concerns (Reader.keyOf pid) b
        (round.tick (Reader.headsets (r.reconcile round.pass).2)).moves).map Concern.blind =
      (ownPolled pid r round).map
          (fun polled => .listed round.now polled.1 (some ()) polled.2.blind) ++
        [.noted round.now, .judged round.now] :=
  told_of_tick _ b _

/-- Polls in which a product is reported alike, and answered the same. -/
theorem polls_alike {R : ℕ → ℕ → Prop} {pid : UInt16} (b : Bridge Handle) (b' : Bridge Handle')
    {r r' : Reader Path} {round : Round Path Handle} {round' : Round Path Handle'}
    (hreports : List.Forall₂ (Headset.Alike R)
      ((Reader.headsets (r.reconcile round.pass).2).filter fun h => h.productId = pid)
      ((Reader.headsets (r'.reconcile round'.pass).2).filter fun h => h.productId = pid))
    (hsame : round.only pid = round'.only pid) :
    List.Forall₂ (Concern.Alike R)
      ((concerns (Reader.keyOf pid) b
        (round.tick (Reader.headsets (r.reconcile round.pass).2)).moves).map Concern.blind)
      ((concerns (Reader.keyOf pid) b'
        (round'.tick (Reader.headsets (r'.reconcile round'.pass).2)).moves).map Concern.blind) := by
  have hnow : round.now = round'.now := congrArg (fun own => own.2.1) hsame
  have hanswers : (ownPolled pid r round).map (fun polled => polled.2.blind) =
      (ownPolled pid r' round').map fun polled => polled.2.blind := by
    rw [ownPolled_answers, ownPolled_answers, hsame]
  rw [← ownPolled_headsets, ← ownPolled_headsets] at hreports
  have hpolled := forall₂_of_map hreports hanswers
  rw [told_of_poll, told_of_poll, hnow]
  refine List.rel_append ?_ (.cons .noted (.cons .judged .nil))
  rw [List.forall₂_map_left_iff, List.forall₂_map_right_iff]
  refine hpolled.imp fun polled polled' hboth => ?_
  rw [hboth.2]
  exact .listed hboth.1

end Polls

/-! ## What the waits tell a headset -/

/-- The instants at which the device of a headset cannot be serviced. -/
def failings (key : String) (b : Bridge Handle) (waits : List Wait) : List ℕ :=
  (concerns key b ((waits.map Input.wait).flatMap Input.moves)).map Concern.now

theorem served_of_wait {key : String} (b : Bridge Handle) (moves : List (Bridge.Move Handle))
    (h : ∀ m ∈ moves, ∃ err, m = .serve err) :
    (concerns key b moves).map Concern.blind =
      (concerns key b moves).map fun c => .served c.now := by
  induction moves generalizing b with
  | nil => rfl
  | cons m moves ih =>
      obtain ⟨⟨err, rfl⟩, hmoves⟩ := List.forall_mem_cons.1 h
      rw [concerns_cons, List.map_append, List.map_append, ih _ hmoves]
      congr 1
      simp only [concern]
      repeat' split
      all_goals rfl

theorem told_of_waits (key : String) (b : Bridge Handle) (waits : List Wait) :
    (concerns key b ((waits.map Input.wait).flatMap Input.moves)).map Concern.blind =
      (failings key b waits).map .served := by
  rw [failings, List.map_map]
  refine served_of_wait b _ fun m hm => ?_
  obtain ⟨input, hinput, hm⟩ := List.mem_flatMap.1 hm
  obtain ⟨w, -, rfl⟩ := List.mem_map.1 hinput
  obtain ⟨err, -, rfl⟩ := List.mem_map.1 hm
  exact ⟨err, rfl⟩

/-! ## Whole runs -/

section Run

variable [LinearOrder Path] [ToString Path]

/-- The failings of the device of a product, round by round. -/
def failed (config : Config) (inherited : List Handle) (pid : UInt16)
    (rounds : List (Round Path Handle)) : List (List ℕ) :=
  Projections.views Daemon.turn
    (fun d round =>
      some (failings (Reader.keyOf pid) (d.bridge.tick (d.poll round)).1 round.waits))
    ⟨Reader.new, Bridge.new config inherited⟩ rounds

/-- What concerns the headset of a product in a run, handles forgotten. -/
def saidTo (config : Config) (inherited : List Handle) (pid : UInt16)
    (rounds : List (Round Path Handle)) : List (Concern Unit) :=
  (concerns (Reader.keyOf pid) (new config inherited) (moves rounds)).map Concern.blind

theorem saidTo_snoc (config : Config) (inherited : List Handle) (pid : UInt16)
    {rounds : List (Round Path Handle)} (round : Round Path Handle) {d : Daemon Path Handle}
    (hd : (run config inherited rounds).1 = d) :
    saidTo config inherited pid (rounds ++ [round]) = saidTo config inherited pid rounds ++
      ((concerns (Reader.keyOf pid) d.bridge (d.poll round).moves).map Concern.blind ++
        (failings (Reader.keyOf pid) (d.bridge.tick (d.poll round)).1 round.waits).map .served) := by
  have htick : (d.bridge.tick (d.poll round)).1 = (Runs.exec move d.bridge (d.poll round).moves).1 :=
    congrArg Prod.fst (step_eq_moves d.bridge (.tick (d.poll round)))
  rw [run_eq] at hd
  subst hd
  rw [saidTo, moves_snoc, concerns, Projections.views_append, Projections.views_append,
    List.map_append, List.map_append, htick, ← told_of_waits]
  rfl

theorem failed_snoc (config : Config) (inherited : List Handle) (pid : UInt16)
    {rounds : List (Round Path Handle)} (round : Round Path Handle) {d : Daemon Path Handle}
    (hd : (run config inherited rounds).1 = d) :
    failed config inherited pid (rounds ++ [round]) = failed config inherited pid rounds ++
      [failings (Reader.keyOf pid) (d.bridge.tick (d.poll round)).1 round.waits] := by
  subst hd
  exact Projections.views_snoc _ _ _

theorem reader_snoc (config : Config) (inherited : List Handle) {rounds : List (Round Path Handle)}
    (round : Round Path Handle) {d : Daemon Path Handle} (hd : (run config inherited rounds).1 = d) :
    (Reader.run ((rounds ++ [round]).map Round.pass)).2 =
      (Reader.run (rounds.map Round.pass)).2 ++ (d.reader.reconcile round.pass).2 := by
  rw [run_eq] at hd
  subst hd
  rw [List.map_append, List.map_singleton, Reader.run, Runs.exec_snoc]
  rfl

/-- What two tidy runs with the same for a product say of it. -/
theorem about_alike {pid : UInt16} {rounds : List (Round Path Handle)}
    {rounds' : List (Round Path Handle')} (h : Tidy (rounds.map Round.pass))
    (h' : Tidy (rounds'.map Round.pass))
    (hsame : rounds.map (Round.only pid) = rounds'.map (Round.only pid)) :
    (Reader.run (rounds.map Round.pass)).2.filterMap (Event.about pid) =
      (Reader.run (rounds'.map Round.pass)).2.filterMap (Event.about pid) := by
  have hpasses := congrArg (List.map Prod.fst) hsame
  rw [about_run h, about_run h']
  simp only [List.map_map] at hpasses ⊢
  exact congrArg (fun passes => (Runs.exec Own.pass Own.new passes).2) hpasses

/-- Two tidy runs with the same for a product tell its headset alike. -/
theorem saidTo_alike (config : Config) (inherited : List Handle) (inherited' : List Handle')
    (pid : UInt16) (rounds : List (Round Path Handle)) (rounds' : List (Round Path Handle'))
    (h : Tidy (rounds.map Round.pass)) (h' : Tidy (rounds'.map Round.pass))
    (hsame : rounds.map (Round.only pid) = rounds'.map (Round.only pid))
    (hfailed : failed config inherited pid rounds = failed config inherited' pid rounds') :
    List.Forall₂ (Concern.Alike (Paired pid (Reader.run (rounds.map Round.pass)).2
        (Reader.run (rounds'.map Round.pass)).2))
      (saidTo config inherited pid rounds) (saidTo config inherited' pid rounds') := by
  induction rounds using List.reverseRecOn generalizing rounds' with
  | nil =>
      obtain rfl := List.map_eq_nil_iff.1 hsame.symm
      exact .nil
  | append_singleton rounds round ih =>
      obtain ⟨rounds', round', rfl, hbefore, hround⟩ :
          ∃ done round', rounds' = done ++ [round'] ∧
            rounds.map (Round.only pid) = done.map (Round.only pid) ∧
            round.only pid = round'.only pid := by
        rw [List.map_append] at hsame
        obtain ⟨done, last, rfl, hdone, hlast⟩ := List.map_eq_append_iff.1 hsame.symm
        obtain ⟨round', rfl, hround⟩ := List.map_eq_singleton_iff.1 hlast
        exact ⟨done, round', rfl, hdone.symm, hround.symm⟩
      generalize hd : (run config inherited rounds).1 = d
      generalize hd' : (run config inherited' rounds').1 = d'
      rw [failed_snoc config inherited pid round hd, failed_snoc config inherited' pid round' hd']
        at hfailed
      obtain ⟨hearlier, hlast⟩ := List.append_inj' hfailed (by simp)
      obtain ⟨hlast, -⟩ := List.cons.inj hlast
      have hruns := reader_snoc config inherited round hd
      have hruns' := reader_snoc config inherited' round' hd'
      have hsaid := about_alike h h' hsame
      have hold : Tidy (rounds.map Round.pass) := by
        rw [List.map_append] at h
        exact h.init
      have hold' : Tidy (rounds'.map Round.pass) := by
        rw [List.map_append] at h'
        exact h'.init
      have hsaidBefore := about_alike hold hold' hbefore
      rw [hruns, hruns', List.filterMap_append, List.filterMap_append, hsaidBefore] at hsaid
      have hreports := reports_alike h h' hruns hruns' hsaidBefore (List.append_cancel_left hsaid)
      rw [saidTo_snoc config inherited pid round hd, saidTo_snoc config inherited' pid round' hd',
        hlast]
      refine List.rel_append ?_ (List.rel_append (polls_alike _ _ hreports hround) ?_)
      · refine (ih rounds' hold hold' hbefore hearlier).imp fun c c' hc => hc.mono fun n n' hn => ?_
        rw [hruns, hruns']
        exact hn.append _ _
      · exact List.forall₂_same.2 fun c hc => by
          obtain ⟨now, -, rfl⟩ := List.mem_map.1 hc
          exact .served

/-- What the desktop is shown of a headset follows its own dongle and its own device.
Two tidy runs of the daemon in which the dongles of a product go through the same, its
polls are answered the same and its device fails at the same instants, do the same to
its battery and keep the same of it, but for the numbers of readings, as long as neither
runs out of handles for it: whatever the other dongles say and whatever becomes of the
other devices. -/
theorem battery_follows_own_dongle (config : Config) (inherited : List Handle)
    (inherited' : List Handle') (pid : UInt16) (rounds : List (Round Path Handle))
    (rounds' : List (Round Path Handle')) (h : Tidy (rounds.map Round.pass))
    (h' : Tidy (rounds'.map Round.pass))
    (hsupplied : Runs.Along move (Supplied (Reader.keyOf pid)) (new config inherited) (moves rounds))
    (hsupplied' : Runs.Along move (Supplied (Reader.keyOf pid)) (new config inherited')
      (moves rounds'))
    (hsame : rounds.map (Round.only pid) = rounds'.map (Round.only pid))
    (hfailed : failed config inherited pid rounds = failed config inherited' pid rounds') :
    Slot.Alike (Paired pid (Reader.run (rounds.map Round.pass)).2
        (Reader.run (rounds'.map Round.pass)).2)
      ((run config inherited rounds).1.bridge.slot (Reader.keyOf pid)).blind
      ((run config inherited' rounds').1.bridge.slot (Reader.keyOf pid)).blind ∧
    (own (Reader.keyOf pid) (run config inherited rounds).2).map Bridge.Event.unnumbered =
      (own (Reader.keyOf pid) (run config inherited' rounds').2).map Bridge.Event.unnumbered := by
  have hconcerns := saidTo_alike config inherited inherited' pid rounds rounds' h h' hsame hfailed
  have hown : Runs.exec (Slot.step config (Reader.keyOf pid)) .empty
      (saidTo config inherited pid rounds) =
      (((reached config inherited (moves rounds)).slot (Reader.keyOf pid)).blind,
        own (Reader.keyOf pid) (Runs.exec move (new config inherited) (moves rounds)).2) :=
    moves_blind Batteries.inStep_empty hsupplied
  have hown' : Runs.exec (Slot.step config (Reader.keyOf pid)) .empty
      (saidTo config inherited' pid rounds') =
      (((reached config inherited' (moves rounds')).slot (Reader.keyOf pid)).blind,
        own (Reader.keyOf pid) (Runs.exec move (new config inherited') (moves rounds')).2) :=
    moves_blind Batteries.inStep_empty hsupplied'
  have hstart : Slot.Alike (Paired pid (Reader.run (rounds.map Round.pass)).2
      (Reader.run (rounds'.map Round.pass)).2) (.empty : Slot Unit) .empty := ⟨.none, rfl, rfl⟩
  have hboth := Slot.exec_alike (paired_biUnique pid _ _) config (Reader.keyOf pid) hstart hconcerns
  rw [hown, hown'] at hboth
  rw [run_eq, run_eq]
  exact ⟨hboth.1, hboth.2.symm⟩

end Run

/-- A level that falls far is held back and then confirmed. It makes no difference that
another dongle is listed first, with readings of its own that are counted in between and
a device that cannot be created. -/
theorem battery_follows_own_dongle_of_two :
    let config : Config := ⟨seconds 60, seconds 10, seconds 30, "/dev/uhid"⟩
    let fine : Answers ℕ := ⟨.ok 7, .ok (), .ok (some "hid-0"), .ok ()⟩
    let broken : Answers ℕ := ⟨.ok 8, .error (.other, "EIO"), .ok none, .ok ()⟩
    let told (pid : UInt16) (node now : ℕ) (level : UInt8) : Dongle ℕ × Exchange ℕ :=
      (.on pid node, .fetching (batteryFrame level) (seconds now))
    let alone (now : ℕ) (level : UInt8) : Round ℕ ℕ :=
      ⟨.daily now [told 0x4b18 4 now level], seconds now, false, fun _ => fine, []⟩
    let second (now : ℕ) (level : UInt8) : Round ℕ ℕ :=
      ⟨.daily now [told 0x4b19 2 now 70, told 0x4b18 4 now level], seconds now, false,
        fun i => if i = 0 then broken else fine, []⟩
    let one := [alone 1 50, alone 2 22, alone 3 24]
    let two := [second 1 50, second 2 22, second 3 24]
    Slot.Alike (Paired 0x4b18 (Reader.run (one.map Round.pass)).2
        (Reader.run (two.map Round.pass)).2)
      ((run config [] one).1.bridge.slot (Reader.keyOf 0x4b18)).blind
      ((run config [] two).1.bridge.slot (Reader.keyOf 0x4b18)).blind ∧
    (own (Reader.keyOf 0x4b18) (run config [] one).2).map Bridge.Event.unnumbered =
      (own (Reader.keyOf 0x4b18) (run config [] two).2).map Bridge.Event.unnumbered := by
  intro config fine broken told alone second one two
  exact battery_follows_own_dongle config [] [] 0x4b18 one two
    ⟨by decide, by decide, by decide +kernel⟩ ⟨by decide, by decide, by decide +kernel⟩
    (supplied_of_opened config _ _ (by decide +kernel))
    (supplied_of_opened config _ _ (by decide +kernel)) rfl (by decide +kernel)

end HeadsetBattery.Native
