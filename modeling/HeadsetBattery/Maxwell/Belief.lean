import HeadsetBattery.Maxwell.Changes

/-!
# The belief about the link

What a reader believes of the link behind a dongle lives in two maps: the open
session of the dongle, under its node, or what the last session knew, under its
product ID. The belief should be the replay of everything the dongle said and
of the reader's own give-ups. It is, as long as no dongle is opened on a new
node while the session of its old node is still open.
-/
namespace HeadsetBattery.Maxwell

variable {Path : Type}

/-- What an event makes of the belief about one product. -/
def Event.believe (pid : UInt16) (link : Link) : Event Path → Link
  | .message _ q (.link up) => if q = pid then (if up then .up else .down) else link
  | .message _ q (.battery _) => if q = pid then .up else link
  | .gaveUp _ q => if q = pid then .unknown else link
  | _ => link

/-- The replay of a trace, for one product. -/
def believed (pid : UInt16) (tr : List (Event Path)) : Link :=
  tr.foldl (Event.believe pid) .unknown

theorem believed_append (pid : UInt16) (tr es : List (Event Path)) :
    believed pid (tr ++ es) = es.foldl (Event.believe pid) (believed pid tr) :=
  List.foldl_append

/-- Events that say nothing about a product leave the belief alone. -/
theorem believe_silent {pid : UInt16} {es : List (Event Path)}
    (h : ∀ e ∈ es, ∀ link, e.believe pid link = link) (link : Link) :
    es.foldl (Event.believe pid) link = link := by
  induction es generalizing link with
  | nil => rfl
  | cons e es ih =>
      rw [List.foldl_cons, h e (by simp)]
      exact ih (fun e' he' => h e' (by simp [he'])) link

namespace Session

theorem link_hear (s : Session Path) (readings : ℕ) (m : Message) (node : Path) :
    (s.hear readings m).1.link =
      Event.believe s.productId s.link (.message node s.productId m) := by
  rcases m with (_ | _) | level <;> simp [hear, Event.believe]

/-- A session replays what it is told. -/
theorem link_hearAll (node : Path) (ms : List Message) (s : Session Path) (readings : ℕ) :
    (s.hearAll readings ms).1.link =
      (ms.map (Event.message node s.productId)).foldl (Event.believe s.productId) s.link := by
  induction ms generalizing s readings with
  | nil => rfl
  | cons m ms ih =>
      rw [hearAll_cons, ih, productId_hear, link_hear s readings m node]
      rfl

end Session

namespace Reader

variable [LinearOrder Path]

/-- The belief held for a product: the link of its open session, or what the
last session knew when none is open, is the replay of the trace. -/
structure Believes (r : Reader Path) (tr : List (Event Path)) (pid : UInt16) : Prop where
  held : ∀ node s, r.session? node = some s → s.productId = pid → s.link = believed pid tr
  kept : (∀ node s, r.session? node = some s → s.productId ≠ pid) →
    (r.lastLink pid).getD .unknown = believed pid tr

/-- The condition on a move: a dongle it opens has no session left on another
node. -/
def Succeeds (r : Reader Path) : Move Path → Prop
  | .scan _ => True
  | .visit _ d x => r.session? d.node = none → x.opens = .ok () →
      ∀ held ∈ r.sessions.entries, held.2.productId ≠ d.productId

/-- The beliefs of a reader, none of which is held twice. -/
structure Replays (r : Reader Path) (tr : List (Event Path)) : Prop where
  alone : ∀ {node node' s s'}, r.session? node = some s → r.session? node' = some s' →
    s.productId = s'.productId → node = node'
  believes : ∀ pid, r.Believes tr pid

namespace Replays

variable {r r' : Reader Path} {tr es : List (Event Path)}

/-- Events that say nothing about any product. -/
theorem quiet (h : r.Replays tr) (hs : ∀ node, r'.session? node = r.session? node)
    (hl : r'.lastLink = r.lastLink) (hes : ∀ e ∈ es, ∀ pid link, e.believe pid link = link) :
    r'.Replays (tr ++ es) where
  alone hn hn' := h.alone ((hs _) ▸ hn) ((hs _) ▸ hn')
  believes pid := by
    have hsame : believed pid (tr ++ es) = believed pid tr := by
      rw [believed_append, believe_silent fun e he => hes e he pid]
    refine ⟨fun node s hn hp => ?_, fun hnone => ?_⟩
    · rw [hsame, (h.believes pid).held node s (hs node ▸ hn) hp]
    · rw [hsame, hl, (h.believes pid).kept fun node s hn => hnone node s (hs node ▸ hn)]

/-- A session replaced under its node, by events about its product alone. -/
theorem put {node : Path} {s s' : Session Path} (h : r.Replays tr)
    (held : r.session? node = some s)
    (hs : ∀ node', r'.session? node' = if node' = node then some s' else r.session? node')
    (hp : s'.productId = s.productId) (hl : r'.lastLink = r.lastLink)
    (hes : ∀ e ∈ es, ∀ pid, pid ≠ s.productId → ∀ link, e.believe pid link = link)
    (hlink : s'.link = es.foldl (Event.believe s.productId) s.link) : r'.Replays (tr ++ es) := by
  -- The session found under a node of `r'` has the product of the one in `r`.
  have hback : ∀ {n t}, r'.session? n = some t →
      ∃ t₀, r.session? n = some t₀ ∧ t₀.productId = t.productId ∧ (n ≠ node → t₀ = t) := by
    intro n t hn
    rw [hs] at hn
    by_cases hnode : n = node
    · rw [if_pos hnode, Option.some.injEq] at hn
      exact ⟨s, hnode ▸ held, by rw [← hn, hp], fun hne => absurd hnode hne⟩
    · rw [if_neg hnode] at hn
      exact ⟨t, hn, rfl, fun _ => rfl⟩
  refine ⟨fun hn hn' he => ?_, fun pid => ?_⟩
  · obtain ⟨t, ht, hpt, -⟩ := hback hn
    obtain ⟨t', ht', hpt', -⟩ := hback hn'
    exact h.alone ht ht' (by rw [hpt, hpt', he])
  by_cases hpid : pid = s.productId
  · subst hpid
    have hnow : s'.link = believed s.productId (tr ++ es) := by
      rw [hlink, believed_append, (h.believes _).held node s held rfl]
    refine ⟨fun n t hn hpt => ?_, fun hnone => ?_⟩
    · obtain ⟨t₀, ht₀, hp₀, -⟩ := hback hn
      obtain rfl : n = node := h.alone ht₀ held (hp₀.trans hpt)
      rw [hs, if_pos rfl, Option.some.injEq] at hn
      rw [← hn, hnow]
    · exact absurd hp (hnone node s' (by rw [hs, if_pos rfl]))
  · have hsame : believed pid (tr ++ es) = believed pid tr := by
      rw [believed_append, believe_silent fun e he => hes e he pid hpid]
    refine ⟨fun n t hn hpt => ?_, fun hnone => ?_⟩
    · obtain ⟨t₀, ht₀, hp₀, hsame₀⟩ := hback hn
      have hne : n ≠ node := by
        rintro rfl
        rw [held, Option.some.injEq] at ht₀
        exact hpid (by rw [← hpt, ← hp₀, ht₀])
      rw [hsame, ← (h.believes pid).held n t₀ ht₀ (hp₀.trans hpt), hsame₀ hne]
    · rw [hsame, hl]
      refine (h.believes pid).kept fun n t hn => ?_
      by_cases hnode : n = node
      · rw [hnode, held, Option.some.injEq] at hn
        exact fun hpt => hpid (by rw [← hpt, hn])
      · exact hnone n t (by rw [hs, if_neg hnode, hn])

end Replays

theorem replays_new : (new : Reader Path).Replays [] :=
  ⟨by simp, fun _ => ⟨by simp, fun _ => rfl⟩⟩

/-- A new session, for a product no other session holds, starts from what the
last one knew. -/
theorem Replays.opened {r : Reader Path} {tr : List (Event Path)} (h : r.Replays tr)
    {d : Dongle Path} {openedAt : ℕ} (absent : r.session? d.node = none)
    (fresh : ∀ node s, r.session? node = some s → s.productId ≠ d.productId) :
    (r.put d.node (Session.opened d ((r.lastLink d.productId).getD .unknown) openedAt)).Replays
      (tr ++ [.opened d.node d.productId]) := by
  have hsame : ∀ pid, believed pid (tr ++ [.opened d.node d.productId]) = believed pid tr :=
    fun pid => believed_append _ _ _
  -- A session of the new reader is the new one, or an old one of another product.
  have hback : ∀ {n t}, (r.put d.node (Session.opened d ((r.lastLink d.productId).getD .unknown)
      openedAt)).session? n = some t →
      n = d.node ∧ t.productId = d.productId ∧
        t.link = (r.lastLink d.productId).getD .unknown ∨
      r.session? n = some t ∧ t.productId ≠ d.productId := by
    intro n t hn
    rw [session?_put] at hn
    split at hn
    next he =>
      obtain rfl := Option.some.inj hn
      exact .inl ⟨he, rfl, rfl⟩
    next => exact .inr ⟨hn, fresh n t hn⟩
  refine ⟨fun hn hn' he => ?_, fun pid => ⟨fun n t hn hp => ?_, fun hnone => ?_⟩⟩
  · rcases hback hn with ⟨rfl, hp, -⟩ | ⟨ho, hp⟩ <;> rcases hback hn' with ⟨rfl, hp', -⟩ | ⟨ho', hp'⟩
    · rfl
    · exact absurd (he.symm.trans hp) hp'
    · exact absurd (he.trans hp') hp
    · exact h.alone ho ho' he
  · rw [hsame]
    rcases hback hn with ⟨rfl, hq, hl⟩ | ⟨ho, -⟩
    · rw [hl, ← hp, hq, (h.believes d.productId).kept fresh]
    · exact (h.believes pid).held n t ho hp
  · rw [hsame]
    by_cases hpid : pid = d.productId
    · exact absurd hpid.symm (hnone d.node _ (by rw [session?_put, if_pos rfl]))
    · refine (h.believes pid).kept fun n t ho hp => ?_
      refine hnone n t ?_ hp
      rw [session?_put, if_neg, ho]
      rintro rfl
      simp [absent] at ho

/-- A session that is closed hands its belief over. -/
theorem Replays.closed {r : Reader Path} {tr : List (Event Path)} (h : r.Replays tr) {node : Path}
    {s : Session Path} (held : r.session? node = some s) :
    (r.drop node s).Replays (tr ++ [.closed node s.productId]) := by
  have hsame : ∀ pid, believed pid (tr ++ [.closed node s.productId]) = believed pid tr :=
    fun pid => believed_append _ _ _
  have hback : ∀ {n t}, (r.drop node s).session? n = some t → n ≠ node ∧ r.session? n = some t := by
    intro n t hn
    exact held_of_drop hn
  refine ⟨fun hn hn' => h.alone (hback hn).2 (hback hn').2, fun pid =>
    ⟨fun n t hn hp => ?_, fun hnone => ?_⟩⟩
  · rw [hsame]
    exact (h.believes pid).held n t (hback hn).2 hp
  · rw [hsame, lastLink_drop]
    by_cases hpid : pid = s.productId
    · subst hpid
      simpa using (h.believes _).held node s held rfl
    · rw [Function.update_of_ne hpid]
      refine (h.believes pid).kept fun n t hn hp => ?_
      have hne : n ≠ node := by
        rintro rfl
        rw [held, Option.some.injEq] at hn
        exact hpid (by rw [← hp, hn])
      exact hnone n t (by rw [session?_drop, if_neg hne, hn]) hp

variable [ToString Path]

/-- Every change of a move that meets the condition keeps the replay. -/
theorem Replays.change {start r r' : Reader Path} {m : Move Path} {es tr : List (Event Path)}
    (hm : start.Succeeds m) (c : Change start m r es r') (h : r.Replays tr) :
    r'.Replays (tr ++ es) := by
  cases c with
  | began => exact h.quiet (fun _ => rfl) rfl (by simp [Event.believe])
  | opened absent done =>
      exact h.opened absent fun node s hs =>
        hm absent done (node, s) ((OrderedMap.get?_eq_some _).1 hs)
  | @heard p d x _ s frame held fetched =>
      have hagain : ∀ e ∈ if (r.watchAfter frame p.now).2 then [Event.answersAgain d.node] else [],
          ∀ pid link, e.believe pid link = link := by
        split <;> simp [Event.believe]
      refine h.put held (fun _ => session?_put _ _ _ _) (Session.productId_hearAll _ _ _) rfl ?_ ?_
      · intro e he pid hpid link
        rcases List.mem_append.1 he with he | he
        · obtain ⟨m, -, rfl⟩ := List.mem_map.1 he
          rcases m with (_ | _) | level <;> simp [Event.believe, Ne.symm hpid]
        · exact hagain e he pid link
      · rw [hear, List.foldl_append, believe_silent fun e he => hagain e he _]
        exact Session.link_hearAll _ _ _ _
  | @gaveUp p d x _ s held told due up mute =>
      exact h.put held (fun _ => session?_put _ _ _ _) rfl rfl
        (by simpa [Event.believe] using fun pid hp link he => absurd he.symm hp)
        (by simp [Event.believe])
  | @sent p d x _ s held told due =>
      exact h.put held (fun _ => session?_put _ _ _ _) rfl rfl (by simp [Event.believe]) rfl
  | @lost p d x _ s held told =>
      exact h.put held (fun _ => session?_put _ _ _ _) rfl rfl (by simp) rfl
  | @suspected p d x _ s held asked =>
      refine h.quiet (session?_suspect _ _ · _ _ _) (lastLink_suspect _ _ _ _ _) fun e he => ?_
      obtain ⟨silence, rfl⟩ := mem_suspect he
      exact fun _ _ => rfl
  | @closed m _ node s held => exact h.closed held
  | reachable =>
      refine h.quiet (fun _ => rfl) rfl fun e he => ?_
      obtain rfl := mem_reportRecovery he
      exact fun _ _ => rfl
  | unreachable => exact h.quiet (fun _ => rfl) rfl (by simp [reportError, Event.believe])
  | @reported p d x _ s held => exact h.quiet (fun _ => rfl) rfl (by simp [Event.believe])
  | withheld => exact h.quiet (fun _ => rfl) rfl (by simp [Event.believe])

/-! ## Which nodes have a session -/

omit [ToString Path] in
/-- The scan leaves sessions as they were, on listed nodes only. -/
theorem held_of_closeVanished {r : Reader Path} {p : Pass Path} {node : Path} {s : Session Path}
    (h : (r.closeVanished p).1.session? node = some s) :
    r.session? node = some s ∧ ∃ v ∈ p.listed, v.1.node = node := by
  rw [session?_closeVanished] at h
  split at h
  next hlisted => exact ⟨h, by simpa using hlisted⟩
  next => cases h

/-- After a pass every open session is on a listed node. -/
theorem listed_of_reconcile {r : Reader Path} {p : Pass Path} {node : Path} {s : Session Path}
    (h : (r.reconcile p).1.session? node = some s) : ∃ v ∈ p.listed, v.1.node = node := by
  have key : ∀ (visits : List (Dongle Path × Exchange Path)) (r : Reader Path),
      (∃ t, (Runs.exec move r (visits.map fun v => .visit p v.1 v.2)).1.session? node = some t) →
      (∃ v ∈ visits, v.1.node = node) ∨ ∃ t, r.session? node = some t := by
    intro visits
    induction visits with
    | nil => exact fun r h => .inr h
    | cons v visits ih =>
        intro r h
        rcases ih _ h with ⟨w, hw, hn⟩ | ⟨t, ht⟩
        · exact .inl ⟨w, List.mem_cons_of_mem _ hw, hn⟩
        · exact (session?_visit ht).imp (fun hn => ⟨v, by simp, hn.symm⟩) fun hheld => ⟨t, hheld⟩
  rcases key p.listed (r.move (.scan p)).1 ⟨s, h⟩ with hv | ⟨t, ht⟩
  · exact hv
  · exact (held_of_closeVanished ht).2

/-- The belief about a dongle survives re-enumeration in every run whose visits
open no dongle while its old session is open on another node: at every point
the belief held for each product is the replay of what it said and of the
reader's give-ups. After each pass every open session is on a listed node. -/
theorem belief_replays (passes : List (Pass Path))
    (hc : Runs.Along move Succeeds new (passes.flatMap Pass.moves)) :
    (∀ moves rest, passes.flatMap Pass.moves = moves ++ rest →
      ∀ pid, (Runs.exec move new moves).1.Believes (Runs.exec move new moves).2 pid) ∧
    ∀ before p after, passes = before ++ p :: after → ∀ node s,
      (run (before ++ [p])).1.session? node = some s → ∃ v ∈ p.listed, v.1.node = node := by
  constructor
  · intro moves rest he
    rw [he] at hc
    exact (Runs.exec_invariant_along _ replays_new (fun m r tr h hm =>
      (move_chain r m).keeps Replays (fun _ _ _ _ c => Replays.change hm c) tr h)
      moves hc.prefix).believes
  · rintro before p after - node s h
    rw [run, Runs.exec_snoc] at h
    exact listed_of_reconcile h

/-- A dongle that says the headset is gone, vanishes and comes back on another
node: the new session knows. -/
theorem belief_replays_of_reenumeration :
    let passes : List (Pass ℕ) := [.daily 1 [(.on 0x4b18 4, .fetching (linkFrame 0) (seconds 1))],
      .daily 2 [], .daily 3 [(.on 0x4b18 5, .fetching silentFrame (seconds 3))]]
    Runs.Along move Succeeds new (passes.flatMap Pass.moves) ∧
      ((run passes).1.session? 5).map Session.link = some .down ∧
      (run passes).1.Believes (run passes).2 0x4b18 := by
  intro passes
  have hc : Runs.Along move Succeeds new (passes.flatMap Pass.moves) := by
    refine Runs.along_cons.2 ⟨trivial, Runs.along_cons.2 ⟨fun _ _ => by decide,
      Runs.along_cons.2 ⟨trivial, Runs.along_cons.2 ⟨trivial, Runs.along_cons.2
        ⟨fun _ _ => by decide, Runs.along_nil _ _ _⟩⟩⟩⟩⟩
  refine ⟨hc, by decide, ?_⟩
  rw [run_eq_moves]
  exact (belief_replays passes hc).1 _ [] (by simp) 0x4b18

/-- The belief is lost when the dongle comes back on a new node in the very pass
that lists its old node under another dongle: the old session is still open
when the new one asks what the last session knew. -/
theorem belief_lost_on_takeover :
    ¬ ∀ passes : List (Pass ℕ), (∀ p ∈ passes, (p.listed.map fun v => v.1.productId).Nodup) →
      ∀ pid, (run passes).1.Believes (run passes).2 pid := by
  intro h
  have hlost := (h [.daily 1 [(.on 0x4b18 4, .fetching (linkFrame 0) (seconds 1))],
    .daily 2 [(.on 0x4b18 3, .fetching silentFrame (seconds 2)),
      (.on 0x4b19 4, .vanishing (seconds 2))]] (by decide) 0x4b18).held 3
  exact absurd (hlost _ rfl rfl) (by decide)

end Reader

end HeadsetBattery.Maxwell
