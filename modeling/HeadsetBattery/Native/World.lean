import HeadsetBattery.Native
import HeadsetBattery.Maxwell.Discovery

/-!
# The daemon in its world

Every turn begins with what sysfs says, and what the daemon does comes back in it: the
kernel lists a virtual battery as one more hidraw node, with the IDs of the dongle it
stands for. The reader never takes it for one.
-/
namespace HeadsetBattery.Native

open Maxwell Bridge

variable {Path Handle : Type}

/-- What a turn meets: what sysfs says, what the kernel answers to each dongle found and
to each headset, and the rest of the round. -/
structure Encounter (Path Handle : Type) where
  sysfs : Sysfs Path
  exchange : ℕ → Exchange Path
  listenedAt : ℕ
  interval : ℕ
  now : ℕ
  stopping : Bool
  answers : ℕ → Answers Handle
  waits : List Wait

/-- The round of a turn that is shown this of sysfs. -/
def Encounter.round (met : Encounter Path Handle) (sys : Sysfs Path) : Round Path Handle :=
  ⟨sys.pass met.exchange met.listenedAt met.interval Maxwell.listenFirst, met.now, met.stopping,
    met.answers, met.waits⟩

variable [LinearOrder Path] [ToString Path]

/-- A turn in a world that shows the daemon its own devices too. -/
def Daemon.meets (shown : Bridge Handle → Sysfs Path → Sysfs Path) (d : Daemon Path Handle)
    (met : Encounter Path Handle) : Daemon Path Handle × List Bridge.Event :=
  d.turn (met.round (shown d.bridge met.sysfs))

theorem exec_meets {shown : Bridge Handle → Sysfs Path → Sysfs Path}
    {meetings : List (Encounter Path Handle)}
    (hfiltered : ∀ met ∈ meetings, met.sysfs.Filtered ∧ ∀ b, (shown b met.sysfs).Filtered)
    (hadds : ∀ met ∈ meetings, ∀ b, (shown b met.sysfs).Adds met.sysfs) (d : Daemon Path Handle) :
    Runs.exec (Daemon.meets shown) d meetings =
      Runs.exec Daemon.turn d (meetings.map fun met => met.round met.sysfs) := by
  induction meetings generalizing d with
  | nil => rfl
  | cons met meetings ih =>
      obtain ⟨⟨hplain, hshown⟩, hfiltered⟩ := List.forall_mem_cons.1 hfiltered
      obtain ⟨hone, hadds⟩ := List.forall_mem_cons.1 hadds
      have hturn : d.meets shown met = d.turn (met.round met.sysfs) := by
        rw [Daemon.meets, Encounter.round, Encounter.round,
          (hone d.bridge).pass_eq (hshown d.bridge) hplain]
      rw [List.map_cons, Runs.exec_cons, Runs.exec_cons, hturn, ih hfiltered hadds]

/-- The daemon's own devices never come back to it. Whatever virtual nodes sysfs shows it
for the batteries it has made, with whatever IDs and wherever they are listed, its run is
the one without them; and every node it holds open after a turn is one that sysfs lists
in that turn on USB, of Audeze and with a dongle's product. -/
theorem own_devices_unseen (config : Config) (inherited : List Handle)
    (shown : Bridge Handle → Sysfs Path → Sysfs Path) (meetings : List (Encounter Path Handle))
    (hfiltered : ∀ met ∈ meetings, met.sysfs.Filtered ∧ ∀ b, (shown b met.sysfs).Filtered)
    (hadds : ∀ met ∈ meetings, ∀ b, (shown b met.sysfs).Adds met.sysfs) :
    Runs.exec (Daemon.meets shown) ⟨Reader.new, new config inherited⟩ meetings =
        run config inherited (meetings.map fun met => met.round met.sysfs) ∧
      ∀ before met after, meetings = before ++ met :: after → ∀ node s,
        (Runs.exec (Daemon.meets shown) ⟨Reader.new, new config inherited⟩
          (before ++ [met])).1.reader.session? node = some s →
        ∃ nodes, met.sysfs.hidraw audezeOnUsb = .ok nodes ∧
          ∃ n ∈ nodes, n.path = node ∧ Sysfs.IsDongle n := by
  refine ⟨exec_meets hfiltered hadds _, ?_⟩
  rintro before met after rfl node s hheld
  have hmet : met ∈ before ++ met :: after := by simp
  have hreaches : before ++ [met] ⊆ before ++ met :: after := by simp
  rw [exec_meets (fun m hm => hfiltered m (hreaches hm)) (fun m hm => hadds m (hreaches hm)),
    List.map_append, List.map_singleton, Runs.exec_snoc] at hheld
  obtain ⟨v, hv, rfl⟩ := Reader.listed_of_reconcile hheld
  obtain ⟨nodes, hnodes, n, hn, hpath, -, hdongle⟩ :=
    Sysfs.node_of_discover (hfiltered met hmet).1 (Sysfs.mem_discover_of_pass hv)
  exact ⟨nodes, hnodes, n, hn, hpath, hdongle⟩

/-- A dongle, and in the second turn the battery made for it. -/
theorem own_devices_unseen_of_one :
    let config : Config := ⟨seconds 60, seconds 10, seconds 30, "/dev/uhid"⟩
    let answers : Answers ℕ := ⟨.error "unused", .ok (), .ok (some "hid-0"), .ok ()⟩
    let dongle : Node ℕ := ⟨4, .usb, vendorId, 0x4b18, "Audeze Dongle"⟩
    let own (i : ℕ) : Node ℕ := ⟨5 + i, .virtual, vendorId, 0x4b18, "Audeze Maxwell"⟩
    let sysfs : Sysfs ℕ :=
      ⟨fun f => .ok ([dongle].filter f.admits), fun _ => none, fun _ => none, fun _ => false, none⟩
    let shown (b : Bridge ℕ) (sys : Sysfs ℕ) : Sysfs ℕ :=
      { sys with hidraw := fun f => (sys.hidraw f).map fun nodes =>
          ((List.range b.batteries.len).map own).filter f.admits ++ nodes }
    let met (now : ℕ) : Encounter ℕ ℕ :=
      ⟨sysfs, fun _ => .fetching (batteryFrame 80) (seconds now), seconds now, seconds 300,
        seconds now, false, fun _ => answers, []⟩
    let ran := Runs.exec (Daemon.meets shown) ⟨Reader.new, new config [7]⟩ [met 0, met 1]
    ran = run config [7] ([met 0, met 1].map fun met => met.round met.sysfs) ∧
      (shown ran.1.bridge sysfs).hidraw ⟨none, some vendorId⟩ = .ok [own 0, dongle] := by
  intro config answers dongle own sysfs shown met ran
  have hfiltered : ∀ m ∈ [met 0, met 1],
      m.sysfs.Filtered ∧ ∀ b, (shown b m.sysfs).Filtered := by
    have hplain : sysfs.Filtered := by
      rintro f nodes hnodes n hn
      obtain rfl := Except.ok.inj hnodes
      exact (List.mem_filter.1 hn).2
    have hshown (b : Bridge ℕ) : (shown b sysfs).Filtered := by
      rintro f nodes hnodes n hn
      obtain rfl := Except.ok.inj hnodes
      exact (List.mem_append.1 hn).elim (fun hn => (List.mem_filter.1 hn).2)
        fun hn => (List.mem_filter.1 hn).2
    simp [met, hplain, hshown]
  have hadds : ∀ m ∈ [met 0, met 1], ∀ b, (shown b m.sysfs).Adds m.sysfs := by
    have hone (b : Bridge ℕ) : (shown b sysfs).Adds sysfs := by
      refine ⟨fun f => congrArg Except.ok ?_, fun f nodes hnodes n hn => rfl, rfl⟩
      have hnone : (((List.range b.batteries.len).map own).filter f.admits).filter
          (fun n => n.bus ≠ .virtual) = [] := by
        refine List.filter_eq_nil_iff.2 fun n hn => ?_
        obtain ⟨i, -, rfl⟩ := List.mem_map.1 (List.mem_filter.1 hn).1
        simp [own]
      rw [List.filter_append, hnone, List.nil_append]
    simp [met, hone]
  refine ⟨(own_devices_unseen config [7] shown [met 0, met 1] hfiltered hadds).1, ?_⟩
  decide +kernel

end HeadsetBattery.Native
