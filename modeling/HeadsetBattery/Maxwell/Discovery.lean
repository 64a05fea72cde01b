import HeadsetBattery.Headsetcontrol
import HeadsetBattery.Maxwell.Belief
import Mathlib.Data.List.TakeWhile

/-!
# Finding the dongle

What sysfs says at a moment is an input: the hidraw nodes, where their links lead, and
the files of the USB devices. Listing the nodes that a filter admits is the transport's;
that it lists no others is a hypothesis where it matters.
-/
namespace HeadsetBattery.Maxwell

/-- The Maxwell dongle and the Maxwell Xbox dongle. -/
def productIds : List UInt16 := [0x4b19, 0x4b18]

/-- Whether this module handles the given USB device. -/
def supports (vendor product : UInt16) : Bool :=
  decide (vendor = vendorId) && productIds.contains product

/-- The bus of a HID device. The virtual batteries are on one of their own. -/
inductive Bus where
  | usb
  | virtual
  | other (code : UInt16)
  deriving DecidableEq, Repr

/-- A hidraw node, with the identity of its device. -/
structure Node (Path : Type) where
  path : Path
  bus : Bus
  vendor : UInt16
  product : UInt16
  name : String
  deriving DecidableEq, Repr

/-- Which nodes to list. -/
structure Filter where
  bus : Option Bus
  vendor : Option UInt16
  deriving DecidableEq, Repr

def Filter.admits {Path : Type} (f : Filter) (n : Node Path) : Bool :=
  f.bus.all (fun bus => n.bus = bus) && f.vendor.all fun vendor => n.vendor = vendor

/-- An entry of `/sys/bus/usb/devices`, with what can be read of its two files. -/
structure UsbDevice where
  idVendor : Option (List Char)
  idProduct : Option (List Char)
  deriving DecidableEq, Repr

/-- What sysfs says at a moment. -/
structure Sysfs (Path : Type) where
  /-- `hidraw::discover_in`, or why the class directory cannot be listed. -/
  hidraw : Filter → Except String (List (Node Path))
  /-- Where the `device` link of a node leads. -/
  device : Path → Option Path
  parent : Path → Option Path
  /-- The directory has a file `idVendor`. -/
  hasVendor : Path → Bool
  usbDevices : Option (List UsbDevice)

/-- What a dongle's product string is reported as when the kernel has none for it. -/
def defaultProduct : String := "Audeze Maxwell"

/-- Audeze's devices on USB. -/
def audezeOnUsb : Filter := ⟨some .usb, some vendorId⟩

/-- The ID that a file holds. -/
def readId (file : Option (List Char)) : Option UInt16 :=
  file.bind fun raw => Headsetcontrol.fromStrRadix16 (Headsetcontrol.trim raw)

namespace Sysfs

variable {Path : Type}

/-- Whether a Maxwell headset is plugged into this computer with a cable: any Audeze
device that is not one of the dongles counts. -/
def headsetIsWired (sys : Sysfs Path) : Bool :=
  match sys.usbDevices with
  | none => false
  | some devices => devices.any fun device =>
      decide (readId device.idVendor = some vendorId) &&
        (readId device.idProduct).any fun product => !productIds.contains product

/-- The USB device a hidraw node hangs under: two levels above its HID device. -/
def usbDeviceOf (sys : Sysfs Path) (node : Path) : Option Path :=
  (((sys.device node).bind sys.parent).bind sys.parent).filter sys.hasVendor

/-- `Dongle::from_node`. -/
def fromNode (sys : Sysfs Path) (n : Node Path) : Option (Dongle Path) :=
  if supports n.vendor n.product then
    some ⟨n.path, if n.name.isEmpty then defaultProduct else n.name, n.product,
      sys.usbDeviceOf n.path⟩
  else none

/-- The dongles sysfs lists. A sysfs that cannot be listed is reported as no dongle at
all. -/
def discover (sys : Sysfs Path) : List (Dongle Path) :=
  match sys.hidraw audezeOnUsb with
  | .ok nodes => nodes.filterMap sys.fromNode
  | .error _ => []

/-- The pass of a poll, with what the kernel answers to each dongle. -/
def pass (sys : Sysfs Path) (exchange : ℕ → Exchange Path) (now interval listenFirst : ℕ) :
    Pass Path :=
  ⟨sys.discover.zipIdx.map fun d => (d.1, exchange d.2), sys.headsetIsWired, now, interval,
    listenFirst⟩

/-! ## The cable -/

/-- The IDs of a USB device as the kernel writes them. Interfaces and hubs have none. -/
def written (ids : Option (UInt16 × UInt16)) : UsbDevice :=
  ⟨ids.map fun ids => (hex4 ids.1).toList ++ ['\n'], ids.map fun ids => (hex4 ids.2).toList ++ ['\n']⟩

theorem hexDigit_digitChar {n : ℕ} (hn : n < 16) :
    Headsetcontrol.hexDigit n.digitChar = some n ∧ n.digitChar ≠ '+' ∧
      Headset.isWhitespace n.digitChar = false := by
  have all : ∀ x : Fin 16, Headsetcontrol.hexDigit x.val.digitChar = some x.val ∧
      x.val.digitChar ≠ '+' ∧ Headset.isWhitespace x.val.digitChar = false := by decide
  exact all ⟨n, hn⟩

/-- Four digits are read as the number they were written for. -/
theorem fromStrRadix16_hex4 (n : UInt16) :
    Headsetcontrol.fromStrRadix16 (hex4 n).toList = some n := by
  have hlt := n.toNat_lt
  have d3 := hexDigit_digitChar (n := n.toNat / 4096) (by omega)
  have d2 := hexDigit_digitChar (n := n.toNat / 256 % 16) (by omega)
  have d1 := hexDigit_digitChar (n := n.toNat / 16 % 16) (by omega)
  have d0 := hexDigit_digitChar (n := n.toNat % 16) (by omega)
  have hsum : (((n.toNat / 4096 * 16 + n.toNat / 256 % 16) * 16 + n.toNat / 16 % 16) * 16 +
      n.toNat % 16) = n.toNat := by omega
  simp only [hex4, String.toList_ofList, Headsetcontrol.fromStrRadix16, List.head?_cons,
    Option.some.injEq, if_neg d3.2.1, List.isEmpty_cons, Bool.false_eq_true, if_false,
    Headsetcontrol.hexValue, d3.1, d2.1, d1.1, d0.1, Option.bind_some, Nat.zero_mul, Nat.zero_add]
  rw [if_pos (by omega), if_pos (by omega), if_pos (by omega), if_pos (by omega), hsum]
  simp

/-- A line is trimmed of its end. -/
theorem trim_line {cs : List Char} (hne : cs ≠ [])
    (h : ∀ c ∈ cs, Headset.isWhitespace c = false) : Headsetcontrol.trim (cs ++ ['\n']) = cs := by
  have hstart : (cs ++ ['\n']).dropWhile Headset.isWhitespace = cs ++ ['\n'] := by
    obtain ⟨c, cs, rfl⟩ := List.exists_cons_of_ne_nil hne
    exact List.dropWhile_cons_of_neg (by simp [h c (by simp)])
  have hnewline : Headset.isWhitespace '\n' = true := by decide
  have hend : cs.reverse.dropWhile Headset.isWhitespace = cs.reverse :=
    List.dropWhile_eq_self_iff.2 fun hlength => by
      simp only [h _ (List.mem_reverse.1 (List.getElem_mem hlength)), Bool.false_eq_true, not_false_iff]
  rw [Headsetcontrol.trim, hstart, List.reverse_append, List.reverse_singleton,
    List.singleton_append, List.dropWhile_cons_of_pos hnewline, hend, List.reverse_reverse]

theorem readId_line (n : UInt16) : readId (some ((hex4 n).toList ++ ['\n'])) = some n := by
  have hlt := n.toNat_lt
  have hplain : ∀ c ∈ (hex4 n).toList, Headset.isWhitespace c = false := by
    have d3 := hexDigit_digitChar (n := n.toNat / 4096) (by omega)
    have d2 := hexDigit_digitChar (n := n.toNat / 256 % 16) (by omega)
    have d1 := hexDigit_digitChar (n := n.toNat / 16 % 16) (by omega)
    have d0 := hexDigit_digitChar (n := n.toNat % 16) (by omega)
    simp [hex4, d3.2.2, d2.2.2, d1.2.2, d0.2.2]
  rw [readId, Option.bind_some, trim_line (by simp [hex4]) hplain, fromStrRadix16_hex4]

/-- A headset is on a cable exactly if a USB device of Audeze is there that is no
dongle. -/
theorem headsetIsWired_iff {sys : Sysfs Path} {ids : List (Option (UInt16 × UInt16))}
    (h : sys.usbDevices = some (ids.map written)) :
    sys.headsetIsWired = true ↔ ∃ product, some (vendorId, product) ∈ ids ∧ product ∉ productIds := by
  simp only [headsetIsWired, h, List.any_map, List.any_eq_true, Function.comp_apply]
  constructor
  · rintro ⟨entry, hentry, hcounts⟩
    cases entry with
    | none => simp [written, readId] at hcounts
    | some entry =>
        obtain ⟨vendor, product⟩ := entry
        simp only [written, Option.map_some, readId_line, Option.some.injEq, Option.any_some,
          Bool.and_eq_true, decide_eq_true_eq, Bool.not_eq_true', List.contains_eq_mem,
          decide_eq_false_iff_not] at hcounts
        obtain ⟨rfl, hproduct⟩ := hcounts
        exact ⟨product, hentry, hproduct⟩
  · rintro ⟨product, hmem, hproduct⟩
    refine ⟨some (vendorId, product), hmem, ?_⟩
    simp [written, readId_line, hproduct]

/-! ## The dongles -/

/-- The transport lists no node that the filter does not admit. -/
def Filtered (sys : Sysfs Path) : Prop :=
  ∀ f nodes, sys.hidraw f = .ok nodes → ∀ n ∈ nodes, f.admits n = true

/-- A node of a dongle: on USB, of Audeze, and a dongle's product. -/
structure IsDongle (n : Node Path) : Prop where
  bus : n.bus = .usb
  vendor : n.vendor = vendorId
  product : n.product ∈ productIds

/-- Every dongle found is a node the transport lists, and a dongle's. -/
theorem node_of_discover {sys : Sysfs Path} (h : sys.Filtered) {d : Dongle Path}
    (hd : d ∈ sys.discover) :
    ∃ nodes, sys.hidraw audezeOnUsb = .ok nodes ∧
      ∃ n ∈ nodes, n.path = d.node ∧ n.product = d.productId ∧ IsDongle n := by
  unfold discover at hd
  cases hnodes : sys.hidraw audezeOnUsb with
  | error err => simp [hnodes] at hd
  | ok nodes =>
      simp only [hnodes] at hd
      obtain ⟨n, hn, hfound⟩ := List.mem_filterMap.1 hd
      have hadmits := h audezeOnUsb nodes hnodes n hn
      simp only [Filter.admits, audezeOnUsb, Option.all_some, Bool.and_eq_true,
        decide_eq_true_eq] at hadmits
      unfold fromNode at hfound
      split at hfound
      next hsupports =>
        obtain rfl := Option.some.inj hfound
        simp only [supports, Bool.and_eq_true, List.contains_iff_mem] at hsupports
        exact ⟨nodes, rfl, n, hn, rfl, rfl, hadmits.1, hadmits.2, hsupports.2⟩
      next => cases hfound

theorem mem_discover_of_pass {sys : Sysfs Path} {exchange : ℕ → Exchange Path}
    {now interval listenFirst : ℕ} {v : Dongle Path × Exchange Path}
    (hv : v ∈ (sys.pass exchange now interval listenFirst).listed) : v.1 ∈ sys.discover := by
  obtain ⟨d, hd, rfl⟩ := List.mem_map.1 hv
  exact List.fst_mem_of_mem_zipIdx hd

/-- Another sysfs with the same and some virtual devices besides, wherever these are
listed. -/
structure Adds (grown sys : Sysfs Path) : Prop where
  nodes : ∀ f, (grown.hidraw f).map (List.filter fun n => n.bus ≠ .virtual) =
    (sys.hidraw f).map (List.filter fun n => n.bus ≠ .virtual)
  links : ∀ f nodes, sys.hidraw f = .ok nodes → ∀ n ∈ nodes,
    grown.usbDeviceOf n.path = sys.usbDeviceOf n.path
  usbDevices : grown.usbDevices = sys.usbDevices

/-- What a filter for one bus lists has nothing of another. -/
theorem filter_hidraw {sys : Sysfs Path} (h : sys.Filtered) :
    (sys.hidraw audezeOnUsb).map (List.filter fun n => n.bus ≠ .virtual) =
      sys.hidraw audezeOnUsb := by
  cases hnodes : sys.hidraw audezeOnUsb with
  | error err => rfl
  | ok nodes =>
      refine congrArg Except.ok (List.filter_eq_self.2 fun n hn => ?_)
      have hadmits := h audezeOnUsb nodes hnodes n hn
      simp only [Filter.admits, audezeOnUsb, Option.all_some, Bool.and_eq_true,
        decide_eq_true_eq] at hadmits
      simp [hadmits.1]

/-- Virtual devices are not found. -/
theorem Adds.discover_eq {grown sys : Sysfs Path} (h : grown.Adds sys) (hgrown : grown.Filtered)
    (hsys : sys.Filtered) : grown.discover = sys.discover := by
  have hsame : grown.hidraw audezeOnUsb = sys.hidraw audezeOnUsb := by
    rw [← filter_hidraw hgrown, h.nodes, filter_hidraw hsys]
  unfold discover
  rw [hsame]
  cases hnodes : sys.hidraw audezeOnUsb with
  | error err => rfl
  | ok nodes =>
      refine List.filterMap_congr fun n hn => ?_
      rw [fromNode, fromNode, h.links audezeOnUsb nodes hnodes n hn]

theorem Adds.pass_eq {grown sys : Sysfs Path} (h : grown.Adds sys) (hgrown : grown.Filtered)
    (hsys : sys.Filtered) (exchange : ℕ → Exchange Path) (now interval listenFirst : ℕ) :
    grown.pass exchange now interval listenFirst = sys.pass exchange now interval listenFirst := by
  have hwired : grown.headsetIsWired = sys.headsetIsWired := by
    rw [headsetIsWired, headsetIsWired, h.usbDevices]
  rw [pass, pass, h.discover_eq hgrown hsys, hwired]

end Sysfs

end HeadsetBattery.Maxwell
