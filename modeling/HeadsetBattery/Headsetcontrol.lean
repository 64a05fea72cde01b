import HeadsetBattery.Headset
import Mathlib.Data.List.Forall2

/-!
# What HeadsetControl reports

From the text of its JSON report to headsets. Reading a JSON document is taken
from outside: it gives the fields the document has, and those it lacks are
filled in with their defaults. Every probe runs the binary again, so readings
carry no sample.
-/
namespace HeadsetBattery.Headsetcontrol

/-- The battery object of a device; `level` is an `i32`. -/
structure Battery where
  status : String
  level : ℤ
  deriving DecidableEq, Repr

/-- A device of the report, with the defaults of absent fields filled in. -/
structure Device where
  model : String
  product : String
  idVendor : String
  idProduct : String
  capabilities : List String
  battery : Option Battery
  deriving DecidableEq, Repr

def batteryState (battery : Battery) : BatteryState :=
  -- `u8::try_from`, then the range a level can have.
  let level := (if 0 ≤ battery.level ∧ battery.level ≤ 255 then some battery.level.toNat else none)
    |>.filter fun level => level ≤ 100
  if battery.status = "BATTERY_AVAILABLE" then level.elim .unavailable .discharging
  else if battery.status = "BATTERY_CHARGING" then .charging level
  else .unavailable

/-- `char::to_digit(16)`. -/
def hexDigit (c : Char) : Option ℕ :=
  if '0' ≤ c ∧ c ≤ '9' then some (c.toNat - '0'.toNat)
  else if 'a' ≤ c ∧ c ≤ 'f' then some (c.toNat - 'a'.toNat + 10)
  else if 'A' ≤ c ∧ c ≤ 'F' then some (c.toNat - 'A'.toNat + 10)
  else none

/-- The digits of `u16::from_str_radix`, with its overflow check after each. -/
def hexValue (value : ℕ) : List Char → Option ℕ
  | [] => some value
  | c :: cs =>
      (hexDigit c).bind fun digit =>
        if value * 16 + digit < 65536 then hexValue (value * 16 + digit) cs else none

/-- `u16::from_str_radix(digits, 16)`: one leading plus sign, at least one digit,
nothing that does not fit. -/
def fromStrRadix16 (digits : List Char) : Option UInt16 :=
  let unsigned := if digits.head? = some '+' then digits.tail else digits
  if unsigned.isEmpty then none else (hexValue 0 unsigned).map UInt16.ofNat

/-- `str::trim`. -/
def trim (cs : List Char) : List Char :=
  ((cs.dropWhile Headset.isWhitespace).reverse.dropWhile Headset.isWhitespace).reverse

/-- Parses the `0x3329` form HeadsetControl uses for USB identifiers. -/
def parseId (raw : String) : UInt16 :=
  let trimmed := trim raw.toList
  let digits :=
    match trimmed with
    | '0' :: 'x' :: rest => rest
    | '0' :: 'X' :: rest => rest
    | _ => trimmed
  (fromStrRadix16 digits).getD 0

/-- `Headset::from`. -/
def headset (device : Device) : Headset where
  name := device.model
  product := device.product
  vendorId := parseId device.idVendor
  productId := parseId device.idProduct
  supportsBattery := device.capabilities.any fun capability => capability = "CAP_BATTERY_STATUS"
  battery := device.battery.elim .unavailable batteryState
  sample := none

example : parseId " 0x3329" = 0x3329 ∧ parseId "usb" = 0 := by decide +kernel

/-! ## The document -/

/-- The battery object of a document, with the fields it has. -/
structure RawBattery where
  status : Option String
  level : Option Int32
  deriving DecidableEq, Repr

/-- A device of a document, with the fields it has. -/
structure RawDevice where
  model : Option String
  product : Option String
  idVendor : Option String
  idProduct : Option String
  capabilities : Option (List String)
  battery : Option RawBattery
  deriving DecidableEq, Repr

/-- A document, with the fields it has. -/
structure RawReport where
  devices : Option (List RawDevice)
  deriving DecidableEq, Repr

def RawBattery.filled (battery : RawBattery) : Battery where
  status := battery.status.getD ""
  level := (battery.level.getD 0).toInt

def RawDevice.filled (device : RawDevice) : Device where
  model := device.model.getD ""
  product := device.product.getD ""
  idVendor := device.idVendor.getD ""
  idProduct := device.idProduct.getD ""
  capabilities := device.capabilities.getD []
  battery := device.battery.map RawBattery.filled

/-- The JSON part of the output: from the first brace, if it has one. -/
def json (stdout : List Char) : List Char :=
  trim (if '\x7b' ∈ stdout then stdout.dropWhile (fun c => c ≠ '\x7b') else stdout)

/-- Parse the output of `headsetcontrol --output json`; `fromStr` reads a JSON
document. -/
def parse (fromStr : List Char → Except String RawReport) (stdout : List Char) :
    Except (List String) (List Headset) :=
  if (json stdout).isEmpty then .ok []
  else
    match fromStr (json stdout) with
    | .error err => .error ["parsing JSON report", err]
    | .ok report => .ok ((report.devices.getD []).map fun device => headset device.filled)

/-! ## Levels and where they come from -/

/-- The level a battery object states, if it states one a battery can have. -/
def RawBattery.statedLevel (battery : RawBattery) : Option ℕ :=
  battery.level.bind fun level =>
    if 0 ≤ level.toInt ∧ level.toInt ≤ 100 then some level.toInt.toNat else none

/-- What a battery object states, with no level but a stated one. -/
def RawBattery.stated (battery : RawBattery) : BatteryState :=
  if battery.status = some "BATTERY_AVAILABLE" then
    battery.statedLevel.elim .unavailable .discharging
  else if battery.status = some "BATTERY_CHARGING" then .charging battery.statedLevel
  else .unavailable

/-- One headset per device, in order, each with the battery its device states. -/
def Stated (devices : List RawDevice) (headsets : List Headset) : Prop :=
  List.Forall₂ (fun device h =>
    h.name = device.model.getD "" ∧ h.product = device.product.getD "" ∧
      h.battery = device.battery.elim .unavailable RawBattery.stated) devices headsets

theorem Stated.batteries {devices : List RawDevice} {headsets : List Headset}
    (h : Stated devices headsets) :
    headsets.map Headset.battery =
      devices.map fun device => device.battery.elim .unavailable RawBattery.stated := by
  induction h with
  | nil => rfl
  | cons hdevice _ ih => rw [List.map_cons, List.map_cons, hdevice.2.2, ih]

/-- A battery object that says the headset answers and has no level field. -/
def RawBattery.Unlevelled (battery : RawBattery) : Prop :=
  battery.level = none ∧
    (battery.status = some "BATTERY_AVAILABLE" ∨ battery.status = some "BATTERY_CHARGING")

/-- A number fits a byte and then a percentage exactly when it is a percentage. -/
theorem percent_of_byte (n : ℤ) :
    ((if 0 ≤ n ∧ n ≤ 255 then some n.toNat else none).filter fun level => level ≤ 100) =
      if 0 ≤ n ∧ n ≤ 100 then some n.toNat else none := by
  by_cases hpercent : 0 ≤ n ∧ n ≤ 100
  · have hbyte : 0 ≤ n ∧ n ≤ 255 := by omega
    have hle : n.toNat ≤ 100 := by omega
    simp [hbyte, hpercent, hle]
  · by_cases hbyte : 0 ≤ n ∧ n ≤ 255
    · have hlt : ¬n.toNat ≤ 100 := by omega
      rw [if_pos hbyte, if_neg hpercent]
      simpa using hlt
    · simp [hbyte, hpercent]

/-- An absent status is none of those that mean something. -/
theorem status_filled (battery : RawBattery) {text : String} (hne : text ≠ "") :
    battery.filled.status = text ↔ battery.status = some text := by
  cases hs : battery.status with
  | none => simp [RawBattery.filled, hs, hne.symm]
  | some status => simp [RawBattery.filled, hs]

/-- What a battery object is read as: like what it states, but for the level, which
is that of the field's default when the field is absent. -/
theorem batteryState_filled (battery : RawBattery) :
    batteryState battery.filled =
      ({ battery with level := some (battery.level.getD 0) } : RawBattery).stated := by
  have hlevel : battery.filled.level = (battery.level.getD 0).toInt := rfl
  have havailable := status_filled battery (by decide : "BATTERY_AVAILABLE" ≠ "")
  have hcharging := status_filled battery (by decide : "BATTERY_CHARGING" ≠ "")
  simp only [batteryState, percent_of_byte, hlevel, havailable, hcharging, RawBattery.stated,
    RawBattery.statedLevel, Option.bind_some]

/-- A battery object is read as it states exactly when it has a level field, or
states nothing that a level would matter to. -/
theorem batteryState_filled_iff (battery : RawBattery) :
    batteryState battery.filled = battery.stated ↔ ¬battery.Unlevelled := by
  rw [batteryState_filled]
  obtain ⟨status, level⟩ := battery
  cases level with
  | some level => simp [RawBattery.Unlevelled]
  | none =>
      have hzero : (0 : Int32).toInt = 0 := by decide
      simp only [RawBattery.Unlevelled, RawBattery.stated, RawBattery.statedLevel,
        Option.getD_none, Option.bind_some, Option.bind_none, hzero, true_and]
      by_cases havailable : status = some "BATTERY_AVAILABLE"
      · simp [havailable]
      · by_cases hcharging : status = some "BATTERY_CHARGING"
        · simp [hcharging]
        · simp [havailable, hcharging]

/-- A headset per device, in order, and levels only where the report states them:
this holds of a report exactly when no battery object that says its headset answers
lacks the level field. An absent level is read as zero. -/
theorem levels_stated_iff (fromStr : List Char → Except String RawReport) (stdout : List Char)
    (report : RawReport) (htext : json stdout ≠ []) (hreport : fromStr (json stdout) = .ok report) :
    (∃ headsets, parse fromStr stdout = .ok headsets ∧ Stated (report.devices.getD []) headsets) ↔
      ∀ device ∈ report.devices.getD [], ∀ battery ∈ device.battery, ¬battery.Unlevelled := by
  have hparse : parse fromStr stdout =
      .ok ((report.devices.getD []).map fun device => headset device.filled) := by
    rw [parse, if_neg (by simpa using htext)]
    simp only [hreport]
  have hdevice (device : RawDevice) :
      (headset device.filled).battery = device.battery.elim .unavailable RawBattery.stated ↔
        ∀ battery ∈ device.battery, ¬battery.Unlevelled := by
    cases hb : device.battery with
    | none => simp [headset, RawDevice.filled, hb]
    | some battery =>
        simpa [headset, RawDevice.filled, hb] using batteryState_filled_iff battery
  rw [hparse]
  constructor
  · rintro ⟨headsets, heq, hstated⟩
    obtain rfl := Except.ok.inj heq
    intro device hmem
    have hall := List.forall₂_map_right_iff.1 hstated
    exact (hdevice device).1 (List.forall₂_same.1 hall device hmem).2.2
  · intro hlevelled
    refine ⟨_, rfl, List.forall₂_map_right_iff.2 (List.forall₂_same.2 fun device hmem => ?_)⟩
    exact ⟨rfl, rfl, (hdevice device).2 (hlevelled device hmem)⟩

/-- A notice, then a document whose one headset charges and has no level to give. -/
theorem levels_stated_iff_of_charging :
    let text := "\x7b\"devices\":[\x7b\"device\":\"X\",\"battery\":" ++
      "\x7b\"status\":\"BATTERY_CHARGING\",\"level\":-1\x7d\x7d]\x7d"
    let report : RawReport := ⟨some [⟨some "X", none, none, none, none,
      some ⟨some "BATTERY_CHARGING", some (-1)⟩⟩]⟩
    let fromStr : List Char → Except String RawReport := fun cs =>
      if cs = text.toList then .ok report else .error "expected value"
    ∃ headsets, parse fromStr ("No config file found\n" ++ text).toList = .ok headsets ∧
      Stated (report.devices.getD []) headsets := by
  intro text report fromStr
  have hjson : json ("No config file found\n" ++ text).toList = text.toList := by decide +kernel
  refine (levels_stated_iff fromStr _ report ?_ ?_).2 ?_
  · rw [hjson]
    decide +kernel
  · rw [hjson]
    exact if_pos rfl
  · simp [report, RawBattery.Unlevelled]

/-- Two headsets that answer, neither with a level field: both are given a level of
zero. -/
theorem levels_invented_when_absent :
    let text := "\x7b\"devices\":[\x7b\"battery\":\x7b\"status\":\"BATTERY_AVAILABLE\"\x7d\x7d," ++
      "\x7b\"battery\":\x7b\"status\":\"BATTERY_CHARGING\"\x7d\x7d]\x7d"
    let device (status : String) : RawDevice :=
      ⟨none, none, none, none, none, some ⟨some status, none⟩⟩
    let devices := [device "BATTERY_AVAILABLE", device "BATTERY_CHARGING"]
    let fromStr : List Char → Except String RawReport := fun cs =>
      if cs = text.toList then .ok ⟨some devices⟩ else .error "expected value"
    (parse fromStr text.toList).toOption.map (List.map Headset.battery) =
        some [.discharging 0, .charging (some 0)] ∧
      devices.map (fun d => d.battery.elim .unavailable RawBattery.stated) =
        [.unavailable, .charging none] ∧
      ¬∃ headsets, parse fromStr text.toList = .ok headsets ∧ Stated devices headsets := by
  intro text device devices fromStr
  have hread : (parse fromStr text.toList).toOption.map (List.map Headset.battery) =
      some [.discharging 0, .charging (some 0)] := by decide +kernel
  refine ⟨hread, by decide +kernel, ?_⟩
  rintro ⟨headsets, heq, hstated⟩
  rw [heq] at hread
  have hbatteries := hstated.batteries
  rw [Option.some.inj hread] at hbatteries
  revert hbatteries
  decide +kernel

end HeadsetBattery.Headsetcontrol
