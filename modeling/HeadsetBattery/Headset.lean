import Mathlib.Data.Nat.Digits.Defs
import Mathlib.Data.List.Basic

/-!
# What every battery reader reports

Instants and durations are natural numbers of nanoseconds on one monotonic
clock; the truncated subtraction of naturals is `Instant::duration_since`,
which saturates at zero. Levels are naturals: a reader only ever builds them
from a byte, and nothing downstream wraps.
-/
namespace HeadsetBattery

/-- `Duration::from_secs`. -/
def seconds (n : ℕ) : ℕ := n * 1000000000

/-- What a headset says about its battery. -/
inductive BatteryState where
  | discharging (percent : ℕ)
  | charging (percent : Option ℕ)
  | unavailable
  | disconnected
  deriving DecidableEq, Repr

namespace BatteryState

/-- The level a state carries, if it carries one. -/
def level : BatteryState → Option ℕ
  | discharging percent => some percent
  | charging percent => percent
  | unavailable | disconnected => none

/-- A state that says the headset is there: running on battery, or plugged in
with or without a level. -/
def answers : BatteryState → Bool
  | discharging _ | charging _ => true
  | unavailable | disconnected => false

end BatteryState

/-- One headset, as reported by whichever reader found it. `sample` numbers the
reading for a reader that reports the same one on several polls in a row. -/
structure Headset where
  name : String
  product : String
  vendorId : UInt16
  productId : UInt16
  supportsBattery : Bool
  battery : BatteryState
  sample : Option ℕ
  deriving DecidableEq, Repr

/-- `{:04x}`: a 16-bit number always has at most four hexadecimal digits. -/
def hex4 (n : UInt16) : String :=
  String.ofList [(n.toNat / 4096).digitChar, (n.toNat / 256 % 16).digitChar,
    (n.toNat / 16 % 16).digitChar, (n.toNat % 16).digitChar]

theorem digitChar_injective {a b : ℕ} (ha : a < 16) (hb : b < 16)
    (h : a.digitChar = b.digitChar) : a = b := by
  have all : ∀ x : Fin 16, ∀ y : Fin 16, x.val.digitChar = y.val.digitChar → x = y := by decide
  exact congrArg Fin.val (all ⟨a, ha⟩ ⟨b, hb⟩ h)

theorem hex4_injective {m n : UInt16} (h : hex4 m = hex4 n) : m = n := by
  have hlt : m.toNat < 65536 ∧ n.toNat < 65536 := ⟨m.toNat_lt, n.toNat_lt⟩
  simp only [hex4, String.ofList_inj, List.cons.injEq, and_true] at h
  obtain ⟨h3, h2, h1, h0⟩ := h
  have d3 := digitChar_injective (by omega) (by omega) h3
  have d2 := digitChar_injective (by omega) (by omega) h2
  have d1 := digitChar_injective (by omega) (by omega) h1
  have d0 := digitChar_injective (by omega) (by omega) h0
  exact UInt16.toNat_inj.1 (by omega)

@[simp] theorem hex4_toList_length (n : UInt16) : (hex4 n).toList.length = 4 := by
  simp [hex4]

namespace Headset

/-- A stable identifier, used to match a headset across polls. -/
def key (h : Headset) : String := hex4 h.vendorId ++ ":" ++ hex4 h.productId ++ "/" ++ h.name

/-- A short, filesystem-safe identifier for the virtual device; the kernel
builds the name of the power supply out of it. -/
def uniq (h : Headset) : String := "headset-" ++ hex4 h.vendorId ++ "-" ++ hex4 h.productId

/-- The identifier given to the kernel is exactly the pair of USB IDs. -/
theorem uniq_eq_iff {h h' : Headset} :
    h.uniq = h'.uniq ↔ h.vendorId = h'.vendorId ∧ h.productId = h'.productId := by
  constructor
  · intro he
    have hl := congrArg String.toList he
    simp only [uniq, String.toList_append] at hl
    obtain ⟨hv, hp⟩ := List.append_inj hl (by simp)
    obtain ⟨hv, -⟩ := List.append_inj hv (by simp)
    obtain ⟨-, hv⟩ := List.append_inj hv (by simp)
    exact ⟨hex4_injective (String.toList_inj.1 hv), hex4_injective (String.toList_inj.1 hp)⟩
  · rintro ⟨hv, hp⟩
    rw [uniq, uniq, hv, hp]

/-- The identifier used across polls adds the model name to the pair. -/
theorem key_eq_iff {h h' : Headset} :
    h.key = h'.key ↔
      h.vendorId = h'.vendorId ∧ h.productId = h'.productId ∧ h.name = h'.name := by
  constructor
  · intro he
    have hl := congrArg String.toList he
    simp only [key, String.toList_append] at hl
    obtain ⟨hids, hn⟩ := List.append_inj hl (by simp)
    obtain ⟨hids, -⟩ := List.append_inj hids (by simp)
    obtain ⟨hv, hp⟩ := List.append_inj hids (by simp)
    obtain ⟨hv, -⟩ := List.append_inj hv (by simp)
    exact ⟨hex4_injective (String.toList_inj.1 hv), hex4_injective (String.toList_inj.1 hp),
      String.toList_inj.1 hn⟩
  · rintro ⟨hv, hp, hn⟩
    rw [key, key, hv, hp, hn]

/-! ## The name desktops show -/

/-- `char::is_control`: general category `Cc`. -/
def isControl (c : Char) : Bool := c.toNat ≤ 0x1f || (0x7f ≤ c.toNat && c.toNat ≤ 0x9f)

/-- `char::is_whitespace`: property `White_Space`. -/
def isWhitespace (c : Char) : Bool :=
  (0x09 ≤ c.toNat && c.toNat ≤ 0x0d) || (0x2000 ≤ c.toNat && c.toNat ≤ 0x200a) ||
    [0x20, 0x85, 0xa0, 0x1680, 0x2028, 0x2029, 0x202f, 0x205f, 0x3000].contains c.toNat

/-- `str::len`, the number of UTF-8 bytes. -/
def byteLength (cs : List Char) : ℕ := (cs.map Char.utf8Size).sum

/-- `str::is_char_boundary`, counting bytes from the first character on. -/
def isCharBoundary : List Char → ℕ → Bool
  | _, 0 => true
  | [], _ + 1 => false
  | c :: cs, n + 1 => c.utf8Size ≤ n + 1 && isCharBoundary cs (n + 1 - c.utf8Size)

/-- The loop that steps back to a boundary; offset zero always is one. -/
def floorBoundary (cs : List Char) : ℕ → ℕ
  | 0 => 0
  | n + 1 => if isCharBoundary cs (n + 1) then n + 1 else floorBoundary cs n

/-- `String::truncate` at a boundary. -/
def truncate : List Char → ℕ → List Char
  | _, 0 => []
  | [], _ + 1 => []
  | c :: cs, n + 1 => c :: truncate cs (n + 1 - c.utf8Size)

/-- The kernel's name field is 128 bytes, the terminating zero included. -/
def maxBytes : ℕ := 127

def displayName (h : Headset) : String :=
  let kept := h.name.toList.filter (fun c => !isControl c)
  let name := truncate kept (floorBoundary kept (min (byteLength kept) maxBytes))
  if name.all isWhitespace then "Headset" else String.ofList name

end Headset

end HeadsetBattery
