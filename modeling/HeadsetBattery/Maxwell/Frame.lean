import HeadsetBattery.Headset
import Mathlib.Data.List.Basic

/-!
# The dongle's report

The request that asks, the frame that answers, and the messages found in it.
The report is a stream of small messages, oldest first, whose second byte
counts the bytes written since it was last fetched; whatever lies beyond is
left over from earlier exchanges.
-/
namespace HeadsetBattery.Maxwell

/-- Every report the dongle exchanges is this long, report ID included. -/
def msgSize : ℕ := 62

/-- Report ID of the dongle's answers. -/
def replyReportId : UInt8 := 0x07

/-- Offset of the count of fresh bytes in an input report. -/
def freshLenOffset : ℕ := 1

/-- Offset of the first message in an input report. -/
def payloadOffset : ℕ := 3

/-- Header of the battery answer; the level follows. -/
def batteryAnswer : List UInt8 := [0x5d, 0x05, 0x00, 0xd6, 0x0c, 0x00, 0x00]

/-- Header of a link event; `01` follows when the headset is linked, `00` when
it is gone. -/
def linkEvent : List UInt8 := [0x5d, 0x0e, 0x00, 0xb1, 0x2c, 0x00, 0x02]

/-- A report as fetched: the buffer always has the dongle's fixed size. -/
structure Frame where
  bytes : List UInt8
  size : bytes.length = msgSize

/-- Something the dongle's report stream said. -/
inductive Message where
  | link (up : Bool)
  | battery (level : ℕ)
  deriving DecidableEq, Repr

/-- The part of an input report written since it was last fetched. A count
larger than the buffer is clamped to it. -/
def fresh (frame : List UInt8) : List UInt8 :=
  let len := (frame[freshLenOffset]?.map UInt8.toNat).getD 0
  let stop := min (payloadOffset + len) frame.length
  (frame.take stop).drop payloadOffset

/-- The message that starts at the head of `rest`, if one does. The full header
has to match, so an acknowledgement is not read as a level. -/
def messageAt (rest : List UInt8) : Option Message :=
  match (rest.dropPrefix? batteryAnswer).bind List.head? with
  | some value => if value.toNat ≤ 100 then some (.battery value.toNat) else none
  | none => ((rest.dropPrefix? linkEvent).bind List.head?).map fun state => .link (state != 0)

/-- Everything the fresh part of an input report says, oldest first. -/
def messages (frame : List UInt8) : List Message :=
  let data := fresh frame
  (List.range data.length).filterMap fun i => messageAt (data.drop i)

/-- A level above 100 is skipped. -/
theorem battery_le_of_mem_messages {frame : List UInt8} {level : ℕ}
    (h : Message.battery level ∈ messages frame) : level ≤ 100 := by
  obtain ⟨i, -, hi⟩ := List.mem_filterMap.1 h
  unfold messageAt at hi
  split at hi
  · split at hi
    next hle => cases hi; exact hle
    next => cases hi
  · obtain ⟨state, -, hs⟩ := Option.map_eq_some_iff.1 hi
    cases hs

/-- A frame with `stream` as its only fresh content, for a stream that fits. -/
def frameWith (stream : List UInt8) (h : stream.length ≤ 59) : Frame where
  bytes := replyReportId :: UInt8.ofNat stream.length :: 0 ::
    (stream ++ List.replicate (59 - stream.length) 0)
  size := by simp [msgSize]; omega

/-- A report with nothing fresh in it. -/
def silentFrame : Frame := frameWith [] (by decide)

/-- A report with one battery answer. -/
def batteryFrame (level : UInt8) : Frame :=
  frameWith [0x05, 0x5d, 0x05, 0x00, 0xd6, 0x0c, 0x00, 0x00, level] (by simp)

/-- A report with one link event. -/
def linkFrame (state : UInt8) : Frame :=
  frameWith [0x05, 0x5d, 0x0e, 0x00, 0xb1, 0x2c, 0x00, 0x02, state, 0x01] (by simp)

/-- What the dongle said, unprompted, when a headset was switched back on: an
acknowledgement, the link event, an acknowledgement, then the level. -/
example : messages (frameWith
    [0x05, 0x5c, 0x03, 0x00, 0x80, 0x2c, 0x01, 0x05, 0x5d, 0x0e, 0x00, 0xb1, 0x2c, 0x00, 0x02,
      0x01, 0x01, 0x8d, 0x90, 0x9b, 0x67, 0x89, 0xc2, 0x80, 0x01, 0x05, 0x5c, 0x03, 0x00, 0x80,
      0x2c, 0x03, 0x05, 0x5b, 0x03, 0x00, 0xd6, 0x0c, 0x00, 0x05, 0x5d, 0x05, 0x00, 0xd6, 0x0c,
      0x00, 0x00, 0x63] (by decide)).bytes = [.link true, .battery 99] := by decide

end HeadsetBattery.Maxwell
