import HeadsetBattery.Maxwell.Frame

/-!
# One open dongle

What a session knows about the headset behind its dongle, when it asks for the
level, and the access errors worth a line. The results of the transfers are
inputs: a fetch gives a frame or fails, a write succeeds or fails.
-/
namespace HeadsetBattery.Maxwell

/-- Requests a linked headset may leave unanswered before the reader stops
asking. -/
def maxUnanswered : ℕ := 3

/-- After opening a dongle, listen this long before asking anything. -/
def listenFirst : ℕ := seconds 3

/-- How long to wait before asking again a session that has heard nothing, one
entry per extra question. -/
def askAgainAfter : List ℕ := [seconds 10, seconds 30]

/-- Once the quick questions are spent, how long between further ones. -/
def askIdleRetry : ℕ := seconds 600

/-- How long an access error has to last before it is worth a warning. -/
def errorSettle : ℕ := seconds 5

/-- A failed transfer: its text, whether it means the device is gone, and
whether it was refused for lack of permission. -/
structure IoError where
  text : String
  gone : Bool
  denied : Bool
  deriving DecidableEq, Repr

/-! ## Access errors -/

/-- The access error being watched: its text, since when it has been seen, and
whether it has been reported. -/
structure AccessWatch where
  last : Option (String × ℕ × Bool)
  deriving DecidableEq, Repr

namespace AccessWatch

def new : AccessWatch := ⟨none⟩

/-- Take in a failure, and say whether it is worth a warning now. A different
error starts a new clock. -/
def failing (w : AccessWatch) (message : String) (now : ℕ) : AccessWatch × Bool :=
  let (since, reported) :=
    match w.last with
    | some (previous, since, reported) =>
        if previous = message then (since, reported) else (now, false)
    | none => (now, false)
  let report := !reported && decide (errorSettle ≤ now - since)
  (⟨some (message, since, reported || report)⟩, report)

/-- Take in a success, and say whether the recovery is worth a line. -/
def recovered (w : AccessWatch) : AccessWatch × Bool :=
  (⟨none⟩, match w.last with | some (_, _, reported) => reported | none => false)

end AccessWatch

/-! ## The session -/

/-- What the dongle last said about the headset's radio link. -/
inductive Link where
  | unknown
  | up
  | down
  deriving DecidableEq, Repr

/-- A Maxwell dongle found in sysfs. Paths are of any ordered type. -/
structure Dongle (Path : Type) where
  node : Path
  product : String
  productId : UInt16
  usbDevice : Option Path
  deriving DecidableEq, Repr

/-- One open dongle, and what is known about the headset behind it. -/
structure Session (Path : Type) where
  productId : UInt16
  usbDevice : Option Path
  link : Link
  level : Option ℕ
  /-- Which of the reader's battery messages `level` came from; zero before the
  first. -/
  sample : ℕ
  openedAt : ℕ
  /-- When a battery request was last sent, and how many were in this session. -/
  askedAt : Option ℕ
  asks : ℕ
  /-- Whether that request is still waiting for its answer. -/
  pending : Bool
  /-- How many requests in a row went unanswered. -/
  unanswered : ℕ
  deriving DecidableEq, Repr

/-- What became of a request that was due. -/
inductive Asked where
  | gaveUp
  | sent
  | failed (err : IoError)
  deriving DecidableEq, Repr

namespace Session

variable {Path : Type}

/-- Open a dongle; `link` is what the previous session on it knew. -/
def opened (dongle : Dongle Path) (link : Link) (openedAt : ℕ) : Session Path where
  productId := dongle.productId
  usbDevice := dongle.usbDevice
  link := link
  level := none
  sample := 0
  openedAt := openedAt
  askedAt := none
  asks := 0
  pending := false
  unanswered := 0

/-- Take in one message; `readings` is the reader's count of battery messages,
which every level is numbered by. -/
def hear (s : Session Path) (readings : ℕ) : Message → Session Path × ℕ
  | .link true => ({ s with link := .up, unanswered := 0 }, readings)
  | .link false =>
      ({ s with link := .down, level := none, pending := false, unanswered := 0 }, readings)
  | .battery level =>
      ({ s with link := .up, level := some level, sample := readings + 1, pending := false,
                unanswered := 0 }, readings + 1)

/-- Take in messages, oldest first. -/
def hearAll (s : Session Path) (readings : ℕ) (ms : List Message) : Session Path × ℕ :=
  ms.foldl (fun known m => known.1.hear known.2 m) (s, readings)

@[simp] theorem hearAll_nil (s : Session Path) (readings : ℕ) :
    s.hearAll readings [] = (s, readings) := rfl

theorem hearAll_cons (s : Session Path) (readings : ℕ) (m : Message) (ms : List Message) :
    s.hearAll readings (m :: ms) = (s.hear readings m).1.hearAll (s.hear readings m).2 ms := rfl

@[simp] theorem productId_hear (s : Session Path) (readings : ℕ) (m : Message) :
    (s.hear readings m).1.productId = s.productId := by
  rcases m with (_ | _) | level <;> rfl

@[simp] theorem productId_hearAll (ms : List Message) (s : Session Path) (readings : ℕ) :
    (s.hearAll readings ms).1.productId = s.productId := by
  induction ms generalizing s readings with
  | nil => rfl
  | cons m ms ih => rw [hearAll_cons, ih, productId_hear]

/-- Taking in messages never touches the questions. -/
@[simp] theorem askedAt_hearAll (ms : List Message) (s : Session Path) (readings : ℕ) :
    (s.hearAll readings ms).1.askedAt = s.askedAt := by
  induction ms generalizing s readings with
  | nil => rfl
  | cons m ms ih =>
      rw [hearAll_cons, ih]
      rcases m with (_ | _) | level <;> rfl

/-- Take in what a report says. -/
def takeIn (s : Session Path) (frame : Frame) (readings : ℕ) : Session Path × ℕ :=
  s.hearAll readings (messages frame.bytes)

/-- Whether the dongle is streaming sound to the headset, given what the sound
card of a USB device says; `none` when it cannot be told. -/
def playbackRunning (s : Session Path) (playback : Path → Option Bool) : Option Bool :=
  s.usbDevice.bind playback

/-- How long a session that has heard nothing waits after its last question. -/
def askAgainDelay : ℕ → ℕ
  | 0 => askIdleRetry
  | extra + 1 => askAgainAfter[extra]?.getD askIdleRetry

/-- Whether a battery request is due. -/
def shouldAsk (s : Session Path) (now : ℕ) (interval listenFirst : ℕ) : Bool :=
  match s.link with
  | .up =>
      match s.askedAt with
      | none => true
      | some t => interval ≤ now - t
  | .unknown =>
      match s.askedAt with
      | none => listenFirst ≤ now - s.openedAt
      | some t => askAgainDelay s.asks ≤ now - t
  | .down => s.askedAt.isNone && decide (listenFirst ≤ now - s.openedAt)

/-- Asking again with the previous request still open: it was lost. -/
def countLost (s : Session Path) : Session Path :=
  { s with unanswered := s.unanswered + s.pending.toNat }

/-- Stop asking a headset that is said to be linked but answers nothing. -/
def giveUp (s : Session Path) (now : ℕ) : Session Path :=
  { s with link := .unknown, level := none, pending := false, unanswered := 0,
           askedAt := some now }

/-- A request went out. -/
def sent (s : Session Path) (now : ℕ) : Session Path :=
  { s with askedAt := some now, asks := s.asks + 1, pending := true }

/-- Ask for the level; `written` is the result of the write, which the give-up
branch never gets to. -/
def ask (s : Session Path) (now : ℕ) (written : Except IoError Unit) :
    Session Path × Asked :=
  let s := s.countLost
  if s.link = .up ∧ maxUnanswered ≤ s.unanswered then (s.giveUp now, .gaveUp)
  else
    match written with
    | .ok _ => (s.sent now, .sent)
    | .error err => (s, .failed err)

@[simp] theorem countLost_link (s : Session Path) : s.countLost.link = s.link := rfl

@[simp] theorem countLost_askedAt (s : Session Path) : s.countLost.askedAt = s.askedAt := rfl

@[simp] theorem giveUp_link (s : Session Path) (now : ℕ) : (s.giveUp now).link = .unknown := rfl

@[simp] theorem giveUp_askedAt (s : Session Path) (now : ℕ) :
    (s.giveUp now).askedAt = some now := rfl

@[simp] theorem sent_link (s : Session Path) (now : ℕ) : (s.sent now).link = s.link := rfl

@[simp] theorem sent_askedAt (s : Session Path) (now : ℕ) : (s.sent now).askedAt = some now := rfl

def battery (s : Session Path) (wired : Bool) : BatteryState :=
  match s.link, s.level with
  | .down, _ => .disconnected
  | _, some level => if wired then .charging (some level) else .discharging level
  | _, none => .unavailable

theorem battery_eq_disconnected (s : Session Path) (wired : Bool) :
    s.battery wired = .disconnected ↔ s.link = .down := by
  unfold battery
  split <;> grind

theorem level_battery (s : Session Path) (wired : Bool) :
    (s.battery wired).level = if s.link = .down then none else s.level := by
  unfold battery
  split <;> grind [BatteryState.level]

/-- The question of a pass: ask if it is due. -/
def question (s : Session Path) (now : ℕ) (interval listenFirst : ℕ)
    (written : Except IoError Unit) : Session Path × Option Asked :=
  if s.shouldAsk now interval listenFirst then
    let (s, asked) := s.ask now written
    (s, some asked)
  else (s, none)

/-- What a question can do: nothing is due, the reader gives up on a headset
said to be linked, a request goes out, or its write fails. -/
theorem question_cases (s : Session Path) (now : ℕ) (interval first : ℕ)
    (written : Except IoError Unit) :
    (s.shouldAsk now interval first = false ∧
      s.question now interval first written = (s, none)) ∨
    (s.shouldAsk now interval first = true ∧ s.link = .up ∧
      maxUnanswered ≤ s.unanswered + s.pending.toNat ∧
      s.question now interval first written = (s.countLost.giveUp now, some .gaveUp)) ∨
    (s.shouldAsk now interval first = true ∧
      (s.link = .up → s.unanswered + s.pending.toNat < maxUnanswered) ∧
      ((written = .ok () ∧
          s.question now interval first written = (s.countLost.sent now, some .sent)) ∨
        ∃ err, written = .error err ∧
          s.question now interval first written = (s.countLost, some (.failed err)))) := by
  by_cases hdue : s.shouldAsk now interval first
  · right
    by_cases hup : s.link = .up ∧ maxUnanswered ≤ s.unanswered + s.pending.toNat
    · left
      refine ⟨hdue, hup.1, hup.2, ?_⟩
      have hmute : s.countLost.link = .up ∧ maxUnanswered ≤ s.countLost.unanswered := hup
      simp only [question, if_pos hdue, ask, if_pos hmute]
    · right
      have hmute : ¬(s.countLost.link = .up ∧ maxUnanswered ≤ s.countLost.unanswered) := hup
      refine ⟨hdue, fun hl => Nat.lt_of_not_le fun hle => hup ⟨hl, hle⟩, ?_⟩
      cases written with
      | ok u => exact .inl ⟨rfl, by simp only [question, if_pos hdue, ask, if_neg hmute]⟩
      | error err =>
          exact .inr ⟨err, rfl, by simp only [question, if_pos hdue, ask, if_neg hmute]⟩
  · have hdue : s.shouldAsk now interval first = false := by simpa using hdue
    exact .inl ⟨hdue, by simp [question, hdue]⟩

end Session

end HeadsetBattery.Maxwell
