import HeadsetBattery.Library.Runs
import HeadsetBattery.Library.OrderedMap
import HeadsetBattery.Maxwell.Session
import HeadsetBattery.Maxwell.Wedge
import Mathlib.Logic.Function.Basic

/-!
# The native reader

One pass closes the sessions of nodes that are gone, then visits every dongle
listed. What the kernel answers during a visit is an input, an `Exchange`;
what the reader does is an output, its trace. A pass is a list of moves (one
scan of the listing, one visit per dongle), so that a statement about any point
of any run is a statement about a run of moves.
-/
namespace HeadsetBattery.Maxwell

def vendorId : UInt16 := 0x3329

/-- What the kernel answers during one visit: the open and when it returned,
the fetch, the write, the sound card of a USB device, and when a failure was
reported. An answer that is not asked for is not used. -/
structure Exchange (Path : Type) where
  opens : Except IoError Unit
  openedAt : ℕ
  fetched : Except IoError Frame
  written : Except IoError Unit
  playback : Path → Option Bool
  failedAt : ℕ

/-- A visit at which every transfer succeeds and no card streams. -/
def Exchange.fetching {Path : Type} (frame : Frame) (openedAt : ℕ) : Exchange Path :=
  ⟨.ok (), openedAt, .ok frame, .ok (), fun _ => none, openedAt⟩

/-- A visit at which the device vanishes before the fetch. -/
def Exchange.vanishing {Path : Type} (openedAt : ℕ) : Exchange Path :=
  { Exchange.fetching silentFrame openedAt with fetched := .error ⟨"No such device", true, false⟩ }

/-- One pass: the dongles sysfs lists, each with what the kernel answers. -/
structure Pass (Path : Type) where
  listed : List (Dongle Path × Exchange Path)
  wired : Bool
  now : ℕ
  interval : ℕ
  listenFirst : ℕ

/-- A pass with the cadences of the daemon. -/
def Pass.daily {Path : Type} (n : ℕ) (listed : List (Dongle Path × Exchange Path)) : Pass Path :=
  ⟨listed, false, seconds n, seconds 300, Maxwell.listenFirst⟩

/-- A dongle on a node. -/
def Dongle.on {Path : Type} (productId : UInt16) (node : Path) : Dongle Path :=
  ⟨node, "Audeze Maxwell", productId, none⟩

/-- What a reader does, in the order it does it. A report carries the link of
the session it comes from, or none when the dongle could not be read. -/
inductive Event (Path : Type) where
  | pass (now : ℕ)
  | opened (node : Path) (productId : UInt16)
  | closed (node : Path) (productId : UInt16)
  | message (node : Path) (productId : UInt16) (m : Message)
  | answersAgain (node : Path)
  | requested (node : Path) (productId : UInt16) (sentAt : ℕ)
  | gaveUp (node : Path) (productId : UInt16)
  | warned (node : Path) (productId : UInt16) (now : ℕ) (silence : ℕ)
  | reachable
  | unreachable (message : String) (warning : Bool)
  | reported (node : Path) (link : Option Link) (headset : Headset)
  deriving DecidableEq, Repr

/-- A native reader that keeps its dongles open between polls. `access` is the
one access watch of the process. -/
structure Reader (Path : Type) [LinearOrder Path] where
  sessions : OrderedMap Path (Session Path)
  /-- What the last session on each dongle (by product ID) knew of the link,
  handed to the session that replaces it. -/
  lastLink : UInt16 → Option Link
  /-- How many battery messages have been received, over every session. -/
  readings : ℕ
  wedge : Option WedgeWatch
  access : AccessWatch

namespace Reader

variable {Path : Type} [LinearOrder Path]

/-- A reader with no dongle open yet. -/
def new : Reader Path where
  sessions := OrderedMap.empty
  lastLink := fun _ => none
  readings := 0
  wedge := none
  access := AccessWatch.new

/-- The session open on a node. -/
def session? (r : Reader Path) (node : Path) : Option (Session Path) := r.sessions.get? node

/-- Keep a session under its node. -/
def put (r : Reader Path) (node : Path) (s : Session Path) : Reader Path :=
  { r with sessions := r.sessions.insert node s }

/-- Close a session, keeping what it knew of the link. -/
def drop (r : Reader Path) (node : Path) (s : Session Path) : Reader Path :=
  { r with sessions := r.sessions.erase node
           lastLink := Function.update r.lastLink s.productId (some s.link) }

/-- Close the session of a node, if there is one. -/
def close (r : Reader Path) (node : Path) : Reader Path × List (Event Path) :=
  match r.session? node with
  | some s => (r.drop node s, [.closed node s.productId])
  | none => (r, [])

/-- The session a visit listens to: the one open on the node, else a new one
that inherits the belief of the last session on that product. -/
def sessionFor (r : Reader Path) (dongle : Dongle Path) (x : Exchange Path) :
    Except IoError (Session Path) :=
  match r.session? dongle.node with
  | some s => .ok s
  | none =>
      match x.opens with
      | .error err => .error err
      | .ok _ =>
          .ok (Session.opened dongle ((r.lastLink dongle.productId).getD .unknown) x.openedAt)

/-- Keep the session of a visit, noting it when it is new. -/
def enter (r : Reader Path) (dongle : Dongle Path) (s : Session Path) :
    Reader Path × List (Event Path) :=
  match r.session? dongle.node with
  | some _ => (r, [])
  | none => (r.put dongle.node s, [.opened dongle.node dongle.productId])

/-- Let the watch know whether a report said anything; the watch begins with
the first report fetched. -/
def watchAfter (r : Reader Path) (frame : Frame) (now : ℕ) : WedgeWatch × Bool :=
  let watch := r.wedge.getD (WedgeWatch.new now)
  if (messages frame.bytes).isEmpty then (watch, false) else watch.heard now

/-- Take in what a session's report says. -/
def hear (r : Reader Path) (node : Path) (s : Session Path) (frame : Frame) (now : ℕ) :
    Reader Path × List (Event Path) :=
  let told := s.takeIn frame r.readings
  let watch := r.watchAfter frame now
  ({ r.put node told.1 with readings := told.2, wedge := some watch.1 },
    (messages frame.bytes).map (.message node s.productId) ++
      if watch.2 then [.answersAgain node] else [])

/-- What a question leaves in the trace. -/
def askedEvents (node : Path) (s : Session Path) (now : ℕ) :
    Option Asked → List (Event Path)
  | some .sent => [.requested node s.productId now]
  | some .gaveUp => [.gaveUp node s.productId]
  | some (.failed _) | none => []

/-- Look at the sound card of a dongle whose headset is not known to be linked,
and warn if that is due. -/
def suspect (r : Reader Path) (node : Path) (s : Session Path) (now : ℕ)
    (playback : Path → Option Bool) : Reader Path × List (Event Path) :=
  if s.link = .up then (r, [])
  else
    let checked :=
      (r.wedge.getD (WedgeWatch.new now)).check now (s.playbackRunning playback)
    ({ r with wedge := some checked.1 },
      checked.2.toList.map (.warned node s.productId now))

/-- Listen to one dongle, ask if that is due, and look for a wedge. -/
def listenTo (r : Reader Path) (p : Pass Path) (dongle : Dongle Path) (x : Exchange Path) :
    Reader Path × List (Event Path) × Except IoError (Session Path) :=
  match r.sessionFor dongle x with
  | .error err => (r, [], .error err)
  | .ok s =>
      let entered := r.enter dongle s
      match x.fetched with
      | .error err => (entered.1, entered.2, .error err)
      | .ok frame =>
          let heard := entered.1.hear dongle.node s frame p.now
          let asked := (s.takeIn frame entered.1.readings).1.question p.now p.interval
            p.listenFirst x.written
          let asker := heard.1.put dongle.node asked.1
          let events := entered.2 ++ heard.2 ++ askedEvents dongle.node asked.1 p.now asked.2
          match asked.2 with
          | some (.failed err) => (asker, events, .error err)
          | _ =>
              let suspected := asker.suspect dongle.node asked.1 p.now x.playback
              (suspected.1, events ++ suspected.2, .ok asked.1)

/-- Note that a dongle could be read; worth a line only if a failure was. -/
def reportRecovery (r : Reader Path) : Reader Path × List (Event Path) :=
  ({ r with access := r.access.recovered.1 },
    if r.access.recovered.2 then [.reachable] else [])

/-- Report a failure to reach a dongle that sysfs says is there, once it has
lasted. -/
def reportError [ToString Path] (r : Reader Path) (node : Path) (err : IoError) (now : ℕ) :
    Reader Path × List (Event Path) :=
  let message := toString node ++ ": " ++ err.text
  let failing := r.access.failing message now
  ({ r with access := failing.1 }, [.unreachable message failing.2])

/-- A dongle, as a headset. -/
def headset (dongle : Dongle Path) (battery : BatteryState) (sample : ℕ) : Headset where
  name := "Audeze Maxwell"
  product := dongle.product
  vendorId := vendorId
  productId := dongle.productId
  supportsBattery := true
  battery := battery
  sample := some sample

/-- One dongle's turn in a pass. Only a dongle that is gone loses its session;
every other failure keeps it and withholds the level. -/
def visit [ToString Path] (r : Reader Path) (p : Pass Path) (dongle : Dongle Path)
    (x : Exchange Path) : Reader Path × List (Event Path) :=
  let listened := r.listenTo p dongle x
  match listened.2.2 with
  | .ok s =>
      let recovered := listened.1.reportRecovery
      (recovered.1, listened.2.1 ++ recovered.2 ++
        [.reported dongle.node (some s.link) (headset dongle (s.battery p.wired) s.sample)])
  | .error err =>
      let closed := if err.gone then listened.1.close dongle.node else (listened.1, [])
      let failed := closed.1.reportError dongle.node err x.failedAt
      (failed.1, listened.2.1 ++ closed.2 ++ failed.2 ++
        [.reported dongle.node none (headset dongle .unavailable 0)])

/-- Close the sessions of nodes that are no longer listed, in node order. -/
def closeVanished (r : Reader Path) (p : Pass Path) : Reader Path × List (Event Path) :=
  Runs.exec (fun r node => if p.listed.any (fun v => v.1.node = node) then (r, []) else r.close node)
    r (r.sessions.entries.map Prod.fst)

end Reader

/-- The parts a pass is made of. -/
inductive Move (Path : Type) where
  | scan (p : Pass Path)
  | visit (p : Pass Path) (dongle : Dongle Path) (x : Exchange Path)

/-- The moves of a pass: the scan, then every dongle in the listed order. -/
def Pass.moves {Path : Type} (p : Pass Path) : List (Move Path) :=
  .scan p :: p.listed.map fun v => .visit p v.1 v.2

/-- The pass a move belongs to. -/
def Move.pass {Path : Type} : Move Path → Pass Path
  | .scan p => p
  | .visit p _ _ => p

namespace Reader

variable {Path : Type} [LinearOrder Path] [ToString Path]

def move (r : Reader Path) : Move Path → Reader Path × List (Event Path)
  | .scan p => ((r.closeVanished p).1, .pass p.now :: (r.closeVanished p).2)
  | .visit p dongle x => r.visit p dongle x

/-- One pass over the dongles sysfs currently lists. -/
def reconcile (r : Reader Path) (p : Pass Path) : Reader Path × List (Event Path) :=
  Runs.exec move r p.moves

/-- The headsets a pass returns, one per dongle listed. -/
def headsets (events : List (Event Path)) : List Headset :=
  events.filterMap fun e => match e with | .reported _ _ headset => some headset | _ => none

/-- A whole run of passes, from a reader with no dongle open. -/
def run (passes : List (Pass Path)) : Reader Path × List (Event Path) :=
  Runs.exec reconcile new passes

theorem run_eq_moves (passes : List (Pass Path)) :
    run passes = Runs.exec move new (passes.flatMap Pass.moves) :=
  Runs.exec_flatMap move Pass.moves new passes

end Reader

end HeadsetBattery.Maxwell
