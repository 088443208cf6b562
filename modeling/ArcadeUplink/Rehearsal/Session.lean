import ArcadeUplink.Rehearsal.Game
import ArcadeUplink.Rehearsal.Script
import ArcadeUplink.Session.Console

/-!
# Rehearsing the engine

The engine runs with a desk that replies to it. Every step from outside begins a
millisecond after the one before; when it has returned, the workers go on until
none of them can. A host with a tracker may stand in front of the engine, whose
snapshots are sent with the number of the game as its name and with a time that
counts them.
-/

namespace ArcadeUplink.Rehearsal

/-- The engine, its desk, and perhaps a host with a tracker. -/
structure SessionStage where
  stage : Stage Desk Engine Activity
  host : Option Host := none
  /-- How many snapshots the host has sent. -/
  sent : Nat := 0
  /-- How many requests were made. -/
  tickets : Nat := 0
  /-- The digest that was signed last. -/
  signed : Option (List UInt8) := none

/-- What can be done from outside. -/
inductive SessionStep where
  /-- A call of the host. -/
  | call (activity : Activity)
  | request (r : Request)
  /-- A step of the host with the tracker. -/
  | game (step : GameStep)
  /-- Other outcomes for some kinds of calls. -/
  | script (changes : List (ServerCall.Method × List Outcome))
  | hold (m : ServerCall.Method)
  | release (m : ServerCall.Method)
  | pause
  | resume
  | shutDown
  /-- Waits until the timer has led to one more heartbeat. -/
  | awaitBeat
  /-- Nothing is done. -/
  | look

structure CallNote where
  call : ServerCall
  /-- Whether the time that a handshake names is not to come yet. -/
  timely : Bool
  /-- Whether what a handshake names is what was signed last. -/
  signed : Bool

/-- What can be seen of a step. -/
structure SessionReport where
  feedback : Feedback := .nothing
  calls : List CallNote := []
  callbacks : List (Request × ResultCode × String) := []
  log : List Log.Entry := []

namespace SessionStage

/-- Where the clock stands at first, in milliseconds. -/
def clock : Nat := 1700000000000

def engine (s : SessionStage) : Engine := s.stage.machine.world

def seconds (s : SessionStage) : Nat := s.stage.machine.now / 1000

/-- What is noted of a call, and the digest that was signed last after it. -/
def note (s : SessionStage) (call : ServerCall) : CallNote × SessionStage :=
  match call with
  | .sign r => (⟨call, true, true⟩, { s with signed := some r.digest })
  | .authenticate _ r =>
    (⟨call, decide (r.timestamp.toNat?.any (· ≤ s.seconds)),
      (Signature.digest? r.uuid r.timestamp).isSome &&
        Signature.digest? r.uuid r.timestamp = s.signed⟩, s)
  | _ => (⟨call, true, true⟩, s)

/-- Takes down what can be seen of a step. -/
def report (s : SessionStage) : List EngineEvent → SessionStage × SessionReport
  | [] => (s, {})
  | e :: es =>
    match e with
    | .log entry =>
      let (s, r) := report s es
      (s, { r with log := entry :: r.log })
    | .called call =>
      let (note, s) := s.note call
      let (s, r) := report s es
      (s, { r with calls := note :: r.calls })
    | .callback ticket code text =>
      let (s, r) := report s es
      (s, { r with callbacks := (ticket.request, code, text) :: r.callbacks })
    | .link text =>
      let (s, r) := report s es
      (s, { r with feedback := .text text })
    | .answered answer =>
      let (s, r) := report s es
      (s, { r with feedback := .answer answer })

/-- A call of the host, up to the point where it cannot go on. -/
def call (s : SessionStage) (activity : Activity) : SessionStage × List EngineEvent :=
  let (stage, events) := s.stage.call enginePlay activity
  ({ s with stage }, events)

/-- Everybody goes on until nobody can. -/
def settled (s : SessionStage) : SessionStage × List EngineEvent :=
  let (stage, events) := s.stage.settled enginePlay
  ({ s with stage }, events)

/-- What the tracker makes known, as it reaches the engine: a snapshot gets a time that counts
the snapshots. -/
def deliver (s : SessionStage) : TrackerEvent → SessionStage × List EngineEvent
  | .log entry => (s, [.log entry])
  | .send snapshot =>
    let n := s.sent + 1
    let s := { s with sent := n }
    (((TrackerEvent.send (snapshot.stamp ((1000 + n) * 1000000000))).call?).map s.call).getD (s, [])
  | e => ((e.call?).map s.call).getD (s, [])

/-- Several things that the tracker makes known, one after another. -/
def deliverAll (s : SessionStage) : List TrackerEvent → SessionStage × List EngineEvent
  | [] => (s, [])
  | e :: es =>
    let (s, events) := s.deliver e
    let (s, more) := deliverAll s es
    (s, events ++ more)

def request (s : SessionStage) (r : Request) : SessionStage × List EngineEvent :=
  { s with tickets := s.tickets + 1 }.call (.request { request := r, number := s.tickets })

/-- The host with the tracker says something. -/
def say (s : SessionStage) (talk : Host → Host × List TrackerEvent) :
    SessionStage × List EngineEvent :=
  match s.host with
  | some host =>
    let (host, events) := talk host
    { s with host := some host }.deliverAll events
  | none => (s, [])

/-- A call about a player; nothing, if there is no such player. -/
def about (s : SessionStage) (number : Nat) (activity : PlayerNumber → Activity)
    (otherwise : Feedback) : SessionStage × Feedback × List EngineEvent :=
  match PlayerNumber.ofNat? number with
  | some p =>
    let (s, events) := s.call (activity p)
    (s, .nothing, events)
  | none => (s, otherwise, [])

/-- A step of the host with the tracker. -/
def play (s : SessionStage) : GameStep → SessionStage × Feedback × List EngineEvent
  | .start =>
    let (s, events) := s.say Host.start
    (s, .started ((s.host.map Host.isIdentified).getD false), events)
  | .say operation =>
    let (s, events) := s.say fun h => h.say operation
    (s, .nothing, events)
  | .claimLink n => s.about n .claimLink (.text "")
  | .pairLink =>
    let (s, events) := s.call .pairLink
    (s, .nothing, events)
  | .machine => (s, .text s.engine.setup.uuid.text, [])
  | .status => (s, .number s.engine.status.code, [])
  | .profile n => s.about n (fun p => .consult (.profile p)) (.answer (.profile none))
  | .picture n => s.about n (fun p => .consult (.picture p)) (.answer (.picture none))
  | .request r =>
    let (s, events) := s.request r
    (s, .nothing, events)
  | .beat =>
    let (s, events) := s.call (.requestBeat false)
    (s, .nothing, events)
  | .consult q =>
    let (s, events) := s.call (.consult q)
    (s, .nothing, events)

/-- Time passes until the timer has led to one more heartbeat; `fuel` bounds how often it may
fire. -/
def awaitBeat : Nat → SessionStage → SessionStage × List EngineEvent
  | 0, s => (s, [])
  | fuel + 1, s =>
    match s.stage.nextDeadline? with
    | none => (s, [])
    | some _ =>
      let (stage, events) := s.stage.fireNext enginePlay
      let s := { s with stage }
      if events.any fun e => match e with
          | .called (.heartbeat _) => true
          | _ => false then (s, events)
      else
        let (s, more) := awaitBeat fuel s
        (s, events ++ more)

/-- A step from outside, as far as it goes while no worker moves. -/
def act (s : SessionStage) : SessionStep → SessionStage × Feedback × List EngineEvent
  | .call activity =>
    let (s, events) := s.call activity
    (s, .nothing, events)
  | .request r =>
    let (s, events) := s.request r
    (s, .nothing, events)
  | .game step => s.play step
  | .script changes =>
    ({ s with stage.desk.script :=
        changes.foldl (fun script c => script.set c.1 c.2) s.stage.desk.script }, .nothing, [])
  | .hold m => ({ s with stage.desk := s.stage.desk.hold m }, .nothing, [])
  | .release m =>
    ({ s with stage.desk := s.stage.desk.release m }, .flag (s.stage.desk.isHolding m), [])
  | .pause => ({ s with stage.paused := true }, .nothing, [])
  | .resume => ({ s with stage.paused := false }, .nothing, [])
  | .shutDown =>
    let feedback := Feedback.text (if s.stage.isBusy then "stopping" else "stopped")
    let (s, events) := s.call (.shutDown false)
    (s, feedback, events)
  | .awaitBeat =>
    let (s, events) := awaitBeat 1000 s
    (s, .flag true, events)
  | .look => (s, .nothing, [])

/-- A report in which every game is shown by its number. -/
def disguise (s : SessionStage) (r : SessionReport) : SessionReport :=
  match s.host with
  | some h => { r with log := r.log.map h.disguiseEntry }
  | none => r

/-- A step from outside a millisecond later, up to the point where nobody can go on. -/
def perform (s : SessionStage) (step : SessionStep) : SessionStage × SessionReport :=
  let s := { s with stage.machine.now := s.stage.machine.now + 1 }
  let (s, feedback, events) := s.act step
  let (s, more) := s.settled
  let (s, r) := s.report (events ++ more)
  (s, s.disguise { r with feedback := r.feedback.or feedback })

/-- Sets a device up and starts its engine, and has a tracker introduce it if a game is to be
tracked. -/
def opening (d : DeviceInfo) (settings : Settings) (script : Script) (tracked : Bool) :
    Except SettingError (SessionStage × SessionReport) := do
  let (setup, log) ← Setup.prepare d settings
  let s : SessionStage :=
    { stage := { machine := Engine.system setup clock, desk := { script } }
      host := if tracked then some {} else none }
  let (s, events) := s.call .startUp
  let (s, more) := s.deliverAll
    (if tracked then Tracker.opening setup.device.gameCodeVersion else [])
  let (s, rest) := s.settled
  let (s, r) := s.report (Engine.noted log ++ events ++ more ++ rest)
  return (s, r)

end SessionStage

end ArcadeUplink.Rehearsal
