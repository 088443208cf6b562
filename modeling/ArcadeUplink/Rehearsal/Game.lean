import ArcadeUplink.Game.Tracker
import ArcadeUplink.Roster.Query
import ArcadeUplink.Session.Activity
import ArcadeUplink.Session.Status

/-!
# Rehearsing a game

A host tracks games, and a recorder takes down what would have gone out to the
network. Two things would differ from one run to the next, the time and the
identifiers of the games. Here the clock of the host stands still at one second,
and the games are shown by the order in which they were started, as `game-1`,
`game-2` and so on.
-/

namespace ArcadeUplink.Rehearsal

structure Host where
  tracker : Tracker := {}
  /-- The identifiers of the games, in the order in which they were started. -/
  games : List Uuid := []

namespace Host

/-- Where the clock of the host stands. -/
def clock : Timestamp := 1000000000

def nextGame (h : Host) : Uuid :=
  let n := h.games.length + 1
  .random [(n / 65536).toUInt8, (n / 256).toUInt8, n.toUInt8]

/-- A text with every game by its number. -/
def disguise (h : Host) (text : String) : String :=
  h.games.zipIdx.foldl (fun s g => s.replace g.1.text ("game-" ++ Decimal.natText (g.2 + 1))) text

/-- A snapshot with its game by its number. -/
def disguiseSnapshot (h : Host) (s : Snapshot) : Snapshot :=
  { s with session := h.disguise s.session }

/-- An entry with every game by its number. -/
def disguiseEntry (h : Host) (e : Log.Entry) : Log.Entry :=
  { e with message := h.disguise e.message }

/-- What the tracker makes known, with every game by its number. -/
def disguiseEvent (h : Host) : TrackerEvent → TrackerEvent
  | .log e => .log (h.disguiseEntry e)
  | .send s => .send (h.disguiseSnapshot s)
  | e => e

/-- The game as it is, as it is shown. -/
def current (h : Host) : Snapshot := h.disguiseSnapshot h.tracker.current

/-- The host says something to the tracker. -/
def say (h : Host) (operation : Tracker.Operation) : Host × List TrackerEvent :=
  let (tracker, events) := h.tracker.perform clock operation
  let h := { h with tracker }
  (h, events.map h.disguiseEvent)

/-- The host starts a game, which gets a new identifier unless one is being played. -/
def start (h : Host) : Host × List TrackerEvent :=
  let id := h.nextGame
  let h := if h.tracker.current.active then h else { h with games := h.games ++ [id] }
  h.say (.start id)

/-- Whether the current game goes by the written form of a random identifier. -/
def isIdentified (h : Host) : Bool := Uuid.isRandomText h.tracker.current.session

end Host

/-- What a host can do. Numbers of players are taken as they come. -/
inductive GameStep where
  | start
  | say (operation : Tracker.Operation)
  | claimLink (number : Nat)
  | pairLink
  | machine
  | status
  | profile (number : Nat)
  | picture (number : Nat)
  | request (r : Request)
  | beat
  | consult (query : Directory.Query)

/-- What comes back of a step at once. -/
inductive Feedback where
  | nothing
  | flag (b : Bool)
  | number (n : Nat)
  | text (s : String)
  /-- A game was to be started; tells whether the current one goes by a random identifier. -/
  | started (identified : Bool)
  | answer (a : Directory.Answer)

/-- A feedback, or another one in place of nothing. -/
def Feedback.or : Feedback → Feedback → Feedback
  | .nothing, g => g
  | f, _ => f

/-- What a network receives from a host. -/
inductive Received where
  | authenticate
  | installed (kind version : String)
  | snapshot (s : Snapshot)
  | heartbeat
  | request (r : Request)

/-- What can be seen of a step of a host on a recorder. -/
structure Recorded where
  feedback : Feedback := .nothing
  received : List Received := []
  callbacks : List (Request × ResultCode × String) := []
  log : List Log.Entry := []

namespace Recorded

/-- What a recorder takes down of a tracker. -/
def ofEvents (events : List TrackerEvent) : Recorded :=
  { received := events.filterMap fun e => match e with
      | .authenticate => some .authenticate
      | .installed kind version => some (.installed kind version)
      | .send s => some (.snapshot s)
      | .log _ => none
    log := events.filterMap fun e => match e with
      | .log e => some e
      | _ => none }

end Recorded

/-- A network that takes down what it receives and answers every request at once. -/
structure Recorder where
  host : Host := {}
  directory : Directory := {}
  status : Status

namespace Recorder

/-- The answer to a request. -/
def reply : Request → ResultCode × String
  | .pairCode => (.success, "CODE")
  | .topScores _ => (.apiError, "down")
  | .unpair => (.notPaired, "")

/-- The link by which a player of a number claims a position; empty without such a player. -/
def claimLink (number : Nat) : String :=
  match PlayerNumber.ofNat? number with
  | some p => "claim/" ++ p.text
  | none => ""

/-- A recorder on which a tracker has just been set up, with what that led to. -/
def opening (gameCodeVersion : String) (status : Status) : Recorder × Recorded :=
  ({ status }, .ofEvents (Tracker.opening gameCodeVersion))

def consult (r : Recorder) (q : Directory.Query) : Recorder × Recorded :=
  let (answer, directory, log) := r.directory.answer q
  ({ r with directory }, { feedback := .answer answer, log })

def perform (r : Recorder) : GameStep → Recorder × Recorded
  | .start =>
    let (host, events) := r.host.start
    ({ r with host }, { Recorded.ofEvents events with feedback := .started host.isIdentified })
  | .say operation =>
    let (host, events) := r.host.say operation
    ({ r with host }, .ofEvents events)
  | .claimLink n => (r, { feedback := .text (claimLink n) })
  | .pairLink => (r, { feedback := .text "pair" })
  | .machine => (r, { feedback := .text "machine" })
  | .status => (r, { feedback := .number r.status.code })
  | .profile n =>
    match PlayerNumber.ofNat? n with
    | some p => r.consult (.profile p)
    | none => (r, { feedback := .answer (.profile none) })
  | .picture n =>
    match PlayerNumber.ofNat? n with
    | some p => r.consult (.picture p)
    | none => (r, { feedback := .answer (.picture none) })
  | .request q =>
    (r, { received := [.request q], callbacks := [(q, (reply q).1, (reply q).2)] })
  | .beat => (r, { received := [.heartbeat] })
  | .consult q => r.consult q

end Recorder

end ArcadeUplink.Rehearsal
