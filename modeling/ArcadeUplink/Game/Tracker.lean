import ArcadeUplink.Game.Snapshot
import ArcadeUplink.Identity.Uuid
import ArcadeUplink.Log.Entry

/-!
# Tracking a game

The tracker holds the game as the host describes it, and the snapshot that it
sent last. It sends a snapshot when a game starts, when a game is finished, and
at a commit if a game is played and something changed. What the host says that
makes no sense is logged and otherwise ignored.
-/

namespace ArcadeUplink

/-- The game as it is, and as it was when a snapshot was last sent. -/
structure Tracker where
  current : Snapshot := {}
  previous : Snapshot := {}
deriving DecidableEq

/-- What a tracker makes known. -/
inductive TrackerEvent where
  | log (entry : Log.Entry)
  /-- The device is to introduce itself. -/
  | authenticate
  /-- The version of an installed component is to be reported. -/
  | installed (kind version : String)
  /-- A snapshot is to be sent. -/
  | send (snapshot : Snapshot)
deriving DecidableEq

namespace Tracker

/-- What the host can say. Numbers of players and balls are taken as they come. -/
inductive Operation where
  /-- A game starts, which goes by an identifier from now on. -/
  | start (id : Uuid)
  | finish
  | commit
  | setBall (number : Nat)
  | setActivePlayer (number : Nat)
  | setScore (number : Nat) (score feature : Int)
  | addMode (name : String)
  | removeMode (name : String)
  | clearModes
deriving DecidableEq, Repr

/-- The version of the component that tracks games. -/
def version : String := "0.1.0"

/-- What a new tracker makes known: it introduces the device and reports the version of the game
code and its own. -/
def opening (gameCodeVersion : String) : List TrackerEvent :=
  [.authenticate, .installed "game_code" gameCodeVersion, .installed "sdk" version,
   .log (.info ("Game state ready, sdk " ++ version))]

/-- Sends the current snapshot, with the time and with the change flag of its modes lowered. -/
def send (t : Tracker) (now : Timestamp) : Tracker × List TrackerEvent :=
  let s := t.current.stamp now
  let s := { s with modes := s.modes.clearChanged }
  (⟨s, s⟩, [.send s])

/-- Starts a game, unless one is being played. -/
def start (t : Tracker) (now : Timestamp) (id : Uuid) : Tracker × List TrackerEvent :=
  if t.current.active then (t, [.log (.debug "Game already started")])
  else
    let r := { t with current := .started id.text }.send now
    (r.1, .log (.info ("Game started, session " ++ id.text)) :: r.2)

/-- Finishes the game, if there is one: its last snapshot is sent, and all is forgotten. -/
def finish (t : Tracker) (now : Timestamp) : Tracker × List TrackerEvent :=
  if t.current.session = "" then (t, [.log (.debug "No game to finish")])
  else
    let r := { t with current := t.current.setActive false }.send now
    ({}, r.2 ++ [.log (.info ("Game finished, session " ++ t.current.session))])

/-- Sends the current snapshot if a game is played and the snapshot sent last shows another
state. -/
def commit (t : Tracker) (now : Timestamp) : Tracker × List TrackerEvent :=
  if !t.current.active || t.current.same t.previous then (t, []) else t.send now

def setBall (t : Tracker) (number : Nat) : Tracker × List TrackerEvent :=
  match BallNumber.ofNat? number with
  | some b => ({ t with current := (t.current.setBall b).2 }, [])
  | none => (t, [.log (.warn ("Ignoring invalid ball number " ++ Decimal.natText number))])

def setActivePlayer (t : Tracker) (number : Nat) : Tracker × List TrackerEvent :=
  match PlayerNumber.ofNat? number with
  | some p => ({ t with current := (t.current.setActivePlayer p).2 }, [])
  | none => (t, [.log (.warn ("Ignoring invalid active player " ++ Decimal.natText number))])

def setScore (t : Tracker) (number : Nat) (score feature : Int) : Tracker × List TrackerEvent :=
  match PlayerNumber.ofNat? number with
  | some p =>
    let (changed, s) := t.current.setScore p score feature
    ({ t with current := s },
      if changed then [] else [.log (.debug ("Score of player " ++ p.text ++ " unchanged"))])
  | none =>
    (t, [.log (.warn ("Ignoring score " ++ Decimal.intText score ++ " of invalid player " ++
      Decimal.natText number))])

/-- Takes over an edit of the modes; one that changed nothing leaves a note. -/
def editModes (t : Tracker) (edit : Bool × Modes) (note : String) : Tracker × List TrackerEvent :=
  ({ t with current := { t.current with modes := edit.2 } },
    if edit.1 then [] else [.log (.debug note)])

def addMode (t : Tracker) (name : String) : Tracker × List TrackerEvent :=
  if name = "" then (t, [.log (.warn "Ignoring empty mode")])
  else t.editModes (t.current.modes.add name) ("Mode " ++ name ++ " already set")

def removeMode (t : Tracker) (name : String) : Tracker × List TrackerEvent :=
  t.editModes (t.current.modes.remove name) ("Mode " ++ name ++ " not set")

def clearModes (t : Tracker) : Tracker × List TrackerEvent :=
  t.editModes t.current.modes.clear "No modes to clear"

/-- What the host says at a time, with what it leads to. -/
def perform (t : Tracker) (now : Timestamp) : Operation → Tracker × List TrackerEvent
  | .start id => t.start now id
  | .finish => t.finish now
  | .commit => t.commit now
  | .setBall n => t.setBall n
  | .setActivePlayer n => t.setActivePlayer n
  | .setScore n score feature => t.setScore n score feature
  | .addMode name => t.addMode name
  | .removeMode name => t.removeMode name
  | .clearModes => t.clearModes

end Tracker

end ArcadeUplink
