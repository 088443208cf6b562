import ArcadeUplink.Game.Modes
import ArcadeUplink.Game.PlayerScore
import ArcadeUplink.Json.Printer
import ArcadeUplink.SortedMap

/-!
# Snapshots

Everything that is known of a game at one instant. The setters tell whether they
changed anything; two snapshots are the same if they differ at most in their
time and in the change flag of their modes.
-/

namespace ArcadeUplink

/-- A point in time, in nanoseconds since 1970. -/
abbrev Timestamp := Int

/-- The whole seconds of a time since 1970; 0 for any time before. -/
def Timestamp.seconds (t : Timestamp) : Int :=
  if t < 0 then 0 else min (t / 1000000000) 0x7fffffffffffffff

/-- A game at one instant. -/
structure Snapshot where
  /-- Whether the game is being played. -/
  active : Bool := false
  /-- The identifier of the game, empty before it starts. -/
  session : String := ""
  ball : Option BallNumber := none
  activePlayer : Option PlayerNumber := none
  modes : Modes := {}
  /-- Every player who was mentioned so far. -/
  players : SortedMap PlayerNumber PlayerScore := ∅
  time : Timestamp := 0
deriving DecidableEq, Inhabited

namespace Snapshot

/-- Nothing is known and nothing is played. -/
def empty : Snapshot := {}

/-- Mentions a player, who gets the score 0 if he is new. Tells whether he is. -/
def ensurePlayer (s : Snapshot) (p : PlayerNumber) : Bool × Snapshot :=
  if s.players.contains p then (false, s)
  else (true, { s with players := s.players.insert p (.start p 0) })

/-- Sets the ball. Tells whether it is another one. -/
def setBall (s : Snapshot) (b : BallNumber) : Bool × Snapshot :=
  (s.ball ≠ some b, { s with ball := some b })

/-- Makes a player the active one. Tells whether anything changed. -/
def setActivePlayer (s : Snapshot) (p : PlayerNumber) : Bool × Snapshot :=
  let (created, t) := s.ensurePlayer p
  (created || s.activePlayer ≠ some p, { t with activePlayer := some p })

/-- Sets the score of a player and leaves the active player alone. Tells whether anything
changed. -/
def setScore (s : Snapshot) (p : PlayerNumber) (score feature : Int) : Bool × Snapshot :=
  let (created, t) := s.ensurePlayer p
  let updated := ((t.players.get? p).map fun x => (x.set score feature).1).getD false
  (created || updated,
    { t with players := t.players.modify p fun x => (x.set score feature).2 })

/-- Marks the game as played or finished. -/
def setActive (s : Snapshot) (active : Bool) : Snapshot := { s with active }

def stamp (s : Snapshot) (time : Timestamp) : Snapshot := { s with time }

/-- A game that begins: ball 1, and player 1 active with the score 0. -/
def started (session : String) : Snapshot :=
  ({ active := true, session, ball := some .first : Snapshot }.setActivePlayer .first).2

/-- The score of a player, if he was mentioned. -/
def score? (s : Snapshot) (p : PlayerNumber) : Option Int := (s.players.get? p).map (·.score)

/-- The whole seconds of the time since 1970. -/
def seconds (s : Snapshot) : Int := s.time.seconds

/-- Whether two snapshots show the same game: all but the time and the change flag agrees. -/
def same (s t : Snapshot) : Bool :=
  s.active = t.active && s.session = t.session && s.ball = t.ball &&
    s.activePlayer = t.activePlayer && s.modes.same t.modes && s.players = t.players

def toJson (s : Snapshot) : Json :=
  .object
    [("is_game_active", .bool s.active),
     ("session_uuid", .text s.session),
     ("ball", Json.option BallNumber.toJson s.ball),
     ("active_player", Json.option PlayerNumber.toJson s.activePlayer),
     ("modes", s.modes.toJson),
     ("players", .object (s.players.entries.map fun e => (e.1.text, e.2.toJson))),
     ("timestamp", .int s.seconds)]

def text (s : Snapshot) : String := s.toJson.render

end Snapshot

end ArcadeUplink
