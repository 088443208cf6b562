import ArcadeUplink.Game.Snapshot

/-!
# The history of a game

The snapshots of a game as a table of comma-separated values: a header, then a
row for each snapshot with its time, the scores of players 1 to 6, the active
player, the ball and the modes. A score that is unknown or negative is left
blank; the modes stand between quotes if there are any. Every row ends with a
line feed.
-/

namespace ArcadeUplink.History

/-- The numbers of the players whose scores are exported. -/
def exportedPlayers : List Nat := [1, 2, 3, 4, 5, 6]

/-- The first row. -/
def header : String :=
  "time" ++ String.join (exportedPlayers.map fun n => ",p" ++ Decimal.natText n) ++
    ",player,ball,game_modes\n"

/-- The score of a player as it is exported. -/
def scoreField (s : Snapshot) (n : Nat) : String :=
  match (PlayerNumber.ofNat? n).bind s.score? with
  | some score => if 0 ≤ score then Decimal.intText score else ""
  | none => ""

def modesField (m : Modes) : String :=
  if m.isEmpty then "" else "\"" ++ m.joined ++ "\""

/-- The fields of the row of a snapshot. -/
def fields (s : Snapshot) : List String :=
  Decimal.intText s.seconds :: exportedPlayers.map (scoreField s) ++
    [Decimal.natText (s.activePlayer.elim 0 PlayerNumber.toNat),
     Decimal.natText (s.ball.elim 0 BallNumber.toNat),
     modesField s.modes]

def row (s : Snapshot) : String := String.intercalate "," (fields s) ++ "\n"

/-- The table of a list of snapshots. -/
def csv (history : List Snapshot) : String :=
  header ++ String.join (history.map row)

end ArcadeUplink.History
