import ArcadeUplink.Game.Number

/-!
# Scores

The score of one player, with the tag of the event that changed it last.
-/

namespace ArcadeUplink

/-- The score of a player. The feature is 0 if it is not known what scored. -/
structure PlayerScore where
  player : PlayerNumber
  score : Int
  feature : Int
deriving DecidableEq, Repr, Inhabited

namespace PlayerScore

/-- A player with a score and no feature. -/
def start (player : PlayerNumber) (score : Int) : PlayerScore := ⟨player, score, 0⟩

/-- Sets score and feature together. Tells whether either is new. -/
def set (s : PlayerScore) (score feature : Int) : Bool × PlayerScore :=
  if s.score = score ∧ s.feature = feature then (false, s)
  else (true, { s with score, feature })

def toJson (s : PlayerScore) : Json :=
  .object [("player", s.player.toJson), ("score", .int s.score), ("score_feature", .int s.feature)]

def decode : Json.Decoder PlayerScore := fun v => do
  let r ← Json.Record.ofJson "PlayerState" 3 v
  r.check [("player", PlayerNumber.decode.check), ("score", (Json.asInt .i64).check),
    ("score_feature", (Json.asInt .i32).check)]
  let player ← r.field 0 "player" PlayerNumber.decode
  let score ← r.field 1 "score" (Json.asInt .i64)
  let feature ← r.field 2 "score_feature" (Json.asInt .i32)
  r.close
  return ⟨player, score, feature⟩

end PlayerScore

end ArcadeUplink
