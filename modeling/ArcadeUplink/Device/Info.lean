import ArcadeUplink.Number.Decimal
import ArcadeUplink.Text.Literal

/-!
# Devices

What a pinball machine says of itself, and which server it wants to talk to.
-/

namespace ArcadeUplink

namespace Text

/-- Named values between braces behind the name of what they belong to. -/
def labelled (name : String) (values : List (String × String)) : String :=
  name ++ " \x7b " ++ String.intercalate ", " (values.map fun v => v.1 ++ ": " ++ v.2) ++ " \x7d"

/-- The same, with a hint that not all values are shown. -/
def labelledPart (name : String) (values : List (String × String)) : String :=
  name ++ " \x7b " ++ String.join (values.map fun v => v.1 ++ ": " ++ v.2 ++ ", ") ++ ".. \x7d"

def ofBool (b : Bool) : String := if b then "true" else "false"

end Text

structure DeviceInfo where
  /-- Who made the device. -/
  provider : String := ""
  machineId : Int := 0
  /-- The version of the game that runs on it. -/
  gameCodeVersion : String := ""
  /-- The server it talks to: a symbolic name, nothing, or a URL. -/
  hostname : String := ""
  /-- Its UUID, or nothing. -/
  uuid : String := ""
  /-- A text from which a UUID is derived if there is none. -/
  hostIdentifier : String := ""
  serialNumber : Nat := 0
  /-- Whether the pictures of players are fetched without being asked for. -/
  autoDownload : Bool := false
  /-- The names of what can score; the place in the list, from 1, is sent with a score. -/
  scoreFeatures : List String := []
  scoreFeaturesVersion : Int := 0
deriving DecidableEq, Repr, Inhabited

/-- A description with all its values in one line. -/
def DeviceInfo.describe (d : DeviceInfo) : String :=
  Text.labelled "DeviceInfo"
    [("provider", Text.literal d.provider),
     ("machine_id", Decimal.intText d.machineId),
     ("game_code_version", Text.literal d.gameCodeVersion),
     ("hostname", Text.literal d.hostname),
     ("uuid", Text.literal d.uuid),
     ("host_identifier", Text.literal d.hostIdentifier),
     ("serial_number", Decimal.natText d.serialNumber),
     ("auto_download_player_pics", Text.ofBool d.autoDownload),
     ("score_features", "[" ++ String.intercalate ", " (d.scoreFeatures.map Text.literal) ++ "]"),
     ("score_features_version", Decimal.intText d.scoreFeaturesVersion)]

end ArcadeUplink
