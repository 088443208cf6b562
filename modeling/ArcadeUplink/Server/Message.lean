import ArcadeUplink.Game.Snapshot
import ArcadeUplink.Identity.Signature

/-!
# Messages

What is sent to the server as data, and the replies that are read.
-/

namespace ArcadeUplink

structure AuthRequest where
  /-- The digits of the UUID. -/
  uuid : String
  /-- The time that was signed, in decimal seconds. -/
  timestamp : String
  signature : String
  provider : String
  machineId : Int
  serialNumber : Nat
  gameCodeVersion : String
  scoreFeatures : List String := []
  scoreFeaturesVersion : Option Int := none
deriving DecidableEq, Repr

/-- A request as data; score features are left out if there are none. -/
def AuthRequest.toJson (r : AuthRequest) : Json :=
  .object <|
    [("uuid", .text r.uuid), ("timestamp", .text r.timestamp), ("signature", .text r.signature),
     ("provider", .text r.provider), ("machine_id", .int r.machineId),
     ("serial_number", .nat r.serialNumber), ("game_code_version", .text r.gameCodeVersion)] ++
    (if r.scoreFeatures = [] then []
      else [("score_features", Json.list (r.scoreFeatures.map .text))]) ++
    (match r.scoreFeaturesVersion with
      | some version => [("score_features_version", Json.int version)]
      | none => [])

structure AuthReply where
  /-- What every later call has to carry. -/
  token : String
deriving DecidableEq, Repr

def AuthReply.decode : Json.Decoder AuthReply := fun v => do
  let r ← Json.Record.ofJson "AuthReply" 1 v
  let token ← r.field 0 "token" Json.asText
  r.close
  return ⟨token⟩

/-- Whether the device is linked to a machine of a venue. -/
structure Pairing where
  paired : Bool
  /-- The machine of the venue. -/
  venue : Option Int := none
  /-- The entry of the machine in the pinball database. -/
  databaseId : String := ""
deriving DecidableEq, Repr

def Pairing.decode : Json.Decoder Pairing := fun v => do
  let r ← Json.Record.ofJson "PairingStatus" 3 v
  r.check [("paired", Json.asBool.check), ("venuemachine_id", (Json.asOption (Json.asInt .i64)).check),
    ("opdb_id", Json.asText.check)]
  let paired ← r.field 0 "paired" Json.asBool
  let venue ← r.fieldD 1 "venuemachine_id" (Json.asOption (Json.asInt .i64)) none
  let databaseId ← r.fieldD 2 "opdb_id" Json.asText ""
  r.close
  return { paired, venue, databaseId }

structure InstalledReport where
  kind : String
  version : String
  /-- Whether the installation succeeded, if that is known. -/
  installed : Option Bool
  log : Option String := none
deriving DecidableEq, Repr

def InstalledReport.toJson (r : InstalledReport) : Json :=
  .object
    [("type", .text r.kind), ("version", .text r.version),
     ("installed", Json.option .bool r.installed), ("log", Json.option .text r.log)]

structure SnapshotUpload where
  session : String
  /-- How many snapshots of the session the server has accepted before. -/
  counter : Nat
  data : Snapshot
deriving DecidableEq

def SnapshotUpload.toJson (u : SnapshotUpload) : Json :=
  .object
    [("session_uuid", .text u.session), ("session_counter", .nat u.counter),
     ("data", u.data.toJson)]

/-- The upload of the history of a finished game. -/
structure HistoryUpload where
  session : String
  fileName : String
  csv : String
deriving DecidableEq, Repr

structure HeartbeatReply where
  /-- Profiles of players, not yet read. -/
  players : Option Json := none
deriving BEq, Repr

def HeartbeatReply.decode : Json.Decoder HeartbeatReply := fun v => do
  let r ← Json.Record.ofJson "HeartbeatReply" 1 v
  let players ← r.fieldD 0 "players" (Json.asOption .ok) none
  r.close
  return { players }

end ArcadeUplink
