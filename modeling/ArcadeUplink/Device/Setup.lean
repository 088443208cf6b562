import ArcadeUplink.Address.Server
import ArcadeUplink.Device.Info
import ArcadeUplink.Device.Settings
import ArcadeUplink.Identity.Uuid
import ArcadeUplink.Log.Entry

/-!
# Setting up a device

From a description and settings to what the engine starts with: an identity that
can be signed for, a server address and the settings, all checked. The checks
come in a fixed order, so that a description with several faults is always
refused for the same one.
-/

namespace ArcadeUplink

/-- What the engine starts with. -/
structure Setup where
  /-- The description with the UUID in its written form. -/
  device : DeviceInfo
  settings : Settings
  uuid : Uuid
  baseUrl : String
deriving DecidableEq, Repr

namespace Setup

/-- The UUID of a device: the one it was given, or one derived from its host identifier. -/
def identify (d : DeviceInfo) : Except SettingError Uuid :=
  if Text.isBlankText d.uuid then
    if Text.isBlankText d.hostIdentifier then .error .noIdentity
    else .ok (Uuid.derive (Text.trim d.hostIdentifier))
  else
    match Uuid.parse? d.uuid with
    | some u => .ok u
    | none => .error (.outOfRange "uuid" ("`" ++ d.uuid ++ "` is not a UUID"))

/-- A text that has to say something. -/
def required (field value : String) : Except SettingError Unit :=
  if Text.isBlankText value then .error (.missing field) else .ok ()

/-- The warning that a host name was not understood. -/
def hostnameWarning (hostname url : String) : Log.Entry :=
  .warn ("Invalid hostname `" ++ hostname ++ "`, using " ++ url)

/-- What is logged when a host name is resolved. -/
def addressLog (hostname : String) : Address.Server.Resolved → List Log.Entry
  | .known _ => []
  | .fallback url => [hostnameWarning hostname url]

/-- Checks a device and its settings; gives what to start with and what is logged of it. -/
def prepare (d : DeviceInfo) (s : Settings) : Except SettingError (Setup × List Log.Entry) := do
  s.validate
  required "provider" d.provider
  required "game_code_version" d.gameCodeVersion
  let uuid ← identify d
  let address := Address.Server.resolve d.hostname
  return ({ device := { d with uuid := uuid.text }, settings := s, uuid, baseUrl := address.url },
    addressLog d.hostname address)

/-- The digits of the UUID as they are signed and sent. -/
def signedUuid (s : Setup) : String := Text.without "-" s.uuid.text

/-- The description and the settings that are not secret in one line. -/
def describe (d : DeviceInfo) (s : Settings) (sinks : Nat) : String :=
  Text.labelledPart "SessionNetBuilder"
    [("device_info", d.describe),
     ("heartbeat_interval", durationText s.heartbeatMs),
     ("worker_threads", Decimal.natText s.workers),
     ("logger", Text.labelled "Logger" [("num_sinks", Decimal.natText sinks)])]

end Setup

end ArcadeUplink
