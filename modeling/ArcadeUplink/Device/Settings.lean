import ArcadeUplink.Identity.Signature
import ArcadeUplink.Number.Decimal

/-!
# Settings

How the engine runs on a device: the time between two heartbeats, the number of
workers and the key for the signer. A setting that makes no sense is refused
with its name.
-/

namespace ArcadeUplink

/-- Why a device or its settings were refused. -/
inductive SettingError where
  /-- A mandatory text is blank. -/
  | missing (field : String)
  /-- A value is not among those allowed. -/
  | outOfRange (field reason : String)
  /-- There is nothing to identify the device by. -/
  | noIdentity
deriving DecidableEq, Repr

def SettingError.message : SettingError → String
  | .missing field => "Missing mandatory field `" ++ field ++ "`"
  | .outOfRange field reason => "Invalid value for `" ++ field ++ "`: " ++ reason
  | .noIdentity => "Either a device UUID or a host identifier (e.g. MAC address) is required"

/-- The settings of the engine. -/
structure Settings where
  /-- Milliseconds between two heartbeats: whole ones, with no upper limit. A pause that no deadline
  can be reckoned with is not refused here; it makes the task fail that sets the timer. -/
  heartbeatMs : Nat := 10000
  workers : Nat := 4
  key : List UInt8 := List.replicate Signature.keyLength 0
deriving DecidableEq, Repr, Inhabited

namespace Settings

/-- For slow or metered lines: few heartbeats, few workers. -/
def lowTraffic : Settings := { heartbeatMs := 30000, workers := 2 }

/-- For changes that should show quickly: frequent heartbeats. -/
def responsive : Settings := { heartbeatMs := 2000 }

/-- A heartbeat without a pause is refused. -/
def zeroHeartbeat : SettingError := .outOfRange "heartbeat_interval" "must be greater than zero"

/-- An engine without workers is refused. -/
def zeroWorkers : SettingError :=
  .outOfRange "worker_threads" "at least one worker thread is required"

def validate (s : Settings) : Except SettingError Unit :=
  if s.heartbeatMs = 0 then .error zeroHeartbeat
  else if s.workers = 0 then .error zeroWorkers
  else .ok ()

/-- The settings with another pause between heartbeats. -/
def withHeartbeat (s : Settings) (ms : Nat) : Except SettingError Settings :=
  if ms = 0 then .error zeroHeartbeat else .ok { s with heartbeatMs := ms }

/-- The settings with another number of workers. -/
def withWorkers (s : Settings) (workers : Nat) : Except SettingError Settings :=
  if workers = 0 then .error zeroWorkers else .ok { s with workers }

end Settings

/-- A number of milliseconds with the largest fitting unit: seconds, with as many decimals as
are needed, or milliseconds. -/
def durationText (ms : Nat) : String :=
  if ms = 0 then "0ns"
  else if ms < 1000 then Decimal.natText ms ++ "ms"
  else
    let digits := ((Nat.toDigits 10 (1000 + ms % 1000)).drop 1).reverse.dropWhile (· = '0')
    Decimal.natText (ms / 1000) ++
      (if digits = [] then "" else "." ++ .ofList digits.reverse) ++ "s"

end ArcadeUplink
