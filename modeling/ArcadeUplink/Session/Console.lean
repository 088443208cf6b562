import ArcadeUplink.Game.Tracker
import ArcadeUplink.Session.Engine

/-!
# The console

Where a tracker and the engine meet: what the tracker makes known, as calls of
the host to the engine.
-/

namespace ArcadeUplink

/-- The call by which the engine learns what a tracker makes known; a log entry is no call. -/
def TrackerEvent.call? : TrackerEvent → Option Activity
  | .log _ => none
  | .authenticate => some .authenticate
  | .installed kind version => some (.report { kind, version, installed := some true })
  | .send s => some (.sendSnapshot s)

end ArcadeUplink
