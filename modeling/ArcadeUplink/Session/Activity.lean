import ArcadeUplink.Roster.Query
import ArcadeUplink.Server.Call

/-!
# Activities

What remains to be done of a call of the host or of a task of a worker. Each
constructor is a point at which somebody else may come in between: from one
point to the next everything happens at once.
-/

namespace ArcadeUplink

/-- What the host can request of the server. -/
inductive Request where
  | pairCode
  | topScores (filter : Int)
  | unpair
deriving DecidableEq, Repr

namespace Request

/-- The name of a request in the log. -/
def name : Request → String
  | pairCode => "pair code"
  | topScores _ => "top scores"
  | unpair => "unpair"

end Request

/-- A request with a callback, which has a number to be told by. What a callback does matters here
only if it shuts the engine down: a stop is another one if a worker asks for it. Any other call that
it makes is like a call from outside that comes while the worker rests. -/
structure Ticket where
  request : Request
  number : Nat
  /-- Whether its callback shuts the engine down. -/
  stops : Bool := false
deriving DecidableEq, Repr

/-- Why the pairing is looked up, and with what its user goes on. -/
inductive Occasion where
  | handshake
  | heartbeat
deriving DecidableEq, Repr

/-- With what a caller goes on when a reply comes. -/
inductive Resume where
  /-- The signature over a time is to be sent. -/
  | signed (timestamp : String)
  | greeted
  | pairing (occasion : Occasion)
  | reported (kind : String)
  | uploaded (id : String) (revision : Nat)
  | historyUploaded (id : String)
  | beaten
  | served (ticket : Ticket)
  | downloaded (p : PlayerNumber)
deriving DecidableEq, Repr

/-- What remains to be done. -/
inductive Activity where
  -- The life of the engine; `failing` says that a task asked for the stop in which a call failed in
  -- an unforeseen way
  | startUp
  | starting
  | shutDown (failing : Bool)
  | stopping (failing : Bool)
  /-- Waits for the reply to a call. -/
  | waiting (call : ServerCall) (resume : Resume)
  -- Authentication
  | authenticate
  | submitHandshake
  | failHandshake (reason : String)
  | handshake
  | storeToken (token : String)
  | enterChecking
  -- Pairing
  | askPairing (occasion : Occasion)
  | recordPairing (pairing : Pairing) (occasion : Occasion)
  | settlePaired (occasion : Occasion)
  | settleUnpaired (occasion : Occasion)
  -- Heartbeats; `again` says that the timer is to be set afterwards
  | armTimer
  | setTimer
  | enqueueTimer
  | requestBeat (again : Bool)
  | submitBeat (again : Bool)
  | withdrawBeat (again : Bool)
  | beat
  | beatGate
  | beatPairing
  | callHeartbeat
  | applyProfiles (value : Json)
  | listDownloads
  | submitDownloads (places : List (PlayerNumber × String))
  | retry
  | scanLedger
  -- Games
  | sendSnapshot (s : Snapshot)
  | record (s : Snapshot)
  | submit (uploads histories : List String)
  | withdrawUpload (id : String) (uploads histories : List String)
  | withdrawHistory (id : String) (histories : List String)
  | upload (id : String)
  | uploadGate (upload : SnapshotUpload) (revision : Nat)
  | callUpload (upload : SnapshotUpload) (revision : Nat)
  | acknowledge (id : String) (revision : Nat)
  | history (id : String)
  | historyGate (upload : HistoryUpload)
  | callHistory (upload : HistoryUpload)
  | close (id : String)
  -- Requests
  | request (ticket : Ticket)
  | serve (ticket : Ticket)
  | recallCode (ticket : Ticket)
  | callRequest (ticket : Ticket)
  | keepCode (ticket : Ticket) (code : String)
  | leavePairing (ticket : Ticket) (body : String)
  | forgetPairing (ticket : Ticket) (body : String)
  -- Reports of installed components
  | report (r : InstalledReport)
  | reportGate (r : InstalledReport)
  | callInstalled (r : InstalledReport)
  -- Pictures and the directory of players
  | download (p : PlayerNumber) (url : String)
  | storePicture (p : PlayerNumber) (picture : Picture)
  | announcePicture
  | consult (query : Directory.Query)
  -- Links
  | pairLink
  | readPairLink
  | claimLink (p : PlayerNumber)
  | readClaimLink (p : PlayerNumber)

/-- What can be seen of the engine. -/
inductive EngineEvent where
  | log (entry : Log.Entry)
  | called (call : ServerCall)
  /-- The callback of a request was invoked. -/
  | callback (ticket : Ticket) (code : ResultCode) (text : String)
  /-- The host was given a link. -/
  | link (text : String)
  /-- The host was given an answer of the directory. -/
  | answered (answer : Directory.Answer)

end ArcadeUplink
