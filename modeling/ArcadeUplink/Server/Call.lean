import ArcadeUplink.Roster.Directory
import ArcadeUplink.Server.Message
import ArcadeUplink.Server.Outcome

/-!
# Calls

What the engine asks of others, the signer or the server, and what they reply.
Whoever makes a call waits for its reply.
-/

namespace ArcadeUplink

/-- Where and as whom a call is made. -/
structure Endpoint where
  baseUrl : String
  /-- What the server gave in the handshake; empty before. -/
  token : String
deriving DecidableEq, Repr

inductive ServerCall where
  | sign (request : Signature.Request)
  | authenticate (at_ : Endpoint) (request : AuthRequest)
  | pairingStatus (at_ : Endpoint)
  | installed (at_ : Endpoint) (report : InstalledReport)
  | gameData (at_ : Endpoint) (upload : SnapshotUpload)
  | uploadHistory (at_ : Endpoint) (upload : HistoryUpload)
  | heartbeat (at_ : Endpoint)
  | pairCode (at_ : Endpoint)
  | topScores (at_ : Endpoint) (filter : Int)
  | unpair (at_ : Endpoint)
  | download (url : String)
deriving DecidableEq

namespace ServerCall

inductive Method where
  | sign
  | authenticate
  | pairingStatus
  | installed
  | gameData
  | uploadHistory
  | heartbeat
  | pairCode
  | topScores
  | unpair
  | download
deriving DecidableEq, Repr

namespace Method

def all : List Method :=
  [sign, authenticate, pairingStatus, installed, gameData, uploadHistory, heartbeat, pairCode,
    topScores, unpair, download]

/-- The name of a kind of call. -/
def name : Method → String
  | sign => "sign"
  | authenticate => "authenticate"
  | pairingStatus => "pairing_status"
  | installed => "installed"
  | gameData => "game_data"
  | uploadHistory => "upload_history"
  | heartbeat => "heartbeat"
  | pairCode => "pair_code"
  | topScores => "top_scores"
  | unpair => "unpair"
  | download => "download"

/-- The kind of call that goes by a name. -/
def ofName? (s : String) : Option Method := all.find? fun m => m.name = s

end Method

def method : ServerCall → Method
  | sign .. => .sign
  | authenticate .. => .authenticate
  | pairingStatus .. => .pairingStatus
  | installed .. => .installed
  | gameData .. => .gameData
  | uploadHistory .. => .uploadHistory
  | heartbeat .. => .heartbeat
  | pairCode .. => .pairCode
  | topScores .. => .topScores
  | unpair .. => .unpair
  | download .. => .download

/-- Where a call is made; signing and downloading need no server. -/
def endpoint? : ServerCall → Option Endpoint
  | sign _ => none
  | authenticate e _ => some e
  | pairingStatus e => some e
  | installed e _ => some e
  | gameData e _ => some e
  | uploadHistory e _ => some e
  | heartbeat e => some e
  | pairCode e => some e
  | topScores e _ => some e
  | unpair e => some e
  | download _ => none

end ServerCall

inductive Reply where
  /-- The call failed in an unforeseen way. -/
  | panic
  /-- The call failed. -/
  | refused (error : CallError)
  /-- What the signer returned; nothing, if it refused. -/
  | signature (bytes : Option (List UInt8))
  | authenticated (reply : AuthReply)
  | pairing (pairing : Pairing)
  | accepted
  | beaten (reply : HeartbeatReply)
  | text (body : String)
  | bytes (content : List UInt8)

end ArcadeUplink
