import ArcadeUplink.Address.Host
import ArcadeUplink.Text.Blank

/-!
# Server addresses

Scheme, host and port of a server, and nothing else of the URL they are read
from: user, path, query and fragment are dropped. An address is written as
`scheme://host:port`.
-/

namespace ArcadeUplink.Address

/-- The schemes by which a server can be reached. -/
inductive Scheme where
  | http
  | https
  | ws
  | wss
deriving DecidableEq, Repr

namespace Scheme

def name : Scheme → String
  | .http => "http"
  | .https => "https"
  | .ws => "ws"
  | .wss => "wss"

/-- The port that is meant if none is given. -/
def defaultPort : Scheme → UInt16
  | .http => 80
  | .https => 443
  | .ws => 80
  | .wss => 443

/-- The scheme of a name in either case. -/
def ofChars? (cs : List Char) : Option Scheme :=
  [http, https, ws, wss].find? fun s => s.name.toList = cs.map Char.toLower

end Scheme

structure Server where
  scheme : Scheme
  host : Host
  port : UInt16
deriving DecidableEq, Repr

namespace Server

def chars (s : Server) : List Char :=
  s.scheme.name.toList ++ ':' :: '/' :: '/' :: s.host.chars ++ ':' :: Decimal.natChars s.port.toNat

def baseUrl (s : Server) : String := .ofList s.chars

/-- A control character or a space, which do not count at the ends of a URL. -/
def isEnd (c : Char) : Bool := c.toNat ≤ 0x20

/-- A character that does not count anywhere in a URL. -/
def isBreak (c : Char) : Bool := c = '\t' || c = '\n' || c = '\r'

/-- A text without the characters that do not count in a URL. -/
def clean (cs : List Char) : List Char :=
  ((cs.dropWhile isEnd).reverse.dropWhile isEnd).reverse.filter fun c => !isBreak c

/-- Either kind of slash. -/
def isSlash (c : Char) : Bool := c = '/' || c = '\\'

/-- What ends the part of a URL that names the server. -/
def endsAuthority (c : Char) : Bool := isSlash c || c = '?' || c = '#'

/-- What follows the last at sign; all of it, if there is none. -/
def dropUser (cs : List Char) : List Char := (cs.reverse.takeWhile (· ≠ '@')).reverse

/-- The host up to the first colon outside brackets, and what follows the colon. -/
def splitPort (inside : Bool) : List Char → List Char × Option (List Char)
  | [] => ([], none)
  | c :: cs =>
    if c = ':' ∧ inside = false then ([], some cs)
    else
      let r := splitPort (if c = '[' then true else if c = ']' then false else inside) cs
      (c :: r.1, r.2)

/-- Reads a port, which has digits only and fits 16 bits; an empty one is the default. -/
def port? (default : UInt16) (cs : List Char) : Option UInt16 :=
  match Decimal.spanDigits cs with
  | ([], []) => some default
  | (ds, []) => if Decimal.ofDigits ds < 65536 then some (.ofNat (Decimal.ofDigits ds)) else none
  | _ => none

/-- The scheme in front of the first colon, and what follows the colon. -/
def splitScheme? (cs : List Char) : Option (Scheme × List Char) :=
  match cs.dropWhile (· ≠ ':') with
  | [] => none
  | _ :: rest => (Scheme.ofChars? (cs.takeWhile (· ≠ ':'))).map (·, rest)

/-- Reads a host and an optional port. -/
def ofAuthority? (scheme : Scheme) (cs : List Char) : Option Server :=
  let (host, port) := splitPort false (dropUser cs)
  match Host.parse? host, port? scheme.defaultPort (port.getD []) with
  | some host, some port => some ⟨scheme, host, port⟩
  | _, _ => none

/-- Reads the address of a server off a URL. -/
def parseChars? (cs : List Char) : Option Server :=
  (splitScheme? (clean cs)).bind fun (scheme, rest) =>
    ofAuthority? scheme ((rest.dropWhile isSlash).takeWhile fun c => !endsAuthority c)

/-- Reads the address of a server off a URL. -/
def parse? (url : String) : Option Server := parseChars? url.toList

/-- The server that games are played on. -/
def productionUrl : String := "https://api.scorbit.io:443"

/-- The server that is tried out. -/
def stagingUrl : String := "https://staging.scorbit.io:443"

/-- Whether a configured host name was understood. -/
inductive Resolved where
  | known (url : String)
  /-- It was not, and this is used instead. -/
  | fallback (url : String)
deriving DecidableEq, Repr

/-- The address that is used either way. -/
def Resolved.url : Resolved → String
  | .known url => url
  | .fallback url => url

/-- The server of a configured host name: one of two symbolic names, nothing, or a URL. -/
def resolve (hostname : String) : Resolved :=
  let name := Text.trim hostname
  if name = "" ∨ name = "production" then .known productionUrl
  else if name = "staging" then .known stagingUrl
  else
    match parse? name with
    | some s => .known s.baseUrl
    | none => .fallback productionUrl

end Server

end ArcadeUplink.Address
