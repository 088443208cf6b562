import ArcadeUplink.Server.Outcome

/-!
# Status

How far a device has got: authenticated or not, and linked to the machine of a
venue or not. `Status.canBecome` is the diagram of all changes. A gate lets an
operation pass in some of the states and names the cause in the others.
-/

namespace ArcadeUplink

/-- The state of authentication and pairing. -/
inductive Status where
  | notAuthenticated
  /-- The handshake is under way. -/
  | authenticating
  /-- The server knows the device, and is asked for the pairing. -/
  | checkingPairing
  | unpaired
  | paired
  /-- The handshake failed, for good. -/
  | failed
deriving DecidableEq, Repr

namespace Status

/-- Every state, in the order of the numbers. -/
def all : List Status :=
  [notAuthenticated, authenticating, checkingPairing, unpaired, paired, failed]

def code : Status → Nat
  | notAuthenticated => 0
  | authenticating => 1
  | checkingPairing => 2
  | unpaired => 3
  | paired => 4
  | failed => 5

def ofCode? (n : Int) : Option Status := all.find? fun s => (s.code : Int) = n

def text : Status → String
  | notAuthenticated => "not authenticated"
  | authenticating => "authenticating"
  | checkingPairing => "checking pairing"
  | unpaired => "unpaired"
  | paired => "paired"
  | failed => "authentication failed"

def name : Status → String
  | notAuthenticated => "NotAuthenticated"
  | authenticating => "Authenticating"
  | checkingPairing => "AuthenticatedCheckingPairing"
  | unpaired => "AuthenticatedUnpaired"
  | paired => "AuthenticatedPaired"
  | failed => "AuthenticationFailed"

def isAuthenticated (s : Status) : Bool := s = checkingPairing || s = unpaired || s = paired

def canBecome : Status → Status → Bool
  | notAuthenticated, authenticating => true
  | authenticating, checkingPairing => true
  | authenticating, failed => true
  | checkingPairing, paired => true
  | checkingPairing, unpaired => true
  | unpaired, paired => true
  | paired, unpaired => true
  | _, _ => false

end Status

/-- What an operation needs. -/
inductive Gate where
  /-- A device that is paired. -/
  | paired
  /-- A device whose pairing is known, whatever it is. -/
  | settled
  /-- A device that is authenticated. -/
  | authenticated
deriving DecidableEq, Repr

namespace Gate

/-- The states in which a gate is open. -/
def states : Gate → List Status
  | paired => [.paired]
  | settled => [.unpaired, .paired]
  | authenticated => [.checkingPairing, .unpaired, .paired]

/-- Why a gate is closed in a state; nothing, if it is open. -/
def refusal? (g : Gate) (s : Status) : Option ResultCode :=
  if s ∈ g.states then none else if s = .failed then some .authFailed else some .notPaired

end Gate

end ArcadeUplink
