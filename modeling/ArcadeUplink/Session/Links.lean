import ArcadeUplink.Device.Setup
import ArcadeUplink.Game.Number
import ArcadeUplink.Server.Message
import ArcadeUplink.SortedMap

/-!
# Links

What a device remembers of its connection: the token, the machine of the venue,
the code for pairing, and the links for the players' phones. A link is put
together when it is first asked for and forgotten with the pairing.
-/

namespace ArcadeUplink

structure Venue where
  id : Int
  databaseId : String
deriving DecidableEq, Repr

/-- What is remembered of a connection. -/
structure Links where
  token : String := ""
  venue : Option Venue := none
  shortCode : Option String := none
  pairLink : Option String := none
  claimLinks : SortedMap PlayerNumber String := ∅
deriving DecidableEq

namespace Links

def base : String := "https://scorbit.link/qrcode?$deeplink_path="

/-- The link by which a device is paired. -/
def pairText (s : Setup) : String :=
  base ++ s.device.provider ++ "&machineid=" ++ Decimal.intText s.device.machineId ++
    "&uuid=" ++ s.signedUuid

/-- The link by which a player claims a position at a machine. -/
def claimText (v : Venue) (p : PlayerNumber) : String :=
  base ++ Decimal.intText v.id ++ "&opdb=" ++ v.databaseId ++ "&position=" ++ p.text

/-- Forgets everything that depends on the pairing. -/
def forget (l : Links) : Links := { l with venue := none, pairLink := none, claimLinks := ∅ }

/-- The machine that a state of pairing names. -/
def venueOf (p : Pairing) : Option Venue := p.venue.map fun id => ⟨id, p.databaseId⟩

/-- Remembers a new pairing in place of the old one. -/
def recordPairing (l : Links) (p : Pairing) : Links := { l.forget with venue := venueOf p }

/-- The link for pairing, put together unless it is remembered. -/
def pair (l : Links) (s : Setup) : String × Links :=
  match l.pairLink with
  | some link => (link, l)
  | none => (pairText s, { l with pairLink := some (pairText s) })

/-- The link for claiming a position, put together unless it is remembered; empty without a
machine. -/
def claim (l : Links) (p : PlayerNumber) : String × Links :=
  match l.claimLinks.get? p with
  | some link => (link, l)
  | none =>
    match l.venue with
    | some v => (claimText v p, { l with claimLinks := l.claimLinks.insert p (claimText v p) })
    | none => ("", l)

end Links

end ArcadeUplink
