import ArcadeUplink.Device.Info
import ArcadeUplink.Game.Number
import ArcadeUplink.Json.Printer
import ArcadeUplink.Log.Entry
import ArcadeUplink.Roster.Profile
import ArcadeUplink.Roster.Recency
import ArcadeUplink.SortedMap

/-!
# The directory of players

The profiles that the server sent last and some pictures. The host asks from
time to time whether anything is new, and sees the profiles as they were when
the answer was last yes. Each operation is one step; storing or removing a
picture takes two, as the host may ask in between.
-/

namespace ArcadeUplink

abbrev Picture := List UInt8

abbrev Seating := SortedMap PlayerNumber Profile

/-- How many pictures are kept. -/
def Directory.pictureLimit : Nat := 8

/-- The profiles and pictures of the players. -/
structure Directory where
  /-- What the server sent last. -/
  profiles : Seating := ∅
  /-- What the host sees. -/
  published : Seating := ∅
  pictures : Recency PlayerNumber Picture := .ofCapacity Directory.pictureLimit
  /-- Whether something is new since the host last asked. -/
  updated : Bool := false
deriving DecidableEq

namespace Directory

/-- A directory that nothing was sent to. -/
def empty : Directory := {}

/-- Takes one item of a list of profiles into account. An item that cannot be read, and one for
a position that does not exist, is logged and otherwise ignored. -/
def addSeat (seating : Seating) (item : Json) : Seating × List Log.Entry :=
  match Seat.decode item with
  | .error e =>
    (seating,
      [.error ("Failed to parse player profile: " ++ e.message ++ ", item: " ++ item.render)])
  | .ok ⟨_, none⟩ => (seating, [])
  | .ok ⟨position, some profile⟩ =>
    match PlayerNumber.ofNat? position with
    | some p => (seating.insert p profile, [])
    | none =>
      (seating, [.warn ("Skipping profile at invalid position " ++ Decimal.natText position)])

/-- Takes several items into account, one after another. -/
def addSeats (seating : Seating) : List Json → Seating × List Log.Entry
  | [] => (seating, [])
  | item :: items =>
    let (seating, log) := addSeat seating item
    let (seating, more) := addSeats seating items
    (seating, log ++ more)

/-- Other profiles, about which the host is to be told. -/
def replace (d : Directory) (seating : Seating) : Directory :=
  { d with profiles := seating, updated := true }

/-- Takes over the profiles that the server sent, and tells whether they differ from those
before. Anything but a list is ignored. -/
def setProfiles (d : Directory) (value : Json) : Bool × Directory × List Log.Entry :=
  match value with
  | .list items =>
    let (seating, log) := addSeats ∅ items
    if d.profiles = seating then (false, d, log)
    else
      (true, d.replace seating,
        log ++ [.debug ("Player profiles updated: " ++ Decimal.natText seating.size ++
          " player(s)")])
  | v => (false, d, [.warn ("Invalid player profiles data: " ++ v.render)])

/-- Tells whether anything is new since it was last asked; if so, the host sees the latest
profiles from now on. -/
def poll (d : Directory) : Bool × Directory :=
  if d.updated then (true, { d with updated := false, published := d.profiles }) else (false, d)

/-- The profile that the host sees at a position. -/
def profile? (d : Directory) (p : PlayerNumber) : Option Profile := d.published.get? p

def storePicture (d : Directory) (p : PlayerNumber) (picture : Picture) : Directory :=
  { d with pictures := (d.pictures.put p picture).2 }

/-- Takes a picture out of the cache. -/
def dropPicture (d : Directory) (p : PlayerNumber) : Directory :=
  { d with pictures := (d.pictures.remove p).2 }

/-- Says that something is new. -/
def announce (d : Directory) : Directory := { d with updated := true }

def setPicture (d : Directory) (p : PlayerNumber) (picture : Picture) : Directory :=
  (d.storePicture p picture).announce

def removePicture (d : Directory) (p : PlayerNumber) : Directory := (d.dropPicture p).announce

/-- Whether there is a picture of a player. -/
def hasPicture (d : Directory) (p : PlayerNumber) : Bool := d.pictures.contains p

/-- The picture of a player, which counts as used. -/
def picture? (d : Directory) (p : PlayerNumber) : Option Picture × Directory :=
  let (found, pictures) := d.pictures.get? p
  (found, { d with pictures })

/-- The players whose picture can be had and is not here, each with its place. -/
def missingPictures (d : Directory) : List (PlayerNumber × String) :=
  (d.profiles.entries.filter fun e => e.2.pictureUrl ≠ "" && !d.hasPicture e.1).map
    fun e => (e.1, e.2.pictureUrl)

def describe (d : Directory) : String :=
  Text.labelledPart "ProfileCache"
    [("profiles", Decimal.natText d.profiles.size),
     ("pictures", Decimal.natText d.pictures.size),
     ("updated", Text.ofBool d.updated)]

end Directory

end ArcadeUplink
