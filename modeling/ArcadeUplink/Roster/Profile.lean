import ArcadeUplink.Json.Decode

/-!
# Profiles of players

Who the player at a position is, as the server tells it.
-/

namespace ArcadeUplink

structure Profile where
  id : Nat
  /-- Whether the initials are to be shown and not the name. -/
  preferInitials : Bool
  name : String
  initials : String
  /-- Where the picture is; empty if there is none. -/
  pictureUrl : String
deriving DecidableEq, Repr, Inhabited

namespace Profile

def decode : Json.Decoder Profile := fun v => do
  let r ← Json.Record.ofJson "ProfileFields" 5 v
  r.check [("id", (Json.asInt .u64).check), ("cached_display_name", Json.asText.check),
    ("initials", Json.asText.check), ("prefer_initials", Json.asBool.check),
    ("profile_picture", (Json.asOption Json.asText).check)]
  let id ← r.field 0 "id" (Json.asInt .u64)
  let name ← r.field 1 "cached_display_name" Json.asText
  let initials ← r.field 2 "initials" Json.asText
  let preferInitials ← r.fieldD 3 "prefer_initials" Json.asBool false
  let picture ← r.fieldD 4 "profile_picture" (Json.asOption Json.asText) none
  r.close
  return { id := id.toNat, preferInitials, name, initials, pictureUrl := picture.getD "" }

end Profile

/-- What the server says of one position; there may be nobody. -/
structure Seat where
  position : Nat
  player : Option Profile
deriving DecidableEq, Repr

/-- Reads what is said of a position. -/
def Seat.decode : Json.Decoder Seat := fun v => do
  let r ← Json.Record.ofJson "ProfileEntry" 2 v
  r.check [("position", (Json.asInt .u32).check), ("player", (Json.asOption Profile.decode).check)]
  let position ← r.field 0 "position" (Json.asInt .u32)
  let player ← r.optional 1 "player" Profile.decode
  r.close
  return ⟨position.toNat, player⟩

end ArcadeUplink
