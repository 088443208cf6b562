import ArcadeUplink.Digest.Sha1
import ArcadeUplink.Text.Blank
import ArcadeUplink.Text.Hex

/-!
# UUIDs

Sixteen bytes that name a machine or a game. There is one written form, lower
case with hyphens, and four spellings are read: `spelled?` finds the digits in
each of them. A UUID is derived from a name or made of random bytes.
-/

namespace ArcadeUplink

/-- A text without the characters that occur in `symbols`. -/
def Text.without (symbols text : String) : String :=
  .ofList (text.toList.filter fun c => !symbols.toList.contains c)

structure Uuid where
  bytes : List UInt8
  length_bytes : bytes.length = 16
deriving DecidableEq, Repr

namespace Uuid

/-- The thirty-two digits, lower case. -/
def digits (u : Uuid) : List Char := Text.Hex.encodeChars u.bytes

/-- The lengths of the groups between the hyphens. -/
def groupLengths : List Nat := [8, 4, 4, 4, 12]

/-- Thirty-two digits with the hyphens put in. -/
def hyphenate (ds : List Char) : List Char :=
  ds.take 8 ++ '-' :: (ds.drop 8).take 4 ++ '-' :: (ds.drop 12).take 4 ++
    '-' :: (ds.drop 16).take 4 ++ '-' :: ds.drop 20

/-- The written form: groups of 8, 4, 4, 4 and 12 lower-case digits. -/
def text (u : Uuid) : String := .ofList (hyphenate u.digits)

/-- The parts of a text between its hyphens. -/
def groups : List Char → List (List Char)
  | [] => [[]]
  | c :: cs =>
    match groups cs with
    | [] => [[]]
    | g :: gs => if c = '-' then [] :: g :: gs else (c :: g) :: gs

/-- A text without its hyphens, if they stand where a UUID has them. -/
def ungroup? (cs : List Char) : Option (List Char) :=
  let gs := groups cs
  if gs.map (·.length) = groupLengths then some gs.flatten else none

/-- What may precede the hyphenated form, in either case. -/
def urn : List Char := ['u', 'r', 'n', ':', 'u', 'u', 'i', 'd', ':']

def unbrace? : List Char → Option (List Char)
  | '\x7b' :: cs => if cs.getLast? = some '\x7d' then some cs.dropLast else none
  | _ => none

/-- The text behind the name of the namespace. -/
def dropUrn? (cs : List Char) : Option (List Char) :=
  if (cs.take 9).map Char.toLower = urn then some (cs.drop 9) else none

/-- What stands for the digits in each of the four spellings: bare digits, groups with
hyphens, these in braces, or these behind a namespace. -/
def spelled? (cs : List Char) : Option (List Char) :=
  if cs.length = 32 then some cs
  else if cs.length = 36 then ungroup? cs
  else if cs.length = 38 then (unbrace? cs).bind ungroup?
  else if cs.length = 45 then (dropUrn? cs).bind ungroup?
  else none

/-- The UUID of a byte string, if it has sixteen bytes. -/
def ofBytes? (bytes : List UInt8) : Option Uuid :=
  if h : bytes.length = 16 then some ⟨bytes, h⟩ else none

/-- The UUID that a text spells; blanks around it do not count. -/
def parse? (s : String) : Option Uuid :=
  (spelled? (Text.trimChars s.toList)).bind fun ds => (Text.Hex.decodeChars ds).bind ofBytes?

/-- A byte that carries the version in its upper half. -/
def withVersion (version : UInt8) (b : UInt8) : UInt8 :=
  (b &&& (0x0F : UInt8)) ||| (version <<< (4 : UInt8))

/-- A byte that carries the variant in its two upper bits. -/
def withVariant (b : UInt8) : UInt8 :=
  (b &&& (0x3F : UInt8)) ||| (0x80 : UInt8)

/-- Sixteen bytes with version and variant put in. -/
def stamp (version : UInt8) (bytes : List UInt8) : List UInt8 :=
  (bytes.modify 6 (withVersion version)).modify 8 withVariant

/-- The namespace of names that are looked up in the domain name system. -/
def dnsNamespace : List UInt8 :=
  [0x6b, 0xa7, 0xb8, 0x10, 0x9d, 0xad, 0x11, 0xd1, 0x80, 0xb4, 0x00, 0xc0, 0x4f, 0xd4, 0x30, 0xc8]

/-- The UUID of a name, version 5: the same name always gives the same UUID. -/
def derive (name : String) : Uuid :=
  ⟨stamp 5 ((Digest.sha1 (dnsNamespace ++ name.toUTF8.toList)).take 16), by
    simp [stamp, Digest.length_sha1]⟩

/-- The UUID of sixteen random bytes, version 4. Missing bytes are zeros. -/
def random (bytes : List UInt8) : Uuid :=
  ⟨stamp 4 ((bytes ++ List.replicate 16 0).take 16), by simp [stamp]⟩

/-- The version that a UUID carries. -/
def version (u : Uuid) : Nat := (u.bytes.getD 6 0).toNat / 16

/-- Whether a UUID carries the usual variant. -/
def hasVariant (u : Uuid) : Bool := (u.bytes.getD 8 0).toNat / 64 = 2

/-- Whether a text is the written form of a random UUID. -/
def isRandomText (s : String) : Bool :=
  match parse? s with
  | some u => u.text = s && u.version = 4 && u.hasVariant
  | none => false

theorem length_digits (u : Uuid) : u.digits.length = 32 := by
  simp [digits, Text.Hex.length_encodeChars, u.length_bytes]

end Uuid

end ArcadeUplink
