import ArcadeUplink.Json.Basic
import ArcadeUplink.Text.Hex

/-!
# JSON text

The compact text of a JSON value: no spaces, members in their order, and in a
string only those characters escaped that have to be.
-/

namespace ArcadeUplink.Json

/-- The escape of a control character that has no short one. -/
def controlEscape (c : Char) : List Char :=
  ['\\', 'u', '0', '0', Text.Hex.digit (c.toNat / 16), Text.Hex.digit (c.toNat % 16)]

/-- How one character stands inside a string. -/
def stringChar (c : Char) : List Char :=
  if c = '"' then ['\\', '"']
  else if c = '\\' then ['\\', '\\']
  else if c = '\x08' then ['\\', 'b']
  else if c = '\x0c' then ['\\', 'f']
  else if c = '\n' then ['\\', 'n']
  else if c = '\r' then ['\\', 'r']
  else if c = '\t' then ['\\', 't']
  else if c.toNat < 0x20 then controlEscape c
  else [c]

/-- The text of a string, quotes included. -/
def stringChars (s : String) : List Char := '"' :: s.toList.flatMap stringChar ++ ['"']

mutual

def chars : Json → List Char
  | .null => ['n', 'u', 'l', 'l']
  | .bool true => ['t', 'r', 'u', 'e']
  | .bool false => ['f', 'a', 'l', 's', 'e']
  | .int i => Decimal.intChars i
  | .real x => x.dataChars
  | .text s => stringChars s
  | .list [] => ['[', ']']
  | .list (v :: vs) => '[' :: chars v ++ itemChars vs
  | .object [] => ['\x7b', '\x7d']
  | .object ((k, v) :: ms) => '\x7b' :: stringChars k ++ ':' :: chars v ++ memberChars ms

/-- The items after the first, each behind a comma, and the closing bracket. -/
def itemChars : List Json → List Char
  | [] => [']']
  | v :: vs => ',' :: chars v ++ itemChars vs

/-- The members after the first, each behind a comma, and the closing brace. -/
def memberChars : List (String × Json) → List Char
  | [] => ['\x7d']
  | (k, v) :: ms => ',' :: stringChars k ++ ':' :: chars v ++ memberChars ms

end

def render (v : Json) : String := .ofList v.chars

end ArcadeUplink.Json
