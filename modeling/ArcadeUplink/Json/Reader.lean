import ArcadeUplink.Json.Printer
import ArcadeUplink.SortedMap

/-!
# Reading JSON

A reader for JSON text. Blanks may stand between tokens, strings may use every
escape of the format, and of two members of one name the later counts. Reading
is total: nesting is bounded by the length of the text.
-/

namespace ArcadeUplink.Json

/-- Whether a character may stand between tokens. -/
def isGap (c : Char) : Bool := c = ' ' || c = '\t' || c = '\n' || c = '\r'

/-- A text without the blanks in front. -/
def skipGap (cs : List Char) : List Char := cs.dropWhile isGap

def unit? (a b c d : Char) : Option Nat := do
  let w ← Text.Hex.value? a
  let x ← Text.Hex.value? b
  let y ← Text.Hex.value? c
  let z ← Text.Hex.value? d
  some (16 * (16 * (16 * w + x) + y) + z)

/-- The character that a short escape stands for. -/
def shortEscape? (c : Char) : Option Char :=
  if c = '"' ∨ c = '\\' ∨ c = '/' then some c
  else if c = 'b' then some '\x08'
  else if c = 'f' then some '\x0c'
  else if c = 'n' then some '\n'
  else if c = 'r' then some '\r'
  else if c = 't' then some '\t'
  else none

/-- Reads the rest of a string, the opening quote being read already. A pair of escaped
surrogates is one character; a lone one is refused, as is a raw control character. -/
def readString : List Char → Option (List Char × List Char)
  | '"' :: rest => some ([], rest)
  | '\\' :: 'u' :: a :: b :: c :: d :: '\\' :: 'u' :: e :: f :: g :: h :: rest => do
    let hi ← unit? a b c d
    if 0xD800 ≤ hi ∧ hi < 0xDC00 then
      let lo ← unit? e f g h
      if 0xDC00 ≤ lo ∧ lo < 0xE000 then
        let (s, r) ← readString rest
        some (Char.ofNat (0x10000 + (hi - 0xD800) * 0x400 + (lo - 0xDC00)) :: s, r)
      else none
    else if 0xDC00 ≤ hi ∧ hi < 0xE000 then none
    else
      let (s, r) ← readString ('\\' :: 'u' :: e :: f :: g :: h :: rest)
      some (Char.ofNat hi :: s, r)
  | '\\' :: 'u' :: a :: b :: c :: d :: rest => do
    let n ← unit? a b c d
    if 0xD800 ≤ n ∧ n < 0xE000 then none
    else
      let (s, r) ← readString rest
      some (Char.ofNat n :: s, r)
  | '\\' :: c :: rest => do
    let x ← shortEscape? c
    let (s, r) ← readString rest
    some (x :: s, r)
  | c :: rest =>
    if c.toNat < 0x20 ∨ c = '\\' then none
    else do
      let (s, r) ← readString rest
      some (c :: s, r)
  | [] => none

/-- Reads a fraction: a point and at least one digit. -/
def readFraction : List Char → Option (List Char × List Char)
  | '.' :: cs =>
    match Decimal.spanDigits cs with
    | ([], _) => none
    | (ds, rest) => some (ds, rest)
  | cs => some ([], cs)

/-- Reads the digits of an exponent with an optional sign. -/
def readSigned : List Char → Option (Int × List Char)
  | '+' :: cs => (Decimal.readNat cs).map fun r => ((r.1 : Int), r.2)
  | cs => Decimal.readInt cs

/-- Reads an exponent, if there is one. -/
def readExponent : List Char → Option (Option Int × List Char)
  | 'e' :: cs => (readSigned cs).map fun r => (some r.1, r.2)
  | 'E' :: cs => (readSigned cs).map fun r => (some r.1, r.2)
  | cs => some (none, cs)

/-- The whole numbers that stay exact; one outside is a floating-point number. -/
def isExact (i : Int) : Bool := -0x8000000000000000 ≤ i && i < 0x10000000000000000

/-- The value of a number with the given sign, digits, fraction and exponent. -/
def numberValue (negative : Bool) (whole fraction : List Char) (e : Option Int) : Option Json :=
  let n := Decimal.ofDigits whole
  let i : Int := if negative then -n else n
  if fraction = [] ∧ e = none ∧ isExact i ∧ ¬(negative ∧ n = 0) then some (.int i)
  else
    (Binary64.ofDecimal negative (Decimal.ofDigits (whole ++ fraction))
      (e.getD 0 - fraction.length)).map .real

/-- Reads the number behind an optional sign. Leading zeros are refused. -/
def readUnsigned (negative : Bool) (cs : List Char) : Option (Json × List Char) := do
  let (whole, rest) := Decimal.spanDigits cs
  if whole = [] ∨ (whole.head? = some '0' ∧ whole ≠ ['0']) then none
  else
    let (fraction, rest) ← readFraction rest
    let (e, rest) ← readExponent rest
    let v ← numberValue negative whole fraction e
    some (v, rest)

def readNumber : List Char → Option (Json × List Char)
  | '-' :: cs => readUnsigned true cs
  | cs => readUnsigned false cs

mutual

/-- Reads one value at the front of a text; `fuel` bounds the nesting and the lengths. -/
def readValue : Nat → List Char → Option (Json × List Char)
  | 0, _ => none
  | fuel + 1, cs =>
    match skipGap cs with
    | 'n' :: 'u' :: 'l' :: 'l' :: rest => some (.null, rest)
    | 't' :: 'r' :: 'u' :: 'e' :: rest => some (.bool true, rest)
    | 'f' :: 'a' :: 'l' :: 's' :: 'e' :: rest => some (.bool false, rest)
    | '"' :: rest => (readString rest).map fun r => (.text (.ofList r.1), r.2)
    | '[' :: rest =>
      match skipGap rest with
      | ']' :: rest => some (.list [], rest)
      | rest => do
        let (v, rest) ← readValue fuel rest
        let (vs, rest) ← readItems fuel rest
        some (.list (v :: vs), rest)
    | '\x7b' :: rest =>
      match skipGap rest with
      | '\x7d' :: rest => some (.object [], rest)
      | rest => do
        let (m, rest) ← readMember fuel rest
        let (ms, rest) ← readMembers fuel rest
        some (.object (SortedMap.ofList (m :: ms)).entries, rest)
    | cs => readNumber cs

/-- Reads the items after the first, up to the closing bracket. -/
def readItems : Nat → List Char → Option (List Json × List Char)
  | 0, _ => none
  | fuel + 1, cs =>
    match skipGap cs with
    | ']' :: rest => some ([], rest)
    | ',' :: rest => do
      let (v, rest) ← readValue fuel rest
      let (vs, rest) ← readItems fuel rest
      some (v :: vs, rest)
    | _ => none

def readMember : Nat → List Char → Option ((String × Json) × List Char)
  | 0, _ => none
  | fuel + 1, cs =>
    match skipGap cs with
    | '"' :: rest => do
      let (k, rest) ← readString rest
      match skipGap rest with
      | ':' :: rest =>
        let (v, rest) ← readValue fuel rest
        some ((.ofList k, v), rest)
      | _ => none
    | _ => none

/-- Reads the members after the first, up to the closing brace. -/
def readMembers : Nat → List Char → Option (List (String × Json) × List Char)
  | 0, _ => none
  | fuel + 1, cs =>
    match skipGap cs with
    | '\x7d' :: rest => some ([], rest)
    | ',' :: rest => do
      let (m, rest) ← readMember fuel rest
      let (ms, rest) ← readMembers fuel rest
      some (m :: ms, rest)
    | _ => none

end

/-- The value of a whole text; blanks around it are ignored. -/
def parse? (s : String) : Option Json :=
  let cs := s.toList
  match readValue (2 * cs.length + 2) cs with
  | some (v, rest) => if skipGap rest = [] then some v else none
  | none => none

end ArcadeUplink.Json
