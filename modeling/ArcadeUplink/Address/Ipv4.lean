import ArcadeUplink.Number.Decimal
import ArcadeUplink.Text.Hex

/-!
# IPv4 addresses

Four bytes, written in decimal with dots between them. The reader also takes the
older spellings: fewer parts, of which the last fills the remaining bytes, and
parts in octal or hexadecimal.
-/

namespace ArcadeUplink.Address

/-- The parts of a text between the dots. -/
def labels : List Char → List (List Char)
  | [] => [[]]
  | c :: cs =>
    match labels cs with
    | [] => [[]]
    | l :: ls => if c = '.' then [] :: l :: ls else (c :: l) :: ls

/-- An IPv4 address, the most significant byte first. -/
structure Ipv4 where
  a : UInt8
  b : UInt8
  c : UInt8
  d : UInt8
deriving DecidableEq, Repr

namespace Ipv4

/-- The address as a number below `2 ^ 32`. -/
def toNat (i : Ipv4) : Nat := 16777216 * i.a.toNat + 65536 * i.b.toNat + 256 * i.c.toNat + i.d.toNat

/-- The address of a number below `2 ^ 32`. -/
def ofNat (n : Nat) : Ipv4 :=
  ⟨.ofNat (n / 16777216), .ofNat (n / 65536), .ofNat (n / 256), .ofNat n⟩

def chars (i : Ipv4) : List Char :=
  Decimal.natChars i.a.toNat ++ '.' :: Decimal.natChars i.b.toNat ++
    '.' :: Decimal.natChars i.c.toNat ++ '.' :: Decimal.natChars i.d.toNat

/-- The number that digits stand for in a base up to sixteen. -/
def digitsValue? (base : Nat) (cs : List Char) : Option Nat :=
  cs.foldlM (fun n c => (Text.Hex.value? c).bind fun v =>
    if v < base then some (base * n + v) else none) 0

/-- The number of a part: hexadecimal behind `0x`, octal behind another `0`, else decimal. A
base without digits counts as zero. -/
def part? : List Char → Option Nat
  | [] => none
  | ['0'] => some 0
  | '0' :: 'x' :: ds => digitsValue? 16 ds
  | '0' :: 'X' :: ds => digitsValue? 16 ds
  | '0' :: ds => digitsValue? 8 ds
  | ds => digitsValue? 10 ds

/-- Whether a host that ends in this label has to be an address. -/
def isNumeric (label : List Char) : Bool :=
  (!label.isEmpty && label.all Char.isDigit) || (part? label).isSome

/-- A list of labels without an empty one at its end. -/
def dropRoot (ls : List (List Char)) : List (List Char) :=
  if 1 < ls.length ∧ ls.getLast? = some [] then ls.dropLast else ls

/-- Whether a host has to be an address: its last label is a number. -/
def isDue (cs : List Char) : Bool := ((dropRoot (labels cs)).getLast?.map isNumeric).getD false

/-- The number of an address with the given parts: each but the last is a byte, and the last
fills the bytes that are left. -/
def combine? (last : Nat) (earlier : List Nat) : Option Nat :=
  let bits := 8 * (4 - earlier.length)
  if 4 ≤ earlier.length ∨ earlier.any (256 ≤ ·) ∨ 1 <<< bits ≤ last then none
  else some (earlier.foldl (fun n part => 256 * n + part) 0 <<< bits + last)

/-- Reads an address in any spelling. -/
def parse? (cs : List Char) : Option Ipv4 := do
  let numbers ← (dropRoot (labels cs)).mapM part?
  let last ← numbers.getLast?
  (combine? last numbers.dropLast).map ofNat

/-- Reads the written form of one byte: no sign, no superfluous zero. -/
def octet? (cs : List Char) : Option UInt8 :=
  match Decimal.spanDigits cs with
  | (ds, []) =>
    let n := Decimal.ofDigits ds
    if ds ≠ [] ∧ ds.length ≤ 3 ∧ (ds.head? ≠ some '0' ∨ ds.length = 1) ∧ n < 256 then
      some (.ofNat n)
    else none
  | _ => none

/-- Reads the written form only. -/
def strict? (cs : List Char) : Option Ipv4 :=
  match (labels cs).map octet? with
  | [some a, some b, some c, some d] => some ⟨a, b, c, d⟩
  | _ => none

end Ipv4

end ArcadeUplink.Address
