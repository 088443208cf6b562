import ArcadeUplink.Address.Ipv4

/-!
# IPv6 addresses

Eight pieces of sixteen bits, written in lower-case hexadecimal with colons
between them. The longest run of at least two zero pieces, the first of several,
is left out and leaves two colons behind. The reader takes any pieces of up to
four digits, and an IPv4 address in place of the last two.
-/

namespace ArcadeUplink.Address

structure Ipv6 where
  pieces : List UInt16
  length_pieces : pieces.length = 8
deriving DecidableEq, Repr

namespace Ipv6

/-- A piece in hexadecimal without leading zeros. -/
def pieceChars (p : UInt16) : List Char := Nat.toDigits 16 p.toNat

def join : List UInt16 → List Char
  | [] => []
  | [p] => pieceChars p
  | p :: ps => pieceChars p ++ ':' :: join ps

/-- How many zeros a list begins with. -/
def zeros (ps : List UInt16) : Nat := (ps.takeWhile (· = 0)).length

/-- Of the runs of zeros that begin at `i` or later, the first of the longest: where it
begins and its length. -/
def longestRun (i : Nat) : List UInt16 → Nat × Nat
  | [] => (i, 0)
  | p :: ps =>
    let here := zeros (p :: ps)
    let later := longestRun (i + 1) ps
    if later.2 ≤ here then (i, here) else later

def chars (a : Ipv6) : List Char :=
  let run := longestRun 0 a.pieces
  if run.2 < 2 then join a.pieces
  else join (a.pieces.take run.1) ++ ':' :: ':' :: join (a.pieces.drop (run.1 + run.2))

/-- A text up to the first two colons and what follows them, if there are any. -/
def splitGap : List Char → List Char × Option (List Char)
  | [] => ([], none)
  | ':' :: ':' :: cs => ([], some cs)
  | c :: cs => (c :: (splitGap cs).1, (splitGap cs).2)

/-- The parts of a text between the colons. -/
def parts : List Char → List (List Char)
  | [] => [[]]
  | c :: cs =>
    match parts cs with
    | [] => [[]]
    | p :: ps => if c = ':' then [] :: p :: ps else (c :: p) :: ps

/-- Reads a piece of one to four digits. -/
def piece? (cs : List Char) : Option UInt16 :=
  if cs = [] ∨ 4 < cs.length then none
  else (Ipv4.digitsValue? 16 cs).map .ofNat

/-- The two pieces of an IPv4 address. -/
def ofIpv4 (i : Ipv4) : List UInt16 :=
  [.ofNat (256 * i.a.toNat + i.b.toNat), .ofNat (256 * i.c.toNat + i.d.toNat)]

/-- Reads parts as pieces; the last may be an IPv4 address if `tail` says so. -/
def pieces? (tail : Bool) : List (List Char) → Option (List UInt16)
  | [] => some []
  | [p] =>
    match piece? p with
    | some n => some [n]
    | none => if tail then (Ipv4.strict? p).map ofIpv4 else none
  | p :: ps => (piece? p).bind fun n => (pieces? tail ps).map (n :: ·)

/-- Reads one side of the gap, which may be empty. -/
def side? (tail : Bool) (cs : List Char) : Option (List UInt16) :=
  if cs = [] then some [] else pieces? tail (parts cs)

/-- An address with the given pieces around the zeros of the gap, at least one. -/
def fill? (left right : List UInt16) : Option Ipv6 :=
  if h : left.length + right.length ≤ 7 then
    some ⟨left ++ List.replicate (8 - left.length - right.length) 0 ++ right, by simp; omega⟩
  else none

def parse? (cs : List Char) : Option Ipv6 :=
  match splitGap cs with
  | (l, some r) => do
    let left ← side? false l
    let right ← side? true r
    fill? left right
  | (l, none) => do
    let ps ← pieces? true (parts l)
    if h : ps.length = 8 then some ⟨ps, h⟩ else none

end Ipv6

end ArcadeUplink.Address
