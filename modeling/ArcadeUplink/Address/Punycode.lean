/-!
# Punycode

The encoding of RFC 3492, by which a label outside ASCII is written in ASCII:
the ASCII characters first, then where and which the others are, as numbers of
variable length in base 36.
-/

namespace ArcadeUplink.Address.Punycode

/-- The digit of a value below 36: letters, then decimal digits. -/
def digit (n : Nat) : Char := if n < 26 then Char.ofNat (97 + n) else Char.ofNat (22 + n)

/-- The value of a digit of either case. -/
def value? (c : Char) : Option Nat :=
  if 'a' ≤ c ∧ c ≤ 'z' then some (c.toNat - 97)
  else if 'A' ≤ c ∧ c ≤ 'Z' then some (c.toNat - 65)
  else if '0' ≤ c ∧ c ≤ '9' then some (c.toNat - 22)
  else none

/-- Digits below the threshold end a number. The threshold at weight position `k` lies
between 1 and 26. -/
def threshold (bias k : Nat) : Nat := min 26 (max 1 (k - bias))

theorem one_le_threshold (bias k : Nat) : 1 ≤ threshold bias k := by unfold threshold; omega

/-- A distance shrunk to the range where the bias is read off, and the position it came from. -/
def shrink (k delta : Nat) : Nat × Nat :=
  if 455 < delta then shrink (k + 36) (delta / 35) else (k, delta)
termination_by delta

/-- The bias after a distance was written as the `count`-th one. -/
def adapt (delta count : Nat) (first : Bool) : Nat :=
  let d := if first then delta / 700 else delta / 2
  let (k, e) := shrink 0 (d + d / count)
  k + 36 * e / (e + 38)

/-- A number in base 36, the least significant digit first. -/
def writeNumber (bias k n : Nat) : List Char :=
  let t := threshold bias k
  if n < t then [digit n]
  else digit (t + (n - t) % (36 - t)) :: writeNumber bias (k + 36) ((n - t) / (36 - t))
termination_by n
decreasing_by
  have h := one_le_threshold bias k
  exact Nat.lt_of_le_of_lt (Nat.div_le_self ..) (by omega)

/-- Where the encoder stands: how many characters are written, the bias, and the distance
since the last one. -/
structure Progress where
  handled : Nat
  bias : Nat
  delta : Nat
  first : Bool := true

/-- Passes one character in the round of the code point `n`: a smaller one lengthens the
distance, the code point itself is written. -/
def pass (n : Nat) (p : Progress) (c : Char) : List Char × Progress :=
  if c.toNat < n then ([], { p with delta := p.delta + 1 })
  else if c.toNat = n then
    (writeNumber p.bias 36 p.delta,
      ⟨p.handled + 1, adapt p.delta (p.handled + 1) p.first, 0, false⟩)
  else ([], p)

def passAll (n : Nat) : Progress → List Char → List Char × Progress
  | p, [] => ([], p)
  | p, c :: cs =>
    let (out, p) := pass n p c
    let (rest, p) := passAll n p cs
    (out ++ rest, p)

/-- The rounds for the given code points, which increase; `n` is the one after the last. -/
def rounds (cs : List Char) : Nat → Progress → List Nat → List Char
  | _, _, [] => []
  | n, p, m :: ms =>
    let (out, p) := passAll m { p with delta := p.delta + (m - n) * (p.handled + 1) } cs
    out ++ rounds cs (m + 1) { p with delta := p.delta + 1 } ms

/-- Whether a character is outside ASCII. -/
def isWide (c : Char) : Bool := 128 ≤ c.toNat

/-- A number put into an increasing list, unless it is there. -/
def adjoin (n : Nat) : List Nat → List Nat
  | [] => [n]
  | m :: ms => if n < m then n :: m :: ms else if n = m then m :: ms else m :: adjoin n ms

/-- The code points outside ASCII, increasing, each once. -/
def widePoints (cs : List Char) : List Nat :=
  (cs.filter isWide).foldl (fun ms c => adjoin c.toNat ms) []

def encode (cs : List Char) : List Char :=
  let basic := cs.filter fun c => !isWide c
  basic ++ (if basic = [] then [] else ['-']) ++
    rounds cs 128 ⟨basic.length, 72, 0, true⟩ (widePoints cs)

/-- Reads one number and adds it to `i`, counting in units of `weight`. -/
def readNumber (bias : Nat) : Nat → Nat → Nat → List Char → Option (Nat × List Char)
  | _, _, _, [] => none
  | k, weight, i, c :: cs =>
    match value? c with
    | none => none
    | some d =>
      let t := threshold bias k
      if d < t then some (i + d * weight, cs)
      else readNumber bias (k + 36) (weight * (36 - t)) (i + d * weight) cs

/-- Puts in the characters that the numbers tell of; `fuel` bounds how many there are. -/
def putIn : Nat → Nat → Nat → Nat → List Char → List Char → Option (List Char)
  | _, _, _, _, out, [] => some out
  | 0, _, _, _, _, _ => none
  | fuel + 1, n, i, bias, out, cs =>
    (readNumber bias 36 1 i cs).bind fun (j, rest) =>
      let count := out.length + 1
      let m := n + j / count
      if m.isValidChar then
        putIn fuel m (j % count + 1) (adapt (j - i) count (i == 0))
          (out.insertIdx (j % count) (Char.ofNat m)) rest
      else none

/-- A text up to its last hyphen and what follows it; without a hyphen all of it follows. -/
def splitLast (cs : List Char) : List Char × List Char :=
  let tail := (cs.reverse.takeWhile (· ≠ '-')).reverse
  (cs.take (cs.length - tail.length - 1), tail)

/-- The text that an encoded text stands for. -/
def decode? (cs : List Char) : Option (List Char) :=
  let (basic, tail) := splitLast cs
  if basic.any isWide then none else putIn tail.length 128 0 72 basic tail

end ArcadeUplink.Address.Punycode
