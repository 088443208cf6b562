import ArcadeUplink.Number.Decimal

/-!
# Binary floating point

Finite floating-point numbers of 64 bits as exact dyadic numbers: a sign, a
mantissa below `2 ^ 53` and a power of two. A decimal is read as the nearest
such number, a tie going to the even mantissa; a number is written with the
fewest decimal digits that read back as it, and of those with the nearest.
-/

namespace ArcadeUplink

/-- The number `± mantissa * 2 ^ exponent`. -/
structure Binary64 where
  negative : Bool
  mantissa : Nat
  exponent : Int
deriving DecidableEq, Repr, Inhabited

namespace Binary64

/-- The exponent of the smallest positive number. -/
def minExponent : Int := -1074

/-- The largest exponent of a finite number. -/
def maxExponent : Int := 971

/-- Zero, with a sign. -/
def zero (negative : Bool) : Binary64 := ⟨negative, 0, minExponent⟩

/-- The integer nearest to a quotient, a tie going to the even one. -/
def roundDiv (n d : Nat) : Nat :=
  let q := n / d
  let r := n % d
  if 2 * r < d then q
  else if d < 2 * r then q + 1
  else q + q % 2

/-- A quotient scaled by a power of two, as a quotient. -/
def scale (n d : Nat) (e : Int) : Nat × Nat :=
  if 0 ≤ e then (n <<< e.toNat, d) else (n, d <<< (-e).toNat)

/-- The floating-point number nearest to `n / d`; none if it would be infinite. -/
def ofRatio (negative : Bool) (n d : Nat) : Option Binary64 :=
  if n = 0 then some (zero negative)
  else
    let guess : Int := (n.log2 : Int) - (d.log2 : Int) - 52
    let top := scale n d (-guess)
    let e := max minExponent (if top.1 < top.2 <<< 52 then guess - 1 else guess)
    let q := scale n d (-e)
    let m := roundDiv q.1 q.2
    let (m, e) := if m = 1 <<< 53 then (1 <<< 52, e + 1) else (m, e)
    if maxExponent < e then none else some ⟨negative, m, e⟩

/-- Ten to the power `e`; 1 for a negative `e`. -/
def powTen (e : Int) : Nat := Nat.pow 10 e.toNat

/-- The floating-point number nearest to `± digits * 10 ^ e`. Exponents far outside the range
are answered without computing the power. -/
def ofDecimal (negative : Bool) (digits : Nat) (e : Int) : Option Binary64 :=
  let size : Int := (Nat.toDigits 10 digits).length + e
  if digits = 0 ∨ size < -330 then some (zero negative)
  else if 330 < size then none
  else if 0 ≤ e then ofRatio negative (digits * powTen e) 1
  else ofRatio negative digits (powTen (-e))

/-- The magnitude as a quotient of naturals. -/
def ratio (x : Binary64) : Nat × Nat := scale x.mantissa 1 x.exponent

/-- The least `t` up to `fuel` with `d ≤ n * 10 ^ t`. -/
def leadingZeros : Nat → Nat → Nat → Nat
  | 0, _, _ => 0
  | fuel + 1, n, d => if d ≤ n then 0 else leadingZeros fuel (n * 10) d + 1

/-- The power of ten of the leading digit of `n / d`. -/
def magnitude (n d : Nat) : Int :=
  if d ≤ n then ((Nat.toDigits 10 (n / d)).length : Int) - 1
  else -(leadingZeros 400 n d : Int)

/-- Twice the distances from a number to the ends of the reals that round to it, below and
above, in units of half its last place. -/
def halfGaps (x : Binary64) : Nat × Nat :=
  if x.mantissa = 1 <<< 52 ∧ minExponent < x.exponent then (1, 2) else (2, 2)

/-- Whether `digits * 10 ^ k` rounds to `x`. -/
def roundsTo (x : Binary64) (digits : Nat) (k : Int) : Bool :=
  let (below, above) := x.halfGaps
  let ends := fun m => scale m 1 (x.exponent - 2)
  let lo := ends (4 * x.mantissa - below)
  let hi := ends (4 * x.mantissa + above)
  let v : Nat × Nat := if 0 ≤ k then (digits * powTen k, 1) else (digits, powTen (-k))
  let closed := x.mantissa % 2 = 0
  (if closed then lo.1 * v.2 ≤ v.1 * lo.2 else lo.1 * v.2 < v.1 * lo.2) &&
    (if closed then v.1 * hi.2 ≤ hi.1 * v.2 else v.1 * hi.2 < hi.1 * v.2)

/-- Of the two multiples of `10 ^ k` around `x` the nearest that rounds to `x`. -/
def onGrid (x : Binary64) (k : Int) : Option Nat :=
  let (n, d) := x.ratio
  let (n, d) := if 0 ≤ k then (n, d * powTen k) else (n * powTen (-k), d)
  let low := n / d
  let r := n % d
  let first := if 2 * r < d ∨ 2 * r = d ∧ low % 2 = 0 then low else low + 1
  let second := if first = low then low + 1 else low
  if x.roundsTo first k then some first
  else if x.roundsTo second k then some second
  else none

/-- Tries grids that get finer by a digit each time. -/
def firstOnGrid (x : Binary64) : Nat → Int → Nat × Int
  | 0, k => ((x.onGrid k).getD 0, k)
  | n + 1, k =>
    match x.onGrid k with
    | some digits => (digits, k)
    | none => firstOnGrid x n (k - 1)

/-- The fewest digits, and the power of ten of the last, that read back as the magnitude. -/
def shortest (x : Binary64) : Nat × Int :=
  if x.mantissa = 0 then (0, 0)
  else
    let (n, d) := x.ratio
    let (digits, k) := x.firstOnGrid 17 (magnitude n d)
    if digits % 10 = 0 then (digits / 10, k + 1) else (digits, k)

/-- The sign in front of a number. -/
def signChars (x : Binary64) : List Char := if x.negative then ['-'] else []

/-- Digits with a point after the first `point` of them, zeros filling in on either side; a
number without a fraction ends in a point and one zero. -/
def pointed (ds : List Char) (point : Int) : List Char :=
  if point ≤ 0 then '0' :: '.' :: List.replicate (-point).toNat '0' ++ ds
  else
    let p := point.toNat
    if ds.length ≤ p then ds ++ List.replicate (p - ds.length) '0' ++ ['.', '0']
    else ds.take p ++ '.' :: ds.drop p

/-- Digits with an exponent. -/
def scientific (ds : List Char) (point : Int) : List Char :=
  let lead := match ds with
    | [] => []
    | [d] => [d]
    | d :: r => d :: '.' :: r
  lead ++ 'e' :: Decimal.intChars (point - 1)

/-- The digits of the shortest decimal and the place of its point. -/
def digitsAndPoint (x : Binary64) : List Char × Int :=
  let (n, k) := x.shortest
  let ds := Decimal.natChars n
  (ds, ds.length + k)

/-- A number as data text: positional from `1e-5` up to `1e16`, with an exponent elsewhere. -/
def dataChars (x : Binary64) : List Char :=
  let (ds, point) := x.digitsAndPoint
  x.signChars ++
    if x.mantissa = 0 ∨ (-5 < point ∧ point ≤ 16) then pointed ds point else scientific ds point

/-- A number as diagnostics show it: always positional. -/
def plainChars (x : Binary64) : List Char :=
  let (ds, point) := x.digitsAndPoint
  x.signChars ++ pointed ds point

end Binary64

end ArcadeUplink
