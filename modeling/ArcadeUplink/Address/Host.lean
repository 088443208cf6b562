import ArcadeUplink.Address.Domain
import ArcadeUplink.Address.Ipv6

/-!
# Hosts

Who is to be reached: an IPv4 address, an IPv6 address between brackets, or a
domain name.
-/

namespace ArcadeUplink.Address

inductive Host where
  | ipv4 (address : Ipv4)
  | ipv6 (address : Ipv6)
  | domain (name : Domain)
deriving DecidableEq, Repr

namespace Host

def chars : Host → List Char
  | .ipv4 a => a.chars
  | .ipv6 a => '[' :: a.chars ++ [']']
  | .domain d => d.chars

/-- The bytes of a text in which a percent sign and two hexadecimal digits stand for one. -/
def unescape : List Char → List UInt8
  | [] => []
  | '%' :: x :: y :: cs =>
    match Text.Hex.value? x, Text.Hex.value? y with
    | some hi, some lo => .ofNat (16 * hi + lo) :: unescape cs
    | _, _ => 0x25 :: unescape (x :: y :: cs)
  | c :: cs => (String.singleton c).toUTF8.toList ++ unescape cs

/-- A text with its percent escapes decoded; none if that is no text. -/
def decodeEscapes? (cs : List Char) : Option (List Char) :=
  if cs.contains '%' then (String.fromUTF8? ⟨(unescape cs).toArray⟩).map (·.toList) else some cs

/-- The host that a domain name in its final form stands for. -/
def ofNormal? (cs : List Char) : Option Host :=
  if Ipv4.isDue cs then
    if cs.all Domain.isAllowed then (Ipv4.parse? cs).map .ipv4 else none
  else if h : Domain.isNormal cs = true then some (.domain ⟨cs, h⟩)
  else none

/-- Reads a host: an IPv6 address between brackets, or else a name, which is an IPv4 address
if its last label is a number. -/
def parse? (cs : List Char) : Option Host :=
  match cs with
  | '[' :: rest =>
    if rest.getLast? = some ']' then (Ipv6.parse? rest.dropLast).map .ipv6 else none
  | cs => ((decodeEscapes? cs).bind Domain.normalize?).bind ofNormal?

end Host

end ArcadeUplink.Address
