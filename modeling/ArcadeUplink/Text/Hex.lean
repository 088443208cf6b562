/-!
# Hexadecimal text

Bytes as hexadecimal digits, two to a byte. Writing uses the lower-case
letters; reading takes either case, so a byte string has one written form and
many that are read. The main statement is `decode_encode`.
-/

namespace ArcadeUplink.Text.Hex

/-- The lower-case digit of a value below sixteen. -/
def digit (n : Nat) : Char :=
  if n < 10 then Char.ofNat (48 + n) else Char.ofNat (87 + n)

/-- The value of a hexadecimal digit of either case. -/
def value? (c : Char) : Option Nat :=
  if '0' ≤ c ∧ c ≤ '9' then some (c.toNat - 48)
  else if 'a' ≤ c ∧ c ≤ 'f' then some (c.toNat - 87)
  else if 'A' ≤ c ∧ c ≤ 'F' then some (c.toNat - 55)
  else none

/-- Whether a character is a hexadecimal digit of either case. -/
def isDigit (c : Char) : Bool := (value? c).isSome

/-- The two digits of a byte, the higher first. -/
def byteDigits (b : UInt8) : List Char := [digit (b.toNat / 16), digit (b.toNat % 16)]

def encodeChars (bytes : List UInt8) : List Char := bytes.flatMap byteDigits

/-- Reads two digits to a byte; refuses an odd count and anything that is no digit. -/
def decodeChars : List Char → Option (List UInt8)
  | [] => some []
  | [_] => none
  | hi :: lo :: rest =>
    match value? hi, value? lo with
    | some x, some y => (decodeChars rest).map (UInt8.ofNat (16 * x + y) :: ·)
    | _, _ => none

/-- A byte string as lower-case hexadecimal text. -/
def encode (bytes : List UInt8) : String := .ofList (encodeChars bytes)

/-- The byte string that a hexadecimal text of either case stands for. -/
def decode (text : String) : Option (List UInt8) := decodeChars text.toList

theorem value?_digit : ∀ n : Fin 16, value? (digit n) = some n.val := by decide

theorem value?_digit_of_lt {n : Nat} (h : n < 16) : value? (digit n) = some n :=
  value?_digit ⟨n, h⟩

theorem decodeChars_encodeChars (bytes : List UInt8) :
    decodeChars (encodeChars bytes) = some bytes := by
  induction bytes with
  | nil => rfl
  | cons b r ih =>
    have hb : b.toNat < 256 := b.toNat_lt
    show decodeChars (digit (b.toNat / 16) :: digit (b.toNat % 16) :: encodeChars r) = _
    simp only [decodeChars, value?_digit_of_lt (n := b.toNat / 16) (by omega),
      value?_digit_of_lt (n := b.toNat % 16) (by omega), ih, Option.map_some]
    have : 16 * (b.toNat / 16) + b.toNat % 16 = b.toNat := Nat.div_add_mod ..
    simp [this]

/-- Reading a written byte string gives it back. -/
theorem decode_encode (bytes : List UInt8) : decode (encode bytes) = some bytes := by
  simp [decode, encode, decodeChars_encodeChars]

/-- A written byte string has two digits to a byte. -/
theorem length_encodeChars (bytes : List UInt8) :
    (encodeChars bytes).length = 2 * bytes.length := by
  induction bytes with
  | nil => rfl
  | cons b r ih => simp [encodeChars, byteDigits] at ih ⊢; omega

end ArcadeUplink.Text.Hex
