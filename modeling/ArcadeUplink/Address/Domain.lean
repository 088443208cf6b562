import ArcadeUplink.Address.Ipv4
import ArcadeUplink.Address.Punycode
import ArcadeUplink.Text.Literal

/-!
# Domain names

Domain names in the one form that is sent: ASCII, lower case, a label outside
ASCII encoded. A text is brought into this form by decoding its percent escapes,
mapping each character to its lower-case form and encoding labels where needed;
then it has to pass the test `isNormal`, which looks at nothing but the result.
-/

namespace ArcadeUplink.Address

namespace Domain

/-- Characters that are left out of a name. -/
def ignoredRanges : List (Nat × Nat) :=
  [(0xAD, 0xAD), (0x34F, 0x34F), (0x180B, 0x180D), (0x180F, 0x180F), (0x200B, 0x200B),
   (0x2060, 0x2060), (0x2064, 0x2064), (0xFE00, 0xFE0F), (0xFEFF, 0xFEFF)]

/-- Ranges of capital letters, each with the distance to the small ones. -/
def shiftedRanges : List ((Nat × Nat) × Nat) :=
  [((0xC0, 0xD6), 32), ((0xD8, 0xDE), 32), ((0x388, 0x38A), 37), ((0x391, 0x3A1), 32),
   ((0x3A3, 0x3AB), 32), ((0x400, 0x40F), 80), ((0x410, 0x42F), 32), ((0x531, 0x556), 48)]

/-- Ranges where each capital letter stands in front of its small one, from the first
capital to the last. -/
def alternatingRanges : List (Nat × Nat) :=
  [(0x100, 0x12E), (0x132, 0x136), (0x139, 0x147), (0x14A, 0x176), (0x179, 0x17D),
   (0x1CD, 0x1DB), (0x1DE, 0x1EE), (0x1F8, 0x21E), (0x222, 0x232), (0x3D8, 0x3EE),
   (0x460, 0x480), (0x48A, 0x4BE), (0x4C1, 0x4CD), (0x4D0, 0x52E), (0x1E00, 0x1E94),
   (0x1EA0, 0x1EFE)]

/-- Single characters with a form of their own. -/
def singleForms : List (Char × List Char) :=
  [('ª', ['a']), ('²', ['2']), ('³', ['3']), ('µ', ['μ']), ('¹', ['1']), ('º', ['o']),
   ('¼', ['1', '\u2044', '4']), ('½', ['1', '\u2044', '2']), ('¾', ['3', '\u2044', '4']),
   ('İ', ['i', '\u0307']), ('Ĳ', ['i', 'j']), ('ĳ', ['i', 'j']), ('Ŀ', ['l', '·']),
   ('ŀ', ['l', '·']), ('ŉ', ['ʼ', 'n']), ('Ÿ', ['ÿ']), ('ſ', ['s']), ('Ά', ['ά']), ('Ό', ['ό']),
   ('Ύ', ['ύ']), ('Ώ', ['ώ']), ('Ӏ', ['ӏ']), ('ẞ', ['ß']), ('™', ['t', 'm']), ('\u2126', ['ω']),
   ('\u212A', ['k']), ('\u212B', ['å']), ('ﬀ', ['f', 'f']), ('ﬁ', ['f', 'i']), ('ﬂ', ['f', 'l']),
   ('ﬃ', ['f', 'f', 'i']), ('ﬄ', ['f', 'f', 'l']), ('ﬅ', ['s', 't']), ('ﬆ', ['s', 't']),
   ('。', ['.']), ('｡', ['.'])]

/-- Ranges of variants of the digits and of ASCII, each with the first character meant. -/
def variantRanges : List ((Nat × Nat) × Nat) :=
  [((0x2070, 0x2070), 0x30), ((0x2074, 0x2079), 0x34), ((0x2080, 0x2089), 0x30),
   ((0x2460, 0x2468), 0x31), ((0x24B6, 0x24CF), 0x61), ((0x24D0, 0x24E9), 0x61),
   ((0xFF01, 0xFF5E), 0x21)]

/-- Characters that no name may hold: those that are never shown, blanks that count as a
space, and the replacement character. -/
def isRefused (n : Nat) : Bool :=
  Text.inRanges Text.unshownRanges n || n = 0xA8 || n = 0xAF || n = 0xB4 || n = 0xB8 || n = 0xFFFD

/-- A character of a name in the form that counts, possibly none or several; nothing if no
name may hold it. The tables are a part of those of UTS 46: a character that is in none of them
stands for itself. -/
def fold? (c : Char) : Option (List Char) :=
  let n := c.toNat
  if n < 128 then some [c.toLower]
  else if Text.inRanges ignoredRanges n then some []
  else
    match singleForms.lookup c with
    | some cs => some cs
    | none =>
      match shiftedRanges.find? fun r => r.1.1 ≤ n ∧ n ≤ r.1.2 with
      | some r => some [Char.ofNat (n + r.2)]
      | none =>
        match alternatingRanges.find? fun r => r.1 ≤ n ∧ n ≤ r.2 with
        | some r => some [if (n - r.1) % 2 = 0 then Char.ofNat (n + 1) else c]
        | none =>
          match variantRanges.find? fun r => r.1.1 ≤ n ∧ n ≤ r.1.2 with
          | some r => some [(Char.ofNat (n - r.1.1 + r.2)).toLower]
          | none => if isRefused n then none else some [c]

/-- A letter with the mark that follows it as one character. -/
def composed? (base mark : Char) : Option Char :=
  [((('a' : Char), '\u0300'), 'à'), (('a', '\u0301'), 'á'), (('a', '\u0302'), 'â'),
   (('a', '\u0303'), 'ã'), (('a', '\u0308'), 'ä'), (('a', '\u030A'), 'å'), (('c', '\u0327'), 'ç'),
   (('e', '\u0300'), 'è'), (('e', '\u0301'), 'é'), (('e', '\u0302'), 'ê'), (('e', '\u0308'), 'ë'),
   (('i', '\u0300'), 'ì'), (('i', '\u0301'), 'í'), (('i', '\u0302'), 'î'), (('i', '\u0308'), 'ï'),
   (('n', '\u0303'), 'ñ'), (('o', '\u0300'), 'ò'), (('o', '\u0301'), 'ó'), (('o', '\u0302'), 'ô'),
   (('o', '\u0303'), 'õ'), (('o', '\u0308'), 'ö'), (('u', '\u0300'), 'ù'), (('u', '\u0301'), 'ú'),
   (('u', '\u0302'), 'û'), (('u', '\u0308'), 'ü'), (('y', '\u0301'), 'ý'),
   (('y', '\u0308'), 'ÿ')].lookup (base, mark)

/-- A text with marks joined to the letters before them. -/
def compose : List Char → List Char
  | [] => []
  | c :: cs =>
    match compose cs with
    | [] => [c]
    | d :: ds =>
      match composed? c d with
      | some e => e :: ds
      | none => c :: d :: ds

def encodedMark : List Char := ['x', 'n', '-', '-']

def asciiLabel (label : List Char) : List Char :=
  if label.any Punycode.isWide then encodedMark ++ Punycode.encode label else label

def joinLabels : List (List Char) → List Char
  | [] => []
  | [l] => l
  | l :: ls => l ++ '.' :: joinLabels ls

/-- A name in the form that counts. -/
def normalize? (cs : List Char) : Option (List Char) :=
  (cs.mapM fold?).map fun parts =>
    joinLabels ((labels (compose parts.flatten)).map asciiLabel)

/-- ASCII characters that no name may hold. -/
def forbidden : List Char :=
  [' ', '#', '%', '/', ':', '<', '>', '?', '@', '[', '\\', ']', '^', '|', '\x7f']

/-- Whether a name in its final form may hold a character. -/
def isAllowed (c : Char) : Bool :=
  0x20 < c.toNat && c.toNat < 0x80 && !forbidden.contains c && !c.isUpper

/-- Whether what follows the mark of an encoded label is what it has to be: the code of a text
that is not all ASCII, is in the form that counts and does not look encoded itself. -/
def isEncoding (code : List Char) : Bool :=
  match Punycode.decode? code with
  | some cs =>
    cs.any Punycode.isWide && cs.all (fun c => fold? c = some [c]) && compose cs = cs &&
      !encodedMark.isPrefixOf cs && !(cs.head?.any fun c => Text.inRanges Text.attachingRanges c.toNat) &&
      Punycode.encode cs = code
  | none => false

/-- Whether a label may stand in a name in its final form. -/
def isLabel (label : List Char) : Bool :=
  !encodedMark.isPrefixOf label || isEncoding (label.drop 4)

/-- Whether a text is a name in its final form: not empty, of allowed characters and labels,
and nothing that has to be an IPv4 address. -/
def isNormal (cs : List Char) : Bool :=
  !cs.isEmpty && cs.all isAllowed && (labels cs).all isLabel && !Ipv4.isDue cs

end Domain

/-- A domain name in its final form. -/
structure Domain where
  chars : List Char
  isNormal_chars : Domain.isNormal chars = true
deriving DecidableEq, Repr

end ArcadeUplink.Address
