import ArcadeUplink.Digest.Sha256

/-!
# SHA-1

The older hash function of FIPS 180-4, of which name-based UUIDs are made. It
shares the padding and the blocks of SHA-256.
-/

namespace ArcadeUplink.Digest

namespace Sha1

structure State where
  a : UInt32
  b : UInt32
  c : UInt32
  d : UInt32
  e : UInt32

def State.start : State := ⟨0x67452301, 0xefcdab89, 0x98badcfe, 0x10325476, 0xc3d2e1f0⟩

/-- The schedule grown by `n` words; it is held latest word first. -/
def grow : Nat → List UInt32 → List UInt32
  | 0, ws => ws
  | n + 1, ws =>
    grow n (rotl (ws.getD 2 0 ^^^ ws.getD 7 0 ^^^ ws.getD 13 0 ^^^ ws.getD 15 0) 1 :: ws)

/-- The 80 scheduled words of a block. -/
def schedule (block : List UInt32) : List UInt32 := (grow 64 block.reverse).reverse

/-- The mixing function and the constant of round `i`. -/
def phase (i : Nat) (s : State) : UInt32 × UInt32 :=
  if i < 20 then (s.b &&& s.c ||| ~~~s.b &&& s.d, 0x5a827999)
  else if i < 40 then (s.b ^^^ s.c ^^^ s.d, 0x6ed9eba1)
  else if i < 60 then (s.b &&& s.c ||| s.b &&& s.d ||| s.c &&& s.d, 0x8f1bbcdc)
  else (s.b ^^^ s.c ^^^ s.d, 0xca62c1d6)

/-- One round with its scheduled word and its number. -/
def round (s : State) (wi : UInt32 × Nat) : State :=
  let (f, k) := phase wi.2 s
  ⟨rotl s.a 5 + f + s.e + k + wi.1, s.a, rotl s.b 30, s.c, s.d⟩

def absorb (s : State) (block : List UInt32) : State :=
  let t := (schedule block).zipIdx.foldl round s
  ⟨s.a + t.a, s.b + t.b, s.c + t.c, s.d + t.d, s.e + t.e⟩

end Sha1

/-- The SHA-1 digest of a message, 20 bytes. -/
def sha1 (message : List UInt8) : List UInt8 :=
  let words := wordsOf (padded message)
  let s := (blocks words.length words).foldl Sha1.absorb .start
  [s.a, s.b, s.c, s.d, s.e].flatMap wordBytes

theorem length_sha1 (message : List UInt8) : (sha1 message).length = 20 := by
  simp [sha1, wordBytes]

end ArcadeUplink.Digest
