import ArcadeUplink.Digest.Sha256
import ArcadeUplink.Text.Hex

/-!
# Signatures

A machine proves who it is by signing a digest of its UUID and the time. The
signing itself is the host's; what is here derives the digest, asks the signer
at most once and writes the signature down.
-/

namespace ArcadeUplink

namespace Signature

/-- The most bytes of a signature. -/
def maxLength : Nat := 72

/-- The length of the key that the signer gets. -/
def keyLength : Nat := 32

/-- What a signer is given: the digest to be signed and the key. -/
structure Request where
  digest : List UInt8
  key : List UInt8
deriving DecidableEq, Repr

/-- A signer; it may refuse. -/
abbrev Signer := Request → Option (List UInt8)

/-- The digest of a UUID, given by its digits, and a time: SHA-256 of the bytes of the one
followed by those of the other. There is none if the digits are no bytes. -/
def digest? (uuidDigits time : String) : Option (List UInt8) :=
  (Text.Hex.decode uuidDigits).map fun bytes => Digest.sha256 (bytes ++ time.toUTF8.toList)

/-- A signature as text; none if it is empty or too long. -/
def written? (signature : List UInt8) : Option String :=
  if signature = [] ∨ maxLength < signature.length then none
  else some (Text.Hex.encode signature)

/-- What the signer is asked to sign, if there is a digest. -/
def request? (key : List UInt8) (uuidDigits time : String) : Option Request :=
  (digest? uuidDigits time).map fun digest => ⟨digest, key⟩

/-- The signature as text, by a signer with effects: he is asked if there is a digest, and what he
returns is written down if it has a length that can be sent. -/
def signWith {m : Type → Type} [Monad m] (ask : Request → m (Option (List UInt8)))
    (key : List UInt8) (uuidDigits time : String) : m (Option String) :=
  match request? key uuidDigits time with
  | none => pure none
  | some r => do return (← ask r).bind written?

/-- The signature as text, by a signer without effects. -/
def sign (signer : Signer) (key : List UInt8) (uuidDigits time : String) : Option String :=
  (signWith (m := Id) (fun r => pure (signer r)) key uuidDigits time).run

/-- What a signer was asked and what he returned. -/
structure Exchange where
  request : Request
  reply : Option (List UInt8)
deriving DecidableEq, Repr

/-- A signer with a state of his own of whom it is noted what he was asked and what he returned,
the latest last. -/
def watched {σ : Type} (ask : Request → StateM σ (Option (List UInt8))) (r : Request) :
    StateM (σ × List Exchange) (Option (List UInt8)) := fun (s, log) =>
  let (reply, s') := (ask r).run s
  (reply, s', log ++ [⟨r, reply⟩])

/-- What signing comes to: the signature as text, if there is one, and the exchanges with the signer
that led to it. -/
def attended {σ : Type} (ask : Request → StateM σ (Option (List UInt8))) (s : σ)
    (key : List UInt8) (uuidDigits time : String) : Option String × List Exchange :=
  let (text, _, log) := (signWith (watched ask) key uuidDigits time).run (s, [])
  (text, log)

end Signature

end ArcadeUplink
