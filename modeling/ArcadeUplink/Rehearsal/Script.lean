import ArcadeUplink.Rehearsal.Stage
import ArcadeUplink.Session.Engine

/-!
# Scripted replies

Who stands in for the signer and the server in a rehearsal. For each kind of
call there is a list of outcomes, which are used up from the front until one is
left, which stays. A kind of call without outcomes gets its usual reply. A call
of a kind may be held back: the caller waits until that kind is released, and
only then is an outcome taken.
-/

namespace ArcadeUplink.Rehearsal

open ServerCall (Method)

/-- How a call is to end. -/
inductive Outcome where
  /-- With the usual reply. -/
  | usual
  /-- With the reply that a value describes. -/
  | value (v : Json)
  | refuse (error : CallError)
  /-- In an unforeseen failure. -/
  | panic

namespace Outcome

/-- A value as it is read by the reader of a reply. -/
def received (d : Json.Decoder α) (reply : α → Reply) (v : Json) : Reply :=
  match d v with
  | .ok a => reply a
  | .error e => .refused (.invalidResponse e.message)

/-- The text that a value is, or the usual one. -/
def textOr (default : String) : Json → String
  | .text s => s
  | _ => default

/-- The bytes that a value has the digits of, or the usual ones. -/
def bytesOr (default : List UInt8) : Json → List UInt8
  | .text s => (Text.Hex.decode s).getD default
  | _ => default

def signature : List UInt8 := [0xde, 0xad]

def usualReply : ServerCall → Reply
  | .sign _ => .signature (some signature)
  | .authenticate .. => .authenticated ⟨"token-1"⟩
  | .pairingStatus _ => .pairing { paired := true, venue := some 77, databaseId := "opdb-xyz" }
  | .heartbeat _ => .beaten {}
  | .installed .. | .gameData .. | .uploadHistory .. => .accepted
  | .pairCode _ => .text "ABC123"
  | .topScores .. => .text "\x7b\"scores\":[]\x7d"
  | .unpair _ => .text "\x7b\x7d"
  | .download url => .bytes url.toUTF8.toList

/-- The reply to a call that a value describes. -/
def valueReply (call : ServerCall) (v : Json) : Reply :=
  match usualReply call with
  | .signature bytes => .signature (some (bytesOr (bytes.getD []) v))
  | .authenticated _ => received AuthReply.decode .authenticated v
  | .pairing _ => received Pairing.decode .pairing v
  | .beaten _ => received HeartbeatReply.decode .beaten v
  | .text body => .text (textOr body v)
  | .bytes content => .bytes (bytesOr content v)
  | reply => reply

/-- The reply to a call. A signer has no words for its refusal. -/
def reply (call : ServerCall) : Outcome → Reply
  | .usual => usualReply call
  | .value v => valueReply call v
  | .refuse error =>
    match call with
    | .sign _ => .signature none
    | _ => .refused error
  | .panic => .panic

end Outcome

/-- The outcomes that are left for each kind of call. -/
abbrev Script := List (Method × List Outcome)

namespace Script

/-- The outcomes that are left for a kind of call. -/
def left (s : Script) (m : Method) : List Outcome := (s.lookup m).getD []

/-- Other outcomes for a kind of call. -/
def set (s : Script) (m : Method) (outcomes : List Outcome) : Script :=
  (m, outcomes) :: s.filter fun e => e.1 ≠ m

/-- Takes the next outcome of a kind of call; the last one stays. -/
def take (s : Script) (m : Method) : Outcome × Script :=
  match s.left m with
  | [] => (.usual, s)
  | [o] => (o, s)
  | o :: os => (o, s.set m os)

end Script

/-- Who replies to the engine. -/
structure Desk where
  script : Script := []
  /-- The kinds of calls of which the next one is to be held back. -/
  armed : List Method := []
  /-- The workers who are held back, with the kind of their call. -/
  held : List (Nat × Method) := []

namespace Desk

/-- The next call of a kind is to be held back. -/
def hold (d : Desk) (m : Method) : Desk :=
  if m ∈ d.armed then d else { d with armed := m :: d.armed }

/-- Whether somebody is held back at a kind of call. -/
def isHolding (d : Desk) (m : Method) : Bool := d.held.any fun h => h.2 = m

/-- No call of a kind is held back any more. -/
def release (d : Desk) (m : Method) : Desk :=
  { d with armed := d.armed.filter (· ≠ m), held := d.held.filter fun h => h.2 ≠ m }

/-- Holds a worker back at a kind of call. -/
def detain (d : Desk) (worker : Nat) (m : Method) : Desk :=
  { d with armed := d.armed.filter (· ≠ m), held := (worker, m) :: d.held }

/-- Replies to a worker who waits at a call, unless he is held back. -/
def answer (d : Desk) (worker : Nat) : Activity → Option Reply × Desk
  | .waiting call _ =>
    let m := call.method
    if d.held.any fun h => h.1 = worker then (none, d)
    else if m ∈ d.armed then (none, d.detain worker m)
    else
      let (outcome, script) := d.script.take m
      (some (outcome.reply call), { d with script })
  | _ => (none, d)

end Desk

/-- The engine with the desk that replies to it. -/
def enginePlay : Play Desk Engine Activity Reply EngineEvent where
  program := Engine.program
  answer := Desk.answer

end ArcadeUplink.Rehearsal
