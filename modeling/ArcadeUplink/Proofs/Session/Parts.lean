import ArcadeUplink.Session.Engine
import Mathlib.Logic.Basic

/-!
# The parts of the program

Every step is made by one part of the program: by the one that goes on after a
reply, or by the first of the others that knows the activity (`act_made`). What is
to hold of every step is proved of each part, and brought together by cases.
-/

namespace ArcadeUplink

/-- Whether an activity is about the timer for heartbeats, or asks for one. -/
def Activity.isTiming : Activity → Bool
  | .armTimer | .setTimer | .enqueueTimer => true
  | .requestBeat _ | .submitBeat _ | .withdrawBeat _ => true
  | _ => false

namespace Engine

/-- The part of the program that makes a step. -/
inductive Made (now : Nat) (self : Option Nat) (e : Engine) (p : Workers) :
    Activity → Option Reply → Result → Prop
  | resumed {call : ServerCall} {c : Resume} {reply : Reply} {r : Result}
      (h : e.resume p c reply = some r) : Made now self e p (.waiting call c) (some reply) r
  | life {a : Activity} {r : Result} (h : e.lifeStep self p a = some r) :
      Made now self e p a none r
  | handshake {a : Activity} {r : Result} (h : e.handshakeStep now p a = some r) :
      Made now self e p a none r
  | pairing {a : Activity} {r : Result} (h : e.pairingStep p a = some r) :
      Made now self e p a none r
  | timer {a : Activity} {r : Result} (h : e.timerStep now p a = some r) :
      Made now self e p a none r
  | beat {a : Activity} {r : Result} (h : e.beatStep p a = some r) :
      Made now self e p a none r
  | record {a : Activity} {r : Result} (h : e.recordStep now p a = some r) :
      Made now self e p a none r
  | upload {a : Activity} {r : Result} (h : e.uploadStep p a = some r) :
      Made now self e p a none r
  | request {a : Activity} {r : Result} (h : e.requestStep p a = some r) :
      Made now self e p a none r
  | report {a : Activity} {r : Result} (h : e.reportStep p a = some r) :
      Made now self e p a none r
  | directory {a : Activity} {r : Result} (h : e.directoryStep p a = some r) :
      Made now self e p a none r
  | link {a : Activity} {r : Result} (h : e.linkStep p a = some r) : Made now self e p a none r

variable {now : Nat} {self : Option Nat} {e : Engine} {p : Workers} {a : Activity}
  {reply : Option Reply} {r : Result}

/-- Whoever waits goes on with a reply, and nobody else is given one. -/
theorem act_cases (h : program.act now self e p a reply = some r) :
    (∃ call c reply', a = .waiting call c ∧ reply = some reply' ∧ e.resume p c reply' = some r) ∨
      reply = none ∧ e.step now self p a = some r := by
  unfold program at h
  dsimp only at h
  split at h
  · exact .inl ⟨_, _, _, rfl, rfl, h⟩
  · cases h
  · exact .inr ⟨rfl, h⟩
  · cases h

/-- **Every step is made by one of the parts.** -/
theorem act_made (h : program.act now self e p a reply = some r) : Made now self e p a reply r := by
  obtain ⟨call, c, reply', rfl, rfl, hresume⟩ | ⟨rfl, hstep⟩ := act_cases h
  · exact .resumed hresume
  unfold step at hstep
  rcases Option.or_eq_some_iff.mp hstep with h | ⟨-, hstep⟩
  · exact .life h
  rcases Option.or_eq_some_iff.mp hstep with h | ⟨-, hstep⟩
  · exact .handshake h
  rcases Option.or_eq_some_iff.mp hstep with h | ⟨-, hstep⟩
  · exact .pairing h
  rcases Option.or_eq_some_iff.mp hstep with h | ⟨-, hstep⟩
  · exact .timer h
  rcases Option.or_eq_some_iff.mp hstep with h | ⟨-, hstep⟩
  · exact .beat h
  rcases Option.or_eq_some_iff.mp hstep with h | ⟨-, hstep⟩
  · exact .record h
  rcases Option.or_eq_some_iff.mp hstep with h | ⟨-, hstep⟩
  · exact .upload h
  rcases Option.or_eq_some_iff.mp hstep with h | ⟨-, hstep⟩
  · exact .request h
  rcases Option.or_eq_some_iff.mp hstep with h | ⟨-, hstep⟩
  · exact .report h
  rcases Option.or_eq_some_iff.mp hstep with h | ⟨-, hstep⟩
  · exact .directory h
  · exact .link hstep

/-- The steps of one part that are opened one by one: the timer and who asks for a heartbeat. -/
theorem timerStep_of_act (h : program.act now self e p a reply = some r)
    (ha : a.isTiming = true) : e.timerStep now p a = some r := by
  cases act_made h with
  | timer h => exact h
  | resumed => cases ha
  | life h | handshake h | pairing h | beat h | record h | upload h | request h | report h
  | directory h | link h =>
    unfold Activity.isTiming at ha
    split at ha
    all_goals first | (cases ha; done) | cases h

theorem beatStep_of_beat (h : program.act now self e p .beat reply = some r) :
    e.beatStep p .beat = some r := by
  cases act_made h with
  | beat h => exact h
  | life h | handshake h | pairing h | timer h | record h | upload h | request h | report h
  | directory h | link h => cases h

end Engine

end ArcadeUplink
