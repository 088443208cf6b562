import ArcadeUplink.Proofs.Machine.Tally
import ArcadeUplink.Proofs.Session.Beats
import ArcadeUplink.Proofs.Session.Gating
import ArcadeUplink.Proofs.Session.Requests
import ArcadeUplink.Proofs.Session.Stops

/-!
# Heartbeats neither multiply nor die out

The timer for heartbeats is one task, which asks for a heartbeat and sets the timer
anew. It is set for the first time when a handshake has succeeded. From then on it
is in one place, whatever happens: it is being set, or pending, or due, or it waits
in the lane of heartbeats, or a worker is at it. It gets lost only to a stop of the
pool, and when the workers are gone it is lost.

There are exceptions (`heartbeats_exceptions`). The flag goes up before the
heartbeat is submitted, and comes down after it was refused. The timer fails if no
deadline can be reckoned for it (`isOutOfReach`). And a stop that a callback asks
for may return while the timer's task waits in its lane.
-/

namespace ArcadeUplink

open Pool (Lane)

namespace Pool.Event

variable {α : Type} {p : Pool α} {v : Event α}

/-- What activities bring about brings nothing in but what they submit. -/
theorem countP_entering (hv : v.isUse = true) {f : α → Bool}
    (hf : ∀ l task, v.submission? = some (l, task) → f task = false) :
    (v.entering p).countP f = 0 := by
  have hnone {accepted : Bool} {l : Lane} {task : α} (htask : v.submission? = some (l, task)) :
      (if accepted = true then [task] else []).countP f = 0 := by
    split
    · rw [List.countP_singleton, hf l task htask]
      rfl
    · rfl
  cases v with
  | postTo l task => exact hnone rfl
  | delay now ms l task => exact hnone rfl
  | mayDelay | beginStart | beginStop | advance => rfl
  | _ => cases hv

/-- Nothing that activities bring about takes tasks away, but a stop. -/
theorem exiting_of_isUse (hv : v.isUse = true) (hne : v ≠ .beginStop) : v.exiting p = [] := by
  cases v with
  | beginStop => exact absurd rfl hne
  | postTo | mayDelay | delay | beginStart | advance => rfl
  | _ => cases hv

end Pool.Event

namespace Activity

/-- Whether an activity keeps the timer for heartbeats alive: it is what the timer leads to, until
it has set the timer anew. -/
def holdsTimer : Activity → Bool
  | .setTimer | .enqueueTimer => true
  | .requestBeat again | .submitBeat again | .withdrawBeat again => again
  | _ => false

/-- Whether an activity sets the timer for heartbeats, or is about to. -/
def isOfTimer : Activity → Bool
  | .armTimer => true
  | a => a.holdsTimer

end Activity

namespace Engine

variable {now : Nat} {self : Option Nat} {e : Engine} {p : Workers} {a b : Activity}
  {reply : Option Reply} {r : Result}

/-! ## A turn -/

theorem Origin.holdsTimer (h : Origin e p a reply b) (ha : a.isOfTimer = false) :
    b.holdsTimer = false := by
  cases h with
  | armed | requestedAgain | submittedAgain | withdrawnAgain | setTimer => cases ha
  | requestBeat | submitBeat => exact ha
  | _ => rfl

theorem shutDown_of_errand (h : errand? now self e a = some .beginStop) :
    a.isShutDown = true := by
  unfold errand? at h
  split at h
  all_goals first | rfl | cases h

theorem startUp_of_errand (h : errand? now self e a = some .beginStart) :
    a.isStartUp = true := by
  unfold errand? at h
  split at h
  all_goals first | rfl | cases h

/-- Once every worker is gone, only a call to start up brings others. -/
theorem Behaves.gone (h : Behaves now self e p a reply r) (ha : a.isStartUp = false)
    (hgone : ∀ x ∈ p.workers, x.duty = .gone) : ∀ x ∈ r.pool.workers, x.duty = .gone := by
  refine h.keeps (motive := fun q => ∀ x ∈ q.workers, x.duty = .gone) hgone fun v q hv hafter => ?_
  refine (Pool.change_of_after? hafter).gone ?_ hgone
  rintro rfl
  exact Bool.eq_false_iff.mp ha (startUp_of_errand hv)

/-- What an activity does to the pool brings in no task of a kind, unless it submits one, and takes
none away unless it stops the pool. -/
theorem Behaves.tally (h : Behaves now self e p a reply r) (hp : p.Governed)
    (f : Activity → Bool) (hf : ∀ v l task, errand? now self e a = some v →
      v.submission? = some (l, task) → f task = false) :
    r.pool.tally f ≤ p.tally f ∧ (a.isShutDown = false → r.pool.tally f = p.tally f) := by
  refine h.keeps
    (motive := fun q => q.tally f ≤ p.tally f ∧ (a.isShutDown = false → q.tally f = p.tally f))
    ⟨Nat.le_refl _, fun _ => rfl⟩ fun v q hv hafter => ?_
  have htally := (Pool.change_of_after? hafter).tally f hp
  rw [Pool.Event.countP_entering (errand_isUse hv) fun l task => hf v l task hv] at htally
  refine ⟨by omega, fun ha => ?_⟩
  rw [Pool.Event.exiting_of_isUse (errand_isUse hv)] at htally
  · exact htally
  · rintro rfl
    exact Bool.eq_false_iff.mp ha (shutDown_of_errand hv)

section Run

variable {s : Setup} {start : Nat} {ts pre post : List Transition} {t : Transition} {m : System}
  {u : Machine.Turn Activity Reply}

end Run

end Engine

end ArcadeUplink
