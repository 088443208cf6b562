/-!
# Lanes

A lane is an order of tasks: the tasks of one lane run one after another, in the
order in which they were submitted. A lane that holds a task is owned: somebody
is bound to run its tasks until it is empty.
-/

namespace ArcadeUplink.Pool

inductive Lane where
  /-- Handshakes, reports, requests and downloads. -/
  | main
  /-- Snapshots and histories. -/
  | gameData
  /-- Heartbeats. -/
  | heartbeat
deriving DecidableEq, Repr

namespace Lane

def all : List Lane := [main, gameData, heartbeat]

def name : Lane → String
  | main => "default"
  | gameData => "game-data"
  | heartbeat => "heartbeat"

/-- The lane that goes by a name. -/
def ofName? (s : String) : Option Lane := all.find? fun l => l.name = s

end Lane

structure PerLane (β : Type) where
  main : β
  gameData : β
  heartbeat : β
deriving DecidableEq, Repr

namespace PerLane

variable {β : Type}

def get (p : PerLane β) : Lane → β
  | .main => p.main
  | .gameData => p.gameData
  | .heartbeat => p.heartbeat

def set (p : PerLane β) (l : Lane) (b : β) : PerLane β :=
  match l with
  | .main => { p with main := b }
  | .gameData => { p with gameData := b }
  | .heartbeat => { p with heartbeat := b }

@[simp] theorem get_set_self (p : PerLane β) (l : Lane) (b : β) : (p.set l b).get l = b := by
  cases l <;> rfl

theorem get_set_of_ne (p : PerLane β) {l m : Lane} (b : β) (h : m ≠ l) :
    (p.set l b).get m = p.get m := by
  cases l <;> cases m <;> first | rfl | exact absurd rfl h

end PerLane

/-- The tasks that wait in a lane, and whether somebody is bound to run them. -/
structure LaneQueue (α : Type) where
  waiting : List α := []
  owned : Bool := false
deriving DecidableEq, Repr

namespace LaneQueue

variable {α : Type}

/-- Adds a task; the lane is owned from now on. -/
def push (q : LaneQueue α) (task : α) : LaneQueue α := ⟨q.waiting ++ [task], true⟩

/-- Takes the next task out. A lane that is found empty is nobody's any more. -/
def pop (q : LaneQueue α) : Option α × LaneQueue α :=
  match q.waiting with
  | task :: rest => (some task, { q with waiting := rest })
  | [] => (none, { q with owned := false })

end LaneQueue

end ArcadeUplink.Pool
