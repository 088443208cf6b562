import ArcadeUplink.Pool.Lane

/-!
# Delayed tasks

Tasks that are to be submitted to a lane at a later time, in the order of their
deadlines; tasks of one deadline in the order in which they were scheduled. A
queue that is closed takes no task.
-/

namespace ArcadeUplink.Pool

structure Delayed (α : Type) where
  deadline : Nat
  /-- How many tasks were scheduled before it. -/
  number : Nat
  lane : Lane
  task : α
deriving DecidableEq, Repr

/-- Whether one delayed task is due before another. -/
def Delayed.before {α : Type} (x y : Delayed α) : Bool :=
  x.deadline < y.deadline || (x.deadline = y.deadline && x.number < y.number)

/-- The delayed tasks, first due first. -/
structure TimerQueue (α : Type) where
  pending : List (Delayed α) := []
  scheduled : Nat := 0
  closed : Bool := false
deriving DecidableEq, Repr

namespace TimerQueue

variable {α : Type}

/-- A list of delayed tasks with one more at its place. -/
def place (x : Delayed α) : List (Delayed α) → List (Delayed α)
  | [] => [x]
  | y :: ys => if x.before y then x :: y :: ys else y :: place x ys

/-- The latest deadline that can be reckoned, in milliseconds: its seconds are counted in 64 bits, one
of which is for the sign. -/
def lastDeadline : Nat := Nat.pow 2 63 * 1000 - 1

/-- Schedules a task for a time after `now`; a closed queue refuses. Deadlines have no limit here.
Whoever schedules a task for later than `lastDeadline` fails in an unforeseen way if the queue is open,
and nothing is scheduled; a number is used up then, which nothing shows, since numbers only order what
is scheduled. Deadlines are reckoned in whole milliseconds. -/
def schedule? (q : TimerQueue α) (now delay : Nat) (lane : Lane) (task : α) :
    Option (TimerQueue α) :=
  if q.closed then none
  else
    some { q with
      pending := place ⟨now + delay, q.scheduled, lane, task⟩ q.pending
      scheduled := q.scheduled + 1 }

/-- Closes the queue and cancels what is pending. -/
def close (q : TimerQueue α) : TimerQueue α := { q with pending := [], closed := true }

def reopen (q : TimerQueue α) : TimerQueue α := { q with closed := false }

/-- Takes out the first task, if the queue is open and the task is due. -/
def popDue? (q : TimerQueue α) (now : Nat) : Option (Delayed α × TimerQueue α) :=
  match q.pending with
  | x :: rest =>
    if !q.closed && x.deadline ≤ now then some (x, { q with pending := rest }) else none
  | [] => none

end TimerQueue

/-- The thread that waits for deadlines. -/
inductive TimerThread (α : Type) where
  | absent
  /-- Waits for the first deadline. -/
  | waiting
  /-- Has taken a task out and is about to submit it. -/
  | handing (lane : Lane) (task : α)
deriving DecidableEq, Repr

end ArcadeUplink.Pool
