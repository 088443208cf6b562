import ArcadeUplink.Device.Info
import ArcadeUplink.Log.Entry
import ArcadeUplink.Pool.Timer

/-!
# The pool of workers

Workers take jobs from a queue. A job is a single task, or the order to drain a
lane: to run its tasks one after another until there is none. Work is accepted
through the door, which belongs to the workers of one start, a crew; a crew whose
door is closed finishes what it accepted and leaves.

A task is of any type: what remains to be done. A running task is replaced by
its rest until nothing remains.
-/

namespace ArcadeUplink.Pool

/-- What a worker takes from the queue. -/
inductive Job (α : Type) where
  | single (task : α)
  | drain (lane : Lane)
deriving DecidableEq, Repr

/-- What a worker is doing. -/
inductive Duty (α : Type) where
  | idle
  /-- Is about to look for the next task of a lane. -/
  | draining (lane : Lane)
  /-- Is at a task, of a lane or single. -/
  | running (lane : Option Lane) (task : α)
  | gone
deriving DecidableEq, Repr

structure Worker (α : Type) where
  crew : Nat
  duty : Duty α
deriving DecidableEq, Repr

/-- Where a start or a stop has got to. At most one is going on at a time. -/
inductive Control where
  | free
  /-- The workers are there, the timers are not yet. -/
  | starting
  /-- The timers are closed, with so many tasks cancelled; their thread is to leave. -/
  | silencing (cancelled : Nat)
  /-- The door is closed; the crew is to leave, but for the worker who asked for the stop. -/
  | leaving (crew cancelled : Nat)
deriving DecidableEq, Repr

end Pool

structure Pool (α : Type) where
  /-- How many workers a start brings. -/
  size : Nat
  lanes : Pool.PerLane (Pool.LaneQueue α) := ⟨{}, {}, {}⟩
  /-- The accepted jobs, each with the crew that accepted it. -/
  jobs : List (Nat × Pool.Job α) := []
  workers : List (Pool.Worker α) := []
  /-- The crew that accepts work. -/
  door : Option Nat := none
  /-- How many starts there were. -/
  crews : Nat := 0
  timers : Pool.TimerQueue α := {}
  thread : Pool.TimerThread α := .absent
  control : Pool.Control := .free
deriving DecidableEq, Repr

namespace Pool

variable {α : Type}

/-- A stopped pool, for at least one worker. -/
def ofSize (n : Nat) : Pool α := { size := max n 1 }

def isRunning (p : Pool α) : Bool := p.door.isSome

/-- How many tasks wait in a lane. -/
def queued (p : Pool α) (l : Lane) : Nat := (p.lanes.get l).waiting.length

def pendingDelayed (p : Pool α) : Nat := p.timers.pending.length

/-- The warning that a task was refused. -/
def refusal : Log.Entry := .warn "Scheduler is stopped, rejecting task"

/-- The warning that a task of a lane was refused. -/
def laneRefusal (l : Lane) : Log.Entry :=
  .warn ("Scheduler is stopped, rejecting task for lane " ++ l.name)

/-- The warning that a delayed task was refused as the pool is stopped. -/
def delayRefusal (l : Lane) : Log.Entry :=
  .warn ("Scheduler is stopped, rejecting delayed task for lane " ++ l.name)

/-- The note that a delayed task was refused as the pool is being stopped. -/
def delayDropped (l : Lane) : Log.Entry :=
  .debug ("Scheduler is stopping, dropping delayed task for lane " ++ l.name)

/-- The note that a pool was started. -/
def startNote (workers : Nat) : Log.Entry :=
  .debug ("Scheduler started with " ++ Decimal.natText workers ++ " worker thread(s)")

/-- The note that a pool was stopped. -/
def stopNote (cancelled : Nat) : Log.Entry :=
  .debug ("Scheduler stopped, " ++ Decimal.natText cancelled ++ " delayed task(s) cancelled")

/-- The note that a task failed in an unforeseen way. -/
def panicNote : Log.Entry := .error "Scheduled task panicked"

/-- Submits a single task. Tells whether it was accepted. -/
def post (p : Pool α) (task : α) : Bool × Pool α × List Log.Entry :=
  match p.door with
  | some crew => (true, { p with jobs := p.jobs ++ [(crew, .single task)] }, [])
  | none => (false, p, [refusal])

/-- Submits a task to a lane. Only a lane that was nobody's needs somebody to drain it. Tells
whether the task was accepted. -/
def postTo (p : Pool α) (l : Lane) (task : α) : Bool × Pool α × List Log.Entry :=
  match p.door with
  | some crew =>
    let q := p.lanes.get l
    let lanes := p.lanes.set l (q.push task)
    if q.owned then (true, { p with lanes }, [])
    else (true, { p with lanes, jobs := p.jobs ++ [(crew, .drain l)] }, [])
  | none => (false, p, [laneRefusal l])

/-- Whether a delayed task may be scheduled: the first of the two questions. -/
def mayDelay (p : Pool α) (l : Lane) : Bool × List Log.Entry :=
  if p.isRunning then (true, []) else (false, [delayRefusal l])

/-- Schedules a delayed task, if the timers are open: the second question. -/
def delay (p : Pool α) (now ms : Nat) (l : Lane) (task : α) : Bool × Pool α × List Log.Entry :=
  match p.timers.schedule? now ms l task with
  | some timers => (true, { p with timers }, [])
  | none => (false, p, [delayDropped l])

/-- The pool with another duty for one worker. -/
def assign (p : Pool α) (w : Nat) (duty : Duty α) : Pool α :=
  { p with workers := p.workers.modify w fun x => { x with duty } }

/-- What a worker is doing. -/
def duty? (p : Pool α) (w : Nat) : Option (Duty α) := p.workers[w]?.map (·.duty)

/-- The first job of a crew, and the other jobs. -/
def popJob (crew : Nat) : List (Nat × Job α) → Option (Job α × List (Nat × Job α))
  | [] => none
  | j :: js =>
    if j.1 = crew then some (j.2, js) else (popJob crew js).map fun r => (r.1, j :: r.2)

/-- The duty that comes with a job. -/
def Job.duty : Job α → Duty α
  | .single task => .running none task
  | .drain l => .draining l

/-- An idle worker takes the first job of his crew. -/
def take (p : Pool α) (w : Nat) : Option (Pool α) :=
  match p.workers[w]? with
  | some ⟨crew, .idle⟩ =>
    (popJob crew p.jobs).map fun r => { p with jobs := r.2 }.assign w r.1.duty
  | _ => none

/-- A worker who drains a lane takes its next task; if there is none, he is done with it. -/
def next (p : Pool α) (w : Nat) : Option (Pool α) :=
  match p.duty? w with
  | some (.draining l) =>
    match (p.lanes.get l).pop with
    | (some task, q) => some ({ p with lanes := p.lanes.set l q }.assign w (.running (some l) task))
    | (none, q) => some ({ p with lanes := p.lanes.set l q }.assign w .idle)
  | _ => none

/-- The duty after a task. -/
def afterTask : Option Lane → Duty α
  | some l => .draining l
  | none => .idle

/-- A worker has done a part of his task; nothing remains, or the rest. -/
def progress (p : Pool α) (w : Nat) (rest : Option α) : Option (Pool α) :=
  match p.duty? w with
  | some (.running l _) =>
    some (p.assign w (match rest with | some task => .running l task | none => afterTask l))
  | _ => none

/-- An idle worker leaves, as the door of his crew is closed and no job is left for it. -/
def retire (p : Pool α) (w : Nat) : Option (Pool α) :=
  match p.workers[w]? with
  | some ⟨crew, .idle⟩ =>
    if p.door = some crew ∨ (popJob crew p.jobs).isSome then none else some (p.assign w .gone)
  | _ => none

/-- The timer thread takes out a task that is due. -/
def fire (p : Pool α) (now : Nat) : Option (Pool α) :=
  match p.thread with
  | .waiting =>
    (p.timers.popDue? now).map fun r => { p with timers := r.2, thread := .handing r.1.lane r.1.task }
  | _ => none

/-- The timer thread submits the task that it took out. -/
def deliver (p : Pool α) : Option (Pool α × List Log.Entry) :=
  match p.thread with
  | .handing l task =>
    let r := p.postTo l task
    some ({ r.2.1 with thread := .waiting }, r.2.2)
  | _ => none

/-- The timer thread leaves, as the timers are closed. -/
def dismiss (p : Pool α) : Option (Pool α) :=
  match p.thread with
  | .waiting => if p.timers.closed then some { p with thread := .absent } else none
  | _ => none

/-- A start begins: if the pool is stopped, a new crew comes and its door opens. -/
def beginStart (p : Pool α) : Option (Pool α) :=
  match p.control, p.door with
  | .free, none =>
    some { p with
      workers := p.workers ++ List.replicate p.size ⟨p.crews, .idle⟩
      door := some p.crews
      crews := p.crews + 1
      control := .starting }
  | .free, some _ => some p
  | _, _ => none

/-- A stop begins: the timers are closed and every delayed task is cancelled. -/
def beginStop (p : Pool α) : Option (Pool α) :=
  match p.control with
  | .free =>
    some { p with timers := p.timers.close, control := .silencing p.timers.pending.length }
  | _ => none

/-- Whether every worker of a crew is gone, apart from one who does not count. -/
def hasLeft (p : Pool α) (crew : Nat) (except : Option Nat) : Bool :=
  p.workers.zipIdx.all fun x =>
    x.1.crew ≠ crew || some x.2 = except || (match x.1.duty with | .gone => true | _ => false)

/-- The start or stop that is going on takes its next step, if it can. `self` is the worker who
asked for it, if it was one. -/
def advanceControl (p : Pool α) (self : Option Nat) : Option (Pool α × List Log.Entry) :=
  match p.control with
  | .free => none
  | .starting =>
    some ({ p with timers := p.timers.reopen, thread := .waiting, control := .free },
      [startNote p.size])
  | .silencing n =>
    match p.thread, p.door with
    | .absent, some crew => some ({ p with door := none, control := .leaving crew n }, [])
    | .absent, none => some ({ p with control := .free }, [])
    | _, _ => none
  | .leaving crew n =>
    if p.hasLeft crew self then some ({ p with control := .free }, [stopNote n]) else none

def describe (p : Pool α) : String :=
  Text.labelledPart "Scheduler"
    [("num_threads", Decimal.natText p.size), ("running", Text.ofBool p.isRunning)]

end Pool

end ArcadeUplink
