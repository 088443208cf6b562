import ArcadeUplink.Pool.Machine

/-!
# Rehearsals

A rehearsal runs a machine in one fixed order, so that what it does depends on
nothing but the calls. A call from outside runs as far as it can while no worker
moves; then the workers go on until none of them can. Who is at a task goes on
before a new job is taken. Replies come from a desk, which may hold one back.

The order is one of the many that a machine can take: every move of a rehearsal
is a step of the machine.
-/

namespace ArcadeUplink.Rehearsal

/-- What is rehearsed: a program, and a desk that replies to the worker of the given number at
the given activity, or does not. -/
structure Play (κ σ α ρ ω : Type) where
  program : Program σ α ρ ω
  answer : κ → Nat → α → Option ρ × κ

structure Stage (κ σ α : Type) where
  machine : Machine σ α
  desk : κ
  /-- Whether workers take no job. -/
  paused : Bool := false

namespace Stage

variable {κ σ α ρ ω : Type}

def attempt (P : Play κ σ α ρ ω) (s : Stage κ σ α) (move : Machine.Move α ρ) :
    Option (Stage κ σ α × List ω) :=
  (s.machine.step P.program move).map fun r => ({ s with machine := r.1 }, r.2)

/-- The first possible move of a list. -/
def attemptFirst (P : Play κ σ α ρ ω) (s : Stage κ σ α) (moves : List (Machine.Move α ρ)) :
    Option (Stage κ σ α × List ω) :=
  moves.findSome? (s.attempt P)

/-- A worker goes on with his task, by himself or with a reply from the desk. -/
def goOn (P : Play κ σ α ρ ω) (s : Stage κ σ α) (w : Nat) :
    Stage κ σ α × Option (List ω) :=
  match s.attemptFirst P [.worker w none, .next w] with
  | some r => (r.1, some r.2)
  | none =>
    match s.machine.pool.duty? w with
    | some (.running _ a) =>
      let (reply, desk) := P.answer s.desk w a
      let s := { s with desk }
      match reply.bind fun r => s.attempt P (.worker w (some r)) with
      | some r => (r.1, some r.2)
      | none => (s, none)
    | _ => (s, none)

/-- The first of some workers who can go on with his task does so. -/
def goOnAny (P : Play κ σ α ρ ω) (s : Stage κ σ α) : List Nat → Stage κ σ α × Option (List ω)
  | [] => (s, none)
  | w :: ws =>
    match s.goOn P w with
    | (s, some events) => (s, some events)
    | (s, none) => goOnAny P s ws

def workers (s : Stage κ σ α) : List Nat := List.range s.machine.pool.workers.length

/-- The moves that are not those of a worker at his task, the first to be tried first. -/
def otherMoves (s : Stage κ σ α) : List (Machine.Move α ρ) :=
  (List.range s.machine.callers.length).map (.caller · none) ++ [.deliver, .dismiss] ++
    (if s.paused then [] else s.workers.map .take) ++ s.workers.map .retire

/-- Everybody goes on until nobody can; `fuel` bounds the number of moves. -/
def settle (P : Play κ σ α ρ ω) : Nat → Stage κ σ α → Stage κ σ α × List ω
  | 0, s => (s, [])
  | fuel + 1, s =>
    match s.goOnAny P s.workers with
    | (s, some events) =>
      let r := settle P fuel s
      (r.1, events ++ r.2)
    | (s, none) =>
      match s.attemptFirst P s.otherMoves with
      | some (s, events) =>
        let r := settle P fuel s
        (r.1, events ++ r.2)
      | none => (s, [])

/-- The callers and the timer thread go on until they cannot; no worker moves. -/
def callOut (P : Play κ σ α ρ ω) : Nat → Stage κ σ α → Stage κ σ α × List ω
  | 0, s => (s, [])
  | fuel + 1, s =>
    match s.attemptFirst P
        ((List.range s.machine.callers.length).map (.caller · none) ++ [.deliver, .dismiss]) with
    | some (s, events) =>
      let r := callOut P fuel s
      (r.1, events ++ r.2)
    | none => (s, [])

/-- More moves than a rehearsal leads to. -/
def ample : Nat := 1000000

/-- Everybody goes on until nobody can. -/
def settled (P : Play κ σ α ρ ω) (s : Stage κ σ α) : Stage κ σ α × List ω := settle P ample s

/-- A call from outside runs as far as it can. -/
def call (P : Play κ σ α ρ ω) (s : Stage κ σ α) (activity : α) : Stage κ σ α × List ω :=
  callOut P ample { s with machine.callers := s.machine.callers ++ [activity] }

/-- Whether a stop would have to wait: no job is taken at the moment, one waits, or somebody is
at one. -/
def isBusy (s : Stage κ σ α) : Bool :=
  s.paused || !s.machine.pool.jobs.isEmpty ||
    s.machine.pool.workers.any fun w => match w.duty with
      | .idle | .gone => false
      | _ => true

/-- The deadline of the first delayed task. -/
def nextDeadline? (s : Stage κ σ α) : Option Nat :=
  s.machine.pool.timers.pending.head?.map (·.deadline)

/-- Time passes until a given one, if it is still to come. -/
def waitUntil (s : Stage κ σ α) (time : Nat) : Stage κ σ α :=
  { s with machine.now := max s.machine.now time }

/-- The timer thread submits every task that is due. -/
def fireDue (P : Play κ σ α ρ ω) : Nat → Stage κ σ α → Stage κ σ α × List ω
  | 0, s => (s, [])
  | fuel + 1, s =>
    match s.attemptFirst P [.deliver, .fire] with
    | some (s, events) =>
      let r := fireDue P fuel s
      (r.1, events ++ r.2)
    | none => (s, [])

/-- Time passes until the first deadline; what is due is submitted, and the workers go on. -/
def fireNext (P : Play κ σ α ρ ω) (s : Stage κ σ α) : Stage κ σ α × List ω :=
  match s.nextDeadline? with
  | none => (s, [])
  | some time =>
    let (s, events) := fireDue P ample (s.waitUntil time)
    let (s, more) := s.settled P
    (s, events ++ more)

/-- Time passes until no delayed task is left; `fuel` bounds how many there are. -/
def fireAll (P : Play κ σ α ρ ω) : Nat → Stage κ σ α → Stage κ σ α × List ω
  | 0, s => (s, [])
  | fuel + 1, s =>
    match s.nextDeadline? with
    | none => (s, [])
    | some _ =>
      let (s, events) := s.fireNext P
      let (s, more) := fireAll P fuel s
      (s, events ++ more)

end Stage

end ArcadeUplink.Rehearsal
