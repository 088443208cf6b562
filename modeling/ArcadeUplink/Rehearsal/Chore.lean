import ArcadeUplink.Rehearsal.Stage

/-!
# Chores

Made-up tasks with which the pool is rehearsed. A chore is a list of actions:
to wait for a release, to fail, to submit further chores, to start or to stop
the pool. What is done and what comes of it can be seen, and so can which chores
were dropped before they began.
-/

namespace ArcadeUplink.Rehearsal

open Pool (Lane)

mutual

inductive Chore where
  | mk (id : String) (actions : List Action)

inductive Action where
  /-- Waits until it is released. -/
  | hold
  /-- Fails; nothing after it is done. -/
  | panic
  | post (chore : Chore)
  | postTo (lane : Lane) (chore : Chore)
  /-- Submits a chore to a lane after some milliseconds. -/
  | after (ms : Nat) (lane : Lane) (chore : Chore)
  | start
  | stop

end

instance : Inhabited Chore := ⟨.mk "" []⟩

instance : Inhabited Action := ⟨.hold⟩

namespace Chore

def id : Chore → String
  | mk id _ => id

def actions : Chore → List Action
  | mk _ actions => actions

end Chore

def Action.name : Action → String
  | .hold => "hold"
  | .panic => "panic"
  | .post _ => "post"
  | .postTo .. => "post_to"
  | .after .. => "after"
  | .start => "start"
  | .stop => "stop"

inductive ChoreEvent where
  | log (entry : Log.Entry)
  | started (id : String)
  | ended (id : String)
  /-- An action of a chore has returned. -/
  | did (action id : String) (result : Option Bool)
  /-- A chore was refused or cancelled. -/
  | dropped (id : String)
  /-- A call from outside has returned. -/
  | returned (result : Option Bool)

/-- What remains of a chore, or of a call from outside. -/
inductive Errand where
  /-- A chore that has not begun. -/
  | fresh (chore : Chore)
  /-- The actions that are left to a chore; to nobody, if they are those of a call. -/
  | going (who : Option String) (rest : List Action)
  /-- A delayed chore may be scheduled, as the pool runs. -/
  | scheduling (who : Option String) (ms : Nat) (lane : Lane) (chore : Chore) (rest : List Action)
  /-- A start or a stop is going on. -/
  | controlling (who : Option String) (action : String) (rest : List Action)

namespace Errand

/-- What is seen when an action returns. -/
def report (who : Option String) (action : String) (result : Option Bool) : ChoreEvent :=
  match who with
  | some id => .did action id result
  | none => .returned result

/-- What a step does to a pool and nothing else. -/
abbrev Done := Option (Effect Unit Errand ChoreEvent)

def submitted (who : Option String) (action : Action) (chore : Chore) (rest : List Action)
    (r : Bool × Pool Errand × List Log.Entry) : Effect Unit Errand ChoreEvent :=
  { world := (), pool := r.2.1, rest := some (going who rest)
    events := r.2.2.map .log ++ (if r.1 then [] else [.dropped chore.id]) ++
      [report who action.name (some r.1)] }

/-- A start or a stop goes on, or is over. -/
def controlled (who : Option String) (action : String) (rest : List Action) (p : Pool Errand)
    (log : List Log.Entry) : Effect Unit Errand ChoreEvent :=
  if p.control = .free then
    { world := (), pool := p, rest := some (going who rest)
      events := log.map .log ++ [report who action none] }
  else { world := (), pool := p, rest := some (controlling who action rest), events := log.map .log }

/-- One action of a chore or a call; a hold needs to be released. -/
def perform (p : Pool Errand) (who : Option String) (action : Action) (rest : List Action)
    (released : Bool) : Done :=
  match action with
  | .hold =>
    if released then some { world := (), pool := p, rest := some (going who rest), events := [] }
    else none
  | .panic => some { world := (), pool := p, rest := none, events := [.log Pool.panicNote] }
  | .post chore => some (submitted who action chore rest (p.post (fresh chore)))
  | .postTo lane chore => some (submitted who action chore rest (p.postTo lane (fresh chore)))
  | .after ms lane chore =>
    match p.mayDelay lane with
    | (true, _) =>
      some { world := (), pool := p, rest := some (scheduling who ms lane chore rest), events := [] }
    | (false, log) => some (submitted who action chore rest (false, p, log))
  | .start => p.beginStart.map fun q => controlled who action.name rest q []
  | .stop =>
    p.beginStop.map fun q =>
      let e := controlled who action.name rest q []
      { e with events := (p.timers.pending.map fun d => match d.task with
          | .fresh c => ChoreEvent.dropped c.id
          | _ => .dropped "") ++ e.events }

/-- One step of an errand. -/
def act (now : Nat) (self : Option Nat) (p : Pool Errand) (e : Errand) (reply : Option Unit) :
    Done :=
  match e with
  | fresh c =>
    some { world := (), pool := p, rest := some (going (some c.id) c.actions),
           events := [.started c.id] }
  | going who [] =>
    some { world := (), pool := p, rest := none, events := (who.map ChoreEvent.ended).toList }
  | going who (action :: rest) => perform p who action rest reply.isSome
  | scheduling who ms lane chore rest =>
    some (submitted who (.after ms lane chore) chore rest (p.delay now ms lane (fresh chore)))
  | controlling who action rest =>
    (p.advanceControl self).map fun r => controlled who action rest r.1 r.2

def program : Program Unit Errand Unit ChoreEvent where
  log := .log
  act now self _ p e reply := act now self p e reply

/-- Who waits for a release, if somebody does. -/
def held? : Errand → Option String
  | going (some id) (.hold :: _) => some id
  | _ => none

/-- Errands with a desk that releases whom it was told to. -/
def play : Play (Option String) Unit Errand Unit ChoreEvent where
  program := program
  answer desk _ e := if desk.isSome ∧ desk = e.held? then (some (), none) else (none, desk)

end Errand

/-- A pool on which chores are rehearsed. -/
abbrev ChoreStage := Stage (Option String) Unit Errand

/-- What can be asked of a pool from outside. -/
inductive ChoreStep where
  /-- One action, for nobody. -/
  | act (action : Action)
  | release (id : String)
  | pause
  | resume
  /-- Waits until no delayed chore is left. -/
  | await
  | describe

/-- What comes back at once. -/
inductive ChoreResult where
  | nothing
  | flag (b : Bool)
  | text (s : String)

namespace ChoreStage

def ofSize (n : Nat) : ChoreStage := { machine := { world := (), pool := .ofSize n }, desk := none }

/-- What a call has returned, as far as it has. -/
def returned (events : List ChoreEvent) : ChoreResult :=
  match events.findSome? fun e => match e with
    | .returned r => r
    | _ => none with
  | some b => .flag b
  | none => .nothing

/-- Whether a worker waits to be released. -/
def isHeld (s : ChoreStage) (id : String) : Bool :=
  s.machine.pool.workers.any fun w => match w.duty with
    | .running _ e => e.held? = some id
    | _ => false

/-- One step from outside, up to the point where nobody can go on. -/
def perform (s : ChoreStage) : ChoreStep → ChoreStage × ChoreResult × List ChoreEvent
  | .act action =>
    let busy := s.isBusy
    let (s, events) := s.call Errand.play (.going none [action])
    let (s, more) := s.settled Errand.play
    let result := match action with
      | .stop => if busy then .text "stopping" else .nothing
      | _ => returned events
    (s, result, events ++ more)
  | .release id =>
    let held := s.isHeld id
    let (t, events) := Stage.settled Errand.play { s with desk := some id }
    ({ t with desk := none }, .flag held, events)
  | .pause => ({ s with paused := true }, .nothing, [])
  | .resume =>
    let (s, events) := Stage.settled Errand.play { s with paused := false }
    (s, .nothing, events)
  | .await =>
    let (s, events) := s.fireAll Errand.play Stage.ample
    (s, .flag true, events)
  | .describe => (s, .text s.machine.pool.describe, [])

end ChoreStage

end ArcadeUplink.Rehearsal
