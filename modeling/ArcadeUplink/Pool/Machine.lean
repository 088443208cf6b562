import ArcadeUplink.Pool.Basic

/-!
# Programs on a pool

A program says what an activity does in one step: how it changes the world and
the pool, what remains of it and what can be seen of the step. A machine is a
world with a pool of workers and any number of callers from outside, each of
them at some activity. `Machine.step` is one step of one of them, of the timer
thread or of the clock; every interleaving is a list of moves.
-/

namespace ArcadeUplink

/-- What one step of an activity does. -/
structure Effect (σ α ω : Type) where
  world : σ
  pool : Pool α
  /-- What remains to be done. -/
  rest : Option α
  /-- What can be seen of the step. -/
  events : List ω

/-- A program. A step may be given a reply from outside; one that needs a reply is not possible
without, and one that has to wait for others is not possible until then. -/
structure Program (σ α ρ ω : Type) where
  /-- A log entry as an event. -/
  log : Log.Entry → ω
  /-- One step at a time `now`; `self` is the worker who does it, if it is one. -/
  act : (now : Nat) → (self : Option Nat) → σ → Pool α → α → Option ρ → Option (Effect σ α ω)

/-- A world, a pool of workers, and callers from outside. -/
structure Machine (σ α : Type) where
  world : σ
  pool : Pool α
  /-- What remains of the calls from outside. -/
  callers : List α := []
  /-- The time in milliseconds. -/
  now : Nat := 0

namespace Machine

variable {σ α ρ ω : Type}

/-- The kinds of steps. -/
inductive Move (α ρ : Type) where
  /-- A call from outside begins. -/
  | call (activity : α)
  /-- A caller goes on, perhaps with a reply. -/
  | caller (i : Nat) (reply : Option ρ)
  /-- A worker goes on with his task, perhaps with a reply. -/
  | worker (w : Nat) (reply : Option ρ)
  /-- A worker takes a job. -/
  | take (w : Nat)
  /-- A worker looks for the next task of his lane. -/
  | next (w : Nat)
  /-- A worker leaves. -/
  | retire (w : Nat)
  /-- The timer thread takes out a task that is due. -/
  | fire
  /-- The timer thread submits that task. -/
  | deliver
  /-- The timer thread leaves. -/
  | dismiss
  /-- Time passes. -/
  | wait (ms : Nat)
deriving Repr

def withPool (m : Machine σ α) (p : Pool α) : Machine σ α := { m with pool := p }

/-- The calls after one of them went on. -/
def afterCall (callers : List α) (i : Nat) : Option α → List α
  | some rest => callers.set i rest
  | none => callers.eraseIdx i

/-- One step, with what can be seen of it. -/
def step (P : Program σ α ρ ω) (m : Machine σ α) : Move α ρ → Option (Machine σ α × List ω)
  | .call a => some ({ m with callers := m.callers ++ [a] }, [])
  | .caller i reply =>
    (m.callers[i]?).bind fun a =>
      (P.act m.now none m.world m.pool a reply).map fun e =>
        ({ m with world := e.world, pool := e.pool, callers := afterCall m.callers i e.rest },
          e.events)
  | .worker w reply =>
    match m.pool.duty? w with
    | some (.running _ a) =>
      (P.act m.now (some w) m.world m.pool a reply).bind fun e =>
        (e.pool.progress w e.rest).map fun p => ({ m with world := e.world, pool := p }, e.events)
    | _ => none
  | .take w => (m.pool.take w).map (m.withPool ·, [])
  | .next w => (m.pool.next w).map (m.withPool ·, [])
  | .retire w => (m.pool.retire w).map (m.withPool ·, [])
  | .fire => (m.pool.fire m.now).map (m.withPool ·, [])
  | .deliver => m.pool.deliver.map fun r => (m.withPool r.1, r.2.map P.log)
  | .dismiss => m.pool.dismiss.map (m.withPool ·, [])
  | .wait ms => some ({ m with now := m.now + ms }, [])

/-- Several steps in a row, with all that can be seen of them. -/
def run (P : Program σ α ρ ω) (m : Machine σ α) :
    List (Move α ρ) → Option (Machine σ α × List ω)
  | [] => some (m, [])
  | move :: moves =>
    (m.step P move).bind fun r => (run P r.1 moves).map fun s => (s.1, r.2 ++ s.2)

end Machine

end ArcadeUplink
