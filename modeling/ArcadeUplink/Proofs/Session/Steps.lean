import ArcadeUplink.Proofs.Machine.Line
import ArcadeUplink.Proofs.Machine.Story
import ArcadeUplink.Proofs.Session.Places

/-!
# Steps of a run

What can be seen of a step of a run: the calls that it makes (`calls`) and what
it tells the host (`told`). If it is the turn of an activity, `Run.turn` gives
its effect by the tables, and `Run.trail_of_turn` the earlier turns of the same
task. A step that is nobody's turn makes no call and tells nothing (`Run.idle`).
What both keep holds after every run (`Run.turn_induction`).

What a turn does, and how a task came to it, does not depend on how the engine
was set up; both are known of every run from any state of the engine (`RunFrom`).
-/

namespace ArcadeUplink.Engine

open Pool (Lane)

/-- The calls that are made in a step. -/
def calls (t : Transition) : List ServerCall := (t.seen program).filterMap EngineEvent.call?

/-- What the host is told of requests in a step. -/
def told (t : Transition) : List Notice := (t.seen program).filterMap EngineEvent.notice?

/-- What everybody can do with an engine that is in any state, from the setup of its pool on. -/
abbrev RunFrom (e : Engine) (start : Nat) : List Transition → System → Prop :=
  Machine.Course program Activity.isHostCall
    { world := e, pool := .ofSize e.setup.settings.workers, now := start }

variable {s : Setup} {start : Nat} {ts pre post : List Transition} {t : Transition} {m : System}
  {a : Activity} {lane : Option Lane} {l : Lane} {reply : Option Reply} {e : Engine}

/-- What led to a step and the step itself are a run. -/
theorem RunFrom.upto (h : RunFrom e start (pre ++ t :: post) m) :
    RunFrom e start (pre ++ [t]) t.after := by
  rw [← List.singleton_append, ← List.append_assoc] at h
  obtain ⟨m', h'⟩ := Machine.Course.of_append h
  obtain ⟨-, rfl, -⟩ := h'.of_concat
  exact h'

theorem RunFrom.before (h : RunFrom e start (pre ++ t :: post) m) :
    RunFrom e start pre t.before ∧
      ∃ events, t.before.step program t.move = some (t.after, events) := by
  obtain ⟨hpre, -, -, hstep⟩ := Machine.Course.of_concat (RunFrom.upto h)
  exact ⟨hpre, hstep⟩

theorem RunFrom.orderly (h : RunFrom e start ts m) : m.pool.Orderly :=
  Machine.Course.orderly act_uses (Pool.orderly_ofSize _) h

theorem RunFrom.placed (h : RunFrom e start ts m) : Placed m := by
  induction h with
  | start => exact ⟨fun _ ha => absurd ha List.not_mem_nil, .ofSize _⟩
  | step _ hopen hstep ih => exact ih.step hopen hstep

theorem Run.upto (h : Run s start (pre ++ t :: post) m) : Run s start (pre ++ [t]) t.after :=
  RunFrom.upto h

theorem Run.before (h : Run s start (pre ++ t :: post) m) :
    Run s start pre t.before ∧ ∃ events, t.before.step program t.move = some (t.after, events) :=
  RunFrom.before h

theorem Run.orderly (h : Run s start ts m) : m.pool.Orderly := RunFrom.orderly h

/-- What the turn of an activity does, in a run. -/
structure Took (t : Transition) (lane : Option Lane) (a : Activity) (reply : Option Reply)
    (worker : Option Nat) (r : Result) : Prop where
  behaves : Behaves t.before.now worker t.before.world t.before.pool a reply r
  world : t.after.world = r.world
  control : t.after.pool.control = r.pool.control
  calls : calls t = (r.rest.bind Activity.awaited?).toList
  told : told t = notices t.before.world t.before.pool a reply
  place : lane ∈ a.places
  cleared : a.Cleared t.before.world.status
  /-- A lane is at its one task. -/
  work : ∀ l, lane = some l →
    t.before.pool.atWork l = [a] ∧ t.after.pool.atWork l = r.rest.toList
  others : ∀ l, lane ≠ some l → t.after.pool.atWork l = t.before.pool.atWork l
  waiting : ∀ l, (t.after.pool.lanes.get l).waiting =
    (t.before.pool.lanes.get l).waiting ++ posted t.before.world t.before.pool l a
  callers : (lane = none ∧ ∃ before after, t.before.callers = before ++ a :: after ∧
      t.after.callers = before ++ r.rest.toList ++ after) ∨
    (lane ≠ none ∧ t.after.callers = t.before.callers)

/-- **The turn of an activity** does what the tables say, in its place and behind its gate. -/
theorem RunFrom.turn (h : RunFrom e start (pre ++ t :: post) m)
    (ht : t.turn? = some ⟨lane, a, reply⟩) :
    ∃ self r, program.act t.before.now self t.before.world t.before.pool a reply = some r ∧
      Took t lane a reply self r := by
  obtain ⟨hpre, events, hstep⟩ := RunFrom.before h
  have horderly := RunFrom.orderly hpre
  have hplaced := RunFrom.placed hpre
  obtain ⟨self, r, hact, hworld, hevents, hmove⟩ := Machine.step_turn hstep ht
  obtain ⟨hplace, hcleared⟩ := Machine.Tended.fit_of_turn hplaced ht
  have hseen := Machine.Transition.seen_of_step hstep
  have hb := act_behaves hact
  have huse := act_uses hact
  have hcalls : calls t = (r.rest.bind Activity.awaited?).toList := by
    unfold calls
    rw [hseen, hevents]
    exact hb.calls
  have htold : told t = notices t.before.world t.before.pool a reply := by
    unfold told
    rw [hseen, hevents]
    exact hb.told
  refine ⟨self, r, hact, ?_⟩
  obtain ⟨hnone, hq, i, hi, hcs⟩ | ⟨hcs, w, hd, hq⟩ := hmove
  · replace hnone : lane = none := hnone
    subst hnone
    refine ⟨hb, hworld, congrArg Pool.control hq, hcalls, htold, hplace, hcleared, nofun, ?_, ?_,
      ?_⟩
    · intro l _
      rw [hq, huse.atWork]
    · rw [hq]
      exact hb.waiting
    · obtain ⟨before, after, hbefore, hafter⟩ := Machine.afterCall_eq hi
      exact .inl ⟨rfl, before, after, hbefore, hcs.trans (hafter _)⟩
  · obtain ⟨l, hl, -⟩ := hplaced.pool.of_duty? hd
    replace hl : lane = some l := hl
    subst hl
    refine ⟨hb, hworld, Pool.control_progress hq, hcalls, htold, hplace, hcleared, ?_, ?_, ?_,
      .inr ⟨nofun, hcs⟩⟩
    · rintro _ ⟨⟩
      obtain ⟨hbefore, hafter⟩ := (huse.orderly horderly).atWork_progress (huse.duty? hd) hq
      rw [huse.atWork] at hbefore
      exact ⟨hbefore, hafter⟩
    · intro k hk
      exact (Pool.atWork_progress_of_ne hk (huse.duty? hd) hq).trans (huse.atWork k)
    · rw [Pool.lanes_progress hq]
      exact hb.waiting

theorem Run.turn (h : Run s start (pre ++ t :: post) m) (ht : t.turn? = some ⟨lane, a, reply⟩) :
    ∃ self r, program.act t.before.now self t.before.world t.before.pool a reply = some r ∧
      Took t lane a reply self r :=
  RunFrom.turn h ht

namespace Took

variable {w : Option Nat} {r : Result}

/-- A turn of the task in front of a line. -/
theorem line_own (h : Took t (some l) a reply w r) :
    ∃ others, t.before.pool.line l = a :: others ∧ t.after.pool.line l =
      r.rest.toList ++ (others ++ posted t.before.world t.before.pool l a) := by
  obtain ⟨hbefore, hafter⟩ := h.work l rfl
  refine ⟨(t.before.pool.lanes.get l).waiting, ?_, ?_⟩
  · unfold Pool.line
    rw [hbefore]
    rfl
  · unfold Pool.line
    rw [hafter, h.waiting]

/-- A turn of somebody else adds to a line only at its end. -/
theorem line_other (h : Took t lane a reply w r) (hl : lane ≠ some l) :
    t.after.pool.line l =
      t.before.pool.line l ++ posted t.before.world t.before.pool l a := by
  unfold Pool.line
  rw [h.others l hl, h.waiting, List.append_assoc]

end Took

/-- A step that is nobody's turn makes no call, and the host is told nothing. -/
theorem Run.idle (h : Run s start (pre ++ t :: post) m) (ht : t.turn? = none) :
    calls t = [] ∧ told t = [] ∧ t.after.world = t.before.world := by
  obtain ⟨-, events, hstep⟩ := h.before
  obtain ⟨log, hlog⟩ := Machine.events_of_idle hstep ht
  obtain ⟨hworld, -⟩ := Machine.step_idle hstep ht
  have hseen := (Machine.Transition.seen_of_step hstep).trans hlog
  refine ⟨?_, ?_, hworld⟩
  · unfold calls
    rw [hseen]
    exact calls_noted log
  · unfold told
    rw [hseen]
    exact notices_noted log

/-- **A run, turn by turn.** Whatever holds of a new device, and is kept by every turn of an activity
and by the steps that are nobody's turn, holds after every run. -/
theorem Run.turn_induction {motive : List Transition → System → Prop} (h : Run s start ts m)
    (initial : motive [] (system s start))
    (turn : ∀ {ts t lane a reply self r}, Run s start (ts ++ [t]) t.after →
      t.turn? = some ⟨lane, a, reply⟩ →
      program.act t.before.now self t.before.world t.before.pool a reply = some r →
      Took t lane a reply self r → motive ts t.before → motive (ts ++ [t]) t.after)
    (idle : ∀ {ts t}, Run s start (ts ++ [t]) t.after → t.turn? = none → motive ts t.before →
      motive (ts ++ [t]) t.after) :
    motive ts m := by
  induction h with
  | start => exact initial
  | @step ts m m' move events hts hopen hstep ih =>
    have hrun : Run s start (ts ++ [⟨m, move, m'⟩]) m' := .step hts hopen hstep
    cases hu : Machine.Transition.turn? ⟨m, move, m'⟩ with
    | some u =>
      obtain ⟨self, r, hact, htook⟩ := hrun.turn hu
      exact turn hrun hu hact htook ih
    | none => exact idle hrun hu ih

/-- A device keeps its setup. -/
theorem Run.setup (h : Run s start ts m) : m.world.setup = s := by
  refine h.turn_induction (motive := fun _ m => m.world.setup = s) rfl ?_ ?_
  · intro ts t lane a reply self r _ _ _ htook ih
    rw [htook.world, htook.behaves.setup]
    exact ih
  · intro ts t hrun hu ih
    rw [(hrun.idle hu).2.2]
    exact ih

/-- In a step that is nobody's turn nothing of the main lane comes to stand in its line: only the
timer thread adds to a line there. -/
theorem Run.main_idle (h : Run s start (pre ++ t :: post) m) (ht : t.turn? = none) :
    ∃ new, t.after.pool.line .main = t.before.pool.line .main ++ new ∧
      ∀ a ∈ new, a.isForeign = true := by
  obtain ⟨hpre, events, hstep⟩ := h.before
  obtain ⟨new, hnew, hmem⟩ := Machine.line_idle hpre.orderly hstep ht .main
  exact ⟨new, hnew, fun a ha =>
    hpre.main_apart.of_elsewhere hpre.placed.pool.drains (hmem a ha)⟩

/-- **Whoever stands in a line** has his turn, or still stands there and no further back: those in
front of him get fewer with each task that is begun, until he is the one. -/
theorem Run.stays_in_line (h : Run s start (pre ++ t :: post) m) {front back : List Activity}
    (hline : t.before.pool.line l = front ++ a :: back) :
    (front = [] ∧ ∃ reply, t.turn? = some ⟨some l, a, reply⟩) ∨
      ∃ front' back', t.after.pool.line l = front' ++ a :: back' ∧
        front'.length + (t.begins l).toNat + (t.before.pool.atWork l).length ≤
          front.length + (t.after.pool.atWork l).length := by
  obtain ⟨hpre, events, hstep⟩ := h.before
  cases hu : t.turn? with
  | none =>
    obtain ⟨new, hnew, -⟩ := Machine.line_idle hpre.orderly hstep hu l
    refine .inr ⟨front, back ++ new, ?_, ?_⟩
    · exact hnew.trans (by rw [hline, List.append_assoc, List.cons_append])
    · unfold Machine.Transition.begins
      obtain ⟨v, -, -, hv, -⟩ | ⟨-, hsame | ⟨-, hempty, task, -, hwork⟩⟩ :=
        Machine.lane_step act_uses hpre.orderly hstep l
      · cases hu.symm.trans hv
      · rw [hsame, Bool.and_not_self]
        exact Nat.le_refl _
      · rw [hempty, hwork]
        exact Nat.le_refl _
  | some u =>
    obtain ⟨lane, c, reply⟩ := u
    obtain ⟨self, r, -, htook⟩ := h.turn hu
    by_cases hl : lane = some l
    · subst hl
      obtain ⟨others, hbefore, hafter⟩ := htook.line_own
      obtain ⟨hwork, hwork'⟩ := htook.work l rfl
      have hbegins : t.begins l = false := by
        unfold Machine.Transition.begins
        rw [hwork]
        rfl
      rw [hbefore] at hline
      cases front with
      | nil =>
        obtain ⟨rfl, -⟩ := List.cons.inj hline
        exact .inl ⟨rfl, reply, rfl⟩
      | cons d front =>
        rw [List.cons_append] at hline
        obtain ⟨rfl, rfl⟩ := List.cons.inj hline
        refine .inr ⟨r.rest.toList ++ front, back ++ posted t.before.world t.before.pool l c, ?_,
          ?_⟩
        · rw [hafter, List.append_assoc, List.append_assoc, List.cons_append]
        · rw [hwork, hwork', hbegins, List.length_append]
          simp only [List.length_cons, List.length_nil, Bool.toNat_false]
          omega
    · have hsame := htook.others l hl
      have hbegins : t.begins l = false := by
        unfold Machine.Transition.begins
        rw [hsame, Bool.and_not_self]
      refine .inr ⟨front, back ++ posted t.before.world t.before.pool l c, ?_, ?_⟩
      · rw [htook.line_other hl, hline, List.append_assoc, List.cons_append]
      · rw [hsame, hbegins]
        exact Nat.le_refl _

/-- **A lane along a run.** Whatever holds of a lane that is at nothing, and is kept by the turns of
its task, by those of others, and where it takes up a task, holds after every run. -/
theorem Run.lane_induction {motive : List Transition → Engine → List Activity → Prop}
    (h : Run s start ts m) (l : Lane) (initial : motive [] { setup := s } [])
    (own : ∀ {ts t a reply self r}, Run s start (ts ++ [t]) t.after →
      t.turn? = some ⟨some l, a, reply⟩ →
      program.act t.before.now self t.before.world t.before.pool a reply = some r →
      Took t (some l) a reply self r → motive ts t.before.world [a] →
      motive (ts ++ [t]) r.world r.rest.toList)
    (other : ∀ {ts t lane a reply self r}, Run s start (ts ++ [t]) t.after →
      t.turn? = some ⟨lane, a, reply⟩ → lane ≠ some l →
      program.act t.before.now self t.before.world t.before.pool a reply = some r →
      Took t lane a reply self r → motive ts t.before.world (t.before.pool.atWork l) →
      motive (ts ++ [t]) r.world (t.before.pool.atWork l))
    (idle : ∀ {ts t}, Run s start (ts ++ [t]) t.after → t.turn? = none →
      t.after.pool.atWork l = t.before.pool.atWork l →
      motive ts t.before.world (t.before.pool.atWork l) →
      motive (ts ++ [t]) t.before.world (t.before.pool.atWork l))
    (begun : ∀ {ts t task}, Run s start (ts ++ [t]) t.after → t.turn? = none →
      task.isTask l = true → motive ts t.before.world [] →
      motive (ts ++ [t]) t.before.world [task]) :
    motive ts m.world (m.pool.atWork l) := by
  refine h.turn_induction (motive := fun ts m => motive ts m.world (m.pool.atWork l)) ?_ ?_ ?_
  · have hnone : (system s start).pool.atWork l = [] := by cases l <;> rfl
    rw [hnone]
    exact initial
  · intro ts t lane a reply self r hrun hu hact htook ih
    rw [htook.world]
    by_cases hl : lane = some l
    · subst hl
      obtain ⟨hwork, hwork'⟩ := htook.work l rfl
      rw [hwork']
      exact own hrun hu hact htook (hwork ▸ ih)
    · rw [htook.others l hl]
      exact other hrun hu hl hact htook ih
  · intro ts t hrun hu ih
    obtain ⟨hpre, events, hstep⟩ := hrun.before
    rw [(hrun.idle hu).2.2]
    obtain ⟨v, -, -, hv, -⟩ | ⟨-, hsame | ⟨-, hempty, task, htask, hwork⟩⟩ :=
      Machine.lane_step act_uses hpre.orderly hstep l
    · cases hu.symm.trans hv
    · rw [hsame]
      exact idle hrun hu hsame ih
    · rw [hwork]
      exact begun hrun hu (hpre.placed.pool.waiting l task htask).1 (hempty ▸ ih)

theorem isOf_of_turn (ht : t.turn? = some ⟨some l, a, reply⟩) : t.isOf l = true := by
  unfold Machine.Transition.isOf
  rw [ht, Option.any_some, decide_eq_true rfl]

/-- **Whatever a lane is at has a story**: a task waited in the lane, and the turns that it had led to
what remains of it. -/
theorem RunFrom.trail (h : RunFrom e start ts m) (ha : a ∈ m.pool.atWork l) :
    ∃ task, task.isTask l = true ∧ Machine.Trail program l task (Machine.story l ts) a := by
  obtain ⟨task, ⟨v, hv, hwait⟩, htrail⟩ := Machine.Course.trail act_uses (Pool.orderly_ofSize _)
    (fun l => by cases l <;> rfl) h ha
  obtain ⟨vs, ws, rfl⟩ := List.append_of_mem hv
  exact ⟨task, ((RunFrom.placed (RunFrom.before h).1).pool.waiting l task hwait).1, htrail⟩

theorem RunFrom.trail_of_turn (h : RunFrom e start (pre ++ t :: post) m)
    (ht : t.turn? = some ⟨some l, a, reply⟩) :
    ∃ task, task.isTask l = true ∧ Machine.Trail program l task (Machine.story l pre) a := by
  obtain ⟨self, r, -, htook⟩ := RunFrom.turn h ht
  obtain ⟨hwork, -⟩ := htook.work l rfl
  exact RunFrom.trail (RunFrom.before h).1 (hwork ▸ List.mem_singleton_self a)

/-- **The task whose turn it is has a story**: it waited in its lane, and the turns that it had led
to what it is now. -/
theorem Run.trail_of_turn (h : Run s start (pre ++ t :: post) m)
    (ht : t.turn? = some ⟨some l, a, reply⟩) :
    ∃ task, task.isTask l = true ∧ Machine.Trail program l task (Machine.story l pre) a :=
  RunFrom.trail_of_turn h ht

/-- What is no task remains of something that had a turn before. -/
theorem trail_origin {task : Activity} {us : List Transition}
    (h : Machine.Trail program l task us a) (htask : task.isTask l = true)
    (ha : a.isTask l = false) :
    ∃ vs t b reply, us = vs ++ [t] ∧ Machine.Trail program l task vs b ∧
      t.turn? = some ⟨some l, b, reply⟩ ∧ Origin t.before.world t.before.pool b reply a := by
  obtain ⟨-, rfl⟩ | ⟨vs, t, b, reply, self, r, hus, hvs, hturn, hact, hrest⟩ := h.last_cases
  · exact absurd htask (Bool.eq_false_iff.mp ha)
  · exact ⟨vs, t, b, reply, hus, hvs, hturn, (act_behaves hact).origin a hrest⟩

end ArcadeUplink.Engine
