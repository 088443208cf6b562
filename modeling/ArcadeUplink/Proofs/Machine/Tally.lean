import ArcadeUplink.Proofs.Machine.Stock
import ArcadeUplink.Proofs.Pool.Conservation

/-!
# How many tasks of a kind there are

A task of a pool is at a worker, waits as a single one or in a lane, is delayed,
or is in the hands of the timer thread. However it moves from one of these places
to another, it is counted once (`Pool.tally`). So there come to be more tasks of a
kind only by what is accepted and by what tasks go on with, and fewer only by what
ends and by what a stop cancels (`Change.tally`). Chores leave the tally as it is,
and so does a machine's step that is nobody's turn (`Machine.tally_idle`).
-/

namespace ArcadeUplink

open scoped List

namespace Pool

variable {α : Type} {p q : Pool α} {e : Event α}

/-- The task that the timer thread has taken out. -/
def TimerThread.task? : TimerThread α → Option α
  | .handing _ task => some task
  | _ => none

/-- How many tasks of a kind wait in lanes. -/
def PerLane.tally (lanes : PerLane (LaneQueue α)) (f : α → Bool) : Nat :=
  (Lane.all.flatMap fun l => (lanes.get l).waiting).countP f

/-- How many tasks of a kind there are in a pool. -/
def tally (p : Pool α) (f : α → Bool) : Nat :=
  p.underway.countP f + p.singles.countP f + p.lanes.tally f + p.thread.task?.toList.countP f +
    (p.timers.pending.map (·.task)).countP f

namespace Event

/-- The tasks that come into a pool: what is accepted, and what a worker goes on with. -/
def entering (p : Pool α) : Event α → List α
  | .post task => if (p.post task).1 then [task] else []
  | .postTo l task => if (p.postTo l task).1 then [task] else []
  | .delay now ms l task => if (p.delay now ms l task).1 then [task] else []
  | .goOn _ rest => [rest]
  | _ => []

/-- The tasks that leave a pool: what a worker has done a part of, and what a stop cancels. -/
def exiting (p : Pool α) : Event α → List α
  | .goOn w _ | .finish w => ((p.duty? w).bind Duty.task?).toList
  | .beginStop => p.timers.pending.map (·.task)
  | _ => []

end Event

variable (f : α → Bool)

theorem PerLane.tally_set (lanes : PerLane (LaneQueue α)) (l : Lane) (x : LaneQueue α) :
    (lanes.set l x).tally f + (lanes.get l).waiting.countP f =
      lanes.tally f + x.waiting.countP f := by
  unfold PerLane.tally Lane.all
  simp only [List.flatMap_cons, List.flatMap_nil, List.countP_append, List.countP_nil]
  cases l <;> (unfold PerLane.set PerLane.get; dsimp only; omega)

/-! ## One place at a time -/

theorem tally_lane (p : Pool α) (l : Lane) (x : LaneQueue α) :
    { p with lanes := p.lanes.set l x }.tally f + (p.lanes.get l).waiting.countP f =
      p.tally f + x.waiting.countP f := by
  have hset := p.lanes.tally_set f l x
  unfold tally underway singles
  dsimp only
  omega

theorem tally_jobs (p : Pool α) (jobs : List (Nat × Job α)) :
    { p with jobs }.tally f + p.singles.countP f =
      p.tally f + (jobs.filterMap fun j => j.2.single?).countP f := by
  unfold tally underway singles
  dsimp only
  omega

theorem tally_thread (p : Pool α) (thread : TimerThread α) :
    { p with thread }.tally f + p.thread.task?.toList.countP f =
      p.tally f + thread.task?.toList.countP f := by
  unfold tally underway singles
  dsimp only
  omega

theorem tally_timers (p : Pool α) (timers : TimerQueue α) :
    { p with timers }.tally f + (p.timers.pending.map (·.task)).countP f =
      p.tally f + (timers.pending.map (·.task)).countP f := by
  unfold tally underway singles
  dsimp only
  omega

theorem tally_workers (p : Pool α) (workers : List (Worker α)) :
    { p with workers }.tally f + p.underway.countP f =
      p.tally f + (workers.filterMap fun x => x.duty.task?).countP f := by
  unfold tally underway singles
  dsimp only
  omega

/-- A worker turns to another duty. -/
theorem tally_assign {w : Nat} {d : Duty α} (h : p.duty? w = some d) (d' : Duty α) :
    (p.assign w d').tally f + d.task?.toList.countP f = p.tally f + d'.task?.toList.countP f := by
  obtain ⟨others, hbefore, hafter⟩ := underway_assign h d'
  have hb := hbefore.countP_eq f
  have ha := hafter.countP_eq f
  rw [List.countP_append] at hb ha
  have hworkers : (p.assign w d').tally f + p.underway.countP f =
      p.tally f + (p.assign w d').underway.countP f := p.tally_workers f _
  omega

/-- A task comes to wait in a lane, and if need be with it the order to drain the lane. -/
theorem tally_push (p : Pool α) (l : Lane) (task : α) (owned : Bool) (crew : Nat) :
    { p with
      lanes := p.lanes.set l ((p.lanes.get l).push task)
      jobs := p.jobs ++ if owned = true then [] else [(crew, Job.drain l)] }.tally f =
      p.tally f + [task].countP f := by
  have hlane := p.tally_lane f l ((p.lanes.get l).push task)
  have hjobs := tally_jobs f { p with lanes := p.lanes.set l ((p.lanes.get l).push task) }
    (p.jobs ++ if owned = true then [] else [(crew, Job.drain l)])
  rw [List.filterMap_append, filterMap_single?_drain, List.append_nil] at hjobs
  unfold LaneQueue.push at hlane hjobs ⊢
  rw [List.countP_append] at hlane
  have hsame : (p.jobs.filterMap fun j => j.2.single?).countP f = p.singles.countP f := rfl
  unfold singles at hjobs
  dsimp only at hjobs
  omega

theorem Job.task?_duty (j : Job α) : j.duty.task? = j.single? := by
  cases j <;> rfl

theorem countP_popJob {crew : Nat} {j : Job α} {jobs : List (Nat × Job α)}
    (h : popJob crew p.jobs = some (j, jobs)) :
    p.singles.countP f =
      (jobs.filterMap fun j => j.2.single?).countP f + j.single?.toList.countP f := by
  obtain ⟨c, hperm⟩ := popJob_perm h
  have hsingles := (hperm.filterMap fun j => j.2.single?).countP_eq f
  unfold singles
  rw [hsingles, List.filterMap_cons]
  cases j.single? with
  | none => rfl
  | some task => exact List.countP_cons.trans (congrArg _ List.countP_singleton.symm)

theorem countP_schedule? {t t' : TimerQueue α} {now ms : Nat} {l : Lane} {task : α}
    (h : t.schedule? now ms l task = some t') :
    (t'.pending.map (·.task)).countP f = (t.pending.map (·.task)).countP f + [task].countP f := by
  unfold TimerQueue.schedule? at h
  split at h
  · cases h
  · cases h
    have hplace := TimerQueue.place_perm ⟨now + ms, t.scheduled, l, task⟩ t.pending
    rw [(hplace.map (·.task)).countP_eq f, List.map_cons, List.countP_cons, List.countP_singleton]

/-! ## Tasks that move -/

/-- A worker takes a job, and its task with it if it is a single one. -/
theorem tally_took {w crew : Nat} {j : Job α} {jobs : List (Nat × Job α)}
    (hw : p.workers[w]? = some ⟨crew, .idle⟩) (hpop : popJob crew p.jobs = some (j, jobs)) :
    ({ p with jobs }.assign w j.duty).tally f = p.tally f := by
  have hd : p.duty? w = some .idle := duty?_of_worker hw
  have hassign := tally_assign (p := { p with jobs }) f hd j.duty
  have hjobs := p.tally_jobs f jobs
  rw [countP_popJob f hpop] at hjobs
  rw [j.task?_duty] at hassign
  have hidle : (Duty.idle : Duty α).task?.toList.countP f = 0 := rfl
  omega

/-- A worker takes the next task of his lane. -/
theorem tally_picked {w : Nat} {l : Lane} {task : α} {rest : List α}
    (hd : p.duty? w = some (.draining l)) (hwait : (p.lanes.get l).waiting = task :: rest) :
    ({ p with lanes := p.lanes.set l { p.lanes.get l with waiting := rest } }.assign w
      (.running (some l) task)).tally f = p.tally f := by
  have hassign := tally_assign
    (p := { p with lanes := p.lanes.set l { p.lanes.get l with waiting := rest } }) f hd
    (.running (some l) task)
  have hlane := p.tally_lane f l { p.lanes.get l with waiting := rest }
  rw [hwait, ← List.singleton_append, List.countP_append] at hlane
  have hdraining : (Duty.draining l : Duty α).task?.toList.countP f = 0 := rfl
  have hrunning : (Duty.running (some l) task).task?.toList.countP f = [task].countP f := rfl
  dsimp only at hassign hlane ⊢
  omega

/-- A worker finds his lane empty. -/
theorem tally_released {w : Nat} {l : Lane} (hd : p.duty? w = some (.draining l)) :
    ({ p with lanes := p.lanes.set l { p.lanes.get l with owned := false } }.assign w .idle).tally
      f = p.tally f := by
  have hassign := tally_assign
    (p := { p with lanes := p.lanes.set l { p.lanes.get l with owned := false } }) f hd .idle
  have hlane := p.tally_lane f l { p.lanes.get l with owned := false }
  exact hassign.trans (Nat.add_right_cancel hlane)

/-- The timer thread takes a task out. -/
theorem tally_fired {x : Delayed α} {rest : List (Delayed α)} (hthread : p.thread = .waiting)
    (hpending : p.timers.pending = x :: rest) :
    Pool.tally { p with
      timers := { p.timers with pending := rest }
      thread := .handing x.lane x.task } f = p.tally f := by
  have htimers := p.tally_timers f { p.timers with pending := rest }
  have hhand := tally_thread f { p with timers := { p.timers with pending := rest } }
    (.handing x.lane x.task)
  rw [hpending, List.map_cons, ← List.singleton_append, List.countP_append] at htimers
  have hwaiting : p.thread.task?.toList.countP f = 0 := by rw [hthread]; rfl
  have hhanding : (TimerThread.handing x.lane x.task).task?.toList.countP f =
    [x.task].countP f := rfl
  dsimp only at htimers hhand ⊢
  omega

/-- The timer thread hands over the task that it took out. -/
theorem tally_delivered {crew : Nat} {l : Lane} {task : α} (hthread : p.thread = .handing l task) :
    Pool.tally { p with
      lanes := p.lanes.set l ((p.lanes.get l).push task)
      jobs := p.jobs ++ if (p.lanes.get l).owned = true then [] else [(crew, Job.drain l)]
      thread := .waiting } f = p.tally f := by
  have hpush := p.tally_push f l task (p.lanes.get l).owned crew
  have hhand := tally_thread f { p with
    lanes := p.lanes.set l ((p.lanes.get l).push task)
    jobs := p.jobs ++ if (p.lanes.get l).owned = true then [] else [(crew, Job.drain l)] }
    .waiting
  have hhanding : p.thread.task?.toList.countP f = [task].countP f := by rw [hthread]; rfl
  have hwaiting : (TimerThread.waiting : TimerThread α).task?.toList.countP f = 0 := rfl
  dsimp only at hhand ⊢
  omega

/-! ## What happens to a pool -/

/-- **The tally of a pool**: what comes in is added, what leaves is subtracted, and whatever else
happens only moves tasks from one place to another. -/
theorem Change.tally (h : Change p e q) (hp : p.Governed) :
    q.tally f + (e.exiting p).countP f = p.tally f + (e.entering p).countP f := by
  unfold Event.exiting Event.entering
  cases h with
  | @posted crew task hdoor =>
    have hposted : (p.post task).1 = true := by unfold Pool.post; rw [hdoor]
    have hjobs := p.tally_jobs f (p.jobs ++ [(crew, .single task)])
    have hsingles : (p.jobs ++ [(crew, Job.single task)]).filterMap (fun j => j.2.single?) =
        p.singles ++ [task] := List.filterMap_append
    rw [hsingles, List.countP_append] at hjobs
    dsimp only
    rw [if_pos hposted, List.countP_nil]
    omega
  | @notPosted task hdoor =>
    have hposted : (p.post task).1 = false := by unfold Pool.post; rw [hdoor]
    dsimp only
    rw [hposted]
    rfl
  | @queued crew l task hdoor =>
    dsimp only
    rw [postTo_of_door hdoor]
    exact p.tally_push f l task _ crew
  | @notQueued l task hdoor =>
    dsimp only
    rw [postTo_of_closed hdoor]
    rfl
  | @delayed now ms l task timers htimers =>
    have hpending := countP_schedule? f htimers
    have hsame := p.tally_timers f timers
    dsimp only
    rw [delay_of_schedule? htimers, if_pos rfl, List.countP_nil]
    omega
  | @notDelayed now ms l task hclosed =>
    dsimp only
    rw [delay_of_closed hclosed]
    rfl
  | opened hc hdoor =>
    have hworkers := p.tally_workers f (p.workers ++ List.replicate p.size ⟨p.crews, .idle⟩)
    rw [List.filterMap_append, List.filterMap_replicate_of_none rfl, List.append_nil] at hworkers
    exact Nat.add_right_cancel hworkers
  | silenced hc => exact p.tally_timers f p.timers.close
  | started hc =>
    have hthread := p.tally_thread f .waiting
    rw [(hp.starting hc).2] at hthread
    exact hthread
  | @wentOn w l task rest hd =>
    dsimp only
    rw [hd]
    exact tally_assign f hd (.running l rest)
  | @finished w l task hd =>
    have hassign := tally_assign f hd (afterTask l)
    rw [task?_afterTask] at hassign
    dsimp only
    rw [hd]
    exact hassign
  | took hw hpop => exact tally_took f hw hpop
  | picked hd hwait => exact tally_picked f hd hwait
  | released hd hwait => exact tally_released f hd
  | retired hw hdoor hpop => exact tally_assign f (duty?_of_worker hw) .gone
  | fired hthread hopen hpending => exact tally_fired f hthread hpending
  | delivered hthread hdoor => exact tally_delivered f hthread
  | notDelivered hthread hdoor => exact absurd hdoor (hp.manned (by rw [hthread]; exact nofun))
  | dismissed hthread hclosed =>
    have hhand := p.tally_thread f .absent
    rw [hthread] at hhand
    exact hhand
  | _ => rfl

/-- **Chores leave the tally as it is.** -/
theorem Chore.tally (h : Chore p q) (hp : p.Governed) : q.tally f = p.tally f := by
  cases h with
  | take hq => exact (change_take hq).tally f hp
  | next hq =>
    have hchange : Change p (.next _) q := change_of_after? hq
    exact hchange.tally f hp
  | retire hq => exact (change_retire hq).tally f hp
  | fire hq => exact (change_fire hq).tally f hp
  | deliver hq => exact (change_deliver hq).tally f hp
  | dismiss hq =>
    have hchange : Change p .dismiss q := change_of_after? hq
    exact hchange.tally f hp

/-- Nothing is left of any kind in a pool at rest. -/
theorem AtRest.tally (h : p.AtRest) : p.tally f = 0 := by
  have hunderway : p.underway = [] := by
    refine List.filterMap_eq_nil_iff.mpr fun x hx => ?_
    rw [h.workers x hx]
    rfl
  unfold Pool.tally singles
  rw [hunderway, h.jobs, h.lanes, h.pending, h.thread]
  rfl

end Pool

namespace Machine

open Pool (Use)

variable {σ α ρ ω : Type} {P : Program σ α ρ ω} {m m' : Machine σ α} {move : Move α ρ}
  {events : List ω} {u : Turn α ρ} (f : α → Bool)

/-- How many activities of a kind there are: calls, and tasks that are in the pool. -/
def tally (m : Machine σ α) : Nat := m.callers.countP f + m.pool.tally f

end Machine

end ArcadeUplink
