import ArcadeUplink.Proofs.Pool.Lanes
import ArcadeUplink.Proofs.Pool.Standstill
import Mathlib.Data.List.Perm.Basic

/-!
# What becomes of what was accepted

Every task that was accepted is somewhere: it waits, a worker has begun it, or
it was cancelled while it was delayed. Each place where tasks wait is a stock,
and what came into it is what left it together with what is there
(`History.balance`). The laws of the single stocks follow: single tasks, the
tasks of a lane, the one in the hands of the timer thread, and delayed tasks.

The laws count tasks by their value. Where no two tasks that are submitted are
the same, they say of every single one that it is in one place.
-/

namespace ArcadeUplink.Pool

open scoped List

variable {α : Type} {n : Nat} {p q : Pool α} {e : Event α} {ts : List (Moment α)} {l : Lane}

/-! ## Stocks -/

/-- What came into a stock is what left it together with what is there. -/
theorem History.balance {β : Type} (stock : Pool α → List β) {comes leaves : Moment α → List β}
    (hfresh : stock (ofSize n) = [])
    (hstep : ∀ {p : Pool α} {e : Event α} {q : Pool α}, p.Governed → Change p e q →
      leaves ⟨p, e, q⟩ ++ stock q ~ stock p ++ comes ⟨p, e, q⟩)
    (h : History n ts p) : ts.flatMap comes ~ ts.flatMap leaves ++ stock p := by
  induction h with
  | fresh => exact .of_eq hfresh.symm
  | @step ts p q e hts _ hq ih =>
    rw [List.flatMap_append, List.flatMap_append, List.flatMap_singleton, List.flatMap_singleton]
    calc
      ts.flatMap comes ++ comes ⟨p, e, q⟩
        ~ (ts.flatMap leaves ++ stock p) ++ comes ⟨p, e, q⟩ := ih.append_right _
      _ = ts.flatMap leaves ++ (stock p ++ comes ⟨p, e, q⟩) := List.append_assoc ..
      _ ~ ts.flatMap leaves ++ (leaves ⟨p, e, q⟩ ++ stock q) :=
        (hstep hts.governed.1 (change_of_after? hq)).symm.append_left _
      _ = (ts.flatMap leaves ++ leaves ⟨p, e, q⟩) ++ stock q := (List.append_assoc ..).symm

/-- The task of a job that is a single one. -/
def Job.single? : Job α → Option α
  | .single task => some task
  | .drain _ => none

/-- The single tasks that wait. -/
def singles (p : Pool α) : List α := p.jobs.filterMap fun j => j.2.single?

/-- The task of a lane that the timer thread has taken out. -/
def handed (p : Pool α) (l : Lane) : List α :=
  match p.thread with
  | .handing m task => if m = l then [task] else []
  | _ => []

/-- The delayed tasks of a lane. -/
def delayed (p : Pool α) (l : Lane) : List α :=
  (p.timers.pending.filter fun x => x.lane = l).map (·.task)

/-- How many workers are at tasks of a lane, or at single ones. -/
def busy (p : Pool α) (lane : Option Lane) : Nat :=
  p.workers.countP fun x => (x.duty.taskIn? lane).isSome

/-- Whether a worker ends a task of a lane, or a single one. -/
def Moment.ends (lane : Option Lane) (t : Moment α) : Bool :=
  match t.event with
  | .finish w => ((t.before.duty? w).bind (Duty.taskIn? lane)).isSome
  | _ => false

/-- The tasks of a lane that the timer thread submitted and that were accepted. -/
def handedIn (ts : List (Moment α)) (l : Lane) : List α := ts.filterMap (·.delivered? l)

/-- How many tasks of a lane, or single ones, have ended. -/
def ended (ts : List (Moment α)) (lane : Option Lane) : Nat := ts.countP (·.ends lane)

/-! ## Single tasks -/

theorem Job.taskIn?_none_duty (j : Job α) : j.duty.taskIn? none = j.single? := by
  cases j <;> rfl

theorem Duty.taskIn?_afterTask (l lane : Option Lane) :
    (afterTask l : Duty α).taskIn? lane = none := by
  cases l <;> rfl

/-- The order to drain a lane is no single task. -/
theorem filterMap_single?_drain (owned : Bool) (crew : Nat) (l : Lane) :
    (if owned = true then [] else [(crew, Job.drain l)]).filterMap
      (fun j : Nat × Job α => j.2.single?) = [] := by
  split <;> rfl

theorem Moment.submitted?_postTo_none (l : Lane) (task : α) :
    (Moment.mk p (.postTo l task) q).submitted? none = none := by
  unfold Moment.submitted?
  dsimp only
  exact if_neg fun h => nomatch h.1

theorem Change.singles_perm (h : Change p e q) :
    ((Moment.mk p e q).begun? none).toList ++ q.singles ~
      p.singles ++ ((Moment.mk p e q).submitted? none).toList := by
  cases h with
  | @posted crew task hdoor =>
    have hposted : (p.post task).1 = true := by unfold Pool.post; rw [hdoor]
    unfold Moment.submitted? Pool.singles
    dsimp only
    rw [hposted, if_pos ⟨rfl, rfl⟩, List.filterMap_append]
    exact .refl _
  | @notPosted task hdoor =>
    have hposted : (p.post task).1 = false := by unfold Pool.post; rw [hdoor]
    unfold Moment.submitted?
    dsimp only
    rw [hposted, if_neg fun h => nomatch h.2]
    exact .of_eq (List.append_nil _).symm
  | @queued crew l task hdoor =>
    rw [Moment.submitted?_postTo_none]
    unfold Pool.singles
    rw [List.filterMap_append, filterMap_single?_drain]
    exact .refl _
  | notQueued hdoor =>
    rw [Moment.submitted?_postTo_none]
    exact .of_eq (List.append_nil _).symm
  | @took w crew j jobs hw hpop =>
    have hd : p.duty? w = some .idle := duty?_of_worker hw
    obtain ⟨c, hperm⟩ := popJob_perm hpop
    rw [Moment.begun?_take hd, j.taskIn?_none_duty]
    refine .trans ?_ (.of_eq (List.append_nil _).symm)
    refine .trans (.of_eq ?_) (hperm.filterMap _).symm
    rw [List.filterMap_cons]
    cases j <;> rfl
  | @picked w m task rest hd hwait =>
    rw [Moment.begun?_next hd]
    exact .of_eq (List.append_nil _).symm
  | @released w m hd hwait =>
    rw [Moment.begun?_next hd]
    exact .of_eq (List.append_nil _).symm
  | @delivered crew l task hthread hdoor =>
    unfold Pool.singles
    dsimp only
    rw [List.filterMap_append, filterMap_single?_drain]
    exact .refl _
  | _ => exact .of_eq (List.append_nil _).symm

/-- **Single tasks**: whatever was accepted has been begun or waits. -/
theorem History.submitted_perm (h : History n ts p) :
    submitted ts none ~ begun ts none ++ p.singles := by
  unfold submitted begun
  rw [List.filterMap_eq_flatMap_toList, List.filterMap_eq_flatMap_toList]
  exact h.balance Pool.singles rfl fun _ hchange => hchange.singles_perm

/-! ## The hands of the timer thread -/

theorem Moment.fired?_eq {now : Nat} {m : Lane} {task : α} (h : q.thread = .handing m task)
    (l : Lane) : (Moment.mk p (.fire now) q).fired? l = if m = l then some task else none := by
  unfold Moment.fired?
  dsimp only
  rw [h]

theorem Moment.delivered?_eq {m : Lane} {task : α} (h : p.thread = .handing m task) (l : Lane) :
    (Moment.mk p .deliver q).delivered? l =
      if m = l ∧ (p.postTo m task).1 = true then some task else none := by
  unfold Moment.delivered?
  dsimp only
  rw [h]

theorem handed_of_handing {m : Lane} {task : α} (h : p.thread = .handing m task) (l : Lane) :
    p.handed l = if m = l then [task] else [] := by
  unfold handed
  rw [h]

theorem handed_of_waiting (h : p.thread = .waiting) (l : Lane) : p.handed l = [] := by
  unfold handed
  rw [h]

theorem handed_of_absent (h : p.thread = .absent) (l : Lane) : p.handed l = [] := by
  unfold handed
  rw [h]

theorem Change.handed_eq (h : Change p e q) (hp : p.Governed) (l : Lane) :
    ((Moment.mk p e q).delivered? l).toList ++ q.handed l =
      p.handed l ++ ((Moment.mk p e q).fired? l).toList := by
  cases h with
  | started hc =>
    rw [handed_of_absent (hp.starting hc).2, handed_of_waiting rfl]
    rfl
  | @fired now x rest hthread hopen hpending =>
    rw [handed_of_waiting hthread, handed_of_handing rfl, Moment.fired?_eq rfl]
    by_cases hl : x.lane = l
    · rw [if_pos hl, if_pos hl]
      rfl
    · rw [if_neg hl, if_neg hl]
      rfl
  | @delivered crew m task hthread hdoor =>
    rw [Moment.delivered?_eq hthread, handed_of_waiting rfl, handed_of_handing hthread,
      postTo_of_door hdoor]
    by_cases hl : m = l
    · rw [if_pos hl, if_pos ⟨hl, rfl⟩]
      rfl
    · rw [if_neg hl, if_neg fun h => hl h.1]
      rfl
  | notDelivered hthread hdoor =>
    exact absurd hdoor (hp.manned (by rw [hthread]; exact nofun))
  | dismissed hthread hclosed =>
    rw [handed_of_waiting hthread, handed_of_absent rfl]
    rfl
  | _ => exact (List.append_nil _).symm

/-- **The timer thread loses nothing**: whatever it took out was accepted by its lane, or is the
one that it has in its hands. -/
theorem History.fired_perm (h : History n ts p) (l : Lane) :
    fired ts l ~ handedIn ts l ++ p.handed l := by
  unfold fired handedIn
  rw [List.filterMap_eq_flatMap_toList, List.filterMap_eq_flatMap_toList]
  exact h.balance (fun p => p.handed l) rfl fun hp hchange => .of_eq (hchange.handed_eq hp l)

/-- What comes into a lane is submitted by somebody, or by the timer thread. -/
theorem arrived_perm (ts : List (Moment α)) (l : Lane) :
    arrived ts l ~ submitted ts (some l) ++ handedIn ts l := by
  unfold arrived submitted handedIn
  rw [List.filterMap_eq_flatMap_toList, List.filterMap_eq_flatMap_toList,
    List.filterMap_eq_flatMap_toList]
  refine .trans (.flatMap_left _ fun t _ => .of_eq ?_) (List.flatMap_append_perm ..).symm
  obtain ⟨p, e, q⟩ := t
  cases e with
  | deliver => rfl
  | _ => exact (congrArg Option.toList Option.or_none).trans (List.append_nil _).symm

/-! ## Delayed tasks -/

theorem TimerQueue.place_perm (x : Delayed α) (xs : List (Delayed α)) : place x xs ~ x :: xs := by
  induction xs with
  | nil => exact .refl _
  | cons y ys ih =>
    unfold place
    split
    · exact .refl _
    · exact (ih.cons y).trans (.swap ..)

/-- The delayed tasks of a lane that are pending no more: cancelled, or taken out. -/
def Moment.departed (l : Lane) (t : Moment α) : List α :=
  t.cancelled l ++ (t.fired? l).toList

theorem delayed_cons (x : Delayed α) (xs : List (Delayed α)) (l : Lane) :
    ((x :: xs).filter fun y => y.lane = l).map (·.task) =
      (if x.lane = l then [x.task] else []) ++ (xs.filter fun y => y.lane = l).map (·.task) := by
  rw [List.filter_cons]
  by_cases hl : x.lane = l
  · rw [if_pos (decide_eq_true hl), if_pos hl]
    rfl
  · rw [if_neg (fun h => hl (of_decide_eq_true h)), if_neg hl]
    rfl

theorem delayed_schedule? {t t' : TimerQueue α} {now ms : Nat} {m : Lane} {task : α}
    (h : t.schedule? now ms m task = some t') (l : Lane) :
    (t'.pending.filter fun y => y.lane = l).map (·.task) ~
      (if m = l then [task] else []) ++ (t.pending.filter fun y => y.lane = l).map (·.task) := by
  unfold TimerQueue.schedule? at h
  split at h
  · cases h
  · cases h
    have hplace := TimerQueue.place_perm ⟨now + ms, t.scheduled, m, task⟩ t.pending
    exact ((hplace.filter _).map _).trans (.of_eq (delayed_cons ..))

theorem Moment.scheduled?_eq (now ms : Nat) (m l : Lane) (task : α) :
    (Moment.mk p (.delay now ms m task) q).scheduled? l =
      if m = l ∧ (p.delay now ms m task).1 = true then some task else none := rfl

theorem Change.delayed_perm (h : Change p e q) (l : Lane) :
    (Moment.mk p e q).departed l ++ q.delayed l ~
      p.delayed l ++ ((Moment.mk p e q).scheduled? l).toList := by
  cases h with
  | @delayed now ms m task timers htimers =>
    rw [Moment.scheduled?_eq, delay_of_schedule? htimers]
    refine (delayed_schedule? htimers l).trans (List.perm_append_comm.trans (.of_eq ?_))
    by_cases hl : m = l
    · rw [if_pos hl, if_pos ⟨hl, rfl⟩]
      rfl
    · rw [if_neg hl, if_neg fun h => hl h.1]
      rfl
  | @notDelayed now ms m task hclosed =>
    rw [Moment.scheduled?_eq, delay_of_closed hclosed, if_neg fun h => nomatch h.2]
    exact .of_eq (List.append_nil _).symm
  | silenced hc => exact .of_eq (List.append_nil _)
  | @fired now x rest hthread hopen hpending =>
    unfold Moment.departed Pool.delayed
    rw [Moment.fired?_eq rfl, hpending, delayed_cons]
    by_cases hl : x.lane = l
    · rw [if_pos hl, if_pos hl]
      exact .of_eq (List.append_nil _).symm
    · rw [if_neg hl, if_neg hl]
      exact .of_eq (List.append_nil _).symm
  | _ => exact .of_eq (List.append_nil _).symm

/-- **Delayed tasks**: whatever was accepted was cancelled, was taken out by the timer thread, or
is pending. -/
theorem History.scheduled_perm (h : History n ts p) (l : Lane) :
    scheduled ts l ~ cancelled ts l ++ fired ts l ++ p.delayed l := by
  unfold scheduled fired cancelled
  rw [List.filterMap_eq_flatMap_toList, List.filterMap_eq_flatMap_toList]
  refine (h.balance (fun p => p.delayed l) rfl fun _ hchange => hchange.delayed_perm l).trans ?_
  exact (List.flatMap_append_perm ..).symm.append_right _

/-! ## What has ended -/

theorem busy_assign {w : Nat} {d : Duty α} (hd : p.duty? w = some d) (d' : Duty α)
    (lane : Option Lane) :
    (p.assign w d').busy lane + (if (d.taskIn? lane).isSome then 1 else 0) =
      p.busy lane + if (d'.taskIn? lane).isSome then 1 else 0 := by
  obtain ⟨before, x, after, hws, rfl, hws'⟩ := exists_of_duty? hd
  unfold busy
  rw [hws, hws', List.countP_append, List.countP_append, List.countP_cons, List.countP_cons]
  dsimp only
  omega

theorem length_toList {β : Type} (o : Option β) : o.toList.length = if o.isSome then 1 else 0 := by
  cases o <;> rfl

theorem Moment.ends_finish {w : Nat} {d : Duty α} (hd : p.duty? w = some d) (lane : Option Lane) :
    (Moment.mk p (.finish w) q).ends lane = (d.taskIn? lane).isSome := by
  unfold Moment.ends
  dsimp only
  rw [hd]
  rfl

theorem Duty.isSome_taskIn? (m lane : Option Lane) (a b : α) :
    ((running m a).taskIn? lane).isSome = ((running m b).taskIn? lane).isSome := by
  by_cases h : m = lane
  · rw [taskIn?, taskIn?, if_pos h, if_pos h]
    rfl
  · rw [taskIn?, taskIn?, if_neg h, if_neg h]

theorem Change.busy_eq (h : Change p e q) (lane : Option Lane) :
    q.busy lane + (if (Moment.mk p e q).ends lane then 1 else 0) =
      p.busy lane + ((Moment.mk p e q).begun? lane).toList.length := by
  rw [length_toList]
  cases h with
  | opened hc hdoor =>
    unfold busy
    rw [List.countP_append, List.countP_replicate]
    rfl
  | @took w crew j jobs hw hpop =>
    have hd : p.duty? w = some .idle := duty?_of_worker hw
    rw [Moment.begun?_take hd]
    exact busy_assign (p := { p with jobs }) hd j.duty lane
  | @picked w m task rest hd hwait =>
    let p' : Pool α := { p with lanes := p.lanes.set m { p.lanes.get m with waiting := rest } }
    rw [Moment.begun?_next hd]
    exact busy_assign (p := p') hd (.running (some m) task) lane
  | @released w m hd hwait =>
    let p' : Pool α := { p with lanes := p.lanes.set m { p.lanes.get m with owned := false } }
    rw [Moment.begun?_next hd]
    exact busy_assign (p := p') hd .idle lane
  | @wentOn w m task rest hd =>
    have hbusy := busy_assign hd (.running m rest) lane
    rw [Duty.isSome_taskIn? m lane task rest] at hbusy
    exact Nat.add_right_cancel hbusy
  | @finished w m task hd =>
    rw [Moment.ends_finish hd]
    have hbusy := busy_assign hd (afterTask m) lane
    rw [Duty.taskIn?_afterTask] at hbusy
    exact hbusy
  | @retired w crew hw hdoor hpop =>
    have hd : p.duty? w = some .idle := duty?_of_worker hw
    exact busy_assign hd .gone lane
  | _ => rfl

/-- **Whatever was begun has ended, or a worker is at it.** -/
theorem History.begun_length (h : History n ts p) (lane : Option Lane) :
    (begun ts lane).length = ended ts lane + p.busy lane := by
  induction h with
  | fresh => rfl
  | @step ts p q e _ _ hq ih =>
    have hbusy := (change_of_after? hq).busy_eq lane
    unfold begun ended at ih ⊢
    rw [filterMap_concat, List.length_append, List.countP_append, List.countP_singleton]
    omega

end ArcadeUplink.Pool
