import ArcadeUplink.Proofs.Pool.Custody

/-!
# Histories of a pool

A history is everything that happens to a pool from its setup on, one event
after another: somebody submits a task, starts or stops the pool, a worker takes
a job or the next task of his lane, a task ends, the timer thread takes out a
task that is due. Nothing is said of who submits: a thread outside, a task that a
worker is at, or the timer thread. So whatever tasks do, and however their steps
come in between, is some history.

A call for a delayed task asks twice, and anything can happen between the two
questions. An event is `Timely` if the second one is asked by somebody whom the
first one let pass.
-/

namespace ArcadeUplink.Pool

/-- What happens to a pool. -/
inductive Event (α : Type) where
  /-- Somebody submits a single task. -/
  | post (task : α)
  /-- Somebody submits a task to a lane. -/
  | postTo (l : Lane) (task : α)
  /-- Somebody asks whether he may schedule a delayed task: the first of the two questions. -/
  | mayDelay (l : Lane) (task : α)
  /-- Somebody schedules a delayed task: the second question. -/
  | delay (now ms : Nat) (l : Lane) (task : α)
  | beginStart
  | beginStop
  /-- The start or stop that is going on takes its next step; `self` is the worker who asked for
  it, if it was one. -/
  | advance (self : Option Nat)
  /-- A worker takes a job. -/
  | take (w : Nat)
  /-- A worker looks for the next task of his lane. -/
  | next (w : Nat)
  /-- A worker has done a part of his task, and `rest` remains. -/
  | goOn (w : Nat) (rest : α)
  /-- The task of a worker ends, in whatever way. -/
  | finish (w : Nat)
  /-- A worker leaves. -/
  | retire (w : Nat)
  /-- The timer thread takes out a task that is due. -/
  | fire (now : Nat)
  /-- The timer thread submits that task. -/
  | deliver
  /-- The timer thread leaves. -/
  | dismiss
deriving DecidableEq, Repr

namespace Event

variable {α : Type}

/-- The worker whose event it is, if it is one's. -/
def worker? : Event α → Option Nat
  | .take w => some w
  | .next w => some w
  | .goOn w _ => some w
  | .finish w => some w
  | .retire w => some w
  | _ => none

/-- Whether an event is no step of a start or a stop that a worker asked for. -/
def isFromOutside : Event α → Bool
  | .advance self => self.isNone
  | _ => true

end Event

variable {α : Type} {n : Nat} {p q : Pool α} {e : Event α}

/-- The pool after an event; none, if that cannot happen. -/
def after? (p : Pool α) : Event α → Option (Pool α)
  | .post task => some (p.post task).2.1
  | .postTo l task => some (p.postTo l task).2.1
  | .mayDelay _ _ => some p
  | .delay now ms l task => some (p.delay now ms l task).2.1
  | .beginStart => p.beginStart
  | .beginStop => p.beginStop
  | .advance self => (p.advanceControl self).map (·.1)
  | .take w => p.take w
  | .next w => p.next w
  | .goOn w rest => p.progress w (some rest)
  | .finish w => p.progress w none
  | .retire w => p.retire w
  | .fire now => p.fire now
  | .deliver => p.deliver.map (·.1)
  | .dismiss => p.dismiss

/-- What a call answers at once; the first question about a delayed task is answered only if it is
refused. -/
def answer? (p : Pool α) : Event α → Option Bool
  | .post task => some (p.post task).1
  | .postTo l task => some (p.postTo l task).1
  | .mayDelay l _ => if (p.mayDelay l).1 then none else some false
  | .delay now ms l task => some (p.delay now ms l task).1
  | _ => none

/-- One event, with the pool before and after it. -/
structure Moment (α : Type) where
  before : Pool α
  event : Event α
  after : Pool α

/-- Whoever schedules a delayed task has found the pool running before. -/
def Event.Timely (ts : List (Moment α)) : Event α → Prop
  | .delay _ _ l task => ∃ t ∈ ts, t.event = .mayDelay l task ∧ t.before.isRunning = true
  | _ => True

instance (ts : List (Moment α)) (e : Event α) [DecidableEq α] : Decidable (e.Timely ts) :=
  match e with
  | .delay .. => inferInstanceAs (Decidable (∃ t ∈ ts, _))
  | .post _ | .postTo .. | .mayDelay .. | .beginStart | .beginStop | .advance _ | .take _
  | .next _ | .goOn .. | .finish _ | .retire _ | .fire _ | .deliver | .dismiss =>
    inferInstanceAs (Decidable True)

/-- What can happen to a pool for `n` workers, from its setup on. -/
inductive History (n : Nat) : List (Moment α) → Pool α → Prop
  | fresh : History n [] (.ofSize n)
  | step {ts : List (Moment α)} {p q : Pool α} {e : Event α} : History n ts p → e.Timely ts →
      p.after? e = some q → History n (ts ++ [⟨p, e, q⟩]) q

/-! ## What can be seen of a moment -/

/-- The task that a duty is about, if it is one of a lane, or a single one. -/
def Duty.taskIn? (lane : Option Lane) : Duty α → Option α
  | .running m task => if m = lane then some task else none
  | _ => none

namespace Moment

/-- The task that is accepted for a lane, or as a single one. -/
def submitted? (lane : Option Lane) (t : Moment α) : Option α :=
  match t.event with
  | .post task => if lane = none ∧ (t.before.post task).1 = true then some task else none
  | .postTo l task =>
    if lane = some l ∧ (t.before.postTo l task).1 = true then some task else none
  | _ => none

/-- The delayed task that is accepted for a lane. -/
def scheduled? (l : Lane) (t : Moment α) : Option α :=
  match t.event with
  | .delay now ms m task =>
    if m = l ∧ (t.before.delay now ms m task).1 = true then some task else none
  | _ => none

/-- The task of a lane that the timer thread takes out. -/
def fired? (l : Lane) (t : Moment α) : Option α :=
  match t.event, t.after.thread with
  | .fire _, .handing m task => if m = l then some task else none
  | _, _ => none

/-- The task of a lane that the timer thread submits, if it is accepted. -/
def delivered? (l : Lane) (t : Moment α) : Option α :=
  match t.event, t.before.thread with
  | .deliver, .handing m task =>
    if m = l ∧ (t.before.postTo m task).1 = true then some task else none
  | _, _ => none

/-- The task that comes into a lane, submitted by anybody or by the timer thread. -/
def arrival? (l : Lane) (t : Moment α) : Option α := (t.submitted? (some l)).or (t.delivered? l)

/-- The delayed tasks of a lane that are cancelled. -/
def cancelled (l : Lane) (t : Moment α) : List α :=
  match t.event with
  | .beginStop => (t.before.timers.pending.filter fun x => x.lane = l).map (·.task)
  | _ => []

/-- The task of a lane, or single one, that a worker begins. -/
def begun? (lane : Option Lane) (t : Moment α) : Option α :=
  match t.event with
  | .take w => (t.after.duty? w).bind (Duty.taskIn? lane)
  | .next w => (t.after.duty? w).bind (Duty.taskIn? lane)
  | _ => none

end Moment

section Seen

variable (ts : List (Moment α))

/-- The tasks that were accepted for a lane, or as single ones, the first one first. -/
def submitted (lane : Option Lane) : List α := ts.filterMap (·.submitted? lane)

/-- The delayed tasks that were accepted for a lane. -/
def scheduled (l : Lane) : List α := ts.filterMap (·.scheduled? l)

/-- The delayed tasks of a lane that the timer thread took out. -/
def fired (l : Lane) : List α := ts.filterMap (·.fired? l)

/-- The delayed tasks of a lane that were cancelled. -/
def cancelled (l : Lane) : List α := ts.flatMap (·.cancelled l)

/-- The tasks that came into a lane, in the order in which they were accepted. -/
def arrived (l : Lane) : List α := ts.filterMap (·.arrival? l)

/-- The tasks of a lane, or single ones, that workers began, in the order in which they did. -/
def begun (lane : Option Lane) : List α := ts.filterMap (·.begun? lane)

end Seen

theorem filterMap_concat {β γ : Type} (f : β → Option γ) (bs : List β) (b : β) :
    (bs ++ [b]).filterMap f = bs.filterMap f ++ (f b).toList := by
  rw [List.filterMap_append, List.filterMap_cons, List.filterMap_nil]
  cases f b <;> rfl

theorem filterMap_cons_eq {β γ : Type} (f : β → Option γ) (b : β) (bs : List β) :
    (b :: bs).filterMap f = (f b).toList ++ bs.filterMap f := by
  rw [List.filterMap_cons]
  cases f b <;> rfl

theorem filterMap_toList {β γ : Type} (f : β → Option γ) (o : Option β) :
    o.toList.filterMap f = (o.bind f).toList := by
  cases o with
  | none => rfl
  | some b => exact (filterMap_cons_eq f b []).trans (List.append_nil _)

/-! ## What an event does -/

/-- **What each event does to a pool**, with what has to be so for it to happen. -/
inductive Change (p : Pool α) : Event α → Pool α → Prop
  | posted {crew : Nat} {task : α} : p.door = some crew →
      Change p (.post task) { p with jobs := p.jobs ++ [(crew, .single task)] }
  | notPosted {task : α} : p.door = none → Change p (.post task) p
  | queued {crew : Nat} {l : Lane} {task : α} : p.door = some crew →
      Change p (.postTo l task) { p with
        lanes := p.lanes.set l ((p.lanes.get l).push task)
        jobs := p.jobs ++ if (p.lanes.get l).owned then [] else [(crew, .drain l)] }
  | notQueued {l : Lane} {task : α} : p.door = none → Change p (.postTo l task) p
  | asked {l : Lane} {task : α} : Change p (.mayDelay l task) p
  | delayed {now ms : Nat} {l : Lane} {task : α} {timers : TimerQueue α} :
      p.timers.schedule? now ms l task = some timers →
      Change p (.delay now ms l task) { p with timers }
  | notDelayed {now ms : Nat} {l : Lane} {task : α} : p.timers.closed = true →
      Change p (.delay now ms l task) p
  | opened : p.control = .free → p.door = none →
      Change p .beginStart { p with
        workers := p.workers ++ List.replicate p.size ⟨p.crews, .idle⟩
        door := some p.crews
        crews := p.crews + 1
        control := .starting }
  | wasOpen {crew : Nat} : p.control = .free → p.door = some crew → Change p .beginStart p
  | silenced : p.control = .free →
      Change p .beginStop
        { p with timers := p.timers.close, control := .silencing p.timers.pending.length }
  | started {self : Option Nat} : p.control = .starting →
      Change p (.advance self)
        { p with timers := p.timers.reopen, thread := .waiting, control := .free }
  | closed {self : Option Nat} {crew cancelled : Nat} : p.control = .silencing cancelled →
      p.thread = .absent → p.door = some crew →
      Change p (.advance self) { p with door := none, control := .leaving crew cancelled }
  | wasClosed {self : Option Nat} {cancelled : Nat} : p.control = .silencing cancelled →
      p.thread = .absent → p.door = none → Change p (.advance self) { p with control := .free }
  | stopped {self : Option Nat} {crew cancelled : Nat} : p.control = .leaving crew cancelled →
      p.hasLeft crew self = true → Change p (.advance self) { p with control := .free }
  | took {w crew : Nat} {j : Job α} {jobs : List (Nat × Job α)} :
      p.workers[w]? = some ⟨crew, .idle⟩ → popJob crew p.jobs = some (j, jobs) →
      Change p (.take w) ({ p with jobs }.assign w j.duty)
  | picked {w : Nat} {l : Lane} {task : α} {rest : List α} : p.duty? w = some (.draining l) →
      (p.lanes.get l).waiting = task :: rest →
      Change p (.next w)
        ({ p with lanes := p.lanes.set l { p.lanes.get l with waiting := rest } }.assign w
          (.running (some l) task))
  | released {w : Nat} {l : Lane} : p.duty? w = some (.draining l) →
      (p.lanes.get l).waiting = [] →
      Change p (.next w)
        ({ p with lanes := p.lanes.set l { p.lanes.get l with owned := false } }.assign w .idle)
  | wentOn {w : Nat} {l : Option Lane} {task rest : α} : p.duty? w = some (.running l task) →
      Change p (.goOn w rest) (p.assign w (.running l rest))
  | finished {w : Nat} {l : Option Lane} {task : α} : p.duty? w = some (.running l task) →
      Change p (.finish w) (p.assign w (afterTask l))
  | retired {w crew : Nat} : p.workers[w]? = some ⟨crew, .idle⟩ → p.door ≠ some crew →
      popJob crew p.jobs = none → Change p (.retire w) (p.assign w .gone)
  | fired {now : Nat} {x : Delayed α} {rest : List (Delayed α)} : p.thread = .waiting →
      p.timers.closed = false → p.timers.pending = x :: rest →
      Change p (.fire now) { p with
        timers := { p.timers with pending := rest }
        thread := .handing x.lane x.task }
  | delivered {crew : Nat} {l : Lane} {task : α} : p.thread = .handing l task →
      p.door = some crew →
      Change p .deliver { p with
        lanes := p.lanes.set l ((p.lanes.get l).push task)
        jobs := p.jobs ++ if (p.lanes.get l).owned then [] else [(crew, .drain l)]
        thread := .waiting }
  | notDelivered {l : Lane} {task : α} : p.thread = .handing l task → p.door = none →
      Change p .deliver { p with thread := .waiting }
  | dismissed : p.thread = .waiting → p.timers.closed = true →
      Change p .dismiss { p with thread := .absent }

theorem postTo_of_door {crew : Nat} (h : p.door = some crew) (l : Lane) (task : α) :
    p.postTo l task = (true, { p with
      lanes := p.lanes.set l ((p.lanes.get l).push task)
      jobs := p.jobs ++ if (p.lanes.get l).owned then [] else [(crew, .drain l)] }, []) := by
  unfold Pool.postTo
  rw [h]
  dsimp only
  split
  · rw [List.append_nil]
  · rfl

theorem postTo_of_closed (h : p.door = none) (l : Lane) (task : α) :
    p.postTo l task = (false, p, [laneRefusal l]) := by
  unfold Pool.postTo
  rw [h]

theorem delay_of_schedule? {now ms : Nat} {l : Lane} {task : α} {timers : TimerQueue α}
    (h : p.timers.schedule? now ms l task = some timers) : (p.delay now ms l task).1 = true := by
  unfold Pool.delay
  rw [h]

theorem delay_of_closed {now ms : Nat} {l : Lane} {task : α} (h : p.timers.closed = true) :
    p.delay now ms l task = (false, p, [delayDropped l]) := by
  unfold Pool.delay TimerQueue.schedule?
  rw [if_pos h]

theorem delay_of_open {now ms : Nat} {l : Lane} {task : α} (h : p.timers.closed = false) :
    (p.delay now ms l task).1 = true := by
  unfold Pool.delay TimerQueue.schedule?
  rw [h]
  rfl

theorem change_advance {self : Option Nat} {r : Pool α × List Log.Entry}
    (h : p.advanceControl self = some r) : Change p (.advance self) r.1 := by
  unfold advanceControl at h
  split at h
  · cases h
  · next hc =>
    cases h
    exact .started hc
  · next hc =>
    split at h
    · next hthread hdoor =>
      cases h
      exact .closed hc hthread hdoor
    · next hthread hdoor =>
      cases h
      exact .wasClosed hc hthread hdoor
    · cases h
  · next hc =>
    split at h
    · next hleft =>
      cases h
      exact .stopped hc hleft
    · cases h

theorem change_take {w : Nat} (h : p.take w = some q) : Change p (.take w) q := by
  unfold Pool.take at h
  split at h
  · next crew hw =>
    obtain ⟨⟨j, jobs⟩, hr, rfl⟩ := Option.map_eq_some_iff.mp h
    exact .took hw hr
  · cases h

theorem change_retire {w : Nat} (h : p.retire w = some q) : Change p (.retire w) q := by
  unfold Pool.retire at h
  split at h
  · next crew hw =>
    split at h
    · cases h
    · next hstay =>
      cases h
      obtain ⟨hdoor, hjobs⟩ := not_or.mp hstay
      exact .retired hw hdoor (Option.not_isSome_iff_eq_none.mp hjobs)
  · cases h

theorem change_fire {now : Nat} (h : p.fire now = some q) : Change p (.fire now) q := by
  unfold Pool.fire at h
  split at h
  · next hthread =>
    obtain ⟨r, hr, rfl⟩ := Option.map_eq_some_iff.mp h
    unfold TimerQueue.popDue? at hr
    split at hr
    · next x rest hpending =>
      split at hr
      · next hdue =>
        cases hr
        simp only [Bool.and_eq_true, Bool.not_eq_true'] at hdue
        exact .fired hthread hdue.1 hpending
      · cases hr
    · cases hr
  · cases h

theorem change_deliver {r : Pool α × List Log.Entry} (h : p.deliver = some r) :
    Change p .deliver r.1 := by
  obtain ⟨l, task, hthread, hr⟩ := deliver_cases h
  rw [hr]
  cases hdoor : p.door with
  | some crew =>
    rw [postTo_of_door hdoor]
    exact .delivered hthread hdoor
  | none =>
    rw [postTo_of_closed hdoor]
    exact .notDelivered hthread hdoor

/-- **Every event does what it is said to do.** -/
theorem change_of_after? (hq : p.after? e = some q) : Change p e q := by
  cases e with
  | post task =>
    cases hq
    unfold Pool.post
    split
    · next hdoor => exact .posted hdoor
    · next hdoor => exact .notPosted hdoor
  | postTo l task =>
    cases hq
    cases hdoor : p.door with
    | some crew =>
      rw [postTo_of_door hdoor]
      exact .queued hdoor
    | none =>
      rw [postTo_of_closed hdoor]
      exact .notQueued hdoor
  | mayDelay l task =>
    cases hq
    exact .asked
  | delay now ms l task =>
    cases hq
    unfold Pool.delay
    split
    · next timers htimers => exact .delayed htimers
    · next hnone =>
      unfold TimerQueue.schedule? at hnone
      split at hnone
      · next hclosed => exact .notDelayed hclosed
      · cases hnone
  | beginStart =>
    have h : p.beginStart = some q := hq
    unfold beginStart at h
    split at h
    · next hc hdoor =>
      cases h
      exact .opened hc hdoor
    · next hc hdoor =>
      cases h
      exact .wasOpen hc hdoor
    · cases h
  | beginStop =>
    have h : p.beginStop = some q := hq
    unfold beginStop at h
    split at h
    · next hc =>
      cases h
      exact .silenced hc
    · cases h
  | advance self =>
    obtain ⟨r, hr, rfl⟩ := Option.map_eq_some_iff.mp hq
    exact change_advance hr
  | take w => exact change_take hq
  | next w =>
    obtain ⟨l, hd, ⟨task, rest, hwait, rfl⟩ | ⟨hwait, rfl⟩⟩ := next_cases hq
    · exact .picked hd hwait
    · exact .released hd hwait
  | goOn w rest =>
    obtain ⟨l, a, hd, rfl⟩ := progress_cases (show p.progress w (some rest) = some q from hq)
    exact .wentOn hd
  | finish w =>
    obtain ⟨l, a, hd, rfl⟩ := progress_cases (show p.progress w none = some q from hq)
    exact .finished hd
  | retire w => exact change_retire hq
  | fire now => exact change_fire hq
  | deliver =>
    obtain ⟨r, hr, rfl⟩ := Option.map_eq_some_iff.mp hq
    exact change_deliver hr
  | dismiss =>
    have h : p.dismiss = some q := hq
    unfold dismiss at h
    split at h
    · next hthread =>
      split at h
      · next hclosed =>
        cases h
        exact .dismissed hthread hclosed
      · cases h
    · cases h

/-! ## Order -/

/-- **Every event keeps order.** -/
theorem Orderly.after? (h : p.Orderly) (hq : p.after? e = some q) : q.Orderly := by
  cases e with
  | post task =>
    cases hq
    unfold Pool.post
    split
    · refine h.of_holders rfl ?_
      intro l
      simp only [holders, List.countP_append, List.countP_singleton, Job.isDrain,
        Bool.false_eq_true, if_false, Nat.add_zero]
    · exact h
  | postTo l task =>
    cases hq
    exact h.postTo l task
  | mayDelay l task =>
    cases hq
    exact h
  | delay now ms l task =>
    cases hq
    have huse : Use (fun _ _ => True) p (p.delay now ms l task).2.1 := .delay trivial
    exact huse.orderly h
  | beginStart => exact h.beginStart hq
  | beginStop =>
    have huse : Use (fun _ _ => True) p q := .beginStop hq
    exact huse.orderly h
  | advance self =>
    obtain ⟨r, hr, rfl⟩ := Option.map_eq_some_iff.mp hq
    have huse : Use (fun _ _ => True) p r.1 := .advance hr
    exact huse.orderly h
  | take w => exact h.take hq
  | next w => exact h.next hq
  | goOn w rest =>
    have hp : p.progress w (some rest) = some q := hq
    exact h.progress hp
  | finish w =>
    have hp : p.progress w none = some q := hq
    exact h.progress hp
  | retire w => exact h.retire hq
  | fire now => exact Chore.orderly (.fire hq) h
  | deliver =>
    obtain ⟨r, hr, rfl⟩ := Option.map_eq_some_iff.mp hq
    exact Chore.orderly (.deliver hr) h
  | dismiss => exact Chore.orderly (.dismiss hq) h

theorem orderly_ofSize (n : Nat) : (ofSize n : Pool α).Orderly :=
  ⟨fun l => by cases l <;> rfl, fun l _ => by cases l <;> rfl⟩

theorem History.orderly {ts : List (Moment α)} (h : History n ts p) : p.Orderly := by
  induction h with
  | fresh => exact orderly_ofSize n
  | step _ _ hq ih => exact ih.after? hq

/-! ## Histories that can be computed -/

/-- What comes of some events that happen after a history, and the pool then; none, if they cannot
happen one after another. -/
def continue? [DecidableEq α] (ts : List (Moment α)) (p : Pool α) :
    List (Event α) → Option (List (Moment α) × Pool α)
  | [] => some (ts, p)
  | e :: es =>
    if e.Timely ts then (p.after? e).bind fun q => continue? (ts ++ [⟨p, e, q⟩]) q es else none

theorem History.of_continue? [DecidableEq α] {ts us : List (Moment α)} (h : History n ts p)
    {es : List (Event α)} (hr : continue? ts p es = some (us, q)) : History n us q := by
  induction es generalizing ts p with
  | nil =>
    cases hr
    exact h
  | cons e es ih =>
    unfold continue? at hr
    obtain ⟨htimely, hr⟩ := Option.ite_none_right_eq_some.mp hr
    obtain ⟨p', hp', hrest⟩ := Option.bind_eq_some_iff.mp hr
    exact ih (.step h htimely hp') hrest

theorem exists_history [DecidableEq α] {es : List (Event α)}
    {c : List (Moment α) × Pool α → Bool}
    (h : (continue? [] (ofSize n) es).any c = true) :
    ∃ ts p, History n ts p ∧ c (ts, p) = true := by
  obtain ⟨⟨ts, p⟩, hr, hc⟩ := (Option.any_eq_true _ _).mp h
  exact ⟨ts, p, History.fresh.of_continue? hr, hc⟩

end ArcadeUplink.Pool
