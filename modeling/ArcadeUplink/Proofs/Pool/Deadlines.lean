import ArcadeUplink.Proofs.Pool.Conservation
import Mathlib.Data.List.Nodup

/-!
# Delayed tasks in the order of their deadlines

A queue of delayed tasks is asked to schedule tasks, to give out what is due, to
close and to open again, by anybody and in any order; only the clock never goes
back. `Life` is such a sequence of calls. In every life the tasks that are given
out come in the order of their deadlines, those of one deadline in the order in
which they were scheduled (`Life.punctual`). That is no matter of the queue
alone, which may be given a task after others are gone: what is scheduled now is
due no earlier than now, and what is gone was due by now.

The timers of a pool live such a life, if those who schedule tasks and the timer
thread read the clock one after another (`History.timers_life`).

When a task that is due is given out is not said here; the thread may be late.
-/

namespace ArcadeUplink.Pool

open scoped List

variable {α : Type}

namespace TimerQueue

/-- What is asked of a queue. -/
inductive Call (α : Type) where
  | schedule (delay : Nat) (lane : Lane) (task : α)
  /-- The timer thread takes out a task that is due. -/
  | fire
  | close
  | reopen
deriving DecidableEq, Repr

/-- The queue after a call; none, if a task is to be taken out and none is due. -/
def after? (q : TimerQueue α) (now : Nat) : Call α → Option (TimerQueue α)
  | .schedule delay lane task => some ((q.schedule? now delay lane task).getD q)
  | .fire => (q.popDue? now).map (·.2)
  | .close => some q.close
  | .reopen => some q.reopen

/-- One call, with its time and the queue before and after it. -/
structure Step (α : Type) where
  before : TimerQueue α
  now : Nat
  call : Call α
  after : TimerQueue α

/-- The calls that a queue is asked from its making on, by a clock that never goes back. -/
inductive Life : List (Step α) → TimerQueue α → Prop
  | fresh : Life [] {}
  | step {ts : List (Step α)} {q q' : TimerQueue α} {now : Nat} {call : Call α} : Life ts q →
      (∀ t ∈ ts, t.now ≤ now) → q.after? now call = some q' →
      Life (ts ++ [⟨q, now, call, q'⟩]) q'

/-! ## What can be seen of a call -/

namespace Step

/-- The task that is accepted, with its deadline and its number. -/
def accepted (t : Step α) : List (Delayed α) :=
  match t.call with
  | .schedule delay lane task =>
    if (t.before.schedule? t.now delay lane task).isSome then
      [⟨t.now + delay, t.before.scheduled, lane, task⟩]
    else []
  | _ => []

/-- The task that is taken out. -/
def fired (t : Step α) : List (Delayed α) :=
  match t.call with
  | .fire => ((t.before.popDue? t.now).map (·.1)).toList
  | _ => []

/-- The tasks that are cancelled. -/
def cancelled (t : Step α) : List (Delayed α) :=
  match t.call with
  | .close => t.before.pending
  | _ => []

/-- Whether a queue is shut after a call, if it was or was not before. -/
def shuts (was : Bool) (t : Step α) : Bool :=
  match t.call with
  | .close => true
  | .reopen => false
  | _ => was

end Step

section Seen

variable (ts : List (Step α))

/-- The tasks that were accepted, the first one first. -/
def accepted : List (Delayed α) := ts.flatMap Step.accepted

/-- The tasks that were taken out, the first one first. -/
def fired : List (Delayed α) := ts.flatMap Step.fired

/-- The tasks that were cancelled. -/
def cancelled : List (Delayed α) := ts.flatMap Step.cancelled

/-- Whether a queue was closed and not opened again since. -/
def isShut : Bool := ts.foldl Step.shuts false

end Seen

/-! ## What a call does -/

/-- **What each call does to a queue**, with what has to be so for it. -/
inductive Change (q : TimerQueue α) (now : Nat) : Call α → TimerQueue α → Prop
  | refused {delay : Nat} {lane : Lane} {task : α} : q.closed = true →
      Change q now (.schedule delay lane task) q
  | scheduled {delay : Nat} {lane : Lane} {task : α} : q.closed = false →
      Change q now (.schedule delay lane task) { q with
        pending := place ⟨now + delay, q.scheduled, lane, task⟩ q.pending
        scheduled := q.scheduled + 1 }
  | fired {x : Delayed α} {rest : List (Delayed α)} : q.closed = false → q.pending = x :: rest →
      x.deadline ≤ now → Change q now .fire { q with pending := rest }
  | closed : Change q now .close q.close
  | reopened : Change q now .reopen q.reopen

variable {q q' : TimerQueue α} {now : Nat} {call : Call α} {ts : List (Step α)}

theorem schedule?_of_closed (h : q.closed = true) (now delay : Nat) (lane : Lane) (task : α) :
    q.schedule? now delay lane task = none := if_pos h

theorem schedule?_of_open (h : q.closed = false) (now delay : Nat) (lane : Lane) (task : α) :
    q.schedule? now delay lane task = some { q with
      pending := place ⟨now + delay, q.scheduled, lane, task⟩ q.pending
      scheduled := q.scheduled + 1 } := if_neg (Bool.eq_false_iff.mp h)

theorem popDue?_eq_some {x : Delayed α} (h : q.popDue? now = some (x, q')) :
    q.closed = false ∧ x.deadline ≤ now ∧
      ∃ rest, q.pending = x :: rest ∧ q' = { q with pending := rest } := by
  unfold popDue? at h
  split at h
  · next y rest hpending =>
    obtain ⟨hdue, heq⟩ := Option.ite_none_right_eq_some.mp h
    cases heq
    rw [Bool.and_eq_true, Bool.not_eq_true', decide_eq_true_eq] at hdue
    exact ⟨hdue.1, hdue.2, rest, hpending, rfl⟩
  · cases h

theorem popDue?_of_due {x : Delayed α} {rest : List (Delayed α)} (hopen : q.closed = false)
    (h : q.pending = x :: rest) (hdue : x.deadline ≤ now) :
    q.popDue? now = some (x, { q with pending := rest }) := by
  unfold popDue?
  rw [h, hopen]
  exact if_pos (decide_eq_true hdue)

theorem change_of_after? (h : q.after? now call = some q') : Change q now call q' := by
  cases call with
  | schedule delay lane task =>
    cases Option.some.inj h
    cases hclosed : q.closed with
    | true =>
      rw [schedule?_of_closed hclosed]
      exact .refused hclosed
    | false =>
      rw [schedule?_of_open hclosed]
      exact .scheduled hclosed
  | fire =>
    obtain ⟨⟨x, r⟩, hpop, rfl⟩ := Option.map_eq_some_iff.mp h
    obtain ⟨hopen, hdue, rest, hpending, rfl⟩ := popDue?_eq_some hpop
    exact .fired hopen hpending hdue
  | close =>
    cases h
    exact .closed
  | reopen =>
    cases h
    exact .reopened

section Concat

variable {t : Step α}

theorem accepted_concat (ts : List (Step α)) (t : Step α) :
    accepted (ts ++ [t]) = accepted ts ++ t.accepted := by
  unfold accepted
  rw [List.flatMap_append, List.flatMap_singleton]

theorem fired_concat (ts : List (Step α)) (t : Step α) :
    fired (ts ++ [t]) = fired ts ++ t.fired := by
  unfold fired
  rw [List.flatMap_append, List.flatMap_singleton]

theorem cancelled_concat (ts : List (Step α)) (t : Step α) :
    cancelled (ts ++ [t]) = cancelled ts ++ t.cancelled := by
  unfold cancelled
  rw [List.flatMap_append, List.flatMap_singleton]

theorem isShut_concat (ts : List (Step α)) (t : Step α) :
    isShut (ts ++ [t]) = t.shuts (isShut ts) := List.foldl_append

end Concat

theorem accepted_of_closed (h : q.closed = true) (delay : Nat) (lane : Lane) (task : α) :
    Step.accepted ⟨q, now, .schedule delay lane task, q'⟩ = [] := by
  unfold Step.accepted
  dsimp only
  rw [schedule?_of_closed h]
  rfl

theorem accepted_of_open (h : q.closed = false) (delay : Nat) (lane : Lane) (task : α) :
    Step.accepted ⟨q, now, .schedule delay lane task, q'⟩ =
      [⟨now + delay, q.scheduled, lane, task⟩] := by
  unfold Step.accepted
  dsimp only
  rw [schedule?_of_open h]
  rfl

@[simp] theorem fired_schedule (delay : Nat) (lane : Lane) (task : α) :
    Step.fired ⟨q, now, .schedule delay lane task, q'⟩ = [] := rfl

@[simp] theorem cancelled_schedule (delay : Nat) (lane : Lane) (task : α) :
    Step.cancelled ⟨q, now, .schedule delay lane task, q'⟩ = [] := rfl

@[simp] theorem accepted_fire : Step.accepted ⟨q, now, .fire, q'⟩ = [] := rfl

@[simp] theorem cancelled_fire : Step.cancelled ⟨q, now, .fire, q'⟩ = [] := rfl

@[simp] theorem accepted_close : Step.accepted ⟨q, now, .close, q'⟩ = [] := rfl

@[simp] theorem fired_close : Step.fired ⟨q, now, .close, q'⟩ = [] := rfl

theorem fired_of_due {x : Delayed α} {rest : List (Delayed α)} (hopen : q.closed = false)
    (h : q.pending = x :: rest) (hdue : x.deadline ≤ now) :
    Step.fired ⟨q, now, .fire, q'⟩ = [x] := by
  unfold Step.fired
  dsimp only
  rw [popDue?_of_due hopen h hdue]
  rfl

/-! ## Order -/

/-- Tasks are due one after another. -/
abbrev Sorted (xs : List (Delayed α)) : Prop := xs.Pairwise fun x y => x.before y = true

theorem before_iff {x y : Delayed α} : x.before y = true ↔
    x.deadline < y.deadline ∨ x.deadline = y.deadline ∧ x.number < y.number := by
  simp only [Delayed.before, Bool.or_eq_true, Bool.and_eq_true, decide_eq_true_eq]

theorem before_trans {x y z : Delayed α} (hxy : x.before y = true) (hyz : y.before z = true) :
    x.before z = true := by
  rw [before_iff] at hxy hyz ⊢
  omega

/-- A task that was scheduled last is due after those that are not due after it. -/
theorem before_of_not_before {x y : Delayed α} (hnew : y.number < x.number)
    (h : ¬x.before y = true) : y.before x = true := by
  rw [before_iff] at h ⊢
  omega

/-- A task that was scheduled last finds its place among those that are in order. -/
theorem sorted_place {x : Delayed α} {xs : List (Delayed α)} (h : Sorted xs)
    (hnew : ∀ y ∈ xs, y.number < x.number) : Sorted (place x xs) := by
  induction xs with
  | nil => exact List.pairwise_singleton _ x
  | cons y ys ih =>
    obtain ⟨hy, hys⟩ := List.pairwise_cons.mp h
    unfold place
    split
    · next hxy =>
      refine List.pairwise_cons.mpr ⟨fun z hz => ?_, h⟩
      rcases List.mem_cons.mp hz with rfl | hz
      · exact hxy
      · exact before_trans hxy (hy z hz)
    · next hxy =>
      refine List.pairwise_cons.mpr
        ⟨fun z hz => ?_, ih hys fun z hz => hnew z (List.mem_cons_of_mem y hz)⟩
      obtain rfl | hz := mem_place hz
      · exact before_of_not_before (hnew y List.mem_cons_self) hxy
      · exact hy z hz

/-! ## The invariant -/

/-- What holds of a queue after the calls of its life. -/
structure Kept (ts : List (Step α)) (q : TimerQueue α) : Prop where
  closed : q.closed = isShut ts
  empty : q.closed = true → q.pending = []
  scheduled : q.scheduled = (accepted ts).length
  numbers : (accepted ts).map (·.number) = List.range (accepted ts).length
  account : accepted ts ~ fired ts ++ cancelled ts ++ q.pending
  /-- What is pending is in order, and due after everything that was taken out. -/
  sorted : Sorted (fired ts ++ q.pending)
  /-- Whatever was taken out was due when it was. -/
  due : ∀ x ∈ fired ts, ∃ t ∈ ts, x.deadline ≤ t.now

namespace Kept

theorem fresh : Kept [] ({} : TimerQueue α) where
  closed := rfl
  empty _ := rfl
  scheduled := rfl
  numbers := rfl
  account := .refl _
  sorted := .nil
  due := nofun

theorem number_lt (h : Kept ts q) {x : Delayed α} (hx : x ∈ fired ts ++ q.pending) :
    x.number < q.scheduled := by
  have hmem : x ∈ accepted ts := by
    rw [h.account.mem_iff]
    rcases List.mem_append.mp hx with hx | hx
    · exact List.mem_append_left _ (List.mem_append_left _ hx)
    · exact List.mem_append_right _ hx
  have hnumber := List.mem_map_of_mem (f := (·.number)) hmem
  rw [h.numbers] at hnumber
  rw [h.scheduled]
  exact List.mem_range.mp hnumber

theorem due_concat (h : Kept ts q) (t : Step α) :
    ∀ x ∈ fired ts, ∃ u ∈ ts ++ [t], x.deadline ≤ u.now := fun x hx =>
  (h.due x hx).imp fun _ hu => ⟨List.mem_append_left _ hu.1, hu.2⟩

/-- A call by which no task comes or goes. -/
theorem of_quiet (h : Kept ts q) {t : Step α} (haccepted : t.accepted = []) (hfired : t.fired = [])
    (hcancelled : t.cancelled = []) (hclosed : q'.closed = t.shuts q.closed)
    (hempty : q'.closed = true → q'.pending = []) (hpending : q'.pending = q.pending)
    (hscheduled : q'.scheduled = q.scheduled) : Kept (ts ++ [t]) q' where
  closed := by rw [isShut_concat, ← h.closed, hclosed]
  empty := hempty
  scheduled := by rw [accepted_concat, haccepted, List.append_nil, hscheduled, h.scheduled]
  numbers := by rw [accepted_concat, haccepted, List.append_nil, h.numbers]
  account := by
    rw [accepted_concat, fired_concat, cancelled_concat, haccepted, hfired, hcancelled,
      List.append_nil, List.append_nil, List.append_nil, hpending]
    exact h.account
  sorted := by
    rw [fired_concat, hfired, List.append_nil, hpending]
    exact h.sorted
  due := by
    rw [fired_concat, hfired, List.append_nil]
    exact h.due_concat t

/-- **A task that is scheduled** is due after everything that was taken out: that was due by now,
and was scheduled before. -/
theorem schedule (h : Kept ts q) (hnow : ∀ t ∈ ts, t.now ≤ now) (hopen : q.closed = false)
    (delay : Nat) (lane : Lane) (task : α) :
    Kept (ts ++ [⟨q, now, .schedule delay lane task, q'⟩]) { q with
      pending := place ⟨now + delay, q.scheduled, lane, task⟩ q.pending
      scheduled := q.scheduled + 1 } where
  closed := by
    rw [isShut_concat]
    exact h.closed
  empty hclosed := by cases hopen.symm.trans hclosed
  scheduled := by
    rw [accepted_concat, accepted_of_open hopen, List.length_append, ← h.scheduled]
    rfl
  numbers := by
    rw [accepted_concat, accepted_of_open hopen, List.length_append, List.length_singleton,
      List.range_succ, List.map_append, h.numbers, h.scheduled]
    rfl
  account := by
    rw [accepted_concat, accepted_of_open hopen, fired_concat, fired_schedule, cancelled_concat,
      cancelled_schedule, List.append_nil, List.append_nil]
    refine ((h.account.append_right _).trans ?_).trans
      ((place_perm _ q.pending).append_left _).symm
    rw [List.append_assoc]
    exact (List.perm_append_singleton _ _).append_left _
  sorted := by
    obtain ⟨hfired, hpending, hacross⟩ := List.pairwise_append.mp h.sorted
    have hnew : ∀ y ∈ q.pending, y.number < q.scheduled :=
      fun y hy => h.number_lt (List.mem_append_right _ hy)
    rw [fired_concat, fired_schedule, List.append_nil]
    refine List.pairwise_append.mpr ⟨hfired, sorted_place hpending hnew, fun x hx y hy => ?_⟩
    obtain rfl | hy := mem_place hy
    · obtain ⟨t, ht, hdue⟩ := h.due x hx
      have hle := hnow t ht
      have hnumber := h.number_lt (List.mem_append_left q.pending hx)
      rw [before_iff]
      dsimp only
      omega
    · exact hacross x hx y hy
  due := by
    rw [fired_concat, fired_schedule, List.append_nil]
    exact h.due_concat _

/-- **The first task is taken out**, which is due before all that stay. -/
theorem fire (h : Kept ts q) {x : Delayed α} {rest : List (Delayed α)} (hopen : q.closed = false)
    (hpending : q.pending = x :: rest) (hdue : x.deadline ≤ now) :
    Kept (ts ++ [⟨q, now, .fire, q'⟩]) { q with pending := rest } where
  closed := by
    rw [isShut_concat]
    exact h.closed
  empty hclosed := by cases hopen.symm.trans hclosed
  scheduled := by
    rw [accepted_concat, accepted_fire, List.append_nil]
    exact h.scheduled
  numbers := by
    rw [accepted_concat, accepted_fire, List.append_nil]
    exact h.numbers
  account := by
    rw [accepted_concat, accepted_fire, fired_concat, fired_of_due hopen hpending hdue,
      cancelled_concat, cancelled_fire, List.append_nil, List.append_nil]
    refine h.account.trans ?_
    rw [hpending, List.append_assoc, List.append_assoc, List.append_assoc]
    exact List.perm_middle.append_left _
  sorted := by
    rw [fired_concat, fired_of_due hopen hpending hdue, List.append_assoc, List.singleton_append,
      ← hpending]
    exact h.sorted
  due := by
    rw [fired_concat, fired_of_due hopen hpending hdue]
    intro y hy
    rcases List.mem_append.mp hy with hy | hy
    · exact h.due_concat _ y hy
    · obtain rfl := List.mem_singleton.mp hy
      exact ⟨_, List.mem_append_right _ List.mem_cons_self, hdue⟩

/-- **What is pending is cancelled**, and nothing is pending then. -/
theorem close (h : Kept ts q) : Kept (ts ++ [⟨q, now, .close, q'⟩]) q.close where
  closed := by
    rw [isShut_concat]
    rfl
  empty _ := rfl
  scheduled := by
    rw [accepted_concat, accepted_close, List.append_nil]
    exact h.scheduled
  numbers := by
    rw [accepted_concat, accepted_close, List.append_nil]
    exact h.numbers
  account := by
    rw [accepted_concat, accepted_close, fired_concat, fired_close, cancelled_concat,
      List.append_nil, List.append_nil, ← List.append_assoc]
    exact h.account.trans (.of_eq (List.append_nil _).symm)
  sorted := by
    rw [fired_concat, fired_close, List.append_nil]
    exact (List.append_nil (fired ts)).symm ▸ (List.pairwise_append.mp h.sorted).1
  due := by
    rw [fired_concat, fired_close, List.append_nil]
    exact h.due_concat _

/-- **Every call keeps the invariant.** -/
theorem step (h : Kept ts q) (hnow : ∀ t ∈ ts, t.now ≤ now) (hc : Change q now call q') :
    Kept (ts ++ [⟨q, now, call, q'⟩]) q' := by
  cases hc with
  | refused hclosed =>
    exact h.of_quiet (accepted_of_closed hclosed ..) rfl rfl rfl h.empty rfl rfl
  | scheduled hopen => exact h.schedule hnow hopen ..
  | fired hopen hpending hdue => exact h.fire hopen hpending hdue
  | closed => exact h.close
  | reopened => exact h.of_quiet rfl rfl rfl rfl nofun rfl rfl

end Kept

theorem Life.kept (h : Life ts q) : Kept ts q := by
  induction h with
  | fresh => exact .fresh
  | step _ hnow hq ih => exact ih.step hnow (change_of_after? hq)

/-! ## Every life -/

theorem deadline_le_of_fired {t : Step α} {x : Delayed α} (hx : x ∈ t.fired) :
    x.deadline ≤ t.now := by
  unfold Step.fired at hx
  split at hx
  · obtain ⟨⟨y, r⟩, hpop, rfl⟩ := Option.map_eq_some_iff.mp (Option.mem_toList.mp hx)
    exact (popDue?_eq_some hpop).2.1
  · cases hx

/-- What led to a call is a life of the queue that was called. -/
theorem Life.before {pre post : List (Step α)} {t : Step α} (h : Life (pre ++ t :: post) q) :
    Life pre t.before ∧ Change t.before t.now t.call t.after := by
  generalize hall : pre ++ t :: post = all at h
  induction h generalizing post with
  | fresh => exact absurd hall (by simp)
  | @step ts q₀ q₁ now call hts _ hq ih =>
    rcases List.eq_nil_or_concat post with rfl | ⟨post', u, rfl⟩
    · obtain ⟨rfl, heq⟩ := List.append_inj' hall rfl
      cases heq
      exact ⟨hts, change_of_after? hq⟩
    · rw [List.concat_eq_append, ← List.cons_append, ← List.append_assoc] at hall
      exact ih (List.append_inj' hall rfl).1

/-- What holds of the life of a queue. -/
structure Punctual (ts : List (Step α)) (q : TimerQueue α) : Prop where
  /-- By deadline, and by number where deadlines are equal. -/
  in_order : Sorted (fired ts)
  never_early : ∀ t ∈ ts, ∀ x ∈ t.fired, x.deadline ≤ t.now
  once : (fired ts).Nodup
  /-- The numbers tell tasks apart, and tell in which order they were accepted. -/
  numbered : (accepted ts).map (·.number) = List.range (accepted ts).length
  /-- Whatever was accepted was taken out or cancelled, or is pending. -/
  account : accepted ts ~ fired ts ++ cancelled ts ++ q.pending
  /-- A queue that is closed has nothing pending any more, and a pool that closes its timers in a
  stop tells how many tasks were. -/
  shut_down : ∀ pre t post, ts = pre ++ t :: post → t.call = .close → t.after.pending = [] ∧
    (accepted pre).length =
      (fired pre).length + (cancelled pre).length + t.before.pending.length ∧
    ∀ p : Pool α, p.control = .free → p.timers = t.before → p.beginStop =
      some { p with timers := t.after, control := .silencing t.before.pending.length }
  /-- A closed queue refuses a task and stays as it is, and an open one accepts it. -/
  submitted : ∀ pre t post delay lane task, ts = pre ++ t :: post →
    t.call = .schedule delay lane task →
    if isShut pre = true then t.accepted = [] ∧ t.after = t.before
    else t.accepted = [⟨t.now + delay, (accepted pre).length, lane, task⟩]

/-- **Delayed tasks are due in order.** Whatever was asked of a queue, in any order and for any
delays, as long as the clock did not go back: the tasks that were taken out came in the order of
their deadlines, and those of one deadline in the order in which they were scheduled; none came
early, and none twice. Whatever was accepted was taken out or cancelled, or is pending. A queue that
is closed has nothing pending, and who closed it is told how many tasks were; from then on it
refuses every task and stays as it is until it is opened again. -/
theorem Life.punctual (h : Life ts q) : Punctual ts q where
  in_order := (List.pairwise_append.mp h.kept.sorted).1
  never_early _ _ _ hx := deadline_le_of_fired hx
  once := (List.pairwise_append.mp h.kept.sorted).1.imp fun {x y} hxy heq => by
    rw [before_iff, heq] at hxy
    omega
  numbered := h.kept.numbers
  account := h.kept.account
  shut_down := by
    rintro pre ⟨q₀, now, call, q₁⟩ post rfl rfl
    obtain ⟨hpre, hc⟩ := h.before
    dsimp only at hpre hc ⊢
    cases hc with
    | closed =>
      refine ⟨rfl, ?_, fun p hfree htimers => ?_⟩
      · rw [hpre.kept.account.length_eq, List.length_append, List.length_append]
      · unfold beginStop
        rw [hfree, htimers]
  submitted := by
    rintro pre ⟨q₀, now, call, q₁⟩ post delay lane task rfl rfl
    obtain ⟨hpre, hc⟩ := h.before
    rw [← hpre.kept.closed, ← hpre.kept.scheduled]
    dsimp only at hc ⊢
    cases hc with
    | refused hclosed =>
      rw [if_pos hclosed]
      exact ⟨accepted_of_closed hclosed .., rfl⟩
    | scheduled hopen =>
      rw [if_neg (Bool.eq_false_iff.mp hopen)]
      exact accepted_of_open hopen ..

/-- The calls of a life and what comes of them; none, if one is not possible, or the clock goes
back. -/
def continue? (ts : List (Step α)) (q : TimerQueue α) :
    List (Nat × Call α) → Option (List (Step α) × TimerQueue α)
  | [] => some (ts, q)
  | (now, call) :: calls =>
    if ∀ t ∈ ts, t.now ≤ now then
      (q.after? now call).bind fun q' => continue? (ts ++ [⟨q, now, call, q'⟩]) q' calls
    else none

theorem Life.of_continue? (h : Life ts q) {calls : List (Nat × Call α)} {us : List (Step α)}
    (hr : continue? ts q calls = some (us, q')) : Life us q' := by
  induction calls generalizing ts q with
  | nil =>
    cases hr
    exact h
  | cons c calls ih =>
    obtain ⟨hnow, hr⟩ := Option.ite_none_right_eq_some.mp hr
    obtain ⟨r, hstep, hrest⟩ := Option.bind_eq_some_iff.mp hr
    exact ih (.step h hnow hstep) hrest

/-- Tasks with one deadline, a task that is scheduled when others have been taken out already, and
a queue that is closed with two tasks pending, refuses a third one and is opened again. -/
def Sample.hour : List (Nat × Call Nat) :=
  [(0, .schedule 20 .gameData 1), (0, .schedule 1 .main 2), (1, .schedule 19 .main 3), (5, .fire),
    (5, .schedule 0 .heartbeat 4), (6, .fire), (20, .fire), (20, .schedule 60 .heartbeat 5),
    (21, .close), (22, .schedule 1 .main 6), (23, .reopen), (24, .schedule 0 .main 7), (24, .fire)]

/-- A life in which four of seven tasks were taken out, in order, and two were cancelled. -/
theorem hour_punctual :
    ∃ ts q, Life ts q ∧ (fired ts).map (·.task) = [2, 4, 1, 7] ∧
      (cancelled ts).map (·.task) = [3, 5] ∧ Punctual ts (q : TimerQueue Nat) := by
  have hfound : (continue? [] {} Sample.hour).any (fun x =>
      decide ((fired x.1).map (·.task) = [2, 4, 1, 7] ∧
        (cancelled x.1).map (·.task) = [3, 5])) = true := by
    decide +kernel
  obtain ⟨⟨ts, q⟩, hr, hseen⟩ := (Option.any_eq_true _ _).mp hfound
  obtain ⟨hfired, hcancelled⟩ := of_decide_eq_true hseen
  have h : Life ts q := Life.fresh.of_continue? hr
  exact ⟨ts, q, h, hfired, hcancelled, Life.punctual h⟩

end TimerQueue

/-! ## The timers of a pool -/

variable {n : Nat} {p q : Pool α} {e : Event α} {ts : List (Moment α)}

/-- The time that is read off the clock in an event, if it is. -/
def Event.time? : Event α → Option Nat
  | .delay now .. => some now
  | .fire now => some now
  | _ => none

/-- The times that were read off the clock. -/
def times (ts : List (Moment α)) : List Nat := ts.filterMap (·.event.time?)

theorem times_concat (ts : List (Moment α)) (t : Moment α) :
    times (ts ++ [t]) = times ts ++ t.event.time?.toList := filterMap_concat ..

/-- The tasks of a lane among some that are delayed. -/
def tasksOf (l : Lane) (xs : List (Delayed α)) : List α :=
  (xs.filter fun x => x.lane = l).map (·.task)

theorem tasksOf_append (l : Lane) (xs ys : List (Delayed α)) :
    tasksOf l (xs ++ ys) = tasksOf l xs ++ tasksOf l ys := by
  unfold tasksOf
  rw [List.filter_append, List.map_append]

/-- An event leaves the timers alone, or is a call of theirs by which the same tasks are taken
out. -/
theorem timers_of_after? (hq : p.after? e = some q) :
    (q.timers = p.timers ∧ ∀ l, (Moment.mk p e q).fired? l = none) ∨
      ∃ call, ∀ now, (∀ a ∈ e.time?, a = now) →
        p.timers.after? now call = some q.timers ∧
        ∀ l, tasksOf l (TimerQueue.Step.fired ⟨p.timers, now, call, q.timers⟩) =
          ((Moment.mk p e q).fired? l).toList := by
  cases e with
  | delay now ms l task =>
    refine .inr ⟨.schedule ms l task, fun now' hnow => ⟨?_, fun _ => rfl⟩⟩
    obtain rfl := hnow now rfl
    cases Option.some.inj hq
    cases h : p.timers.schedule? now ms l task <;> simp [Pool.delay, TimerQueue.after?, h]
  | fire now =>
    refine .inr ⟨.fire, fun now' hnow => ?_⟩
    obtain rfl := hnow now rfl
    have hfire : p.fire now = some q := hq
    unfold Pool.fire at hfire
    split at hfire
    · next hthread =>
      obtain ⟨⟨x, timers⟩, hpop, rfl⟩ := Option.map_eq_some_iff.mp hfire
      refine ⟨?_, fun l => ?_⟩
      · unfold TimerQueue.after?
        rw [hpop]
        rfl
      · rw [Moment.fired?_eq rfl]
        unfold TimerQueue.Step.fired tasksOf
        dsimp only
        rw [hpop]
        by_cases hl : x.lane = l <;> simp [hl]
    · cases hfire
  | beginStop =>
    refine .inr ⟨.close, fun now _ => ⟨?_, fun _ => rfl⟩⟩
    rw [beginStop_eq hq]
    rfl
  | advance self =>
    have hchange := change_of_after? hq
    cases hchange with
    | started => exact .inr ⟨.reopen, fun now _ => ⟨rfl, fun _ => rfl⟩⟩
    | closed | wasClosed | stopped => exact .inl ⟨rfl, fun _ => rfl⟩
  | _ =>
    refine .inl ⟨?_, fun _ => rfl⟩
    have hchange := change_of_after? hq
    cases hchange <;> rfl

/-- The last time at which anything was read, or the very first. -/
theorem exists_latest (xs : List Nat) :
    ∃ a, (∀ b ∈ xs, b ≤ a) ∧ ∀ c, (∀ b ∈ xs, b ≤ c) → a ≤ c := by
  induction xs with
  | nil => exact ⟨0, nofun, fun c _ => c.zero_le⟩
  | cons x xs ih =>
    obtain ⟨a, hle, hleast⟩ := ih
    refine ⟨max x a, List.forall_mem_cons.mpr
      ⟨Nat.le_max_left x a, fun b hb => Nat.le_trans (hle b hb) (Nat.le_max_right x a)⟩, fun c hc => ?_⟩
    obtain ⟨hx, hxs⟩ := List.forall_mem_cons.mp hc
    exact Nat.max_le.mpr ⟨hx, hleast c hxs⟩

/-- The time of an event: what it reads off the clock, or else the last time that was read. -/
theorem exists_now {xs : List Nat} {time : Option Nat} (h : ∀ b ∈ xs, ∀ a ∈ time, b ≤ a) :
    ∃ now, (∀ a ∈ time, a = now) ∧ (∀ b ∈ xs, b ≤ now) ∧
      ∀ c, (∀ b ∈ xs ++ time.toList, b ≤ c) → now ≤ c := by
  cases time with
  | some a =>
    exact ⟨a, fun _ ha => (Option.some.inj ha).symm, fun b hb => h b hb a rfl, fun c hc =>
      hc a (List.mem_append_right _ List.mem_cons_self)⟩
  | none =>
    obtain ⟨a, hle, hleast⟩ := exists_latest xs
    exact ⟨a, nofun, hle, fun c hc => hleast c fun b hb => hc b (List.mem_append_left _ hb)⟩

/-- **The timers of a pool live the life of a queue**, if the clock never goes back, and the tasks
of each lane that the timer thread takes out are those that the queue gives out, in the same
order. -/
theorem History.timers_life (h : History n ts p) (hclock : (times ts).Pairwise (· ≤ ·)) :
    ∃ us, TimerQueue.Life us p.timers ∧ (∀ u ∈ us, ∀ c, (∀ b ∈ times ts, b ≤ c) → u.now ≤ c) ∧
      ∀ l, Pool.fired ts l = tasksOf l (TimerQueue.fired us) := by
  induction h with
  | fresh => exact ⟨[], .fresh, nofun, fun _ => rfl⟩
  | @step ts p q e _ _ hq ih =>
    rw [times_concat] at hclock ⊢
    obtain ⟨hbefore, -, hlast⟩ := List.pairwise_append.mp hclock
    obtain ⟨us, hlife, htimes, hfired⟩ := ih hbefore
    have htimes' : ∀ u ∈ us, ∀ c, (∀ b ∈ times ts ++ e.time?.toList, b ≤ c) → u.now ≤ c :=
      fun u hu c hc => htimes u hu c fun b hb => hc b (List.mem_append_left _ hb)
    obtain ⟨hsame, hnone⟩ | ⟨call, hcall⟩ := timers_of_after? hq
    · refine ⟨us, hsame ▸ hlife, htimes', fun l => ?_⟩
      rw [Pool.fired, filterMap_concat, hnone, Option.toList_none, List.append_nil, ← hfired l]
      rfl
    · obtain ⟨now, hread, hnow, hleast⟩ := exists_now fun b hb a ha =>
        hlast b hb a (Option.mem_toList.mpr ha)
      obtain ⟨hafter, hgiven⟩ := hcall now hread
      refine ⟨us ++ [⟨p.timers, now, call, q.timers⟩],
        .step hlife (fun u hu => htimes u hu now hnow) hafter, fun u hu => ?_, fun l => ?_⟩
      · rcases List.mem_append.mp hu with hu | hu
        · exact htimes' u hu
        · obtain rfl := List.mem_singleton.mp hu
          exact hleast
      · rw [TimerQueue.fired_concat, tasksOf_append, ← hfired l, hgiven l]
        exact filterMap_concat ..

end ArcadeUplink.Pool
