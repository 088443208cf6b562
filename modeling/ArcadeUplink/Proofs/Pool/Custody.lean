import ArcadeUplink.Proofs.Pool.Hold

/-!
# What becomes of a task

A task that is submitted to a lane waits there, or with the timers, until a
worker is at it. `Tended` says of every place where a task can be what holds of
the tasks there: one condition for tasks that wait, another for what remains of
a task that somebody is at. A pool changes in two ways: an activity makes `Use`
of it, or a worker or the timer thread does a `Chore`. Both keep `Orderly`, and
`Tended` as long as only fit tasks are submitted.

`Use` leaves out the submission of single tasks: what is said here holds of a
program that submits to lanes only.
-/

namespace ArcadeUplink.Pool

variable {α : Type} {p q : Pool α}

/-! ## How a pool changes -/

/-- What an activity may do to its pool in one step. Whatever it submits, at once or for later,
meets a condition. -/
inductive Use (Task : Lane → α → Prop) (p : Pool α) : Pool α → Prop
  | leave : Use Task p p
  | postTo {l : Lane} {task : α} : Task l task → Use Task p (p.postTo l task).2.1
  | delay {now ms : Nat} {l : Lane} {task : α} :
      Task l task → Use Task p (p.delay now ms l task).2.1
  | beginStart {q : Pool α} : p.beginStart = some q → Use Task p q
  | beginStop {q : Pool α} : p.beginStop = some q → Use Task p q
  | advance {self : Option Nat} {r : Pool α × List Log.Entry} :
      p.advanceControl self = some r → Use Task p r.1

/-- What workers and the timer thread do between tasks. -/
inductive Chore (p : Pool α) : Pool α → Prop
  | take {w : Nat} {q : Pool α} : p.take w = some q → Chore p q
  | next {w : Nat} {q : Pool α} : p.next w = some q → Chore p q
  | retire {w : Nat} {q : Pool α} : p.retire w = some q → Chore p q
  | fire {now : Nat} {q : Pool α} : p.fire now = some q → Chore p q
  | deliver {r : Pool α × List Log.Entry} : p.deliver = some r → Chore p r.1
  | dismiss {q : Pool α} : p.dismiss = some q → Chore p q

/-- What a control step leaves alone. -/
theorem advanceControl_same {self : Option Nat} {r : Pool α × List Log.Entry}
    (h : p.advanceControl self = some r) :
    r.1.lanes = p.lanes ∧ r.1.jobs = p.jobs ∧ r.1.workers = p.workers ∧
      r.1.timers.pending = p.timers.pending ∧ (r.1.thread = p.thread ∨ r.1.thread = .waiting) := by
  unfold advanceControl at h
  split at h
  · cases h
  · cases h
    exact ⟨rfl, rfl, rfl, rfl, .inr rfl⟩
  · split at h
    · cases h
      exact ⟨rfl, rfl, rfl, rfl, .inl rfl⟩
    · cases h
      exact ⟨rfl, rfl, rfl, rfl, .inl rfl⟩
    · cases h
  · split at h
    · cases h
      exact ⟨rfl, rfl, rfl, rfl, .inl rfl⟩
    · cases h

/-- A start brings idle workers, or nothing. -/
theorem beginStart_cases (h : p.beginStart = some q) :
    q = p ∨ q = { p with
      workers := p.workers ++ List.replicate p.size ⟨p.crews, .idle⟩
      door := some p.crews
      crews := p.crews + 1
      control := .starting } := by
  unfold beginStart at h
  split at h
  · exact .inr (Option.some.inj h).symm
  · exact .inl (Option.some.inj h).symm
  · cases h

theorem beginStop_eq (h : p.beginStop = some q) :
    q = { p with timers := p.timers.close, control := .silencing p.timers.pending.length } := by
  unfold beginStop at h
  split at h
  · exact (Option.some.inj h).symm
  · cases h

/-- A delayed task is pending from now on, or refused. -/
theorem delay_cases (p : Pool α) (now ms : Nat) (l : Lane) (task : α) :
    (p.delay now ms l task).2.1 = p ∨ ∃ timers,
      p.timers.schedule? now ms l task = some timers ∧
        (p.delay now ms l task).2.1 = { p with timers } := by
  unfold Pool.delay
  split
  · next timers h => exact .inr ⟨timers, h, rfl⟩
  · exact .inl rfl

/-- An activity brings at most idle workers into the row of all workers. -/
theorem Use.workers {Task : Lane → α → Prop} (h : Use Task p q) :
    ∃ n crew, q.workers = p.workers ++ List.replicate n ⟨crew, .idle⟩ := by
  have hsame : p.workers = p.workers ++ List.replicate 0 ⟨0, .idle⟩ := (List.append_nil _).symm
  cases h with
  | leave => exact ⟨0, 0, hsame⟩
  | @postTo l task _ =>
    obtain hq | ⟨jobs, hq, -⟩ := postTo_cases p l task <;> exact ⟨0, 0, by rw [hq]; exact hsame⟩
  | @delay now ms l task _ =>
    obtain hq | ⟨timers, -, hq⟩ := delay_cases p now ms l task <;>
      exact ⟨0, 0, by rw [hq]; exact hsame⟩
  | beginStart hq =>
    obtain rfl | rfl := beginStart_cases hq
    · exact ⟨0, 0, hsame⟩
    · exact ⟨p.size, p.crews, rfl⟩
  | beginStop hq => exact ⟨0, 0, by rw [beginStop_eq hq]; exact hsame⟩
  | advance hq => exact ⟨0, 0, by rw [(advanceControl_same hq).2.2.1]; exact hsame⟩

theorem Use.duty? {Task : Lane → α → Prop} (h : Use Task p q) {w : Nat} {d : Duty α}
    (hd : p.duty? w = some d) : q.duty? w = some d := by
  obtain ⟨n, crew, hw⟩ := h.workers
  obtain ⟨x, hx, rfl⟩ := Option.map_eq_some_iff.mp hd
  obtain ⟨hlt, -⟩ := List.getElem?_eq_some_iff.mp hx
  unfold Pool.duty?
  rw [hw, List.getElem?_append_left hlt, hx, Option.map_some]

theorem Use.atWork {Task : Lane → α → Prop} (h : Use Task p q) (l : Lane) :
    q.atWork l = p.atWork l := by
  obtain ⟨n, crew, hw⟩ := h.workers
  unfold Pool.atWork
  rw [hw, List.filterMap_append, List.filterMap_replicate_of_none rfl, List.append_nil]

/-! ## Order -/

theorem Use.orderly {Task : Lane → α → Prop} (h : Use Task p q) (hp : p.Orderly) : q.Orderly := by
  cases h with
  | leave => exact hp
  | postTo _ => exact hp.postTo ..
  | @delay now ms l task _ =>
    obtain hq | ⟨timers, -, hq⟩ := delay_cases p now ms l task
    · rw [hq]
      exact hp
    · rw [hq]
      exact hp.of_same rfl rfl rfl
  | beginStart hq => exact hp.beginStart hq
  | beginStop hq =>
    rw [beginStop_eq hq]
    exact hp.of_same rfl rfl rfl
  | advance hq =>
    obtain ⟨hl, hj, hw, -⟩ := advanceControl_same hq
    exact hp.of_same hl hj hw

/-- The timer thread takes out the first pending task. -/
theorem fire_cases {now : Nat} (h : p.fire now = some q) :
    ∃ x rest, p.timers.pending = x :: rest ∧
      q = { p with
        timers := { p.timers with pending := rest }
        thread := .handing x.lane x.task } := by
  unfold fire at h
  split at h
  · obtain ⟨r, hr, rfl⟩ := Option.map_eq_some_iff.mp h
    unfold TimerQueue.popDue? at hr
    split at hr
    · next x rest hpending =>
      split at hr
      · cases hr
        exact ⟨x, rest, hpending, rfl⟩
      · cases hr
    · cases hr
  · cases h

/-- The timer thread submits the task that it took out. -/
theorem deliver_cases {r : Pool α × List Log.Entry} (h : p.deliver = some r) :
    ∃ l task, p.thread = .handing l task ∧
      r.1 = { (p.postTo l task).2.1 with thread := .waiting } := by
  unfold deliver at h
  split at h
  · next l task hthread =>
    cases h
    exact ⟨l, task, hthread, rfl⟩
  · cases h

theorem dismiss_eq (h : p.dismiss = some q) : q = { p with thread := .absent } := by
  unfold dismiss at h
  split at h
  · split at h
    · exact (Option.some.inj h).symm
    · cases h
  · cases h

theorem Chore.orderly (h : Chore p q) (hp : p.Orderly) : q.Orderly := by
  cases h with
  | take hq => exact hp.take hq
  | next hq => exact hp.next hq
  | retire hq => exact hp.retire hq
  | fire hq =>
    obtain ⟨x, rest, -, rfl⟩ := fire_cases hq
    exact hp.of_same rfl rfl rfl
  | deliver hq =>
    obtain ⟨l, task, -, hr⟩ := deliver_cases hq
    rw [hr]
    exact (hp.postTo l task).of_same rfl rfl rfl
  | dismiss hq =>
    rw [dismiss_eq hq]
    exact hp.of_same rfl rfl rfl

/-! ## What holds of the tasks -/

/-- Whether the task that a duty is about, if there is one, is of a lane and fit for it. -/
def Duty.Meets (Fit : Lane → α → Prop) : Duty α → Prop
  | .running (some l) task => Fit l task
  | .running none _ => False
  | _ => True

/-- `Task` holds of every task that waits, and `Fit` of every task that a worker is at; there are
no single tasks. -/
structure Tended (Task Fit : Lane → α → Prop) (p : Pool α) : Prop where
  waiting : ∀ l, ∀ task ∈ (p.lanes.get l).waiting, Task l task
  pending : ∀ x ∈ p.timers.pending, Task x.lane x.task
  handing : ∀ l task, p.thread = .handing l task → Task l task
  drains : ∀ j ∈ p.jobs, ∃ l, j.2 = .drain l
  running : ∀ w ∈ p.workers, w.duty.Meets Fit

namespace Tended

variable {Task Task' Fit Fit' : Lane → α → Prop}

theorem ofSize (n : Nat) : (Pool.ofSize n : Pool α).Tended Task Fit where
  waiting l task h := by cases l <;> cases h
  pending x h := by cases h
  handing l task h := by cases h
  drains j h := by cases h
  running w h := by cases h

theorem mono (h : p.Tended Task Fit) (hTask : ∀ l a, Task l a → Task' l a)
    (hFit : ∀ l a, Fit l a → Fit' l a) : p.Tended Task' Fit' where
  waiting l task ht := hTask _ _ (h.waiting l task ht)
  pending x hx := hTask _ _ (h.pending x hx)
  handing l task ht := hTask _ _ (h.handing l task ht)
  drains := h.drains
  running w hw := by
    have hm := h.running w hw
    unfold Duty.Meets at hm ⊢
    split
    · next e =>
      rw [e] at hm
      exact hFit _ _ hm
    · next e =>
      rw [e] at hm
      exact hm
    · trivial

theorem of_duty? (h : p.Tended Task Fit) {w : Nat} {l : Option Lane} {a : α}
    (hd : p.duty? w = some (.running l a)) : ∃ lane, l = some lane ∧ Fit lane a := by
  obtain ⟨x, hx, hduty⟩ := Option.map_eq_some_iff.mp hd
  have hm := h.running x (List.mem_of_getElem? hx)
  rw [hduty] at hm
  cases l with
  | none => exact hm.elim
  | some lane => exact ⟨lane, rfl, hm⟩

theorem running_assign (h : ∀ x ∈ p.workers, x.duty.Meets Fit) {w : Nat} {d d' : Duty α}
    (hd : p.duty? w = some d) (hd' : d'.Meets Fit) :
    ∀ x ∈ (p.assign w d').workers, x.duty.Meets Fit := by
  obtain ⟨before, y, after, hws, -, hws'⟩ := exists_of_duty? hd
  rw [hws] at h
  rw [hws']
  intro x hx
  rcases List.mem_append.mp hx with hx | hx
  · exact h x (List.mem_append_left _ hx)
  · rcases List.mem_cons.mp hx with rfl | hx
    · exact hd'
    · exact h x (List.mem_append_right _ (List.mem_cons_of_mem _ hx))

theorem postTo (h : p.Tended Task Fit) {l : Lane} {task : α} (ht : Task l task) :
    (p.postTo l task).2.1.Tended Task Fit := by
  obtain hq | ⟨jobs, hq, hjobs⟩ := postTo_cases p l task
  · rw [hq]
    exact h
  · rw [hq]
    refine ⟨?_, h.pending, h.handing, ?_, h.running⟩
    · intro m a ha
      rw [PerLane.get_set] at ha
      split at ha
      · next e =>
        rcases List.mem_append.mp ha with ha | ha
        · exact e ▸ h.waiting l a ha
        · rw [e, List.mem_singleton.mp ha]
          exact ht
      · exact h.waiting m a ha
    · intro j hj
      obtain ⟨-, rfl⟩ | ⟨-, crew, rfl⟩ := hjobs
      · exact h.drains j hj
      · rcases List.mem_append.mp hj with hj | hj
        · exact h.drains j hj
        · exact ⟨l, by rw [List.mem_singleton.mp hj]⟩

end Tended

theorem TimerQueue.mem_place {x y : Delayed α} {xs : List (Delayed α)} (h : y ∈ place x xs) :
    y = x ∨ y ∈ xs := by
  induction xs with
  | nil => exact .inl (List.mem_singleton.mp h)
  | cons z zs ih =>
    unfold place at h
    split at h
    · exact List.mem_cons.mp h
    · rcases List.mem_cons.mp h with rfl | h
      · exact .inr List.mem_cons_self
      · exact (ih h).imp_right (List.mem_cons_of_mem _)

/-- A task that is scheduled joins what is pending. -/
theorem TimerQueue.mem_schedule? {t t' : TimerQueue α} {now delay : Nat} {l : Lane} {task : α}
    (h : t.schedule? now delay l task = some t') {y : Delayed α} (hy : y ∈ t'.pending) :
    (y.lane = l ∧ y.task = task) ∨ y ∈ t.pending := by
  unfold schedule? at h
  split at h
  · cases h
  · cases h
    obtain rfl | hy := mem_place hy
    · exact .inl ⟨rfl, rfl⟩
    · exact .inr hy

/-- **Use keeps custody**: whoever submits only fit tasks leaves only fit tasks. -/
theorem Use.tended {Task Fit : Lane → α → Prop} (h : Use Task p q) (hp : p.Tended Task Fit) :
    q.Tended Task Fit := by
  cases h with
  | leave => exact hp
  | postTo ht => exact hp.postTo ht
  | @delay now ms l task ht =>
    obtain hq | ⟨timers, htimers, hq⟩ := delay_cases p now ms l task
    · rw [hq]
      exact hp
    · rw [hq]
      refine ⟨hp.waiting, ?_, hp.handing, hp.drains, hp.running⟩
      intro y hy
      obtain ⟨hl, htask⟩ | hy := TimerQueue.mem_schedule? htimers hy
      · rw [hl, htask]
        exact ht
      · exact hp.pending y hy
  | beginStart hq =>
    obtain rfl | rfl := beginStart_cases hq
    · exact hp
    · refine ⟨hp.waiting, hp.pending, hp.handing, hp.drains, ?_⟩
      intro w hw
      rcases List.mem_append.mp hw with hw | hw
      · exact hp.running w hw
      · rw [(List.mem_replicate.mp hw).2]
        trivial
  | beginStop hq =>
    rw [beginStop_eq hq]
    exact ⟨hp.waiting, (fun y hy => nomatch hy), hp.handing, hp.drains, hp.running⟩
  | advance hq =>
    obtain ⟨hl, hj, hw, hpending, hthread⟩ := advanceControl_same hq
    refine ⟨hl ▸ hp.waiting, hpending ▸ hp.pending, fun l task ht => ?_, hj ▸ hp.drains,
      hw ▸ hp.running⟩
    obtain e | e := hthread
    · exact hp.handing l task (e ▸ ht)
    · rw [e] at ht
      cases ht

/-- **Chores keep custody**: a worker is at nothing that did not wait before. -/
theorem Chore.tended {Task Fit : Lane → α → Prop} (h : Chore p q) (hp : p.Tended Task Fit)
    (enter : ∀ l a, Task l a → Fit l a) : q.Tended Task Fit := by
  cases h with
  | take hq =>
    obtain ⟨hd, c, j, jobs, hperm, rfl⟩ := take_cases hq
    refine ⟨hp.waiting, hp.pending, hp.handing,
      fun k hk => hp.drains k (hperm.mem_iff.mpr (List.mem_cons_of_mem _ hk)), ?_⟩
    obtain ⟨l, rfl⟩ := hp.drains _ (hperm.mem_iff.mpr List.mem_cons_self)
    exact Tended.running_assign (p := { p with jobs }) hp.running hd trivial
  | next hq =>
    obtain ⟨l, hd, ⟨task, rest, hwait, rfl⟩ | ⟨hwait, rfl⟩⟩ := next_cases hq
    · have htask := hp.waiting l task (hwait ▸ List.mem_cons_self)
      refine ⟨fun m a ha => ?_, hp.pending, hp.handing, hp.drains,
        Tended.running_assign (p := { p with lanes := _ }) hp.running hd (enter l task htask)⟩
      rw [assign_lanes, PerLane.get_set] at ha
      split at ha
      · next e => exact e ▸ hp.waiting l a (hwait ▸ List.mem_cons_of_mem _ ha)
      · exact hp.waiting m a ha
    · refine ⟨fun m a ha => ?_, hp.pending, hp.handing, hp.drains,
        Tended.running_assign (p := { p with lanes := _ }) hp.running hd trivial⟩
      rw [assign_lanes, PerLane.get_set] at ha
      split at ha
      · next e => exact e ▸ hp.waiting l a ha
      · exact hp.waiting m a ha
  | retire hq =>
    obtain ⟨hd, rfl⟩ := retire_cases hq
    exact ⟨hp.waiting, hp.pending, hp.handing, hp.drains,
      Tended.running_assign hp.running hd trivial⟩
  | fire hq =>
    obtain ⟨x, rest, hpending, rfl⟩ := fire_cases hq
    refine ⟨hp.waiting, fun y hy => hp.pending y (hpending ▸ List.mem_cons_of_mem _ hy),
      fun l task ht => ?_, hp.drains, hp.running⟩
    cases ht
    exact hp.pending x (hpending ▸ List.mem_cons_self)
  | deliver hq =>
    obtain ⟨l, task, hthread, hr⟩ := deliver_cases hq
    have hposted := hp.postTo (hp.handing l task hthread)
    rw [hr]
    exact ⟨hposted.waiting, hposted.pending, (fun _ _ ht => nomatch ht), hposted.drains,
      hposted.running⟩
  | dismiss hq =>
    rw [dismiss_eq hq]
    exact ⟨hp.waiting, hp.pending, (fun _ _ ht => nomatch ht), hp.drains, hp.running⟩

/-! ## Who is at a lane -/

/-- Another duty of one worker changes his part of whatever is read off all duties. -/
theorem filterMap_assign {β : Type} (f : Duty α → Option β) {w : Nat} {d : Duty α}
    (h : p.duty? w = some d) (d' : Duty α) :
    ∃ before after,
      p.workers.filterMap (fun x => f x.duty) = before ++ ((f d).toList ++ after) ∧
      (p.assign w d').workers.filterMap (fun x => f x.duty) =
        before ++ ((f d').toList ++ after) := by
  obtain ⟨before, x, after, hws, rfl, hws'⟩ := exists_of_duty? h
  refine ⟨before.filterMap fun y => f y.duty, after.filterMap fun y => f y.duty, ?_, ?_⟩
  · rw [hws, List.filterMap_append, List.filterMap_cons]
    cases f x.duty <;> rfl
  · rw [hws', List.filterMap_append, List.filterMap_cons]
    cases f d' <;> rfl

theorem atWork_assign {w : Nat} {d : Duty α} (h : p.duty? w = some d) (d' : Duty α) (l : Lane) :
    ∃ before after, p.atWork l = before ++ ((d.taskOn? l).toList ++ after) ∧
      (p.assign w d').atWork l = before ++ ((d'.taskOn? l).toList ++ after) :=
  filterMap_assign (fun x => x.taskOn? l) h d'

theorem atWork_assign_of_none {w : Nat} {d d' : Duty α} (h : p.duty? w = some d) {l : Lane}
    (hd : d.taskOn? l = none) (hd' : d'.taskOn? l = none) :
    (p.assign w d').atWork l = p.atWork l := by
  obtain ⟨before, after, hb, ha⟩ := atWork_assign h d' l
  rw [hb, ha, hd, hd']

theorem atWork_congr (h : q.workers = p.workers) (l : Lane) : q.atWork l = p.atWork l := by
  unfold atWork
  rw [h]

@[simp] theorem Duty.taskOn?_running_self (l : Lane) (a : α) :
    (Duty.running (some l) a).taskOn? l = some a := if_pos rfl

theorem Duty.taskOn?_running_of_ne {l m : Lane} (h : m ≠ l) (a : α) :
    (Duty.running (some m) a).taskOn? l = none := if_neg fun e => h (Option.some.inj e)

theorem Job.taskOn?_duty (j : Job α) (l : Lane) : j.duty.taskOn? l = none := by
  cases j <;> rfl

/-- Nothing stands beside the one task of a list that holds at most one. -/
theorem eq_nil_of_length_le_one {before after : List α} {a : α}
    (h : (before ++ ((some a).toList ++ after)).length ≤ 1) : before = [] ∧ after = [] := by
  simp only [Option.toList_some, List.length_append, List.length_cons, List.length_nil] at h
  exact ⟨List.eq_nil_of_length_eq_zero (by omega), List.eq_nil_of_length_eq_zero (by omega)⟩

/-- **One after another**: whoever begins with a task of a lane finds nobody at the lane. -/
theorem Chore.atWork (h : Chore p q) (hp : p.Orderly) (l : Lane) :
    q.atWork l = p.atWork l ∨
      p.atWork l = [] ∧ ∃ task ∈ (p.lanes.get l).waiting, q.atWork l = [task] := by
  have hone := (h.orderly hp).atWork_le_one l
  cases h with
  | take hq =>
    obtain ⟨hd, c, j, jobs, -, rfl⟩ := take_cases hq
    exact .inl (atWork_assign_of_none (p := { p with jobs }) hd rfl (j.taskOn?_duty l))
  | next hq =>
    obtain ⟨m, hd, ⟨task, rest, hwait, rfl⟩ | ⟨-, rfl⟩⟩ := next_cases hq
    · by_cases hml : m = l
      · subst hml
        let p' : Pool α := { p with lanes := p.lanes.set m { p.lanes.get m with waiting := rest } }
        obtain ⟨before, after, hb, ha⟩ := atWork_assign (p := p') hd (.running (some m) task) m
        rw [ha, Duty.taskOn?_running_self] at hone
        obtain ⟨rfl, rfl⟩ := eq_nil_of_length_le_one hone
        refine .inr ⟨hb, task, hwait ▸ List.mem_cons_self, ha.trans ?_⟩
        rw [Duty.taskOn?_running_self]
        rfl
      · exact .inl (atWork_assign_of_none (p := { p with lanes := _ }) hd rfl
          (Duty.taskOn?_running_of_ne hml task))
    · exact .inl (atWork_assign_of_none (p := { p with lanes := _ }) hd rfl rfl)
  | retire hq =>
    obtain ⟨hd, rfl⟩ := retire_cases hq
    exact .inl (atWork_assign_of_none hd rfl rfl)
  | fire hq =>
    obtain ⟨x, rest, -, rfl⟩ := fire_cases hq
    exact .inl rfl
  | @deliver r hq =>
    obtain ⟨m, task, -, hr⟩ := deliver_cases hq
    have hposted : Use (fun _ _ => True) p (p.postTo m task).2.1 := .postTo trivial
    refine .inl ((atWork_congr ?_ l).trans (hposted.atWork l))
    rw [hr]
  | dismiss hq =>
    rw [dismiss_eq hq]
    exact .inl rfl

/-- A worker has done a part of his task. -/
theorem progress_cases {w : Nat} {rest : Option α} (h : p.progress w rest = some q) :
    ∃ l a, p.duty? w = some (.running l a) ∧
      q = p.assign w (rest.elim (afterTask l) (.running l)) := by
  unfold Pool.progress at h
  split at h
  · next l a hd =>
    refine ⟨l, a, hd, ?_⟩
    cases rest <;> exact (Option.some.inj h).symm
  · cases h

/-- Whatever is being done of a lane is all that is being done of it. -/
theorem Orderly.atWork_eq (hp : p.Orderly) {l : Lane} {a : α} (ha : a ∈ p.atWork l) :
    p.atWork l = [a] := by
  have hone := hp.atWork_le_one l
  obtain ⟨before, after, heq⟩ := List.append_of_mem ha
  rw [heq] at hone ⊢
  obtain ⟨rfl, rfl⟩ := eq_nil_of_length_le_one hone
  rfl

theorem mem_atWork_of_duty? {w : Nat} {l : Lane} {a : α}
    (hd : p.duty? w = some (.running (some l) a)) : a ∈ p.atWork l := by
  obtain ⟨x, hx, hduty⟩ := Option.map_eq_some_iff.mp hd
  refine List.mem_filterMap.mpr ⟨x, List.mem_of_getElem? hx, ?_⟩
  rw [hduty, Duty.taskOn?_running_self]

/-- Whatever is being done of a lane, a worker is at it. -/
theorem exists_worker_of_atWork {l : Lane} {a : α} (ha : a ∈ p.atWork l) :
    ∃ w, p.duty? w = some (.running (some l) a) := by
  obtain ⟨x, hx, htask⟩ := List.mem_filterMap.mp ha
  obtain ⟨w, hw⟩ := List.mem_iff_getElem?.mp hx
  refine ⟨w, ?_⟩
  unfold duty?
  rw [hw, Option.map_some]
  unfold Duty.taskOn? at htask
  split at htask
  · next lane b hduty =>
    split at htask
    · next hl =>
      cases htask
      rw [hduty, hl]
    · cases htask
  · cases htask

/-- One worker at most is at a task of a lane. -/
theorem Orderly.worker_unique (hp : p.Orderly) {v w : Nat} {l : Lane} {a b : α}
    (hv : p.duty? v = some (.running (some l) a)) (hw : p.duty? w = some (.running (some l) b)) :
    v = w := by
  apply Classical.byContradiction
  intro hne
  obtain ⟨before, after, heq, hidle⟩ := atWork_assign hw .idle l
  have hone := hp.atWork_le_one l
  rw [heq, Duty.taskOn?_running_self] at hone
  obtain ⟨rfl, rfl⟩ := eq_nil_of_length_le_one hone
  -- whoever else was at the lane still is when this worker is at nothing
  have hsame : (p.assign w .idle).workers[v]? = p.workers[v]? :=
    List.getElem?_modify_ne _ _ (Ne.symm hne)
  have hmem : a ∈ (p.assign w .idle).atWork l := by
    refine mem_atWork_of_duty? (w := v) ?_
    unfold duty? at hv ⊢
    rw [hsame]
    exact hv
  rw [hidle] at hmem
  cases hmem

/-- The part of a lane's work that a worker does is all of it. -/
theorem Orderly.atWork_progress (hp : p.Orderly) {w : Nat} {l : Lane} {a : α} {rest : Option α}
    (hd : p.duty? w = some (.running (some l) a)) (hq : p.progress w rest = some q) :
    p.atWork l = [a] ∧ q.atWork l = rest.toList := by
  obtain ⟨m, b, hd', rfl⟩ := progress_cases hq
  cases hd.symm.trans hd'
  obtain ⟨before, after, hb, ha⟩ :=
    atWork_assign hd (rest.elim (afterTask (some l)) (.running (some l))) l
  have hone := hp.atWork_le_one l
  rw [hb, Duty.taskOn?_running_self] at hone
  obtain ⟨rfl, rfl⟩ := eq_nil_of_length_le_one hone
  rw [hb, ha, Duty.taskOn?_running_self]
  refine ⟨rfl, ?_⟩
  cases rest with
  | none => rfl
  | some b => rw [Option.elim_some, Duty.taskOn?_running_self]; rfl

theorem atWork_progress_of_ne {w : Nat} {m : Option Lane} {l : Lane} {a : α} {rest : Option α}
    (hml : m ≠ some l) (hd : p.duty? w = some (.running m a)) (hq : p.progress w rest = some q) :
    q.atWork l = p.atWork l := by
  obtain ⟨m', b, hd', rfl⟩ := progress_cases hq
  cases hd.symm.trans hd'
  apply atWork_assign_of_none hd (if_neg hml)
  cases rest with
  | none => cases m <;> rfl
  | some b => exact if_neg hml

/-- A worker who did a part of his task is at a fit rest of it, or done with it. -/
theorem Tended.progress {Task Fit : Lane → α → Prop} (hp : p.Tended Task Fit) {w : Nat} {l : Lane}
    {a : α} {rest : Option α} (hd : p.duty? w = some (.running (some l) a))
    (hrest : ∀ b ∈ rest, Fit l b) (hq : p.progress w rest = some q) : q.Tended Task Fit := by
  obtain ⟨m, b, hd', rfl⟩ := progress_cases hq
  cases hd.symm.trans hd'
  refine ⟨hp.waiting, hp.pending, hp.handing, hp.drains, Tended.running_assign hp.running hd ?_⟩
  cases rest with
  | none => trivial
  | some b => exact hrest b rfl

end ArcadeUplink.Pool
