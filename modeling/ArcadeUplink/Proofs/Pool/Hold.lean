import ArcadeUplink.Pool.Basic

/-!
# Who holds a lane

A lane is held by an order to drain it that still waits, or by a worker who is
bound to it. `Orderly` says that a lane has one holder exactly if it is owned,
and that no task waits in a lane that nobody owns. Every operation of a pool
keeps that, so the tasks of one lane never run side by side: `atWork_le_one`.

Nothing is said here of what the tasks are, nor of the order in which a lane
hands them out.
-/

namespace ArcadeUplink.Pool

variable {α : Type}

/-! ## Holders -/

/-- Whether a job is the order to drain a lane. -/
def Job.isDrain (l : Lane) : Job α → Bool
  | .drain m => m = l
  | .single _ => false

/-- Whether a duty binds to a lane: to look for its next task, or to finish one. -/
def Duty.isAt (l : Lane) : Duty α → Bool
  | .draining m => m = l
  | .running m _ => m = some l
  | _ => false

/-- The task of a lane that a duty is about. -/
def Duty.taskOn? (l : Lane) : Duty α → Option α
  | .running m task => if m = some l then some task else none
  | _ => none

/-- How many hold a lane. -/
def holders (p : Pool α) (l : Lane) : Nat :=
  p.jobs.countP (fun j => j.2.isDrain l) + p.workers.countP (fun w => w.duty.isAt l)

/-- The tasks of a lane that workers are at. -/
def atWork (p : Pool α) (l : Lane) : List α := p.workers.filterMap fun w => w.duty.taskOn? l

/-- A lane has one holder if it is owned and none otherwise, and a lane that is nobody's is
empty. -/
structure Orderly (p : Pool α) : Prop where
  holders_eq : ∀ l, p.holders l = if (p.lanes.get l).owned then 1 else 0
  stranded : ∀ l, (p.lanes.get l).owned = false → (p.lanes.get l).waiting = []

@[simp] theorem Duty.isAt_idle (l : Lane) : (idle : Duty α).isAt l = false := rfl

@[simp] theorem Duty.isAt_gone (l : Lane) : (gone : Duty α).isAt l = false := rfl

@[simp] theorem Duty.isAt_draining (l m : Lane) : (draining m : Duty α).isAt l = decide (m = l) :=
  rfl

@[simp] theorem Duty.isAt_running (l : Lane) (m : Option Lane) (task : α) :
    (running m task).isAt l = decide (m = some l) := rfl

theorem Duty.isAt_of_taskOn? {l : Lane} {d : Duty α} {a : α} (h : d.taskOn? l = some a) :
    d.isAt l = true := by
  cases d with
  | running m task =>
    by_cases hm : m = some l
    · rw [isAt_running, hm]
      exact decide_eq_true rfl
    · rw [taskOn?, if_neg hm] at h
      cases h
  | _ => cases h

theorem length_filterMap_taskOn?_le (l : Lane) (ws : List (Worker α)) :
    (ws.filterMap fun w => w.duty.taskOn? l).length ≤ ws.countP fun w => w.duty.isAt l := by
  induction ws with
  | nil => exact Nat.le_refl _
  | cons w ws ih =>
    rw [List.filterMap_cons, List.countP_cons]
    cases ht : w.duty.taskOn? l with
    | none => exact Nat.le_trans ih (Nat.le_add_right _ _)
    | some a =>
      simp only [List.length_cons, Duty.isAt_of_taskOn? ht, if_true]
      omega

/-- **One task at a time**: at most one task of a lane is being run. -/
theorem Orderly.atWork_le_one {p : Pool α} (h : p.Orderly) (l : Lane) :
    (p.atWork l).length ≤ 1 := by
  have hle := length_filterMap_taskOn?_le l p.workers
  have heq := h.holders_eq l
  unfold holders at heq
  unfold atWork
  split at heq <;> omega

/-! ## A worker's duty -/

theorem duty?_of_worker {p : Pool α} {w : Nat} {x : Worker α} (h : p.workers[w]? = some x) :
    p.duty? w = some x.duty := by
  rw [duty?, h]
  rfl

/-- A worker who turns to another duty, in the row of all workers. -/
theorem exists_of_duty? {p : Pool α} {w : Nat} {d : Duty α} (h : p.duty? w = some d) :
    ∃ before x after, p.workers = before ++ x :: after ∧ x.duty = d ∧
      ∀ d', (p.assign w d').workers = before ++ { x with duty := d' } :: after := by
  obtain ⟨x, hx, hd⟩ := Option.map_eq_some_iff.mp h
  obtain ⟨hw, rfl⟩ := List.getElem?_eq_some_iff.mp hx
  refine ⟨p.workers.take w, p.workers[w], p.workers.drop (w + 1), ?_, hd, ?_⟩
  · rw [← List.drop_eq_getElem_cons hw, List.take_append_drop]
  · intro d'
    exact List.modify_eq_take_cons_drop hw

@[simp] theorem assign_jobs (p : Pool α) (w : Nat) (d : Duty α) :
    (p.assign w d).jobs = p.jobs := rfl

@[simp] theorem assign_lanes (p : Pool α) (w : Nat) (d : Duty α) :
    (p.assign w d).lanes = p.lanes := rfl

/-- Another duty moves a holder only where one of the two duties binds to the lane. -/
theorem holders_assign {p : Pool α} {w : Nat} {d : Duty α} (h : p.duty? w = some d) (d' : Duty α)
    (l : Lane) :
    (p.assign w d').holders l + (if d.isAt l then 1 else 0) =
      p.holders l + (if d'.isAt l then 1 else 0) := by
  obtain ⟨before, x, after, hws, rfl, hws'⟩ := exists_of_duty? h
  simp only [holders, assign_jobs, hws, hws', List.countP_append, List.countP_cons]
  omega

theorem holders_assign_of_isAt {p : Pool α} {w : Nat} {d d' : Duty α} (h : p.duty? w = some d)
    {l : Lane} (hd : d'.isAt l = d.isAt l) : (p.assign w d').holders l = p.holders l := by
  have := holders_assign h d' l
  rw [hd] at this
  omega

theorem Orderly.of_holders {p q : Pool α} (h : p.Orderly) (hl : q.lanes = p.lanes)
    (hh : ∀ l, q.holders l = p.holders l) : q.Orderly where
  holders_eq l := by rw [hh, hl, h.holders_eq]
  stranded l := by rw [hl]; exact h.stranded l

theorem holders_congr {p q : Pool α} (hj : q.jobs = p.jobs) (hw : q.workers = p.workers)
    (l : Lane) : q.holders l = p.holders l := by
  simp only [holders, hj, hw]

/-! ## Submitting -/

theorem PerLane.get_set {β : Type} (p : PerLane β) (l m : Lane) (b : β) :
    (p.set l b).get m = if m = l then b else p.get m := by
  split
  · next e => rw [e, get_set_self]
  · next e => exact get_set_of_ne _ _ e

theorem holders_append_drain {p q : Pool α} {crew : Nat} {l : Lane}
    (hj : q.jobs = p.jobs ++ [(crew, .drain l)]) (hw : q.workers = p.workers) (m : Lane) :
    q.holders m = p.holders m + if m = l then 1 else 0 := by
  simp only [holders, hj, hw, List.countP_append, List.countP_singleton, Job.isDrain,
    decide_eq_true_eq, eq_comm (a := m)]
  omega

/-- What a submission to a lane does: nothing if the door is closed, or else the task waits, and
the lane is to be drained if nobody was bound to it. -/
theorem postTo_cases (p : Pool α) (l : Lane) (task : α) :
    (p.postTo l task).2.1 = p ∨ ∃ jobs,
      (p.postTo l task).2.1 = { p with lanes := p.lanes.set l ((p.lanes.get l).push task), jobs } ∧
        ((p.lanes.get l).owned = true ∧ jobs = p.jobs ∨
          (p.lanes.get l).owned = false ∧ ∃ crew, jobs = p.jobs ++ [(crew, .drain l)]) := by
  unfold Pool.postTo
  split
  · next crew _ =>
    dsimp only
    split
    · next ho => exact .inr ⟨p.jobs, rfl, .inl ⟨ho, rfl⟩⟩
    · next ho => exact .inr ⟨_, rfl, .inr ⟨Bool.eq_false_iff.mpr ho, crew, rfl⟩⟩
  · exact .inl rfl

/-- A submission to a lane keeps order: it orders a lane to be drained only if nobody holds it. -/
theorem Orderly.postTo {p : Pool α} (h : p.Orderly) (l : Lane) (task : α) :
    (p.postTo l task).2.1.Orderly := by
  obtain hq | ⟨jobs, hq, hjobs⟩ := postTo_cases p l task
  · rw [hq]
    exact h
  · have hget : ∀ m, (p.postTo l task).2.1.lanes.get m =
        if m = l then (p.lanes.get l).push task else p.lanes.get m := by
      intro m
      rw [hq]
      exact PerLane.get_set ..
    have hw : (p.postTo l task).2.1.workers = p.workers := by rw [hq]
    have hj : (p.postTo l task).2.1.jobs = jobs := by rw [hq]
    constructor
    · intro m
      have hm := h.holders_eq m
      rw [hget]
      obtain ⟨ho, rfl⟩ | ⟨ho, crew, rfl⟩ := hjobs
      · rw [holders_congr hj hw, hm]
        by_cases e : m = l
        · rw [if_pos e, e, ho]; rfl
        · rw [if_neg e]
      · rw [holders_append_drain hj hw, hm]
        by_cases e : m = l
        · rw [if_pos e, if_pos e, e, ho]; rfl
        · rw [if_neg e, if_neg e, Nat.add_zero]
    · intro m
      rw [hget]
      by_cases e : m = l
      · rw [if_pos e]
        intro ho
        exact Bool.noConfusion ho
      · rw [if_neg e]
        exact h.stranded m

/-! ## Workers -/

theorem popJob_perm {crew : Nat} {jobs : List (Nat × Job α)} {r : Job α × List (Nat × Job α)}
    (h : popJob crew jobs = some r) : ∃ c, jobs.Perm ((c, r.1) :: r.2) := by
  induction jobs generalizing r with
  | nil => cases h
  | cons j js ih =>
    unfold popJob at h
    split at h
    · cases h
      exact ⟨j.1, .refl _⟩
    · obtain ⟨r', hr', rfl⟩ := Option.map_eq_some_iff.mp h
      obtain ⟨c, hperm⟩ := ih hr'
      exact ⟨c, (hperm.cons j).trans (.swap ..)⟩

/-- An idle worker takes a job, and the others stay. -/
theorem take_cases {p q : Pool α} {w : Nat} (h : p.take w = some q) :
    p.duty? w = some .idle ∧ ∃ c j jobs, p.jobs.Perm ((c, j) :: jobs) ∧
      q = { p with jobs }.assign w j.duty := by
  unfold Pool.take at h
  split at h
  · next crew hw =>
    obtain ⟨r, hr, rfl⟩ := Option.map_eq_some_iff.mp h
    obtain ⟨c, hperm⟩ := popJob_perm hr
    exact ⟨by simp only [duty?, hw, Option.map_some], c, r.1, r.2, hperm, rfl⟩
  · cases h

/-- Whoever takes a job holds what the job held. -/
theorem Job.isAt_duty (j : Job α) (l : Lane) : j.duty.isAt l = j.isDrain l := by
  cases j <;> simp [Job.duty, Job.isDrain]

theorem Orderly.take {p q : Pool α} (h : p.Orderly) {w : Nat} (hq : p.take w = some q) :
    q.Orderly := by
  obtain ⟨hduty, c, j, jobs, hperm, rfl⟩ := take_cases hq
  refine h.of_holders rfl ?_
  intro l
  have h₁ := holders_assign (p := { p with jobs }) hduty j.duty l
  have h₂ := hperm.countP_eq fun k => k.2.isDrain l
  simp only [Job.isAt_duty, Duty.isAt_idle, Bool.false_eq_true, if_false, holders,
    assign_jobs, List.countP_cons] at h₁ h₂ ⊢
  omega

theorem LaneQueue.pop_nil {q : LaneQueue α} (h : q.waiting = []) :
    q.pop = (none, { q with owned := false }) := by
  unfold pop
  rw [h]

theorem LaneQueue.pop_cons {q : LaneQueue α} {task : α} {rest : List α}
    (h : q.waiting = task :: rest) : q.pop = (some task, { q with waiting := rest }) := by
  unfold pop
  rw [h]

/-- A worker who drains a lane takes a task of it, or finds it empty and lets go of it. -/
theorem next_cases {p q : Pool α} {w : Nat} (h : p.next w = some q) :
    ∃ l, p.duty? w = some (.draining l) ∧
      ((∃ task rest, (p.lanes.get l).waiting = task :: rest ∧
          q = { p with lanes := p.lanes.set l { p.lanes.get l with waiting := rest } }.assign w
            (.running (some l) task)) ∨
        ((p.lanes.get l).waiting = [] ∧
          q = { p with lanes := p.lanes.set l { p.lanes.get l with owned := false } }.assign w
            .idle)) := by
  unfold Pool.next at h
  split at h
  · next l hduty =>
    refine ⟨l, hduty, ?_⟩
    by_cases hwait : (p.lanes.get l).waiting = []
    · rw [LaneQueue.pop_nil hwait] at h
      exact .inr ⟨hwait, (Option.some.inj h).symm⟩
    · obtain ⟨task, rest, hwait⟩ := List.exists_cons_of_ne_nil hwait
      rw [LaneQueue.pop_cons hwait] at h
      exact .inl ⟨task, rest, hwait, (Option.some.inj h).symm⟩
  · cases h

/-- Taking a task keeps the hold on its lane; a worker who lets go of a lane was its only
holder. -/
theorem Orderly.next {p q : Pool α} (h : p.Orderly) {w : Nat} (hq : p.next w = some q) :
    q.Orderly := by
  obtain ⟨l, hduty, ⟨task, rest, hwait, rfl⟩ | ⟨hwait, rfl⟩⟩ := next_cases hq
  · let p' : Pool α := { p with lanes := p.lanes.set l { p.lanes.get l with waiting := rest } }
    have howned : ∀ m, (p'.lanes.get m).owned = (p.lanes.get m).owned := by
      intro m
      rw [PerLane.get_set]
      split
      · next e => rw [e]
      · rfl
    constructor
    · intro m
      rw [assign_lanes, howned, ← h.holders_eq]
      exact holders_assign_of_isAt (p := p') hduty (by simp)
    · intro m ho
      rw [assign_lanes, howned] at ho
      rw [assign_lanes, PerLane.get_set]
      split
      · next e =>
        rw [e] at ho
        rw [h.stranded l ho] at hwait
        cases hwait
      · exact h.stranded m ho
  · let p' : Pool α := { p with lanes := p.lanes.set l { p.lanes.get l with owned := false } }
    constructor
    · intro m
      have h₁ := holders_assign (p := p') hduty .idle m
      have h₂ := h.holders_eq m
      rw [holders_congr (p := p) (q := p') rfl rfl] at h₁
      simp only [Duty.isAt_draining, decide_eq_true_eq, Duty.isAt_idle, Bool.false_eq_true,
        if_false, Nat.add_zero] at h₁
      show (p'.assign w .idle).holders m = _
      rw [assign_lanes, PerLane.get_set]
      split
      · next e =>
        rw [if_pos e.symm] at h₁
        simp only [Bool.false_eq_true, if_false]
        split at h₂ <;> omega
      · next e =>
        rw [if_neg (Ne.symm e)] at h₁
        rw [← h₂]
        exact h₁
    · intro m
      rw [assign_lanes, PerLane.get_set]
      split
      · intro _
        exact hwait
      · exact h.stranded m

theorem Duty.isAt_afterTask (l : Option Lane) (task : α) (m : Lane) :
    (afterTask l : Duty α).isAt m = (running l task).isAt m := by
  cases l <;> simp [afterTask]

theorem Orderly.progress {p q : Pool α} (h : p.Orderly) {w : Nat} {rest : Option α}
    (hq : p.progress w rest = some q) : q.Orderly := by
  unfold Pool.progress at hq
  split at hq
  · next l task hduty =>
    cases hq
    refine h.of_holders rfl fun m => holders_assign_of_isAt hduty ?_
    cases rest with
    | none => exact Duty.isAt_afterTask l task m
    | some task' => rfl
  · cases hq

theorem retire_cases {p q : Pool α} {w : Nat} (h : p.retire w = some q) :
    p.duty? w = some .idle ∧ q = p.assign w .gone := by
  unfold Pool.retire at h
  split at h
  · next crew hw =>
    split at h
    · cases h
    · exact ⟨by simp only [duty?, hw, Option.map_some], (Option.some.inj h).symm⟩
  · cases h

theorem Orderly.retire {p q : Pool α} (h : p.Orderly) {w : Nat} (hq : p.retire w = some q) :
    q.Orderly := by
  obtain ⟨hduty, rfl⟩ := retire_cases hq
  exact h.of_holders rfl fun m => holders_assign_of_isAt hduty rfl

/-! ## Starting and stopping -/

theorem Orderly.beginStart {p q : Pool α} (h : p.Orderly) (hq : p.beginStart = some q) :
    q.Orderly := by
  unfold Pool.beginStart at hq
  split at hq
  · cases hq
    refine h.of_holders rfl ?_
    intro l
    simp only [holders, List.countP_append, List.countP_replicate, Duty.isAt_idle,
      Bool.false_eq_true, if_false, Nat.add_zero]
  · cases hq
    exact h
  · cases hq

theorem Orderly.of_same {p q : Pool α} (h : p.Orderly) (hl : q.lanes = p.lanes)
    (hj : q.jobs = p.jobs) (hw : q.workers = p.workers) : q.Orderly :=
  h.of_holders hl (holders_congr hj hw)

end ArcadeUplink.Pool
