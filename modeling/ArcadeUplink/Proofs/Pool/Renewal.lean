import ArcadeUplink.Proofs.Pool.Conservation

/-!
# Started anew

A pool that was started and stopped differs from a fresh one by its past: workers
that are gone, numbers of crews and of delayed tasks that were used up, and timers
that are closed until a start has opened them. `later` puts a past behind a pool.
Whatever happens to a pool happens to the pool with a past alike
(`after?_later`), and nothing of the past can be seen (`sights?_later`), but in
one case: a call that schedules a delayed task while the first start is still
going on (`Event.isEarly`). The timers of a fresh pool are open by then, those of
a stopped pool are not yet; and that can be seen (`sights?_later_ne`).
-/

namespace ArcadeUplink.Pool

variable {α : Type} {n : Nat} {p q : Pool α} {e : Event α} {ts : List (Moment α)}

/-- What a pool has behind it. -/
structure Past (α : Type) where
  /-- The workers of earlier crews. -/
  gone : List (Worker α) := []
  /-- How many crews there were. -/
  crews : Nat := 0
  /-- How many delayed tasks were scheduled. -/
  scheduled : Nat := 0

namespace Past

/-- Everybody of the past is gone. -/
def IsOver (past : Past α) : Prop := ∀ x ∈ past.gone, x.duty = .gone

def worker (past : Past α) (x : Worker α) : Worker α := { x with crew := x.crew + past.crews }

def job (past : Past α) (j : Nat × Job α) : Nat × Job α := (j.1 + past.crews, j.2)

def delayed (past : Past α) (x : Delayed α) : Delayed α :=
  { x with number := x.number + past.scheduled }

def control (past : Past α) : Control → Control
  | .leaving crew k => .leaving (crew + past.crews) k
  | c => c

/-- An event of a pool with a past: its workers come after those who are gone. -/
def event (past : Past α) : Event α → Event α
  | .advance self => .advance (self.map (· + past.gone.length))
  | .take w => .take (w + past.gone.length)
  | .next w => .next (w + past.gone.length)
  | .goOn w rest => .goOn (w + past.gone.length) rest
  | .finish w => .finish (w + past.gone.length)
  | .retire w => .retire (w + past.gone.length)
  | e => e

end Past

/-- Whether the timer thread is not there. -/
def TimerThread.isAbsent : TimerThread α → Bool
  | .absent => true
  | _ => false

/-- The same pool with a past. Its timers are closed while their thread is not there. -/
def later (p : Pool α) (past : Past α) : Pool α :=
  { p with
    jobs := p.jobs.map past.job
    workers := past.gone ++ p.workers.map past.worker
    door := p.door.map (· + past.crews)
    crews := p.crews + past.crews
    timers :=
      { pending := p.timers.pending.map past.delayed
        scheduled := p.timers.scheduled + past.scheduled
        closed := p.timers.closed || p.thread.isAbsent }
    control := past.control p.control }

variable {past : Past α}

/-! ## Workers and jobs -/

theorem modify_append_right {β : Type} (f : β → β) (xs ys : List β) (i : Nat) :
    (xs ++ ys).modify (i + xs.length) f = xs ++ ys.modify i f := by
  induction xs with
  | nil => rfl
  | cons x xs ih => exact congrArg (x :: ·) ih

theorem modify_map {β γ : Type} {f : β → γ} {g : β → β} {h : γ → γ}
    (hfg : ∀ b, h (f b) = f (g b)) (bs : List β) (i : Nat) :
    (bs.map f).modify i h = (bs.modify i g).map f := by
  induction bs generalizing i with
  | nil => cases i <;> rfl
  | cons b bs ih =>
    cases i with
    | zero => exact congrArg (· :: bs.map f) (hfg b)
    | succ i => exact congrArg (f b :: ·) (ih i)

theorem assign_later (p : Pool α) (past : Past α) (w : Nat) (d : Duty α) :
    (p.later past).assign (w + past.gone.length) d = (p.assign w d).later past := by
  unfold assign later
  dsimp only
  rw [modify_append_right,
    modify_map (f := past.worker) (g := fun x => { x with duty := d }) fun _ => rfl]

theorem getElem?_workers_later (p : Pool α) (past : Past α) (w : Nat) :
    (p.later past).workers[w + past.gone.length]? = p.workers[w]?.map past.worker := by
  unfold later
  dsimp only
  rw [List.getElem?_append_right (Nat.le_add_left _ _), Nat.add_sub_cancel, List.getElem?_map]

theorem duty?_later (p : Pool α) (past : Past α) (w : Nat) :
    (p.later past).duty? (w + past.gone.length) = p.duty? w := by
  unfold duty?
  rw [getElem?_workers_later, Option.map_map]
  rfl

theorem popJob_later (past : Past α) (crew : Nat) (jobs : List (Nat × Job α)) :
    popJob (crew + past.crews) (jobs.map past.job) =
      (popJob crew jobs).map fun r => (r.1, r.2.map past.job) := by
  induction jobs with
  | nil => rfl
  | cons j js ih =>
    rw [List.map_cons, popJob, popJob]
    change (if j.1 + past.crews = crew + past.crews then _ else _) = _
    by_cases hj : j.1 = crew
    · rw [if_pos hj, if_pos (congrArg (· + past.crews) hj)]
      rfl
    · rw [if_neg hj, if_neg (fun h => hj (Nat.add_right_cancel h)), ih, Option.map_map,
        Option.map_map]
      rfl

theorem take_later (p : Pool α) (past : Past α) (w : Nat) :
    (p.later past).take (w + past.gone.length) = (p.take w).map (·.later past) := by
  unfold Pool.take
  rw [getElem?_workers_later]
  cases hw : p.workers[w]? with
  | none => rfl
  | some x =>
    obtain ⟨crew, duty⟩ := x
    cases duty with
    | idle =>
      show (popJob (crew + past.crews) (p.jobs.map past.job)).map _ = _
      rw [popJob_later, Option.map_map, Option.map_map]
      congr 1
      funext r
      exact assign_later { p with jobs := r.2 } past w r.1.duty
    | _ => rfl

theorem next_later (p : Pool α) (past : Past α) (w : Nat) :
    (p.later past).next (w + past.gone.length) = (p.next w).map (·.later past) := by
  unfold Pool.next
  rw [duty?_later]
  cases hd : p.duty? w with
  | none => rfl
  | some d =>
    cases d with
    | draining l =>
      cases hwait : (p.lanes.get l).waiting with
      | nil =>
        dsimp only
        rw [show (p.later past).lanes = p.lanes from rfl, LaneQueue.pop_nil hwait]
        exact congrArg some (assign_later { p with lanes := _ } past w .idle)
      | cons task rest =>
        dsimp only
        rw [show (p.later past).lanes = p.lanes from rfl, LaneQueue.pop_cons hwait]
        exact congrArg some (assign_later { p with lanes := _ } past w (.running (some l) task))
    | _ => rfl

theorem progress_later (p : Pool α) (past : Past α) (w : Nat) (rest : Option α) :
    (p.later past).progress (w + past.gone.length) rest =
      (p.progress w rest).map (·.later past) := by
  unfold Pool.progress
  rw [duty?_later]
  cases hd : p.duty? w with
  | none => rfl
  | some d =>
    cases d with
    | running l task => exact congrArg some (assign_later ..)
    | _ => rfl

theorem map_add_eq_some {crews crew : Nat} {door : Option Nat} :
    door.map (· + crews) = some (crew + crews) ↔ door = some crew := by
  cases door with
  | none => exact ⟨nofun, nofun⟩
  | some c => simp only [Option.map_some, Option.some.injEq, Nat.add_right_cancel_iff]

theorem retire_later (p : Pool α) (past : Past α) (w : Nat) :
    (p.later past).retire (w + past.gone.length) = (p.retire w).map (·.later past) := by
  unfold Pool.retire
  rw [getElem?_workers_later]
  cases hw : p.workers[w]? with
  | none => rfl
  | some x =>
    obtain ⟨crew, duty⟩ := x
    cases duty with
    | idle =>
      have hstay : ((p.later past).door = some (crew + past.crews) ∨
          (popJob (crew + past.crews) (p.later past).jobs).isSome = true) ↔
          (p.door = some crew ∨ (popJob crew p.jobs).isSome = true) := by
        refine or_congr map_add_eq_some ?_
        show (popJob (crew + past.crews) (p.jobs.map past.job)).isSome = true ↔ _
        rw [popJob_later, Option.isSome_map]
      show (if _ then none else some _) = Option.map _ (if _ then none else some _)
      by_cases h : p.door = some crew ∨ (popJob crew p.jobs).isSome = true
      · rw [if_pos h, if_pos (hstay.mpr h)]
        rfl
      · rw [if_neg h, if_neg (mt hstay.mp h)]
        exact congrArg some (assign_later p past w .gone)
    | _ => rfl

/-! ## Submitting -/

theorem post_later (p : Pool α) (past : Past α) (task : α) :
    (p.later past).post task =
      ((p.post task).1, (p.post task).2.1.later past, (p.post task).2.2) := by
  unfold Pool.post
  cases hdoor : p.door with
  | none =>
    rw [show (p.later past).door = none from congrArg (Option.map _) hdoor]
  | some crew =>
    rw [show (p.later past).door = some (crew + past.crews) from congrArg (Option.map _) hdoor]
    unfold later
    dsimp only
    rw [List.map_append]
    rfl

theorem postTo_later (p : Pool α) (past : Past α) (l : Lane) (task : α) :
    (p.later past).postTo l task =
      ((p.postTo l task).1, (p.postTo l task).2.1.later past, (p.postTo l task).2.2) := by
  cases hdoor : p.door with
  | none =>
    rw [postTo_of_closed hdoor,
      postTo_of_closed (show (p.later past).door = none from congrArg (Option.map _) hdoor)]
  | some crew =>
    rw [postTo_of_door hdoor,
      postTo_of_door (show (p.later past).door = some (crew + past.crews) from
        congrArg (Option.map _) hdoor)]
    unfold later
    dsimp only
    rw [List.map_append]
    cases (p.lanes.get l).owned <;> rfl

/-- While the timer thread is not there, the timers are closed. -/
def Calm (p : Pool α) : Prop := p.thread = .absent → p.timers.closed = true

/-- Whether an event schedules a delayed task while the timers are open though their thread is not
there. Those of a pool with a past are closed then. -/
def Event.isEarly (p : Pool α) : Event α → Bool
  | .delay .. => !p.timers.closed && p.thread.isAbsent
  | _ => false

theorem calm_of_isEarly {now ms : Nat} {l : Lane} {task : α}
    (h : (Event.delay now ms l task).isEarly p = false) : p.Calm := by
  intro habsent
  unfold Event.isEarly at h
  dsimp only at h
  rw [habsent] at h
  exact (Bool.not_eq_false' ..).mp ((Bool.and_true _).symm.trans h)

theorem closed_of_calm (h : p.Calm) : (p.timers.closed || p.thread.isAbsent) = p.timers.closed := by
  cases hthread : p.thread with
  | absent => rw [h hthread]; rfl
  | _ => exact Bool.or_false _

theorem place_later (past : Past α) (x : Delayed α) (xs : List (Delayed α)) :
    TimerQueue.place (past.delayed x) (xs.map past.delayed) =
      (TimerQueue.place x xs).map past.delayed := by
  have hbefore : ∀ y, (past.delayed x).before (past.delayed y) = x.before y := by
    intro y
    unfold Delayed.before Past.delayed
    dsimp only
    rw [decide_eq_decide.mpr Nat.add_lt_add_iff_right]
  induction xs with
  | nil => rfl
  | cons y ys ih =>
    rw [List.map_cons, TimerQueue.place, TimerQueue.place, hbefore]
    split
    · rfl
    · exact congrArg (past.delayed y :: ·) ih

theorem delay_later (h : p.Calm) (past : Past α) (now ms : Nat) (l : Lane) (task : α) :
    (p.later past).delay now ms l task =
      ((p.delay now ms l task).1, (p.delay now ms l task).2.1.later past,
        (p.delay now ms l task).2.2) := by
  have hclosed : (p.later past).timers.closed = p.timers.closed := closed_of_calm h
  unfold Pool.delay TimerQueue.schedule?
  rw [hclosed]
  cases hc : p.timers.closed with
  | true => rfl
  | false =>
    rw [if_neg Bool.false_ne_true, if_neg Bool.false_ne_true]
    refine congrArg (fun q => (true, q, [])) ?_
    unfold later
    dsimp only
    rw [← place_later, Nat.add_right_comm p.timers.scheduled 1, ← hc, closed_of_calm h]
    rfl

/-! ## Starting and stopping -/

theorem beginStart_later (p : Pool α) (past : Past α) :
    (p.later past).beginStart = p.beginStart.map (·.later past) := by
  cases hc : p.control with
  | free =>
    have hc' : (p.later past).control = .free := congrArg past.control hc
    unfold Pool.beginStart
    rw [hc, hc']
    cases hdoor : p.door with
    | none =>
      rw [show (p.later past).door = none from congrArg (Option.map _) hdoor]
      refine congrArg some ?_
      unfold later
      dsimp only
      rw [List.map_append, List.map_replicate, Nat.add_right_comm p.crews 1, ← List.append_assoc]
      rfl
    | some crew =>
      rw [show (p.later past).door = some (crew + past.crews) from congrArg (Option.map _) hdoor]
      rfl
  | _ =>
    have hc' := congrArg past.control hc
    unfold Pool.beginStart
    rw [hc, show (p.later past).control = _ from hc']
    rfl

theorem beginStop_later (p : Pool α) (past : Past α) :
    (p.later past).beginStop = p.beginStop.map (·.later past) := by
  have hc' : (p.later past).control = past.control p.control := rfl
  unfold Pool.beginStop
  rw [hc']
  cases p.control with
  | free =>
    refine congrArg some ?_
    unfold later
    dsimp only
    rw [List.length_map]
    rfl
  | _ => rfl

theorem hasLeft_iff {crew : Nat} {self : Option Nat} :
    p.hasLeft crew self = true ↔ ∀ w x, p.workers[w]? = some x →
      x.crew = crew → some w ≠ self → x.duty = .gone := by
  unfold hasLeft
  rw [List.all_eq_true]
  constructor
  · intro h w x hx hcrew hself
    have hgone := h (x, w) (List.mem_zipIdx_iff_getElem?.mpr hx)
    cases hd : x.duty <;> simp [hcrew, hself, hd] at hgone ⊢
  · intro h x hx
    have hgone := h x.2 x.1 (List.mem_zipIdx_iff_getElem?.mp hx)
    by_cases hcrew : x.1.crew = crew
    · by_cases hself : some x.2 = self
      · simp [hself]
      · simp [hgone hcrew hself]
    · simp [hcrew]

theorem hasLeft_later (hover : past.IsOver) (p : Pool α) (crew : Nat) (self : Option Nat) :
    (p.later past).hasLeft (crew + past.crews) (self.map (· + past.gone.length)) =
      p.hasLeft crew self := by
  rw [Bool.eq_iff_iff, hasLeft_iff, hasLeft_iff]
  constructor
  · intro h w x hx hcrew hself
    refine h (w + past.gone.length) (past.worker x) ?_ (congrArg (· + past.crews) hcrew) ?_
    · rw [getElem?_workers_later, hx]
      rfl
    · exact fun heq => hself (map_add_eq_some.mp heq.symm).symm
  · intro h w x hx hcrew hself
    obtain hw | hw := Nat.lt_or_ge w past.gone.length
    · refine hover x (List.mem_of_getElem? (i := w) ?_)
      rwa [show (p.later past).workers = past.gone ++ _ from rfl, List.getElem?_append_left hw]
        at hx
    · obtain ⟨v, rfl⟩ := Nat.exists_eq_add_of_le' hw
      rw [getElem?_workers_later] at hx
      obtain ⟨y, hy, rfl⟩ := Option.map_eq_some_iff.mp hx
      exact h v y hy (Nat.add_right_cancel hcrew) fun heq =>
        hself (map_add_eq_some.mpr heq.symm).symm

theorem advanceControl_later (hover : past.IsOver) (p : Pool α) (self : Option Nat) :
    (p.later past).advanceControl (self.map (· + past.gone.length)) =
      (p.advanceControl self).map fun r => (r.1.later past, r.2) := by
  obtain ⟨size, lanes, jobs, workers, door, crews, timers, thread, control⟩ := p
  cases control with
  | free => rfl
  | starting => rfl
  | silencing k =>
    cases thread with
    | absent => cases door <;> rfl
    | _ => rfl
  | leaving crew k =>
    show (if (later _ past).hasLeft (crew + past.crews) _ = true then _ else _) =
      Option.map _ (if _ then _ else _)
    rw [hasLeft_later hover]
    split <;> rfl

/-! ## The timer thread -/

theorem fire_later (p : Pool α) (past : Past α) (now : Nat) :
    (p.later past).fire now = (p.fire now).map (·.later past) := by
  obtain ⟨size, lanes, jobs, workers, door, crews, ⟨pending, scheduled, closed⟩, thread, control⟩ :=
    p
  cases thread with
  | waiting =>
    cases pending with
    | nil => rfl
    | cons x rest =>
      show Option.map _
          (if (!(closed || false) && decide (x.deadline ≤ now)) = true then _ else _) =
        Option.map _ (Option.map _ (if _ then _ else _))
      rw [Bool.or_false]
      split <;> rfl
  | _ => rfl

theorem deliver_later (p : Pool α) (past : Past α) :
    (p.later past).deliver = p.deliver.map fun r => (r.1.later past, r.2) := by
  have hthread' : (p.later past).thread = p.thread := rfl
  unfold Pool.deliver
  rw [hthread']
  cases hthread : p.thread with
  | handing l task =>
    have hthere : (p.postTo l task).2.1.thread.isAbsent = false := by
      obtain hq | ⟨jobs, hq, -⟩ := postTo_cases p l task <;> rw [hq, hthread] <;> rfl
    dsimp only
    rw [postTo_later]
    refine congrArg (fun q => some (q, _)) ?_
    unfold later
    dsimp only
    rw [hthere]
    rfl
  | _ => rfl

theorem dismiss_later (p : Pool α) (past : Past α) :
    (p.later past).dismiss = p.dismiss.map (·.later past) := by
  obtain ⟨size, lanes, jobs, workers, door, crews, ⟨pending, scheduled, closed⟩, thread, control⟩ :=
    p
  cases thread with
  | waiting => cases closed <;> rfl
  | _ => rfl

/-! ## What happens to a pool with a past -/

/-- **Nothing turns on the past**: what an event does to a pool it does to the pool with a past. -/
theorem after?_later (hover : past.IsOver) (p : Pool α) (e : Event α)
    (he : e.isEarly p = false) :
    (p.later past).after? (past.event e) = (p.after? e).map (·.later past) := by
  cases e with
  | post task => exact congrArg (fun r => some r.2.1) (post_later p past task)
  | postTo l task => exact congrArg (fun r => some r.2.1) (postTo_later p past l task)
  | mayDelay l task => rfl
  | delay now ms l task =>
    exact congrArg (fun r => some r.2.1) (delay_later (calm_of_isEarly he) past now ms l task)
  | beginStart => exact beginStart_later p past
  | beginStop => exact beginStop_later p past
  | advance self =>
    refine (congrArg (Option.map _) (advanceControl_later hover p self)).trans ?_
    unfold Pool.after?
    rw [Option.map_map, Option.map_map]
    rfl
  | take w => exact take_later p past w
  | next w => exact next_later p past w
  | goOn w rest => exact progress_later p past w (some rest)
  | finish w => exact progress_later p past w none
  | retire w => exact retire_later p past w
  | fire now => exact fire_later p past now
  | deliver =>
    refine (congrArg (Option.map _) (deliver_later p past)).trans ?_
    unfold Pool.after?
    rw [Option.map_map, Option.map_map]
    rfl
  | dismiss => exact dismiss_later p past

theorem getElem?_workers_gone (hover : past.IsOver) (p : Pool α) {w : Nat}
    (hw : w < past.gone.length) : ∃ crew, (p.later past).workers[w]? = some ⟨crew, .gone⟩ := by
  refine ⟨past.gone[w].crew, ?_⟩
  rw [show (p.later past).workers = past.gone ++ _ from rfl, List.getElem?_append_left hw,
    List.getElem?_eq_getElem hw, ← hover past.gone[w] (List.getElem_mem hw)]

/-- Whoever is gone does nothing any more. -/
theorem after?_gone (hover : past.IsOver) (p : Pool α) {e : Event α} {w : Nat}
    (he : e.worker? = some w) (hw : w < past.gone.length) : (p.later past).after? e = none := by
  obtain ⟨crew, hgone⟩ := getElem?_workers_gone hover p hw
  have hd : (p.later past).duty? w = some .gone := by rw [duty?, hgone]; rfl
  cases e with
  | take v =>
    cases he
    unfold Pool.after? Pool.take
    dsimp only
    rw [hgone]
  | next v =>
    cases he
    unfold Pool.after? Pool.next
    dsimp only
    rw [hd]
  | goOn v rest =>
    cases he
    unfold Pool.after? Pool.progress
    dsimp only
    rw [hd]
  | finish v =>
    cases he
    unfold Pool.after? Pool.progress
    dsimp only
    rw [hd]
  | retire v =>
    cases he
    unfold Pool.after? Pool.retire
    dsimp only
    rw [hgone]
  | _ => cases he

/-- Every other event from outside is one of a pool without that past. -/
theorem exists_event (past : Past α) (hout : e.isFromOutside = true)
    (hworker : ∀ w, e.worker? = some w → past.gone.length ≤ w) : ∃ e', e = past.event e' := by
  have hback : ∀ w, e.worker? = some w → w - past.gone.length + past.gone.length = w :=
    fun w hw => Nat.sub_add_cancel (hworker w hw)
  cases e with
  | advance self =>
    cases self with
    | none => exact ⟨.advance none, rfl⟩
    | some w => cases hout
  | take w => exact ⟨.take (w - past.gone.length), congrArg _ (hback w rfl).symm⟩
  | next w => exact ⟨.next (w - past.gone.length), congrArg _ (hback w rfl).symm⟩
  | goOn w rest =>
    exact ⟨.goOn (w - past.gone.length) rest, congrArg (Event.goOn · rest) (hback w rfl).symm⟩
  | finish w => exact ⟨.finish (w - past.gone.length), congrArg _ (hback w rfl).symm⟩
  | retire w => exact ⟨.retire (w - past.gone.length), congrArg _ (hback w rfl).symm⟩
  | post task => exact ⟨.post task, rfl⟩
  | postTo l task => exact ⟨.postTo l task, rfl⟩
  | mayDelay l task => exact ⟨.mayDelay l task, rfl⟩
  | delay now ms l task => exact ⟨.delay now ms l task, rfl⟩
  | beginStart => exact ⟨.beginStart, rfl⟩
  | beginStop => exact ⟨.beginStop, rfl⟩
  | fire now => exact ⟨.fire now, rfl⟩
  | deliver => exact ⟨.deliver, rfl⟩
  | dismiss => exact ⟨.dismiss, rfl⟩

/-! ## What can be seen -/

/-- What can be seen of a pool when something happens: the answer to a call, what the pool says of
itself afterwards, and the task that is begun. -/
structure Sight (α : Type) where
  answer? : Option Bool
  running : Bool
  queued : Lane → Nat
  delayed : Nat
  begun? : Option Lane → Option α

def Moment.sight (t : Moment α) : Sight α where
  answer? := t.before.answer? t.event
  running := t.after.isRunning
  queued := t.after.queued
  delayed := t.after.pendingDelayed
  begun? lane := t.begun? lane

/-- What can be seen of a pool while some events happen one after another; none, if they cannot. -/
def sights? (p : Pool α) : List (Event α) → Option (List (Sight α))
  | [] => some []
  | e :: es => (p.after? e).bind fun q => (q.sights? es).map (Moment.sight ⟨p, e, q⟩ :: ·)

/-- Whether a delayed task is scheduled early while some events happen one after another. -/
def asksEarly (p : Pool α) : List (Event α) → Bool
  | [] => false
  | e :: es => e.isEarly p || (p.after? e).any (·.asksEarly es)

theorem answer?_later (p : Pool α) (past : Past α) (e : Event α)
    (he : e.isEarly p = false) :
    (p.later past).answer? (past.event e) = p.answer? e := by
  have hrunning : (p.later past).isRunning = p.isRunning := Option.isSome_map
  cases e with
  | post task => exact congrArg (fun r => some r.1) (post_later p past task)
  | postTo l task => exact congrArg (fun r => some r.1) (postTo_later p past l task)
  | mayDelay l task =>
    unfold Pool.answer? mayDelay Past.event
    dsimp only
    rw [hrunning]
  | delay now ms l task =>
    exact congrArg (fun r => some r.1) (delay_later (calm_of_isEarly he) past now ms l task)
  | _ => rfl

theorem begun?_later (p q : Pool α) (past : Past α) (e : Event α) (lane : Option Lane) :
    (Moment.mk (p.later past) (past.event e) (q.later past)).begun? lane =
      (Moment.mk p e q).begun? lane := by
  cases e with
  | take w => exact congrArg (Option.bind · _) (duty?_later q past w)
  | next w => exact congrArg (Option.bind · _) (duty?_later q past w)
  | _ => rfl

theorem sight_later (p q : Pool α) (past : Past α) (e : Event α)
    (he : e.isEarly p = false) :
    (Moment.mk (p.later past) (past.event e) (q.later past)).sight = (Moment.mk p e q).sight := by
  unfold Moment.sight
  congr 1
  · exact answer?_later p past e he
  · exact Option.isSome_map
  · exact List.length_map _
  · funext lane
    exact begun?_later p q past e lane

/-- **Nothing of the past can be seen**, whatever happens, unless a delayed task is scheduled
early. -/
theorem sights?_later (hover : past.IsOver) {es : List (Event α)} (hes : p.asksEarly es = false) :
    (p.later past).sights? (es.map past.event) = p.sights? es := by
  induction es generalizing p with
  | nil => rfl
  | cons e es ih =>
    obtain ⟨he, hrest⟩ := (Bool.or_eq_false_iff ..).mp hes
    rw [List.map_cons, sights?, sights?, after?_later hover p e he]
    cases hq : p.after? e with
    | none => rfl
    | some q =>
      rw [hq, Option.any_some] at hrest
      rw [Option.map_some, Option.bind_some, Option.bind_some, ih hrest,
        sight_later p q past e he]

/-- A delayed task that is scheduled early is accepted, and by a pool with a past it is not. -/
theorem answer?_of_isEarly (past : Past α) (he : e.isEarly p = true) :
    p.answer? e = some true ∧ (p.later past).answer? (past.event e) = some false := by
  cases e with
  | delay now ms l task =>
    obtain ⟨hopen, habsent⟩ := (Bool.and_eq_true _ _).mp he
    have hclosed : (p.later past).timers.closed = true := by
      show (p.timers.closed || p.thread.isAbsent) = true
      rw [habsent, Bool.or_true]
    refine ⟨congrArg some (delay_of_open ((Bool.not_eq_true' _).mp hopen)), ?_⟩
    show some ((p.later past).delay now ms l task).1 = some false
    rw [delay_of_closed hclosed]
  | _ => cases he

/-- **Only that can be seen**: of events that can happen to a pool, those with a delayed task that is
scheduled early are seen otherwise if there is a past. -/
theorem sights?_later_ne (hover : past.IsOver) {es : List (Event α)}
    (hhappen : (p.sights? es).isSome = true) (hes : p.asksEarly es = true) :
    (p.later past).sights? (es.map past.event) ≠ p.sights? es := by
  induction es generalizing p with
  | nil => cases hes
  | cons e es ih =>
    rw [sights?] at hhappen
    cases hq : p.after? e with
    | none =>
      rw [hq] at hhappen
      cases hhappen
    | some q =>
      rw [hq, Option.bind_some, Option.isSome_map] at hhappen
      rw [asksEarly, hq, Option.any_some] at hes
      rw [List.map_cons, sights?, sights?, hq, Option.bind_some]
      cases he : e.isEarly p with
      | true =>
        -- the answers differ
        obtain ⟨haccepted, hrefused⟩ := answer?_of_isEarly past he
        intro heq
        obtain ⟨sights, hsights⟩ := Option.isSome_iff_exists.mp hhappen
        rw [hsights, Option.map_some] at heq
        obtain ⟨q', -, hmap⟩ := Option.bind_eq_some_iff.mp heq
        obtain ⟨sights', -, hcons⟩ := Option.map_eq_some_iff.mp hmap
        have hanswer := congrArg Sight.answer? (List.cons.inj hcons).1
        cases hrefused.symm.trans (hanswer.trans haccepted)
      | false =>
        rw [he, Bool.false_or] at hes
        rw [after?_later hover p e he, hq, Option.map_some, Option.bind_some,
          sight_later p q past e he]
        intro heq
        exact ih hhappen hes (Option.map_injective (List.cons_injective) heq)

end ArcadeUplink.Pool
