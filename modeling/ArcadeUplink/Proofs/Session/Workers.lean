import ArcadeUplink.Proofs.Pool.Lifecycle
import ArcadeUplink.Proofs.Session.Steps

/-!
# The pool of a run

Whatever happens to the pool in a run is a history of it: a turn is what the
activity does to the pool, and then, if it is a worker's, that he goes on or is
done; any other step is one event or none (`Run.recorded`). So the laws of all
histories hold of the engine's pool: when its workers are gone it is at rest, and
so it is when it has stopped and no stop was asked for from within.

Two things have to be seen to. A worker asks for a stop only in the callback of a
request (`fromWithin`); a run without such a step has a history from outside. And
whoever schedules a heartbeat has found the pool running before, since nothing
else leads to that point.
-/

namespace ArcadeUplink

open Pool (Lane)

namespace Pool

variable {α : Type} {n : Nat} {p q : Pool α} {us : List (Moment α)} {l : Lane}

theorem Event.Timely.append {v : Event α} (h : v.Timely us) (ws : List (Moment α)) :
    v.Timely (us ++ ws) := by
  cases v with
  | delay now ms l task =>
    obtain ⟨t, ht, hasked⟩ := h
    exact ⟨t, List.mem_append_left _ ht, hasked⟩
  | _ => trivial

/-- That a worker goes on with what remains of his task, or is done. -/
def Event.onwards (w : Nat) : Option α → Event α
  | some rest => .goOn w rest
  | none => .finish w

theorem History.onwards (h : History n us p) {w : Nat} {rest : Option α}
    (hq : p.progress w rest = some q) : History n (us ++ [⟨p, .onwards w rest, q⟩]) q := by
  cases rest with
  | some b => exact h.step trivial hq
  | none => exact h.step trivial hq

/-- Whether an event is a part of a start or a stop. -/
def Event.isControl : Event α → Bool
  | .beginStart | .beginStop | .advance _ => true
  | _ => false

/-- Only starts and stops change how far they are. -/
theorem Change.control_eq {e : Event α} (h : Change p e q) (he : e.isControl = false) :
    q.control = p.control := by
  cases h with
  | opened | wasOpen | silenced | started | closed | wasClosed | stopped => cases he
  | _ => rfl

/-- At rest nobody stands in any line. -/
theorem AtRest.line_eq (h : p.AtRest) (l : Lane) : p.line l = [] := by
  unfold Pool.line
  rw [h.waiting_eq, List.append_nil]
  refine List.filterMap_eq_nil_iff.mpr fun x hx => ?_
  rw [h.workers x hx]
  rfl

/-- While anybody stands in a line, a worker is at the lane, or the order to drain it is there. -/
theorem Orderly.exists_holder (h : p.Orderly) (hline : p.line l ≠ []) :
    (∃ x ∈ p.workers, x.duty.isAt l = true) ∨ ∃ j ∈ p.jobs, j.2.isDrain l = true := by
  by_cases howned : (p.lanes.get l).owned = true
  · have hone := h.holders_eq l
    rw [if_pos howned, holders] at hone
    by_cases hjobs : p.jobs.countP (fun j => j.2.isDrain l) = 0
    · exact .inl (List.countP_pos_iff.mp (by omega))
    · exact .inr (List.countP_pos_iff.mp (Nat.pos_of_ne_zero hjobs))
  · obtain ⟨a, ha⟩ := List.exists_mem_of_ne_nil _ hline
    rw [line, h.stranded l (Bool.eq_false_iff.mpr howned), List.append_nil] at ha
    obtain ⟨x, hx, htask⟩ := List.mem_filterMap.mp ha
    exact .inl ⟨x, hx, Duty.isAt_of_taskOn? htask⟩

/-- **While anybody stands in a line a worker has something to do**: he is at something, or there is
a job for him to take. -/
theorem Staffed.exists_busy (hs : p.Staffed n) (h : p.Orderly) (hline : p.line l ≠ []) :
    ∃ (w : Nat) (x : Worker α), p.workers[w]? = some x ∧ x.duty ≠ .gone ∧
      (x.duty = .idle → (popJob x.crew p.jobs).isSome = true) := by
  obtain ⟨x, hx, hat⟩ | ⟨j, hj, -⟩ := h.exists_holder hline
  · obtain ⟨w, hw⟩ := List.mem_iff_getElem?.mp hx
    refine ⟨w, x, hw, ?_, ?_⟩
    · intro hgone
      rw [hgone] at hat
      cases hat
    · intro hidle
      rw [hidle] at hat
      cases hat
  · obtain ⟨x, hx, hcrew⟩ := List.mem_map.mp (hs.hired j.1 (hs.accepted j hj))
    obtain ⟨w, hw⟩ := List.mem_iff_getElem?.mp hx
    refine ⟨w, x, hw, fun hgone => (hs.gone x hx hgone).2 j hj hcrew.symm, fun _ => ?_⟩
    refine Option.isSome_iff_ne_none.mpr fun hnone => ?_
    exact popJob_eq_none hnone j hj hcrew.symm

theorem Event.onwards_isFromOutside (w : Nat) (rest : Option α) :
    (Event.onwards w rest).isFromOutside = true := by
  cases rest <;> rfl

end Pool

namespace Machine

variable {σ α ρ ω : Type} {P : Program σ α ρ ω} {m m' : Machine σ α} {move : Move α ρ}
  {events : List ω}

/-- Nobody's turn is at most one event of the pool. -/
theorem pool_idle (h : m.step P move = some (m', events))
    (hu : Transition.turn? ⟨m, move, m'⟩ = none) :
    m'.pool = m.pool ∨ ∃ v, m.pool.after? v = some m'.pool ∧ v.isFromOutside = true ∧
      v.isControl = false ∧ ∀ us, v.Timely us := by
  have chore {v : Pool.Event α} {q : Option (Pool α)}
      (hq : q.map (m.withPool ·, ([] : List ω)) = some (m', events)) (hv : m.pool.after? v = q)
      (hout : v.isFromOutside = true) (hchore : v.isControl = false)
      (htimely : ∀ us, v.Timely us) :
      m'.pool = m.pool ∨ ∃ v, m.pool.after? v = some m'.pool ∧ v.isFromOutside = true ∧
        v.isControl = false ∧ ∀ us, v.Timely us := by
    obtain ⟨r, hr, heq⟩ := Option.map_eq_some_iff.mp hq
    cases heq
    exact .inr ⟨v, hv.trans hr, hout, hchore, htimely⟩
  cases move with
  | call a =>
    cases h
    exact .inl rfl
  | caller i reply =>
    obtain ⟨a, ha, -⟩ := Option.bind_eq_some_iff.mp h
    cases (Option.map_eq_none_iff.mp hu).symm.trans ha
  | worker w reply =>
    unfold Transition.turn? at hu
    unfold step at h
    dsimp only at hu h
    split at hu
    · cases hu
    · next hd =>
      split at h
      · next l a hd' => exact absurd hd' (hd l a)
      · cases h
  | take w => exact chore (v := .take w) h rfl rfl rfl fun _ => trivial
  | next w => exact chore (v := .next w) h rfl rfl rfl fun _ => trivial
  | retire w => exact chore (v := .retire w) h rfl rfl rfl fun _ => trivial
  | fire => exact chore (v := .fire m.now) h rfl rfl rfl fun _ => trivial
  | deliver =>
    obtain ⟨r, hr, heq⟩ := Option.map_eq_some_iff.mp h
    cases heq
    refine .inr ⟨.deliver, ?_, rfl, rfl, fun _ => trivial⟩
    exact (congrArg (Option.map (·.1)) hr).trans rfl
  | dismiss => exact chore (v := .dismiss) h rfl rfl rfl fun _ => trivial
  | wait ms =>
    cases h
    exact .inl rfl

/-- A turn outside of all lanes is a caller's. -/
theorem act_of_caller {u : Turn α ρ} (h : m.step P move = some (m', events))
    (hu : Transition.turn? ⟨m, move, m'⟩ = some u) (hcaller : u.lane = none)
    (hworkers : ∀ w a, m.pool.duty? w ≠ some (.running none a)) :
    ∃ e, P.act m.now none m.world m.pool u.activity u.reply = some e ∧ m'.pool = e.pool := by
  cases move with
  | caller i reply =>
    obtain ⟨a, ha, rfl⟩ := Option.map_eq_some_iff.mp hu
    obtain ⟨b, hb, hact⟩ := Option.bind_eq_some_iff.mp h
    cases ha.symm.trans hb
    obtain ⟨e, he, heq⟩ := Option.map_eq_some_iff.mp hact
    cases heq
    exact ⟨e, he, rfl⟩
  | worker w reply =>
    unfold Transition.turn? at hu
    dsimp only at hu
    split at hu
    · next l a hd =>
      cases hu
      cases hcaller
      exact absurd hd (hworkers w a)
    · cases hu
  | _ => cases hu

end Machine

namespace Engine

variable {now : Nat} {self : Option Nat} {e : Engine} {p q : Workers} {a : Activity}
  {n : Nat} {us : List (Pool.Moment Activity)} {m m' : System}

/-- What an activity does to the pool in its turn, as a history. -/
def errands (now : Nat) (self : Option Nat) (e : Engine) (p : Workers) (a : Activity)
    (q : Workers) : List (Pool.Moment Activity) :=
  (errand? now self e a).toList.map (⟨p, ·, q⟩)

/-- Somebody was let schedule the next heartbeat. -/
def Asked (us : List (Pool.Moment Activity)) : Prop :=
  ∃ u ∈ us, u.event = .mayDelay .heartbeat (.requestBeat true) ∧ u.before.isRunning = true

theorem Asked.append (h : Asked us) (vs : List (Pool.Moment Activity)) : Asked (us ++ vs) := by
  obtain ⟨u, hu, hasked⟩ := h
  exact ⟨u, List.mem_append_left _ hu, hasked⟩

theorem errand_timely {v : Pool.Event Activity} (h : errand? now self e a = some v)
    (ha : a = .enqueueTimer → Asked us) : v.Timely us := by
  unfold errand? at h
  split at h
  all_goals cases h
  all_goals first | exact ha rfl | exact trivial

/-- Only starts and stops tell workers from callers. -/
theorem errand_isFromOutside {v : Pool.Event Activity} (h : errand? now self e a = some v)
    (hself : self = none ∨ a.isLife = false) : v.isFromOutside = true := by
  unfold errand? at h
  split at h
  all_goals cases h
  case h_2 | h_4 =>
    obtain rfl | hlife := hself
    · rfl
    · cases hlife
  all_goals rfl

/-- Whoever comes to schedule the next heartbeat has been let. -/
theorem Behaves.asked {reply : Option Reply} {r : Result} (h : Behaves now self e p a reply r)
    (hrest : r.rest = some .enqueueTimer) (now' : Nat) (self' : Option Nat) (q : Workers) :
    Asked (errands now' self' e p a q) := by
  cases h.origin _ hrest with
  | setTimer hmay =>
    refine ⟨⟨p, .mayDelay .heartbeat (.requestBeat true), q⟩, List.mem_singleton_self _, rfl, ?_⟩
    unfold Pool.mayDelay at hmay
    split at hmay
    · assumption
    · cases hmay

/-- What an activity does to the pool goes on with a history of the pool. -/
theorem Behaves.history {reply : Option Reply} {r : Result} (h : Behaves now self e p a reply r)
    (hp : Pool.History n us p) (ha : a = .enqueueTimer → Asked us) :
    Pool.History n (us ++ errands now self e p a r.pool) r.pool := by
  have hpool := h.pool
  unfold errands
  cases hv : errand? now self e a with
  | none =>
    rw [hv] at hpool
    rw [Option.toList_none, List.map_nil, List.append_nil, hpool]
    exact hp
  | some v =>
    rw [hv] at hpool
    exact hp.step (errand_timely hv ha) hpool

/-- Whether it is a worker who stops the pool in a step, or goes on with that. -/
def fromWithin (t : Transition) : Bool :=
  t.turn?.any fun u => u.lane.isSome && u.activity.isLife

/-- A history of the pool in a run. -/
structure Recorded (n : Nat) (ts : List Transition) (us : List (Pool.Moment Activity))
    (m : System) : Prop where
  history : Pool.History n us m.pool
  /-- The history comes from outside, as long as no worker stops the pool. -/
  outside : (∀ t ∈ ts, fromWithin t = false) → ∀ u ∈ us, u.event.isFromOutside = true
  /-- Whoever schedules the next heartbeat was let. -/
  asked : m.Tended (fun l a => a.isTask l = true) fun _ a => a = .enqueueTimer → Asked us

theorem Recorded.start (s : Setup) (start : Nat) :
    Recorded s.settings.workers [] [] (system s start) where
  history := .fresh
  outside _ _ hu := absurd hu List.not_mem_nil
  asked := ⟨fun _ ha => absurd ha List.not_mem_nil, .ofSize _⟩

theorem outside_errands (hself : self = none ∨ a.isLife = false) :
    ∀ u ∈ errands now self e p a q, u.event.isFromOutside = true := by
  intro u hu
  obtain ⟨v, hv, rfl⟩ := List.mem_map.mp hu
  exact errand_isFromOutside (Option.mem_toList.mp hv) hself

/-- The history goes on by what comes from outside, unless a worker stops the pool. -/
theorem Recorded.outside_append {ts : List Transition} {t : Transition}
    {vs : List (Pool.Moment Activity)} (h : Recorded n ts us m)
    (hvs : fromWithin t = false → ∀ v ∈ vs, v.event.isFromOutside = true)
    (hts : ∀ v ∈ ts ++ [t], fromWithin v = false) :
    ∀ u ∈ us ++ vs, u.event.isFromOutside = true := by
  obtain ⟨hpre, ht⟩ := List.forall_mem_append.mp hts
  exact List.forall_mem_append.mpr
    ⟨h.outside hpre, hvs (ht t (List.mem_singleton_self t))⟩

/-- What waits in a lane is no part of anything that is begun. -/
theorem not_enqueueTimer_of_isTask {l : Lane} (h : a.isTask l = true) : a ≠ .enqueueTimer := by
  rintro rfl
  cases h

/-- **Every step goes on with the history.** -/
theorem Recorded.step {ts : List Transition} {move : Machine.Move Activity Reply}
    {events : List EngineEvent} (h : Recorded n ts us m) (hm : Placed m)
    (hopen : move.isOpen Activity.isHostCall = true)
    (hstep : m.step program move = some (m', events)) :
    ∃ vs, Recorded n (ts ++ [⟨m, move, m'⟩]) (us ++ vs) m' := by
  -- the condition on all activities, once it is known what is done to the pool in the turn
  have asked {vs : List (Pool.Moment Activity)} (hvs : ∀ u,
      Machine.Transition.turn? ⟨m, move, m'⟩ = some u → ∃ now self q ws,
        vs = errands now self m.world m.pool u.activity q ++ ws) :
      m'.Tended (fun l a => a.isTask l = true) fun _ a => a = .enqueueTimer → Asked (us ++ vs) := by
    refine h.asked.step hopen hstep (fun _ _ ha => ha)
      (fun _ _ ha henqueue => (ha henqueue).append _)
      (fun _ _ ha henqueue => absurd henqueue (not_enqueueTimer_of_isTask ha)) ?_ ?_
    · rintro a ha rfl
      cases ha
    · intro u self r hu _ hr
      refine ⟨(act_behaves hr).use fun l task htask => (errand_submits htask).1, ?_⟩
      rintro b hb rfl
      obtain ⟨now', self', q, ws, rfl⟩ := hvs u hu
      obtain ⟨x, hx, hasked⟩ := (act_behaves hr).asked hb now' self' q
      exact ⟨x, List.mem_append_right _ (List.mem_append_left _ hx), hasked⟩
  cases hu : Machine.Transition.turn? ⟨m, move, m'⟩ with
  | none =>
    have idle (vs : List (Pool.Moment Activity)) : m'.Tended (fun l a => a.isTask l = true)
        fun _ a => a = .enqueueTimer → Asked (us ++ vs) :=
      asked fun u hu' => by cases hu.symm.trans hu'
    obtain hsame | ⟨v, hv, hout, -, htimely⟩ := Machine.pool_idle hstep hu
    · refine ⟨[], ?_, h.outside_append fun _ => List.forall_mem_nil _, idle []⟩
      rw [List.append_nil, hsame]
      exact h.history
    · refine ⟨[⟨m.pool, v, m'.pool⟩], h.history.step (htimely us) hv, ?_, idle _⟩
      exact h.outside_append fun _ => List.forall_mem_singleton.mpr hout
  | some u =>
    have ha := Machine.Tended.fit_of_turn h.asked hu
    obtain ⟨self, r, hr, -, -, ⟨hlane, hq, -⟩ | ⟨-, w, hd, hq⟩⟩ := Machine.step_turn hstep hu
    · obtain ⟨r', hr', hq'⟩ := Machine.act_of_caller hstep hu hlane fun w a hd => by
        obtain ⟨l, hl, -⟩ := hm.pool.of_duty? hd
        cases hl
      refine ⟨errands m.now none m.world m.pool u.activity r'.pool, ?_, ?_, asked fun v hv => ?_⟩
      · rw [hq']
        exact (act_behaves hr').history h.history ha
      · exact h.outside_append fun _ => outside_errands (.inl rfl)
      · cases hu.symm.trans hv
        exact ⟨_, _, _, [], (List.append_nil _).symm⟩
    · obtain ⟨l, hl, -⟩ := hm.pool.of_duty? hd
      refine ⟨errands m.now self m.world m.pool u.activity r.pool ++
        [⟨r.pool, .onwards w r.rest, m'.pool⟩], ?_, ?_, asked fun v hv => ?_⟩
      · rw [← List.append_assoc]
        exact ((act_behaves hr).history h.history ha).onwards hq
      · refine h.outside_append fun hwithin => List.forall_mem_append.mpr
          ⟨outside_errands (.inr ?_), ?_⟩
        · unfold fromWithin at hwithin
          rw [hu, Option.any_some, hl, Option.isSome_some, Bool.true_and] at hwithin
          exact hwithin
        · exact List.forall_mem_singleton.mpr (Pool.Event.onwards_isFromOutside w r.rest)
      · cases hu.symm.trans hv
        exact ⟨_, _, _, _, rfl⟩

/-- **The pool of every run has a history.** -/
theorem Run.recorded {s : Setup} {start : Nat} {ts : List Transition} (h : Run s start ts m) :
    ∃ us, Recorded s.settings.workers ts us m := by
  induction h with
  | start => exact ⟨[], .start s start⟩
  | step hts hopen hstep ih =>
    obtain ⟨us, hus⟩ := ih
    obtain ⟨vs, hvs⟩ := hus.step (Run.placed hts) hopen hstep
    exact ⟨us ++ vs, hvs⟩

/-- **When the workers of a run are gone its pool is at rest.** -/
theorem Run.atRest_of_gone {s : Setup} {start : Nat} {ts : List Transition} (h : Run s start ts m)
    (hgone : ∀ x ∈ m.pool.workers, x.duty = .gone) : m.pool.AtRest := by
  obtain ⟨us, hus⟩ := h.recorded
  exact (hus.history.atRest_of_gone hgone).2

/-- **When the pool of a run has stopped it is at rest**, unless a worker has stopped it. -/
theorem Run.atRest {s : Setup} {start : Nat} {ts : List Transition} (h : Run s start ts m)
    (hts : ∀ t ∈ ts, fromWithin t = false) (hstopped : m.pool.isStopped) : m.pool.AtRest := by
  obtain ⟨us, hus⟩ := h.recorded
  exact hus.history.atRest (hus.outside hts) hstopped

/-- A stop that is completed by what an activity does leaves the pool stopped. -/
theorem Behaves.stopped {reply : Option Reply} {r : Result} (h : Behaves now self e p a reply r)
    (hp : p.Governed) (hstop : p.control.isStop = true) (hfree : r.pool.control = .free) :
    r.pool.isStopped := by
  have hpool := h.pool
  cases hv : errand? now self e a with
  | none =>
    rw [hv] at hpool
    rw [hpool] at hfree
    rw [hfree] at hstop
    cases hstop
  | some v =>
    rw [hv] at hpool
    have hreturn : (Pool.Moment.mk p v r.pool).isReturn = true :=
      Bool.and_eq_true_iff.mpr ⟨hstop, decide_eq_true hfree⟩
    exact ((Pool.change_of_after? hpool).stopped_of_return hp hreturn).1

/-- **A stop that is completed leaves the pool stopped.** -/
theorem Run.stopped_of_return {s : Setup} {start : Nat} {pre post : List Transition}
    {t : Transition} (h : Run s start (pre ++ t :: post) m)
    (hstop : t.before.pool.control.isStop = true) (hfree : t.after.pool.control = .free) :
    t.after.pool.isStopped := by
  obtain ⟨hpre, events, hstep⟩ := h.before
  obtain ⟨us, hus⟩ := hpre.recorded
  have hgoverned := hus.history.governed.1
  cases hu : t.turn? with
  | some u =>
    obtain ⟨self, r, hr, -, -, ⟨-, hq, -⟩ | ⟨-, w, -, hq⟩⟩ := Machine.step_turn hstep hu
    · rw [hq] at hfree ⊢
      exact (act_behaves hr).stopped hgoverned hstop hfree
    · obtain ⟨l, b, -, heq⟩ := Pool.progress_cases hq
      rw [heq] at hfree ⊢
      exact (act_behaves hr).stopped hgoverned hstop hfree
  | none =>
    obtain hsame | ⟨v, hv, -⟩ := Machine.pool_idle hstep hu
    · rw [← hsame, hfree] at hstop
      cases hstop
    · have hreturn : (Pool.Moment.mk t.before.pool v t.after.pool).isReturn = true :=
        Bool.and_eq_true_iff.mpr ⟨hstop, decide_eq_true hfree⟩
      exact ((Pool.change_of_after? hv).stopped_of_return hgoverned hreturn).1

end Engine

end ArcadeUplink
