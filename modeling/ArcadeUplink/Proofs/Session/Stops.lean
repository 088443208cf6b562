import ArcadeUplink.Proofs.Session.Workers

/-!
# Starts and stops

One start or one stop goes on at a time, and whoever asked for it is the only one
who goes on with it: a call of the host, or a worker in the callback of a request
(`Run.steered`). So a call to shut down that returns has stopped the pool
(`Run.stopped_of_shutDown`), from wherever it was made.
-/

namespace ArcadeUplink

open Pool (Lane Control)

namespace Activity

/-- With what an activity goes on, if it is a start or a stop: whether it is a stop. -/
def steers? : Activity → Option Bool
  | .starting => some false
  | .stopping _ => some true
  | _ => none

/-- Whether an activity begins to start the pool. -/
def isStartUp : Activity → Bool
  | .startUp => true
  | _ => false

/-- Whether an activity begins to stop the pool. -/
def isShutDown : Activity → Bool
  | .shutDown _ => true
  | _ => false

end Activity

namespace Machine

variable {σ α ρ ω : Type} {P : Program σ α ρ ω} {m : Machine σ α} {w crew : Nat}

/-- A worker takes a job if there is one for him. -/
theorem step_take_isSome (hw : m.pool.workers[w]? = some ⟨crew, .idle⟩)
    (hjob : (Pool.popJob crew m.pool.jobs).isSome = true) : (m.step P (.take w)).isSome = true := by
  show (Option.map _ (m.pool.take w)).isSome = true
  unfold Pool.take
  rw [hw, Option.isSome_map, Option.isSome_map]
  exact hjob

/-- A worker who is at a lane looks for its next task. -/
theorem step_next_isSome {l : Lane} (hd : m.pool.duty? w = some (.draining l)) :
    (m.step P (.next w)).isSome = true := by
  show (Option.map _ (m.pool.next w)).isSome = true
  unfold Pool.next
  rw [hd, Option.isSome_map]
  dsimp only
  split <;> rfl

/-- A worker leaves if the door is closed and there is no job for him. -/
theorem step_retire_isSome (hw : m.pool.workers[w]? = some ⟨crew, .idle⟩) (hdoor : m.pool.door = none)
    (hjob : (Pool.popJob crew m.pool.jobs).isSome = false) :
    (m.step P (.retire w)).isSome = true := by
  show (Option.map _ (m.pool.retire w)).isSome = true
  unfold Pool.retire
  rw [hw, Option.isSome_map]
  dsimp only
  rw [if_neg]
  · rfl
  · rw [hdoor, hjob]
    exact nofun

/-- A timer thread that is there can go on, once the timers are closed. -/
theorem exists_step_of_thread (hthread : m.pool.thread ≠ .absent)
    (hclosed : m.pool.timers.closed = true) :
    (m.step P .deliver).isSome = true ∨ (m.step P .dismiss).isSome = true := by
  cases ht : m.pool.thread with
  | absent => exact absurd ht hthread
  | waiting =>
    right
    show (Option.map _ m.pool.dismiss).isSome = true
    unfold Pool.dismiss
    rw [ht, Option.isSome_map]
    dsimp only
    rw [if_pos hclosed]
    rfl
  | handing l task =>
    left
    show (Option.map _ m.pool.deliver).isSome = true
    unfold Pool.deliver
    rw [ht, Option.isSome_map]
    rfl

end Machine

namespace Engine

/-- The moves of workers. -/
inductive IsWorkers : Machine.Move Activity Reply → Prop
  | take {w : Nat} : IsWorkers (.take w)
  | next {w : Nat} : IsWorkers (.next w)
  | goesOn {w : Nat} {reply : Option Reply} : IsWorkers (.worker w reply)

/-- What the workers and the timer thread do when a stop waits for them. -/
inductive IsChore : Machine.Move Activity Reply → Prop
  | retire {w : Nat} : IsChore (.retire w)
  | deliver : IsChore .deliver
  | dismiss : IsChore .dismiss

/-- The start or the stop that somebody is to go on with. -/
def helm : Control → List Bool
  | .free => []
  | .starting => [false]
  | .silencing _ | .leaving .. => [true]

/-- Whoever goes on with a start or a stop, outside or in the main lane, does so with the one that is
going on, and nobody else does. -/
def Steered (m : System) : Prop :=
  (m.callers ++ m.pool.atWork .main).filterMap Activity.steers? = helm m.pool.control

section Turn

variable {now : Nat} {self : Option Nat} {e : Engine} {p : Workers} {a b : Activity}
  {reply : Option Reply} {r : Result} {c : Control} {before after : List Activity}

theorem isStop_of_mem_helm (h : true ∈ helm c) : c.isStop = true := by
  cases c with
  | free | starting => simp [helm] at h
  | silencing | leaving => rfl

theorem starting_of_helm (h : helm c = [false]) : c = .starting := by
  cases c <;> first | rfl | cases h

/-- A start or a stop is all that an activity does that is one. -/
theorem act_of_life (ha : a.isLife = true) :
    program.act now self e p a none = e.lifeStep self p a := by
  have hor : e.step now self p a = (e.lifeStep self p a).or none := by
    cases a <;> first | rfl | cases ha
  have hact : program.act now self e p a none = e.step now self p a := by
    cases a <;> rfl
  rw [hact, hor, Option.or_none]

theorem lifeStep_of_act (h : program.act now self e p a reply = some r) (ha : a.isLife = true) :
    e.lifeStep self p a = some r := by
  obtain ⟨call, c, reply', rfl, -⟩ | ⟨-, hstep⟩ := act_cases h
  · cases ha
  · have hact : program.act now self e p a none = e.step now self p a := by
      cases a <;> rfl
    rw [← act_of_life ha, hact]
    exact hstep

/-- What remains of a start or a stop goes on with what is going on then. -/
theorem helm_of_life (h : e.lifeStep self p a = some r)
    (hp : a = .starting → p.control = .starting) :
    (r.rest.bind Activity.steers?).toList = helm r.pool.control := by
  unfold lifeStep at h
  split at h
  · obtain ⟨q, hq, rfl⟩ := Option.map_eq_some_iff.mp h
    have hchange : Pool.Change p .beginStart q := Pool.change_of_after? hq
    cases hchange with
    | opened => rfl
    | wasOpen hfree =>
      rw [if_pos hfree]
      exact (congrArg helm hfree).symm
  · split at h
    · next q log hq =>
      cases h
      have hchange : Pool.Change p (.advance self) q := Pool.change_advance hq
      cases hchange with
      | started => rfl
      | closed hc | wasClosed hc | stopped hc => cases hc.symm.trans (hp rfl)
    · cases h
  · obtain ⟨q, hq, rfl⟩ := Option.map_eq_some_iff.mp h
    have hchange : Pool.Change p .beginStop q := Pool.change_of_after? hq
    cases hchange with
    | silenced => rfl
  · obtain ⟨⟨q, log⟩, hq, rfl⟩ := Option.map_eq_some_iff.mp h
    have hchange : Pool.Change p (.advance self) q := Pool.change_advance hq
    cases hchange with
    | started | closed | wasClosed | stopped => rfl
  · cases h

/-- Nobody else starts or stops the pool. -/
theorem control_of_not_life (h : Behaves now self e p a reply r) (ha : a.isLife = false) :
    r.pool.control = p.control := by
  refine h.keeps (motive := (·.control = p.control)) rfl fun v q hv hafter => ?_
  refine (Pool.change_of_after? hafter).control_eq ?_
  unfold errand? at hv
  split at hv
  all_goals cases hv
  all_goals first | rfl | cases ha

theorem Origin.steers (h : Origin e p a reply b) (ha : a.isLife = false) : b.steers? = none := by
  cases h with
  | started | shutDown | stopping => cases ha
  | _ => rfl

theorem steers_of_not_life (ha : a.isLife = false) : a.steers? = none := by
  cases a <;> first | rfl | cases ha

theorem steers_of_isTask {l : Lane} (ha : a.isTask l = true) : a.steers? = none :=
  steers_of_not_life (not_life_of_isTask ha)

/-- A start or a stop is begun only when none is going on. -/
theorem free_of_life (h : e.lifeStep self p a = some r) :
    (a.steers?).isSome = true ∨ p.control = .free := by
  unfold lifeStep at h
  split at h
  · obtain ⟨q, hq, -⟩ := Option.map_eq_some_iff.mp h
    have hchange : Pool.Change p .beginStart q := Pool.change_of_after? hq
    cases hchange with
    | opened hfree | wasOpen hfree => exact .inr hfree
  · exact .inl rfl
  · obtain ⟨q, hq, -⟩ := Option.map_eq_some_iff.mp h
    have hchange : Pool.Change p .beginStop q := Pool.change_of_after? hq
    cases hchange with
    | silenced hfree => exact .inr hfree
  · exact .inl rfl
  · cases h

/-- Whoever neither starts nor stops the pool can always go on, if his call fails when he waits for
its reply. -/
theorem exists_act (now : Nat) (self : Option Nat) (e : Engine) (p : Workers)
    (ha : a.isLife = false) : ∃ reply r, program.act now self e p a reply = some r := by
  cases a with
  | startUp | starting | shutDown | stopping => cases ha
  | waiting call c => exact ⟨some .panic, _, rfl⟩
  | submitDownloads places =>
    cases places <;> exact ⟨none, _, rfl⟩
  | submit uploads histories =>
    cases uploads <;> cases histories <;> exact ⟨none, _, rfl⟩
  | _ => exact ⟨none, _, rfl⟩

theorem length_helm_le (c : Control) : (helm c).length ≤ 1 := by
  cases c <;> first | exact Nat.zero_le _ | exact Nat.le_refl _

/-- Whoever goes on with a start or a stop is the only one, and when none is going on nobody
does. -/
theorem alone_of_helm (h : before.filterMap Activity.steers? ++ ((a.steers?).toList ++
      after.filterMap Activity.steers?) = helm c) (ha : (a.steers?).isSome = true ∨ c = .free) :
    before.filterMap Activity.steers? = [] ∧ after.filterMap Activity.steers? = [] := by
  have hlength := congrArg List.length h
  rw [List.length_append, List.length_append] at hlength
  have hle := length_helm_le c
  obtain ha | rfl := ha
  · obtain ⟨b, hb⟩ := Option.isSome_iff_exists.mp ha
    rw [hb, Option.toList_some, List.length_singleton] at hlength
    exact ⟨List.eq_nil_of_length_eq_zero (by omega), List.eq_nil_of_length_eq_zero (by omega)⟩
  · have hzero : (helm .free).length = 0 := rfl
    exact ⟨List.eq_nil_of_length_eq_zero (by omega), List.eq_nil_of_length_eq_zero (by omega)⟩

/-- **A turn** leaves the reins with whoever is to go on. -/
theorem helm_turn (h : program.act now self e p a reply = some r)
    (hp : (before ++ a :: after).filterMap Activity.steers? = helm p.control) :
    (before ++ (r.rest.toList ++ after)).filterMap Activity.steers? = helm r.pool.control := by
  rw [List.filterMap_append, Pool.filterMap_cons_eq] at hp
  rw [List.filterMap_append, List.filterMap_append, Pool.filterMap_toList]
  cases ha : a.isLife with
  | true =>
    have hlife := lifeStep_of_act h ha
    obtain ⟨hbefore, hafter⟩ := alone_of_helm hp (free_of_life hlife)
    rw [hbefore, hafter, List.append_nil, List.nil_append]
    refine helm_of_life hlife ?_
    rintro rfl
    rw [hbefore, hafter] at hp
    exact starting_of_helm hp.symm
  | false =>
    have hbehaves := act_behaves h
    have hrest : (r.rest.bind Activity.steers?) = none := by
      cases hb : r.rest with
      | none => rfl
      | some b => exact (hbehaves.origin b hb).steers ha
    rw [steers_of_not_life ha] at hp
    rw [hrest, control_of_not_life hbehaves ha]
    exact hp

end Turn

section Run

variable {s : Setup} {start : Nat} {ts pre post : List Transition} {t : Transition}
  {m : System} {lane : Option Lane} {a : Activity} {reply : Option Reply}

/-- Whose turn it is, if it may be a start or a stop: he stands among those who can go on with one,
and what remains of his activity takes his place. -/
theorem Took.among {w : Option Nat} {r : Result} (h : Took t lane a reply w r)
    (hlane : lane = none ∨ lane = some .main) :
    ∃ before after, t.before.callers ++ t.before.pool.atWork .main = before ++ a :: after ∧
      t.after.callers ++ t.after.pool.atWork .main = before ++ (r.rest.toList ++ after) := by
  obtain rfl | rfl := hlane
  · obtain ⟨-, before, after, hbefore, hafter⟩ | ⟨hne, -⟩ := h.callers
    · refine ⟨before, after ++ t.before.pool.atWork .main, ?_, ?_⟩
      · rw [hbefore, List.append_assoc, List.cons_append]
      · rw [hafter, h.others .main nofun, List.append_assoc, List.append_assoc]
    · exact absurd rfl hne
  · obtain ⟨hno, -⟩ | ⟨-, hcallers⟩ := h.callers
    · cases hno
    · obtain ⟨hwork, hwork'⟩ := h.work .main rfl
      exact ⟨t.before.callers, [], by rw [hwork], by rw [hcallers, hwork', List.append_nil]⟩

/-- In a step that is nobody's turn no start or stop goes on, and none is taken up. -/
theorem Run.steers_idle (h : Run s start (ts ++ [t]) m) (hu : t.turn? = none) :
    (t.after.callers ++ t.after.pool.atWork .main).filterMap Activity.steers? =
        (t.before.callers ++ t.before.pool.atWork .main).filterMap Activity.steers? ∧
      t.after.pool.control = t.before.pool.control := by
  obtain ⟨hpre : Run s start ts t.before, -, hopen, events, hstep⟩ := Machine.Course.of_concat h
  rw [List.filterMap_append, List.filterMap_append]
  refine ⟨congrArg₂ (· ++ ·) ?callers ?main, ?control⟩
  case callers =>
    obtain ⟨-, ⟨a, hmove, hcallers, -⟩ | ⟨hcallers, -⟩⟩ := Machine.step_idle hstep hu
    · have ha : a.steers? = none := by
        rw [hmove] at hopen
        cases a <;> first | rfl | cases hopen
      rw [hcallers, Pool.filterMap_concat, ha, Option.toList_none, List.append_nil]
    · rw [hcallers]
  case main =>
    obtain ⟨v, -, -, hv, -⟩ | ⟨-, hsame | ⟨-, hempty, task, htask, hwork⟩⟩ :=
      Machine.lane_step act_uses hpre.orderly hstep .main
    · cases hu.symm.trans hv
    · rw [hsame]
    · have hnone := steers_of_isTask (hpre.placed.pool.waiting .main task htask).1
      rw [hwork, hempty]
      exact List.filterMap_cons_none hnone
  case control =>
    obtain hsame | ⟨v, hv, -, hchore, -⟩ := Machine.pool_idle hstep hu
    · rw [hsame]
    · exact (Pool.change_of_after? hv).control_eq hchore

/-- **One start or stop goes on at a time**, and whoever asked for it goes on with it. -/
theorem Run.steered (h : Run s start ts m) : Steered m := by
  refine h.turn_induction (motive := fun _ m => Steered m) rfl ?_ ?_
  · intro ts t lane a reply self r hrun hu hact htook ih
    unfold Steered at ih ⊢
    rw [htook.control]
    by_cases hlane : lane = none ∨ lane = some .main
    · obtain ⟨before, after, hbefore, hafter⟩ := htook.among hlane
      rw [hafter]
      exact helm_turn hact (hbefore ▸ ih)
    · obtain ⟨hnone, hmain⟩ := not_or.mp hlane
      have hlife : a.isLife = false :=
        Bool.eq_false_iff.mpr fun ha => hlane (place_of_life ha htook.place)
      obtain ⟨hnone', -⟩ | ⟨-, hcallers⟩ := htook.callers
      · exact absurd hnone' hnone
      · rw [hcallers, htook.others .main hmain, control_of_not_life htook.behaves hlife]
        exact ih
  · intro ts t hrun hu ih
    obtain ⟨hsteers, hcontrol⟩ := hrun.steers_idle hu
    unfold Steered at ih ⊢
    rw [hsteers, hcontrol]
    exact ih

/-- A worker goes on with his task if it can. -/
theorem step_worker_isSome {w : Nat} {r : Result}
    (hd : m.pool.duty? w = some (.running lane a))
    (hact : program.act m.now (some w) m.world m.pool a reply = some r) :
    (m.step program (.worker w reply)).isSome = true := by
  have hprogress : ∃ q, r.pool.progress w r.rest = some q := by
    unfold Pool.progress
    rw [(act_uses hact).duty? hd]
    exact ⟨_, rfl⟩
  obtain ⟨q, hq⟩ := hprogress
  unfold Machine.step
  dsimp only
  rw [hd]
  dsimp only
  rw [hact, Option.bind_some, hq]
  rfl

/-- A stop that a callback asks for begins as soon as no other one is going on. -/
theorem shutDown_stirs (ha : a ∈ m.pool.atWork .main)
    (hdown : a.isShutDown = true) (hfree : m.pool.control = .free) :
    ∃ move, (IsWorkers move ∨ IsChore move) ∧ (m.step program move).isSome = true := by
  obtain ⟨w, hd⟩ := Pool.exists_worker_of_atWork ha
  cases a with
  | shutDown failing =>
    have hbegin : m.pool.beginStop ≠ none := by
      unfold Pool.beginStop
      rw [hfree]
      exact nofun
    obtain ⟨q, hq⟩ := Option.ne_none_iff_exists'.mp hbegin
    have hact : program.act m.now (some w) m.world m.pool (.shutDown failing) none =
        m.world.lifeStep (some w) m.pool (.shutDown failing) := act_of_life rfl
    unfold lifeStep at hact
    dsimp only at hact
    rw [hq] at hact
    exact ⟨_, .inl .goesOn, step_worker_isSome hd hact⟩
  | _ => cases hdown

/-- **A worker who has something to do can do it**, if he gets the reply that he may be waiting for,
and unless he is at a start or a stop. -/
theorem Run.goes_on (h : Run s start ts m) {w : Nat} {x : Pool.Worker Activity}
    (hx : m.pool.workers[w]? = some x) (hstays : x.duty ≠ .gone)
    (hjob : x.duty = .idle → (Pool.popJob x.crew m.pool.jobs).isSome = true)
    (hlife : ∀ a, x.duty = .running (some .main) a → a.isLife = false) :
    ∃ move, IsWorkers move ∧ (m.step program move).isSome = true := by
  obtain ⟨crew, duty⟩ := x
  have hd : m.pool.duty? w = some duty := Pool.duty?_of_worker hx
  cases duty with
  | gone => exact absurd rfl hstays
  | idle => exact ⟨.take w, .take, Machine.step_take_isSome hx (hjob rfl)⟩
  | draining k => exact ⟨.next w, .next, Machine.step_next_isSome hd⟩
  | running lane a =>
    obtain ⟨k, rfl, hplace, -⟩ := h.placed.pool.of_duty? hd
    have ha : a.isLife = false := by
      refine Bool.eq_false_iff.mpr fun ha => ?_
      obtain hnone | hk := place_of_life ha hplace
      · cases hnone
      · cases hk
        exact Bool.eq_false_iff.mp (hlife a rfl) ha
    obtain ⟨reply, r, hact⟩ := exists_act m.now (some w) m.world m.pool ha
    exact ⟨.worker w reply, .goesOn, step_worker_isSome hd hact⟩

/-- Whoever keeps a stop waiting, other than the one who asked for it, can go on. -/
theorem Run.stirs_of_stay (h : Run s start ts m) {v w : Nat} {failing : Bool} {x : Pool.Worker Activity}
    (hd : m.pool.duty? w = some (.running (some .main) (.stopping failing)))
    (hdoor : m.pool.door = none) (hx : m.pool.workers[v]? = some x) (hne : v ≠ w)
    (hstays : x.duty ≠ .gone) :
    ∃ move, (IsWorkers move ∨ IsChore move) ∧ (m.step program move).isSome = true := by
  by_cases hleaves : x.duty = .idle ∧ (Pool.popJob x.crew m.pool.jobs).isSome = false
  · obtain ⟨crew, duty⟩ := x
    obtain ⟨rfl, hjob⟩ := hleaves
    exact ⟨.retire v, .inr .retire, Machine.step_retire_isSome hx hdoor hjob⟩
  · obtain ⟨move, hmove, hstep⟩ := h.goes_on hx hstays
      (fun hidle => (Bool.not_eq_false _).mp fun hjob => hleaves ⟨hidle, hjob⟩)
      (fun a ha => absurd (h.orderly.worker_unique (ha ▸ Pool.duty?_of_worker hx) hd) hne)
    exact ⟨move, .inl hmove, hstep⟩

/-- Whoever has stopped the pool goes on as soon as the pool can. -/
theorem step_stopping_isSome {w : Nat} {failing : Bool} {r : Workers × List Log.Entry}
    (hd : m.pool.duty? w = some (.running lane (.stopping failing)))
    (hr : m.pool.advanceControl (some w) = some r) :
    (m.step program (.worker w none)).isSome = true := by
  have hact : program.act m.now (some w) m.world m.pool (.stopping failing) none =
      m.world.lifeStep (some w) m.pool (.stopping failing) := act_of_life rfl
  unfold lifeStep at hact
  dsimp only at hact
  rw [hr] at hact
  exact step_worker_isSome hd hact

/-- Whoever is about to go on with a stop has begun it. -/
theorem Run.isStop_of_stopping (h : Run s start ts m) {failing : Bool}
    (ha : .stopping failing ∈ m.pool.atWork .main) : m.pool.control.isStop = true := by
  have hsteered : Steered m := h.steered
  unfold Steered at hsteered
  exact isStop_of_mem_helm
    (hsteered ▸ List.mem_filterMap.mpr ⟨_, List.mem_append_right _ ha, rfl⟩)

/-- **A stop that a callback asks for is never stuck** once it has begun: it goes on, or somebody whom
it waits for can. -/
theorem Run.stopping_stirs (h : Run s start ts m) (ha : a ∈ m.pool.atWork .main)
    (hlife : a.isLife = true) (hdown : a.isShutDown = false) :
    ∃ move, (IsWorkers move ∨ IsChore move) ∧ (m.step program move).isSome = true := by
  obtain ⟨w, hd⟩ := Pool.exists_worker_of_atWork ha
  obtain ⟨l, hl, hplace, -⟩ := h.placed.pool.of_duty? hd
  cases hl
  cases a with
  | stopping failing =>
    obtain ⟨us, hus⟩ := h.recorded
    have hgoverned := hus.history.governed.1
    have hstop := h.isStop_of_stopping ha
    cases hc : m.pool.control with
    | free | starting => rw [hc] at hstop; cases hstop
    | silencing n =>
      -- it waits for the timer thread
      by_cases hthread : m.pool.thread = .absent
      · obtain ⟨r, hr⟩ := Pool.exists_advance_of_silencing hc hthread (some w)
        exact ⟨_, .inl .goesOn, step_stopping_isSome hd hr⟩
      · obtain hstep | hstep :=
          Machine.exists_step_of_thread (P := program) hthread (hgoverned.stopping hstop).1
        · exact ⟨_, .inr .deliver, hstep⟩
        · exact ⟨_, .inr .dismiss, hstep⟩
    | leaving crew n =>
      -- it waits for the other workers
      by_cases hleft : m.pool.hasLeft crew (some w) = true
      · have hr : m.pool.advanceControl (some w) =
            some ({ m.pool with control := .free }, [Pool.stopNote n]) := by
          unfold Pool.advanceControl
          rw [hc]
          exact if_pos hleft
        exact ⟨_, .inl .goesOn, step_stopping_isSome hd hr⟩
      · obtain ⟨v, x, hx, hne, hstays⟩ := Pool.exists_stay_of_not_hasLeft hleft
        exact h.stirs_of_stay hd (hgoverned.leaving crew n hc) hx
          (fun heq => hne (congrArg some heq)) hstays
  | shutDown failing => cases hdown
  | startUp | starting => cases List.mem_singleton.mp hplace
  | _ => cases hlife

end Run

end Engine

end ArcadeUplink
