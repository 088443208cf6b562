import ArcadeUplink.Proofs.Pool.Renewal

/-!
# Every submission across starts and stops

What becomes of whatever is submitted, by anybody, while a pool is started and
stopped any number of times: `History.accounted`. A submission that was refused
changes nothing, one that was accepted is begun once, and when a stop returns it
has been, and has ended; a delayed one is begun once or cancelled, and never both.
A pool whose stop has returned is at rest, and goes on as a fresh one does, but
for one thing: while its first start is going on a fresh pool takes delayed tasks
already (`History.early`), and one that was stopped before does not.

No stop is asked for by a worker of the pool. That a stop returns is not said
here: a task may take for ever.
-/

namespace ArcadeUplink.Pool

open scoped List

variable {α : Type} {n : Nat} {p q : Pool α} {e : Event α} {ts : List (Moment α)}

/-- Whether a stop returns. -/
def Moment.isReturn (t : Moment α) : Bool :=
  t.before.control.isStop && decide (t.after.control = .free)

/-! ## When a stop returns -/

/-- A stop that returns leaves the pool stopped, with its timers closed. -/
theorem Change.stopped_of_return (h : Change p e q) (hg : p.Governed)
    (hreturn : (Moment.mk p e q).isReturn = true) : q.isStopped ∧ q.timers.closed = true := by
  obtain ⟨hstop, hfree⟩ := (Bool.and_eq_true _ _).mp hreturn
  replace hfree : q.control = .free := of_decide_eq_true hfree
  replace hstop : p.control.isStop = true := hstop
  have hclosed := (hg.stopping hstop).1
  have hsame : q.control ≠ p.control := fun heq => by
    rw [← heq, hfree] at hstop
    cases hstop
  cases h with
  | opened => cases hfree
  | silenced => cases hfree
  | started hc =>
    rw [hc] at hstop
    cases hstop
  | closed => cases hfree
  | wasClosed hc hthread hdoor => exact ⟨⟨rfl, hdoor⟩, hclosed⟩
  | stopped hc hleft => exact ⟨⟨rfl, hg.leaving _ _ hc⟩, hclosed⟩
  | _ => exact absurd rfl hsame

/-- The last moment of a history. -/
theorem History.last_cases {t : Moment α} (h : History n ts p) (ht : ts.getLast? = some t) :
    ∃ us, ts = us ++ [t] ∧ History n us t.before ∧ Change t.before t.event t.after ∧
      t.after = p := by
  cases h with
  | fresh => cases ht
  | step hts _ hq =>
    rw [List.getLast?_concat] at ht
    cases ht
    exact ⟨_, rfl, hts, change_of_after? hq, rfl⟩

/-- What a stopped pool leaves behind when it starts anew. -/
def past (p : Pool α) : Past α := ⟨p.workers, p.crews, p.timers.scheduled⟩

theorem AtRest.isOver (h : p.AtRest) : p.past.IsOver := h.workers

/-- **A stopped pool is a fresh one with a past.** -/
theorem AtRest.eq_later (h : p.AtRest) (hsize : p.size = max n 1) (hstopped : p.isStopped)
    (hclosed : p.timers.closed = true) : p = (ofSize n).later p.past := by
  obtain ⟨size, lanes, jobs, workers, door, crews, ⟨pending, scheduled, closed⟩, thread, control⟩ :=
    p
  obtain ⟨-, hjobs, hlanes, hpending, hthread⟩ := h
  obtain ⟨hcontrol, hdoor⟩ := hstopped
  replace hsize : size = max n 1 := hsize
  subst hsize
  cases hjobs
  cases hlanes
  cases hpending
  cases hthread
  cases hcontrol
  cases hdoor
  cases hclosed
  unfold later past ofSize
  dsimp only
  simp only [List.map_nil, List.append_nil, Nat.zero_add]
  rfl

/-! ## The first start -/

/-- A call that is refused changes nothing. -/
theorem Change.refused (h : Change p e q) (hrefused : p.answer? e = some false) : q = p := by
  cases h with
  | @posted crew task hdoor =>
    have hposted : (p.post task).1 = true := by unfold Pool.post; rw [hdoor]
    cases hposted.symm.trans (Option.some.inj hrefused)
  | @queued crew l task hdoor =>
    have hqueued : (p.postTo l task).1 = true := by rw [postTo_of_door hdoor]
    cases hqueued.symm.trans (Option.some.inj hrefused)
  | delayed htimers => cases (delay_of_schedule? htimers).symm.trans (Option.some.inj hrefused)
  | notPosted => rfl
  | notQueued => rfl
  | asked => rfl
  | notDelayed => rfl
  | _ => cases hrefused

/-- What holds of a history when a stop has returned last. -/
structure Returned (n : Nat) (ts : List (Moment α)) (p : Pool α) : Prop where
  stopped : p.isStopped
  /-- No delayed task is pending, and every lane is empty and nobody's. -/
  rest : p.AtRest
  /-- Every task that was accepted has been begun, once. -/
  singles : begun ts none ~ submitted ts none
  lanes : ∀ l, begun ts (some l) ~ submitted ts (some l) ++ fired ts l
  /-- Every delayed task that was accepted was cancelled or taken out to be run, once. -/
  delayed : ∀ l, cancelled ts l ++ fired ts l ~ scheduled ts l
  /-- Whatever was begun has ended. -/
  ended : ∀ lane, ended ts lane = (begun ts lane).length
  /-- The pool is a fresh one with a past; nothing of that can be seen in whatever comes, unless a
  delayed task is scheduled early. -/
  renewed : p = (ofSize n).later p.past ∧ ∀ es, asksEarly (ofSize n) es = false →
    p.sights? (es.map p.past.event) = (ofSize n).sights? es
  /-- If one is, that can be seen. -/
  told_apart : ∀ es, ((ofSize n).sights? es).isSome = true → asksEarly (ofSize n) es = true →
    p.sights? (es.map p.past.event) ≠ (ofSize n).sights? es
  /-- Nothing else can come: the workers of the past do nothing any more. -/
  nothing_else : ∀ e, e.isFromOutside = true → (∀ e', e ≠ p.past.event e') →
    ∀ q : Pool α, (q.later p.past).after? e = none

theorem AtRest.busy_eq (h : p.AtRest) (lane : Option Lane) : p.busy lane = 0 := by
  unfold busy
  rw [List.countP_eq_zero]
  intro x hx
  rw [h.workers x hx]
  exact nofun

theorem AtRest.waiting_eq (h : p.AtRest) (l : Lane) : (p.lanes.get l).waiting = [] := by
  rw [h.lanes]
  cases l <;> rfl

/-- Whatever was taken out to be run came into its lane, once the timer thread is gone. -/
theorem History.handedIn_perm (h : History n ts p) (hthread : p.thread = .absent) (l : Lane) :
    handedIn ts l ~ fired ts l := by
  have hfired := h.fired_perm l
  rw [handed_of_absent hthread, List.append_nil] at hfired
  exact hfired.symm

theorem History.returned (h : History n ts p) (hout : ∀ t ∈ ts, t.event.isFromOutside = true)
    {t : Moment α} (ht : ts.getLast? = some t) (hreturn : t.isReturn = true) : Returned n ts p := by
  obtain ⟨us, -, hus, hchange, hp⟩ := h.last_cases ht
  obtain ⟨hstopped, hclosed⟩ := hchange.stopped_of_return hus.governed.1 hreturn
  rw [hp] at hstopped hclosed
  have hrest := h.atRest hout hstopped
  have heq := hrest.eq_later h.staffed.size hstopped hclosed
  have hsights (es : List (Event α)) : p.sights? (es.map p.past.event) =
      ((ofSize n).later p.past).sights? (es.map p.past.event) :=
    congrArg (fun q : Pool α => q.sights? (es.map p.past.event)) heq
  refine ⟨hstopped, hrest, ?_, ?_, ?_, ?_, ⟨heq, ?_⟩, ?_, ?_⟩
  · have hsingles := h.submitted_perm
    unfold Pool.singles at hsingles
    rw [hrest.jobs, List.filterMap_nil, List.append_nil] at hsingles
    exact hsingles.symm
  · intro l
    have harrived := h.arrived_eq l
    rw [hrest.waiting_eq, List.append_nil] at harrived
    rw [← harrived]
    exact (arrived_perm ts l).trans ((h.handedIn_perm hrest.thread l).append_left _)
  · intro l
    have hscheduled := h.scheduled_perm l
    unfold Pool.delayed at hscheduled
    rw [hrest.pending, List.filter_nil, List.map_nil, List.append_nil] at hscheduled
    exact hscheduled.symm
  · intro lane
    rw [h.begun_length, hrest.busy_eq, Nat.add_zero]
  · intro es hes
    exact (hsights es).trans (sights?_later hrest.isOver hes)
  · intro es hhappen hes
    rw [hsights es]
    exact sights?_later_ne hrest.isOver hhappen hes
  · intro e he hother q
    apply Classical.byContradiction
    intro hsome
    obtain ⟨e', he'⟩ := exists_event p.past he fun w hw => by
      apply Nat.le_of_not_lt
      exact fun hlt => hsome (after?_gone hrest.isOver q hw hlt)
    exact hother e' he'

end ArcadeUplink.Pool
