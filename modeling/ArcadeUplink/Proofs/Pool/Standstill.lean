import ArcadeUplink.Proofs.Pool.History

/-!
# A pool at rest

What starts and stops see to: the timer thread is there only while the door is
open (`Governed`), every job is for a crew that has workers, and whoever is gone
has left nothing to do (`Staffed`). So when everybody is gone nothing is left: no
job, no task in any lane, no delayed task, no thread (`History.atRest_of_gone`).

As long as no worker asks for a stop, whoever is there belongs to the crew of the
door or to the one that is leaving (`Attended`); so a pool that is stopped, with
no start or stop going on, is at rest (`History.atRest`). A worker who asks for a
stop is not waited for, and may go on after the stop has returned.
-/

namespace ArcadeUplink.Pool

variable {α : Type} {n : Nat} {p q : Pool α} {e : Event α} {ts : List (Moment α)}

/-- Whether a stop is going on. -/
def Control.isStop : Control → Bool
  | .silencing _ => true
  | .leaving _ _ => true
  | _ => false

/-! ## What starts and stops see to -/

/-- How the door, the timers and their thread go together. -/
structure Governed (p : Pool α) : Prop where
  manned : p.thread ≠ .absent → p.door ≠ none
  starting : p.control = .starting → p.door ≠ none ∧ p.thread = .absent
  stopping : p.control.isStop = true → p.timers.closed = true ∧ p.timers.pending = []
  leaving : ∀ crew k, p.control = .leaving crew k → p.door = none
  shut : p.door = none → p.timers.pending = [] ∧ (p.crews = 0 ∨ p.timers.closed = true)
  newest : ∀ crew, p.door = some crew → crew + 1 = p.crews

theorem governed_ofSize (n : Nat) : (ofSize n : Pool α).Governed where
  manned h := absurd rfl h
  starting h := nomatch h
  stopping h := nomatch h
  leaving _ _ h := nomatch h
  shut _ := ⟨rfl, .inl rfl⟩
  newest _ h := nomatch h

/-- Only what the control, the door, the timers and their thread are matters. -/
theorem Governed.of_same (h : p.Governed) (hthread : q.thread = p.thread)
    (hdoor : q.door = p.door) (hcontrol : q.control = p.control) (htimers : q.timers = p.timers)
    (hcrews : q.crews = p.crews) : q.Governed where
  manned := by rw [hthread, hdoor]; exact h.manned
  starting := by rw [hcontrol, hdoor, hthread]; exact h.starting
  stopping := by rw [hcontrol, htimers]; exact h.stopping
  leaving := by rw [hcontrol, hdoor]; exact h.leaving
  shut := by rw [hdoor, htimers, hcrews]; exact h.shut
  newest := by rw [hdoor, hcrews]; exact h.newest

/-- A delayed task is scheduled only by a queue that is open. -/
theorem TimerQueue.open_of_schedule? {t t' : TimerQueue α} {now delay : Nat} {l : Lane} {task : α}
    (h : t.schedule? now delay l task = some t') : t.closed = false ∧ t'.closed = false := by
  unfold schedule? at h
  split at h
  · cases h
  · next hopen =>
    cases h
    exact ⟨Bool.eq_false_iff.mpr hopen, Bool.eq_false_iff.mpr hopen⟩

/-- **Every event keeps the rule**, if only who has found the pool running schedules a delayed
task. -/
theorem Change.governed (h : Change p e q) (hp : p.Governed)
    (hdelay : ∀ now ms l task, e = .delay now ms l task → 0 < p.crews) : q.Governed := by
  cases h with
  | delayed htimers =>
    obtain ⟨hopen, hopen'⟩ := TimerQueue.open_of_schedule? htimers
    refine ⟨hp.manned, hp.starting, fun hstop => ?_, hp.leaving, fun hdoor => ?_, hp.newest⟩
    · exact absurd (hp.stopping hstop).1 (Bool.eq_false_iff.mp hopen)
    · obtain hzero | hclosed := (hp.shut hdoor).2
      · exact absurd hzero (Nat.ne_of_gt (hdelay _ _ _ _ rfl))
      · exact absurd hclosed (Bool.eq_false_iff.mp hopen)
  | opened hc hdoor =>
    refine ⟨nofun, fun _ => ⟨nofun, ?_⟩, nofun, nofun, nofun, ?_⟩
    · exact Classical.byContradiction fun hthread => hp.manned hthread hdoor
    · rintro _ ⟨⟩
      rfl
  | silenced hc =>
    refine ⟨hp.manned, nofun, fun _ => ⟨rfl, rfl⟩, nofun, fun _ => ⟨rfl, .inr rfl⟩, hp.newest⟩
  | started hc =>
    have hdoor := (hp.starting hc).1
    exact ⟨fun _ => hdoor, nofun, nofun, nofun, fun h => absurd h hdoor, hp.newest⟩
  | closed hc hthread hdoor =>
    have hstop := hp.stopping (by rw [hc]; rfl)
    refine ⟨fun h => absurd hthread h, nofun, fun _ => hstop, fun _ _ _ => rfl,
      fun _ => ⟨hstop.2, .inr hstop.1⟩, nofun⟩
  | wasClosed hc hthread hdoor =>
    exact ⟨hp.manned, nofun, nofun, nofun, hp.shut, hp.newest⟩
  | stopped hc hleft =>
    exact ⟨hp.manned, nofun, nofun, nofun, hp.shut, hp.newest⟩
  | fired hthread hopen hpending =>
    have hdoor : p.door ≠ none := hp.manned (by rw [hthread]; exact nofun)
    refine ⟨fun _ => hdoor, fun hc => ?_, fun hstop => ?_, hp.leaving,
      fun h => absurd h hdoor, hp.newest⟩
    · exact absurd (hthread.symm.trans (hp.starting hc).2) nofun
    · exact absurd (hp.stopping hstop).1 (Bool.eq_false_iff.mp hopen)
  | delivered hthread hdoor =>
    have hdoor' : p.door ≠ none := hp.manned (by rw [hthread]; exact nofun)
    refine ⟨fun _ => hdoor', fun hc => ?_, hp.stopping, hp.leaving, hp.shut, hp.newest⟩
    exact absurd (hthread.symm.trans (hp.starting hc).2) nofun
  | notDelivered hthread hdoor =>
    exact absurd hdoor (hp.manned (by rw [hthread]; exact nofun))
  | dismissed hthread hclosed =>
    exact ⟨fun h => absurd rfl h, fun hc => ⟨(hp.starting hc).1, rfl⟩, hp.stopping, hp.leaving,
      hp.shut, hp.newest⟩
  | _ => exact hp.of_same rfl rfl rfl rfl rfl

theorem Change.crews_le (h : Change p e q) : p.crews ≤ q.crews := by
  cases h with
  | opened => exact Nat.le_succ _
  | _ => exact Nat.le_refl _

/-- Along a history the rule is kept, and a pool that was found running has been started. -/
theorem History.governed (h : History n ts p) :
    p.Governed ∧ ∀ t ∈ ts, t.before.isRunning = true → 0 < p.crews := by
  induction h with
  | fresh => exact ⟨governed_ofSize n, fun _ ht => absurd ht List.not_mem_nil⟩
  | @step ts p q e _ htimely hq ih =>
    obtain ⟨hp, hrunning⟩ := ih
    have hchange := change_of_after? hq
    constructor
    · refine hchange.governed hp ?_
      rintro now ms l task rfl
      obtain ⟨t, ht, -, hrun⟩ := htimely
      exact hrunning t ht hrun
    · intro t ht hrun
      refine Nat.lt_of_lt_of_le ?_ hchange.crews_le
      rcases List.mem_append.mp ht with ht | ht
      · exact hrunning t ht hrun
      · obtain ⟨crew, hcrew⟩ := Option.isSome_iff_exists.mp (List.mem_singleton.mp ht ▸ hrun)
        exact hp.newest crew hcrew ▸ Nat.succ_pos crew

/-! ## Whoever is there -/

/-- Which workers there are. -/
structure Staffed (n : Nat) (p : Pool α) : Prop where
  size : p.size = max n 1
  known : ∀ x ∈ p.workers, x.crew < p.crews
  accepted : ∀ j ∈ p.jobs, j.1 < p.crews
  hired : ∀ crew < p.crews, crew ∈ p.workers.map (·.crew)
  /-- Whoever is gone has left nothing to do. -/
  gone : ∀ x ∈ p.workers, x.duty = .gone → p.door ≠ some x.crew ∧ ∀ j ∈ p.jobs, j.1 ≠ x.crew

theorem staffed_ofSize (n : Nat) : (ofSize n : Pool α).Staffed n where
  size := rfl
  known _ h := nomatch h
  accepted _ h := nomatch h
  hired _ h := absurd h (Nat.not_lt_zero _)
  gone _ h := nomatch h

theorem mem_assign {w : Nat} {y : Worker α} (hy : p.workers[w]? = some y) {d : Duty α}
    {x : Worker α} (hx : x ∈ (p.assign w d).workers) :
    x ∈ p.workers ∨ x = { y with duty := d } := by
  obtain ⟨i, hi⟩ := List.mem_iff_getElem?.mp hx
  unfold assign at hi
  dsimp only at hi
  by_cases hiw : w = i
  · subst hiw
    rw [List.getElem?_modify_eq, hy] at hi
    exact .inr (Option.some.inj hi).symm
  · rw [List.getElem?_modify_ne _ _ hiw] at hi
    exact .inl (List.mem_of_getElem? hi)

/-- A worker stays in his crew whatever he does. -/
theorem map_crew_assign {w : Nat} {d : Duty α} (hd : p.duty? w = some d) (d' : Duty α) :
    (p.assign w d').workers.map (·.crew) = p.workers.map (·.crew) := by
  obtain ⟨before, y, after, hws, -, hws'⟩ := exists_of_duty? hd
  rw [hws, hws', List.map_append, List.map_append, List.map_cons, List.map_cons]

namespace Staffed

/-- A worker who stays turns to another duty. -/
theorem assign (hp : p.Staffed n) {w : Nat} {d : Duty α} (hd : p.duty? w = some d)
    (d' : Duty α) (hstay' : d' ≠ .gone) : (p.assign w d').Staffed n where
  size := hp.size
  known x hx := by
    obtain ⟨y, hy, -⟩ := Option.map_eq_some_iff.mp hd
    obtain hx | rfl := mem_assign hy hx
    · exact hp.known x hx
    · exact hp.known y (List.mem_of_getElem? hy)
  accepted := hp.accepted
  hired crew hcrew := by
    rw [map_crew_assign hd]
    exact hp.hired crew hcrew
  gone x hx hgone := by
    obtain ⟨y, hy, -⟩ := Option.map_eq_some_iff.mp hd
    obtain hx | rfl := mem_assign hy hx
    · exact hp.gone x hx hgone
    · exact absurd hgone hstay'

/-- The jobs are others: old ones, or such as have been accepted now. -/
theorem of_jobs (hp : p.Staffed n) (hg : p.Governed) {jobs : List (Nat × Job α)}
    (hjobs : ∀ j ∈ jobs, j ∈ p.jobs ∨ p.door = some j.1) : { p with jobs }.Staffed n where
  size := hp.size
  known := hp.known
  accepted j hj := by
    obtain hj | hdoor := hjobs j hj
    · exact hp.accepted j hj
    · exact hg.newest j.1 hdoor ▸ Nat.lt_succ_self j.1
  hired := hp.hired
  gone x hx hgone := by
    obtain ⟨hopen, hnone⟩ := hp.gone x hx hgone
    refine ⟨hopen, fun j hj => ?_⟩
    obtain hj | hdoor := hjobs j hj
    · exact hnone j hj
    · exact fun h => hopen (h ▸ hdoor)

/-- A job for the crew of the door, or none. -/
theorem of_accepted (hp : p.Staffed n) (hg : p.Governed) {crew : Nat}
    (hdoor : p.door = some crew) {new : List (Nat × Job α)} (hnew : ∀ j ∈ new, j.1 = crew) :
    { p with jobs := p.jobs ++ new }.Staffed n := by
  refine hp.of_jobs hg fun j hj => ?_
  rcases List.mem_append.mp hj with hj | hj
  · exact .inl hj
  · exact .inr (hnew j hj ▸ hdoor)

/-- Only what the crews, the jobs, the workers and the door are matters. -/
theorem of_same (h : p.Staffed n) (hsize : q.size = p.size) (hworkers : q.workers = p.workers)
    (hjobs : q.jobs = p.jobs) (hcrews : q.crews = p.crews)
    (hdoor : q.door = p.door ∨ q.door = none) : q.Staffed n where
  size := by rw [hsize]; exact h.size
  known := by rw [hworkers, hcrews]; exact h.known
  accepted := by rw [hjobs, hcrews]; exact h.accepted
  hired := by rw [hworkers, hcrews]; exact h.hired
  gone := by
    rw [hworkers, hjobs]
    intro x hx hgone
    refine ⟨?_, (h.gone x hx hgone).2⟩
    obtain hdoor | hdoor := hdoor
    · exact hdoor ▸ (h.gone x hx hgone).1
    · rw [hdoor]
      exact nofun

/-- Whoever is at something while the timers are open finds the pool running. -/
theorem isRunning (h : p.Staffed n) (hg : p.Governed) (hopen : p.timers.closed = false) {w : Nat}
    {d : Duty α} (hd : p.duty? w = some d) : p.isRunning = true := by
  obtain ⟨x, hx, -⟩ := Option.map_eq_some_iff.mp hd
  have hcrews := h.known x (List.mem_of_getElem? hx)
  unfold Pool.isRunning
  rw [Option.isSome_iff_ne_none]
  intro hdoor
  obtain hzero | hclosed := (hg.shut hdoor).2
  · omega
  · exact Bool.eq_false_iff.mp hopen hclosed

/-- A new crew comes. -/
theorem opened (h : p.Staffed n) :
    Staffed n { p with
      workers := p.workers ++ List.replicate p.size ⟨p.crews, .idle⟩
      door := some p.crews
      crews := p.crews + 1
      control := .starting } where
  size := h.size
  known x hx := by
    rcases List.mem_append.mp hx with hx | hx
    · exact Nat.lt_succ_of_lt (h.known x hx)
    · rw [(List.mem_replicate.mp hx).2]
      exact Nat.lt_succ_self _
  accepted j hj := Nat.lt_succ_of_lt (h.accepted j hj)
  hired crew hcrew := by
    rw [List.map_append, List.map_replicate, List.mem_append]
    obtain hlt | rfl := Nat.lt_succ_iff_lt_or_eq.mp hcrew
    · exact .inl (h.hired crew hlt)
    · right
      have hsize : p.size ≠ 0 := by rw [h.size]; omega
      exact List.mem_replicate.mpr ⟨hsize, rfl⟩
  gone x hx hgone := by
    rcases List.mem_append.mp hx with hx | hx
    · refine ⟨fun heq => ?_, (h.gone x hx hgone).2⟩
      exact Nat.ne_of_gt (h.known x hx) (Option.some.inj heq)
    · rw [(List.mem_replicate.mp hx).2] at hgone
      cases hgone

/-- A worker leaves whose crew accepts nothing any more and has nothing left to do. -/
theorem retired (h : p.Staffed n) {w crew : Nat} (hw : p.workers[w]? = some ⟨crew, .idle⟩)
    (hdoor : p.door ≠ some crew) (hjobs : ∀ j ∈ p.jobs, j.1 ≠ crew) :
    (p.assign w .gone).Staffed n where
  size := h.size
  known x hx := by
    obtain hx | rfl := mem_assign hw hx
    · exact h.known x hx
    · exact h.known ⟨crew, .idle⟩ (List.mem_of_getElem? hw)
  accepted := h.accepted
  hired c hc := by
    have hd : p.duty? w = some .idle := duty?_of_worker hw
    rw [map_crew_assign hd]
    exact h.hired c hc
  gone x hx hgone := by
    obtain hx | rfl := mem_assign hw hx
    · exact h.gone x hx hgone
    · exact ⟨hdoor, hjobs⟩

end Staffed

theorem popJob_eq_none {crew : Nat} {jobs : List (Nat × Job α)} (h : popJob crew jobs = none) :
    ∀ j ∈ jobs, j.1 ≠ crew := by
  induction jobs with
  | nil => exact fun _ hj => absurd hj List.not_mem_nil
  | cons k ks ih =>
    unfold popJob at h
    split at h
    · cases h
    · next hk =>
      intro j hj
      rcases List.mem_cons.mp hj with rfl | hj
      · exact hk
      · exact ih (Option.map_eq_none_iff.mp h) j hj

/-- Whoever is to leave is gone when the stop returns. -/
theorem gone_of_hasLeft {crew : Nat} (h : p.hasLeft crew none = true) {x : Worker α}
    (hx : x ∈ p.workers) (hcrew : x.crew = crew) : x.duty = .gone := by
  unfold hasLeft at h
  obtain ⟨w, hw, rfl⟩ := List.mem_iff_getElem.mp hx
  have hgone := List.all_eq_true.mp h (p.workers[w], w)
    (List.mem_zipIdx_iff_getElem?.mpr (List.getElem?_eq_getElem hw))
  cases hd : p.workers[w].duty <;> simp [hcrew, hd] at hgone ⊢

/-- A stop that cannot return waits for somebody who is still there. -/
theorem exists_stay_of_not_hasLeft {crew : Nat} {except : Option Nat}
    (h : ¬p.hasLeft crew except = true) : ∃ (v : Nat) (x : Worker α), p.workers[v]? = some x ∧
      some v ≠ except ∧ x.duty ≠ .gone := by
  unfold hasLeft at h
  obtain ⟨⟨x, v⟩, hmem, hstays⟩ := List.all_eq_false.mp (Bool.eq_false_iff.mpr h)
  refine ⟨v, x, List.mem_zipIdx_iff_getElem?.mp hmem, ?_, ?_⟩
  · rintro rfl
    simp at hstays
  · intro hgone
    simp [hgone] at hstays

/-- A stop closes the door, or has nothing more to do, once the timer thread is gone. -/
theorem exists_advance_of_silencing {k : Nat} (hc : p.control = .silencing k)
    (hthread : p.thread = .absent) (self : Option Nat) : ∃ r, p.advanceControl self = some r := by
  unfold advanceControl
  rw [hc]
  dsimp only
  rw [hthread]
  cases p.door <;> exact ⟨_, rfl⟩

theorem mem_drain_order {owned : Bool} {crew : Nat} {l : Lane} {j : Nat × Job α}
    (hj : j ∈ if owned = true then [] else [(crew, .drain l)]) : j.1 = crew := by
  split at hj
  · cases hj
  · rw [List.mem_singleton.mp hj]

theorem Job.duty_ne_gone (j : Job α) : j.duty ≠ .gone := by
  cases j <;> simp [Job.duty]

theorem afterTask_ne_gone (l : Option Lane) : (afterTask l : Duty α) ≠ .gone := by
  cases l <;> simp [afterTask]

/-- **Nothing is left behind**: every event keeps it that every job is for a crew that has workers,
and that whoever is gone has left nothing to do. -/
theorem Change.staffed (h : Change p e q) (hp : p.Staffed n) (hg : p.Governed) : q.Staffed n := by
  cases h with
  | posted hdoor =>
    exact hp.of_accepted hg hdoor fun j hj => by rw [List.mem_singleton.mp hj]
  | queued hdoor =>
    exact (hp.of_accepted hg hdoor fun j => mem_drain_order).of_same rfl rfl rfl rfl (.inl rfl)
  | delivered hthread hdoor =>
    exact (hp.of_accepted hg hdoor fun j => mem_drain_order).of_same rfl rfl rfl rfl (.inl rfl)
  | opened => exact hp.opened
  | closed => exact hp.of_same rfl rfl rfl rfl (.inr rfl)
  | @took w crew j jobs hw hpop =>
    obtain ⟨c, hperm⟩ := popJob_perm hpop
    have hp' : { p with jobs }.Staffed n :=
      hp.of_jobs hg fun k hk => .inl (hperm.mem_iff.mpr (List.mem_cons_of_mem _ hk))
    have hd : p.duty? w = some .idle := duty?_of_worker hw
    exact hp'.assign hd j.duty j.duty_ne_gone
  | @picked w l task rest hd hwait =>
    exact (hp.assign hd (.running (some l) task) nofun).of_same rfl rfl rfl rfl (.inl rfl)
  | released hd hwait => exact (hp.assign hd .idle nofun).of_same rfl rfl rfl rfl (.inl rfl)
  | @wentOn w l task rest hd => exact hp.assign hd (.running l rest) nofun
  | @finished w l task hd => exact hp.assign hd (afterTask l) (afterTask_ne_gone l)
  | retired hw hdoor hpop => exact hp.retired hw hdoor (popJob_eq_none hpop)
  | _ => exact hp.of_same rfl rfl rfl rfl (.inl rfl)

theorem History.staffed (h : History n ts p) : p.Staffed n := by
  induction h with
  | fresh => exact staffed_ofSize n
  | step hts _ hq ih => exact (change_of_after? hq).staffed ih hts.governed.1

/-- Whoever is not gone accepts work, or is waited for. -/
def Attended (p : Pool α) : Prop :=
  ∀ x ∈ p.workers, x.duty ≠ .gone → p.door = some x.crew ∨ ∃ k, p.control = .leaving x.crew k

namespace Attended

/-- A worker turns to another duty. -/
theorem assign (hp : p.Attended) {w : Nat} {d : Duty α} (hd : p.duty? w = some d)
    (hstay : d ≠ .gone) (d' : Duty α) : (p.assign w d').Attended := by
  intro x hx hgone
  obtain ⟨y, hy, rfl⟩ := Option.map_eq_some_iff.mp hd
  obtain hx | rfl := mem_assign hy hx
  · exact hp x hx hgone
  · exact hp y (List.mem_of_getElem? hy) hstay

/-- While no stop waits for anybody, whoever is not gone accepts work. -/
theorem accepting (h : p.Attended) {c : Control} (hc : p.control = c)
    (hfree : ∀ crew k, c ≠ .leaving crew k) {x : Worker α} (hx : x ∈ p.workers)
    (hstay : x.duty ≠ .gone) : p.door = some x.crew := by
  obtain hdoor | ⟨k, hleaving⟩ := h x hx hstay
  · exact hdoor
  · exact absurd (hc.symm.trans hleaving) (hfree x.crew k)

end Attended

/-- **Nobody is forgotten**, as long as no worker asks for a stop: every event keeps it that whoever
is not gone accepts work or is waited for. -/
theorem Change.attended (h : Change p e q) (hp : p.Attended) (hout : e.isFromOutside = true) :
    q.Attended := by
  cases h with
  | opened hc hdoor =>
    intro x hx hstay
    rcases List.mem_append.mp hx with hx | hx
    · cases hdoor.symm.trans (hp.accepting hc nofun hx hstay)
    · rw [(List.mem_replicate.mp hx).2]
      exact .inl rfl
  | silenced hc => exact fun x hx hstay => .inl (hp.accepting hc nofun hx hstay)
  | started hc => exact fun x hx hstay => .inl (hp.accepting hc nofun hx hstay)
  | wasClosed hc => exact fun x hx hstay => .inl (hp.accepting hc nofun hx hstay)
  | @closed self crew k hc hthread hdoor =>
    refine fun x hx hstay => .inr ⟨k, ?_⟩
    rw [Option.some.inj ((hp.accepting hc nofun hx hstay).symm.trans hdoor)]
  | @stopped self crew k hc hleft =>
    intro x hx hstay
    obtain hdoor | ⟨k', hleaving⟩ := hp x hx hstay
    · exact .inl hdoor
    · cases self with
      | none =>
        cases hc.symm.trans hleaving
        exact absurd (gone_of_hasLeft hleft hx rfl) hstay
      | some w => cases hout
  | took hw => exact hp.assign (duty?_of_worker hw) nofun _
  | picked hd => exact hp.assign hd nofun _
  | released hd => exact hp.assign hd nofun _
  | wentOn hd => exact hp.assign hd nofun _
  | finished hd => exact hp.assign hd nofun _
  | retired hw => exact hp.assign (duty?_of_worker hw) nofun _
  | _ => exact hp

theorem History.attended (h : History n ts p) (hout : ∀ t ∈ ts, t.event.isFromOutside = true) :
    p.Attended := by
  induction h with
  | fresh => exact nofun
  | step hts _ hq ih =>
    have hts' := ih fun t ht => hout t (List.mem_append_left _ ht)
    exact (change_of_after? hq).attended hts'
      (hout _ (List.mem_append_right _ List.mem_cons_self))

/-! ## At rest -/

theorem duty_of_gone (hgone : ∀ x ∈ p.workers, x.duty = .gone) {w : Nat} {d : Duty α}
    (hd : p.duty? w = some d) : d = .gone := by
  obtain ⟨x, hx, rfl⟩ := Option.map_eq_some_iff.mp hd
  exact hgone x (List.mem_of_getElem? hx)

/-- Once everybody is gone, only a start brings somebody. -/
theorem Change.gone (h : Change p e q) (he : e ≠ .beginStart)
    (hgone : ∀ x ∈ p.workers, x.duty = .gone) : ∀ x ∈ q.workers, x.duty = .gone := by
  cases h with
  | opened => exact absurd rfl he
  | took hw => cases duty_of_gone hgone (duty?_of_worker hw)
  | picked hd => cases duty_of_gone hgone hd
  | released hd => cases duty_of_gone hgone hd
  | wentOn hd => cases duty_of_gone hgone hd
  | finished hd => cases duty_of_gone hgone hd
  | retired hw => cases duty_of_gone hgone (duty?_of_worker hw)
  | _ => exact hgone

/-- No start and no stop is going on, and no work is accepted. -/
def isStopped (p : Pool α) : Prop := p.control = .free ∧ p.door = none

/-- Nobody is there and nothing is left to do. -/
structure AtRest (p : Pool α) : Prop where
  workers : ∀ x ∈ p.workers, x.duty = .gone
  jobs : p.jobs = []
  lanes : p.lanes = ⟨{}, {}, {}⟩
  pending : p.timers.pending = []
  thread : p.thread = .absent

theorem Orderly.lanes_of_rest (h : p.Orderly) (hjobs : p.jobs = [])
    (hworkers : ∀ x ∈ p.workers, x.duty = .gone) : p.lanes = ⟨{}, {}, {}⟩ := by
  have hholders : ∀ l, p.holders l = 0 := by
    intro l
    unfold holders
    rw [hjobs, List.countP_nil, Nat.zero_add, List.countP_eq_zero]
    intro x hx
    rw [hworkers x hx]
    exact nofun
  have hlane : ∀ l, p.lanes.get l = {} := by
    intro l
    have howned : (p.lanes.get l).owned = false := by
      have heq := h.holders_eq l
      rw [hholders] at heq
      split at heq
      · cases heq
      · next hfree => exact Bool.eq_false_iff.mpr hfree
    have hwaiting := h.stranded l howned
    cases hl : p.lanes.get l with
    | mk waiting owned =>
      rw [hl] at howned hwaiting
      cases howned
      cases hwaiting
      rfl
  have hmain := hlane .main
  have hgame := hlane .gameData
  have hheart := hlane .heartbeat
  cases hp : p.lanes with
  | mk main gameData heartbeat =>
    rw [hp] at hmain hgame hheart
    cases hmain
    cases hgame
    cases hheart
    rfl

/-- **A pool whose workers are gone is at rest**: its door is closed, no job and no delayed task is
left, and every lane is empty and nobody's. -/
theorem History.atRest_of_gone (h : History n ts p) (hgone : ∀ x ∈ p.workers, x.duty = .gone) :
    p.door = none ∧ p.AtRest := by
  have hgoverned := h.governed.1
  have hstaffed := h.staffed
  -- nobody of a crew that still accepts work or has a job is gone
  have crew {crew : Nat} (hcrew : crew < p.crews) :
      p.door ≠ some crew ∧ ∀ j ∈ p.jobs, j.1 ≠ crew := by
    obtain ⟨x, hx, rfl⟩ := List.mem_map.mp (hstaffed.hired crew hcrew)
    exact hstaffed.gone x hx (hgone x hx)
  have hdoor : p.door = none := by
    refine Option.eq_none_iff_forall_ne_some.mpr fun c hc => ?_
    exact (crew (hgoverned.newest c hc ▸ Nat.lt_succ_self c)).1 hc
  have hjobs : p.jobs = [] := by
    refine List.eq_nil_iff_forall_not_mem.mpr fun j hj => ?_
    exact (crew (hstaffed.accepted j hj)).2 j hj rfl
  refine ⟨hdoor, hgone, hjobs, h.orderly.lanes_of_rest hjobs hgone, (hgoverned.shut hdoor).1, ?_⟩
  apply Classical.byContradiction
  intro hthread
  exact hgoverned.manned hthread hdoor

/-- **A stopped pool is at rest**, as long as no worker asked for a stop. -/
theorem History.atRest (h : History n ts p) (hout : ∀ t ∈ ts, t.event.isFromOutside = true)
    (hstopped : p.isStopped) : p.AtRest := by
  obtain ⟨hcontrol, hdoor⟩ := hstopped
  refine (h.atRest_of_gone fun x hx => ?_).2
  apply Classical.byContradiction
  intro hstay
  cases hdoor.symm.trans ((h.attended hout).accepting hcontrol nofun hx hstay)

end ArcadeUplink.Pool
