import ArcadeUplink.Proofs.Machine.Turn
import Mathlib.Algebra.Order.Group.Multiset

/-!
# All activities of a machine

The stock of a machine is everything that remains to be done about one lane: what
remains of the calls from outside, what workers are at, and what waits in the
lane. A turn takes one activity out of the stock and puts back what remains of it
and what it submits to the lane (`stock_turn`); anything else only adds to the
stock what somebody calls, or what was in another place before (`stock_idle`). So
nothing in the stock gets lost, and nothing gets in twice.

The stock is a list up to order only.
-/

namespace ArcadeUplink

open scoped List

namespace Pool

variable {α : Type} {p q : Pool α} {l : Lane}

theorem countP_one (f : α → Bool) (a : α) : [a].countP f = (f a).toNat := by
  rw [List.countP_singleton]
  cases f a <;> rfl

/-- The task that a duty is about. -/
def Duty.task? : Duty α → Option α
  | .running _ task => some task
  | _ => none

/-- The tasks that workers are at. -/
def underway (p : Pool α) : List α := p.workers.filterMap fun x => x.duty.task?

theorem underway_assign {w : Nat} {d : Duty α} (h : p.duty? w = some d) (d' : Duty α) :
    ∃ others, p.underway ~ d.task?.toList ++ others ∧
      (p.assign w d').underway ~ d'.task?.toList ++ others := by
  obtain ⟨before, after, hb, ha⟩ := filterMap_assign Duty.task? h d'
  refine ⟨before ++ after, ?_, ?_⟩
  · exact .trans (.of_eq hb) (List.perm_append_comm_assoc ..)
  · exact .trans (.of_eq ha) (List.perm_append_comm_assoc ..)

theorem Use.underway {Task : Lane → α → Prop} (h : Use Task p q) : q.underway = p.underway := by
  obtain ⟨n, crew, hw⟩ := h.workers
  unfold Pool.underway
  rw [hw, List.filterMap_append, List.filterMap_replicate_of_none rfl, List.append_nil]

theorem task?_afterTask (l : Option Lane) : (afterTask l : Duty α).task? = none := by
  cases l <;> rfl

theorem underway_progress {w : Nat} {m : Option Lane} {a : α} {rest : Option α}
    (hd : p.duty? w = some (.running m a)) (hq : p.progress w rest = some q) :
    ∃ others, p.underway ~ a :: others ∧ q.underway ~ rest.toList ++ others := by
  obtain ⟨m', b, hd', rfl⟩ := progress_cases hq
  cases hd.symm.trans hd'
  obtain ⟨others, hbefore, hafter⟩ :=
    underway_assign hd (rest.elim (afterTask m) (.running m))
  refine ⟨others, hbefore, hafter.trans (.of_eq ?_)⟩
  cases rest with
  | none => rw [Option.elim_none, task?_afterTask]
  | some b => rfl

theorem lanes_progress {w : Nat} {rest : Option α} (hq : p.progress w rest = some q) :
    q.lanes = p.lanes := by
  obtain ⟨m, a, -, rfl⟩ := progress_cases hq
  rfl

theorem control_progress {w : Nat} {rest : Option α} (hq : p.progress w rest = some q) :
    q.control = p.control := by
  obtain ⟨m, a, -, rfl⟩ := progress_cases hq
  rfl

/-- What workers are at, and what waits in a lane. -/
def load (p : Pool α) (l : Lane) : List α := p.underway ++ (p.lanes.get l).waiting

/-- A task that is in the pool, but neither is a worker at it nor does it wait in the lane. -/
def Elsewhere (p : Pool α) (l : Lane) (a : α) : Prop :=
  (∃ m, m ≠ l ∧ a ∈ (p.lanes.get m).waiting) ∨ p.thread = .handing l a ∨
    ∃ crew, (crew, Job.single a) ∈ p.jobs

theorem waiting_postTo (p : Pool α) (l m : Lane) (task : α) :
    ∃ posted, ((p.postTo m task).2.1.lanes.get l).waiting = (p.lanes.get l).waiting ++ posted ∧
      ∀ a ∈ posted, m = l ∧ a = task := by
  obtain hq | ⟨jobs, hq, -⟩ := postTo_cases p m task
  · rw [hq]
    exact ⟨[], (List.append_nil _).symm, nofun⟩
  · rw [hq]
    by_cases hml : m = l
    · subst hml
      refine ⟨[task], ?_, fun a ha => ⟨rfl, List.mem_singleton.mp ha⟩⟩
      rw [PerLane.get_set_self]
      rfl
    · refine ⟨[], ?_, nofun⟩
      rw [PerLane.get_set_of_ne _ _ (Ne.symm hml), List.append_nil]

/-- What an activity submits to a lane is what comes to wait there. -/
theorem Use.waiting {Task : Lane → α → Prop} (h : Use Task p q) (l : Lane) :
    ∃ posted, (q.lanes.get l).waiting = (p.lanes.get l).waiting ++ posted ∧
      ∀ a ∈ posted, Task l a := by
  have hsame : ∃ posted, (p.lanes.get l).waiting = (p.lanes.get l).waiting ++ posted ∧
      ∀ a ∈ posted, Task l a := ⟨[], (List.append_nil _).symm, nofun⟩
  cases h with
  | leave => exact hsame
  | @postTo m task ht =>
    obtain ⟨posted, hposted, hmem⟩ := waiting_postTo p l m task
    refine ⟨posted, hposted, fun a ha => ?_⟩
    obtain ⟨rfl, rfl⟩ := hmem a ha
    exact ht
  | @delay now ms m task _ =>
    obtain hq | ⟨timers, -, hq⟩ := delay_cases p now ms m task <;>
      · rw [hq]
        exact hsame
  | beginStart hq => obtain rfl | rfl := beginStart_cases hq <;> exact hsame
  | beginStop hq =>
    rw [beginStop_eq hq]
    exact hsame
  | advance hq =>
    rw [(advanceControl_same hq).1]
    exact hsame

/-- A worker who begins a task adds it to what workers are at. -/
theorem load_assign {w : Nat} {d : Duty α} (h : p.duty? w = some d) (hd : d.task? = none)
    (d' : Duty α) (l : Lane) : (p.assign w d').load l ~ d'.task?.toList ++ p.load l := by
  obtain ⟨others, hbefore, hafter⟩ := underway_assign h d'
  rw [hd, Option.toList_none, List.nil_append] at hbefore
  unfold load
  rw [← List.append_assoc]
  exact (hafter.trans (hbefore.symm.append_left _)).append_right _

/-- **Chores lose no task**: they only bring tasks from elsewhere. -/
theorem Chore.load (h : Chore p q) (l : Lane) :
    ∃ new, q.load l ~ new ++ p.load l ∧ ∀ a ∈ new, p.Elsewhere l a := by
  cases h with
  | take hq =>
    obtain ⟨hd, c, j, jobs, hperm, rfl⟩ := take_cases hq
    refine ⟨_, load_assign (p := { p with jobs }) hd rfl j.duty l, fun a ha => ?_⟩
    cases j with
    | single task =>
      rw [List.mem_singleton.mp ha]
      exact .inr (.inr ⟨c, hperm.mem_iff.mpr List.mem_cons_self⟩)
    | drain m => cases ha
  | next hq =>
    obtain ⟨m, hd, ⟨task, rest, hwait, rfl⟩ | ⟨hwait, rfl⟩⟩ := next_cases hq
    · let p' : Pool α := { p with lanes := p.lanes.set m { p.lanes.get m with waiting := rest } }
      have hload := load_assign (p := p') hd rfl (.running (some m) task) l
      by_cases hml : m = l
      · subst hml
        refine ⟨[], hload.trans ?_, nofun⟩
        unfold Pool.load
        rw [PerLane.get_set_self, hwait]
        show task :: (p.underway ++ rest) ~ p.underway ++ task :: rest
        exact List.perm_middle.symm
      · refine ⟨[task], hload.trans (.of_eq ?_), fun a ha => ?_⟩
        · unfold Pool.load
          rw [PerLane.get_set_of_ne _ _ (Ne.symm hml)]
          rfl
        · rw [List.mem_singleton.mp ha]
          exact .inl ⟨m, hml, hwait ▸ List.mem_cons_self⟩
    · let p' : Pool α := { p with lanes := p.lanes.set m { p.lanes.get m with owned := false } }
      refine ⟨[], (load_assign (p := p') hd rfl .idle l).trans (.of_eq ?_), nofun⟩
      unfold Pool.load
      rw [PerLane.get_set]
      split
      · next hlm => rw [hlm]; rfl
      · rfl
  | retire hq =>
    obtain ⟨hd, rfl⟩ := retire_cases hq
    exact ⟨[], load_assign hd rfl .gone l, nofun⟩
  | fire hq =>
    obtain ⟨x, rest, -, rfl⟩ := fire_cases hq
    exact ⟨[], .refl _, nofun⟩
  | @deliver r hq =>
    obtain ⟨m, task, hthread, hr⟩ := deliver_cases hq
    obtain ⟨posted, hposted, hmem⟩ := waiting_postTo p l m task
    have hposted' : Use (fun _ _ => True) p (p.postTo m task).2.1 := .postTo trivial
    refine ⟨posted, ?_, fun a ha => ?_⟩
    · unfold Pool.load
      rw [hr]
      rw [show ({ (p.postTo m task).2.1 with thread := TimerThread.waiting } : Pool α).underway =
        (p.postTo m task).2.1.underway from rfl, hposted'.underway, hposted, ← List.append_assoc]
      exact List.perm_append_comm
    · obtain ⟨rfl, rfl⟩ := hmem a ha
      exact .inr (.inl hthread)
  | dismiss hq =>
    rw [dismiss_eq hq]
    exact ⟨[], .refl _, nofun⟩

/-! ## What is elsewhere -/

/-- `Task` holds of every task that waits, is pending or is being handed over, but for those that
wait in one lane. -/
structure Apart (Task : α → Prop) (l : Lane) (p : Pool α) : Prop where
  waiting : ∀ m, m ≠ l → ∀ a ∈ (p.lanes.get m).waiting, Task a
  pending : ∀ x ∈ p.timers.pending, Task x.task
  handing : ∀ m a, p.thread = .handing m a → Task a

section Apart

variable {Task : α → Prop}

theorem Apart.ofSize (n : Nat) : (Pool.ofSize n : Pool α).Apart Task l where
  waiting m _ a h := by cases m <;> cases h
  pending x h := by cases h
  handing m a h := by cases h

theorem Apart.of_elsewhere (h : p.Apart Task l) (hjobs : ∀ j ∈ p.jobs, ∃ m, j.2 = .drain m) {a : α}
    (ha : p.Elsewhere l a) : Task a := by
  obtain ⟨m, hm, hwait⟩ | hthread | ⟨crew, hjob⟩ := ha
  · exact h.waiting m hm a hwait
  · exact h.handing l a hthread
  · obtain ⟨m, hdrain⟩ := hjobs _ hjob
    cases hdrain

/-- What is submitted to the lane may be anything. -/
theorem Apart.postTo (h : p.Apart Task l) {m : Lane} {task : α} (ht : m ≠ l → Task task) :
    (p.postTo m task).2.1.Apart Task l := by
  have hsame : (p.postTo m task).2.1.timers = p.timers ∧
      (p.postTo m task).2.1.thread = p.thread := by
    obtain hq | ⟨jobs, hq, -⟩ := postTo_cases p m task <;> exact ⟨by rw [hq], by rw [hq]⟩
  refine ⟨fun n hn a ha => ?_, hsame.1 ▸ h.pending, hsame.2 ▸ h.handing⟩
  obtain ⟨posted, hposted, hmem⟩ := waiting_postTo p n m task
  rw [hposted] at ha
  rcases List.mem_append.mp ha with ha | ha
  · exact h.waiting n hn a ha
  · obtain ⟨rfl, rfl⟩ := hmem a ha
    exact ht hn

theorem Use.apart (h : Use (fun _ => Task) p q) (hp : p.Apart Task l) : q.Apart Task l := by
  cases h with
  | leave => exact hp
  | postTo ht => exact hp.postTo fun _ => ht
  | @delay now ms m task ht =>
    obtain hq | ⟨timers, htimers, hq⟩ := delay_cases p now ms m task
    · rw [hq]
      exact hp
    · rw [hq]
      refine ⟨hp.waiting, fun y hy => ?_, hp.handing⟩
      obtain ⟨-, htask⟩ | hy := TimerQueue.mem_schedule? htimers hy
      · exact htask ▸ ht
      · exact hp.pending y hy
  | beginStart hq =>
    obtain rfl | rfl := beginStart_cases hq <;> exact ⟨hp.waiting, hp.pending, hp.handing⟩
  | beginStop hq =>
    rw [beginStop_eq hq]
    exact ⟨hp.waiting, (fun y hy => nomatch hy), hp.handing⟩
  | advance hq =>
    obtain ⟨hl, -, -, hpending, hthread⟩ := advanceControl_same hq
    refine ⟨hl ▸ hp.waiting, hpending ▸ hp.pending, fun m a ha => ?_⟩
    obtain e | e := hthread
    · exact hp.handing m a (e ▸ ha)
    · rw [e] at ha
      cases ha

theorem Chore.apart (h : Chore p q) (hp : p.Apart Task l) : q.Apart Task l := by
  cases h with
  | take hq =>
    obtain ⟨-, c, j, jobs, -, rfl⟩ := take_cases hq
    exact ⟨hp.waiting, hp.pending, hp.handing⟩
  | next hq =>
    obtain ⟨m, -, hcases⟩ := next_cases hq
    -- of the lanes only `m` changes, and nothing comes to wait there
    have hwaiting : ∀ n, ∀ a ∈ (q.lanes.get n).waiting, a ∈ (p.lanes.get n).waiting := by
      intro n a ha
      obtain ⟨task, rest, hwait, rfl⟩ | ⟨-, rfl⟩ := hcases
      all_goals
        rw [assign_lanes, PerLane.get_set] at ha
        split at ha
      · next e => exact e ▸ hwait ▸ List.mem_cons_of_mem _ ha
      · exact ha
      · next e => exact e ▸ ha
      · exact ha
    have hsame : q.timers = p.timers ∧ q.thread = p.thread := by
      obtain ⟨task, rest, -, rfl⟩ | ⟨-, rfl⟩ := hcases <;> exact ⟨rfl, rfl⟩
    exact ⟨fun n hn a ha => hp.waiting n hn a (hwaiting n a ha), hsame.1 ▸ hp.pending,
      hsame.2 ▸ hp.handing⟩
  | retire hq =>
    obtain ⟨-, rfl⟩ := retire_cases hq
    exact ⟨hp.waiting, hp.pending, hp.handing⟩
  | fire hq =>
    obtain ⟨x, rest, hpending, rfl⟩ := fire_cases hq
    refine ⟨hp.waiting, fun y hy => hp.pending y (hpending ▸ List.mem_cons_of_mem _ hy), ?_⟩
    intro m a ha
    cases ha
    exact hp.pending x (hpending ▸ List.mem_cons_self)
  | deliver hq =>
    obtain ⟨m, task, hthread, hr⟩ := deliver_cases hq
    have hposted := hp.postTo fun _ : m ≠ l => hp.handing m task hthread
    rw [hr]
    exact ⟨hposted.waiting, hposted.pending, fun _ _ ha => nomatch ha⟩
  | dismiss hq =>
    rw [dismiss_eq hq]
    exact ⟨hp.waiting, hp.pending, fun _ _ ha => nomatch ha⟩

theorem Apart.progress (h : p.Apart Task l) {w : Nat} {rest : Option α}
    (hq : p.progress w rest = some q) : q.Apart Task l := by
  obtain ⟨m, a, -, rfl⟩ := progress_cases hq
  exact ⟨h.waiting, h.pending, h.handing⟩

end Apart

end Pool

namespace Machine

open Pool (Lane Use)

variable {σ α ρ ω : Type} {P : Program σ α ρ ω} {m m' : Machine σ α} {move : Move α ρ}
  {events : List ω} {u : Turn α ρ} {l : Lane}

/-- What remains of the calls, what workers are at, and what waits in a lane. -/
def stock (m : Machine σ α) (l : Lane) : List α := m.callers ++ m.pool.load l

/-- **A turn and the stock**: the activity whose turn it is leaves it, and what remains of it and
what it submitted come in. -/
theorem stock_turn {Task : Lane → α → Prop}
    (uses : ∀ {now self w p a reply e}, P.act now self w p a reply = some e → Use Task p e.pool)
    (h : m.step P move = some (m', events)) (hu : Transition.turn? ⟨m, move, m'⟩ = some u)
    (l : Lane) :
    ∃ self e others, P.act m.now self m.world m.pool u.activity u.reply = some e ∧
      m'.world = e.world ∧ events = e.events ∧ m.stock l ~ u.activity :: others ∧
      ∀ posted, (e.pool.lanes.get l).waiting = (m.pool.lanes.get l).waiting ++ posted →
        m'.stock l ~ e.rest.toList ++ posted ++ others := by
  obtain ⟨self, e, he, hworld, hevents, ⟨-, hq, i, hi, hcs⟩ | ⟨hcs, w, hd, hq⟩⟩ := step_turn h hu
  · obtain ⟨before, after, hbefore, hafter⟩ := afterCall_eq hi
    refine ⟨self, e, before ++ after ++ m.pool.load l, he, hworld, hevents, ?_,
      fun posted hposted => ?_⟩
    · unfold stock
      rw [hbefore, List.append_assoc before, List.append_assoc]
      exact List.perm_middle
    · unfold stock Pool.load
      rw [hcs, hafter, hq, (uses he).underway, hposted]
      simp only [← Multiset.coe_eq_coe, ← Multiset.coe_add]
      ac_rfl
  · obtain ⟨others, hbefore, hafter⟩ := Pool.underway_progress ((uses he).duty? hd) hq
    rw [(uses he).underway] at hbefore
    refine ⟨self, e, m.callers ++ (others ++ (m.pool.lanes.get l).waiting), he, hworld, hevents,
      ?_, ?_⟩
    · exact ((hbefore.append_right _).append_left _).trans List.perm_middle
    · intro posted hposted
      unfold stock Pool.load
      rw [hcs, Pool.lanes_progress hq, hposted]
      refine ((hafter.append_right _).append_left _).trans ?_
      simp only [← Multiset.coe_eq_coe, ← Multiset.coe_add]
      ac_rfl

/-- **Nobody's turn and the stock**: nothing leaves it, and what comes in is called or was elsewhere
in the pool. -/
theorem stock_idle (h : m.step P move = some (m', events))
    (hu : Transition.turn? ⟨m, move, m'⟩ = none) (l : Lane) :
    m'.world = m.world ∧ ∃ new, m'.stock l ~ new ++ m.stock l ∧
      ∀ a ∈ new, move = .call a ∨ m.pool.Elsewhere l a := by
  obtain ⟨hworld, ⟨a, rfl, hcs, hq⟩ | ⟨hcs, hq | hchore⟩⟩ := step_idle h hu
  · refine ⟨hworld, [a], ?_, fun b hb => .inl (by rw [List.mem_singleton.mp hb])⟩
    unfold stock
    rw [hcs, hq, List.append_assoc]
    exact List.perm_middle
  · refine ⟨hworld, [], ?_, nofun⟩
    unfold stock
    rw [hcs, hq]
    exact .refl _
  · obtain ⟨new, hnew, hmem⟩ := hchore.load l
    refine ⟨hworld, new, ?_, fun a ha => .inr (hmem a ha)⟩
    unfold stock
    rw [hcs]
    exact (hnew.append_left _).trans (List.perm_append_comm_assoc ..)

/-- What is elsewhere stays so, if every activity sees to it in its turn. -/
theorem apart_step {Task : α → Prop} (hp : m.pool.Apart Task l)
    (h : m.step P move = some (m', events))
    (act : ∀ self a reply e, P.act m.now self m.world m.pool a reply = some e →
      e.pool.Apart Task l) : m'.pool.Apart Task l := by
  cases hu : Transition.turn? ⟨m, move, m'⟩ with
  | some u =>
    obtain ⟨self, e, he, -, -, ⟨-, hq, -⟩ | ⟨-, w, -, hq⟩⟩ := step_turn h hu
    · exact hq ▸ act self _ _ e he
    · exact (act self _ _ e he).progress hq
  | none =>
    obtain ⟨-, ⟨a, -, -, hq⟩ | ⟨-, hq | hchore⟩⟩ := step_idle h hu
    · exact hq ▸ hp
    · exact hq ▸ hp
    · exact hchore.apart hp

end Machine

end ArcadeUplink
