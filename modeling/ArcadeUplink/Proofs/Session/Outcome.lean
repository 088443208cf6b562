import ArcadeUplink.Proofs.Session.Gating

/-!
# Work after the handshake

What the host has done after it has had the device authenticate finds out how
that went: it comes to its gate only when the handshake has failed or the pairing
is known (`Run.outcome_known`), however long the handshake takes and whatever
other lanes do. For the handshake is in the main lane, in front of all that was
submitted later, and a lane is a queue.

The host calls from one thread, and no call fails in an unforeseen way: such a
failure would end the handshake and leave the status as it was. Work that the
host has submitted before may well find the handshake under way.
-/

namespace ArcadeUplink.Engine

open scoped List
open Pool (Lane)

/-- Whether the host makes a call in a step. -/
def isCall (t : Transition) : Bool :=
  match t.move with
  | .call _ => true
  | _ => false

/-- The host makes no call before its last one has returned. -/
abbrev OneAtATime (ts : List Transition) : Prop :=
  ∀ t ∈ ts, isCall t = true → t.before.callers.isEmpty = true

section Run

variable {s : Setup} {start : Nat} {ts pre mid post : List Transition} {t : Transition}
  {m : System} {n k : Nat}

/-! ## The handshake is begun -/

theorem turned_ne_notAuthenticated {st : Status} (h : st ≠ .notAuthenticated) (a : Activity) :
    st.turned a ≠ .notAuthenticated := by
  intro heq
  have hmem := Status.turned_mem_future (Status.mem_future_self st) a
  rw [heq] at hmem
  cases st with
  | notAuthenticated => exact h rfl
  | _ => exact absurd hmem (by decide)

theorem Run.started_step (h : Run s start (pre ++ t :: post) m)
    (hb : t.before.world.status ≠ .notAuthenticated) :
    t.after.world.status ≠ .notAuthenticated := by
  obtain ⟨-, events, hstep⟩ := h.before
  obtain hsame | ⟨u, -, hturned⟩ := status_step hstep
  · rwa [hsame]
  · rw [hturned]
    exact turned_ne_notAuthenticated hb _

/-- A call to authenticate stays, until in its turn the device does. -/
theorem Run.asked_step (h : Run s start (pre ++ t :: post) m)
    (hasked : .authenticate ∈ t.before.callers) :
    .authenticate ∈ t.after.callers ∨ t.after.world.status ≠ .notAuthenticated := by
  cases hu : t.turn? with
  | none =>
    obtain ⟨-, events, hstep⟩ := h.before
    obtain ⟨-, ⟨a, -, hcs, -⟩ | ⟨hcs, -⟩⟩ := Machine.step_idle hstep hu
    · rw [hcs]
      exact .inl (List.mem_append_left _ hasked)
    · rw [hcs]
      exact .inl hasked
  | some u =>
    obtain ⟨lane, a, reply⟩ := u
    obtain ⟨self, r, -, htook⟩ := h.turn hu
    obtain ⟨-, before, after, hbefore, hafter⟩ | ⟨-, hsame⟩ := htook.callers
    · rw [hbefore] at hasked
      rw [hafter, List.append_assoc]
      rcases List.mem_append.mp hasked with hfront | hback
      · exact .inl (List.mem_append_left _ hfront)
      rcases List.mem_cons.mp hback with rfl | hback
      · right
        rw [htook.world, htook.behaves.status]
        show (if t.before.world.status = .notAuthenticated then _ else _) ≠ _
        split
        · exact nofun
        · assumption
      · exact .inl (List.mem_append_right _ (List.mem_append_right _ hback))
    · rw [hsame]
      exact .inl hasked

/-- **Once the device was asked to authenticate** it does, at the latest before that call returns. -/
theorem Run.started (h : Run s start ts m) (ht : t ∈ ts) (hcall : t.move = .call .authenticate) :
    .authenticate ∈ m.callers ∨ m.world.status ≠ .notAuthenticated := by
  induction h with
  | start => cases ht
  | @step ts m m' move events hts hopen hstep ih =>
    have hrun : Run s start (ts ++ ⟨m, move, m'⟩ :: []) m' := .step hts hopen hstep
    rcases List.mem_append.mp ht with ht | ht
    · obtain hasked | hstatus := ih ht
      · exact hrun.asked_step hasked
      · exact .inr (hrun.started_step hstatus)
    · cases List.mem_singleton.mp ht
      have hcall : move = .call .authenticate := hcall
      subst hcall
      cases hstep
      exact .inl (List.mem_append_right _ List.mem_cons_self)

end Run

/-! ## Where the handshake is -/

section Line

variable {s : Setup} {start : Nat} {ts : List Transition} {m : System} {a : Activity} {l : Lane}
  {x : Stage}

theorem main_of_stage (ha : a.stage? = some x) (hl : some l ∈ a.places) : l = .main := by
  unfold Activity.stage? at ha
  split at ha
  all_goals first
    | exact Option.some.inj (List.mem_singleton.mp hl)
    | simp_all [Activity.places]

/-- What a worker is at is being done in its lane. -/
theorem Placed.atWork_of_underway (hm : Placed m) (ha : a ∈ m.pool.underway) :
    ∃ l, some l ∈ a.places ∧ a ∈ m.pool.atWork l := by
  obtain ⟨w, hw, htask⟩ := List.mem_filterMap.mp ha
  have hmeets := hm.pool.running w hw
  cases hd : w.duty with
  | running lane task =>
    rw [hd] at htask hmeets
    cases htask
    cases lane with
    | none => exact hmeets.elim
    | some l =>
      refine ⟨l, hmeets.1, List.mem_filterMap.mpr ⟨w, hw, ?_⟩⟩
      rw [hd, Pool.Duty.taskOn?_running_self]
  | _ =>
    rw [hd] at htask
    cases htask

/-- Whoever is at the handshake is a caller, or in the line of the main lane. -/
theorem Placed.mem_line (hm : Placed m) (hstock : a ∈ m.stock .main) (ha : a.stage? = some x) :
    a ∈ m.callers ∨ a ∈ m.pool.line .main := by
  rcases List.mem_append.mp hstock with hcaller | hload
  · exact .inl hcaller
  right
  rcases List.mem_append.mp hload with hunderway | hwait
  · obtain ⟨l, hplace, hwork⟩ := hm.atWork_of_underway hunderway
    obtain rfl := main_of_stage ha hplace
    exact List.mem_append_left _ hwork
  · exact List.mem_append_right _ hwait

/-- While the status says that the handshake is under way, somebody is at it. -/
theorem Run.exists_stage (h : Run s start ts m) (hcalm : ¬Panicked ts)
    (hs : m.world.status = .authenticating ∨ m.world.status = .checkingPairing) :
    ∃ a x, a ∈ m.stock .main ∧ a.stage? = some x ∧ stages m = [x] := by
  obtain ⟨x, hx⟩ := h.handshake.exists_stage hcalm hs
  have hmem : x ∈ stages m := hx ▸ List.mem_singleton_self x
  obtain ⟨a, ha, hstage⟩ := List.mem_filterMap.mp hmem
  exact ⟨a, x, ha, hstage, hx⟩

/-- Nothing is submitted by whoever is at the handshake in the main lane. -/
theorem posted_of_stage {e : Engine} {p : Workers} (ha : a.stage? = some x)
    (hplace : some .main ∈ a.places) (l : Lane) : posted e p l a = [] := by
  unfold Activity.stage? at ha
  split at ha
  all_goals first | rfl | cases ha; done | simp [Activity.places] at hplace

/-- **The handshake goes on** in the place of the one who was at it, as long as the status says that
it is under way. -/
theorem Took.stage_goes_on {t : Transition} {reply : Option Reply} {w : Option Nat} {r : Result}
    {pre : List Transition} (htook : Took t (some .main) a reply w r)
    (h : Run s start pre t.before) (hcalm : ¬Panicked pre) (hreply : reply ≠ some .panic)
    (hmem : x ∈ stages t.before) (ha : a.stage? = some x)
    (hs : t.after.world.status = .authenticating ∨ t.after.world.status = .checkingPairing) :
    ∃ b y, r.rest = some b ∧ b.stage? = some y := by
  have hstages : stages t.before ~ a.stage?.toList ++ [] := by
    rw [h.handshake.eq_singleton hmem, ha]
    exact .refl _
  have hnext := htook.behaves.handshake (h.handshake.of_perm hstages) htook.cleared
  rw [htook.world, htook.behaves.status] at hs
  obtain ⟨y, hy⟩ := hnext.exists_stage (not_or.mpr ⟨hcalm, hreply⟩) hs
  rw [posted_of_stage ha htook.place, List.append_nil, List.append_nil] at hy
  cases hrest : r.rest with
  | none =>
    rw [hrest] at hy
    cases hy
  | some b =>
    rw [hrest, Option.toList_some] at hy
    cases hb : b.stage? with
    | none =>
      rw [List.filterMap_cons_none hb] at hy
      cases hy
    | some z => exact ⟨b, z, rfl, hb⟩

/-! ## Ahead of later work -/

/-- While the handshake is under way it is in the main lane, among the tasks that were there when
`n` of them waited and of which `k` have been begun since. -/
def Ahead (n k : Nat) (m : System) : Prop :=
  m.world.status = .authenticating ∨ m.world.status = .checkingPairing →
    ∃ front a x back, m.pool.line .main = front ++ a :: back ∧ a.stage? = some x ∧
      front.length + k + 1 ≤ n + (m.pool.atWork .main).length

theorem Run.ahead_start (h : Run s start ts m) (hcalm : ¬Panicked ts) (hcallers : m.callers = []) :
    Ahead (m.pool.lanes.get .main).waiting.length 0 m := by
  intro hs
  obtain ⟨a, x, hstock, ha, -⟩ := h.exists_stage hcalm hs
  obtain hcaller | hline := h.placed.mem_line hstock ha
  · rw [hcallers] at hcaller
    cases hcaller
  · obtain ⟨front, back, hsplit⟩ := List.append_of_mem hline
    refine ⟨front, a, x, back, hsplit, ha, ?_⟩
    have hlength := congrArg List.length hsplit
    unfold Pool.line at hlength
    simp only [List.length_append, List.length_cons] at hlength
    omega

theorem under_way_before {st st' : Status} (hnext : st.canBecome st' = true)
    (hstarted : st ≠ .notAuthenticated)
    (hs : st' = .authenticating ∨ st' = .checkingPairing) :
    st = .authenticating ∨ st = .checkingPairing := by
  obtain rfl | rfl := hs <;> cases st <;> simp_all [Status.canBecome]

/-- **Nobody gets ahead of the handshake.** -/
theorem Ahead.step {n k : Nat} {t : Transition} (h : Run s start (ts ++ t :: []) m)
    (hcalm : ¬Panicked (ts ++ [t])) (hstarted : t.before.world.status ≠ .notAuthenticated)
    (hahead : Ahead n k t.before) : Ahead n (k + (t.begins .main).toNat) t.after := by
  intro hs'
  obtain ⟨hpre, events, hstep⟩ := h.before
  have hs : t.before.world.status = .authenticating ∨ t.before.world.status = .checkingPairing := by
    obtain hsame | hnext := h.status_cases
    · rwa [hsame] at hs'
    · exact under_way_before hnext hstarted hs'
  obtain ⟨front, a, x, back, hline, ha, hlength⟩ := hahead hs
  obtain ⟨rfl, reply, hu⟩ | ⟨front', back', hline', hle⟩ := h.stays_in_line hline
  · obtain ⟨self, r, -, htook⟩ := h.turn hu
    obtain ⟨others, -, hafter⟩ := htook.line_own
    obtain ⟨hwork, hwork'⟩ := htook.work .main rfl
    have hbegins : t.begins .main = false := by
      unfold Machine.Transition.begins
      rw [hwork]
      rfl
    have hreply : reply ≠ some .panic := by
      rintro rfl
      exact hcalm ⟨t, List.mem_append_right _ List.mem_cons_self, isPanic_of_turn hu rfl⟩
    obtain ⟨b, y, hrest, hb⟩ := htook.stage_goes_on hpre (fun hp => hcalm (hp.append _)) hreply
      (stage_of_turn hu hstep ha) ha hs'
    rw [hrest] at hafter hwork'
    refine ⟨[], b, y, _, hafter, hb, ?_⟩
    rw [hwork] at hlength
    rw [hbegins, hwork']
    exact hlength
  · exact ⟨front', a, x, back', hline', ha, by omega⟩

/-- **From a moment on when no call of the host is under way** the handshake, if it has been begun, is
ahead of whatever comes to the main lane. -/
theorem Run.ahead {pre mid : List Transition} {c : Transition}
    (h : Run s start (pre ++ c :: mid) m) (hcalm : ¬Panicked (pre ++ c :: mid))
    (hcallers : c.before.callers = []) (hstarted : c.before.world.status ≠ .notAuthenticated) :
    m.world.status ≠ .notAuthenticated ∧
      Ahead (c.before.pool.lanes.get .main).waiting.length
        ((c :: mid).countP (·.begins .main)) m := by
  induction mid using List.reverseRecOn generalizing m with
  | nil =>
    obtain ⟨-, rfl, -⟩ := Machine.Course.of_concat h
    have hbefore := h.before.1.ahead_start (fun hp => hcalm (hp.append _)) hcallers
    have hnext := hbefore.step h hcalm hstarted
    refine ⟨h.started_step hstarted, ?_⟩
    rw [List.countP_singleton]
    rw [Nat.zero_add] at hnext
    cases hb : c.begins .main <;> rw [hb] at hnext <;> exact hnext
  | append_singleton mid u ih =>
    have hsplit : pre ++ c :: (mid ++ [u]) = pre ++ c :: mid ++ [u] := by
      rw [List.append_assoc, List.cons_append]
    rw [hsplit] at h hcalm
    obtain ⟨hbefore, rfl, -⟩ := Machine.Course.of_concat h
    obtain ⟨hnot, hahead⟩ := ih hbefore fun hp => hcalm (hp.append _)
    have hnext := hahead.step h hcalm hnot
    refine ⟨h.started_step hnot, ?_⟩
    rw [← List.cons_append, List.countP_append, Pool.countP_one]
    exact hnext

end Line

/-! ## What later work finds -/

theorem stage_of_gate {a : Activity} {g : Gate} (h : a.gate? = some g) : a.stage? = none := by
  cases a <;> first | rfl | cases h

/-- What the tasks of the main lane find at their gates. -/
structure OutcomeKnown (ts : List Transition) : Prop where
  /-- None of them finds that the pairing is being looked up. -/
  never_checking : ∀ t ∈ ts, ∀ a reply g, t.turn? = some ⟨some .main, a, reply⟩ →
    a.gate? = some g → t.before.world.status ≠ .checkingPairing
  /-- Whatever is submitted after the host has had the device authenticate finds out how that went.
  `c` is a call that the host makes then. Since that call more tasks of the lane were begun than
  waited at the time, so the one that is at its gate has been submitted since. -/
  settled : ∀ pre c mid t post, ts = pre ++ c :: (mid ++ t :: post) →
    (∃ u ∈ pre, u.move = .call .authenticate) → isCall c = true →
    (c.before.pool.lanes.get .main).waiting.length < (c :: mid).countP (·.begins .main) →
    ∀ a reply g, t.turn? = some ⟨some .main, a, reply⟩ → a.gate? = some g →
    t.before.world.status ∈ [Status.unpaired, .paired, .failed]

section Run

variable {s : Setup} {start : Nat} {ts pre post : List Transition} {t : Transition} {m : System}
  {a : Activity} {reply : Option Reply} {g : Gate}

/-- Whoever looks up the pairing after a handshake is a task of the main lane, and has begun. -/
theorem places_of_checking (ha : a.stage? = some .checking) :
    none ∉ a.places ∧ ∀ l, a.isTask l = false := by
  obtain rfl | ⟨call, rfl⟩ | ⟨pairing, rfl⟩ | rfl | rfl := Activity.of_stage ha
  all_goals exact ⟨by simp [Activity.places], fun _ => rfl⟩

/-- No task of the main lane is at its gate while the pairing is being looked up. -/
theorem Run.not_checking (h : Run s start (pre ++ t :: post) m) (hcalm : ¬Panicked pre)
    (ht : t.turn? = some ⟨some .main, a, reply⟩) (ha : a.gate? = some g) :
    t.before.world.status ≠ .checkingPairing := by
  intro hs
  obtain ⟨hpre, -⟩ := h.before
  obtain ⟨self, r, -, htook⟩ := h.turn ht
  obtain ⟨b, x, hstock, hb, hstages⟩ := hpre.exists_stage hcalm (.inr hs)
  obtain rfl := (hstages ▸ hpre.handshake).checking_of_status hs
  obtain ⟨hplace, htask⟩ := places_of_checking hb
  obtain hcaller | hline := hpre.placed.mem_line hstock hb
  · exact hplace (hpre.placed.callers b hcaller).1
  rcases List.mem_append.mp hline with hwork | hwait
  · rw [(htook.work .main rfl).1] at hwork
    obtain rfl := List.mem_singleton.mp hwork
    cases (stage_of_gate ha).symm.trans hb
  · exact absurd (hpre.placed.pool.waiting .main b hwait).1 (Bool.eq_false_iff.mp (htask _))

/-- **Work of the main lane finds out how the handshake went**, if the host calls from one thread
and no call fails in an unforeseen way. -/
theorem Run.outcome_known (h : Run s start ts m) (hone : OneAtATime ts) (hcalm : ¬Panicked ts) :
    OutcomeKnown ts where
  never_checking := by
    rintro t ht a reply g hturn ha
    obtain ⟨pre, post, rfl⟩ := List.append_of_mem ht
    exact h.not_checking (fun hp => hcalm (hp.append _)) hturn ha
  settled := by
    rintro pre c mid t post rfl ⟨u, hu, hcall⟩ hc hcount a reply g hturn ha
    have hsplit : pre ++ c :: (mid ++ t :: post) = pre ++ c :: mid ++ t :: post := by
      rw [List.append_assoc, List.cons_append]
    rw [hsplit] at h hcalm
    obtain ⟨hbefore, -⟩ := h.before
    obtain ⟨self, r, -, htook⟩ := h.turn hturn
    have hcallers : c.before.callers = [] :=
      List.isEmpty_iff.mp (hone c (List.mem_append_right _ List.mem_cons_self) hc)
    have hstarted : c.before.world.status ≠ .notAuthenticated := by
      refine (hbefore.before.1.started hu hcall).resolve_left ?_
      rw [hcallers]
      exact List.not_mem_nil
    obtain ⟨hnot, hahead⟩ := hbefore.ahead (fun hp => hcalm (hp.append _)) hcallers hstarted
    have hpast : ¬(t.before.world.status = .authenticating ∨
        t.before.world.status = .checkingPairing) := by
      intro hs
      obtain ⟨front, b, x, back, hline, hb, hlength⟩ := hahead hs
      obtain ⟨others, hown, -⟩ := htook.line_own
      rw [(htook.work .main rfl).1] at hlength
      rw [hown] at hline
      cases front with
      | nil =>
        obtain ⟨rfl, -⟩ := List.cons.inj hline
        cases (stage_of_gate ha).symm.trans hb
      | cons d front =>
        simp only [List.length_cons, List.length_nil] at hlength
        omega
    cases hs : t.before.world.status with
    | notAuthenticated => exact absurd hs hnot
    | authenticating => exact absurd (.inl hs) hpast
    | checkingPairing => exact absurd (.inr hs) hpast
    | _ => decide

end Run

/-- The host requests the top scores before the handshake has begun. -/
def Sample.ask : List (Machine.Move Activity Reply) :=
  [.call (.request ⟨.topScores 0, 0, false⟩), .caller 0 none]

/-- A request that was made before the handshake had begun, and finds the device paired. -/
theorem request_outcome_known :
    ∃ ts m, Run Sample.setup 0 ts m ∧ OneAtATime ts ∧ ¬Panicked ts ∧
      ts.countP (·.begins .main) = 2 ∧ asked .topScores ts = 1 ∧ OutcomeKnown ts := by
  have hcourse : ((system Sample.setup 0).course? program Activity.isHostCall
      (Sample.arrive ++ Sample.ask ++ Sample.signIn ++ [.worker 0 none, .worker 0 none])).any
      (fun x => decide (OneAtATime x.1 ∧ ¬Panicked x.1 ∧ x.1.countP (·.begins .main) = 2 ∧
        asked .topScores x.1 = 1)) = true := by
    decide +kernel
  obtain ⟨ts, m, hrun, hfound⟩ := Machine.exists_course hcourse
  obtain ⟨hone, hcalm, hbegun, hasked⟩ := of_decide_eq_true hfound
  exact ⟨ts, m, hrun, hone, hcalm, hbegun, hasked, Run.outcome_known hrun hone hcalm⟩

end ArcadeUplink.Engine
