import ArcadeUplink.Proofs.Session.Handshake

/-!
# The status along a run

The status follows its diagram. `Run.in_diagram` says of every run that each
change of the status is one of the diagram's, whoever makes it and whatever
others do meanwhile; that a device becomes paired only when the server has said
so, and unpaired again only when the server has carried out that request; and
that whatever the diagram leaves behind never comes back: a failure is for good,
a handshake is begun, signed and sent at most once.

Who looks at the status and acts on it later may find it changed. That is why
every change is guarded by the states that it may start from, and why the
diagram is kept whatever was looked up before.
-/

namespace ArcadeUplink

open Pool (Lane)

namespace Status

/-- The states that may still come. -/
def future : Status → List Status
  | notAuthenticated => all
  | authenticating => [authenticating, checkingPairing, unpaired, paired, failed]
  | checkingPairing => [checkingPairing, unpaired, paired]
  | unpaired | paired => [unpaired, paired]
  | failed => [failed]

theorem mem_future_self (s : Status) : s ∈ s.future := by
  cases s <;> decide

theorem future_canBecome {s t u : Status} (ht : t ∈ s.future) (h : t.canBecome u = true) :
    u ∈ s.future := by
  cases s <;> cases t <;> cases u <;> revert ht h <;> decide

theorem turned_mem_future {s t : Status} (ht : t ∈ s.future) (a : Activity) :
    t.turned a ∈ s.future := by
  obtain hsame | hnext := t.turned_cases a
  · rwa [hsame]
  · exact future_canBecome ht hnext

/-- Once the handshake has been begun, or has got on, it is not where it was before. -/
theorem not_mem_future {s t : Status} (hs : s = notAuthenticated ∨ s = authenticating)
    (h : s.canBecome t = true) : s ∉ t.future := by
  obtain rfl | rfl := hs <;> cases t <;> revert h <;> decide

/-- Only who has looked up the pairing makes a device paired. -/
theorem paired_of_turned {s : Status} {a : Activity} (h : s.turned a = paired) (hs : s ≠ paired) :
    ∃ occasion, a = .settlePaired occasion := by
  unfold turned at h
  split at h
  · split at h <;> first | exact absurd h hs | cases h
  · split at h <;> first | exact absurd h hs | cases h
  · split at h <;> first | exact absurd h hs | cases h
  · exact ⟨_, rfl⟩
  · split at h <;> first | exact absurd h hs | cases h
  · split at h <;> first | exact absurd h hs | cases h
  · exact absurd h hs

/-- Only who was told that the device is no longer paired makes it unpaired again. -/
theorem unpaired_of_turned {a : Activity} (h : paired.turned a = unpaired) :
    ∃ t body, a = .leavePairing t body := by
  cases a with
  | leavePairing t body => exact ⟨t, body, rfl⟩
  | _ => cases h

end Status

namespace Engine

section Run

variable {s : Setup} {start : Nat} {ts pre mid post : List Transition} {t u : Transition}
  {m : System}

/-- Each change of the status is one of the diagram's, made in the turn of an activity. -/
theorem Run.status_cases (h : Run s start (pre ++ t :: post) m) :
    t.after.world.status = t.before.world.status ∨
      t.before.world.status.canBecome t.after.world.status = true := by
  obtain ⟨-, events, hstep⟩ := h.before
  obtain hsame | ⟨u, -, hturned⟩ := status_step hstep
  · exact .inl hsame
  · rw [hturned]
    exact Status.turned_cases _ _

/-- The status moves on along the diagram. -/
theorem Run.mem_future (h : Run s start (pre ++ t :: mid) m) :
    m.world.status ∈ t.after.world.status.future := by
  refine Machine.Course.since (motive := fun m => m.world.status ∈ t.after.world.status.future) h
    (Status.mem_future_self _) fun vs u ws hsplit _ hfuture => ?_
  have hrun : Run s start (vs ++ u :: ws) m := hsplit ▸ h
  obtain ⟨-, events, hstep⟩ := hrun.before
  obtain hsame | ⟨u, -, hturned⟩ := status_step hstep
  · rwa [hsame]
  · rw [hturned]
    exact Status.turned_mem_future hfuture _

theorem Run.mem_future_of_mem (h : Run s start (pre ++ t :: post) m) (hu : u ∈ post) :
    u.after.world.status ∈ t.after.world.status.future := by
  obtain ⟨mid, rest, rfl⟩ := List.append_of_mem hu
  rw [← List.cons_append, ← List.append_assoc] at h
  have hupto := h.upto
  rw [List.append_assoc, List.cons_append] at hupto
  exact hupto.mem_future

/-! ## Who changes the pairing -/

/-- The server was asked for the pairing and has replied that the device is paired: the last two
turns of a task. -/
def ToldPaired (l : Lane) (us : List Transition) : Prop :=
  ∃ vs u v address occasion pairing, us = vs ++ [u, v] ∧ pairing.paired = true ∧
    u.turn? = some ⟨some l, .waiting (.pairingStatus address) (.pairing occasion),
      some (.pairing pairing)⟩ ∧
    v.turn? = some ⟨some l, .recordPairing pairing occasion, none⟩

/-- The server was asked to unpair the device and has done so: the last turn of a task. -/
def ToldUnpaired (us : List Transition) : Prop :=
  ∃ vs u address ticket body, us = vs ++ [u] ∧ ticket.request = .unpair ∧
    u.turn? = some ⟨some .main, .waiting (.unpair address) (.served ticket), some (.text body)⟩

theorem lane_of_settlePaired {lane : Option Lane} {occasion : Occasion}
    (h : lane ∈ (Activity.settlePaired occasion).places) : ∃ l, lane = some l := by
  cases occasion <;> exact ⟨_, List.mem_singleton.mp h⟩

/-- **A device becomes paired only when the server has said so**, to the task that makes it so. -/
theorem Run.told_paired (h : Run s start (pre ++ t :: post) m)
    (hafter : t.after.world.status = .paired) (hbefore : t.before.world.status ≠ .paired) :
    ∃ l, t.isOf l = true ∧ ToldPaired l (Machine.story l pre) := by
  obtain ⟨hpre, events, hstep⟩ := h.before
  obtain hsame | ⟨⟨lane, a, reply⟩, hu, hturned⟩ := status_step hstep
  · exact absurd (hsame.symm.trans hafter) hbefore
  have hu : t.turn? = some ⟨lane, a, reply⟩ := hu
  obtain ⟨occasion, rfl⟩ := Status.paired_of_turned (hturned.symm.trans hafter) hbefore
  obtain ⟨l, rfl⟩ := lane_of_settlePaired (Machine.Tended.fit_of_turn hpre.placed hu).1
  refine ⟨l, isOf_of_turn hu, ?_⟩
  obtain ⟨task, htask, htrail⟩ := h.trail_of_turn hu
  obtain ⟨vs, v, b, r, hstory, hvs, hv, horigin⟩ := trail_origin htrail htask rfl
  cases horigin
  obtain ⟨ws, w, b, r, rfl, hws, hw, horigin⟩ := trail_origin hvs htask rfl
  cases horigin with
  | isPaired hpaired =>
    obtain ⟨xs, x, b, r, rfl, -, -, horigin⟩ := trail_origin hws htask rfl
    cases horigin
    exact ⟨xs ++ [x], w, v, _, occasion, _, hstory.trans (List.append_assoc ..), hpaired, hw, hv⟩

/-- **A device becomes unpaired again only when the server has unpaired it**, as the task that makes
it so asked it to. -/
theorem Run.told_unpaired (h : Run s start (pre ++ t :: post) m)
    (hbefore : t.before.world.status = .paired) (hafter : t.after.world.status = .unpaired) :
    t.isOf .main = true ∧ ToldUnpaired (Machine.story .main pre) := by
  obtain ⟨hpre, events, hstep⟩ := h.before
  obtain hsame | ⟨⟨lane, a, reply⟩, hu, hturned⟩ := status_step hstep
  · cases (hsame.symm.trans hafter).symm.trans hbefore
  have hu : t.turn? = some ⟨lane, a, reply⟩ := hu
  rw [hbefore] at hturned
  obtain ⟨ticket, body, rfl⟩ := Status.unpaired_of_turned (hturned.symm.trans hafter)
  obtain rfl := List.mem_singleton.mp (Machine.Tended.fit_of_turn hpre.placed hu).1
  refine ⟨isOf_of_turn hu, ?_⟩
  obtain ⟨task, htask, htrail⟩ := h.trail_of_turn hu
  obtain ⟨vs, v, b, r, hstory, hvs, hv, horigin⟩ := trail_origin htrail htask rfl
  cases horigin with
  | servedUnpair hunpair =>
    obtain ⟨ws, w, b, r, rfl, -, -, horigin⟩ := trail_origin hvs htask rfl
    cases horigin
    rw [hunpair] at hv
    exact ⟨_, v, _, ticket, body, hstory, hunpair, hv⟩

/-! ## The diagram -/

/-- What holds of the status in the steps of a run. -/
structure InDiagram (ts : List Transition) : Prop where
  changes : ∀ t ∈ ts, t.after.world.status = t.before.world.status ∨
    t.before.world.status.canBecome t.after.world.status = true
  paired_when_told : ∀ pre t post, ts = pre ++ t :: post → t.after.world.status = .paired →
    t.before.world.status ≠ .paired → ∃ l, t.isOf l = true ∧ ToldPaired l (Machine.story l pre)
  unpaired_when_told : ∀ pre t post, ts = pre ++ t :: post → t.before.world.status = .paired →
    t.after.world.status = .unpaired → t.isOf .main = true ∧ ToldUnpaired (Machine.story .main pre)
  /-- A failure is for good. -/
  failed_for_good : ∀ pre t post, ts = pre ++ t :: post → t.after.world.status = .failed →
    ∀ u ∈ post, u.after.world.status = .failed
  /-- Once it was begun a handshake is not yet to be begun again; once it got on it is not under way
  again. -/
  left_for_good : ∀ pre t post st, ts = pre ++ t :: post →
    st = .notAuthenticated ∨ st = .authenticating → t.before.world.status = st →
    t.after.world.status ≠ st → ∀ u ∈ post, u.after.world.status ≠ st
  signed_once : asked .sign ts ≤ 1
  sent_once : asked .authenticate ts ≤ 1

/-- **The status follows its diagram in every run**, and what the diagram leaves behind never comes
back. -/
theorem Run.in_diagram (h : Run s start ts m) : InDiagram ts where
  changes t ht := by
    obtain ⟨pre, post, rfl⟩ := List.append_of_mem ht
    exact h.status_cases
  paired_when_told := by
    rintro pre t post rfl hafter hbefore
    exact h.told_paired hafter hbefore
  unpaired_when_told := by
    rintro pre t post rfl hbefore hafter
    exact h.told_unpaired hbefore hafter
  failed_for_good := by
    rintro pre t post rfl hfailed u hu
    have hfuture := h.mem_future_of_mem hu
    rw [hfailed] at hfuture
    exact List.mem_singleton.mp hfuture
  left_for_good := by
    rintro pre t post st rfl hst rfl hafter u hu heq
    obtain hsame | hnext := h.status_cases
    · exact hafter hsame
    · exact Status.not_mem_future hst hnext (heq ▸ h.mem_future_of_mem hu)
  signed_once := h.handshake.once.1
  sent_once := h.handshake.once.2

end Run

/-- The host has the device unpaired, and the server agrees. -/
def Sample.unpair : List (Machine.Move Activity Reply) :=
  [.call (.request ⟨.unpair, 0, false⟩), .caller 0 none, .take 0, .next 0, .worker 0 none, .worker 0 none,
    .worker 0 (some (.text "")), .worker 0 none, .worker 0 none, .next 0]

/-- A device that was paired and no longer is. -/
theorem unpaired_in_diagram :
    ∃ ts m, Run Sample.setup 0 ts m ∧ m.world.status = .unpaired ∧ InDiagram ts := by
  have hcourse : ((system Sample.setup 0).course? program Activity.isHostCall
      (Sample.arrive ++ Sample.signIn ++ Sample.unpair)).any
      (fun x => decide (x.2.world.status = .unpaired)) = true := by
    decide +kernel
  obtain ⟨ts, m, hrun, hstatus⟩ := Machine.exists_course hcourse
  exact ⟨ts, m, hrun, of_decide_eq_true hstatus, Run.in_diagram hrun⟩

end Engine

end ArcadeUplink
