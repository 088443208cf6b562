import ArcadeUplink.Proofs.Session.Diagram

/-!
# Who may call the server

Which calls a run makes, when, and as whom. `Run.gated` says of every run that
the server is called only as the device that it has greeted, with the token of
that greeting; that whoever calls it has passed the gate that the call needs,
earlier in the same task; and that a device whose handshake has failed calls
nobody any more. What a gate refuses ends there.

A gate is looked at once. By the time of the call the status may be another one,
but one of those that the gate sees to (`Gate.held`).
-/

namespace ArcadeUplink

open Pool (Lane)

/-- The gate that an activity looks at in its turn. -/
def Activity.gate? : Activity → Option Gate
  | .uploadGate .. | .historyGate _ => some .paired
  | .serve t => some (Engine.gateOf t.request)
  | .reportGate _ | .beatGate => some .settled
  | _ => none

/-- The gate that has to be passed for a call. -/
def ServerCall.gate? : ServerCall → Option Gate
  | .gameData .. | .uploadHistory .. | .topScores .. | .unpair _ => some .paired
  | .installed .. | .heartbeat _ => some .settled
  | .pairCode _ => some .authenticated
  | .sign _ | .authenticate .. | .pairingStatus _ | .download _ => none

namespace Engine

section Origin

variable {e : Engine} {p : Workers} {a b : Activity} {reply : Option Reply} {g : Gate}
  {call : ServerCall}

/-- **A gate that refuses leaves nothing to be done**, unless a callback goes on. -/
theorem Origin.open_gate (h : Origin e p a reply b) (ha : a.gate? = some g)
    (hb : b.isLife = false) : e.status ∈ g.states := by
  cases h with
  | told => cases hb
  | beatGate hopen | uploadGate hopen | historyGate hopen | reportGate hopen
  | serveCode hopen _ | serve hopen _ =>
    cases ha
    exact hopen
  | _ => cases ha

/-- Whoever looks at a gate goes on to a stop only if a callback asks for it. -/
theorem Origin.told_of_gate (h : Origin e p a reply b) (ha : a.gate? = some g)
    (hb : b.isLife = true) : ∃ n failing, notices e p a reply = [n] ∧ n.ticket.stops = true ∧
      b = .shutDown failing := by
  cases h with
  | told htold hstops => exact ⟨_, _, htold, hstops, rfl⟩
  | started | shutDown | stopping => cases ha
  | _ => cases hb

/-- Whoever has a gate behind him has just passed it, or had it behind him already. -/
theorem Origin.behind_gate (h : Origin e p a reply b) (hb : b.passed? = some g) :
    (a.gate? = some g ∧ reply = none ∧ e.status ∈ g.states) ∨ a.passed? = some g := by
  cases h with
  | beatGate hopen | uploadGate hopen | historyGate hopen | reportGate hopen
  | serveCode hopen _ | serve hopen _ =>
    cases hb
    exact .inl ⟨rfl, rfl, hopen⟩
  | @askPairing occasion => cases occasion <;> exact .inr hb
  | @isPaired _ _ occasion _ => cases occasion <;> exact .inr hb
  | @notPaired _ occasion _ => cases occasion <;> exact .inr hb
  | @recorded _ occasion => cases occasion <;> exact .inr hb
  | _ => first | exact .inr hb | cases hb

theorem gate_callOf (e : Engine) (r : Request) : (callOf e r).gate? = some (gateOf r) := by
  cases r <;> rfl

/-- Whoever makes a call has the gate behind him that it needs. -/
theorem Origin.gate_of_call (h : Origin e p a reply b) (hb : b.awaited? = some call)
    (hcall : call.gate? = some g) : a.passed? = some g := by
  cases h with
  | callRequest =>
    cases hb
    exact (gate_callOf _ _).symm.trans hcall
  | _ => cases hb <;> first | exact hcall | cases hcall

/-- Whoever makes a call is at the handshake, or has a gate behind him. -/
theorem Origin.caller (h : Origin e p a reply b) (hb : b.awaited? = some call) :
    a.stage?.isSome = true ∨ ∃ g, a.passed? = some g := by
  cases h with
  | @askPairing occasion => cases occasion <;> first | exact .inl rfl | exact .inr ⟨_, rfl⟩
  | _ => first | exact .inl rfl | exact .inr ⟨_, rfl⟩ | cases hb

/-- Who makes a call for which there is a gate is no task of which nothing is done yet. -/
theorem Origin.not_task_of_call (h : Origin e p a reply b) (hb : b.awaited? = some call)
    (hcall : call.gate? = some g) (l : Lane) : a.isTask l = false := by
  cases h with
  | download =>
    cases hb
    cases hcall
  | sign =>
    cases hb
    cases hcall
  | _ => first | rfl | cases hb

/-- Only who is to ask for the pairing does. -/
theorem Origin.asking (h : Origin e p a reply b) (hb : b.awaited? = some call)
    (hcall : call.method = .pairingStatus) : ∃ occasion, a = .askPairing occasion := by
  cases h with
  | askPairing => exact ⟨_, rfl⟩
  | @callRequest t =>
    cases hb
    unfold callOf at hcall
    split at hcall <;> cases hcall
  | _ => cases hb <;> cases hcall

/-- The host's own calls never call anybody. -/
theorem Origin.caller_place (h : Origin e p a reply b) (hb : b.awaited? = some call) :
    none ∉ a.places := by
  cases h with
  | @askPairing occasion => cases occasion <;> simp [Activity.places]
  | _ => first | (simp [Activity.places]; done) | cases hb

/-- **As whom a call is made**: a handshake without a token, everything else with the token that is
remembered. -/
theorem Origin.address (h : Origin e p a reply b) (hb : b.awaited? = some call)
    {address : Endpoint} (hcall : call.endpoint? = some address) :
    (call.method = .authenticate ∧ address = ⟨e.setup.baseUrl, ""⟩) ∨
      (call.method ≠ .authenticate ∧ address = e.endpoint ∧
        (a.stage? = some .checking ∨ ∃ g, a.passed? = some g)) := by
  cases h with
  | signed =>
    cases hb
    cases hcall
    exact .inl ⟨rfl, rfl⟩
  | @askPairing occasion =>
    cases hb
    cases hcall
    cases occasion <;> first | exact .inr ⟨nofun, rfl, .inl rfl⟩ | exact .inr ⟨nofun, rfl, .inr ⟨_, rfl⟩⟩
  | @callRequest t =>
    cases hb
    refine .inr ⟨?_, ?_, .inr ⟨_, rfl⟩⟩
    · unfold callOf
      split <;> exact nofun
    · unfold callOf at hcall
      split at hcall <;> (cases hcall; rfl)
  | sign | download =>
    cases hb
    cases hcall
  | callHeartbeat | callUpload | callHistory | callInstalled =>
    cases hb
    cases hcall
    exact .inr ⟨nofun, rfl, .inr ⟨_, rfl⟩⟩
  | _ => cases hb

end Origin

/-! ## What led to a call -/

/-- The gate was looked at in one of the turns of a task, and it was open. -/
def Passed (l : Lane) (g : Gate) (us : List Transition) : Prop :=
  ∃ u ∈ us, ∃ a, u.turn? = some ⟨some l, a, none⟩ ∧ a.gate? = some g ∧
    u.before.world.status ∈ g.states

/-- The server was greeted and has replied, and the device has become authenticated by that: the
last turns of a task. -/
def Greeted (us : List Transition) : Prop :=
  ∃ vs u v w address request reply, us = vs ++ [u, v, w] ∧
    u.turn? = some ⟨some .main, .waiting (.authenticate address request) .greeted,
      some (.authenticated reply)⟩ ∧
    v.turn? = some ⟨some .main, .storeToken reply.token, none⟩ ∧
    w.turn? = some ⟨some .main, .enterChecking, none⟩

/-- A heartbeat has found the device unpaired: the last turn of a task. -/
def FoundUnpaired (us : List Transition) : Prop :=
  ∃ vs u, us = vs ++ [u] ∧ u.turn? = some ⟨some .heartbeat, .beatPairing, none⟩ ∧
    u.before.world.status = .unpaired

section Trail

variable {l : Lane} {task a : Activity} {us : List Transition} {g : Gate}

/-- Of the tasks only a download has a gate behind it, and nothing remains of it that has one. -/
theorem Origin.not_task {e : Engine} {p : Workers} {b : Activity} {reply : Option Reply}
    (h : Origin e p b reply a) (ha : a.passed? = some g) (hb : b.passed? = some g) (l : Lane) :
    b.isTask l = false := by
  cases b with
  | download player url =>
    cases h with
    | told htold => cases htold
    | download => cases ha
  | _ => first | rfl | cases hb

/-- **Whoever has a gate behind him has passed it**, in an earlier turn of the same task. -/
theorem passed_of_trail (h : Machine.Trail program l task us a) (htask : task.isTask l = true)
    (ha : a.passed? = some g) (hnot : a.isTask l = false) : Passed l g us := by
  induction h with
  | begun => exact absurd htask (Bool.eq_false_iff.mp hnot)
  | @turn us t b a reply self r _ hturn hact hrest ih =>
    have horigin := (act_behaves hact).origin a hrest
    obtain ⟨hgate, rfl, hopen⟩ | hb := horigin.behind_gate ha
    · exact ⟨t, List.mem_append_right _ List.mem_cons_self, b, hturn, hgate, hopen⟩
    · obtain ⟨u, hu, hpassed⟩ := ih hb (horigin.not_task ha hb l)
      exact ⟨u, List.mem_append_left _ hu, hpassed⟩

/-- Whoever asks for the pairing has just greeted the server, or is a heartbeat that has found the
device unpaired. -/
theorem asking_of_trail {occasion : Occasion}
    (h : Machine.Trail program l task us (.askPairing occasion)) (htask : task.isTask l = true)
    (hplace : some l ∈ (Activity.askPairing occasion).places) :
    (l = .main ∧ Greeted us) ∨ (l = .heartbeat ∧ FoundUnpaired us) := by
  cases occasion with
  | handshake =>
    obtain rfl : l = .main := Option.some.inj (List.mem_singleton.mp hplace)
    refine .inl ⟨rfl, ?_⟩
    obtain ⟨vs, w, b, r, rfl, hvs, hw, horigin⟩ := trail_origin h htask rfl
    cases horigin
    obtain ⟨ws, v, b, r, rfl, hws, hv, horigin⟩ := trail_origin hvs htask rfl
    cases horigin
    obtain ⟨xs, u, b, r, rfl, hxs, hu, horigin⟩ := trail_origin hws htask rfl
    cases horigin with
    | @greeted _ reply =>
      obtain ⟨ys, y, b, r, rfl, -, -, horigin⟩ := trail_origin hxs htask rfl
      cases horigin
      refine ⟨ys ++ [y], u, v, w, _, _, reply, ?_, hu, hv, hw⟩
      simp only [List.append_assoc, List.cons_append, List.nil_append]
  | heartbeat =>
    obtain rfl : l = .heartbeat := Option.some.inj (List.mem_singleton.mp hplace)
    refine .inr ⟨rfl, ?_⟩
    obtain ⟨vs, u, b, r, rfl, -, hu, horigin⟩ := trail_origin h htask rfl
    cases horigin with
    | beatUnpaired hs => exact ⟨vs, u, rfl, hu, hs⟩

end Trail

/-! ## Calls of a run -/

section Run

variable {s : Setup} {start : Nat} {ts pre post : List Transition} {t u : Transition}
  {m : System} {call : ServerCall}

/-- **Every call is made by a task**, in a turn after which its reply is waited for. -/
theorem Run.caller (h : Run s start (pre ++ t :: post) m) (hcall : call ∈ calls t) :
    ∃ l a reply b, t.turn? = some ⟨some l, a, reply⟩ ∧ some l ∈ a.places ∧
      a.Cleared t.before.world.status ∧ Origin t.before.world t.before.pool a reply b ∧
      b.awaited? = some call := by
  cases hu : t.turn? with
  | none =>
    rw [(h.idle hu).1] at hcall
    cases hcall
  | some u =>
    obtain ⟨lane, a, reply⟩ := u
    obtain ⟨self, r, -, htook⟩ := h.turn hu
    rw [htook.calls, Option.mem_toList] at hcall
    obtain ⟨b, hrest, hb⟩ := Option.bind_eq_some_iff.mp hcall
    have horigin := htook.behaves.origin b hrest
    cases lane with
    | none => exact absurd htook.place (horigin.caller_place hb)
    | some l => exact ⟨l, a, reply, b, rfl, htook.place, htook.cleared, horigin, hb⟩

/-- Whoever is at the handshake in his turn is known to the diagram. -/
theorem stage_of_turn {lane : Option Lane} {a : Activity} {reply : Option Reply}
    (ht : t.turn? = some ⟨lane, a, reply⟩) {events : List EngineEvent}
    (hstep : t.before.step program t.move = some (t.after, events)) {x : Stage}
    (ha : a.stage? = some x) : x ∈ stages t.before := by
  obtain ⟨self, r, others, -, -, -, hbefore, -⟩ := Machine.stock_turn act_uses hstep ht .main
  exact List.mem_filterMap.mpr ⟨a, hbefore.mem_iff.mpr List.mem_cons_self, ha⟩

/-- Whoever checks the pairing, or has a gate behind him, finds the device authenticated. -/
theorem Run.authenticated (h : Run s start (pre ++ t :: post) m) {lane : Option Lane} {a : Activity}
    {reply : Option Reply} (ht : t.turn? = some ⟨lane, a, reply⟩)
    (hc : a.Cleared t.before.world.status)
    (ha : a.stage? = some .checking ∨ ∃ g, a.passed? = some g) :
    t.before.world.status ∈ Gate.authenticated.states := by
  obtain ⟨hpre, events, hstep⟩ := h.before
  obtain hstage | ⟨g, hg⟩ := ha
  · rw [(hpre.handshake).status_of_checking (stage_of_turn ht hstep hstage)]
    decide
  · exact Gate.authenticated_of_held (hc g hg)

/-- **As whom the server is called.** -/
theorem Run.address (h : Run s start (pre ++ t :: post) m) (hcall : call ∈ calls t)
    {address : Endpoint} (haddress : call.endpoint? = some address) :
    (call.method = .authenticate ∧ address = ⟨s.baseUrl, ""⟩) ∨
      (call.method ≠ .authenticate ∧ ∃ reply, greetings pre = [reply] ∧
        address = ⟨s.baseUrl, reply.token⟩) := by
  obtain ⟨l, a, reply, b, ht, -, hcleared, horigin, hb⟩ := h.caller hcall
  obtain ⟨hpre, -⟩ := h.before
  obtain ⟨hmethod, rfl⟩ | ⟨hmethod, rfl, ha⟩ := horigin.address hb haddress
  · rw [hpre.setup]
    exact .inl ⟨hmethod, rfl⟩
  · obtain ⟨greeting, hgreetings, htoken⟩ :=
      hpre.handshake.reply_of_authenticated (h.authenticated ht hcleared ha)
    refine .inr ⟨hmethod, greeting, hgreetings, ?_⟩
    unfold endpoint
    rw [hpre.setup, htoken]

/-- A device whose handshake has failed calls nobody. -/
theorem Run.silent (h : Run s start (pre ++ t :: post) m)
    (hfailed : t.before.world.status = .failed) : calls t = [] := by
  refine List.eq_nil_iff_forall_not_mem.mpr fun call hcall => ?_
  obtain ⟨l, a, reply, b, ht, -, hcleared, horigin, hb⟩ := h.caller hcall
  obtain ⟨hpre, events, hstep⟩ := h.before
  obtain hstage | ⟨g, hg⟩ := horigin.caller hb
  · obtain ⟨x, hx⟩ := Option.isSome_iff_exists.mp hstage
    have hstages := hpre.handshake.stages_of_failed hfailed
    have hmem := stage_of_turn ht hstep hx
    rw [hstages] at hmem
    cases hmem
  · have hs := Gate.authenticated_of_held (hcleared g hg)
    rw [hfailed] at hs
    exact absurd hs (by decide)

/-! ## Gates and credentials -/

/-- What holds of the calls that are made in the steps of a run. -/
structure Gated (s : Setup) (ts : List Transition) : Prop where
  by_tasks : ∀ t ∈ ts, ∀ call ∈ calls t, ∃ l, t.isOf l = true
  /-- Every call for which there is a gate is made by a task that has found it open. -/
  passed : ∀ pre t post, ts = pre ++ t :: post → ∀ call ∈ calls t, ∀ g, call.gate? = some g →
    ∃ l, t.isOf l = true ∧ Passed l g (Machine.story l pre)
  /-- The pairing is looked up right after the greeting, or by a heartbeat that has found the device
  unpaired. -/
  asked_in_time : ∀ pre t post, ts = pre ++ t :: post → ∀ call ∈ calls t,
    call.method = .pairingStatus →
    (t.isOf .main = true ∧ Greeted (Machine.story .main pre)) ∨
      (t.isOf .heartbeat = true ∧ FoundUnpaired (Machine.story .heartbeat pre))
  addressed : ∀ pre t post, ts = pre ++ t :: post → ∀ call ∈ calls t, ∀ address,
    call.endpoint? = some address →
    (call.method = .authenticate ∧ address = ⟨s.baseUrl, ""⟩) ∨
      (call.method ≠ .authenticate ∧ ∃ reply, greetings pre = [reply] ∧
        address = ⟨s.baseUrl, reply.token⟩)
  silent_after_failure : ∀ pre t post, ts = pre ++ t :: post → t.after.world.status = .failed →
    ∀ u ∈ post, calls u = []
  /-- What a gate refuses is over: it calls nobody, and nothing remains of it but the stop for which
  the callback of a request asks. -/
  refused : ∀ t ∈ ts, ∀ l a reply g, t.turn? = some ⟨some l, a, reply⟩ → a.gate? = some g →
    t.before.world.status ∉ g.states → calls t = [] ∧ (t.after.pool.atWork l = [] ∨
      ∃ n failing, told t = [n] ∧ n.ticket.stops = true ∧
        t.after.pool.atWork l = [.shutDown failing])

/-- **Every run calls the server only behind its gates and only as the device that it has
greeted.** -/
theorem Run.gated (h : Run s start ts m) : Gated s ts where
  by_tasks t ht call hcall := by
    obtain ⟨pre, post, rfl⟩ := List.append_of_mem ht
    obtain ⟨l, a, reply, b, hturn, -⟩ := h.caller hcall
    exact ⟨l, isOf_of_turn hturn⟩
  passed := by
    rintro pre t post rfl call hcall g hg
    obtain ⟨l, a, reply, b, ht, -, -, horigin, hb⟩ := h.caller hcall
    obtain ⟨task, htask, htrail⟩ := h.trail_of_turn ht
    have ha := horigin.gate_of_call hb hg
    exact ⟨l, isOf_of_turn ht, passed_of_trail htrail htask ha (horigin.not_task_of_call hb hg l)⟩
  asked_in_time := by
    rintro pre t post rfl call hcall hmethod
    obtain ⟨l, a, reply, b, ht, hplace, -, horigin, hb⟩ := h.caller hcall
    obtain ⟨occasion, rfl⟩ := horigin.asking hb hmethod
    obtain ⟨task, htask, htrail⟩ := h.trail_of_turn ht
    obtain ⟨rfl, hgreeted⟩ | ⟨rfl, hfound⟩ := asking_of_trail htrail htask hplace
    · exact .inl ⟨isOf_of_turn ht, hgreeted⟩
    · exact .inr ⟨isOf_of_turn ht, hfound⟩
  addressed := by
    rintro pre t post rfl call hcall address haddress
    exact h.address hcall haddress
  silent_after_failure := by
    rintro pre t post rfl hfailed u hu
    obtain ⟨mid, rest, rfl⟩ := List.append_of_mem hu
    rw [← List.cons_append, ← List.append_assoc] at h
    have hfuture := h.before.1.mem_future
    rw [hfailed] at hfuture
    exact h.silent (List.mem_singleton.mp hfuture)
  refused := by
    rintro t ht l a reply g hturn hg hclosed
    obtain ⟨pre, post, rfl⟩ := List.append_of_mem ht
    obtain ⟨self, r, -, htook⟩ := h.turn hturn
    rw [htook.calls, htook.told, (htook.work l rfl).2]
    cases hrest : r.rest with
    | none => exact ⟨rfl, .inl rfl⟩
    | some b =>
      have horigin := htook.behaves.origin b hrest
      cases hlife : b.isLife with
      | false => exact absurd (horigin.open_gate hg hlife) hclosed
      | true =>
        obtain ⟨n, failing, htold, hstops, rfl⟩ := horigin.told_of_gate hg hlife
        exact ⟨rfl, .inr ⟨n, failing, htold, hstops, rfl⟩⟩

end Run

/-- A device that was greeted, found paired and asked to be unpaired. -/
theorem unpair_gated : ∃ ts m, Run Sample.setup 0 ts m ∧ greetings ts = [⟨"token"⟩] ∧
    asked .unpair ts = 1 ∧ Gated Sample.setup ts := by
  have hcourse : ((system Sample.setup 0).course? program Activity.isHostCall
      (Sample.arrive ++ Sample.signIn ++ Sample.unpair)).any
      (fun x => decide (greetings x.1 = [⟨"token"⟩] ∧ asked .unpair x.1 = 1)) = true := by
    decide +kernel
  obtain ⟨ts, m, hrun, hcalls⟩ := Machine.exists_course hcourse
  obtain ⟨hgreetings, hasked⟩ := of_decide_eq_true hcalls
  exact ⟨ts, m, hrun, hgreetings, hasked, Run.gated hrun⟩

end Engine

end ArcadeUplink
