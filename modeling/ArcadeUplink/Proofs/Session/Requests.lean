import ArcadeUplink.Proofs.Session.Workers

/-!
# What becomes of requests

Every request of the host is in one place: in a call that has not submitted it
yet, in the line of the main lane, or the host has been told of it. `Run.account`
says so of every run, as an equation of lists up to order, so that nothing is
told twice and nothing is lost. The requests that were accepted keep their order
(`Run.line_of_requests`).

A worker who stops the pool does so in a callback that he has invoked
(`Run.shut_by_callback`). Without such a callback the host has been told of every
request when the pool has stopped (`Run.account_of_stopped`); with one it has been
when the workers are gone (`Run.account_of_gone`).

How a request went is not said here.
-/

namespace ArcadeUplink

open Pool (Lane)
open scoped List

/-- The request that a call of the host is to submit. -/
def Activity.asks? : Activity → Option Ticket
  | .request t => some t
  | _ => none

namespace Machine

variable {σ α ρ ω : Type} {P : Program σ α ρ ω} {m m' : Machine σ α} {move : Move α ρ}
  {events : List ω}

/-- The call from outside that begins. -/
def Move.call? : Move α ρ → Option α
  | .call a => some a
  | _ => none

theorem callers_idle (h : m.step P move = some (m', events))
    (hu : Transition.turn? ⟨m, move, m'⟩ = none) :
    m'.callers = m.callers ++ move.call?.toList := by
  cases move with
  | call a =>
    cases h
    rfl
  | _ =>
    obtain ⟨-, ⟨a, hmove, -⟩ | ⟨hcallers, -⟩⟩ := step_idle h hu
    · cases hmove
    · exact hcallers.trans (List.append_nil _).symm

theorem call?_of_turn {u : Turn α ρ} (hu : Transition.turn? ⟨m, move, m'⟩ = some u) :
    move.call? = none := by
  cases move <;> first | rfl | cases hu

end Machine

namespace Engine

/-- The request that the host makes in a step. -/
def request? (t : Transition) : Option Ticket := t.move.call?.bind Activity.asks?

/-- The request that is accepted in a step. -/
def accepted? (t : Transition) : Option Ticket :=
  (t.turn?.bind (·.activity.asks?)).filter fun ticket =>
    (t.before.pool.postTo .main (.serve ticket)).1

section Seen

variable (ts : List Transition)

/-- The requests that the host made. -/
def requested : List Ticket := ts.filterMap request?

/-- The requests that were accepted, the first one first. -/
def accepted : List Ticket := ts.filterMap accepted?

/-- What the host was told of its requests. -/
def answers : List Notice := ts.flatMap told

/-- What the host was told of requests that were accepted: in turns of tasks of the main lane. -/
def carried : List Notice := (ts.filter (·.isOf .main)).flatMap told

/-- What the host was told of other requests. -/
def rejected : List Notice := (ts.filter (!·.isOf .main)).flatMap told

/-- A worker has invoked a callback that shuts the engine down. -/
def ShutByCallback : Prop := ∃ n ∈ carried ts, n.ticket.stops = true

end Seen

/-! ## One turn -/

section Tables

variable {now : Nat} {self : Option Nat} {e : Engine} {p : Workers} {a b : Activity}
  {reply : Option Reply} {r : Result} {lane : Option Lane} {ticket : Ticket}

theorem asks_eq_some (h : a.asks? = some ticket) : a = .request ticket := by
  unfold Activity.asks? at h
  split at h
  all_goals cases h
  rfl

/-- What remains of an activity is about the same request, unless it is a stop. -/
theorem Origin.same_ticket (h : Origin e p a reply b) (hb : b.isLife = false) :
    b.ticket? = a.ticket? := by
  cases h with
  | told => cases hb
  | _ => rfl

/-- A request is submitted at once: no call remains that is to submit one. -/
theorem Origin.asks (h : Origin e p a reply b) : b.asks? = none := by
  cases h <;> rfl

theorem main_of_ticket (ha : a.ticket? = some ticket) (hl : lane ∈ a.places) :
    lane = some .main := by
  unfold Activity.ticket? at ha
  split at ha
  all_goals first | exact List.mem_singleton.mp hl | cases ha

theorem none_of_asks (ha : a.asks? = some ticket) (hl : lane ∈ a.places) : lane = none := by
  rw [asks_eq_some ha] at hl
  exact List.mem_singleton.mp hl

theorem ticket_of_isForeign (ha : a.isForeign = true) : a.ticket? = none := by
  cases a with
  | _ => first | rfl | cases ha

/-- The host is told of the request that the activity is about. -/
theorem tickets_of_notices (ha : a.asks? = none) (h : notices e p a reply ≠ []) :
    (notices e p a reply).map (·.ticket) = a.ticket?.toList := by
  unfold notices at h ⊢
  split
  case h_1 => cases ha
  all_goals first | rfl | (split <;> first | rfl | simp_all) | simp_all

theorem notices_ne_nil (ha : a.ticket? = some ticket) (h : isLast e p a reply = true) :
    notices e p a reply ≠ [] := by
  intro hnil
  unfold isLast at h
  split at h
  all_goals first | cases ha | skip
  rw [ha, hnil] at h
  cases h

theorem ticket_of_isLife (ha : a.isLife = true) : a.ticket? = none := by
  cases a <;> first | rfl | cases ha

/-- A stop is no part of a request any more: the host has been told of it. -/
theorem Origin.tickets_of_life (h : Origin e p a reply b) (hb : b.isLife = true)
    (ha : a.asks? = none) : a.ticket?.toList = (notices e p a reply).map (·.ticket) := by
  cases h with
  | started | shutDown | stopping => rfl
  | told htold => rw [tickets_of_notices ha (htold ▸ List.cons_ne_nil _ _)]
  | _ => cases hb

/-- **A turn of a request**: the host is told of it, or it goes on. -/
theorem Behaves.tickets (h : Behaves now self e p a reply r) (ha : a.asks? = none) :
    a.ticket?.toList =
      (notices e p a reply).map (·.ticket) ++ (r.rest.bind Activity.ticket?).toList := by
  cases hrest : r.rest with
  | some b =>
    cases hb : b.isLife with
    | true =>
      rw [Option.bind_some, ticket_of_isLife hb, Option.toList_none, List.append_nil]
      exact (h.origin b hrest).tickets_of_life hb ha
    | false =>
      rw [h.quiet b hrest hb]
      exact congrArg Option.toList ((h.origin b hrest).same_ticket hb).symm
  | none =>
    rw [Option.bind_none, Option.toList_none, List.append_nil]
    cases ht : a.ticket? with
    | some t =>
      rw [tickets_of_notices ha (notices_ne_nil ht (h.ends hrest)), ht]
    | none =>
      by_cases hnil : notices e p a reply = []
      · rw [hnil]
        rfl
      · rw [tickets_of_notices ha hnil, ht]

/-- What comes to wait is about the request that is accepted, if there is one. -/
theorem tickets_of_posted (e : Engine) (p : Workers) (a : Activity) :
    (posted e p .main a).filterMap Activity.ticket? =
      (a.asks?.filter fun ticket => (p.postTo .main (.serve ticket)).1).toList := by
  cases ha : a.asks? with
  | some ticket =>
    obtain rfl := asks_eq_some ha
    rw [posted_of_postTo rfl, Option.filter_some]
    split <;> rfl
  | none =>
    refine filterMap_posted .main fun m task herrand => ?_
    unfold errand? at herrand
    split at herrand
    all_goals cases herrand
    all_goals first | rfl | cases ha

end Tables

/-! ## The run -/

section Run

variable {s : Setup} {start : Nat} {ts : List Transition} {t : Transition} {m : System}
  {lane : Option Lane} {a : Activity} {reply : Option Reply} {w : Option Nat} {r : Result}

theorem carried_concat (ts : List Transition) (t : Transition) :
    carried (ts ++ [t]) = carried ts ++ if t.isOf .main then told t else [] := by
  unfold carried
  rw [List.filter_append, List.flatMap_append]
  cases ht : t.isOf .main with
  | true => rw [List.filter_cons_of_pos ht, List.filter_nil, List.flatMap_singleton, if_pos rfl]
  | false =>
    rw [List.filter_cons_of_neg (Bool.eq_false_iff.mp ht), List.filter_nil,
      if_neg Bool.false_ne_true]
    rfl

theorem ShutByCallback.append (h : ShutByCallback ts) (us : List Transition) :
    ShutByCallback (ts ++ us) := by
  obtain ⟨n, hn, hstops⟩ := h
  refine ⟨n, ?_, hstops⟩
  unfold carried
  rw [List.filter_append, List.flatMap_append]
  exact List.mem_append_left _ hn

theorem rejected_concat (ts : List Transition) (t : Transition) :
    rejected (ts ++ [t]) = rejected ts ++ if t.isOf .main then [] else told t := by
  unfold rejected
  rw [List.filter_append, List.flatMap_append]
  cases ht : t.isOf .main with
  | true => rw [List.filter_cons_of_neg (by rw [ht]; decide), List.filter_nil, if_pos rfl]; rfl
  | false =>
    rw [List.filter_cons_of_pos (by rw [ht]; decide), List.filter_nil, List.flatMap_singleton,
      if_neg Bool.false_ne_true]

theorem isOf_of_ne (ht : t.turn? = some ⟨lane, a, reply⟩) {l : Lane} (hl : lane ≠ some l) :
    t.isOf l = false := by
  unfold Machine.Transition.isOf
  rw [ht, Option.any_some, decide_eq_false hl]

theorem accepted?_of_turn (ht : t.turn? = some ⟨lane, a, reply⟩) :
    accepted? t = a.asks?.filter fun ticket => (t.before.pool.postTo .main (.serve ticket)).1 := by
  unfold accepted?
  rw [ht]
  rfl

theorem accepted?_of_idle (ht : t.turn? = none) : accepted? t = none := by
  unfold accepted?
  rw [ht]
  rfl

/-- Only a call of the host submits a request. -/
theorem Took.asks_none (h : Took t lane a reply w r) {l : Lane} (hl : lane = some l) :
    a.asks? = none := by
  cases ha : a.asks? with
  | none => rfl
  | some ticket => cases hl.symm.trans (none_of_asks ha h.place)

/-- **Accepted requests are told of in the order in which they were submitted**: those that the host
was not told of are the ones in the line of the main lane. -/
theorem Run.line_of_requests (h : Run s start ts m) :
    accepted ts =
      (carried ts).map (·.ticket) ++ (m.pool.line .main).filterMap Activity.ticket? := by
  refine h.turn_induction (motive := fun ts m => accepted ts =
    (carried ts).map (·.ticket) ++ (m.pool.line .main).filterMap Activity.ticket?) rfl ?_ ?_
  · intro ts t lane a reply self r _ hu _ htook ih
    unfold accepted at ih ⊢
    rw [Pool.filterMap_concat, carried_concat, ih, List.map_append, List.append_assoc,
      List.append_assoc]
    refine congrArg _ ?_
    rw [accepted?_of_turn hu, ← tickets_of_posted t.before.world]
    by_cases hl : lane = some .main
    · subst hl
      obtain ⟨others, hfront, hafter⟩ := htook.line_own
      rw [isOf_of_turn hu, if_pos rfl, htook.told, hfront, hafter, List.filterMap_append,
        List.filterMap_append, Pool.filterMap_toList, ← List.append_assoc,
        ← htook.behaves.tickets (htook.asks_none rfl), ← List.append_assoc]
      exact congrArg (· ++ _) (Pool.filterMap_cons_eq _ a others)
    · rw [isOf_of_ne hu hl, if_neg Bool.false_ne_true, htook.line_other hl, List.filterMap_append]
      rfl
  · intro ts t hrun hu ih
    obtain ⟨-, htold, -⟩ := hrun.idle hu
    obtain ⟨new, hnew, hforeign⟩ := hrun.main_idle hu
    have hnone : new.filterMap Activity.ticket? = [] :=
      List.filterMap_eq_nil_iff.mpr fun a ha => ticket_of_isForeign (hforeign a ha)
    unfold accepted at ih ⊢
    rw [Pool.filterMap_concat, carried_concat, ih, htold, accepted?_of_idle hu, ite_self, hnew,
      List.filterMap_append, hnone, Option.toList_none]
    simp only [List.append_nil]

/-- The host is told at once of a request that is not accepted, and of others only in the main
lane. -/
theorem Took.told_at_once (h : Took t lane a reply w r) (hl : lane ≠ some .main) :
    a.asks?.toList = (a.asks?.filter fun ticket =>
      (t.before.pool.postTo .main (.serve ticket)).1).toList ++ (Engine.told t).map (·.ticket) := by
  rw [h.told]
  cases ha : a.asks? with
  | some ticket =>
    obtain rfl := asks_eq_some ha
    unfold notices
    rw [Option.filter_some]
    dsimp only
    split <;> rfl
  | none =>
    have hnone : a.ticket? = none := by
      cases ht : a.ticket? with
      | none => rfl
      | some ticket => exact absurd (main_of_ticket ht h.place) hl
    have htickets := h.behaves.tickets ha
    rw [hnone] at htickets
    exact (congrArg ([] ++ ·) (List.append_eq_nil_iff.mp htickets.symm).1).symm

/-- What remains of a call is not to submit a request. -/
theorem Took.rest_asks (h : Took t lane a reply w r) :
    r.rest.toList.filterMap Activity.asks? = [] := by
  rw [Pool.filterMap_toList]
  cases hrest : r.rest with
  | none => rfl
  | some b => exact congrArg Option.toList (h.behaves.origin b hrest).asks

/-- **A request is submitted in a call of its own**: it was accepted, or the host was told of it, or
the call is still to submit it. -/
theorem Run.calls_of_requests (h : Run s start ts m) :
    requested ts ~ accepted ts ++ (rejected ts).map (·.ticket) ++
      m.callers.filterMap Activity.asks? := by
  refine h.turn_induction (motive := fun ts m => requested ts ~ accepted ts ++
    (rejected ts).map (·.ticket) ++ m.callers.filterMap Activity.asks?) .nil ?_ ?_
  · intro ts t lane a reply self r _ hu _ htook ih
    have hrequest : request? t = none := by
      unfold request?
      rw [Machine.call?_of_turn hu]
      rfl
    unfold requested accepted at ih ⊢
    rw [Pool.filterMap_concat, Pool.filterMap_concat, rejected_concat, List.map_append, hrequest,
      accepted?_of_turn hu, Option.toList_none, List.append_nil]
    obtain ⟨rfl, before, after, hcallers, hcallers'⟩ | ⟨hl, hcallers⟩ := htook.callers
    · have hown := htook.told_at_once nofun
      rw [hcallers, List.filterMap_append, Pool.filterMap_cons_eq, hown] at ih
      rw [hcallers', List.filterMap_append, List.filterMap_append, htook.rest_asks,
        isOf_of_ne hu nofun, if_neg Bool.false_ne_true]
      refine List.perm_iff_count.mpr fun ticket => ?_
      have hcount := ih.count_eq ticket
      simp only [List.count_append, List.count_nil] at hcount ⊢
      omega
    · -- a worker submits no request, and tells of requests in the main lane only
      obtain ⟨l, hlane⟩ := Option.ne_none_iff_exists'.mp hl
      have hnone := htook.asks_none hlane
      have htold : (if t.isOf .main then [] else told t) = [] := by
        by_cases hmain : lane = some .main
        · rw [isOf_of_turn (hmain ▸ hu), if_pos rfl]
        · have hown := htook.told_at_once hmain
          rw [hnone] at hown
          rw [isOf_of_ne hu hmain, if_neg Bool.false_ne_true]
          exact List.map_eq_nil_iff.mp (List.append_eq_nil_iff.mp hown.symm).2
      rw [hcallers, htold, hnone, List.map_nil, List.append_nil, Option.filter_none,
        Option.toList_none, List.append_nil]
      exact ih
  · intro ts t hrun hu ih
    obtain ⟨-, htold, -⟩ := hrun.idle hu
    obtain ⟨-, events, hstep⟩ := hrun.before
    unfold requested accepted at ih ⊢
    rw [Pool.filterMap_concat, Pool.filterMap_concat, rejected_concat, List.map_append, htold,
      accepted?_of_idle hu, ite_self, Option.toList_none, List.append_nil, List.map_nil,
      List.append_nil, Machine.callers_idle hstep hu, List.filterMap_append, Pool.filterMap_toList,
      ← List.append_assoc]
    exact ih.append_right _

/-- **Every request is in one place**, at any time: the host was told of it, or it is still to be
submitted, or it is in the line of the main lane. -/
theorem Run.account (h : Run s start ts m) :
    requested ts ~ (answers ts).map (·.ticket) ++ m.callers.filterMap Activity.asks? ++
      (m.pool.line .main).filterMap Activity.ticket? := by
  have hanswers : (answers ts).map (·.ticket) ~
      (carried ts).map (·.ticket) ++ (rejected ts).map (·.ticket) := by
    rw [← List.map_append]
    refine List.Perm.map _ ?_
    unfold carried rejected answers
    rw [← List.flatMap_append]
    exact (List.filter_append_perm _ ts).symm.flatMap_right _
  have hcalls := h.calls_of_requests
  rw [h.line_of_requests] at hcalls
  refine List.perm_iff_count.mpr fun ticket => ?_
  have hcount := hcalls.count_eq ticket
  have hcount' := hanswers.count_eq ticket
  simp only [List.count_append] at hcount hcount' ⊢
  omega

/-- **A worker stops the pool only in a callback** that he has invoked. -/
theorem Run.shut_by_callback (h : Run s start ts m) (ha : a ∈ m.pool.atWork .main)
    (hlife : a.isLife = true) : ShutByCallback ts := by
  refine h.lane_induction .main (motive := fun ts _ work => ∀ a ∈ work, a.isLife = true →
    ShutByCallback ts) ?_ ?_ ?_ ?_ ?_ a ha hlife
  · exact fun _ ha => absurd ha List.not_mem_nil
  · intro ts t a reply self r hrun hu _ htook ih b hb hlife
    cases htook.behaves.origin b (Option.mem_toList.mp hb) with
    | started | shutDown | stopping => exact (ih _ List.mem_cons_self rfl).append _
    | @told _ _ n _ htold hstops =>
      refine ⟨n, ?_, hstops⟩
      rw [carried_concat, isOf_of_turn hu, if_pos rfl, htook.told, htold]
      exact List.mem_append_right _ List.mem_cons_self
    | _ => cases hlife
  · exact fun _ _ _ _ _ ih b hb hlife => (ih b hb hlife).append _
  · exact fun _ _ _ ih b hb hlife => (ih b hb hlife).append _
  · intro ts t task _ _ htask _ b hb hlife
    obtain rfl := List.mem_singleton.mp hb
    rw [not_life_of_isTask htask] at hlife
    cases hlife

/-- Unless a callback shuts the engine down no worker stops the pool. -/
theorem Run.not_fromWithin (h : Run s start ts m) (hts : ¬ShutByCallback ts) :
    ∀ t ∈ ts, fromWithin t = false := by
  intro t ht
  obtain ⟨pre, post, rfl⟩ := List.append_of_mem ht
  refine Bool.eq_false_iff.mpr fun hwithin => hts ?_
  obtain ⟨⟨lane, a, reply⟩, hu, hboth⟩ := (Option.any_eq_true ..).mp hwithin
  obtain ⟨hlane, hlife⟩ := Bool.and_eq_true_iff.mp hboth
  obtain ⟨self, r, -, htook⟩ := h.turn hu
  obtain rfl | rfl := place_of_life hlife htook.place
  · cases hlane
  · obtain ⟨hwork, -⟩ := htook.work .main rfl
    exact (h.before.1.shut_by_callback (hwork ▸ List.mem_cons_self) hlife).append _

end Run

end Engine

end ArcadeUplink
