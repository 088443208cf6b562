import ArcadeUplink.Proofs.Machine.Stock
import ArcadeUplink.Proofs.Pool.Lanes
import ArcadeUplink.Proofs.Session.Origins
import ArcadeUplink.Proofs.Session.Runs

/-!
# Where activities stand

An activity has its places: a call of the host stays outside of all lanes, a
handshake and everything that the host requests goes on in the main lane, uploads
in the lane of game data, heartbeats in their own. And behind a gate the status
is never again one that the gate keeps out for good: a device that is
authenticated stays so, and once its pairing is known it stays known. `Placed`
says both of everything that anybody is at or that waits; it holds after every
run (`Run.placed`).
-/

namespace ArcadeUplink

open Pool (Lane Use)

/-! ## What activities may do to the pool -/

namespace Pool

variable {α : Type} {p q : Pool α}

namespace Event

/-- The task that is submitted in an event, at once or for later, and its lane. -/
def submission? : Event α → Option (Lane × α)
  | .postTo l task | .delay _ _ l task => some (l, task)
  | _ => none

/-- The task that comes to wait in a lane by an event, if it is accepted. -/
def posted (p : Pool α) (l : Lane) : Event α → List α
  | .postTo m task => (if m = l ∧ (p.postTo m task).1 = true then some task else none).toList
  | _ => []

/-- Whether an event is one that an activity may bring about. -/
def isUse : Event α → Bool
  | .postTo .. | .mayDelay .. | .delay .. | .beginStart | .beginStop | .advance _ => true
  | _ => false

end Event

theorem Use.of_after? {Task : Lane → α → Prop} {v : Event α} (h : p.after? v = some q)
    (hv : v.isUse = true) (fresh : ∀ l task, v.submission? = some (l, task) → Task l task) :
    Use Task p q := by
  cases v with
  | postTo l task =>
    cases h
    exact .postTo (fresh l task rfl)
  | mayDelay l task =>
    cases h
    exact .leave
  | delay now ms l task =>
    cases h
    exact .delay (fresh l task rfl)
  | beginStart => exact .beginStart h
  | beginStop => exact .beginStop h
  | advance self =>
    obtain ⟨r, hr, rfl⟩ := Option.map_eq_some_iff.mp h
    exact .advance hr
  | _ => cases hv

/-- What is submitted to a lane is what comes to wait there. -/
theorem waiting_of_after? {v : Event α} (h : p.after? v = some q) (hv : v.isUse = true)
    (l : Lane) : (q.lanes.get l).waiting = (p.lanes.get l).waiting ++ v.posted p l := by
  have hchange := (change_of_after? h).waiting l
  cases v with
  | postTo m task =>
    cases h
    rw [Moment.arrival?_postTo] at hchange
    exact hchange
  | mayDelay | delay | beginStart | beginStop | advance => exact hchange
  | _ => cases hv

end Pool

/-! ## Places and gates -/

namespace Gate

/-- The states that a device can be in once a gate has let it pass, whatever happens then. -/
def held : Gate → List Status
  | authenticated => authenticated.states
  | paired | settled => settled.states

theorem mem_held {g : Gate} {s : Status} (h : s ∈ g.states) : s ∈ g.held := by
  cases g with
  | paired => exact List.mem_cons_of_mem _ h
  | settled | authenticated => exact h

end Gate

namespace Activity

/-- The lanes that an activity may be in; outside of all lanes there are the calls of the host. -/
def places : Activity → List (Option Lane)
  | .startUp | .starting => [none]
  -- a callback of a request may ask for a stop
  | .shutDown _ | .stopping _ => [none, some .main]
  | .authenticate | .submitHandshake => [none]
  | .failHandshake _ => [none, some .main]
  | .askPairing .heartbeat | .waiting _ (.pairing .heartbeat) | .recordPairing _ .heartbeat
  | .settlePaired .heartbeat | .settleUnpaired .heartbeat => [some .heartbeat]
  | .setTimer | .enqueueTimer => [some .main, some .heartbeat]
  | .requestBeat again | .submitBeat again | .withdrawBeat again =>
    [if again then some .heartbeat else none]
  | .beat | .beatGate | .beatPairing | .callHeartbeat | .waiting _ .beaten | .applyProfiles _
  | .listDownloads | .submitDownloads _ | .retry | .scanLedger => [some .heartbeat]
  | .sendSnapshot _ | .record _ => [none]
  | .submit .. | .withdrawUpload .. | .withdrawHistory .. => [none, some .heartbeat]
  | .upload _ | .uploadGate .. | .callUpload .. | .waiting _ (.uploaded ..) | .acknowledge ..
  | .history _ | .historyGate _ | .callHistory _ | .waiting _ (.historyUploaded _) | .close _ =>
    [some .gameData]
  | .request _ | .report _ => [none]
  | .announcePicture => [none, some .main]
  | .consult _ | .pairLink | .readPairLink | .claimLink _ | .readClaimLink _ => [none]
  | _ => [some .main]

/-- Whether an activity is a task of a lane, of which nothing is done yet. -/
def isTask : Activity → Lane → Bool
  | .handshake, .main | .serve _, .main | .reportGate _, .main | .download .., .main => true
  | .upload _, .gameData | .history _, .gameData => true
  | .beat, .heartbeat | .requestBeat true, .heartbeat => true
  | _, _ => false

/-- Whether an activity is a task of another lane than the main one. -/
def isForeign (a : Activity) : Bool := a.isTask .gameData || a.isTask .heartbeat

/-- The gate that an activity has behind it. -/
def passed? : Activity → Option Gate
  | .beatPairing | .askPairing .heartbeat | .waiting _ (.pairing .heartbeat)
  | .recordPairing _ .heartbeat | .settlePaired .heartbeat | .settleUnpaired .heartbeat
  | .callHeartbeat | .waiting _ .beaten | .applyProfiles _ | .listDownloads | .submitDownloads _
  | .download .. => some .settled
  | .callUpload .. | .callHistory _ => some .paired
  | .callInstalled _ => some .settled
  | .recallCode t | .callRequest t => some (Engine.gateOf t.request)
  | _ => none

/-- The device is in one of the states that the gate behind the activity sees to. -/
def Cleared (a : Activity) (s : Status) : Prop := ∀ g ∈ a.passed?, s ∈ g.held

end Activity

/-! ## States -/

namespace Status

/-- **Every change is one of the diagram's.** -/
theorem turned_cases (s : Status) (a : Activity) : s.turned a = s ∨ s.canBecome (s.turned a) := by
  unfold turned
  split
  · split
    · next hs => rw [hs]; exact .inr rfl
    · exact .inl rfl
  · split
    · next hs => rw [hs]; exact .inr rfl
    · exact .inl rfl
  · split
    · next hs => rw [hs]; exact .inr rfl
    · exact .inl rfl
  · split
    · next hs => obtain hs | hs := hs <;> (rw [hs]; exact .inr rfl)
    · exact .inl rfl
  · split
    · next hs => rw [hs]; exact .inr rfl
    · exact .inl rfl
  · split
    · next hs => rw [hs]; exact .inr rfl
    · exact .inl rfl
  · exact .inl rfl

end Status

theorem Gate.authenticated_of_held {g : Gate} {s : Status} (h : s ∈ g.held) :
    s ∈ Gate.authenticated.states := by
  cases g with
  | authenticated => exact h
  | paired | settled => exact List.mem_cons_of_mem _ h

theorem Gate.held_canBecome (g : Gate) {s t : Status} (hs : s ∈ g.held) (h : s.canBecome t = true) :
    t ∈ g.held := by
  cases g <;> cases s <;> cases t <;> revert hs h <;> decide

theorem Activity.Cleared.of_none {a : Activity} {s : Status} (h : a.passed? = none) :
    a.Cleared s := by
  intro g hg
  rw [h] at hg
  cases hg

/-- Whatever others do, an activity can go on. -/
theorem Activity.Cleared.turned {a : Activity} {s : Status} (h : a.Cleared s) (b : Activity) :
    a.Cleared (s.turned b) := by
  intro g hg
  obtain hsame | hnext := s.turned_cases b
  · rw [hsame]
    exact h g hg
  · exact g.held_canBecome (h g hg) hnext

namespace Engine

variable {now : Nat} {self : Option Nat} {e : Engine} {p : Workers} {a b : Activity}
  {reply : Option Reply} {r : Result} {lane : Option Lane}

/-- The host is told of requests by callers from outside and in the main lane. -/
theorem places_of_notices (h : notices e p a reply ≠ []) : a.places ⊆ [none, some .main] := by
  unfold notices at h
  split at h
  all_goals first | exact absurd rfl h | exact fun lane hlane => by simp_all [Activity.places]

/-- What remains of an activity stays in its place. -/
theorem Origin.places (h : Origin e p a reply b) : a.places ⊆ b.places := by
  cases h with
  | told htold => exact places_of_notices (htold ▸ List.cons_ne_nil _ _)
  | @askPairing occasion => cases occasion <;> exact List.Subset.refl _
  | @isPaired _ _ occasion _ => cases occasion <;> exact List.Subset.refl _
  | @notPaired _ occasion _ => cases occasion <;> exact List.Subset.refl _
  | @recorded _ occasion => cases occasion <;> exact List.Subset.refl _
  | rejected | unreadable | unsigned | turnedAway | armed | requestedAgain | submittedAgain
  | withdrawnAgain | scanned | record | storePicture | consult =>
    exact fun lane hlane => by simp_all [Activity.places]
  | _ => exact List.Subset.refl _

/-- An activity that goes on behind a gate has passed it, or goes on behind it. -/
theorem Origin.cleared (h : Origin e p a reply b) (hs : a.Cleared e.status) :
    b.Cleared (e.status.turned a) := by
  have past {g : Gate} (hopen : e.status ∈ g.states) (hsame : e.status.turned a = e.status)
      (hb : b.passed? = some g) : b.Cleared (e.status.turned a) := by
    intro g' hg'
    cases hb.symm.trans hg'
    rw [hsame]
    exact Gate.mem_held hopen
  cases h with
  | beatGate hopen | uploadGate hopen | historyGate hopen | reportGate hopen
  | serveCode hopen _ | serve hopen _ => exact past hopen rfl rfl
  | @askPairing occasion => cases occasion <;> first | exact .of_none rfl | exact hs
  | @isPaired _ _ occasion _ => cases occasion <;> first | exact .of_none rfl | exact hs
  | @notPaired _ occasion _ => cases occasion <;> first | exact .of_none rfl | exact hs
  | @recorded _ occasion => cases occasion <;> first | exact .of_none rfl | exact hs
  | _ => first | exact .of_none rfl | exact hs.turned _

/-- What an activity submits is a task of the lane, and its gate has been passed. -/
theorem errand_submits {l : Lane} {task : Activity}
    (h : (errand? now self e a).bind Pool.Event.submission? = some (l, task)) :
    task.isTask l = true ∧ (a.Cleared e.status → task.Cleared (e.status.turned a)) := by
  unfold errand? at h
  split at h
  all_goals cases h
  all_goals first | exact ⟨rfl, fun _ => .of_none rfl⟩ | exact ⟨rfl, fun hs => hs.turned _⟩

theorem errand_isUse {v : Pool.Event Activity} (h : errand? now self e a = some v) :
    v.isUse = true := by
  unfold errand? at h
  split at h
  all_goals cases h
  all_goals rfl

/-- Whatever an activity does to the pool is something that activities may do to it. -/
theorem Behaves.use {Task : Lane → Activity → Prop} (h : Behaves now self e p a reply r)
    (fresh : ∀ l task, (errand? now self e a).bind Pool.Event.submission? = some (l, task) →
      Task l task) : Use Task p r.pool := by
  have hpool := h.pool
  cases herrand : errand? now self e a with
  | none =>
    rw [herrand] at hpool
    rw [hpool]
    exact .leave
  | some v =>
    rw [herrand] at hpool fresh
    exact .of_after? hpool (errand_isUse herrand) fresh

/-- What holds of the pool before a turn holds after it, if whatever the activity does keeps it. -/
theorem Behaves.keeps {motive : Workers → Prop} (h : Behaves now self e p a reply r)
    (hp : motive p)
    (keep : ∀ v q, errand? now self e a = some v → p.after? v = some q → motive q) :
    motive r.pool := by
  have hpool := h.pool
  cases hv : errand? now self e a with
  | none =>
    rw [hv] at hpool
    exact hpool ▸ hp
  | some v =>
    rw [hv] at hpool
    exact keep v r.pool hv hpool

/-- What an activity submits to a lane in its turn, if it is accepted. -/
def posted (e : Engine) (p : Workers) (l : Lane) (a : Activity) : List Activity :=
  ((errand? 0 none e a).map (·.posted p l)).getD []

theorem posted_eq (now : Nat) (self : Option Nat) (l : Lane) :
    posted e p l a = ((errand? now self e a).map (·.posted p l)).getD [] := by
  cases a with
  | enqueueTimer =>
    unfold posted errand?
    cases e.isOutOfReach 0 <;> cases e.isOutOfReach now <;> rfl
  | submitDownloads places => cases places <;> rfl
  | submit uploads histories => cases uploads <;> cases histories <;> rfl
  | _ => rfl

/-- What an activity submits to a lane comes to wait there if it is accepted. -/
theorem posted_of_postTo {l : Lane} {task : Activity}
    (h : errand? 0 none e a = some (.postTo l task)) :
    posted e p l a = if (p.postTo l task).1 = true then [task] else [] := by
  unfold posted
  rw [h]
  show (if l = l ∧ (p.postTo l task).1 = true then some task else none).toList = _
  by_cases hposted : (p.postTo l task).1 = true
  · rw [if_pos ⟨rfl, hposted⟩, if_pos hposted]
    rfl
  · rw [if_neg fun h => hposted h.2, if_neg hposted]
    rfl

/-- Only what an activity submits comes to wait. -/
theorem filterMap_posted {β : Type} {f : Activity → Option β} (l : Lane)
    (h : ∀ m task, errand? 0 none e a = some (.postTo m task) → f task = none) :
    (posted e p l a).filterMap f = [] := by
  unfold posted
  cases hv : errand? 0 none e a with
  | none => rfl
  | some v =>
    cases v with
    | postTo m task =>
      show (if m = l ∧ (p.postTo m task).1 = true then some task else none).toList.filterMap f = []
      split
      · exact List.filterMap_cons_none (h m task hv)
      · rfl
    | _ => rfl

/-- What an activity submits to a lane is what comes to wait there. -/
theorem Behaves.waiting (h : Behaves now self e p a reply r) (l : Lane) :
    (r.pool.lanes.get l).waiting = (p.lanes.get l).waiting ++ posted e p l a := by
  have hpool := h.pool
  rw [posted_eq now self]
  cases herrand : errand? now self e a with
  | none =>
    rw [herrand] at hpool
    rw [hpool]
    exact (List.append_nil _).symm
  | some v =>
    rw [herrand] at hpool
    exact Pool.waiting_of_after? hpool (errand_isUse herrand) l

/-! ## The invariant -/

/-- Everything that anybody is at is in its place, and behind a gate the device is in a state that
the gate sees to; and what waits in a lane is a task of that lane. -/
def Placed (m : System) : Prop :=
  m.Tended (fun l b => b.isTask l = true ∧ b.Cleared m.world.status)
    fun lane b => lane ∈ b.places ∧ b.Cleared m.world.status

theorem places_of_isTask {l : Lane} (h : a.isTask l = true) : some l ∈ a.places := by
  unfold Activity.isTask at h
  split at h
  all_goals first | exact List.mem_singleton_self _ | cases h

theorem not_life_of_isTask {l : Lane} (ha : a.isTask l = true) : a.isLife = false := by
  cases a <;> first | rfl | cases ha

/-- Nobody starts or stops the pool but callers and the tasks of the main lane. -/
theorem place_of_life (ha : a.isLife = true) (hl : lane ∈ a.places) :
    lane = none ∨ lane = some .main := by
  unfold Activity.isLife at ha
  split at ha
  · exact .inl (List.mem_singleton.mp hl)
  · exact .inl (List.mem_singleton.mp hl)
  · exact List.mem_pair.mp hl
  · exact List.mem_pair.mp hl
  · cases ha

theorem places_of_isHostCall (h : a.isHostCall = true) : none ∈ a.places ∧ a.passed? = none := by
  cases a with
  | requestBeat again =>
    cases again with
    | false => exact ⟨List.mem_singleton_self _, rfl⟩
    | true => cases h
  | shutDown => exact ⟨List.mem_cons_self, rfl⟩
  | _ => first | exact ⟨List.mem_singleton_self _, rfl⟩ | cases h

section Step

variable {m m' : System} {move : Machine.Move Activity Reply} {events : List EngineEvent}

theorem Placed.start (s : Setup) (start : Nat) : Placed (system s start) :=
  ⟨fun _ ha => absurd ha List.not_mem_nil, .ofSize _⟩

/-- The status after a step is that before it, but for what the activity whose turn it was made of
it. -/
theorem status_step (hstep : m.step program move = some (m', events)) :
    m'.world.status = m.world.status ∨ ∃ u, Machine.Transition.turn? ⟨m, move, m'⟩ = some u ∧
      m'.world.status = m.world.status.turned u.activity := by
  cases hu : Machine.Transition.turn? ⟨m, move, m'⟩ with
  | some u =>
    obtain ⟨self, r, hr, hworld, -⟩ := Machine.step_turn hstep hu
    refine .inr ⟨u, rfl, ?_⟩
    rw [hworld]
    exact (act_behaves hr).status
  | none =>
    obtain ⟨hworld, -⟩ := Machine.step_idle hstep hu
    exact .inl (by rw [hworld])

/-- **Every step keeps places and gates.** -/
theorem Placed.step (h : Placed m) (hopen : move.isOpen Activity.isHostCall = true)
    (hstep : m.step program move = some (m', events)) : Placed m' := by
  have hkeep (b : Activity) (hb : b.Cleared m.world.status) : b.Cleared m'.world.status := by
    obtain hsame | ⟨u, -, hturned⟩ := status_step hstep
    · rwa [hsame]
    · rw [hturned]
      exact hb.turned _
  refine Machine.Tended.step h hopen hstep (fun _ b hb => hb.imp_right (hkeep b))
    (fun _ b hb => hb.imp_right (hkeep b)) (fun _ _ hb => hb.imp_left places_of_isTask) ?_ ?_
  · intro a ha
    obtain ⟨hplace, hnone⟩ := places_of_isHostCall ha
    exact ⟨hplace, .of_none hnone⟩
  · intro u self r hu hfit hr
    obtain ⟨self', r', hr', hworld, -⟩ := Machine.step_turn hstep hu
    have hb := act_behaves hr
    have hstatus : m'.world.status = m.world.status.turned u.activity := by
      rw [hworld]
      exact (act_behaves hr').status
    rw [hstatus]
    refine ⟨hb.use fun l task htask => ?_, fun b hrest => ?_⟩
    · exact (errand_submits htask).imp_right (· hfit.2)
    · have horigin := hb.origin b hrest
      exact ⟨horigin.places hfit.1, horigin.cleared hfit.2⟩

end Step

/-- **Everything is in its place** after every run. -/
theorem Run.placed {s : Setup} {start : Nat} {ts : List Transition} {m : System}
    (h : Run s start ts m) : Placed m := by
  induction h with
  | start => exact .start s start
  | step _ hopen hstep ih => exact ih.step hopen hstep

/-! ## Beside the main lane -/

theorem Activity.isForeign_of_isTask {l : Lane} (h : a.isTask l = true) (hl : l ≠ .main) :
    a.isForeign = true := by
  unfold Activity.isForeign
  cases l with
  | main => exact absurd rfl hl
  | gameData => rw [h, Bool.true_or]
  | heartbeat => rw [h, Bool.or_true]

/-- A task of the main lane is never submitted for later. -/
theorem errand_main {v : Pool.Event Activity} {task : Activity}
    (h : errand? now self e a = some v) (hv : v.submission? = some (.main, task)) :
    v = .postTo .main task := by
  unfold errand? at h
  split at h
  all_goals cases h
  all_goals cases hv
  all_goals rfl

/-- Only into the main lane itself an activity submits tasks of it. -/
theorem Behaves.apart (h : Behaves now self e p a reply r)
    (hp : p.Apart (·.isForeign = true) .main) : r.pool.Apart (·.isForeign = true) .main := by
  refine h.keeps (motive := (·.Apart (·.isForeign = true) .main)) hp fun v q herrand hafter => ?_
  by_cases hmain : ∃ task, v.submission? = some (.main, task)
  · obtain ⟨task, htask⟩ := hmain
    obtain rfl := errand_main herrand htask
    have hposted : (p.postTo .main task).2.1 = q := Option.some.inj hafter
    exact hposted ▸ hp.postTo fun hl => absurd rfl hl
  · refine (Use.of_after? hafter (errand_isUse herrand) fun l task hv => ?_).apart hp
    have hsubmits : (errand? now self e a).bind Pool.Event.submission? = some (l, task) := by
      rw [herrand]
      exact hv
    exact Activity.isForeign_of_isTask (errand_submits hsubmits).1 fun hl => hmain ⟨task, hl ▸ hv⟩

/-- **No task of the main lane is anywhere else in the pool** after any run. -/
theorem Run.main_apart {s : Setup} {start : Nat} {ts : List Transition} {m : System}
    (h : Run s start ts m) : m.pool.Apart (·.isForeign = true) .main := by
  induction h with
  | start => exact .ofSize _
  | step _ _ hstep ih => exact Machine.apart_step ih hstep fun _ _ _ _ he => (act_behaves he).apart ih

end Engine

end ArcadeUplink
