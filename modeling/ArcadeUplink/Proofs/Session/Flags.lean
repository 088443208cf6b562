import ArcadeUplink.Proofs.Machine.Stock
import ArcadeUplink.Proofs.Session.Numbering
import ArcadeUplink.Proofs.Session.Sendings

/-!
# The flags of a game and its tasks

A record has two flags: one says that a snapshot of the game is queued, the other
that its history is. A flag is raised before the task is submitted, and lowered by
the task itself, or by whoever finds that he cannot submit it. For a game that
never leaves the ledger a flag is raised just if one sending is yet to be begun,
and there is never more than one (`Run.flags_mirror_queue`).

Every step of the engine is a `Trade`: what its activity had still to begin is in
other hands afterwards, or the flag is down. Whatever is submitted elsewhere than
to the lane of game data is not about games (`Run.apart`).

Nothing is said of a game that leaves the ledger and comes back: a task that was
submitted before it left is not taken back.
-/

namespace ArcadeUplink

open scoped List
open Pool (Lane Use)

namespace Engine

variable {now : Nat} {self : Option Nat} {e : Engine} {p : Workers} {a : Activity}
  {reply : Option Reply} {r : Result} {id : String}

/-- What comes to wait in the lane of game data in a step. -/
def Posted (p q : Workers) (posted : List Activity) : Prop :=
  (q.lanes.get .gameData).waiting = (p.lanes.get .gameData).waiting ++ posted

theorem posted_nil : Posted p p [] := (List.append_nil _).symm

/-- A task that is submitted to the lane of game data waits there, unless it is refused. -/
theorem posted_postTo {task : Activity} {done : Bool} {q : Workers} {log : List Log.Entry}
    (h : p.postTo .gameData task = (done, q, log)) : Posted p q (if done then [task] else []) := by
  unfold Pool.postTo at h
  split at h
  · dsimp only at h
    unfold Posted
    split at h <;>
      · cases h
        dsimp only
        rw [Pool.PerLane.get_set_self]
        rfl
  · cases h
    exact posted_nil

/-- A step is an exchange of its activity for what remains of it and what it submits. -/
def Trade (id : String) (e : Engine) (p : Workers) (a : Activity) (r : Result) : Prop :=
  ∃ posted, Posted p r.pool posted ∧
    Exchange id e.ledger a r.world.ledger (r.rest.toList ++ posted)

namespace Trade

variable {f : Engine} {b : Activity} {log : List Log.Entry} {events : List EngineEvent}

theorem go (h : Exchange id e.ledger a f.ledger [b]) : Trade id e p a (f.go p b log) :=
  ⟨[], posted_nil, h⟩

theorem quit (h : Exchange id e.ledger a f.ledger []) : Trade id e p a (f.quit p events) :=
  ⟨[], posted_nil, h⟩

theorem ask {call : ServerCall} {resume : Resume}
    (h : Exchange id e.ledger a e.ledger [.waiting call resume]) :
    Trade id e p a (e.ask p call resume) :=
  ⟨[], posted_nil, h⟩

/-- Whatever has no sendings of its own, and leaves none, leaves the balance alone. -/
theorem idle (ha : ∀ k : Sending, k.games a = []) (hpool : r.pool = p)
    (hl : r.world.ledger = e.ledger) (hb : ∀ b ∈ r.rest, ∀ k : Sending, k.games b = []) :
    Trade id e p a r := by
  refine ⟨[], hpool ▸ posted_nil, ?_⟩
  rw [hl, List.append_nil]
  exact .idle ha fun b hmem => hb b (Option.mem_toList.mp hmem)

/-- A task that is accepted takes over what its activity leaves. -/
theorem post {task : Activity} {q : Workers} (hq : p.postTo .gameData task = (true, q, log))
    (h : ∀ k : Sending, k.games b ++ k.games task ~ k.games a) :
    Trade id e p a (e.go q b log) := by
  refine ⟨[task], posted_postTo hq, .pass fun k => ?_⟩
  show k.games b ++ (k.games task ++ []) ~ k.games a
  rw [List.append_nil]
  exact h k

/-- A task that is refused stays in the hands of its activity. -/
theorem refuse {task : Activity} {q : Workers} (hq : p.postTo .gameData task = (false, q, log))
    (h : ∀ k : Sending, k.games b = k.games a) : Trade id e p a (e.go q b log) := by
  refine ⟨[], posted_postTo hq, .pass fun k => ?_⟩
  show k.games b ++ [] ~ k.games a
  rw [List.append_nil, h]

/-- Whoever begins a sending, or gives it up, lowers its flag. -/
theorem lower {k : Sending} {j : String} (h : k.games a = j :: k.games b)
    (hother : k.other.games b = k.other.games a) :
    Trade id e p a ({ e with ledger := e.ledger.lower k j }.go p b log) := by
  refine .go (.lower (k := k) (j := j) ?_ ?_ (Ledger.raised_lower e.ledger k j · id))
  · rw [List.flatMap_singleton, h]
  · rw [List.flatMap_singleton, hother]

/-- There is nothing to be sent of a game that is not in the ledger. -/
theorem void {k : Sending} {j : String} (h : k.games a = [j]) (hother : k.other.games a = [])
    (hl : e.ledger.get? j = none) : Trade id e p a (e.quit p events) := by
  refine .quit (.lower (k := k) (j := j) h hother.symm fun k' => ?_)
  split
  · next hk =>
    rw [← hk.1, ← hk.2]
    exact Ledger.raised_of_none hl
  · rfl

theorem aside (ha : a.isOfGames = false) (h : Aside e p r) : Trade id e p a r := by
  obtain ⟨posted, hposted, hplain⟩ := h.pool.waiting .gameData
  refine ⟨posted, hposted, ?_⟩
  rw [h.ledger]
  refine .idle (fun _ => Sending.games_of_not_isOfGames ha) fun b hb _ => ?_
  apply Sending.games_of_isPlain
  rcases List.mem_append.mp hb with hb | hb
  · exact h.rest b (Option.mem_toList.mp hb)
  · exact hplain b hb

end Trade

/-- A reply to an upload changes nothing in the ledger. -/
theorem ledger_resume_upload {call : ServerCall} {c : Resume} {reply : Reply}
    (h : e.resume p c reply = some r) (hc : (Activity.waiting call c).isUploading = true) :
    r.world.ledger = e.ledger := by
  cases c with
  | uploaded id k => obtain ⟨-, rfl⟩ | ⟨-, events, rfl⟩ := resume_uploaded_cases h <;> rfl
  | historyUploaded id =>
    obtain ⟨-, rfl⟩ | ⟨-, events, rfl⟩ := resume_historyUploaded_cases h <;> rfl
  | _ => cases hc

theorem trade_resume {call : ServerCall} {c : Resume} {reply : Reply}
    (h : e.resume p c reply = some r) (hc : (Activity.waiting call c).isUploading = true) :
    Trade id e p (.waiting call c) r := by
  obtain ⟨hpool, hrest⟩ := resume_upload h hc
  refine .idle (fun k => by cases k <;> rfl) hpool (ledger_resume_upload h hc) fun b hb k => ?_
  obtain ⟨id, i, rfl⟩ | ⟨id, rfl⟩ := hrest b hb <;> cases k <;> rfl

theorem trade_scanLedger (h : e.beatStep p .scanLedger = some r) :
    Trade id e p .scanLedger r := by
  obtain rfl := Option.some.inj h
  refine .go (.raise (fun k => by cases k <;> rfl) fun k => ?_)
  rw [List.flatMap_singleton]
  exact Ledger.raised_retry e.ledger k id

theorem trade_record {s : Snapshot} (h : e.recordStep now p (.record s) = some r)
    (hstays : e.ledger.get? id ≠ none → r.world.ledger.get? id ≠ none) :
    Trade id e p (.record s) r := by
  obtain rfl := Option.some.inj h
  have hnone : ∀ k : Sending, k.games (.record s) = [] := fun k => by cases k <;> rfl
  split at hstays
  · next hsubmit =>
    have hraised (k : Sending) :=
      Ledger.raised_record e.ledger now s k (Ledger.dropped_ne_of_stays hstays)
    simp only [if_pos hsubmit] at hraised ⊢
    refine .go (.raise hnone fun k => ?_)
    rw [List.flatMap_singleton]
    exact hraised k
  · next hsubmit =>
    have hraised (k : Sending) :=
      Ledger.raised_record e.ledger now s k (Ledger.dropped_ne_of_stays hstays)
    simp only [if_neg hsubmit] at hraised ⊢
    exact .quit (.raise hnone hraised)

theorem trade_submit {uploads histories : List String}
    (h : e.recordStep now p (.submit uploads histories) = some r) :
    Trade id e p (.submit uploads histories) r := by
  match uploads, histories with
  | j :: uploads, histories =>
    obtain rfl := Option.some.inj h
    split
    · next q log hq =>
      refine .post hq fun k => ?_
      cases k with
      | snapshot => exact List.perm_append_singleton j uploads
      | history => exact .of_eq (List.append_nil _)
    · next q log hq => exact .refuse hq fun k => by cases k <;> rfl
  | [], j :: histories =>
    obtain rfl := Option.some.inj h
    split
    · next q log hq =>
      refine .post hq fun k => ?_
      cases k with
      | snapshot => exact .refl _
      | history => exact List.perm_append_singleton j histories
    · next q log hq => exact .refuse hq fun k => by cases k <;> rfl
  | [], [] =>
    obtain rfl := Option.some.inj h
    exact .quit (.same fun k => by cases k <;> rfl)

theorem trade_recordStep (h : e.recordStep now p a = some r)
    (hstays : e.ledger.get? id ≠ none → r.world.ledger.get? id ≠ none) :
    Trade id e p a r := by
  cases a with
  | sendSnapshot s =>
    obtain rfl := Option.some.inj h
    split
    · exact .quit (.same fun k => by cases k <;> rfl)
    · split
      · exact .quit (.same fun k => by cases k <;> rfl)
      · exact .go (.same fun k => by cases k <;> rfl)
  | record s => exact trade_record h hstays
  | submit uploads histories => exact trade_submit h
  | withdrawUpload j uploads histories =>
    obtain rfl := Option.some.inj h
    exact .lower (k := .snapshot) rfl rfl
  | withdrawHistory j histories =>
    obtain rfl := Option.some.inj h
    exact .lower (k := .history) rfl rfl
  | _ => cases h

theorem trade_uploadStep (h : e.uploadStep p a = some r)
    (hstays : e.ledger.get? id ≠ none → r.world.ledger.get? id ≠ none) :
    Trade id e p a r := by
  cases a with
  | upload j =>
    obtain rfl := Option.some.inj h
    split
    · exact .lower (k := .snapshot) rfl rfl
    · next hnone =>
      refine .void (k := .snapshot) rfl rfl ?_
      exact Option.map_eq_none_iff.mp hnone
  | history j =>
    obtain rfl := Option.some.inj h
    split
    · exact .lower (k := .history) rfl rfl
    · next hnone =>
      refine .void (k := .history) rfl rfl ?_
      exact Option.map_eq_none_iff.mp hnone
  | acknowledge j revision =>
    obtain rfl := Option.some.inj h
    have hraised (k : Sending) := Ledger.raised_acknowledge e.ledger id j revision k
    have hnone : ∀ k : Sending, k.games (.acknowledge j revision) = [] :=
      fun k => by cases k <;> rfl
    split
    · next hdue =>
      have hdue : (e.ledger.acknowledge j revision).1 = true := hdue
      simp only [if_pos hdue] at hraised
      refine .go (.raise hnone fun k => ?_)
      rw [List.flatMap_singleton]
      exact hraised k
    · next hdue =>
      have hdue : ¬(e.ledger.acknowledge j revision).1 = true := hdue
      simp only [if_neg hdue] at hraised
      exact .quit (.raise hnone hraised)
  | close j =>
    obtain rfl := Option.some.inj h
    exact .quit (.raise (fun k => by cases k <;> rfl) (Ledger.raised_close · hstays))
  | uploadGate u revision =>
    obtain rfl := Option.some.inj h
    split
    · exact .quit (.same fun k => by cases k <;> rfl)
    · exact .go (.same fun k => by cases k <;> rfl)
  | callUpload u revision =>
    obtain rfl := Option.some.inj h
    exact .ask (.same fun k => by cases k <;> rfl)
  | historyGate u =>
    obtain rfl := Option.some.inj h
    split
    · exact .quit (.same fun k => by cases k <;> rfl)
    · exact .go (.same fun k => by cases k <;> rfl)
  | callHistory u =>
    obtain rfl := Option.some.inj h
    exact .ask (.same fun k => by cases k <;> rfl)
  | _ => cases h

/-- **Every step is a trade**, for a game that does not leave the ledger. -/
theorem trade (h : program.act now self e p a reply = some r)
    (hstays : e.ledger.get? id ≠ none → r.world.ledger.get? id ≠ none) :
    Trade id e p a r := by
  cases act_part h with
  | aside ha haside => exact .aside ha haside
  | replied ha hresume => exact trade_resume hresume ha
  | scanned hscan => exact trade_scanLedger hscan
  | recorded hrec => exact trade_recordStep hrec hstays
  | uploaded hup => exact trade_uploadStep hup hstays

/-! ## Runs -/

/-- What is submitted elsewhere than to the lane of game data is not about games. -/
theorem act_apart (hp : p.Apart (·.isPlain = true) .gameData)
    (h : program.act now self e p a reply = some r) :
    r.pool.Apart (·.isPlain = true) .gameData := by
  cases act_part h with
  | aside ha haside => exact haside.pool.apart hp
  | replied ha hresume => exact (resume_upload hresume ha).1 ▸ hp
  | scanned hscan =>
    obtain rfl := Option.some.inj hscan
    exact hp
  | recorded hrec =>
    obtain hpool | ⟨task, hpool⟩ := recordStep_pool hrec
    · exact hpool ▸ hp
    · rw [hpool]
      exact hp.postTo fun hne => absurd rfl hne
  | uploaded hup => exact uploadStep_pool hup ▸ hp

variable {s : Setup} {start : Nat} {ts : List Transition} {m : System} {x : GameRecord}

theorem games_of_isHostCall {a : Activity} (h : a.isHostCall = true) {k : Sending} :
    k.games a = [] := by
  cases a <;> first | (cases k <;> rfl) | cases h

theorem Run.apart (h : Run s start ts m) : m.pool.Apart (·.isPlain = true) .gameData := by
  induction h with
  | start => exact .ofSize _
  | step _ _ hstep ih =>
    exact Machine.apart_step ih hstep fun self a reply e he => act_apart ih he

/-- **The flags of a game that stays are balanced**, after every run. -/
theorem Run.balanced (h : Run s start ts m) (hstays : Stays id ts) :
    Balanced id m.world.ledger (m.stock .gameData) := by
  induction h with
  | start => exact fun k => rfl
  | @step ts m m' move events hrun hopen hstep ih =>
    have ih := ih hstays.of_append
    have hlast := hstays _ (List.mem_append_right _ List.mem_cons_self)
    cases hu : Machine.Transition.turn? ⟨m, move, m'⟩ with
    | some u =>
      obtain ⟨self, e, others, he, hworld, -, hbefore, hafter⟩ :=
        Machine.stock_turn act_uses hstep hu .gameData
      dsimp only at hlast
      rw [hworld] at hlast ⊢
      obtain ⟨posted, hposted, hx⟩ := trade he hlast
      exact ((ih.perm hbefore).exchange hx).perm (hafter posted hposted).symm
    | none =>
      obtain ⟨hworld, new, hnew, hmem⟩ := Machine.stock_idle hstep hu .gameData
      rw [hworld]
      refine (ih.join fun a ha k => ?_).perm hnew.symm
      obtain rfl | helse := hmem a ha
      · exact games_of_isHostCall hopen
      · exact Sending.games_of_isPlain
          ((Run.apart hrun).of_elsewhere (Run.sound hrun).tended.pool.drains helse)

/-- How many sendings of a game are yet to be begun: in a call, at a worker, or in the lane of game
data. -/
def awaiting (k : Sending) (id : String) (m : System) : Nat :=
  ((m.stock .gameData).flatMap k.games).count id

/-- The task of a sending finds its flag lowered when it goes on. -/
theorem act_task (k : Sending) (id : String) (now : Nat) (self : Option Nat) (e : Engine)
    (p : Workers) : ∃ r, program.act now self e p (k.task id) none = some r ∧
      r.world.ledger.raised k id = 0 := by
  cases k with
  | snapshot =>
    refine ⟨_, rfl, ?_⟩
    split
    · exact (Ledger.raised_lower e.ledger .snapshot id .snapshot id).trans (if_pos ⟨rfl, rfl⟩)
    · next hnone => exact Ledger.raised_of_none (Option.map_eq_none_iff.mp hnone)
  | history =>
    refine ⟨_, rfl, ?_⟩
    split
    · exact (Ledger.raised_lower e.ledger .history id .history id).trans (if_pos ⟨rfl, rfl⟩)
    · next hnone => exact Ledger.raised_of_none (Option.map_eq_none_iff.mp hnone)

/-- **The flags mirror the queue.** Take any run, and a game that stays in the ledger from its
first snapshot on. A flag of its record is raised just if one sending is yet to be begun: whoever
raised the flag has still to submit the task, or it waits in the lane of game data, or a worker is
about to begin it. There is never more than one, and its task lowers the flag when it goes on. -/
theorem Run.flags_mirror_queue (h : Run s start ts m) (hstays : Stays id ts)
    (hr : m.world.ledger.get? id = some x) :
    (x.uploadQueued = true ↔ awaiting .snapshot id m = 1) ∧
    (x.historyQueued = true ↔ awaiting .history id m = 1) ∧
    ∀ k : Sending, awaiting k id m ≤ 1 ∧
      ∀ self, ∃ r, program.act m.now self m.world m.pool (k.task id) none = some r ∧
        r.world.ledger.raised k id = 0 := by
  have hraised (k : Sending) : awaiting k id m = (k.flag x).toNat :=
    (h.balanced hstays k).trans (Ledger.raised_of_get? hr)
  refine ⟨?_, ?_, fun k => ⟨?_, fun self => act_task k id ..⟩⟩
  · rw [hraised]
    exact Bool.toNat_eq_one.symm
  · rw [hraised]
    exact Bool.toNat_eq_one.symm
  · rw [hraised]
    exact Bool.toNat_le _

/-- A snapshot is recorded while an upload of its game waits. -/
def Sample.coalesced : List (Machine.Move Activity Reply) :=
  arrive ++ signIn ++ send { active := true, session := "game" } ++
    [.call (.sendSnapshot { active := true, session := "game", time := 1 }), .caller 0 none,
      .caller 0 none]

set_option maxRecDepth 100000 in
/-- A run with two snapshots and one upload that waits. -/
theorem one_upload_for_two :
    ∃ ts m x, Run Sample.setup 0 ts m ∧ Stays "game" ts ∧
      m.world.ledger.get? "game" = some x ∧ x.revision = 2 ∧ x.uploadQueued = true ∧
      awaiting .snapshot "game" m = 1 ∧ awaiting .history "game" m ≠ 1 := by
  have hcourse : ((system Sample.setup 0).course? program Activity.isHostCall
      Sample.coalesced).any
      (fun x => decide (Stays "game" x.1) && (x.2.world.ledger.get? "game").any fun r =>
        decide (r.revision = 2) && r.uploadQueued && !r.historyQueued) = true := by
    decide +kernel
  obtain ⟨ts, m, hrun, hfound⟩ := Machine.exists_course hcourse
  simp only [Bool.and_eq_true, decide_eq_true_eq] at hfound
  obtain ⟨hstays, hrecord⟩ := hfound
  obtain ⟨x, hx, hflags⟩ := (Option.any_eq_true _ _).mp hrecord
  simp only [Bool.and_eq_true, decide_eq_true_eq, Bool.not_eq_true'] at hflags
  obtain ⟨⟨hrevision, hup⟩, hdown⟩ := hflags
  obtain ⟨hupload, hhistory, -⟩ := Run.flags_mirror_queue hrun hstays hx
  refine ⟨ts, m, x, hrun, hstays, hx, hrevision, hup, hupload.mp hup, fun hone => ?_⟩
  rw [hhistory.mpr hone] at hdown
  cases hdown

end Engine

end ArcadeUplink
