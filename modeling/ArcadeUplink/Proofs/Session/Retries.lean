import ArcadeUplink.Proofs.Session.Edits
import Mathlib.Data.Prod.Lex

/-!
# Sendings that are given up

A sending is given up if its gate refuses it or its call fails. That costs
nothing: all that its task did to the ledger is that it lowered the flag of the
sending when it took it up. So the sending is missing again, and the next
heartbeat that succeeds on a paired device submits just the sendings that are
missing then, each of them once (`RunFrom.retried`).

Nothing is assumed of the ledger, or of anything else that the engine knows when
its pool is set up.
-/

namespace ArcadeUplink

open Pool (Lane)

/-- The sending that an activity has in hand: taken up, and not yet accepted or given up. -/
def Activity.inHand? : Activity → Option (Sending × String)
  | .uploadGate u _ => some (.snapshot, u.session)
  | .callUpload u _ => some (.snapshot, u.session)
  | .waiting _ (.uploaded id _) => some (.snapshot, id)
  | .historyGate u => some (.history, u.session)
  | .callHistory u => some (.history, u.session)
  | .waiting _ (.historyUploaded id) => some (.history, id)
  | _ => none

namespace Engine

/-- The sending that is given up in a turn: its gate refuses it, or its call fails, in whatever
way. -/
def givenUp? (s : Status) : Activity → Option Reply → Option (Sending × String)
  | .uploadGate u _, _ => if s ∈ Gate.paired.states then none else some (.snapshot, u.session)
  | .historyGate u, _ => if s ∈ Gate.paired.states then none else some (.history, u.session)
  | .waiting _ (.uploaded id _), some (.refused _) => some (.snapshot, id)
  | .waiting _ (.uploaded id _), some .panic => some (.snapshot, id)
  | .waiting _ (.historyUploaded id), some (.refused _) => some (.history, id)
  | .waiting _ (.historyUploaded id), some .panic => some (.history, id)
  | _, _ => none

variable {now : Nat} {self : Option Nat} {e : Engine} {p : Workers} {a b : Activity}
  {reply : Option Reply} {r : Result} {k : Sending} {id : String}

theorem inHand?_of_givenUp? {s : Status} (h : givenUp? s a reply = some (k, id)) :
    a.inHand? = some (k, id) := by
  unfold givenUp? at h
  split at h
  · exact (Option.ite_none_left_eq_some.mp h).2
  · exact (Option.ite_none_left_eq_some.mp h).2
  all_goals first | exact h | cases h

/-- Whoever has a sending in hand had it before, or has just taken it up. -/
theorem Origin.inHand? (h : Origin e p a reply b) (hb : b.inHand? = some (k, id)) :
    a.inHand? = some (k, id) ∨ a = k.task id ∧ reply = none := by
  cases h <;> cases hb <;> first | exact .inl rfl | exact .inr ⟨rfl, rfl⟩

theorem places_of_inHand? (h : a.inHand? = some (k, id)) : a.places = [some .gameData] := by
  unfold Activity.inHand? at h
  split at h
  all_goals first | rfl | cases h

theorem inHand?_of_isTask {l : Lane} (h : a.isTask l = true) : a.inHand? = none := by
  unfold Activity.isTask at h
  split at h
  all_goals first | rfl | cases h

/-- Nothing remains of a task that gives up its sending. -/
theorem rest_of_givenUp? (h : program.act now self e p a reply = some r)
    (hup : givenUp? e.status a reply = some (k, id)) : r.rest = none := by
  cases a with
  | uploadGate u i =>
    obtain ⟨hclosed, -⟩ := Option.ite_none_left_eq_some.mp hup
    refine Option.eq_none_iff_forall_not_mem.mpr fun b hb => ?_
    cases (act_behaves h).origin b hb with
    | uploadGate hopen => exact hclosed hopen
    | told htold => cases htold
  | historyGate u =>
    obtain ⟨hclosed, -⟩ := Option.ite_none_left_eq_some.mp hup
    refine Option.eq_none_iff_forall_not_mem.mpr fun b hb => ?_
    cases (act_behaves h).origin b hb with
    | historyGate hopen => exact hclosed hopen
    | told htold => cases htold
  | waiting call c =>
    obtain ⟨_, _, answer, ⟨⟩, rfl, hresume⟩ | ⟨-, hstep⟩ := act_cases h
    · cases c with
      | uploaded j i =>
        obtain ⟨rfl, -⟩ | ⟨-, events, rfl⟩ := resume_uploaded_cases hresume
        · cases hup
        · rfl
      | historyUploaded j =>
        obtain ⟨rfl, -⟩ | ⟨-, events, rfl⟩ := resume_historyUploaded_cases hresume
        · cases hup
        · rfl
      | _ => cases hup
    · cases hstep
  | _ => cases hup

/-- Who has a sending in hand does nothing to the ledger. -/
theorem turned_of_inHand? (h : a.inHand? ≠ none) (l : Ledger) (now : Nat) :
    l.turned now a = l := by
  cases a <;> first | rfl | exact absurd rfl h

variable {start : Nat} {ts us pre post : List Transition} {t : Transition} {m : System}
  {task : Activity} {lane : Option Lane}

/-- **A sending in hand was taken up by its task**, and the task has done nothing else since than to
go on with it. -/
theorem taken_up (h : Machine.Trail program .gameData task us a)
    (htask : task.isTask .gameData = true) (ha : a.inHand? = some (k, id)) :
    ∃ front, ∃ t₀ : Transition, ∃ mid, us = front ++ t₀ :: mid ∧ (k = .snapshot → front = []) ∧
      t₀.turn? = some ⟨some .gameData, k.task id, none⟩ ∧
      ∀ u ∈ mid, ∃ b reply, u.turn? = some ⟨some .gameData, b, reply⟩ ∧ b.inHand? ≠ none := by
  induction h with
  | begun => cases (inHand?_of_isTask htask).symm.trans ha
  | @turn us t a b reply self r hus ht hact hrest ih =>
    obtain hsame | ⟨rfl, rfl⟩ := ((act_behaves hact).origin b hrest).inHand? ha
    · obtain ⟨front, t₀, mid, rfl, hfront, ht₀, hmid⟩ := ih hsame
      refine ⟨front, t₀, mid ++ [t], by simp, hfront, ht₀, fun u hu => ?_⟩
      rcases List.mem_append.mp hu with hu | hu
      · exact hmid u hu
      · obtain rfl := List.mem_singleton.mp hu
        exact ⟨a, reply, ht, ne_of_eq_of_ne hsame (Option.some_ne_none _)⟩
    · refine ⟨us, t, [], rfl, ?_, ht, fun u hu => absurd hu List.not_mem_nil⟩
      rintro rfl
      obtain ⟨rfl, -⟩ | ⟨_, _, _, _, _, _, -, -, -, hact', hrest'⟩ := hus.last_cases
      · rfl
      · cases (act_behaves hact').origin _ hrest'

/-! ## What a heartbeat submits -/

/-- The tasks that come to wait in a lane in a step. -/
def arrivals (l : Lane) (t : Transition) : List Activity :=
  (t.after.pool.lanes.get l).waiting.drop (t.before.pool.lanes.get l).waiting.length

theorem Took.arrivals {w : Option Nat} (h : Took t lane a reply w r) (l : Lane) :
    arrivals l t = posted t.before.world t.before.pool l a := by
  unfold Engine.arrivals
  rw [h.waiting, List.drop_left]

/-- Games of which a snapshot is missing that nobody is at, and games whose history is, each of them
once. -/
structure Missing (l : Ledger) (uploads histories : List String) : Prop where
  uploads_nodup : uploads.Nodup
  histories_nodup : histories.Nodup
  mem_uploads : ∀ id, id ∈ uploads ↔
    ∃ r, l.get? id = some r ∧ r.isDelivered = false ∧ r.uploadQueued = false
  mem_histories : ∀ id, id ∈ histories ↔ ∃ r, l.get? id = some r ∧ r.isDelivered = true ∧
    r.isFinished = true ∧ r.historyQueued = false

theorem nodup_filter (l : Ledger) (f : GameRecord → Bool) :
    ((l.entries.filter fun e => f e.2).map (·.1)).Nodup := by
  apply List.nodup_iff_count_le_one.mpr
  intro id
  rw [SortedMap.count_filter]
  exact Bool.toNat_le _

theorem mem_filter_iff (l : Ledger) (f : GameRecord → Bool) (id : String) :
    id ∈ (l.entries.filter fun e => f e.2).map (·.1) ↔
      ∃ r, l.get? id = some r ∧ f r = true := by
  rw [← List.count_pos_iff, SortedMap.count_filter, ← Option.any_eq_true]
  cases (l.get? id).any f <;> decide

/-- **A look through the ledger finds just what is missing.** -/
theorem missing_retry (l : Ledger) : Missing l l.retry.1 l.retry.2.1 where
  uploads_nodup := nodup_filter ..
  histories_nodup := nodup_filter ..
  mem_uploads id := by
    refine (mem_filter_iff l _ id).trans (exists_congr fun r => and_congr_right fun _ => ?_)
    unfold Ledger.needsUpload
    rw [Bool.and_eq_true, Bool.not_eq_true', Bool.not_eq_true']
  mem_histories id := by
    refine (mem_filter_iff l _ id).trans (exists_congr fun r => and_congr_right fun _ => ?_)
    unfold GameRecord.historyDue
    rw [Bool.and_eq_true, Bool.and_eq_true, Bool.not_eq_true', and_assoc]

/-- Whether an activity is at what a heartbeat has brought, and has yet to look through the
ledger. -/
def isReading : Activity → Bool
  | .applyProfiles _ | .listDownloads | .submitDownloads _ | .retry => true
  | _ => false

/-- Whether an activity submits sendings, or gives up those that it cannot submit. -/
def isSubmitting : Activity → Bool
  | .submit .. | .withdrawUpload .. | .withdrawHistory .. => true
  | _ => false

/-- The tasks of some uploads and of some histories. -/
def tasksOf (uploads histories : List String) : List Activity :=
  uploads.map .upload ++ histories.map .history

/-- In a step nothing comes to wait in the lane of game data. -/
abbrev Quiet (t : Transition) : Prop := arrivals .gameData t = []

/-- What a heartbeat has submitted once it is over, by its turns since it succeeded: nothing, if the
device was not paired when it was to look through the ledger; and all that was missing then, if the
pool was open to every task. -/
inductive Submitted : List Transition → Prop
  | nothing {us : List Transition} {r : Transition} : (∀ u ∈ us ++ [r], Quiet u) →
      r.turn? = some ⟨some .heartbeat, .retry, none⟩ → r.before.world.status ≠ .paired →
      Submitted (us ++ [r])
  | missing {us back : List Transition} {r v : Transition} : (∀ u ∈ us ++ [r, v], Quiet u) →
      r.turn? = some ⟨some .heartbeat, .retry, none⟩ → r.before.world.status = .paired →
      v.turn? = some ⟨some .heartbeat, .scanLedger, none⟩ →
      ((∀ u ∈ back, u.before.pool.door ≠ none) → ∃ uploads histories,
        back.flatMap (arrivals .gameData) = tasksOf uploads histories ∧
        Missing v.before.world.ledger uploads histories) →
      Submitted (us ++ [r, v] ++ back)

/-- How far a heartbeat has come, by its turns since it succeeded. -/
inductive Aftermath : List Transition → Activity → Prop
  | reading {us : List Transition} {a : Activity} : isReading a = true → (∀ u ∈ us, Quiet u) →
      Aftermath us a
  | looking {us : List Transition} {r : Transition} : (∀ u ∈ us ++ [r], Quiet u) →
      r.turn? = some ⟨some .heartbeat, .retry, none⟩ → r.before.world.status = .paired →
      Aftermath (us ++ [r]) .scanLedger
  | submitting {us back : List Transition} {r v : Transition} {a : Activity} :
      isSubmitting a = true → (∀ u ∈ us ++ [r, v], Quiet u) →
      r.turn? = some ⟨some .heartbeat, .retry, none⟩ → r.before.world.status = .paired →
      v.turn? = some ⟨some .heartbeat, .scanLedger, none⟩ →
      -- what was submitted, and what is yet to be, is all that was missing
      ((∀ u ∈ back, u.before.pool.door ≠ none) → ∃ uploads histories,
        a = .submit uploads histories ∧
        back.flatMap (arrivals .gameData) ++ tasksOf uploads histories =
          tasksOf v.before.world.ledger.retry.1 v.before.world.ledger.retry.2.1) →
      Aftermath (us ++ [r, v] ++ back) a

theorem posted_of_isReading (h : isReading a = true) : posted e p .gameData a = [] := by
  cases a with
  | submitDownloads places =>
    cases places with
    | nil => rfl
    | cons place places => rfl
  | _ => first | rfl | cases h

/-- Whoever is at what a heartbeat brought goes on until he looks whether the device is paired. -/
theorem rest_of_isReading (h : program.act now self e p a reply = some r)
    (ha : isReading a = true) :
    (∃ b ∈ r.rest, isReading b = true) ∨
      a = .retry ∧ reply = none ∧ r.rest = if e.status = .paired then some .scanLedger else none := by
  obtain ⟨_, _, _, rfl, -, -⟩ | ⟨rfl, hstep⟩ := act_cases h
  · cases ha
  cases a with
  | applyProfiles value =>
    obtain rfl := Option.some.inj hstep
    exact .inl ⟨_, rfl, (apply_ite isReading ..).trans (ite_self true)⟩
  | listDownloads =>
    obtain rfl := Option.some.inj hstep
    exact .inl ⟨_, rfl, rfl⟩
  | submitDownloads places =>
    cases places with
    | nil =>
      obtain rfl := Option.some.inj hstep
      exact .inl ⟨_, rfl, rfl⟩
    | cons place places =>
      obtain rfl := Option.some.inj hstep
      exact .inl ⟨_, rfl, rfl⟩
  | retry =>
    obtain rfl := Option.some.inj hstep
    refine .inr ⟨rfl, rfl, ?_⟩
    split <;> rfl
  | _ => cases ha

theorem isSubmitting_rest (h : program.act now self e p a reply = some r)
    (ha : isSubmitting a = true) (hb : b ∈ r.rest) : isSubmitting b = true := by
  have horigin := (act_behaves h).origin b hb
  cases a with
  | submit | withdrawUpload | withdrawHistory =>
    cases horigin with
    | told htold => cases htold
    | _ => rfl
  | _ => cases ha

/-- Whoever finds the pool open submits the first of the tasks that are left. -/
theorem submit_of_door {uploads histories : List String}
    (h : program.act now self e p (.submit uploads histories) reply = some r)
    (hdoor : p.door ≠ none) :
    (r.rest = none ∧ tasksOf uploads histories = [] ∧
      posted e p .gameData (.submit uploads histories) = []) ∨
    ∃ uploads' histories', r.rest = some (.submit uploads' histories') ∧
      tasksOf uploads histories =
        posted e p .gameData (.submit uploads histories) ++ tasksOf uploads' histories' := by
  obtain ⟨_, _, _, heq, -, -⟩ | ⟨rfl, hstep⟩ := act_cases h
  · cases heq
  obtain ⟨crew, hcrew⟩ := Option.ne_none_iff_exists'.mp hdoor
  match uploads, histories with
  | id :: uploads, histories =>
    obtain rfl := Option.some.inj hstep
    refine .inr ⟨uploads, histories, ?_, ?_⟩
    · rw [Pool.postTo_of_door hcrew]
      rfl
    · rw [posted_of_postTo rfl, Pool.postTo_of_door hcrew]
      rfl
  | [], id :: histories =>
    obtain rfl := Option.some.inj hstep
    refine .inr ⟨[], histories, ?_, ?_⟩
    · rw [Pool.postTo_of_door hcrew]
      rfl
    · rw [posted_of_postTo rfl, Pool.postTo_of_door hcrew]
      rfl
  | [], [] =>
    obtain rfl := Option.some.inj hstep
    exact .inl ⟨rfl, rfl, rfl⟩

/-- **Every turn brings a heartbeat on** that has succeeded, or to its end. -/
theorem Aftermath.step (h : Aftermath us a) (ht : t.turn? = some ⟨some .heartbeat, a, reply⟩)
    (harrivals : arrivals .gameData t = posted t.before.world t.before.pool .gameData a)
    (hact : program.act t.before.now self t.before.world t.before.pool a reply = some r) :
    (∀ b ∈ r.rest, Aftermath (us ++ [t]) b) ∧ (r.rest = none → Submitted (us ++ [t])) := by
  cases h with
  | reading ha hquiet =>
    have hquiet' : ∀ u ∈ us ++ [t], Quiet u := List.forall_mem_append.mpr
      ⟨hquiet, List.forall_mem_singleton.mpr (harrivals.trans (posted_of_isReading ha))⟩
    obtain ⟨b, hb, hreading⟩ | ⟨rfl, rfl, hrest⟩ := rest_of_isReading hact ha
    · refine ⟨fun b' hb' => ?_, fun hnone => ?_⟩
      · cases Option.mem_unique hb hb'
        exact .reading hreading hquiet'
      · rw [hnone] at hb
        cases hb
    · rw [hrest]
      split
      · next hpaired =>
        refine ⟨fun b hb => ?_, fun hnone => by cases hnone⟩
        obtain rfl := Option.some.inj hb
        exact .looking hquiet' ht hpaired
      · next hpaired =>
        exact ⟨fun b hb => (by cases hb), fun _ => .nothing hquiet' ht hpaired⟩
  | @looking us r' hquiet hr hpaired =>
    obtain ⟨_, _, _, heq, -, -⟩ | ⟨rfl, hstep⟩ := act_cases hact
    · cases heq
    obtain rfl := Option.some.inj hstep
    have hquiet' : ∀ u ∈ us ++ [r', t], Quiet u := by
      rw [List.append_cons us r' [t]]
      exact List.forall_mem_append.mpr ⟨hquiet, List.forall_mem_singleton.mpr harrivals⟩
    refine ⟨fun b hb => ?_, fun hnone => by cases hnone⟩
    obtain rfl := Option.some.inj hb
    rw [← List.append_cons us r' [t], ← List.append_nil (us ++ [r', t])]
    exact .submitting rfl hquiet' hr hpaired ht fun _ => ⟨_, _, rfl, rfl⟩
  | @submitting us back r' v a ha hquiet hr hpaired hv hsum =>
    -- one more turn: what it submits is the first of what was yet to be
    have hturn (hdoors : ∀ u ∈ back ++ [t], u.before.pool.door ≠ none) :
        ∃ uploads histories, a = .submit uploads histories ∧
          back.flatMap (arrivals .gameData) ++ tasksOf uploads histories =
            tasksOf v.before.world.ledger.retry.1 v.before.world.ledger.retry.2.1 ∧
          t.before.pool.door ≠ none := by
      obtain ⟨hback, hlast⟩ := List.forall_mem_append.mp hdoors
      obtain ⟨uploads, histories, ha, heq⟩ := hsum hback
      exact ⟨uploads, histories, ha, heq, hlast t List.mem_cons_self⟩
    have hflat : (back ++ [t]).flatMap (arrivals .gameData) =
        back.flatMap (arrivals .gameData) ++ posted t.before.world t.before.pool .gameData a := by
      rw [List.flatMap_append, List.flatMap_singleton, harrivals]
    rw [List.append_assoc]
    refine ⟨fun b hb => .submitting (isSubmitting_rest hact ha hb) hquiet hr hpaired hv
      fun hdoors => ?_, fun hnone => .missing hquiet hr hpaired hv fun hdoors => ?_⟩
    · obtain ⟨uploads, histories, rfl, heq, hdoor⟩ := hturn hdoors
      obtain ⟨hnone, -, -⟩ | ⟨uploads', histories', hrest, htasks⟩ := submit_of_door hact hdoor
      · rw [hnone] at hb
        cases hb
      · rw [hrest] at hb
        obtain rfl := Option.some.inj hb
        exact ⟨uploads', histories', rfl, by rw [hflat, List.append_assoc, ← htasks, heq]⟩
    · obtain ⟨uploads, histories, rfl, heq, hdoor⟩ := hturn hdoors
      obtain ⟨-, htasks, hposted⟩ | ⟨uploads', histories', hrest, -⟩ := submit_of_door hact hdoor
      · refine ⟨_, _, ?_, missing_retry v.before.world.ledger⟩
        rw [hflat, hposted, ← htasks, heq]
      · rw [hnone] at hrest
        cases hrest

/-- What a heartbeat that has succeeded has yet to do: the stages that are left, and how much is left
of the one that it is at. -/
def remaining : Activity → Nat ×ₗ Nat
  | .applyProfiles _ => toLex (5, 0)
  | .listDownloads => toLex (4, 0)
  | .submitDownloads places => toLex (3, places.length)
  | .retry => toLex (2, 0)
  | .scanLedger => toLex (1, 0)
  | .submit uploads histories => toLex (0, 2 * (uploads.length + histories.length))
  | .withdrawUpload _ uploads histories => toLex (0, 2 * (uploads.length + histories.length) + 1)
  | .withdrawHistory _ histories => toLex (0, 2 * histories.length + 1)
  | _ => toLex (0, 0)

/-- A heartbeat that has succeeded is about no request. -/
theorem notices_of_aftermath (ha : isReading a = true ∨ a = .scanLedger ∨ isSubmitting a = true) :
    notices e p a reply = [] := by
  cases a with
  | applyProfiles | listDownloads | submitDownloads | retry | scanLedger | submit | withdrawUpload
  | withdrawHistory => rfl
  | _ => rcases ha with ha | ha | ha <;> cases ha

theorem Origin.remaining_lt (h : Origin e p a none b)
    (ha : isReading a = true ∨ a = .scanLedger ∨ isSubmitting a = true) :
    remaining b < remaining a := by
  rw [Prod.Lex.lt_iff]
  cases h with
  | applied | unchanged | listed | submitDownload | submitDownloads | retry | scanned
  | submitUpload | submitHistory | refusedUpload | refusedHistory | withdrawUpload
  | withdrawHistory =>
    simp only [remaining, ofLex_toLex, List.length_cons, List.length_nil, true_and]
    omega
  | told htold => cases htold.symm.trans (notices_of_aftermath ha)
  | _ => rcases ha with ha | ha | ha <;> cases ha

/-- A heartbeat that has succeeded waits for nobody, and each turn leaves it less to do. -/
theorem Aftermath.act (h : Aftermath us a) (now : Nat) (self : Option Nat) (e : Engine)
    (p : Workers) : ∃ r, program.act now self e p a none = some r ∧
      ∀ b ∈ r.rest, remaining b < remaining a := by
  have hstage : isReading a = true ∨ a = .scanLedger ∨ isSubmitting a = true := by
    cases h with
    | reading ha _ => exact .inl ha
    | looking => exact .inr (.inl rfl)
    | submitting ha _ _ _ _ _ => exact .inr (.inr ha)
  have hact : ∃ r, program.act now self e p a none = some r := by
    cases a with
    | submitDownloads places => cases places <;> exact ⟨_, rfl⟩
    | submit uploads histories => cases uploads <;> cases histories <;> exact ⟨_, rfl⟩
    | applyProfiles | listDownloads | retry | scanLedger | withdrawUpload | withdrawHistory =>
      exact ⟨_, rfl⟩
    | _ => rcases hstage with ha | ha | ha <;> cases ha
  obtain ⟨r, hact⟩ := hact
  exact ⟨r, hact, fun b hb => ((act_behaves hact).origin b hb).remaining_lt hstage⟩

theorem isReading_of_beaten {call : ServerCall} {answer : Reply}
    (h : Origin e p (.waiting call .beaten) (some answer) b) : isReading b = true := by
  cases h with
  | told htold => obtain ⟨_, ⟨⟩⟩ := served_of_notices htold
  | _ => rfl

/-- The turn in which a heartbeat succeeds. -/
def Succeeds (t : Transition) : Prop := ∃ call answer,
  t.turn? = some ⟨some .heartbeat, .waiting call .beaten, some (.beaten answer)⟩

/-- **What remains of a heartbeat that has succeeded** is on its way to look through the ledger, or
to submit what is missing. -/
theorem aftermath_of_trail (h : Machine.Trail program .heartbeat task us a) {t₀ : Transition}
    (hs : Succeeds t₀) (harrivals : ∀ u ∈ us, ∀ b reply, u.turn? = some ⟨some .heartbeat, b, reply⟩ →
      arrivals .gameData u = posted u.before.world u.before.pool .gameData b)
    {front mid : List Transition} (hus : us = front ++ t₀ :: mid) : Aftermath mid a := by
  induction h generalizing mid with
  | begun => simp at hus
  | @turn us t a b reply self r hvs ht hact hrest ih =>
    rcases List.eq_nil_or_concat mid with rfl | ⟨mid, u, rfl⟩
    · obtain ⟨-, heq⟩ := List.append_inj' hus rfl
      obtain rfl := List.head_eq_of_cons_eq heq
      obtain ⟨call, answer, hturn⟩ := hs
      cases ht.symm.trans hturn
      exact .reading (isReading_of_beaten ((act_behaves hact).origin b hrest))
        fun u hu => absurd hu List.not_mem_nil
    · rw [List.concat_eq_append, ← List.cons_append, ← List.append_assoc] at hus
      obtain ⟨rfl, heq⟩ := List.append_inj' hus rfl
      obtain rfl := List.head_eq_of_cons_eq heq
      have ih := ih (fun u hu => harrivals u (List.mem_append_left _ hu)) rfl
      rw [List.concat_eq_append]
      exact (ih.step ht (harrivals t (List.mem_append_right _ List.mem_cons_self) a reply ht)
        hact).1 b hrest

theorem RunFrom.aftermath (h : RunFrom e start ts m) (ha : a ∈ m.pool.atWork .heartbeat)
    {t₀ : Transition} {front mid : List Transition}
    (hstory : Machine.story .heartbeat ts = front ++ t₀ :: mid) (hs : Succeeds t₀) :
    Aftermath mid a := by
  obtain ⟨task, -, htrail⟩ := RunFrom.trail h ha
  refine aftermath_of_trail htrail hs (fun u hu b answer hturn => ?_) hstory
  obtain ⟨vs, ws, rfl⟩ := List.append_of_mem (Machine.mem_of_mem_story hu)
  obtain ⟨_, _, -, htook⟩ := RunFrom.turn h hturn
  exact htook.arrivals .gameData

/-- What holds of the sendings that are given up along a run, and of the heartbeats that succeed. -/
structure Retried (ts : List Transition) (m : System) : Prop where
  /-- The task of a sending that is given up is over, and all that it did to the ledger was to lower
  a flag, in the turn in which it took the sending up. -/
  given_up : ∀ pre (t : Transition) post lane a reply k id, ts = pre ++ t :: post →
    t.turn? = some ⟨lane, a, reply⟩ → givenUp? t.before.world.status a reply = some (k, id) →
      t.after.pool.atWork .gameData = [] ∧
      ∃ front, ∃ t₀ : Transition, ∃ mid, Machine.story .gameData pre = front ++ t₀ :: mid ∧
        (k = .snapshot → front = []) ∧
        t₀.turn? = some ⟨some .gameData, k.task id, none⟩ ∧
        (∀ j, t₀.after.world.ledger.get? j = (t₀.before.world.ledger.get? j).map fun r =>
          if id = j then k.lowered r else r) ∧
        ∀ u ∈ mid ++ [t], u.after.world.ledger = u.before.world.ledger
  /-- A heartbeat that has succeeded can always take its next turn, whatever others have done
  meanwhile, and each turn leaves it less to do. -/
  goes_on : ∀ a front t₀ mid, a ∈ m.pool.atWork .heartbeat →
    Machine.story .heartbeat ts = front ++ t₀ :: mid → Succeeds t₀ →
      ∀ now self e p, ∃ r, program.act now self e p a none = some r ∧
        ∀ b ∈ r.rest, remaining b < remaining a
  /-- By the time when it is over it has submitted what was missing. -/
  resubmitted : ∀ pre (t : Transition) post a reply front t₀ mid, ts = pre ++ t :: post →
    t.turn? = some ⟨some .heartbeat, a, reply⟩ → t.after.pool.atWork .heartbeat = [] →
      Machine.story .heartbeat pre = front ++ t₀ :: mid → Succeeds t₀ → Submitted (mid ++ [t])

/-- **A sending that is given up costs nothing.** Take any run, from whatever state of the engine. If
the task of a sending is refused by its gate, or its call fails, then all that it did to the ledger
is that the flag of the sending was lowered, and so the sending is missing again. And a heartbeat
that succeeds goes on to its end, and looks through the ledger if the device is paired; and if the
pool takes on every task, it submits one upload for each game that is not delivered and has none
queued, one upload of the history for each game that is delivered, over, and has none queued, and
nothing else. -/
theorem RunFrom.retried (h : RunFrom e start ts m) : Retried ts m where
  given_up := by
    rintro pre t post lane a reply k id rfl ht hup
    have hhand := inHand?_of_givenUp? hup
    obtain ⟨self, r, hact, htook⟩ := RunFrom.turn h ht
    have hplace := htook.place
    rw [places_of_inHand? hhand] at hplace
    obtain rfl := List.mem_singleton.mp hplace
    obtain ⟨task, htask, htrail⟩ := RunFrom.trail_of_turn h ht
    obtain ⟨front, t₀, mid, hstory, hfront, ht₀, hmid⟩ := taken_up htrail htask hhand
    have hledger {u : Transition} {lane : Option Lane} {b : Activity} {answer : Option Reply}
        (hu : u ∈ front ++ t₀ :: mid) (hturn : u.turn? = some ⟨lane, b, answer⟩) :
        u.after.world.ledger = u.before.world.ledger.turned u.before.now b :=
      RunFrom.ledger_of_turn h
        (List.mem_append_left _ (Machine.mem_of_mem_story (hstory ▸ hu))) hturn
    refine ⟨?_, front, t₀, mid, hstory, hfront, ht₀, fun j => ?_, fun u hu => ?_⟩
    · rw [(htook.work .gameData rfl).2, rest_of_givenUp? hact hup]
      rfl
    · rw [hledger (List.mem_append_right _ List.mem_cons_self) ht₀]
      cases k <;> exact Ledger.get?_modify ..
    · rcases List.mem_append.mp hu with hu | hu
      · obtain ⟨b, answer, hturn, hb⟩ := hmid u hu
        rw [hledger (List.mem_append_right _ (List.mem_cons_of_mem _ hu)) hturn]
        exact turned_of_inHand? hb ..
      · obtain rfl := List.mem_singleton.mp hu
        rw [RunFrom.ledger_of_turn h (List.mem_append_right _ List.mem_cons_self) ht]
        exact turned_of_inHand? (ne_of_eq_of_ne hhand (Option.some_ne_none _)) ..
  goes_on _ _ _ _ ha hstory hs := (RunFrom.aftermath h ha hstory hs).act
  resubmitted := by
    rintro pre t post a reply front t₀ mid rfl ht hover hstory hs
    obtain ⟨self, r, hact, htook⟩ := RunFrom.turn h ht
    obtain ⟨hwork, hwork'⟩ := htook.work .heartbeat rfl
    have hrest : r.rest = none := Option.toList_eq_nil_iff.mp (hwork'.symm.trans hover)
    have haftermath :=
      RunFrom.aftermath (RunFrom.before h).1 (hwork ▸ List.mem_singleton_self a) hstory hs
    exact (haftermath.step ht (htook.arrivals .gameData) hact).2 hrest

namespace Sample

/-- A paired device that knows of a game that is over and delivered. -/
def overdue : Engine where
  setup := setup
  status := .paired
  ledger := SortedMap.ofList [("over", { startedAt := 0, revision := 1, delivered := 1 })]

/-- The host requests a heartbeat, and the worker is done with it once it has succeeded. -/
def heartbeat : List (Machine.Move Activity Reply) :=
  [.call (.requestBeat false), .caller 0 none, .caller 0 none, .take 0, .next 0] ++
    List.replicate 4 (.worker 0 none) ++ [.worker 0 (some (.beaten {}))] ++
    List.replicate 5 (.worker 0 none)

/-- An upload fails, and a heartbeat succeeds. -/
def failure : List (Machine.Move Activity Reply) :=
  [.call .startUp, .caller 0 none, .caller 0 none] ++ send { active := true, session := "game" } ++
    beginUpload ++ [.worker 0 (some (.refused (.connection ""))), .next 0] ++ heartbeat

end Sample

set_option maxRecDepth 100000 in
/-- A run in which an upload is given up, and a heartbeat has submitted it again, with a history that
was due from the first. -/
theorem failed_then_resubmitted :
    ∃ ts m, RunFrom Sample.overdue 0 ts m ∧ Retried ts m ∧
      (∃ t ∈ ts, t.turn?.bind (fun u => givenUp? t.before.world.status u.activity u.reply) =
        some (.snapshot, "game")) ∧
      (m.pool.lanes.get .gameData).waiting.flatMap Sending.snapshot.games = ["game"] ∧
      (m.pool.lanes.get .gameData).waiting.flatMap Sending.history.games = ["over"] := by
  have hcourse : (Machine.course? program Activity.isHostCall
      { world := Sample.overdue, pool := .ofSize 1, now := 0 } Sample.failure).any
      (fun x => decide ((∃ t ∈ x.1,
          t.turn?.bind (fun u => givenUp? t.before.world.status u.activity u.reply) =
            some (.snapshot, "game")) ∧
        (x.2.pool.lanes.get .gameData).waiting.flatMap Sending.snapshot.games = ["game"] ∧
        (x.2.pool.lanes.get .gameData).waiting.flatMap Sending.history.games = ["over"])) =
      true := by
    decide +kernel
  obtain ⟨ts, m, hrun, hfound⟩ := Machine.exists_course hcourse
  exact ⟨ts, m, hrun, RunFrom.retried hrun, of_decide_eq_true hfound⟩

end Engine

end ArcadeUplink
