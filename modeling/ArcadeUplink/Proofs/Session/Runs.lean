import ArcadeUplink.Proofs.Machine.Turn
import ArcadeUplink.Proofs.Session.Conduct

/-!
# Runs of the engine

A run begins with an engine that was never started; the host may make any call
at any time, and whoever can go on may be the next to do so, with any reply. The
deeds of a run are those of its steps. `Run.sound` establishes what holds after
every run: the pool is in order, every activity is in its place, the deeds are
lawful, the ledger is kept by them, and whoever is at the lane of game data
follows up the last one.
-/

namespace ArcadeUplink

open Pool (Lane Use)
open Deed

/-- Whether the host may call an activity. Everything else is what remains of a call or a task. -/
def Activity.isHostCall : Activity → Bool
  | .startUp => true
  | .shutDown failing => !failing
  | .authenticate => true
  | .requestBeat again => !again
  | .sendSnapshot _ => true
  | .request _ => true
  | .report _ => true
  | .consult _ => true
  | .pairLink => true
  | .claimLink _ => true
  | _ => false

namespace Engine

/-- One step of the engine on its pool. -/
abbrev Transition := Machine.Transition Engine Activity Reply

/-- What the host and everybody else can do with an engine from its setup on, whatever is replied
and in whatever order the steps come. -/
abbrev Run (s : Setup) (start : Nat) : List Transition → System → Prop :=
  Machine.Course program Activity.isHostCall (system s start)

/-- The deed that a step is, if it is one. -/
def deed? (t : Transition) : Option Deed :=
  t.turn?.bind fun u => Deed.of? t.before.now t.before.world.ledger u.activity u.reply

theorem deed?_of_turn {t : Transition} {u : Machine.Turn Activity Reply} (h : t.turn? = some u) :
    deed? t = Deed.of? t.before.now t.before.world.ledger u.activity u.reply := by
  unfold deed?
  rw [h]
  rfl

theorem deed?_of_idle {t : Transition} (h : t.turn? = none) : deed? t = none := by
  unfold deed?
  rw [h]
  rfl

/-- The deeds of some steps. -/
def deeds (ts : List Transition) : List Deed := ts.filterMap deed?

@[simp] theorem deeds_append (ts us : List Transition) : deeds (ts ++ us) = deeds ts ++ deeds us :=
  List.filterMap_append

theorem deeds_cons (t : Transition) (ts : List Transition) :
    deeds (t :: ts) = (deed? t).toList ++ deeds ts := by
  unfold deeds
  rw [List.filterMap_cons]
  cases deed? t <;> rfl

@[simp] theorem deeds_singleton (t : Transition) : deeds [t] = (deed? t).toList := by
  rw [deeds_cons]
  exact List.append_nil _

/-- A deed that was done was done in some step. -/
theorem exists_of_deeds_eq {ts : List Transition} {before after : List Deed} {d : Deed}
    (h : deeds ts = before ++ d :: after) :
    ∃ pre t post, ts = pre ++ t :: post ∧ deeds pre = before ∧ deed? t = some d ∧
      deeds post = after := by
  obtain ⟨pre, rest, rfl, hpre, hrest⟩ := List.filterMap_eq_append_iff.mp h
  obtain ⟨skipped, t, post, rfl, hskipped, ht, hpost⟩ := List.filterMap_eq_cons_iff.mp hrest
  refine ⟨pre ++ skipped, t, post, by rw [List.append_assoc], ?_, ht, hpost⟩
  rw [deeds_append, ← hpre]
  exact (congrArg _ (List.filterMap_eq_nil_iff.mpr hskipped)).trans (List.append_nil _)

/-! ## What activities do to the pool -/

section Uses

variable {now : Nat} {self : Option Nat} {e : Engine} {p : Workers} {a b : Activity}
  {reply : Option Reply} {r : Result}

/-- Whoever records or submits does nothing to the pool but to submit an upload. -/
theorem recordStep_pool (h : e.recordStep now p a = some r) :
    r.pool = p ∨ ∃ task, r.pool = (p.postTo .gameData task).2.1 := by
  have hpost : ∀ {task done q log}, p.postTo .gameData task = (done, q, log) →
      ∃ task, q = (p.postTo .gameData task).2.1 := fun {task} _ _ _ hq => ⟨task, by rw [hq]⟩
  unfold recordStep at h
  split at h
  · obtain rfl := Option.some.inj h
    split
    · exact .inl rfl
    · split <;> exact .inl rfl
  · obtain rfl := Option.some.inj h
    split <;> exact .inl rfl
  · obtain rfl := Option.some.inj h
    split
    · next hq => exact .inr (hpost hq)
    · next hq => exact .inr (hpost hq)
  · obtain rfl := Option.some.inj h
    split
    · next hq => exact .inr (hpost hq)
    · next hq => exact .inr (hpost hq)
  · obtain rfl := Option.some.inj h
    exact .inl rfl
  · obtain rfl := Option.some.inj h
    exact .inl rfl
  · obtain rfl := Option.some.inj h
    exact .inl rfl
  · cases h

theorem recordStep_uses (h : e.recordStep now p a = some r) : Use (fun _ _ => True) p r.pool := by
  obtain hpool | ⟨task, hpool⟩ := recordStep_pool h
  · rw [hpool]
    exact .leave
  · rw [hpool]
    exact .postTo trivial

/-- Whoever records or submits is never in the midst of an upload. -/
theorem recordStep_rest (h : e.recordStep now p a = some r) (hb : b ∈ r.rest) :
    b.isMidway = false := by
  unfold recordStep at h
  split at h
  · obtain rfl := Option.some.inj h
    split at hb
    · cases hb
    · split at hb <;> cases hb
      rfl
  · obtain rfl := Option.some.inj h
    split at hb <;> cases hb
    rfl
  · obtain rfl := Option.some.inj h
    split at hb <;> cases hb <;> rfl
  · obtain rfl := Option.some.inj h
    split at hb <;> cases hb <;> rfl
  · obtain rfl := Option.some.inj h
    cases hb
  · obtain rfl := Option.some.inj h
    cases hb
    rfl
  · obtain rfl := Option.some.inj h
    cases hb
    rfl
  · cases h

theorem uploadStep_pool (h : e.uploadStep p a = some r) : r.pool = p := by
  unfold uploadStep at h
  split at h
  · obtain rfl := Option.some.inj h
    split <;> rfl
  · obtain rfl := Option.some.inj h
    split <;> rfl
  · obtain rfl := Option.some.inj h
    rfl
  · obtain rfl := Option.some.inj h
    split <;> rfl
  · obtain rfl := Option.some.inj h
    split <;> rfl
  · obtain rfl := Option.some.inj h
    split <;> rfl
  · obtain rfl := Option.some.inj h
    rfl
  · obtain rfl := Option.some.inj h
    rfl
  · cases h

/-- A step does to the pool what an activity may do. -/
theorem act_uses (h : program.act now self e p a reply = some r) :
    Use (fun _ _ => True) p r.pool := by
  cases act_part h with
  | aside ha haside => exact haside.pool.mono fun _ _ _ => trivial
  | replied ha hresume =>
    rw [(resume_upload hresume ha).1]
    exact .leave
  | scanned hscan =>
    obtain rfl := Option.some.inj hscan
    exact .leave
  | recorded hrec => exact recordStep_uses hrec
  | uploaded hup =>
    rw [uploadStep_pool hup]
    exact .leave

end Uses

/-! ## The invariant -/

/-- What holds after every run, by its deeds. -/
structure Sound (ds : List Deed) (m : System) : Prop where
  orderly : m.pool.Orderly
  tended : m.Tended (Fresh ds) (Fit ds)
  lawful : Lawful ds
  kept : m.world.ledger.Kept ds
  desk : AtDesk ds (m.pool.atWork .gameData)

theorem isRecorded_of_of? {now : Nat} {l : Ledger} {a : Activity} {reply : Option Reply} {d : Deed}
    (h : Deed.of? now l a reply = some d) (ha : a.isUploading = false) : d.isRecorded = true := by
  unfold Deed.of? at h
  split at h
  · cases h
    rfl
  all_goals first | cases ha | cases h

theorem atDesk_concat {ds : List Deed} {d : Deed} (h : d.isRecorded = true) {w : List Activity} :
    AtDesk (ds ++ [d]) w ↔ AtDesk ds w := by
  have hrest : Rested (ds ++ [d]) ↔ Rested ds := by
    unfold Rested
    rw [lastAct?_concat_of_recorded h]
  cases w with
  | nil => exact hrest
  | cons a w =>
    show a.Follows (ds ++ [d]) ↔ a.Follows ds
    cases hm : a.isMidway with
    | false =>
      rw [Activity.follows_of_not_midway hm, Activity.follows_of_not_midway hm]
      exact hrest
    | true =>
      cases a with
      | waiting call c =>
        cases c with
        | uploaded id k => simp only [Activity.Follows, lastAct?_concat_of_recorded h]
        | historyUploaded id => simp only [Activity.Follows, lastAct?_concat_of_recorded h]
        | _ => cases hm
      | _ => first | (simp only [Activity.Follows, lastAct?_concat_of_recorded h]; done) | cases hm

theorem isUploading_of_isHostCall {a : Activity} (h : a.isHostCall = true) :
    a.isUploading = false := by
  cases a <;> first | rfl | cases h

theorem histories_of_isHostCall {a : Activity} (h : a.isHostCall = true) : a.histories = [] := by
  cases a <;> first | rfl | cases h

theorem Fit.of_hostCall {ds : List Deed} {a : Activity} (h : a.isHostCall = true) :
    Fit ds none a where
  uploading hu := by rw [isUploading_of_isHostCall h] at hu; cases hu
  outside hne := absurd rfl hne
  due id hid := by rw [histories_of_isHostCall h] at hid; cases hid

namespace Sound

variable {ds : List Deed} {m m' : System} {move : Machine.Move Activity Reply}
  {events : List EngineEvent} {u : Machine.Turn Activity Reply}

theorem start (s : Setup) (now : Nat) : Sound [] (system s now) where
  orderly := ⟨fun l => by cases l <;> rfl, fun l _ => by cases l <;> rfl⟩
  tended := ⟨fun a ha => absurd ha List.not_mem_nil, .ofSize _⟩
  lawful := .nil
  kept := .empty
  desk := nofun

theorem ready (h : Sound ds m) (hstep : m.step program move = some (m', events))
    (hu : Machine.Transition.turn? ⟨m, move, m'⟩ = some u) :
    Ready ds u.lane m.world u.activity where
  lawful := h.lawful
  kept := h.kept
  fit := h.tended.fit_of_turn hu
  follows hlane := by
    obtain ⟨v, self, e, hv, -, -, -, hwork, -⟩ | ⟨hne, -⟩ :=
      Machine.lane_step act_uses h.orderly hstep .gameData
    · cases hu.symm.trans hv
      have hdesk := h.desk
      rw [hwork] at hdesk
      exact hdesk
    · exact absurd hlane (hne u hu)

/-- **Every step keeps the invariant**, with its deed added to the others. -/
theorem step (h : Sound ds m) (hopen : move.isOpen Activity.isHostCall = true)
    (hstep : m.step program move = some (m', events)) :
    Sound (ds ++ (deed? ⟨m, move, m'⟩).toList) m' := by
  have horderly := Machine.orderly_step act_uses h.orderly hstep
  cases hu : Machine.Transition.turn? ⟨m, move, m'⟩ with
  | some u =>
    have hready := h.ready hstep hu
    obtain ⟨self, e, he, hworld, -⟩ := Machine.step_turn hstep hu
    have hc := conduct hready he
    rw [deed?_of_turn hu]
    refine ⟨horderly, ?_, hc.lawful, hworld ▸ hc.kept, ?_⟩
    · refine h.tended.step hopen hstep (fun _ _ => .append) (fun _ _ => .append)
        (fun _ _ hf => hf.fit) (fun a ha => .of_hostCall ha) fun v self' e' hv _ he' => ?_
      cases hu.symm.trans hv
      have hc' := conduct hready he'
      exact ⟨hc'.pool, hc'.rest⟩
    · obtain ⟨v, self', e', hv, hlane, he', -, -, hwork⟩ | ⟨hne, hwork⟩ :=
        Machine.lane_step act_uses h.orderly hstep .gameData
      · cases hu.symm.trans hv
        rw [hwork]
        exact (conduct hready he').desk hlane
      · obtain hwork | ⟨hnone, -⟩ := hwork
        · rw [hwork]
          have hup : u.activity.isUploading = false :=
            Bool.eq_false_iff.mpr fun hup => hne u hu (hready.fit.uploading hup)
          cases hdeed : Deed.of? m.now m.world.ledger u.activity u.reply with
          | none =>
            rw [Option.toList_none, List.append_nil]
            exact h.desk
          | some d => exact (atDesk_concat (isRecorded_of_of? hdeed hup)).mpr h.desk
        · cases hu.symm.trans hnone
  | none =>
    obtain ⟨hworld, -⟩ := Machine.step_idle hstep hu
    rw [deed?_of_idle hu, Option.toList_none, List.append_nil]
    refine ⟨horderly, ?_, h.lawful, by rw [hworld]; exact h.kept, ?_⟩
    · refine h.tended.step hopen hstep (fun _ _ => id) (fun _ _ => id)
        (fun _ _ hf => hf.fit) (fun a ha => .of_hostCall ha) fun v _ _ hv _ _ => ?_
      cases hu.symm.trans hv
    · obtain ⟨v, -, -, hv, -⟩ | ⟨-, hwork | ⟨-, hempty, task, htask, hwork⟩⟩ :=
        Machine.lane_step act_uses h.orderly hstep .gameData
      · cases hu.symm.trans hv
      · rw [hwork]
        exact h.desk
      · rw [hwork]
        have hrest : Rested ds := by
          have hdesk := h.desk
          rw [hempty] at hdesk
          exact hdesk
        exact (Activity.follows_of_not_midway (h.tended.pool.waiting _ task htask).fresh).mpr hrest

/-- Whoever has to follow up an acceptance is about to. -/
theorem acknowledging (h : Sound ds m) {u : SnapshotUpload} {k : Nat}
    (hlast : lastAct? ds = some (.accepted u k)) :
    m.pool.atWork .gameData = [.acknowledge u.session k] := by
  have hone := h.orderly.atWork_le_one .gameData
  have hdesk := h.desk
  cases hwork : m.pool.atWork .gameData with
  | nil =>
    rw [hwork] at hdesk
    cases hdesk _ hlast
  | cons a w =>
    rw [hwork] at hdesk hone
    obtain rfl : w = [] := List.eq_nil_of_length_eq_zero (by simpa using hone)
    have hf : a.Follows ds := hdesk
    cases hm : a.isMidway with
    | false => cases (Activity.follows_of_not_midway hm).mp hf _ hlast
    | true =>
      cases a with
      | acknowledge id j =>
        obtain ⟨v, rfl, hv⟩ := hf
        cases hlast.symm.trans hv
        rfl
      | uploadGate v j => cases hlast.symm.trans hf
      | callUpload v j => cases hlast.symm.trans hf
      | historyGate v => cases hlast.symm.trans hf
      | callHistory v => cases hlast.symm.trans hf
      | close id =>
        obtain ⟨v, -, hv⟩ := hf
        cases hlast.symm.trans hv
      | waiting call c =>
        cases c with
        | uploaded id j =>
          obtain ⟨-, v, -, -, hv⟩ := hf
          cases hlast.symm.trans hv
        | historyUploaded id =>
          obtain ⟨-, v, -, -, hv⟩ := hf
          cases hlast.symm.trans hv
        | _ => cases hm
      | _ => cases hm

end Sound

/-- **After every run the invariant holds** of its deeds. -/
theorem Run.sound {s : Setup} {now : Nat} {ts : List Transition} {m : System}
    (h : Run s now ts m) : Sound (deeds ts) m := by
  induction h with
  | start => exact .start s now
  | step _ hopen hstep ih =>
    rw [deeds_append, deeds_singleton]
    exact ih.step hopen hstep

/-! ## Moves for examples -/

namespace Sample

/-- A device with one worker. -/
def setup : Setup where
  device := {}
  settings := { workers := 1 }
  uuid := ⟨List.replicate 16 0, rfl⟩
  baseUrl := ""

/-- A device with a second worker, for heartbeats. -/
def pair : Setup := { setup with settings := { workers := 2 } }

/-- The host starts the engine and has it authenticate. -/
def arrive : List (Machine.Move Activity Reply) :=
  [.call .startUp, .caller 0 none, .caller 0 none, .call .authenticate, .caller 0 none,
    .caller 0 none]

/-- The worker does the handshake and finds that the device is paired. -/
def signIn : List (Machine.Move Activity Reply) :=
  [.take 0, .next 0, .worker 0 none, .worker 0 (some (.signature (some [1]))),
    .worker 0 (some (.authenticated ⟨"token"⟩))] ++ List.replicate 3 (.worker 0 none) ++
  [.worker 0 (some (.pairing { paired := true }))] ++ List.replicate 5 (.worker 0 none) ++ [.next 0]

/-- The host sends a snapshot, and an upload is submitted. -/
def send (s : Snapshot) : List (Machine.Move Activity Reply) :=
  .call (.sendSnapshot s) :: List.replicate 4 (.caller 0 none)

/-- The worker takes an upload, as far as the call of the server. -/
def beginUpload : List (Machine.Move Activity Reply) :=
  [.take 0, .next 0] ++ List.replicate 3 (.worker 0 none)

/-- The server accepts, and the worker goes on for some steps. -/
def accept (steps : Nat) : List (Machine.Move Activity Reply) :=
  .worker 0 (some .accepted) :: List.replicate steps (.worker 0 none)

end Sample

end Engine

end ArcadeUplink
