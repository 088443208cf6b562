import ArcadeUplink.Proofs.Game.Tale
import ArcadeUplink.Proofs.Session.Passage
import ArcadeUplink.Session.Console

/-!
# A tracker on an engine

A console is a tracker together with the engine that learns what it makes known.
The host says something to the tracker, or anything else happens at the engine: a
call of the host that sends no snapshot, a reply of the server, a step of a worker
or of the timer, in any order. The tracker does one thing after another, so nothing
is said as long as the snapshot that it sent last is pending.

Every play of a console is a run of its engine (`Play.run`), so everything that is
known of runs holds of plays too.
-/

namespace ArcadeUplink

/-- A tracker with what it has told, and the engine that it is on. -/
structure Console where
  tale : Tale := {}
  system : Engine.System

namespace Console

open Engine (Transition Run deed? deeds pending program)
open Tracker (Say)

/-- What can happen at a console. -/
inductive Move where
  | say (x : Say)
  | other (move : Machine.Move Activity Reply)

/-- Whether the host may call an activity beside the tracker: any that sends no snapshot. -/
def isBeside (a : Activity) : Bool := a.isHostCall && a.pending?.isNone

def callsOf (events : List TrackerEvent) : List Activity := events.filterMap TrackerEvent.call?

/-- One step, with the steps of the engine in it. -/
def step (c : Console) : Move → Option (List Transition × Console)
  | .say x =>
    if pending c.system = [] then
      (c.system.course? program Activity.isHostCall
        ((callsOf (c.tale.tracker.perform x.1 x.2).2).map .call)).map fun r =>
          (r.1, ⟨c.tale.add x, r.2⟩)
    else none
  | .other move =>
    if move.isOpen isBeside then
      (c.system.step program move).map fun r => ([⟨c.system, move, r.1⟩], ⟨c.tale, r.1⟩)
    else none

/-- What can come of a tracker that is set up on an engine which was never started, with the steps
of the engine. -/
inductive Play (s : Setup) (now : Nat) : List Transition → Console → Prop
  | opening {ts : List Transition} {m : Engine.System} :
      (Engine.system s now).course? program Activity.isHostCall
        ((callsOf (Tracker.opening s.device.gameCodeVersion)).map .call) = some (ts, m) →
      Play s now ts ⟨{}, m⟩
  | step {ts us : List Transition} {c c' : Console} {move : Move} :
      Play s now ts c → c.step move = some (us, c') → Play s now (ts ++ us) c'

variable {s : Setup} {now : Nat} {ts us pre post : List Transition} {t : Transition}
  {c c' : Console} {x : Say} {m : Engine.System}

theorem step_say (h : c.step (.say x) = some (us, c')) :
    pending c.system = [] ∧ c'.tale = c.tale.add x ∧
      c.system.course? program Activity.isHostCall
        ((callsOf (c.tale.tracker.perform x.1 x.2).2).map .call) = some (us, c'.system) := by
  obtain ⟨hidle, h⟩ := Option.ite_none_right_eq_some.mp h
  obtain ⟨⟨us', m⟩, hm, heq⟩ := Option.map_eq_some_iff.mp h
  cases heq
  exact ⟨hidle, rfl, hm⟩

theorem step_other {move : Machine.Move Activity Reply} (h : c.step (.other move) = some (us, c')) :
    move.isOpen isBeside = true ∧ c'.tale = c.tale ∧ us = [⟨c.system, move, c'.system⟩] ∧
      ∃ events, c.system.step program move = some (c'.system, events) := by
  obtain ⟨hopen, h⟩ := Option.ite_none_right_eq_some.mp h
  obtain ⟨⟨m, events⟩, hm, heq⟩ := Option.map_eq_some_iff.mp h
  cases heq
  exact ⟨hopen, rfl, rfl, events, hm⟩

theorem isOpen_of_isBeside {move : Machine.Move Activity Reply}
    (h : move.isOpen isBeside = true) : move.isOpen Activity.isHostCall = true := by
  cases move with
  | call a => exact (Bool.and_eq_true_iff.mp h).1
  | _ => rfl

/-- What is called beside the tracker records nothing. -/
theorem pending?_of_isBeside {move : Machine.Move Activity Reply}
    (h : move.isOpen isBeside = true) : ∀ a, move = .call a → a.pending? = none := by
  rintro a rfl
  exact Option.isNone_iff_eq_none.mp (Bool.and_eq_true_iff.mp h).2

/-- **A play is a run** of the engine. -/
theorem Play.run (h : Play s now ts c) : Run s now ts c.system := by
  induction h with
  | opening h => exact Machine.course_of_course? h
  | @step ts us c c' move _ hstep ih =>
    cases move with
    | say x => exact ih.append_course? (step_say hstep).2.2
    | other move =>
      obtain ⟨hopen, -, rfl, events, hevents⟩ := step_other hstep
      exact .step ih (isOpen_of_isBeside hopen) hevents

/-- What a list of moves leads to, with the steps of the engine; none, if a move is not possible. -/
def course? (c : Console) : List Move → Option (List Transition × Console)
  | [] => some ([], c)
  | move :: moves =>
    (c.step move).bind fun r => (course? r.2 moves).map fun q => (r.1 ++ q.1, q.2)

def play? (s : Setup) (now : Nat) (moves : List Move) : Option (List Transition × Console) :=
  ((Engine.system s now).course? program Activity.isHostCall
    ((callsOf (Tracker.opening s.device.gameCodeVersion)).map .call)).bind fun r =>
      (course? ⟨{}, r.2⟩ moves).map fun q => (r.1 ++ q.1, q.2)

theorem Play.append_course? (h : Play s now ts c) {moves : List Move}
    (hr : c.course? moves = some (us, c')) : Play s now (ts ++ us) c' := by
  induction moves generalizing ts us c with
  | nil =>
    cases hr
    rwa [List.append_nil]
  | cons move moves ih =>
    obtain ⟨⟨vs, c₁⟩, hstep, hrest⟩ := Option.bind_eq_some_iff.mp hr
    obtain ⟨⟨ws, c₂⟩, hws, heq⟩ := Option.map_eq_some_iff.mp hrest
    cases heq
    have hplay := ih (h.step hstep) hws
    rwa [List.append_assoc] at hplay

theorem exists_play {moves : List Move} {p : List Transition × Console → Bool}
    (h : (play? s now moves).any p = true) : ∃ ts c, Play s now ts c ∧ p (ts, c) = true := by
  obtain ⟨⟨ts, c⟩, hr, hp⟩ := (Option.any_eq_true _ _).mp h
  obtain ⟨⟨us, m⟩, hopening, hrest⟩ := Option.bind_eq_some_iff.mp hr
  obtain ⟨⟨vs, c'⟩, hvs, heq⟩ := Option.map_eq_some_iff.mp hrest
  cases heq
  exact ⟨_, _, (Play.opening hopening).append_course? hvs, hp⟩

theorem deeds_of_calls {calls : List Activity} {m m' : Engine.System}
    (h : m.course? program Activity.isHostCall (calls.map .call) = some (us, m')) :
    deeds us = [] :=
  List.filterMap_eq_nil_iff.mpr fun t ht =>
    Engine.deed?_of_idle ((Machine.course?_calls h).2 t ht)

/-- **What led to a deed**: the console that did it, and what the host has said since. -/
theorem Play.before_of_deed (h : Play s now (pre ++ t :: post) c) {d : Deed}
    (ht : deed? t = some d) :
    ∃ c₀ words, Play s now pre c₀ ∧ c₀.system = t.before ∧
      c.tale = c₀.tale.addAll words := by
  have hcalls : ∀ {calls : List Activity} {us : List Transition} {m m' : Engine.System},
      m.course? program Activity.isHostCall (calls.map .call) = some (us, m') → t ∉ us := by
    intro calls us m m' hus hmem
    cases ht.symm.trans (Engine.deed?_of_idle ((Machine.course?_calls hus).2 t hmem))
  generalize hall : pre ++ t :: post = all at h
  induction h generalizing post with
  | opening h => exact absurd (hall ▸ List.mem_append_right _ List.mem_cons_self) (hcalls h)
  | @step ts us c c' move hplay hstep ih =>
    have hlast : ∀ rest, pre = ts ++ rest → us = rest ++ t :: post → ∃ c₀ words,
        Play s now pre c₀ ∧ c₀.system = t.before ∧ c'.tale = c₀.tale.addAll words := by
      rintro rest rfl hus
      cases move with
      | say x =>
        have hmem : t ∈ us := hus ▸ List.mem_append_right _ List.mem_cons_self
        exact absurd hmem (hcalls (step_say hstep).2.2)
      | other move =>
        obtain ⟨-, htale, hone, -⟩ := step_other hstep
        obtain ⟨rfl, hcons⟩ | ⟨-, hnil⟩ := List.append_eq_singleton_iff.mp (hus.symm.trans hone)
        · obtain ⟨rfl, -⟩ := List.cons.inj hcons
          rw [List.append_nil]
          exact ⟨c, [], hplay, rfl, htale⟩
        · cases hnil
    obtain ⟨rest, hts, hpost⟩ | ⟨rest, hpre, hus⟩ := List.append_eq_append_iff.mp hall
    · cases rest with
      | nil => exact hlast [] (by simpa using hts.symm) hpost.symm
      | cons r rest =>
        obtain ⟨rfl, rfl⟩ := List.cons.inj hpost
        obtain ⟨c₀, words, hplay₀, hsystem, htale⟩ := ih hts.symm
        cases move with
        | say x =>
          refine ⟨c₀, words ++ [x], hplay₀, hsystem, ?_⟩
          rw [(step_say hstep).2.1, htale, Tale.addAll_concat]
        | other move =>
          obtain ⟨-, htale', -⟩ := step_other hstep
          exact ⟨c₀, words, hplay₀, hsystem, htale'.trans htale⟩
    · exact hlast rest hpre hus

end Console

end ArcadeUplink
