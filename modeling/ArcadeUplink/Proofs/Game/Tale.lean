import ArcadeUplink.Game.Tracker

/-!
# What a tracker tells of a game

A tracker sends a snapshot when a game starts, some while it is played, and one
when it is over. `Tale` keeps what was sent beside the tracker, with the games that
were started. If no two games go by one identifier then what was sent of each of
them is a beginning of that story, and the whole of it once the game is over
(`Tale.Coherent`); from then on nothing is added to it (`Coherent.over_add`).
-/

namespace ArcadeUplink

/-- The snapshot that is sent, if it is that which becomes known. -/
def TrackerEvent.sent? : TrackerEvent → Option Snapshot
  | .send s => some s
  | _ => none

theorem Uuid.text_ne_empty (u : Uuid) : u.text ≠ "" := by
  intro h
  have hlist : u.text.toList = "".toList := congrArg _ h
  rw [text, String.toList_ofList] at hlist
  simp [hyphenate] at hlist

namespace Snapshot

/-- What was sent of a game that is being played: the snapshot with which it started, and others in
which it is played. -/
def Opens (id : String) (l : List Snapshot) : Prop :=
  ∃ time rest, l = (started id).stamp time :: rest ∧ ∀ s ∈ l, s.active = true

/-- What was sent of a game that is over: the same, and a snapshot in which it is over. -/
def Ends (id : String) (l : List Snapshot) : Prop :=
  ∃ front last, l = front ++ [last] ∧ Opens id front ∧ last.active = false

/-- Two snapshots are of the same game at the same stage. -/
def Alike (s t : Snapshot) : Prop := s.active = t.active ∧ s.session = t.session

variable {s : Snapshot} {id : String} {l : List Snapshot}

theorem same_comm (s t : Snapshot) : s.same t = t.same s := by
  unfold same Modes.same
  simp only [eq_comm]

theorem ensurePlayer_alike (s : Snapshot) (p : PlayerNumber) : Alike (s.ensurePlayer p).2 s := by
  unfold ensurePlayer
  split <;> exact ⟨rfl, rfl⟩

theorem setActivePlayer_alike (s : Snapshot) (p : PlayerNumber) :
    Alike (s.setActivePlayer p).2 s := s.ensurePlayer_alike p

theorem setScore_alike (s : Snapshot) (p : PlayerNumber) (score feature : Int) :
    Alike (s.setScore p score feature).2 s := s.ensurePlayer_alike p

theorem Opens.concat (h : Opens id l) (hs : s.active = true) : Opens id (l ++ [s]) := by
  obtain ⟨time, rest, rfl, hall⟩ := h
  refine ⟨time, rest ++ [s], rfl, ?_⟩
  intro x hx
  rcases List.mem_append.mp hx with hx | hx
  · exact hall x hx
  · rw [List.mem_singleton.mp hx]
    exact hs

/-- **The end is the end**: nothing was sent of a game after a snapshot in which it is over. -/
theorem Ends.eq_of_prefix {front rest : List Snapshot} (h : Ends id (front ++ rest))
    (hs : front.getLast? = some s) (hover : s.active = false) : rest = [] := by
  obtain ⟨all, last, heq, ⟨-, -, -, hactive⟩, -⟩ := h
  obtain ⟨front', rfl⟩ := List.getLast?_eq_some_iff.mp hs
  rcases List.eq_nil_or_concat rest with rfl | ⟨rest', r, rfl⟩
  · rfl
  · rw [List.concat_eq_append, ← List.append_assoc] at heq
    have hmem : s ∈ all := (List.append_inj' heq rfl).1 ▸ by simp
    cases hover.symm.trans (hactive s hmem)

end Snapshot

namespace Tracker

/-- What the host says, with the time at which it says so. -/
abbrev Say := Timestamp × Operation

/-- The snapshots that are sent when the host says something. -/
def sends (t : Tracker) (x : Say) : List Snapshot :=
  (t.perform x.1 x.2).2.filterMap TrackerEvent.sent?

/-- Whether an operation only describes the game: it starts, finishes and sends none. -/
def Operation.isEdit : Operation → Bool
  | start _ | finish | commit => false
  | _ => true

/-- The game that starts when the host says something. -/
def begins? (t : Tracker) : Operation → Option String
  | .start id => if t.current.active then none else some id.text
  | _ => none

/-- What can come of what the host says: the tracker that it leads to, what is sent and the game
that is started. Whatever is sent has the change flag of its modes lowered and is remembered, but
for the last snapshot of a game. -/
inductive Outcome (t : Tracker) : Tracker → List Snapshot → Option String → Prop
  | quiet {t' : Tracker} (h : t'.current.Alike t.current) (kept : t'.previous = t.previous) :
      Outcome t t' [] none
  | started {t' : Tracker} (id : Uuid) (now : Timestamp) (h : t.current.active = false)
      (h' : t'.current = (Snapshot.started id.text).stamp now)
      (kept : t'.previous = t'.current) : Outcome t t' [t'.current] (some id.text)
  | committed {t' : Tracker} (h : t.current.active = true) (h' : t'.current.Alike t.current)
      (other : t.previous.same t'.current = false) (lowered : t'.current.modes.isChanged = false)
      (kept : t'.previous = t'.current) : Outcome t t' [t'.current] none
  | finished {s : Snapshot} (h : t.current.session ≠ "") (hs : s.session = t.current.session)
      (h' : s.active = false) (lowered : s.modes.isChanged = false) : Outcome t {} [s] none

/-- What sends nothing, leaves the game at its stage and remembers the same snapshot. -/
structure Quiet (t : Tracker) (r : Tracker × List TrackerEvent) : Prop where
  silent : r.2.filterMap TrackerEvent.sent? = []
  alike : r.1.current.Alike t.current
  kept : r.1.previous = t.previous

theorem Quiet.outcome {t : Tracker} {r : Tracker × List TrackerEvent} (h : t.Quiet r) :
    Outcome t r.1 (r.2.filterMap TrackerEvent.sent?) none := by
  rw [h.silent]
  exact .quiet h.alike h.kept

section Outcomes

variable (t : Tracker) (now : Timestamp)

theorem start_quiet (id : Uuid) (h : t.current.active = true) : t.Quiet (t.start now id) := by
  unfold start
  rw [if_pos h]
  exact ⟨rfl, ⟨rfl, rfl⟩, rfl⟩

theorem finish_quiet (h : t.current.session = "") : t.Quiet (t.finish now) := by
  unfold finish
  rw [if_pos h]
  exact ⟨rfl, ⟨rfl, rfl⟩, rfl⟩

theorem commit_quiet (h : (!t.current.active || t.current.same t.previous) = true) :
    t.Quiet (t.commit now) := by
  unfold commit
  rw [if_pos h]
  exact ⟨rfl, ⟨rfl, rfl⟩, rfl⟩

theorem start_outcome (id : Uuid) :
    Outcome t (t.start now id).1 ((t.start now id).2.filterMap TrackerEvent.sent?)
      (if t.current.active then none else some id.text) := by
  by_cases h : t.current.active = true
  · rw [if_pos h]
    exact (t.start_quiet now id h).outcome
  · unfold start
    rw [if_neg h, if_neg h]
    exact .started id now (Bool.not_eq_true _ ▸ h) rfl rfl

theorem finish_outcome :
    Outcome t (t.finish now).1 ((t.finish now).2.filterMap TrackerEvent.sent?) none := by
  by_cases h : t.current.session = ""
  · exact (t.finish_quiet now h).outcome
  · unfold finish
    rw [if_neg h]
    exact .finished h rfl rfl rfl

theorem commit_outcome :
    Outcome t (t.commit now).1 ((t.commit now).2.filterMap TrackerEvent.sent?) none := by
  by_cases h : (!t.current.active || t.current.same t.previous) = true
  · exact (t.commit_quiet now h).outcome
  · unfold commit
    rw [if_neg h]
    simp only [Bool.or_eq_true, Bool.not_eq_true', not_or, Bool.not_eq_false,
      Bool.not_eq_true] at h
    have hother : t.previous.same t.current = false := t.current.same_comm t.previous ▸ h.2
    exact .committed h.1 ⟨rfl, rfl⟩ hother rfl rfl

theorem setBall_quiet (number : Nat) : t.Quiet (t.setBall number) := by
  unfold setBall
  split <;> exact ⟨rfl, ⟨rfl, rfl⟩, rfl⟩

theorem setActivePlayer_quiet (number : Nat) : t.Quiet (t.setActivePlayer number) := by
  unfold setActivePlayer
  split
  · exact ⟨rfl, t.current.setActivePlayer_alike _, rfl⟩
  · exact ⟨rfl, ⟨rfl, rfl⟩, rfl⟩

theorem setScore_quiet (number : Nat) (score feature : Int) :
    t.Quiet (t.setScore number score feature) := by
  unfold setScore
  split
  · next p _ =>
    cases hset : t.current.setScore p score feature with
    | mk changed s =>
      have halike := t.current.setScore_alike p score feature
      rw [hset] at halike
      cases changed <;> exact ⟨rfl, halike, rfl⟩
  · exact ⟨rfl, ⟨rfl, rfl⟩, rfl⟩

theorem editModes_quiet (edit : Bool × Modes) (note : String) :
    t.Quiet (t.editModes edit note) := by
  unfold editModes
  cases edit.1 <;> exact ⟨rfl, ⟨rfl, rfl⟩, rfl⟩

theorem addMode_quiet (name : String) : t.Quiet (t.addMode name) := by
  unfold addMode
  split
  · exact ⟨rfl, ⟨rfl, rfl⟩, rfl⟩
  · exact t.editModes_quiet _ _

/-- **An edit is quiet**, whatever it says. -/
theorem perform_quiet {op : Operation} (h : op.isEdit = true) : t.Quiet (t.perform now op) := by
  cases op with
  | start | finish | commit => cases h
  | setBall n => exact t.setBall_quiet n
  | setActivePlayer n => exact t.setActivePlayer_quiet n
  | setScore n score feature => exact t.setScore_quiet n score feature
  | addMode name => exact t.addMode_quiet name
  | removeMode name => exact t.editModes_quiet _ _
  | clearModes => exact t.editModes_quiet _ _

/-- **Whatever the host says**, it has one of these outcomes. -/
theorem perform_outcome (op : Operation) :
    Outcome t (t.perform now op).1 (t.sends (now, op)) (t.begins? op) := by
  cases op with
  | start id => exact t.start_outcome now id
  | finish => exact t.finish_outcome now
  | commit => exact t.commit_outcome now
  | _ => exact (t.perform_quiet now rfl).outcome

end Outcomes

end Tracker

/-- A tracker, with what it has told. -/
structure Tale where
  tracker : Tracker := {}
  /-- The snapshots that were sent. -/
  sent : List Snapshot := []
  /-- The games that were started. -/
  games : List String := []

namespace Tale

open Tracker (Say)

def add (t : Tale) (x : Say) : Tale :=
  ⟨(t.tracker.perform x.1 x.2).1, t.sent ++ t.tracker.sends x,
    t.games ++ (t.tracker.begins? x.2).toList⟩

def addAll (t : Tale) (xs : List Say) : Tale := xs.foldl add t

theorem addAll_concat (t : Tale) (xs : List Say) (x : Say) :
    t.addAll (xs ++ [x]) = (t.addAll xs).add x := List.foldl_append

/-- What was sent of a game. -/
def told (t : Tale) (id : String) : List Snapshot := t.sent.filter fun s => s.session = id

/-- Whether a game is being played. -/
def Running (t : Tale) (id : String) : Prop :=
  t.tracker.current.active = true ∧ t.tracker.current.session = id

/-- Whether a game is over. -/
def Over (t : Tale) (id : String) : Prop := id ∈ t.games ∧ ¬t.Running id

/-- What was sent of each game is what it has come to: nothing before it starts, its beginning
while it is played, and all of it when it is over. -/
structure Coherent (t : Tale) : Prop where
  resting : t.tracker.current.active = false → t.tracker.current.session = ""
  named : "" ∉ t.games
  known : ∀ s ∈ t.sent, s.session ∈ t.games
  /-- The game that is being played is the one that was sent last. -/
  latest : ∀ id, t.Running id → ∃ s, t.sent.getLast? = some s ∧ s.session = id
  opens : ∀ id, t.Running id → Snapshot.Opens id (t.told id)
  ends : ∀ id, t.Over id → Snapshot.Ends id (t.told id)

section Extend

variable {t : Tale} {tr : Tracker} {sends : List Snapshot} {game : Option String} {id : String}
  {s : Snapshot}

/-- A tale that goes on with another tracker, with what is sent and the game that is started. -/
def extend (t : Tale) (tr : Tracker) (sends : List Snapshot) (game : Option String) : Tale :=
  ⟨tr, t.sent ++ sends, t.games ++ game.toList⟩

theorem told_extend : (t.extend tr sends game).told id =
    t.told id ++ sends.filter fun s => s.session = id :=
  List.filter_append ..

theorem told_extend_of_eq (h : s.session = id) :
    (t.extend tr [s] game).told id = t.told id ++ [s] := by
  rw [told_extend]
  simp [h]

theorem told_extend_of_ne (h : s.session ≠ id) : (t.extend tr [s] game).told id = t.told id := by
  rw [told_extend]
  simp [h]

theorem mem_sent_extend (h : s ∈ (t.extend tr sends game).sent) : s ∈ t.sent ∨ s ∈ sends :=
  List.mem_append.mp h

theorem told_eq_nil (h : t.Coherent) (hid : id ∉ t.games) : t.told id = [] := by
  apply List.filter_eq_nil_iff.mpr
  intro s hs he
  exact hid (of_decide_eq_true he ▸ h.known s hs)

namespace Coherent

theorem mem_of_running (h : t.Coherent) (hrun : t.Running id) : id ∈ t.games := by
  obtain ⟨s, hs, rfl⟩ := h.latest id hrun
  exact h.known s (List.mem_of_getLast? hs)

theorem active_of_session_ne (h : t.Coherent) (hne : t.tracker.current.session ≠ "") :
    t.tracker.current.active = true := by
  cases hactive : t.tracker.current.active with
  | true => rfl
  | false => exact absurd (h.resting hactive) hne

/-- **A game that is over stays over**, and nothing more is sent of it. -/
theorem over_extend (h : t.Coherent) (ho : t.tracker.Outcome tr sends game)
    (hd : (t.extend tr sends game).games.Nodup) (hover : t.Over id) :
    (t.extend tr sends game).Over id ∧ ∀ s ∈ sends, s.session ≠ id := by
  obtain ⟨hid, hrun⟩ := hover
  cases ho with
  | quiet halike _ =>
    refine ⟨⟨List.mem_append_left _ hid, ?_⟩, nofun⟩
    intro hr
    exact hrun ⟨halike.1 ▸ hr.1, halike.2 ▸ hr.2⟩
  | started u now hidle hcur _ =>
    have hne : u.text ≠ id := fun he =>
      (List.nodup_append.mp hd).2.2 id hid u.text (List.mem_singleton_self _) he.symm
    have hsession : tr.current.session = u.text := by rw [hcur]; rfl
    refine ⟨⟨List.mem_append_left _ hid, ?_⟩, ?_⟩
    · intro hr
      exact hne (hsession ▸ hr.2)
    · intro s hs
      rw [List.mem_singleton.mp hs, hsession]
      exact hne
  | committed hactive halike _ _ _ =>
    refine ⟨⟨List.mem_append_left _ hid, ?_⟩, ?_⟩
    · intro hr
      exact hrun ⟨hactive, halike.2 ▸ hr.2⟩
    · intro s hs he
      rw [List.mem_singleton.mp hs] at he
      exact hrun ⟨hactive, halike.2 ▸ he⟩
  | @finished s hne hs _ _ =>
    refine ⟨⟨List.mem_append_left _ hid, nofun⟩, ?_⟩
    intro x hx he
    rw [List.mem_singleton.mp hx, hs] at he
    exact hrun ⟨h.active_of_session_ne hne, he⟩

/-- Nothing is sent, and the game goes on. -/
theorem quiet (h : t.Coherent) (halike : tr.current.Alike t.tracker.current) :
    (t.extend tr [] none).Coherent := by
  have hsame : t.extend tr [] none = ⟨tr, t.sent, t.games⟩ := by
    simp [extend]
  have hrun : ∀ id, Running ⟨tr, t.sent, t.games⟩ id ↔ t.Running id := by
    intro id
    unfold Running
    rw [halike.1, halike.2]
  rw [hsame]
  exact {
    resting := fun hidle => halike.2.trans (h.resting (halike.1 ▸ hidle))
    named := h.named
    known := h.known
    latest := fun id hr => h.latest id ((hrun id).mp hr)
    opens := fun id hr => h.opens id ((hrun id).mp hr)
    ends := fun id ho => h.ends id ⟨ho.1, fun hr => ho.2 ((hrun id).mpr hr)⟩ }

/-- A new game starts, and nothing was ever sent of it. -/
theorem started (h : t.Coherent) {u : Uuid} {now : Timestamp}
    (hidle : t.tracker.current.active = false)
    (hcur : tr.current = (Snapshot.started u.text).stamp now) (hfresh : u.text ∉ t.games) :
    (t.extend tr [tr.current] (some u.text)).Coherent := by
  have hsession : tr.current.session = u.text := by rw [hcur]; rfl
  have hactive : tr.current.active = true := by rw [hcur]; rfl
  refine ⟨?_, ?_, ?_, ?_, ?_, ?_⟩
  · intro hf
    cases hactive.symm.trans hf
  · intro hmem
    rcases List.mem_append.mp hmem with hmem | hmem
    · exact h.named hmem
    · exact u.text_ne_empty (List.mem_singleton.mp hmem).symm
  · intro s hs
    rcases mem_sent_extend hs with hs | hs
    · exact List.mem_append_left _ (h.known s hs)
    · rw [List.mem_singleton.mp hs, hsession]
      exact List.mem_append_right _ (List.mem_singleton_self _)
  · intro id hr
    exact ⟨tr.current, List.getLast?_concat, hr.2⟩
  · intro id hr
    obtain rfl := hr.2.symm.trans hsession
    rw [told_extend_of_eq hsession, told_eq_nil h hfresh, List.nil_append]
    refine ⟨now, [], by rw [hcur], ?_⟩
    intro s hs
    rw [List.mem_singleton.mp hs]
    exact hactive
  · intro id ho
    have hne : u.text ≠ id := fun he => ho.2 ⟨hactive, hsession.trans he⟩
    have hid : id ∈ t.games := by
      rcases List.mem_append.mp ho.1 with hmem | hmem
      · exact hmem
      · exact absurd (List.mem_singleton.mp hmem).symm hne
    have hrun : ¬t.Running id := by
      intro hr
      cases hidle.symm.trans hr.1
    rw [told_extend_of_ne (hsession ▸ hne)]
    exact h.ends id ⟨hid, hrun⟩

/-- The game that is being played is sent. -/
theorem committed (h : t.Coherent) (hactive : t.tracker.current.active = true)
    (halike : tr.current.Alike t.tracker.current) :
    (t.extend tr [tr.current] none).Coherent := by
  have hactive' : tr.current.active = true := halike.1.trans hactive
  have hrunning : t.Running tr.current.session := ⟨hactive, halike.2.symm⟩
  have hgames : (t.extend tr [tr.current] none).games = t.games := List.append_nil _
  refine ⟨?_, hgames ▸ h.named, ?_, ?_, ?_, ?_⟩
  · intro hf
    cases hactive'.symm.trans hf
  · intro s hs
    rw [hgames]
    rcases mem_sent_extend hs with hs | hs
    · exact h.known s hs
    · rw [List.mem_singleton.mp hs]
      exact h.mem_of_running hrunning
  · intro id hr
    exact ⟨tr.current, List.getLast?_concat, hr.2⟩
  · intro id hr
    have hid : tr.current.session = id := hr.2
    rw [told_extend_of_eq hid, ← hid]
    exact (h.opens _ hrunning).concat hactive'
  · intro id ho
    have hne : tr.current.session ≠ id := fun he => ho.2 ⟨hactive', he⟩
    rw [told_extend_of_ne hne]
    exact h.ends id ⟨hgames ▸ ho.1, fun hr => hne (halike.2.trans hr.2)⟩

/-- The game that is being played is sent for the last time. -/
theorem finished (h : t.Coherent) (hrunning : t.Running s.session) (hover : s.active = false) :
    (t.extend {} [s] none).Coherent := by
  have hgames : (t.extend {} [s] none).games = t.games := List.append_nil _
  refine ⟨fun _ => rfl, hgames ▸ h.named, ?_, nofun, nofun, ?_⟩
  · intro x hx
    rw [hgames]
    rcases mem_sent_extend hx with hx | hx
    · exact h.known x hx
    · rw [List.mem_singleton.mp hx]
      exact h.mem_of_running hrunning
  · intro id ho
    by_cases he : s.session = id
    · subst he
      rw [told_extend_of_eq rfl]
      exact ⟨_, s, rfl, h.opens _ hrunning, hover⟩
    · rw [told_extend_of_ne he]
      exact h.ends id ⟨hgames ▸ ho.1, fun hr => he (hrunning.2.symm.trans hr.2)⟩

/-- **Coherence is kept** by everything that the host can say. -/
theorem extend (h : t.Coherent) (ho : t.tracker.Outcome tr sends game)
    (hd : (t.extend tr sends game).games.Nodup) : (t.extend tr sends game).Coherent := by
  cases ho with
  | quiet halike _ => exact h.quiet halike
  | started u now hidle hcur _ =>
    have hfresh : u.text ∉ t.games := fun hmem =>
      (List.nodup_append.mp hd).2.2 _ hmem _ (List.mem_singleton_self _) rfl
    exact h.started hidle hcur hfresh
  | committed hactive halike _ _ _ => exact h.committed hactive halike
  | finished hne hs hover _ => exact h.finished ⟨h.active_of_session_ne hne, hs.symm⟩ hover

end Coherent

end Extend

variable {t : Tale} {id : String}

theorem Coherent.start : Coherent {} :=
  ⟨fun _ => rfl, List.not_mem_nil, nofun, nofun, nofun, fun _ h => absurd h.1 List.not_mem_nil⟩

theorem Coherent.add (h : t.Coherent) (x : Say) (hd : (t.add x).games.Nodup) :
    (t.add x).Coherent :=
  h.extend (t.tracker.perform_outcome x.1 x.2) hd

theorem Coherent.over_add (h : t.Coherent) (x : Say) (hd : (t.add x).games.Nodup)
    (hover : t.Over id) :
    (t.add x).Over id ∧ ∀ s ∈ t.tracker.sends x, s.session ≠ id :=
  h.over_extend (t.tracker.perform_outcome x.1 x.2) hd hover

theorem games_addAll (t : Tale) (xs : List Say) : t.games <+: (t.addAll xs).games := by
  induction xs generalizing t with
  | nil => exact List.prefix_rfl
  | cons x xs ih => exact (List.prefix_append _ _).trans (ih (t.add x))

/-- **What was sent of a game that is over is all that is ever sent of it.** -/
theorem Coherent.told_addAll (h : t.Coherent) {xs : List Say} (hd : (t.addAll xs).games.Nodup)
    (hover : t.Over id) : (t.addAll xs).told id = t.told id := by
  induction xs generalizing t with
  | nil => rfl
  | cons x xs ih =>
    have hadd : (t.add x).games.Nodup := hd.sublist (games_addAll (t.add x) xs).sublist
    obtain ⟨hover', hsends⟩ := h.over_add x hadd hover
    rw [addAll, List.foldl_cons]
    refine (ih (h.add x hadd) hd hover').trans (told_extend.trans ?_)
    rw [List.filter_eq_nil_iff.mpr fun s hs he => hsends s hs (of_decide_eq_true he),
      List.append_nil]

theorem length_sends_le_one (t : Tracker) (x : Say) : (t.sends x).length ≤ 1 := by
  have h := t.perform_outcome x.1 x.2
  generalize (t.perform x.1 x.2).1 = t', t.sends x = l, t.begins? x.2 = g at h
  cases h <;> simp

end Tale

end ArcadeUplink
