import ArcadeUplink.Proofs.Game.Chapters
import ArcadeUplink.Proofs.Game.Setters

/-!
# What a commit sends

While a game is played the tracker remembers the snapshot that it sent last, and a commit
compares the current one with it. So a commit sends what has changed and nothing else: not
twice in a row, not what was changed back by the time of the commit, and nothing at all
between games (`Tale.commits`).

What the host edits is edited in the current snapshot alone (`perform_edit`), which is why
the snapshot that is remembered stays what was sent. The change flag of the modes is lowered
with each snapshot that is sent and raised with each edit that changed them, so a lowered
flag means that they are the modes that were sent. A raised one means nothing: the modes
may have been changed back.
-/

namespace ArcadeUplink

open Tracker (Say)

namespace Modes

/-- **An edit that leaves the change flag lowered** leaves the modes as they are. -/
theorem edit_of_lowered {m : Modes} {e : Edit} (h : (m.edit e).isChanged = false) :
    m.edit e = m := by
  cases e with
  | add name =>
    simp only [edit, add] at h ⊢
    split at h
    · next hmem => rw [if_pos hmem]
    · cases h
  | remove name =>
    simp only [edit, remove] at h ⊢
    split at h
    · cases h
    · next hmem => rw [if_neg hmem]
  | clear =>
    simp only [edit, clear] at h ⊢
    split at h
    · next hmem => rw [if_pos hmem]
    · cases h

end Modes

namespace Snapshot

variable {s t : Snapshot} {e : Edit}

theorem edit_modes (he : e ≠ .lower) (h : (s.edit e).modes.isChanged = false) :
    (s.edit e).modes = s.modes := by
  cases e with
  | setActivePlayer p =>
    show (s.ensurePlayer p).2.modes = s.modes
    rw [ensurePlayer_frame]
  | setScore p score feature =>
    show (s.setScore p score feature).2.modes = s.modes
    rw [setScore_frame]
  | editModes e => exact Modes.edit_of_lowered h
  | lower => exact absurd rfl he
  | _ => rfl

/-- Two snapshots of one game at one stage are the same if their balls, players and modes are. -/
theorem Alike.same_iff (h : s.Alike t) :
    s.same t = true ↔ s.ball = t.ball ∧ s.activePlayer = t.activePlayer ∧
      s.modes.names = t.modes.names ∧ s.players = t.players := by
  simp [same, Modes.same, h.1, h.2, and_assoc]

end Snapshot

namespace Tracker

/-- What an operation edits in the current snapshot, if it makes sense. -/
def Operation.edit? : Operation → Option Snapshot.Edit
  | setBall n => (BallNumber.ofNat? n).map .setBall
  | setActivePlayer n => (PlayerNumber.ofNat? n).map .setActivePlayer
  | setScore n score feature => (PlayerNumber.ofNat? n).map (.setScore · score feature)
  | addMode name => if name = "" then none else some (.editModes (.add name))
  | removeMode name => some (.editModes (.remove name))
  | clearModes => some (.editModes .clear)
  | _ => none

variable {t : Tracker} {now : Timestamp} {op : Operation} {e : Snapshot.Edit}

theorem Operation.edit?_ne_lower (h : op.edit? = some e) : e ≠ .lower := by
  rintro rfl
  cases op <;> simp [edit?] at h

/-- **What the host edits** is edited in the current snapshot, and nothing else changes. -/
theorem perform_edit (t : Tracker) (now : Timestamp) (h : op.isEdit = true) :
    (t.perform now op).1 = { t with current := op.edit?.elim t.current t.current.edit } := by
  cases op with
  | start | finish | commit => cases h
  | setBall n =>
    simp only [perform, Tracker.setBall, Operation.edit?]
    cases BallNumber.ofNat? n <;> rfl
  | setActivePlayer n =>
    simp only [perform, Tracker.setActivePlayer, Operation.edit?]
    cases PlayerNumber.ofNat? n <;> rfl
  | setScore n score feature =>
    simp only [perform, Tracker.setScore, Operation.edit?]
    cases PlayerNumber.ofNat? n <;> rfl
  | addMode name =>
    simp only [perform, Tracker.addMode, Operation.edit?]
    split <;> rfl
  | removeMode name => rfl
  | clearModes => rfl

/-- **The snapshot that is remembered** while a game is played is of that game, and if the change
flag is lowered it has the modes of the current one. -/
structure Based (t : Tracker) : Prop where
  alike : t.current.active = true → t.current.Alike t.previous
  settled : t.current.active = true → t.current.modes.isChanged = false →
    t.current.modes = t.previous.modes

namespace Based

theorem of_idle (h : t.current.active = false) : t.Based := by
  constructor
  · intro hactive
    cases h.symm.trans hactive
  · intro hactive
    cases h.symm.trans hactive

/-- What was just sent is remembered. -/
theorem send (t : Tracker) (now : Timestamp) : (t.send now).1.Based :=
  ⟨fun _ => ⟨rfl, rfl⟩, fun _ _ => rfl⟩

/-- An edit reaches the current snapshot only, and does not change its modes without saying so. -/
theorem edit (h : t.Based) (hop : op.isEdit = true) : (t.perform now op).1.Based := by
  have hquiet := t.perform_quiet now hop
  constructor
  · intro hactive
    have halike := h.alike (hquiet.alike.1 ▸ hactive)
    rw [hquiet.kept]
    exact ⟨hquiet.alike.1.trans halike.1, hquiet.alike.2.trans halike.2⟩
  · intro hactive hlowered
    have hactive' : t.current.active = true := hquiet.alike.1 ▸ hactive
    rw [t.perform_edit now hop] at hlowered ⊢
    cases hedit : op.edit? with
    | none =>
      rw [hedit] at hlowered
      exact h.settled hactive' hlowered
    | some e =>
      rw [hedit] at hlowered
      have hmodes := Snapshot.edit_modes (Operation.edit?_ne_lower hedit) hlowered
      exact hmodes.trans (h.settled hactive' (hmodes ▸ hlowered))

/-- **What is remembered stays true**, whatever the host says. -/
theorem perform (h : t.Based) (x : Say) : (t.perform x.1 x.2).1.Based := by
  obtain ⟨now, op⟩ := x
  cases op with
  | start id =>
    show (t.start now id).1.Based
    unfold start
    split
    · exact h
    · exact send { t with current := .started id.text } now
  | finish =>
    show (t.finish now).1.Based
    unfold finish
    split
    · exact h
    · exact of_idle rfl
  | commit =>
    show (t.commit now).1.Based
    unfold commit
    split
    · exact h
    · exact send t now
  | _ => exact h.edit rfl

end Based

/-- A commit with nothing to tell is as if it had not been. -/
theorem commit_of_idle (h : t.current.active = false) (now : Timestamp) :
    t.perform now .commit = (t, []) := if_pos (by rw [h]; rfl)

theorem commit_of_same (h : t.current.same t.previous = true) (now : Timestamp) :
    t.perform now .commit = (t, []) := if_pos (by rw [h, Bool.or_true])

theorem commit_of_other (hactive : t.current.active = true)
    (h : t.current.same t.previous = false) (now : Timestamp) :
    t.perform now .commit = t.send now := if_neg (by rw [hactive, h]; decide)

/-- **A commit brings up to date** what is remembered. -/
theorem same_commit (hactive : t.current.active = true) (now : Timestamp) :
    t.current.same (t.perform now .commit).1.previous = true ∧
      (t.perform now .commit).1.current.same (t.perform now .commit).1.previous = true := by
  cases hsame : t.current.same t.previous with
  | true =>
    rw [commit_of_same hsame]
    exact ⟨hsame, hsame⟩
  | false =>
    rw [commit_of_other hactive hsame]
    exact ⟨Snapshot.same_iff.mpr rfl, Snapshot.same_iff.mpr rfl⟩

/-- After a commit there is nothing to tell. -/
theorem commit_commit (t : Tracker) (now later : Timestamp) :
    (t.perform now .commit).1.perform later .commit = ((t.perform now .commit).1, []) := by
  cases hactive : t.current.active with
  | false => rw [commit_of_idle hactive, commit_of_idle hactive]
  | true =>
    cases hsame : t.current.same t.previous with
    | true => rw [commit_of_same hsame, commit_of_same hsame]
    | false =>
      rw [commit_of_other hactive hsame]
      exact commit_of_same (Snapshot.same_iff.mpr rfl) later

end Tracker

namespace Tale

variable {t : Tale} {xs ys : List Say} {now : Timestamp} {last : Snapshot}

theorem based_of (xs : List Say) : (of xs).tracker.Based := by
  induction xs using List.reverseRecOn with
  | nil => exact .of_idle rfl
  | append_singleton xs x ih =>
    rw [of_concat]
    exact ih.perform x

/-- Whether the host only edits. -/
def IsEditing (xs : List Say) : Prop := ∀ x ∈ xs, x.2.isEdit = true

/-- **Editing sends nothing**, and leaves the game at its stage. -/
theorem addAll_editing (h : IsEditing ys) (t : Tale) :
    (t.addAll ys).sent = t.sent ∧ (t.addAll ys).tracker.current.Alike t.tracker.current := by
  induction ys generalizing t with
  | nil => exact ⟨rfl, rfl, rfl⟩
  | cons y ys ih =>
    have hquiet := t.tracker.perform_quiet y.1 (h y List.mem_cons_self)
    obtain ⟨hsent, halike⟩ := ih (fun z hz => h z (List.mem_cons_of_mem y hz)) (t.add y)
    have hsends : (t.add y).sent = t.sent :=
      (congrArg (t.sent ++ ·) hquiet.silent).trans (List.append_nil _)
    exact ⟨hsent.trans hsends, halike.1.trans hquiet.alike.1, halike.2.trans hquiet.alike.2⟩

theorem previous_eq (hactive : (of xs).tracker.current.active = true)
    (hlast : (of xs).sent.getLast? = some last) : (of xs).tracker.previous = last :=
  Option.some.inj (((paced_of xs).remembered hactive).symm.trans hlast)

/-- What a commit sends, given what was sent last. -/
theorem sends_commit (hactive : (of xs).tracker.current.active = true)
    (hlast : (of xs).sent.getLast? = some last) (now : Timestamp) :
    (of xs).tracker.sends (now, .commit) =
      if (of xs).tracker.current.same last then []
      else [((of xs).tracker.current.stamp now).lower] := by
  rw [Tracker.sends, ← previous_eq hactive hlast]
  split
  · next h => rw [Tracker.commit_of_same h]; rfl
  · next h => rw [Tracker.commit_of_other hactive (Bool.eq_false_iff.mpr h)]; rfl

/-- What a commit sends of everything that the host says. -/
structure Commits (xs : List Say) : Prop where
  /-- While a game is played, the snapshot that was sent last is remembered. -/
  remembered : (of xs).tracker.current.active = true →
    (of xs).sent.getLast? = some (of xs).tracker.previous
  /-- A commit sends the current snapshot unless it is the same as that one, -/
  sent : ∀ last now, (of xs).tracker.current.active = true →
    (of xs).sent.getLast? = some last →
    (of xs).tracker.sends (now, .commit) =
      if (of xs).tracker.current.same last then []
      else [((of xs).tracker.current.stamp now).lower]
  /-- so that the current snapshot is the same as what was sent last after each commit, -/
  upToDate : ∀ now, (of xs).tracker.current.active = true →
    ∃ last, (of (xs ++ [(now, .commit)])).sent.getLast? = some last ∧
      (of xs).tracker.current.same last = true ∧
      (of (xs ++ [(now, .commit)])).tracker.current.same last = true
  /-- and the next one does nothing. -/
  once : ∀ now later, (of (xs ++ [(now, .commit)])).tracker.perform later .commit =
    ((of (xs ++ [(now, .commit)])).tracker, [])
  /-- What was edited is sent just if the ball, the player whose turn it is, the modes or the
  players are others than those that were sent last. -/
  netted : ∀ last ys now, (of xs).tracker.current.active = true →
    (of xs).sent.getLast? = some last → IsEditing ys →
    (of (xs ++ ys)).sent = (of xs).sent ∧
    ((of (xs ++ ys)).tracker.sends (now, .commit) = [] ↔
      (of (xs ++ ys)).tracker.current.ball = last.ball ∧
      (of (xs ++ ys)).tracker.current.activePlayer = last.activePlayer ∧
      (of (xs ++ ys)).tracker.current.modes.names = last.modes.names ∧
      (of (xs ++ ys)).tracker.current.players = last.players)
  /-- A lowered change flag means that the modes were sent. -/
  settled : ∀ last, (of xs).tracker.current.active = true →
    (of xs).sent.getLast? = some last → (of xs).tracker.current.modes.isChanged = false →
    (of xs).tracker.current.modes = last.modes
  /-- Between games a commit does nothing, whatever was edited. -/
  idle : ∀ ys now, (of xs).tracker.current.active = false → IsEditing ys →
    (of (xs ++ ys)).tracker.perform now .commit = ((of (xs ++ ys)).tracker, [])

/-- **A commit sends exactly what has changed** since a snapshot was last sent, whatever the host
says and in whatever order. -/
theorem commits (xs : List Say) : Commits xs := by
  refine ⟨(paced_of xs).remembered, ?_, ?_, ?_, ?_, ?_, ?_⟩
  · intro last now hactive h
    exact sends_commit hactive h now
  · intro now hactive
    have htracker : (of (xs ++ [(now, .commit)])).tracker =
        ((of xs).tracker.perform now .commit).1 := congrArg tracker (of_concat xs _)
    have halike : ((of xs).tracker.perform now .commit).1.current.Alike (of xs).tracker.current :=
      Tracker.perform_alike hactive (by decide)
    have hactive' := halike.1.trans hactive
    rw [← htracker] at hactive'
    refine ⟨_, (paced_of _).remembered hactive', ?_⟩
    rw [htracker]
    exact Tracker.same_commit hactive now
  · intro now later
    rw [of_concat]
    exact (of xs).tracker.commit_commit now later
  · intro last ys now hactive h hediting
    obtain ⟨hsent, halike⟩ := addAll_editing hediting (of xs)
    rw [← of_append] at hsent halike
    refine ⟨hsent, ?_⟩
    have hactive' := halike.1.trans hactive
    have h' : (of (xs ++ ys)).sent.getLast? = some last := hsent ▸ h
    have hplayed := (based_of (xs ++ ys)).alike hactive'
    rw [previous_eq hactive' h'] at hplayed
    rw [sends_commit hactive' h', ← hplayed.same_iff]
    simp
  · intro last hactive h hlowered
    rw [← previous_eq hactive h]
    exact (based_of xs).settled hactive hlowered
  · intro ys now hidle hediting
    rw [of_append]
    have halike := (addAll_editing hediting (of xs)).2
    exact Tracker.commit_of_idle (halike.1.trans hidle) now

/-- A mode that is switched on and off again raises the change flag, and is not worth a
snapshot. -/
example :
    (of [(1, .start (.random [])), (2, .addMode "a"), (3, .removeMode "a"),
      (4, .commit)]).sent.length = 1 := by
  decide +kernel

end Tale

end ArcadeUplink
