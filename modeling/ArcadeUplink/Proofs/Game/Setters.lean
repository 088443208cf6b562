import ArcadeUplink.Proofs.Game.Validity

/-!
# What the setters of a snapshot tell

A setter tells whether it changed anything, which is to say whether the snapshot shows
another game than before: all but its time and the change flag of its modes counts
(`same_iff`). The setters of the ball, of the active player and of a score tell the truth
about any snapshot whatsoever. Those that can be reached by edits from an empty one, or
from that of a game that begins, are in order besides: each score is that of the player
under whose number it stands, and the active player has one (`sound_editAll`).

A setter that mentions a player for the first time has changed something even if it gives
him the score 0, as he was unknown before.
-/

namespace ArcadeUplink

namespace PlayerScore

theorem set_snd (x : PlayerScore) (score feature : Int) :
    (x.set score feature).2 = ⟨x.player, score, feature⟩ := by
  unfold set
  split
  · next h => rw [← h.1, ← h.2]
  · rfl

/-- A score that is set tells whether it is another one. -/
theorem set_fst (x : PlayerScore) (score feature : Int) :
    (x.set score feature).1 = true ↔ (x.set score feature).2 ≠ x := by
  rw [set_snd]
  unfold set
  obtain ⟨player, old, tag⟩ := x
  split
  · next h =>
    obtain ⟨rfl, rfl⟩ := h
    simp
  · next h => simpa [eq_comm (a := old), eq_comm (a := tag)] using h

end PlayerScore

namespace Snapshot

/-- What can be done to a snapshot. -/
inductive Edit where
  | setActive (active : Bool)
  | setBall (b : BallNumber)
  | setActivePlayer (p : PlayerNumber)
  | setScore (p : PlayerNumber) (score feature : Int)
  | editModes (e : Modes.Edit)
  /-- The change flag of the modes is lowered. -/
  | lower
  | stamp (time : Timestamp)
deriving DecidableEq, Repr

/-- The snapshot with the change flag of its modes lowered. -/
def lower (s : Snapshot) : Snapshot := { s with modes := s.modes.clearChanged }

def edit (s : Snapshot) : Edit → Snapshot
  | .setActive active => s.setActive active
  | .setBall b => (s.setBall b).2
  | .setActivePlayer p => (s.setActivePlayer p).2
  | .setScore p score feature => (s.setScore p score feature).2
  | .editModes e => { s with modes := s.modes.edit e }
  | .lower => s.lower
  | .stamp time => s.stamp time

def editAll (s : Snapshot) (edits : List Edit) : Snapshot := edits.foldl edit s

/-- The snapshot of a game that begins, or an empty one. -/
def begun : Option String → Snapshot
  | some id => started id
  | none => empty

/-- All that a snapshot shows of a game: it is the same at any time, and whether or not the change
flag is raised. -/
def shown (s : Snapshot) : Snapshot := (s.stamp 0).lower

variable {s t : Snapshot} {p q : PlayerNumber} {b : BallNumber} {score feature : Int}
  {x : PlayerScore}

/-! ## What is shown -/

/-- **Two snapshots are the same** if they show the same. -/
theorem same_iff : s.same t = true ↔ s.shown = t.shown := by
  obtain ⟨_, _, _, _, ⟨_, _⟩, _, _⟩ := s
  obtain ⟨_, _, _, _, ⟨_, _⟩, _, _⟩ := t
  simp [same, Modes.same, shown, stamp, lower, Modes.clearChanged, ChangeFlag.clear, and_assoc]

/-- What shows the same is the same as whatever the other is the same as. -/
theorem same_congr (h : s.shown = t.shown) (u : Snapshot) :
    s.same u = t.same u ∧ u.same s = u.same t := by
  have hleft : s.same u = t.same u := by rw [Bool.eq_iff_iff, same_iff, same_iff, h]
  exact ⟨hleft, by rw [same_comm, hleft, same_comm]⟩

/-! ## The players -/

theorem ensurePlayer_of_known (h : s.players.contains p = true) :
    s.ensurePlayer p = (false, s) := if_pos h

theorem ensurePlayer_fst (s : Snapshot) (p : PlayerNumber) :
    (s.ensurePlayer p).1 = !s.players.contains p := by
  unfold ensurePlayer
  cases s.players.contains p <;> rfl

theorem ensurePlayer_frame (s : Snapshot) (p : PlayerNumber) :
    (s.ensurePlayer p).2 = { s with players := (s.ensurePlayer p).2.players } := by
  unfold ensurePlayer
  split <;> rfl

theorem get?_ensurePlayer (s : Snapshot) (p q : PlayerNumber) :
    (s.ensurePlayer p).2.players.get? q =
      if q = p then some ((s.players.get? p).getD (.start p 0)) else s.players.get? q := by
  unfold ensurePlayer SortedMap.contains
  cases hp : s.players.get? p with
  | some x =>
    show s.players.get? q = _
    split
    · next hq => rw [hq, hp, Option.getD_some]
    · rfl
  | none =>
    show (s.players.insert p (.start p 0)).get? q = _
    split
    · next hq => rw [hq, SortedMap.get?_insert_self, Option.getD_none]
    · next hq => exact SortedMap.get?_insert_of_ne _ _ hq

/-- A player who is known stays as he is when he is mentioned. -/
theorem get?_ensurePlayer_of_some (h : s.players.get? q = some x) (p : PlayerNumber) :
    (s.ensurePlayer p).2.players.get? q = some x := by
  rw [get?_ensurePlayer]
  split
  · next hq => rw [← hq, h, Option.getD_some]
  · exact h

theorem setScore_frame (s : Snapshot) (p : PlayerNumber) (score feature : Int) :
    (s.setScore p score feature).2 =
      { s with players := (s.setScore p score feature).2.players } :=
  congrArg (fun t : Snapshot => { t with players := (s.setScore p score feature).2.players })
    (s.ensurePlayer_frame p)

/-- **A score that is set** is that of its player, and nobody else's changes. -/
theorem get?_setScore (s : Snapshot) (p q : PlayerNumber) (score feature : Int) :
    (s.setScore p score feature).2.players.get? q =
      if q = p then some ⟨((s.players.get? p).getD (.start p 0)).player, score, feature⟩
      else s.players.get? q := by
  show (SortedMap.modify (s.ensurePlayer p).2.players p _).get? q = _
  rw [SortedMap.get?_modify, get?_ensurePlayer]
  by_cases hq : q = p
  · subst hq
    simp [PlayerScore.set_snd]
  · have hne : compare p q ≠ .eq := fun h => hq (Std.LawfulEqCmp.eq_of_compare h).symm
    simp [hq, hne]

theorem score?_setScore (s : Snapshot) (p q : PlayerNumber) (score feature : Int) :
    (s.setScore p score feature).2.score? q = if q = p then some score else s.score? q := by
  unfold score?
  rw [get?_setScore]
  split <;> rfl

/-! ## Setters tell the truth -/

theorem setBall_told (s : Snapshot) (b : BallNumber) :
    (s.setBall b).1 = true ↔ (s.setBall b).2.same s = false := by
  simp [setBall, same, Modes.same, eq_comm (a := s.ball)]

/-- A snapshot in which a new player was mentioned is another one. -/
theorem not_same_of_new (hs : s.players.contains p = false) (ht : t.players.contains p = true) :
    t.same s = false := by
  refine Bool.eq_false_iff.mpr fun hsame => ?_
  have hplayers : t.shown.players = s.shown.players := congrArg players (same_iff.mp hsame)
  cases ht.symm.trans ((congrArg (·.contains p) hplayers).trans hs)

theorem contains_ensurePlayer (s : Snapshot) (p : PlayerNumber) :
    (s.ensurePlayer p).2.players.contains p = true := by
  rw [SortedMap.contains, get?_ensurePlayer, if_pos rfl, Option.isSome_some]

theorem contains_setScore (s : Snapshot) (p : PlayerNumber) (score feature : Int) :
    (s.setScore p score feature).2.players.contains p = true := by
  rw [SortedMap.contains, get?_setScore, if_pos rfl, Option.isSome_some]

theorem setActivePlayer_told (s : Snapshot) (p : PlayerNumber) :
    (s.setActivePlayer p).1 = true ↔ (s.setActivePlayer p).2.same s = false := by
  show ((s.ensurePlayer p).1 || decide (s.activePlayer ≠ some p)) = true ↔
    same { (s.ensurePlayer p).2 with activePlayer := some p } s = false
  cases hp : s.players.contains p with
  | false =>
    rw [ensurePlayer_fst, hp]
    exact iff_of_true rfl (not_same_of_new hp (s.contains_ensurePlayer p))
  | true =>
    rw [ensurePlayer_of_known hp]
    simp [same, Modes.same, eq_comm (a := s.activePlayer)]

theorem setScore_told (s : Snapshot) (p : PlayerNumber) (score feature : Int) :
    (s.setScore p score feature).1 = true ↔ (s.setScore p score feature).2.same s = false := by
  cases hp : s.players.contains p with
  | false =>
    have htold : (s.setScore p score feature).1 = true := by
      show ((s.ensurePlayer p).1 || _) = true
      rw [ensurePlayer_fst, hp]
      rfl
    exact iff_of_true htold (not_same_of_new hp (s.contains_setScore p score feature))
  | true =>
    obtain ⟨x, hx⟩ := Option.isSome_iff_exists.mp hp
    have htold : (s.setScore p score feature).1 = (x.set score feature).1 := by
      unfold setScore
      simp [ensurePlayer_of_known hp, hx]
    have hplayers : (s.setScore p score feature).2.players =
        s.players.modify p fun x => (x.set score feature).2 := by
      unfold setScore
      simp [ensurePlayer_of_known hp]
    have hsame : (s.setScore p score feature).2.same s = true ↔
        s.players.modify p (fun x => (x.set score feature).2) = s.players := by
      rw [setScore_frame, hplayers]
      simp [same, Modes.same]
    rw [htold, PlayerScore.set_fst, ← Bool.not_eq_true, hsame, SortedMap.modify_eq_self_iff hx]

/-! ## What edits keep -/

/-- Whether each score stands under the number of its player, and the active player has one. -/
structure Orderly (s : Snapshot) : Prop where
  own : ∀ p x, s.players.get? p = some x → x.player = p
  activeKnown : ∀ p, s.activePlayer = some p → s.players.contains p = true

/-- **A player who is known stays known**, whatever is done. -/
theorem contains_edit (h : s.players.contains p = true) (e : Edit) :
    (s.edit e).players.contains p = true := by
  cases e with
  | setActivePlayer q =>
    obtain ⟨x, hx⟩ := Option.isSome_iff_exists.mp h
    have hkept : (s.setActivePlayer q).2.players.get? p = some x := get?_ensurePlayer_of_some hx q
    exact Option.isSome_iff_exists.mpr ⟨x, hkept⟩
  | setScore q score feature =>
    by_cases hq : p = q
    · exact hq ▸ s.contains_setScore p score feature
    · show ((s.setScore q score feature).2.players.get? p).isSome = true
      rwa [get?_setScore, if_neg hq]
  | _ => exact h

theorem contains_editAll (h : s.players.contains p = true) (edits : List Edit) :
    (s.editAll edits).players.contains p = true := by
  induction edits generalizing s with
  | nil => exact h
  | cons e edits ih => exact ih (contains_edit h e)

namespace Orderly

/-- A snapshot that mentions nobody is in order. -/
theorem of_nobody (hplayers : s.players = ∅) (hactive : s.activePlayer = none) : s.Orderly := by
  constructor
  · intro p x hx
    rw [hplayers] at hx
    cases (SortedMap.get?_empty p).symm.trans hx
  · intro p hp
    cases hactive.symm.trans hp

/-- The player of a score, or of the one that a new player gets. -/
theorem player_getD (h : s.Orderly) (p : PlayerNumber) :
    ((s.players.get? p).getD (.start p 0)).player = p := by
  cases hp : s.players.get? p with
  | none => rfl
  | some x => exact h.own p x hp

theorem setActivePlayer (h : s.Orderly) (p : PlayerNumber) : (s.setActivePlayer p).2.Orderly := by
  constructor
  · intro q x hx
    have hget : (s.ensurePlayer p).2.players.get? q = some x := hx
    rw [get?_ensurePlayer] at hget
    split at hget
    · next hq =>
      rw [← Option.some.inj hget, hq]
      exact h.player_getD p
    · exact h.own q x hget
  · intro q hq
    obtain rfl := Option.some.inj hq
    exact s.contains_ensurePlayer p

theorem setScore (h : s.Orderly) (p : PlayerNumber) (score feature : Int) :
    (s.setScore p score feature).2.Orderly := by
  constructor
  · intro q x hx
    rw [get?_setScore] at hx
    split at hx
    · next hq =>
      rw [← Option.some.inj hx, hq]
      exact h.player_getD p
    · exact h.own q x hx
  · intro q hq
    have hactive : s.activePlayer = some q := by
      rw [setScore_frame] at hq
      exact hq
    exact contains_edit (h.activeKnown q hactive) (.setScore p score feature)

/-- **Order is kept** by every edit. -/
theorem edit (h : s.Orderly) (e : Edit) : (s.edit e).Orderly := by
  cases e with
  | setActivePlayer p => exact h.setActivePlayer p
  | setScore p score feature => exact h.setScore p score feature
  | _ => exact ⟨h.own, h.activeKnown⟩

theorem editAll (h : s.Orderly) (edits : List Edit) : (s.editAll edits).Orderly := by
  induction edits generalizing s with
  | nil => exact h
  | cons e edits ih => exact ih (h.edit e)

theorem begun (game : Option String) : (begun game).Orderly := by
  cases game with
  | none => exact of_nobody rfl rfl
  | some id => exact (of_nobody rfl rfl).setActivePlayer .first

end Orderly

/-! ## Snapshots that edits lead to -/

/-- The promises of the setters about a snapshot. -/
structure Sound (s : Snapshot) : Prop where
  orderly : s.Orderly
  /-- A player who is known stays known. -/
  known : ∀ edits p, s.players.contains p = true → (s.editAll edits).players.contains p = true
  /-- A setter tells whether the snapshot is another one afterwards. -/
  ballTold : ∀ b, (s.setBall b).1 = true ↔ (s.setBall b).2.same s = false
  activePlayerTold : ∀ p, (s.setActivePlayer p).1 = true ↔ (s.setActivePlayer p).2.same s = false
  scoreTold : ∀ p score feature,
    (s.setScore p score feature).1 = true ↔ (s.setScore p score feature).2.same s = false
  /-- A score that is set is what it was set to, and nothing else changes. -/
  scored : ∀ p score feature,
    (s.setScore p score feature).2.players.get? p = some ⟨p, score, feature⟩ ∧
    (∀ q, q ≠ p → (s.setScore p score feature).2.players.get? q = s.players.get? q) ∧
    (s.setScore p score feature).2 =
      { s with players := (s.setScore p score feature).2.players }
  /-- A turn of a player leaves every score as it is. -/
  scoresKept : ∀ p q x, s.players.get? q = some x →
    (s.setActivePlayer p).2.players.get? q = some x
  /-- The time and the change flag are not seen by any comparison. -/
  unseen : ∀ t time, (s.stamp time).same t = s.same t ∧ t.same (s.stamp time) = t.same s ∧
    s.lower.same t = s.same t ∧ t.same s.lower = t.same s

/-- **Whatever edits lead to**, from an empty snapshot or from that of a game that begins, the
setters keep their promises about it. -/
theorem sound_editAll (game : Option String) (edits : List Edit) :
    ((begun game).editAll edits).Sound := by
  have horderly := (Orderly.begun game).editAll edits
  generalize (begun game).editAll edits = s at horderly ⊢
  exact {
    orderly := horderly
    known := fun later _ hp => contains_editAll hp later
    ballTold := s.setBall_told
    activePlayerTold := s.setActivePlayer_told
    scoreTold := s.setScore_told
    scored := by
      intro p score feature
      refine ⟨?_, ?_, s.setScore_frame p score feature⟩
      · rw [get?_setScore, if_pos rfl, horderly.player_getD]
      · intro q hq
        rw [get?_setScore, if_neg hq]
    scoresKept := fun p _ _ hx => get?_ensurePlayer_of_some hx p
    unseen := by
      intro t time
      obtain ⟨hstamp, hstamp'⟩ := same_congr (s := s.stamp time) (t := s) rfl t
      obtain ⟨hlower, hlower'⟩ := same_congr (s := s.lower) (t := s) rfl t
      exact ⟨hstamp, hstamp', hlower, hlower'⟩ }

/-- A second player who gets the score 0 is news, and to give it to him again is none. -/
example :
    ((started "a").setScore ⟨2⟩ 0 0).1 = true ∧
      ((started "a").edit (.setScore ⟨2⟩ 0 0)).setScore ⟨2⟩ 0 0 =
        (false, (started "a").edit (.setScore ⟨2⟩ 0 0)) := by
  decide +kernel

end Snapshot

end ArcadeUplink
