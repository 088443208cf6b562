import ArcadeUplink.Session.Ledger
import Mathlib.Data.List.Induction

/-!
# Deeds

What is done about games, one deed after another: snapshots are recorded, uploads
begun, accepted and acknowledged, histories written up and filed, games closed.
A list of deeds says by itself what was recorded of a game since it last entered
the ledger (`life`), and which deed can come next: only one upload is under way
at a time, and each of its deeds comes with the one before (`Allowed`).

`Lawful` lists are those in which every deed was allowed when it came. Nothing
here refers to the engine; that its runs leave lawful lists is proved elsewhere.
-/

namespace ArcadeUplink

/-- What is done about a game. -/
inductive Deed where
  /-- A snapshot was recorded, and a game dropped for its sake, if one was. -/
  | recorded (s : Snapshot) (dropped : Option String)
  /-- An upload of the latest snapshot was begun, which has a revision. -/
  | begun (u : SnapshotUpload) (revision : Nat)
  /-- The server accepted an upload. -/
  | accepted (u : SnapshotUpload) (revision : Nat)
  /-- The ledger was told that a revision of a game was accepted. -/
  | acknowledged (id : String) (revision : Nat)
  /-- A history was written up. -/
  | written (u : HistoryUpload)
  /-- The server accepted a history. -/
  | filed (u : HistoryUpload)
  /-- A game was taken out of the ledger. -/
  | closed (id : String)
deriving DecidableEq

namespace Deed

/-! ## What the deeds say of one game -/

/-- The snapshot of a game that was recorded. -/
def recorded? (id : String) : Deed → Option Snapshot
  | recorded s _ => if s.session = id then some s else none
  | _ => none

/-- The upload for a game that was accepted, with its revision. -/
def accepted? (id : String) : Deed → Option (SnapshotUpload × Nat)
  | accepted u k => if u.session = id then some (u, k) else none
  | _ => none

/-- The revision of a game of which the ledger was told. -/
def acknowledged? (id : String) : Deed → Option Nat
  | acknowledged j k => if j = id then some k else none
  | _ => none

/-- Whether a game leaves the ledger by a deed. -/
def removes (id : String) : Deed → Bool
  | recorded _ dropped => dropped = some id
  | closed j => j = id
  | _ => false

/-- The snapshots that were recorded of a game, the first one first. -/
def recordings (id : String) (ds : List Deed) : List Snapshot := ds.filterMap (recorded? id)

/-- The uploads for a game that the server accepted, with their revisions. -/
def acceptances (id : String) (ds : List Deed) : List (SnapshotUpload × Nat) :=
  ds.filterMap (accepted? id)

/-- The revisions of a game of which the ledger was told. -/
def acknowledgements (id : String) (ds : List Deed) : List Nat := ds.filterMap (acknowledged? id)

/-- What a deed makes of the deeds since a game entered the ledger. -/
def grow (id : String) (l : Option (List Deed)) (d : Deed) : Option (List Deed) :=
  if d.removes id then none
  else match l with
    | some l => some (l ++ [d])
    | none => if (d.recorded? id).isSome then some [d] else none

/-- The deeds since a game last entered the ledger, if it is still there. -/
def life (id : String) (ds : List Deed) : Option (List Deed) := ds.foldl (grow id) none

/-- The latest revision of which the ledger was told. -/
def delivered (id : String) (l : List Deed) : Nat := (acknowledgements id l).foldl max 0

section Lists

variable {id : String} {ds es l : List Deed} {d : Deed} {s : Snapshot}

@[simp] theorem recordings_nil : recordings id [] = [] := rfl

@[simp] theorem recordings_append :
    recordings id (ds ++ es) = recordings id ds ++ recordings id es := List.filterMap_append

theorem recordings_cons :
    recordings id (d :: ds) = (d.recorded? id).toList ++ recordings id ds := by
  unfold recordings
  rw [List.filterMap_cons]
  cases d.recorded? id <;> rfl

@[simp] theorem acceptances_append :
    acceptances id (ds ++ es) = acceptances id ds ++ acceptances id es := List.filterMap_append

@[simp] theorem acknowledgements_append :
    acknowledgements id (ds ++ es) = acknowledgements id ds ++ acknowledgements id es :=
  List.filterMap_append

theorem mem_acceptances {u : SnapshotUpload} {k : Nat} :
    (u, k) ∈ acceptances id ds ↔ accepted u k ∈ ds ∧ u.session = id := by
  unfold acceptances
  rw [List.mem_filterMap]
  constructor
  · rintro ⟨d, hd, h⟩
    cases d with
    | accepted v j =>
      obtain ⟨e, heq⟩ := Option.ite_none_right_eq_some.mp h
      cases heq
      exact ⟨hd, e⟩
    | _ => cases h
  · rintro ⟨hd, e⟩
    exact ⟨_, hd, if_pos e⟩

theorem mem_acknowledgements {k : Nat} : k ∈ acknowledgements id ds ↔ acknowledged id k ∈ ds := by
  unfold acknowledgements
  rw [List.mem_filterMap]
  constructor
  · rintro ⟨d, hd, h⟩
    cases d with
    | acknowledged j i =>
      obtain ⟨e, heq⟩ := Option.ite_none_right_eq_some.mp h
      cases heq
      exact e ▸ hd
    | _ => cases h
  · intro hd
    exact ⟨_, hd, if_pos rfl⟩

/-! ## Lives -/

@[simp] theorem life_concat : life id (ds ++ [d]) = grow id (life id ds) d := by
  unfold life
  rw [List.foldl_append]
  rfl

theorem grow_of_removes (h : d.removes id = true) (l : Option (List Deed)) :
    grow id l d = none := if_pos h

theorem grow_some (h : d.removes id = false) (l : List Deed) :
    grow id (some l) d = some (l ++ [d]) := by
  unfold grow
  rw [h]
  rfl

/-- A deed that concerns another game, or no entry at all, leaves a game where it is not. -/
theorem grow_none (h : d.recorded? id = none) : grow id none d = none := by
  unfold grow
  rw [h]
  split <;> rfl

theorem grow_of_recorded (hr : d.removes id = false) (h : d.recorded? id = some s) :
    grow id none d = some [d] := by
  unfold grow
  rw [hr, h]
  rfl

/-- **How a life came to be**: it went on with the last deed, or that deed began it. -/
theorem life_concat_cases (h : life id (ds ++ [d]) = some l) :
    d.removes id = false ∧
      ((∃ l', life id ds = some l' ∧ l = l' ++ [d]) ∨
        life id ds = none ∧ (∃ s, d.recorded? id = some s) ∧ l = [d]) := by
  rw [life_concat] at h
  cases hr : d.removes id with
  | true =>
    rw [grow_of_removes hr] at h
    cases h
  | false =>
    refine ⟨rfl, ?_⟩
    cases hlife : life id ds with
    | some l' =>
      rw [hlife, grow_some hr] at h
      exact .inl ⟨l', rfl, (Option.some.inj h).symm⟩
    | none =>
      rw [hlife] at h
      cases hs : d.recorded? id with
      | some s =>
        rw [grow_of_recorded hr hs] at h
        exact .inr ⟨rfl, ⟨s, rfl⟩, (Option.some.inj h).symm⟩
      | none =>
        rw [grow_none hs] at h
        cases h

/-- **How a life can have grown**: it went on, or it began after the first deeds. -/
theorem life_append_cases (h : life id (ds ++ es) = some l) :
    (∃ l₀, life id ds = some l₀ ∧ l = l₀ ++ es ∧ ∀ d ∈ es, d.removes id = false) ∨
      ∃ fs, es = fs ++ l ∧ life id (ds ++ fs) = none ∧ l ≠ [] := by
  induction es using List.reverseRecOn generalizing l with
  | nil =>
    rw [List.append_nil] at h
    exact .inl ⟨l, h, (List.append_nil l).symm, nofun⟩
  | append_singleton es d ih =>
    rw [← List.append_assoc] at h
    obtain ⟨hr, ⟨l', hl', rfl⟩ | ⟨hnone, -, rfl⟩⟩ := life_concat_cases h
    · obtain ⟨l₀, hl₀, rfl, hes⟩ | ⟨fs, rfl, hfs, -⟩ := ih hl'
      · refine .inl ⟨l₀, hl₀, List.append_assoc .., ?_⟩
        intro e he
        rcases List.mem_append.mp he with he | he
        · exact hes e he
        · rw [List.mem_singleton.mp he]
          exact hr
      · exact .inr ⟨fs, List.append_assoc .., hfs, by simp⟩
    · exact .inr ⟨es, rfl, hnone, by simp⟩

/-- A game that does not leave goes on with its life. -/
theorem life_append (h : life id ds = some l) (hes : ∀ d ∈ es, d.removes id = false) :
    life id (ds ++ es) = some (l ++ es) := by
  induction es using List.reverseRecOn with
  | nil => simpa using h
  | append_singleton es d ih =>
    have hes' : ∀ d ∈ es, d.removes id = false := fun d hd => hes d (List.mem_append_left _ hd)
    rw [← List.append_assoc, life_concat, ih hes',
      grow_some (hes d (List.mem_append_right _ List.mem_cons_self)), List.append_assoc]

/-- A life is the last part of all deeds, and the game was not in the ledger before. -/
theorem life_suffix (h : life id ds = some l) :
    ∃ before, ds = before ++ l ∧ life id before = none ∧ l ≠ [] := by
  obtain ⟨l₀, hl₀, -⟩ | ⟨before, heq, hbefore, hne⟩ := life_append_cases
    (show life id ([] ++ ds) = some l from h)
  · cases hl₀
  · exact ⟨before, heq, hbefore, hne⟩

/-- Nobody leaves the ledger during his life. -/
theorem removes_of_mem_life (h : life id ds = some l) (hd : d ∈ l) : d.removes id = false := by
  induction ds using List.reverseRecOn generalizing l with
  | nil => cases h
  | append_singleton ds e ih =>
    obtain ⟨hr, ⟨l', hl', rfl⟩ | ⟨-, -, rfl⟩⟩ := life_concat_cases h
    · rcases List.mem_append.mp hd with hd | hd
      · exact ih hl' hd
      · rw [List.mem_singleton.mp hd]
        exact hr
    · rw [List.mem_singleton.mp hd]
      exact hr

end Lists

end Deed

end ArcadeUplink
