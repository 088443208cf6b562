import ArcadeUplink.Proofs.Session.Lawful

/-!
# The ledger by its deeds

What the ledger holds of a game follows from the deeds since the game entered it:
its history, its latest snapshot, and the numbers of revisions, acceptances and
deliveries. `Kept` says so of a whole ledger. Every change that the ledger admits
keeps it, together with the deed that it is. The two flags of a record, and the
time at which it was begun, are no matter of deeds; nothing is said of them.
-/

namespace ArcadeUplink

open Deed

/-- A record holds what the deeds since its game entered the ledger say. -/
structure Deed.Account (id : String) (l : List Deed) (r : GameRecord) : Prop where
  history : r.history = recordings id l
  latest : (recordings id l).getLast? = some r.latest
  revision : r.revision = (recordings id l).length
  counter : r.counter = (acknowledgements id l).length
  delivered : r.delivered = Deed.delivered id l

/-- The ledger holds the games that the deeds say, each with its account. -/
def Ledger.Kept (ds : List Deed) (l : Ledger) : Prop :=
  ∀ id, Option.Rel (Account id) (life id ds) (l.get? id)

namespace Deed.Account

variable {id : String} {l : List Deed} {r : GameRecord} {d : Deed}

/-- A deed that neither records nor acknowledges leaves an account as it is. -/
theorem concat (h : Account id l r) (hr : d.recorded? id = none) (ha : d.acknowledged? id = none) :
    Account id (l ++ [d]) r := by
  have hrecs : recordings id (l ++ [d]) = recordings id l := by
    rw [recordings_append, recordings_cons, hr]
    simp
  have hacks : acknowledgements id (l ++ [d]) = acknowledgements id l := by
    rw [acknowledgements_append]
    simp [acknowledgements, ha]
  exact ⟨hrecs ▸ h.history, hrecs ▸ h.latest, hrecs ▸ h.revision, hacks ▸ h.counter,
    by rw [h.delivered, Deed.delivered, Deed.delivered, hacks]⟩

/-- A recording adds a revision to the account of its game. -/
theorem concat_recorded (h : Account id l r) {s : Snapshot} (hs : s.session = id)
    (dropped : Option String) : Account id (l ++ [recorded s dropped]) (r.add s) := by
  have hrecs : recordings id (l ++ [recorded s dropped]) = recordings id l ++ [s] := by
    rw [recordings_append, recordings_cons, recorded?, if_pos hs]
    rfl
  have hacks : acknowledgements id (l ++ [recorded s dropped]) = acknowledgements id l := by
    rw [acknowledgements_append]
    simp [acknowledgements, acknowledged?]
  refine ⟨?_, ?_, ?_, hacks ▸ h.counter, ?_⟩
  · rw [hrecs, ← h.history]
    rfl
  · rw [hrecs, List.getLast?_concat]
    rfl
  · rw [hrecs, List.length_append, ← h.revision]
    rfl
  · rw [Deed.delivered, hacks]
    exact h.delivered

/-- The first recording opens an account. -/
theorem of_recorded {s : Snapshot} (hs : s.session = id) (dropped : Option String)
    (startedAt : Nat) :
    Account id [recorded s dropped] (({ startedAt } : GameRecord).add s) := by
  have hrecs : recordings id [recorded s dropped] = [s] := by
    rw [recordings_cons, recorded?, if_pos hs]
    rfl
  exact ⟨by rw [hrecs]; rfl, by rw [hrecs]; rfl, by rw [hrecs]; rfl, rfl, rfl⟩

theorem of_same {r' : GameRecord} (h : Account id l r) (hh : r'.history = r.history)
    (hl : r'.latest = r.latest) (hr : r'.revision = r.revision) (hc : r'.counter = r.counter)
    (hd : r'.delivered = r.delivered) : Account id l r' :=
  ⟨hh ▸ h.history, hl ▸ h.latest, hr ▸ h.revision, hc ▸ h.counter, hd ▸ h.delivered⟩

/-- What the ledger is told of an acceptance adds to the account of its game, before anybody asks
whether its history is due. -/
theorem concat_told (h : Account id l r) (k : Nat) :
    Account id (l ++ [acknowledged id k])
      { r with counter := r.counter + 1, delivered := max r.delivered k } := by
  have hrecs : recordings id (l ++ [acknowledged id k]) = recordings id l := by
    rw [recordings_append, recordings_cons]
    simp [recorded?]
  have hacks : acknowledgements id (l ++ [acknowledged id k]) = acknowledgements id l ++ [k] := by
    rw [acknowledgements_append]
    simp [acknowledgements, acknowledged?]
  refine ⟨hrecs ▸ h.history, hrecs ▸ h.latest, hrecs ▸ h.revision, ?_, ?_⟩
  · rw [hacks, List.length_append, ← h.counter]
    rfl
  · rw [Deed.delivered, hacks, List.foldl_append, h.delivered]
    rfl

theorem concat_acknowledged (h : Account id l r) (k : Nat) :
    Account id (l ++ [acknowledged id k]) (Ledger.accepted k r) := by
  unfold Ledger.accepted
  dsimp only
  split
  · exact (h.concat_told k).of_same rfl rfl rfl rfl rfl
  · exact h.concat_told k

theorem requeued (h : Account id l r) : Account id l (Ledger.requeued r) := by
  unfold Ledger.requeued
  split
  · exact h.of_same rfl rfl rfl rfl rfl
  · split
    · exact h.of_same rfl rfl rfl rfl rfl
    · exact h

/-- A record whose history is due has a game that is over, and delivered. -/
theorem due {ds : List Deed} (h : Account id l r) (hlife : life id ds = some l)
    (hdue : r.historyDue = true) : Due id ds := by
  unfold GameRecord.historyDue GameRecord.isDelivered GameRecord.isFinished at hdue
  simp only [Bool.and_eq_true, decide_eq_true_eq, Bool.not_eq_true'] at hdue
  exact ⟨ds, [], l, r.latest, (List.append_nil _).symm, hlife, h.latest, hdue.1.2,
    by rw [← h.delivered, ← h.revision]; exact hdue.1.1⟩

end Deed.Account

/-! ## Changes of the ledger -/

namespace Ledger

theorem foremost_mem {es : List (String × GameRecord)} {e : String × GameRecord}
    (h : foremost es = some e) : e ∈ es := by
  induction es generalizing e with
  | nil => cases h
  | cons f fs ih =>
    unfold foremost at h
    split at h
    · cases h
      exact List.mem_cons_self
    · next g hg =>
      split at h
      · cases h
        exact List.mem_cons_of_mem _ (ih hg)
      · cases h
        exact List.mem_cons_self

theorem victim?_mem {l : Ledger} {keep id : String} (h : l.victim? keep = some id) :
    id ≠ keep ∧ l.get? id ≠ none := by
  unfold victim? at h
  split at h
  · obtain ⟨e, he, rfl⟩ := Option.map_eq_some_iff.mp h
    obtain ⟨hmem, hne⟩ := List.mem_filter.mp (foremost_mem he)
    rw [SortedMap.get?_of_mem _ hmem]
    exact ⟨of_decide_eq_true hne, nofun⟩
  · cases h

/-- **Whoever is recorded stays**: a game is never dropped for its own sake. -/
theorem dropped_ne (l : Ledger) (now : Nat) (s : Snapshot) :
    (l.record now s).dropped ≠ some s.session :=
  fun h => (victim?_mem h).1 rfl

/-- Whoever is dropped was in the ledger. -/
theorem get?_of_dropped {l : Ledger} {now : Nat} {s : Snapshot} {id : String}
    (h : (l.record now s).dropped = some id) : l.get? id ≠ none := by
  obtain ⟨hne, hmem⟩ := victim?_mem h
  rwa [SortedMap.get?_insert_of_ne _ _ hne] at hmem

theorem get?_dropping (l : Ledger) (victim : Option String) (id : String) :
    (dropping l victim).get? id = if victim = some id then none else l.get? id := by
  cases victim with
  | none => rw [if_neg nofun, dropping]
  | some v =>
    rw [dropping, SortedMap.get?_erase]
    simp only [Std.LawfulEqOrd.compare_eq_iff_eq, Option.some.injEq, @eq_comm _ v id]

/-- What the ledger holds after a recording. -/
theorem get?_record (l : Ledger) (now : Nat) (s : Snapshot) (id : String) :
    (l.record now s).ledger.get? id =
      if (l.record now s).dropped = some id then none
      else if id = s.session then
        some (((l.get? s.session).getD { startedAt := now }).add s)
      else l.get? id := by
  refine (get?_dropping _ _ id).trans ?_
  rw [SortedMap.get?_insert]
  simp only [Std.LawfulEqOrd.compare_eq_iff_eq]
  rfl

theorem rel_eq_none {α β : Type} {r : α → β → Prop} {o : Option α} {o' : Option β}
    (h : Option.Rel r o o') : o = none ↔ o' = none := by
  cases h <;> simp

namespace Kept

variable {ds : List Deed} {l : Ledger}

theorem empty : Kept [] (∅ : Ledger) := fun _ => .none

theorem account (h : l.Kept ds) {id : String} {r : GameRecord} (hr : l.get? id = some r) :
    ∃ a, life id ds = some a ∧ Account id a r := by
  have hrel := h id
  rw [hr] at hrel
  generalize hlife : life id ds = o at hrel
  cases hrel with
  | some ha => exact ⟨_, rfl, ha⟩

theorem exists_of_life (h : l.Kept ds) {id : String} {a : List Deed} (ha : life id ds = some a) :
    ∃ r, l.get? id = some r ∧ Account id a r := by
  have hrel := h id
  rw [ha] at hrel
  generalize l.get? id = o at hrel ⊢
  cases hrel with
  | some hacc => exact ⟨_, rfl, hacc⟩

theorem life_eq_none (h : l.Kept ds) {id : String} : life id ds = none ↔ l.get? id = none :=
  rel_eq_none (h id)

/-- A deed that is not about a game leaves its account as it is. -/
theorem aside (h : l.Kept ds) {id : String} {d : Deed} (hd : d.recorded? id = none)
    (ha : d.acknowledged? id = none) (hr : d.removes id = false) :
    Option.Rel (Account id) (life id (ds ++ [d])) (l.get? id) := by
  rw [life_concat]
  cases hlife : life id ds with
  | none =>
    rw [grow_none hd, h.life_eq_none.mp hlife]
    exact .none
  | some a =>
    obtain ⟨r, hget, hacc⟩ := h.exists_of_life hlife
    rw [grow_some hr, hget]
    exact .some (hacc.concat hd ha)

theorem concat (h : l.Kept ds) {d : Deed} (hd : ∀ id, d.recorded? id = none)
    (ha : ∀ id, d.acknowledged? id = none) (hr : ∀ id, d.removes id = false) :
    l.Kept (ds ++ [d]) :=
  fun id => h.aside (hd id) (ha id) (hr id)

theorem mapValues (h : l.Kept ds) {f : String → GameRecord → GameRecord}
    (hf : ∀ id a r, Account id a r → Account id a (f id r)) : Kept ds (l.mapValues f) := by
  intro id
  have hrel := h id
  rw [SortedMap.get?_mapValues]
  generalize life id ds = o at hrel ⊢
  generalize l.get? id = o' at hrel ⊢
  cases hrel with
  | none => exact .none
  | some hacc => exact .some (hf _ _ _ hacc)

theorem lowerUpload (h : l.Kept ds) (id : String) : Kept ds (l.lowerUpload id) := by
  apply h.mapValues
  intro j a r hacc
  dsimp only
  split
  · exact hacc.of_same rfl rfl rfl rfl rfl
  · exact hacc

theorem lowerHistory (h : l.Kept ds) (id : String) : Kept ds (l.lowerHistory id) := by
  apply h.mapValues
  intro j a r hacc
  dsimp only
  split
  · exact hacc.of_same rfl rfl rfl rfl rfl
  · exact hacc

theorem retry (h : l.Kept ds) : Kept ds l.retry.2.2 :=
  h.mapValues fun _ _ _ hacc => hacc.requeued

/-- **Recording**: the ledger is kept, together with the deed. -/
theorem record (h : l.Kept ds) (now : Nat) (s : Snapshot) :
    (l.record now s).ledger.Kept (ds ++ [recorded s (l.record now s).dropped]) := by
  intro id
  rw [get?_record]
  by_cases hdrop : (l.record now s).dropped = some id
  · have hr : (recorded s (l.record now s).dropped).removes id = true := decide_eq_true hdrop
    rw [if_pos hdrop, life_concat, grow_of_removes hr]
    exact .none
  · have hr : (recorded s (l.record now s).dropped).removes id = false := decide_eq_false hdrop
    rw [if_neg hdrop]
    by_cases hid : id = s.session
    · subst hid
      rw [if_pos rfl, life_concat]
      cases hlife : life s.session ds with
      | none =>
        rw [grow_of_recorded hr (if_pos rfl)]
        exact .some (h.life_eq_none.mp hlife ▸ .of_recorded rfl _ _)
      | some a =>
        obtain ⟨r, hget, hacc⟩ := h.exists_of_life hlife
        rw [grow_some hr, hget]
        exact .some (hacc.concat_recorded rfl _)
    · rw [if_neg hid]
      exact h.aside (if_neg (Ne.symm hid)) rfl hr

theorem recorded (h : l.Kept ds) (now : Nat) (s : Snapshot) :
    Allowed ds (.recorded s (l.record now s).dropped) :=
  ⟨dropped_ne l now s, fun _ hid hlife => get?_of_dropped hid (h.life_eq_none.mp hlife)⟩

/-- **Acknowledging**: the ledger is kept, together with the deed. -/
theorem acknowledge (h : l.Kept ds) (id : String) (k : Nat) :
    (l.acknowledge id k).2.Kept (ds ++ [acknowledged id k]) := by
  intro j
  rw [life_concat, Ledger.acknowledge, SortedMap.get?_modify]
  cases hlife : life j ds with
  | none =>
    rw [grow_none rfl, h.life_eq_none.mp hlife]
    exact .none
  | some a =>
    obtain ⟨r, hget, hacc⟩ := h.exists_of_life hlife
    rw [grow_some rfl, hget]
    refine .some ?_
    dsimp only
    split
    · next e =>
      cases Std.LawfulEqCmp.eq_of_compare e
      exact hacc.concat_acknowledged k
    · next e =>
      refine hacc.concat rfl (if_neg fun he => e ?_)
      rw [he]
      exact Std.ReflCmp.compare_self

/-- **Closing**: the ledger is kept, together with the deed. -/
theorem close (h : l.Kept ds) (id : String) :
    Kept (ds ++ [closed id]) (l.erase id) := by
  intro j
  rw [SortedMap.get?_erase]
  by_cases hj : id = j
  · have hr : (closed id).removes j = true := decide_eq_true hj
    rw [life_concat, grow_of_removes hr, hj, if_pos Std.ReflCmp.compare_self]
    exact .none
  · rw [if_neg fun e => hj (Std.LawfulEqCmp.eq_of_compare e).symm]
    exact h.aside rfl rfl (decide_eq_false hj)

theorem begun (h : l.Kept ds) {id : String} {u : SnapshotUpload} {k : Nat}
    (hu : l.upload? id = some (u, k)) (hrest : Rested ds) :
    u.session = id ∧ Allowed ds (.begun u k) := by
  obtain ⟨r, hr, heq⟩ := Option.map_eq_some_iff.mp hu
  cases heq
  obtain ⟨a, hlife, hacc⟩ := h.account hr
  exact ⟨rfl, hrest, a, hlife, hacc.counter, hacc.latest, hacc.revision⟩

/-- What the ledger gives of a history is what may be written up, if it was due. -/
theorem written (h : l.Kept ds) {id : String} {u : HistoryUpload} (hu : l.history? id = some u)
    (hrest : Rested ds) (hdue : Due id ds) : u.session = id ∧ Allowed ds (.written u) := by
  obtain ⟨r, hr, rfl⟩ := Option.map_eq_some_iff.mp hu
  obtain ⟨a, hlife, hacc⟩ := h.account hr
  exact ⟨rfl, hrest, hdue, a, hlife, by rw [hacc.history]⟩

/-- A history that becomes due as an acceptance is noted is due. -/
theorem due_acknowledge (h : l.Kept ds) {id : String} {k : Nat}
    (hdue : (l.acknowledge id k).1 = true) : Due id (ds ++ [acknowledged id k]) := by
  cases hr : l.get? id with
  | none =>
    rw [Ledger.acknowledge, hr] at hdue
    cases hdue
  | some r =>
    rw [Ledger.acknowledge, hr] at hdue
    obtain ⟨a, hlife, hacc⟩ := h.account hr
    exact (hacc.concat_told k).due (by rw [life_concat, hlife, grow_some rfl]) hdue

theorem due_retry (h : l.Kept ds) {id : String} (hid : id ∈ l.retry.2.1) : Due id ds := by
  obtain ⟨e, he, rfl⟩ := List.mem_map.mp hid
  obtain ⟨he, hdue⟩ := List.mem_filter.mp he
  obtain ⟨a, hlife, hacc⟩ := h.account (SortedMap.get?_of_mem _ he)
  exact hacc.due hlife hdue

end Kept

end Ledger

end ArcadeUplink
