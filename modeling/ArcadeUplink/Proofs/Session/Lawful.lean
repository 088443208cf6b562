import ArcadeUplink.Proofs.Session.Deeds

/-!
# Lawful deeds

Recordings can come at any time; of the other deeds each has its place. An upload
is begun with what the ledger holds of a game, then accepted, then acknowledged;
a history is written up, then filed, and then the game is closed. Between two
deeds of one upload nothing but recordings can come, but an upload or a history
that was not accepted can be given up for another one.

`Lawful` lists keep to that. What is established here is where a deed of a lawful
list comes from, with everything that was recorded in between.
-/

namespace ArcadeUplink.Deed

/-- Whether a deed is a recording. -/
def isRecorded : Deed → Bool
  | recorded .. => true
  | _ => false

/-- The last deed other than a recording. -/
def lastAct? (ds : List Deed) : Option Deed := (ds.filter fun d => !d.isRecorded).getLast?

/-- Whether a deed is to be followed up by the next one: an acceptance is to be acknowledged, and a
filed game to be closed. -/
def isOpen : Deed → Bool
  | accepted .. => true
  | filed _ => true
  | _ => false

/-- Nothing is to be followed up. -/
def Rested (ds : List Deed) : Prop := ∀ d, lastAct? ds = some d → d.isOpen = false

/-- The history of a game is due: it was over and its latest snapshot delivered, at some time. -/
def Due (id : String) (ds : List Deed) : Prop :=
  ∃ before after l s, ds = before ++ after ∧ life id before = some l ∧
    (recordings id l).getLast? = some s ∧ s.active = false ∧
    delivered id l = (recordings id l).length

/-- Whether a deed can come after others. -/
def Allowed (ds : List Deed) : Deed → Prop
  | recorded s dropped => dropped ≠ some s.session ∧ ∀ id ∈ dropped, life id ds ≠ none
  | begun u k => Rested ds ∧ ∃ l, life u.session ds = some l ∧
      u.counter = (acknowledgements u.session l).length ∧
      (recordings u.session l).getLast? = some u.data ∧ k = (recordings u.session l).length
  | accepted u k => lastAct? ds = some (begun u k)
  | acknowledged id k => ∃ u, u.session = id ∧ lastAct? ds = some (accepted u k)
  | written u => Rested ds ∧ Due u.session ds ∧ ∃ l, life u.session ds = some l ∧
      u.csv = History.csv (recordings u.session l)
  | filed u => lastAct? ds = some (written u)
  | closed id => ∃ u, u.session = id ∧ lastAct? ds = some (filed u)

/-- Every deed was allowed when it came. -/
def Lawful (ds : List Deed) : Prop := ∀ before d after, ds = before ++ d :: after → Allowed before d

variable {id : String} {ds es : List Deed} {d : Deed}

/-! ## The last act -/

theorem lastAct?_concat_of_recorded (h : d.isRecorded = true) :
    lastAct? (ds ++ [d]) = lastAct? ds := by
  unfold lastAct?
  rw [List.filter_append, List.filter_cons, h]
  simp

theorem lastAct?_concat (h : d.isRecorded = false) : lastAct? (ds ++ [d]) = some d := by
  unfold lastAct?
  rw [List.filter_append, List.filter_cons, h]
  simp

theorem rested_of_lastAct? (h : lastAct? ds = some d) (hd : d.isOpen = false) : Rested ds :=
  fun _ he => Option.some.inj (h.symm.trans he) ▸ hd

/-- A deed after which nothing is to be followed up. -/
theorem rested_concat (h : d.isRecorded = false) (hd : d.isOpen = false) : Rested (ds ++ [d]) :=
  rested_of_lastAct? (lastAct?_concat h) hd

/-- After the last act there are only recordings. -/
theorem exists_of_lastAct? (h : lastAct? ds = some d) :
    ∃ before after, ds = before ++ d :: after ∧ ∀ e ∈ after, e.isRecorded = true := by
  obtain ⟨acts, hacts⟩ := List.getLast?_eq_some_iff.mp h
  obtain ⟨before, rest, rfl, -, hrest⟩ := List.filter_eq_append_iff.mp hacts
  obtain ⟨skipped, after, rfl, -, -, hafter⟩ := List.filter_eq_cons_iff.mp hrest
  refine ⟨before ++ skipped, after, (List.append_assoc ..).symm, ?_⟩
  intro e he
  simpa using List.filter_eq_nil_iff.mp hafter e he

theorem accepted?_of_recorded (h : d.isRecorded = true) (id : String) : d.accepted? id = none := by
  cases d with
  | recorded s dropped => rfl
  | _ => cases h

theorem acknowledged?_of_recorded (h : d.isRecorded = true) (id : String) :
    d.acknowledged? id = none := by
  cases d with
  | recorded s dropped => rfl
  | _ => cases h

theorem acceptances_of_recorded (h : ∀ d ∈ ds, d.isRecorded = true) : acceptances id ds = [] :=
  List.filterMap_eq_nil_iff.mpr fun d hd => accepted?_of_recorded (h d hd) id

theorem acknowledgements_of_recorded (h : ∀ d ∈ ds, d.isRecorded = true) :
    acknowledgements id ds = [] :=
  List.filterMap_eq_nil_iff.mpr fun d hd => acknowledged?_of_recorded (h d hd) id

/-! ## Lawful lists -/

namespace Lawful

theorem nil : Lawful [] := by
  intro before d after h
  cases before <;> cases h

theorem of_append (h : Lawful (ds ++ es)) : Lawful ds :=
  fun before d after heq => h before d (after ++ es) (by rw [heq]; simp)

theorem concat (h : Lawful ds) (hd : Allowed ds d) : Lawful (ds ++ [d]) := by
  intro before e after heq
  rcases List.eq_nil_or_concat after with rfl | ⟨after', e', rfl⟩
  · obtain ⟨rfl, hde⟩ := List.append_inj' heq rfl
    cases hde
    exact hd
  · rw [List.concat_eq_append, ← List.cons_append, ← List.append_assoc] at heq
    exact h before e after' (List.append_inj' heq rfl).1

theorem allowed (h : Lawful (ds ++ d :: es)) : Allowed ds d := h ds d es rfl

theorem allowed_last (h : Lawful (ds ++ [d])) : Allowed ds d := h.allowed

theorem of_lastAct? (h : Lawful ds) (hd : lastAct? ds = some d) :
    ∃ before after, ds = before ++ d :: after ∧ Allowed before d ∧
      ∀ e ∈ after, e.isRecorded = true := by
  obtain ⟨before, after, rfl, hafter⟩ := exists_of_lastAct? hd
  exact ⟨before, after, rfl, h.allowed, hafter⟩

/-- **Where an acceptance comes from**: its upload was begun before, and only recordings came in
between. -/
theorem accepted_origin {u : SnapshotUpload} {k : Nat} (h : Lawful (ds ++ accepted u k :: es)) :
    ∃ before mid, ds = before ++ begun u k :: mid ∧ Allowed before (begun u k) ∧
      ∀ e ∈ mid, e.isRecorded = true :=
  h.of_append.of_lastAct? h.allowed

/-- **Where an acknowledgement comes from**: the acceptance of an upload, which was begun before,
and only recordings came in between. -/
theorem acknowledged_origin {k : Nat} (h : Lawful (ds ++ acknowledged id k :: es)) :
    ∃ u before mid mid', u.session = id ∧
      ds = before ++ begun u k :: (mid ++ accepted u k :: mid') ∧
      Allowed before (begun u k) ∧ (∀ e ∈ mid, e.isRecorded = true) ∧
      ∀ e ∈ mid', e.isRecorded = true := by
  obtain ⟨u, hu, hlast⟩ := h.allowed
  obtain ⟨front, mid', hds, -, hmid'⟩ := h.of_append.of_lastAct? hlast
  obtain ⟨before, mid, rfl, hbegun, hmid⟩ := accepted_origin (hds ▸ h.of_append)
  exact ⟨u, before, mid, mid', hu, by rw [hds]; simp, hbegun, hmid, hmid'⟩

/-- **Where a closing comes from**: the filing of a history, which was written up before, and only
recordings came in between. -/
theorem closed_origin (h : Lawful (ds ++ closed id :: es)) :
    ∃ u before mid mid', u.session = id ∧
      ds = before ++ written u :: (mid ++ filed u :: mid') ∧
      Allowed before (written u) ∧ (∀ e ∈ mid, e.isRecorded = true) ∧
      ∀ e ∈ mid', e.isRecorded = true := by
  obtain ⟨u, hu, hlast⟩ := h.allowed
  obtain ⟨front, mid', hds, -, hmid'⟩ := h.of_append.of_lastAct? hlast
  have hfront : Lawful (front ++ filed u :: mid') := hds ▸ h.of_append
  obtain ⟨before, mid, rfl, hwritten, hmid⟩ := hfront.of_append.of_lastAct? hfront.allowed
  exact ⟨u, before, mid, mid', hu, by rw [hds]; simp, hwritten, hmid, hmid'⟩

end Lawful

theorem Due.append (h : Due id ds) : Due id (ds ++ es) := by
  obtain ⟨before, after, l, s, rfl, hlife⟩ := h
  exact ⟨before, after ++ es, l, s, List.append_assoc .., hlife⟩

end ArcadeUplink.Deed
