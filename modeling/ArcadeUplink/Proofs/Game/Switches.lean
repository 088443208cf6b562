import ArcadeUplink.Proofs.Game.Validity
import Mathlib.Data.List.DropRight

/-!
# Modes, as they were switched

Modes are switched on and off in any way, and now and then their change flag is lowered.
What is on, and in which order, can be read off what was done, without a look at the list
that is kept (`told_after`): a mode is on if it was switched on last, and it stands
behind those that have been on for longer.

Everything comes from two laws of a single use. The names afterwards are those before, less
the ones that it takes out, and a new one at the end (`use_names`). The flag afterwards is
raised if the use changed the names, or if it was raised before and not lowered
(`use_isChanged`).
-/

namespace ArcadeUplink.Modes

/-- What can be done with modes. -/
inductive Use where
  | edit (e : Edit)
  /-- The change flag is lowered. -/
  | lower
deriving DecidableEq, Repr

namespace Use

/-- Switches a mode on. -/
@[match_pattern] abbrev on (name : String) : Use := .edit (.add name)

/-- Switches a mode off. -/
@[match_pattern] abbrev off (name : String) : Use := .edit (.remove name)

/-- The mode that is switched on, if it is not on already. -/
def added? : Use → Option String
  | on name => some name
  | _ => none

/-- Whether a mode is switched off. -/
def drops (name : String) : Use → Bool
  | off x => name = x
  | edit .clear => true
  | _ => false

/-- Whether a mode is switched, on or off. -/
def switches (name : String) (u : Use) : Bool := u.added? = some name || u.drops name

end Use

def use (m : Modes) : Use → Modes
  | .edit e => m.edit e
  | .lower => m.clearChanged

/-- What comes back from a use, if anything does. -/
def told? (m : Modes) : Use → Option Bool
  | .edit (.add name) => some (m.add name).1
  | .edit (.remove name) => some (m.remove name).1
  | .edit .clear => some m.clear.1
  | .lower => none

/-- The modes that some uses lead to, from no modes. -/
def after (us : List Use) : Modes := us.foldl use empty

/-- Whether a use changes the names of modes. -/
def Changes (m : Modes) (u : Use) : Prop := (m.use u).names ≠ m.names

/-- Whether a mode was switched on when it was last switched. -/
def SwitchedOn (us : List Use) (name : String) : Prop :=
  (us.filter (·.switches name)).getLast? = some (.on name)

/-- Whether the use with number `n` has switched on a mode that was off, and the mode has not been
switched off since. -/
structure OnSince (us : List Use) (name : String) (n : Nat) : Prop where
  on : us[n]? = some (.on name)
  off_before : ¬SwitchedOn (us.take n) name
  stays : ∀ u ∈ us.drop (n + 1), u.drops name = false

variable {m : Modes} {us : List Use} {u : Use} {name x : String} {n : Nat} {b : Bool}

/-! ## One use -/

/-- **The names after a use**: those that are not taken out, and the new one behind them. -/
theorem use_names (h : m.names.Nodup) (u : Use) :
    (m.use u).names =
      m.names.filter (fun x => !u.drops x) ++ (u.added?.filter (· ∉ m.names)).toList := by
  cases u with
  | lower => simp [use, clearChanged, Use.drops, Use.added?]
  | edit e =>
    cases e with
    | add name =>
      show (m.add name).2.names = _
      by_cases hmem : name ∈ m.names
      · simp [add_names_of_mem hmem, Use.drops, Use.added?, hmem]
      · simp [add_names_of_not_mem hmem, Use.drops, Use.added?, Option.filter_some, hmem]
    | remove name =>
      show (m.remove name).2.names = _
      rw [remove_names, h.erase_eq_filter]
      exact (List.append_nil _).symm
    | clear =>
      show m.clear.2.names = _
      rw [clear_names]
      simp [Use.drops, Use.added?]

theorem Use.drops_of_added (h : u.added? = some x) : u.drops x = false := by
  cases u with
  | lower => rfl
  | edit e => cases e <;> first | rfl | cases h

theorem mem_use_names (h : m.names.Nodup) :
    x ∈ (m.use u).names ↔ u.added? = some x ∨ (x ∈ m.names ∧ u.drops x = false) := by
  rw [use_names h, List.mem_append, List.mem_filter, Option.mem_toList, Option.filter_eq_some_iff,
    Bool.not_eq_true', decide_eq_true_eq]
  by_cases hadd : u.added? = some x
  · simp only [hadd, Use.drops_of_added hadd, true_and, and_true, true_or, Decidable.em]
  · simp only [hadd, false_and, or_false, false_or]

/-- **What an edit does and tells**: it leaves everything and tells so, or it changes the names,
raises the flag and tells that. -/
theorem edit_cases (m : Modes) (e : Edit) :
    (m.told? (.edit e) = some false ∧ m.edit e = m) ∨
      ∃ names, names ≠ m.names ∧ m.told? (.edit e) = some true ∧ m.edit e = m.change names := by
  cases e with
  | add name =>
    simp only [told?, edit, add]
    split
    · exact .inl ⟨rfl, rfl⟩
    · exact .inr ⟨_, by simp, rfl, rfl⟩
  | remove name =>
    simp only [told?, edit, remove]
    split
    · next h =>
      refine .inr ⟨_, fun heq => ?_, rfl, rfl⟩
      exact List.erase_eq_self_iff.mp heq (contains_iff.mp h)
    · exact .inl ⟨rfl, rfl⟩
  | clear =>
    simp only [told?, edit, clear]
    split
    · exact .inl ⟨rfl, rfl⟩
    · next h => exact .inr ⟨_, fun heq => h (List.isEmpty_iff.mpr heq.symm), rfl, rfl⟩

/-- **What a use tells** is whether it changes the names. -/
theorem told (h : m.told? u = some b) : b = true ↔ m.Changes u := by
  cases u with
  | lower => cases h
  | edit e =>
    unfold Changes use
    obtain ⟨htold, hsame⟩ | ⟨names, hne, htold, hnew⟩ := m.edit_cases e
    · cases h.symm.trans htold
      simp [hsame]
    · cases h.symm.trans htold
      simp [hnew, change, hne]

/-- **The flag after a use** is raised by a change of the names, and stays raised until it is
lowered. -/
theorem use_isChanged (m : Modes) (u : Use) :
    (m.use u).isChanged = true ↔ u ≠ .lower ∧ (m.isChanged = true ∨ m.Changes u) := by
  cases u with
  | lower => simp [use, clearChanged, isChanged, ChangeFlag.clear]
  | edit e =>
    unfold Changes use
    obtain ⟨-, hsame⟩ | ⟨names, hne, -, hnew⟩ := m.edit_cases e
    · simp [hsame]
    · simp [hnew, hne, change, isChanged, ChangeFlag.mark]

/-! ## One more use -/

theorem after_concat (us : List Use) (u : Use) : after (us ++ [u]) = (after us).use u :=
  List.foldl_concat ..

theorem nodup_after (us : List Use) : (after us).names.Nodup := by
  induction us using List.reverseRecOn with
  | nil => exact List.nodup_nil
  | append_singleton us u ih =>
    rw [after_concat]
    cases u with
    | edit e => exact nodup_edit ih e
    | lower => exact ih

/-- A use that switches a mode and does not take it out switches it on. -/
theorem Use.eq_on (h : u.added? = some x) : u = .on x := by
  cases u with
  | lower => cases h
  | edit e => cases e <;> first | (cases h; rfl) | cases h

theorem switchedOn_concat :
    SwitchedOn (us ++ [u]) x ↔ u.added? = some x ∨ (SwitchedOn us x ∧ u.drops x = false) := by
  have hon : u = .on x ↔ u.added? = some x := ⟨fun h => h ▸ rfl, Use.eq_on⟩
  unfold SwitchedOn
  rw [List.filter_append, ← hon]
  cases hs : u.switches x with
  | true =>
    have hor : u.added? = some x ∨ u.drops x = true := by simpa [Use.switches] using hs
    rw [← hon] at hor
    simp only [List.filter_cons, hs, List.filter_nil, if_true, List.getLast?_append,
      List.getLast?_singleton, Option.some_or, Option.some_inj]
    cases hd : u.drops x <;> simp_all
  | false =>
    obtain ⟨hadd, hdrop⟩ : u.added? ≠ some x ∧ u.drops x = false := by simpa [Use.switches] using hs
    simp [hs, mt hon.mp hadd, hdrop]

theorem not_switchedOn_nil : ¬SwitchedOn [] x := nofun

/-- **A mode is on** if it was switched on last. -/
theorem mem_after : x ∈ (after us).names ↔ SwitchedOn us x := by
  induction us using List.reverseRecOn with
  | nil => exact iff_of_false List.not_mem_nil not_switchedOn_nil
  | append_singleton us u ih =>
    rw [after_concat, mem_use_names (nodup_after us), switchedOn_concat, ih]

theorem OnSince.lt (h : OnSince us x n) : n < us.length := (List.getElem?_eq_some_iff.mp h.on).1

theorem onSince_concat :
    OnSince (us ++ [u]) x n ↔
      (n = us.length ∧ u.added? = some x ∧ ¬SwitchedOn us x) ∨
        (OnSince us x n ∧ u.drops x = false) := by
  rcases lt_trichotomy n us.length with hlt | rfl | hgt
  · have hne : n ≠ us.length := hlt.ne
    simp only [hne, false_and, false_or]
    constructor
    · rintro ⟨hon, hoff, hstays⟩
      rw [List.getElem?_append_left hlt] at hon
      rw [List.take_append_of_le_length hlt.le] at hoff
      rw [List.drop_append_of_le_length hlt, List.forall_mem_append] at hstays
      exact ⟨⟨hon, hoff, hstays.1⟩, hstays.2 u List.mem_cons_self⟩
    · rintro ⟨⟨hon, hoff, hstays⟩, hdrop⟩
      refine ⟨?_, ?_, ?_⟩
      · rwa [List.getElem?_append_left hlt]
      · rwa [List.take_append_of_le_length hlt.le]
      · rw [List.drop_append_of_le_length hlt, List.forall_mem_append]
        exact ⟨hstays, fun v hv => List.mem_singleton.mp hv ▸ hdrop⟩
  · have hnot : ¬OnSince us x us.length := fun h => h.lt.false
    simp only [hnot, false_and, or_false, true_and]
    constructor
    · rintro ⟨hon, hoff, -⟩
      rw [List.getElem?_concat_length] at hon
      rw [List.take_left] at hoff
      exact ⟨Option.some.inj hon ▸ rfl, hoff⟩
    · rintro ⟨hadd, hoff⟩
      refine ⟨?_, ?_, ?_⟩
      · rw [List.getElem?_concat_length, Use.eq_on hadd]
      · rwa [List.take_left]
      · rw [List.drop_eq_nil_of_le (by simp)]
        exact nofun
  · have hle : us.length + 1 ≤ n := hgt
    refine iff_of_false (fun h => ?_) ?_
    · have := h.lt
      simp at this
      omega
    · rintro (⟨rfl, -⟩ | ⟨h, -⟩)
      · exact hgt.false
      · exact hgt.asymm h.lt

theorem OnSince.switchedOn (h : OnSince us x n) : SwitchedOn us x := by
  induction us using List.reverseRecOn with
  | nil => exact absurd h.lt (Nat.not_lt_zero n)
  | append_singleton us u ih =>
    rw [switchedOn_concat]
    obtain ⟨-, hadd, -⟩ | ⟨hold, hdrop⟩ := onSince_concat.mp h
    · exact .inl hadd
    · exact .inr ⟨ih hold, hdrop⟩

/-- **A mode that is on** was switched on by one use, and has been on since. -/
theorem existsUnique_onSince (h : SwitchedOn us x) : ∃! n, OnSince us x n := by
  induction us using List.reverseRecOn with
  | nil => exact absurd h not_switchedOn_nil
  | append_singleton us u ih =>
    by_cases hold : SwitchedOn us x
    · have hdrop : u.drops x = false := by
        obtain hadd | ⟨-, hdrop⟩ := switchedOn_concat.mp h
        · exact Use.drops_of_added hadd
        · exact hdrop
      simpa only [onSince_concat, hold, not_true_eq_false, and_false, false_or, hdrop, and_true]
        using ih hold
    · have hadd : u.added? = some x := (switchedOn_concat.mp h).resolve_right fun h => hold h.1
      refine ⟨us.length, onSince_concat.mpr (.inl ⟨rfl, hadd, hold⟩), fun n hn => ?_⟩
      obtain ⟨hlast, -⟩ | ⟨hsince, -⟩ := onSince_concat.mp hn
      · exact hlast
      · exact absurd hsince.switchedOn hold

/-- **The modes stand in the order in which they were switched on**, however often those that are
on already were switched on again. -/
theorem after_ordered (us : List Use) :
    (after us).names.Pairwise fun x y =>
      ∀ m n, OnSince us x m → OnSince us y n → m < n := by
  induction us using List.reverseRecOn with
  | nil => exact .nil
  | append_singleton us u ih =>
    -- a mode that is on and stays has been on since the same use
    have hold {x : String} {n : Nat} (hx : x ∈ (after us).names) (hn : OnSince (us ++ [u]) x n) :
        OnSince us x n := by
      obtain ⟨-, -, hoff⟩ | ⟨hsince, -⟩ := onSince_concat.mp hn
      · exact absurd (mem_after.mp hx) hoff
      · exact hsince
    rw [after_concat, use_names (nodup_after us), List.pairwise_append]
    refine ⟨?_, ?_, ?_⟩
    · refine (ih.filter _).imp_of_mem fun hx hy hlt m n hm hn => ?_
      exact hlt m n (hold (List.mem_of_mem_filter hx) hm) (hold (List.mem_of_mem_filter hy) hn)
    · cases Option.filter (· ∉ (after us).names) u.added? with
      | none => exact .nil
      | some y => exact List.pairwise_singleton _ _
    · intro x hx y hy m n hm hn
      obtain ⟨hadd, hnew⟩ := Option.filter_eq_some_iff.mp (Option.mem_toList.mp hy)
      have hlt := (hold (List.mem_of_mem_filter hx) hm).lt
      obtain ⟨rfl, -⟩ | ⟨hsince, -⟩ := onSince_concat.mp hn
      · exact hlt
      · exact absurd (mem_after.mpr hsince.switchedOn) (of_decide_eq_true hnew)

/-! ## The change flag -/

/-- Whether one of the uses since the flag was last lowered has changed the names. -/
def ChangedSince (us : List Use) : Prop :=
  ∃ past u rest, us = past ++ u :: rest ∧ (∀ v ∈ u :: rest, v ≠ .lower) ∧ (after past).Changes u

theorem changedSince_concat :
    ChangedSince (us ++ [u]) ↔ u ≠ .lower ∧ (ChangedSince us ∨ (after us).Changes u) := by
  constructor
  · rintro ⟨past, v, rest, hsplit, hquiet, hchanges⟩
    rcases List.eq_nil_or_concat rest with rfl | ⟨rest, w, rfl⟩
    · obtain ⟨rfl, hv⟩ := List.append_inj' hsplit rfl
      obtain rfl := List.singleton_inj.mp hv
      exact ⟨hquiet u List.mem_cons_self, .inr hchanges⟩
    · rw [List.concat_eq_append, ← List.cons_append, ← List.append_assoc] at hsplit
      obtain ⟨rfl, hw⟩ := List.append_inj' hsplit rfl
      obtain rfl := List.singleton_inj.mp hw
      rw [List.concat_eq_append, ← List.cons_append, List.forall_mem_append] at hquiet
      exact ⟨hquiet.2 u List.mem_cons_self, .inl ⟨past, v, rest, rfl, hquiet.1, hchanges⟩⟩
  · rintro ⟨hu, ⟨past, v, rest, rfl, hquiet, hchanges⟩ | hchanges⟩
    · refine ⟨past, v, rest ++ [u], by rw [List.append_assoc, List.cons_append], ?_, hchanges⟩
      rw [← List.cons_append, List.forall_mem_append]
      exact ⟨hquiet, fun w hw => List.mem_singleton.mp hw ▸ hu⟩
    · exact ⟨us, u, [], rfl, fun w hw => List.mem_singleton.mp hw ▸ hu, hchanges⟩

/-- **The change flag** is raised if the names were changed since it was last lowered. -/
theorem after_isChanged (us : List Use) : (after us).isChanged = true ↔ ChangedSince us := by
  induction us using List.reverseRecOn with
  | nil =>
    refine iff_of_false nofun ?_
    rintro ⟨past, u, rest, hsplit, -⟩
    cases past <;> cases hsplit
  | append_singleton us u ih => rw [after_concat, use_isChanged, changedSince_concat, ih]

/-- Names that were not changed since the flag was last lowered are those of that time. -/
theorem after_names_of_lowered (h : (after us).isChanged = false) :
    (after us).names = (after (us.rdropWhile (· ≠ .lower))).names := by
  induction us using List.reverseRecOn with
  | nil => rfl
  | append_singleton us u ih =>
    by_cases hu : u = .lower
    · rw [List.rdropWhile_concat_neg _ _ _ (by simp [hu])]
    · rw [List.rdropWhile_concat_pos _ _ _ (by simp [hu])]
      rw [after_concat, ← Bool.not_eq_true, use_isChanged, not_and, not_or] at h
      obtain ⟨hflag, hsame⟩ := h hu
      rw [after_concat, not_not.mp hsame, ih (Bool.eq_false_iff.mpr hflag)]

/-! ## All of it -/

/-- What can be told of the modes that some uses lead to. -/
structure Told (us : List Use) : Prop where
  present : ∀ x, (after us).contains x = true ↔ SwitchedOn us x
  distinct : (after us).names.Nodup
  /-- Each mode that is on has been on since one of the uses, -/
  since : ∀ x ∈ (after us).names, ∃! n, OnSince us x n
  /-- and those that have been on for longer come first. -/
  ordered : (after us).names.Pairwise fun x y => ∀ m n, OnSince us x m → OnSince us y n → m < n
  /-- A mode that is on does not move when it is switched on again, -/
  stays : ∀ x ∈ (after us).names, (after (us ++ [.on x])).names = (after us).names
  /-- and comes last if it is switched off before. -/
  moves : ∀ x ∈ (after us).names,
    (after (us ++ [.off x, .on x])).names = (after us).names.erase x ++ [x]
  /-- What comes back from a use tells whether it changed the names. -/
  answers : ∀ u b, (after us).told? u = some b → (b = true ↔ (after us).Changes u)
  flag : (after us).isChanged = true ↔ ChangedSince us
  /-- If the flag is lowered, the names are those of the time when it was last lowered. -/
  lowered : (after us).isChanged = false →
    (after us).names = (after (us.rdropWhile (· ≠ .lower))).names

/-- **Modes keep their history**: what is on, in which order, and whether the flag is raised, can be
read off what was done. -/
theorem told_after (us : List Use) : Told us where
  present x := contains_iff.trans mem_after
  distinct := nodup_after us
  since x hx := existsUnique_onSince (mem_after.mp hx)
  ordered := after_ordered us
  stays x hx := by
    rw [after_concat]
    exact congrArg names (add_names_of_mem hx)
  moves x hx := by
    have hoff : (after (us ++ [.off x])).names = (after us).names.erase x := by
      rw [after_concat]
      exact remove_names (after us) x
    have hnew : x ∉ (after (us ++ [.off x])).names := hoff ▸ (nodup_after us).not_mem_erase
    rw [← List.singleton_append, ← List.append_assoc, after_concat]
    exact (add_names_of_not_mem hnew).trans (hoff ▸ rfl)
  answers u b h := told h
  flag := after_isChanged us
  lowered := after_names_of_lowered

/-- A mode that is switched on again keeps its place, and loses it by being switched off. -/
example :
    (after [.on "a", .on "b", .on "a"]).names = ["a", "b"] ∧
      (after [.on "a", .on "b", .lower, .off "a", .on "a"]) = ⟨["b", "a"], ⟨true⟩⟩ := by
  decide

end ArcadeUplink.Modes
