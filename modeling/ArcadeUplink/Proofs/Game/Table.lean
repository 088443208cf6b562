import ArcadeUplink.Game.History
import ArcadeUplink.Proofs.Text.Csv
import Mathlib.Data.List.Forall2

/-!
# The table of a history, read back

Whoever reads the table of a history by the rules of comma-separated values is to
find the header and then, for each snapshot, ten fields with its modes in the last
one (`ReadsBack`). The modes stand between quotes as they are, so the table reads
back exactly if no name of a mode has a quote in it; commas, semicolons and line
breaks do no harm (`reads_back_iff`).
-/

namespace ArcadeUplink

/-- A character other than the semicolon stands in joined names just if it stands in one of them. -/
theorem mem_intercalate {names : List String} {c : Char} (hc : c ≠ ';') :
    c ∈ (String.intercalate ";" names).toList ↔ ∃ name ∈ names, c ∈ name.toList := by
  induction names with
  | nil => simp
  | cons name names ih =>
    cases names with
    | nil => simp
    | cons next names =>
      rw [String.intercalate_cons_of_ne_nil (List.cons_ne_nil _ _), String.toList_append,
        String.toList_append, List.mem_append, List.mem_append, ih]
      simp [hc]

namespace History

open Csv

/-- The fields of the header. -/
def headerFields : List String :=
  ["time", "p1", "p2", "p3", "p4", "p5", "p6", "player", "ball", "game_modes"]

/-- Whether a record is that of a snapshot: it has ten fields, the last one for the modes. -/
def IsRowOf (record : List String) (s : Snapshot) : Prop :=
  record.length = 10 ∧ record.getLast? = some s.modes.joined

/-- Whether the table of a history reads back: the header, then a record for each snapshot. -/
def ReadsBack (history : List Snapshot) : Prop :=
  ∃ rows, records? (csv history) = some (headerFields :: rows) ∧ List.Forall₂ IsRowOf rows history

/-! ## A row in characters -/

/-- The fields of a row in front of the modes. -/
def front (s : Snapshot) : List String :=
  Decimal.intText s.seconds :: exportedPlayers.map (scoreField s) ++
    [Decimal.natText (s.activePlayer.elim 0 PlayerNumber.toNat),
     Decimal.natText (s.ball.elim 0 BallNumber.toNat)]

theorem toList_intercalate_concat (fs : List String) (f : String) :
    (String.intercalate "," (fs ++ [f])).toList =
      fs.flatMap (fun f => f.toList ++ [',']) ++ f.toList := by
  induction fs with
  | nil => rw [List.nil_append, String.intercalate_singleton, List.flatMap_nil, List.nil_append]
  | cons g fs ih =>
    rw [List.cons_append, String.intercalate_cons_of_ne_nil (List.concat_ne_nil _ _),
      String.toList_append, String.toList_append, ih, List.flatMap_cons, List.append_assoc,
      List.append_assoc, List.append_assoc]
    rfl

theorem toList_row (s : Snapshot) : (row s).toList =
    (front s).flatMap (fun f => f.toList ++ [',']) ++ ((modesField s.modes).toList ++ ['\n']) := by
  have hfields : fields s = front s ++ [modesField s.modes] := rfl
  rw [row, hfields, String.toList_append, toList_intercalate_concat, List.append_assoc]
  rfl

theorem isPlain_of_isDigit {cs : List Char} (h : ∀ c ∈ cs, c.isDigit = true) : IsPlain cs := by
  intro c hc
  have hdigit := h c hc
  refine ⟨?_, ?_, ?_, ?_⟩ <;> rintro rfl <;> revert hdigit <;> decide

theorem isPlain_natText (n : Nat) : IsPlain (Decimal.natText n).toList := by
  rw [Decimal.natText, String.toList_ofList]
  exact isPlain_of_isDigit fun _ => Decimal.isDigit_of_mem_natChars

theorem isPlain_intText (i : Int) : IsPlain (Decimal.intText i).toList := by
  rw [Decimal.intText, String.toList_ofList]
  cases i with
  | ofNat n => exact isPlain_of_isDigit fun _ => Decimal.isDigit_of_mem_natChars
  | negSucc n =>
    intro c hc
    rcases List.mem_cons.mp hc with rfl | hc
    · decide
    · exact isPlain_of_isDigit (fun _ => Decimal.isDigit_of_mem_natChars) c hc

theorem isPlain_scoreField (s : Snapshot) (n : Nat) : IsPlain (scoreField s n).toList := by
  unfold scoreField
  split
  · split
    · exact isPlain_intText _
    · exact nofun
  · exact nofun

theorem isPlain_of_mem_front {s : Snapshot} {f : String} (h : f ∈ front s) :
    IsPlain f.toList := by
  rcases List.mem_append.mp h with h | h
  · rcases List.mem_cons.mp h with rfl | h
    · exact isPlain_intText _
    · obtain ⟨n, -, rfl⟩ := List.mem_map.mp h
      exact isPlain_scoreField s n
  · rcases List.mem_cons.mp h with rfl | h
    · exact isPlain_natText _
    · rw [List.mem_singleton.mp h]
      exact isPlain_natText _

/-! ## Reading a row -/

section Row

variable {s : Snapshot} {history : List Snapshot} {rest : List Char}
  {records all : List (List String)}

/-- A row is read up to its modes, whatever they are. -/
theorem records?_row : (begin [] records).records? ((row s).toList ++ rest) =
    (begin (front s) records).records? ((modesField s.modes).toList ++ '\n' :: rest) := by
  rw [toList_row, List.append_assoc, List.append_assoc, List.singleton_append,
    records?_fields fun f => isPlain_of_mem_front, List.nil_append]

/-- **A row without a quote in its modes** is read as the record of its snapshot. -/
theorem records?_row_of_not_mem (h : '"' ∉ s.modes.joined.toList) :
    (begin [] records).records? ((row s).toList ++ rest) =
      (begin [] (records ++ [front s ++ [s.modes.joined]])).records? rest := by
  rw [records?_row]
  unfold modesField
  split
  · next hempty =>
    have hjoined : s.modes.joined = "" := by
      unfold Modes.joined
      rw [List.isEmpty_iff.mp hempty, String.intercalate_nil]
    rw [hjoined]
    exact records?_plain nofun (.inr rfl)
  · rw [String.toList_append, String.toList_append, List.append_assoc, List.append_assoc]
    refine (records?_closed h).trans ?_
    rw [String.ofList_toList]

/-- **A row that is read as the record of its snapshot** has no quote in its modes. -/
theorem not_mem_of_isRowOf {record : List String} {more : List (List String)}
    (h : (begin [] records).records? ((row s).toList ++ rest) = some (records ++ record :: more))
    (hrow : IsRowOf record s) : '"' ∉ s.modes.joined.toList := by
  by_cases hempty : s.modes.isEmpty = true
  · unfold Modes.joined
    rw [List.isEmpty_iff.mp hempty, String.intercalate_nil]
    exact nofun
  · rw [records?_row, modesField, if_neg hempty, String.toList_append, String.toList_append,
      List.append_assoc, List.append_assoc] at h
    obtain ⟨field, others, more', hall, hfield⟩ := exists_of_quoted h
    obtain ⟨rfl, -⟩ := List.cons.inj (List.append_cancel_left hall)
    obtain ⟨hlength, hlast⟩ := hrow
    have hfront : (front s).length = 9 := rfl
    have hothers : others = [] := by
      rw [List.length_append, hfront, List.length_cons] at hlength
      exact List.eq_nil_of_length_eq_zero (by omega)
    rw [hothers, List.getLast?_concat] at hlast
    exact hfield ((String.toList_ofList (l := field)).symm.trans (congrArg _ (Option.some.inj hlast)))

theorem records?_rows (h : ∀ s ∈ history, '"' ∉ s.modes.joined.toList) :
    (begin [] records).records? (history.flatMap fun s => (row s).toList) =
      some (records ++ history.map fun s => front s ++ [s.modes.joined]) := by
  induction history generalizing records with
  | nil =>
    rw [List.map_nil, List.append_nil]
    rfl
  | cons s history ih =>
    rw [List.flatMap_cons, records?_row_of_not_mem (h s List.mem_cons_self),
      ih fun t ht => h t (List.mem_cons_of_mem _ ht), List.map_cons, List.append_assoc,
      List.singleton_append]

theorem not_mem_of_rows {rows : List (List String)}
    (h : (begin [] records).records? (history.flatMap fun s => (row s).toList) =
      some (records ++ rows)) (hrows : List.Forall₂ IsRowOf rows history) :
    ∀ s ∈ history, '"' ∉ s.modes.joined.toList := by
  induction hrows generalizing records with
  | nil => exact nofun
  | @cons record s rows history hrow _ ih =>
    have hs : '"' ∉ s.modes.joined.toList := not_mem_of_isRowOf h hrow
    intro t ht
    rcases List.mem_cons.mp ht with rfl | ht
    · exact hs
    · rw [List.flatMap_cons, records?_row_of_not_mem hs] at h
      obtain ⟨more, hmore⟩ := records_isPrefix h
      have hfirst := (List.append_assoc records _ more).symm.trans hmore
      obtain ⟨rfl, -⟩ := List.cons.inj (List.append_cancel_left hfirst)
      exact ih (h.trans (congrArg some (List.append_cons ..))) t ht

end Row

theorem toList_csv (history : List Snapshot) :
    (csv history).toList = header.toList ++ history.flatMap fun s => (row s).toList := by
  rw [csv, String.toList_append, String.toList_join, List.flatMap_map]

/-- The header is read as its fields, whatever follows it. -/
theorem records?_header (rest : List Char) :
    Reader.records? {} (header.toList ++ rest) = (begin [] [headerFields]).records? rest := by
  have hheader : header = String.intercalate "," (headerFields.dropLast ++ ["game_modes"]) ++ "\n" :=
    rfl
  have hplain : ∀ f ∈ headerFields, IsPlain f.toList := by decide
  rw [hheader, String.toList_append, toList_intercalate_concat, List.append_assoc, List.append_assoc]
  refine (records?_fields fun f hf => hplain f (List.dropLast_subset _ hf)).trans ?_
  refine (records?_plain (hplain "game_modes" (by decide)) (.inr rfl)).trans ?_
  rw [String.ofList_toList]
  rfl

/-- **A table reads back exactly if no mode has a quote in its name.** -/
theorem reads_back_iff (history : List Snapshot) :
    ReadsBack history ↔ ∀ s ∈ history, ∀ name ∈ s.modes.names, '"' ∉ name.toList := by
  have hread : Csv.records? (csv history) =
      (begin [] [headerFields]).records? (history.flatMap fun s => (row s).toList) := by
    rw [Csv.records?, toList_csv, records?_header]
  have hjoined (s : Snapshot) :
      '"' ∉ s.modes.joined.toList ↔ ∀ name ∈ s.modes.names, '"' ∉ name.toList := by
    unfold Modes.joined
    rw [mem_intercalate (by decide)]
    simp only [not_exists, not_and]
  simp only [← hjoined]
  constructor
  · rintro ⟨rows, hrows, hall⟩
    have hrows' := hread.symm.trans (hrows.trans (congrArg some List.singleton_append.symm))
    exact not_mem_of_rows hrows' hall
  · intro h
    refine ⟨history.map fun s => front s ++ [s.modes.joined], hread.trans (records?_rows h), ?_⟩
    rw [List.forall₂_map_left_iff]
    exact List.forall₂_same.mpr fun s _ => ⟨rfl, List.getLast?_concat⟩

/-- A quote in the name of a mode is lost. -/
theorem quote_not_read_back :
    ¬ReadsBack [{ modes := { names := ["a\"b"] } }] := by
  rw [reads_back_iff]
  decide

end History

end ArcadeUplink
