import ArcadeUplink.Proofs.Game.Setters
import ArcadeUplink.Proofs.Game.Table
import ArcadeUplink.Proofs.Text.Parts

/-!
# What the table of a history keeps

The table of a history is written for a reader who wants to know, of each snapshot
and in order, when it was taken, what players 1 to 6 had scored, who was playing,
which ball, and which modes were on (`Row`). The reader here (`readTable?`) finds
all of that again as long as every mode has a name without a quote or a semicolon
in it; commas and line breaks do no harm.

Nothing else is in the table. Whatever tells two histories apart but not their rows,
such as the identifier of the game, the players from 7 on and what scored, leaves the
text as it is (`SameExport`).
-/

namespace ArcadeUplink

/-- Names that were joined come apart again where they were joined. -/
theorem Modes.splitOn_joined {m : Modes} (hne : m.names ≠ [])
    (h : ∀ name ∈ m.names, ';' ∉ name.toList) :
    m.joined.toList.splitOn ';' = m.names.map String.toList := by
  have hlists : ∀ l ∈ m.names.map String.toList, ';' ∉ l := by
    intro l hl
    obtain ⟨name, hname, rfl⟩ := List.mem_map.mp hl
    exact h name hname
  rw [joined, String.toList_intercalate]
  exact List.splitOn_intercalate ';' hlists (fun hnil => hne (List.map_eq_nil_iff.mp hnil))

namespace History

/-- The score of a player as a reader of the table is to know it. -/
def exportedScore? (s : Snapshot) (n : Nat) : Option Int :=
  ((PlayerNumber.ofNat? n).bind s.score?).filter fun score => 0 ≤ score

/-- What the table tells of a snapshot. -/
structure Row where
  seconds : Int
  /-- The scores of the players who are exported; none if it is unknown or negative. -/
  scores : List (Option Int)
  /-- The number of the active player; 0 if there is none. -/
  player : Nat
  /-- The number of the ball; 0 if there is none. -/
  ball : Nat
  modes : List String
deriving DecidableEq, Repr

def Row.of (s : Snapshot) : Row where
  seconds := s.seconds
  scores := exportedPlayers.map (exportedScore? s)
  player := s.activePlayer.elim 0 PlayerNumber.toNat
  ball := s.ball.elim 0 BallNumber.toNat
  modes := s.modes.names

/-! ## The reader -/

/-- Reads a text that holds one thing and nothing behind it. -/
def whole? {α : Type} (read : List Char → Option (α × List Char)) (text : String) : Option α :=
  match read text.toList with
  | some (a, []) => some a
  | _ => none

/-- Reads the field of a score, which may be blank. -/
def readScore? (field : String) : Option (Option Int) :=
  if field = "" then some none else (whole? Decimal.readInt field).map some

def splitNames (field : String) : List String :=
  if field = "" then [] else (field.toList.splitOn ';').map .ofList

/-- Reads a record: the time, a score for each player, then the three fields that are left. -/
def readRow? (record : List String) : Option Row := do
  let time ← record.head?
  let scores ← (record.tail.take exportedPlayers.length).mapM readScore?
  match record.tail.drop exportedPlayers.length with
  | [player, ball, modes] =>
    some ⟨← whole? Decimal.readInt time, scores, ← whole? Decimal.readNat player,
      ← whole? Decimal.readNat ball, splitNames modes⟩
  | _ => none

/-- Reads a table: the header, then a row for each snapshot. -/
def readTable? (text : String) : Option (List Row) := do
  let records ← Csv.records? text
  if records.head? = some headerFields then records.tail.mapM readRow? else none

/-- Whether the modes of a snapshot can be told from the text of their names. -/
def Legible (s : Snapshot) : Prop :=
  ∀ name ∈ s.modes.names, name ≠ "" ∧ '"' ∉ name.toList ∧ ';' ∉ name.toList

instance (s : Snapshot) : Decidable (Legible s) := List.decidableBAll _ _

variable {s t : Snapshot} {history : List Snapshot}

theorem whole?_intText (i : Int) : whole? Decimal.readInt (Decimal.intText i) = some i := by
  have hread : Decimal.readInt (Decimal.intChars i ++ []) = some (i, []) :=
    Decimal.readInt_intChars i trivial
  rw [List.append_nil] at hread
  rw [whole?, Decimal.intText, String.toList_ofList, hread]

theorem whole?_natText (n : Nat) : whole? Decimal.readNat (Decimal.natText n) = some n := by
  have hread : Decimal.readNat (Decimal.natChars n ++ []) = some (n, []) :=
    Decimal.readNat_natChars n trivial
  rw [List.append_nil] at hread
  rw [whole?, Decimal.natText, String.toList_ofList, hread]

theorem scoreField_eq (s : Snapshot) (n : Nat) :
    scoreField s n = (exportedScore? s n).elim "" Decimal.intText := by
  unfold scoreField exportedScore?
  cases (PlayerNumber.ofNat? n).bind s.score? with
  | none => rfl
  | some score =>
    dsimp only
    rw [Option.filter_some]
    split
    · next hscore => rw [if_pos (decide_eq_true hscore)]; rfl
    · next hscore => rw [if_neg (by simpa using hscore)]; rfl

/-- A score is read as it was exported, -/
theorem readScore?_scoreField (s : Snapshot) (n : Nat) :
    readScore? (scoreField s n) = some (exportedScore? s n) := by
  rw [scoreField_eq]
  cases exportedScore? s n with
  | none => rfl
  | some score =>
    have hread := whole?_intText score
    have hne : Decimal.intText score ≠ "" := by
      intro hempty
      rw [hempty] at hread
      cases hread
    show readScore? (Decimal.intText score) = some (some score)
    rw [readScore?, if_neg hne, hread, Option.map_some]

/-- and the names of the modes as they were joined. -/
theorem splitNames_joined (h : Legible s) : splitNames s.modes.joined = s.modes.names := by
  by_cases hnil : s.modes.names = []
  · have hjoined : s.modes.joined = "" := by
      rw [Modes.joined, hnil, String.intercalate_nil]
    rw [hjoined, hnil]
    rfl
  · have hne : s.modes.joined ≠ "" := by
      -- an empty text would come apart into one name, which is empty
      intro hempty
      have hsplit := Modes.splitOn_joined hnil fun name hname => (h name hname).2.2
      rw [hempty] at hsplit
      have hmem : [] ∈ s.modes.names.map String.toList := hsplit ▸ List.mem_singleton_self _
      obtain ⟨name, hname, hchars⟩ := List.mem_map.mp hmem
      exact (h name hname).1 (String.toList_eq_nil_iff.mp hchars)
    rw [splitNames, if_neg hne, Modes.splitOn_joined hnil fun name hname => (h name hname).2.2,
      List.map_map]
    simp [Function.comp_def]

/-- **The record of a snapshot tells its row.** -/
theorem readRow?_front (h : Legible s) :
    readRow? (front s ++ [s.modes.joined]) = some (Row.of s) := by
  have htail : (front s ++ [s.modes.joined]).tail = exportedPlayers.map (scoreField s) ++
      [Decimal.natText (s.activePlayer.elim 0 PlayerNumber.toNat),
       Decimal.natText (s.ball.elim 0 BallNumber.toNat), s.modes.joined] := rfl
  have hlength : exportedPlayers.length = (exportedPlayers.map (scoreField s)).length :=
    (List.length_map ..).symm
  have hscores : (exportedPlayers.map (scoreField s)).mapM readScore? =
      some (exportedPlayers.map (exportedScore? s)) := by
    rw [List.mapM_map]
    exact mapM_eq_some_map fun n _ => readScore?_scoreField s n
  have hhead : (front s ++ [s.modes.joined]).head? = some (Decimal.intText s.seconds) := rfl
  unfold readRow?
  rw [hhead, htail, hlength, List.take_left, List.drop_left, hscores]
  simp only [Option.bind_eq_bind, Option.bind_some, whole?_intText, whole?_natText,
    splitNames_joined h]
  rfl

theorem records?_csv (h : ∀ s ∈ history, Legible s) : Csv.records? (csv history) =
    some (headerFields :: history.map fun s => front s ++ [s.modes.joined]) := by
  have hquote : ∀ s ∈ history, '"' ∉ s.modes.joined.toList := by
    intro s hs hmem
    rw [Modes.joined, mem_intercalate (by decide)] at hmem
    obtain ⟨name, hname, hmem⟩ := hmem
    exact (h s hs name hname).2.1 hmem
  rw [Csv.records?, toList_csv, records?_header, records?_rows hquote]
  rfl

/-- **A table is read back** as the rows of its history. -/
theorem readTable?_csv (h : ∀ s ∈ history, Legible s) :
    readTable? (csv history) = some (history.map Row.of) := by
  unfold readTable?
  rw [records?_csv h, Option.bind_eq_bind, Option.bind_some, List.head?_cons, if_pos rfl,
    List.tail_cons, List.mapM_map]
  exact mapM_eq_some_map fun s hs => readRow?_front (h s hs)

/-! ## What is not in the table -/

/-- Two snapshots that agree on all that is exported, whatever else they hold. -/
structure SameExport (s t : Snapshot) : Prop where
  seconds : s.seconds = t.seconds
  scores : ∀ p : PlayerNumber, p.Valid → p.toNat ≤ 6 → s.score? p = t.score? p
  player : s.activePlayer = t.activePlayer
  ball : s.ball = t.ball
  modes : s.modes.names = t.modes.names

theorem SameExport.row (h : SameExport s t) : Row.of s = Row.of t := by
  have hscores : ∀ n ∈ exportedPlayers, exportedScore? s n = exportedScore? t n := by
    intro n hn
    have hle : n ≤ 6 := by
      revert hn n
      decide
    unfold exportedScore?
    cases hp : PlayerNumber.ofNat? n with
    | none => rfl
    | some p =>
      obtain ⟨rfl, hvalid⟩ := PlayerNumber.ofNat?_eq_some hp
      have hscore := h.scores p hvalid hle
      rw [Option.bind_some, Option.bind_some, hscore]
  unfold Row.of
  rw [h.seconds, h.player, h.ball, h.modes, List.map_congr_left hscores]

theorem sameExport_session (s : Snapshot) (id : String) : SameExport { s with session := id } s :=
  ⟨rfl, fun _ _ _ => rfl, rfl, rfl, rfl⟩

theorem sameExport_feature (s : Snapshot) (p : PlayerNumber) (score feature feature' : Int) :
    SameExport (s.setScore p score feature).2 (s.setScore p score feature').2 := by
  refine ⟨rfl, fun q _ _ => ?_, rfl, rfl, rfl⟩
  rw [Snapshot.score?_setScore, Snapshot.score?_setScore]

theorem sameExport_beyond {p : PlayerNumber} (h : 6 < p.toNat) (s : Snapshot)
    (score feature : Int) : SameExport (s.setScore p score feature).2 s := by
  have hframe := s.setScore_frame p score feature
  refine ⟨(congrArg Snapshot.seconds hframe :), fun q _ hq => ?_,
    (congrArg Snapshot.activePlayer hframe :), (congrArg Snapshot.ball hframe :),
    (congrArg (fun t => t.modes.names) hframe :)⟩
  rw [Snapshot.score?_setScore, if_neg]
  rintro rfl
  exact absurd hq (Nat.not_le_of_gt h)

/-- The text of a row is made of what the row tells. -/
theorem row_eq_of_row (h : Row.of s = Row.of t) : row s = row t := by
  obtain ⟨hseconds, hscores, hplayer, hball, hmodes⟩ := Row.mk.inj h
  have hfields : exportedPlayers.map (scoreField s) = exportedPlayers.map (scoreField t) := by
    have hfield (s : Snapshot) : exportedPlayers.map (scoreField s) =
        (exportedPlayers.map (exportedScore? s)).map fun x => x.elim "" Decimal.intText := by
      rw [List.map_map]
      exact List.map_congr_left fun n _ => scoreField_eq s n
    rw [hfield, hfield, hscores]
  have hfield : modesField s.modes = modesField t.modes := by
    unfold modesField Modes.isEmpty Modes.joined
    rw [hmodes]
  unfold row fields
  rw [hseconds, hfields, hplayer, hball, hfield]

theorem csv_eq_of_rows {history' : List Snapshot} (h : history.map Row.of = history'.map Row.of) :
    csv history = csv history' := by
  have hrows : history.map row = history'.map row := by
    induction history generalizing history' with
    | nil =>
      rw [List.map_nil] at h
      rw [List.map_eq_nil_iff.mp h.symm]
    | cons s history ih =>
      cases history' with
      | nil => cases h
      | cons t history' =>
        obtain ⟨hrow, hrest⟩ := List.cons.inj h
        rw [List.map_cons, List.map_cons, row_eq_of_row hrow, ih hrest]
  rw [csv, csv, hrows]

/-- A score is not exported if there is none, or if it is negative. -/
theorem exportedScore?_eq_none_iff {n : Nat} {p : PlayerNumber}
    (hp : PlayerNumber.ofNat? n = some p) :
    exportedScore? s n = none ↔ ∀ score, s.score? p = some score → score < 0 := by
  rw [exportedScore?, hp, Option.bind_some, Option.filter_eq_none_iff]
  simp

/-- In a valid snapshot the number 0 stands for nobody, and for no ball. -/
theorem row_numbers (h : s.Valid) : ((Row.of s).player = 0 ↔ s.activePlayer = none) ∧
    ((Row.of s).ball = 0 ↔ s.ball = none) := by
  unfold Row.of
  constructor
  · cases hp : s.activePlayer with
    | none => exact iff_of_true rfl rfl
    | some p => exact iff_of_false (Nat.ne_of_gt (isGameNumber_iff.mp (h.player p hp)).1) nofun
  · cases hb : s.ball with
    | none => exact iff_of_true rfl rfl
    | some b => exact iff_of_false (Nat.ne_of_gt (isGameNumber_iff.mp (h.ball b hb)).1) nofun

/-- **A table loses nothing that it promises.** If the names of the modes can be told apart, then
the rows of a history are read back from its text, so two such histories have one text just if
their rows agree. Histories that agree on all that is exported have one text in any case. A row has
no score for a player who was not mentioned or whose score is negative, and the number 0 in place
of nobody and of no ball: what a tracker sends has no other use for it. -/
theorem table_loses_nothing :
    (∀ history, (∀ s ∈ history, Legible s) →
      readTable? (csv history) = some (history.map Row.of)) ∧
    (∀ history history', (∀ s ∈ history, Legible s) → (∀ s ∈ history', Legible s) →
      (csv history = csv history' ↔ history.map Row.of = history'.map Row.of)) ∧
    (∀ history history', List.Forall₂ SameExport history history' →
      csv history = csv history') ∧
    (∀ s id p score feature feature', SameExport { s with session := id } s ∧
      SameExport (s.setScore p score feature).2 (s.setScore p score feature').2 ∧
      (6 < p.toNat → SameExport (s.setScore p score feature).2 s)) ∧
    (∀ s n p, PlayerNumber.ofNat? n = some p →
      (exportedScore? s n = none ↔ ∀ score, s.score? p = some score → score < 0) ∧
      ∀ score, exportedScore? s n = some score → s.score? p = some score) ∧
    (∀ s, s.Valid → ((Row.of s).player = 0 ↔ s.activePlayer = none) ∧
      ((Row.of s).ball = 0 ↔ s.ball = none)) ∧
    ∀ xs, ∀ s ∈ (Tale.addAll {} xs).sent, s.Valid := by
  refine ⟨fun history => readTable?_csv, ?_, ?_, ?_, ?_, fun s => row_numbers,
    fun xs => (Tale.valid xs).2⟩
  · intro history history' h h'
    constructor
    · intro heq
      have hread := readTable?_csv h
      rw [heq, readTable?_csv h'] at hread
      exact (Option.some.inj hread).symm
    · exact csv_eq_of_rows
  · intro history history' h
    apply csv_eq_of_rows
    induction h with
    | nil => rfl
    | cons hst _ ih => rw [List.map_cons, List.map_cons, hst.row, ih]
  · intro s id p score feature feature'
    exact ⟨sameExport_session s id, sameExport_feature s p score feature feature',
      fun hp => sameExport_beyond hp s score feature⟩
  · intro s n p hp
    refine ⟨exportedScore?_eq_none_iff hp, ?_⟩
    intro score hscore
    rw [exportedScore?, hp, Option.bind_some] at hscore
    exact (Option.filter_eq_some_iff.mp hscore).1

/-- A game of two players, the second in debt, with two modes of which one is spread over two
lines. -/
def debtor : Snapshot :=
  { ((Snapshot.started "game").setScore ⟨2⟩ (-5) 0).2.stamp 20500000000 with
    modes := { names := ["MB:Multi,ball", "two\nlines"] } }

theorem debtor_and_none_read_back :
    readTable? (csv [debtor, {}]) = some
      [⟨20, [some 0, none, none, none, none, none], 1, 1, ["MB:Multi,ball", "two\nlines"]⟩,
       ⟨0, [none, none, none, none, none, none], 0, 0, []⟩] ∧
    csv [debtor] ≠ csv [debtor.stamp 21000000000] ∧
    csv [(debtor.setScore ⟨8⟩ 99 3).2] = csv [debtor] ∧
    exportedScore? debtor 2 = none ∧ (Row.of debtor).ball ≠ 0 := by
  obtain ⟨hread, hiff, hsame, hframe, hscore, hnumbers, -⟩ := table_loses_nothing
  have hvalid : debtor.Valid := by
    refine Snapshot.Valid.withModes (Snapshot.Valid.stamp ?_ _) (by decide)
    exact (Snapshot.valid_started "game").setScore (by decide) _ _
  refine ⟨hread [debtor, {}] (by decide), ?_, ?_, ?_, ?_⟩
  · exact mt (hiff _ _ (by decide) (by decide)).mp (by decide)
  · exact hsame _ _ (.cons ((hframe debtor "" ⟨8⟩ 99 3 0).2.2 (by decide)) .nil)
  · refine (hscore debtor 2 ⟨2⟩ rfl).1.mpr ?_
    have hdebt : debtor.score? ⟨2⟩ = some (-5) := rfl
    intro score hs
    obtain rfl := Option.some.inj (hdebt.symm.trans hs)
    decide
  · exact mt (hnumbers debtor hvalid).2.mp nofun

end History

end ArcadeUplink
