import Mathlib.Data.List.Induction

/-!
# Comma-separated values

A reader of tables that goes through a text once, one character after another. A
comma ends a field, a line break a record; the line break after the last record
may be missing. A field that begins with a quote goes on to the closing quote and
may hold anything, each quote in it written twice. A field that does not holds no
quote, comma or line break. A text in which a quote stands anywhere else has no
table.

A line break is a line feed, alone or behind a carriage return.

The laws say what a reader makes of a plain field (`records?_plain`) and of a field
between quotes, whatever it holds (`records?_quoted`), and that what was read is
never read otherwise because of what follows (`exists_of_records?`).
-/

namespace ArcadeUplink.Csv

/-- Where in a field a reader is. -/
inductive Place where
  /-- At its beginning. -/
  | fresh
  /-- In a field without quotes. -/
  | plain
  | quoted
  /-- Behind a quote, which closes the field or is the first of two. -/
  | closing
  /-- Behind a carriage return, which a line feed has to follow. -/
  | returned
deriving DecidableEq, Repr

/-- A reader, with what he has read: some records, some fields of the next one, and some
characters of its next field. -/
structure Reader where
  place : Place := .fresh
  field : List Char := []
  fields : List String := []
  records : List (List String) := []
deriving DecidableEq, Repr

namespace Reader

/-- The reader has read one more character of a field. -/
def take (r : Reader) (c : Char) (place : Place) : Reader :=
  { r with place, field := r.field ++ [c] }

def endField (r : Reader) : Reader :=
  { r with place := .fresh, field := [], fields := r.fields ++ [.ofList r.field] }

def endRecord (r : Reader) : Reader :=
  { place := .fresh, field := [], fields := [], records := r.records ++ [r.endField.fields] }

/-- Reads what ends a field. -/
def end? (r : Reader) (c : Char) : Option Reader :=
  if c = ',' then some r.endField
  else if c = '\n' then some r.endRecord
  else if c = '\r' then some { r with place := .returned }
  else none

/-- Reads one character, unless it cannot stand there. -/
def next (r : Reader) (c : Char) : Option Reader :=
  match r.place with
  | .fresh =>
    if c = '"' then some { r with place := .quoted } else (r.end? c).or (some (r.take c .plain))
  | .plain => if c = '"' then none else (r.end? c).or (some (r.take c .plain))
  | .quoted => if c = '"' then some { r with place := .closing } else some (r.take c .quoted)
  | .closing => if c = '"' then some (r.take c .quoted) else r.end? c
  | .returned => if c = '\n' then some r.endRecord else none

/-- The records at the end of the text, unless it ends in the midst of a field. -/
def finish (r : Reader) : Option (List (List String)) :=
  match r.place with
  | .fresh => some (if r.fields = [] then r.records else r.endRecord.records)
  | .plain | .closing => some r.endRecord.records
  | .quoted | .returned => none

/-- Reads a text to its end. -/
def records? (r : Reader) : List Char → Option (List (List String))
  | [] => r.finish
  | c :: cs => (r.next c).bind (records? · cs)

end Reader

/-- The records of a table; none, if a text is no table. -/
def records? (text : String) : Option (List (List String)) := Reader.records? {} text.toList

/-- A reader at the beginning of a field. -/
def begin (fields : List String) (records : List (List String)) : Reader := { fields, records }

/-- Whether a field can be read without quotes. -/
def IsPlain (cs : List Char) : Prop := ∀ c ∈ cs, c ≠ '"' ∧ c ≠ ',' ∧ c ≠ '\n' ∧ c ≠ '\r'

instance (cs : List Char) : Decidable (IsPlain cs) := List.decidableBAll _ cs

variable {r : Reader} {c : Char} {cs rest : List Char} {fields : List String}
  {records all : List (List String)}

theorem records?_cons {r' : Reader} (h : r.next c = some r') :
    r.records? (c :: cs) = r'.records? cs := by
  rw [Reader.records?, h, Option.bind_some]

/-! ## Plain fields -/

theorem records?_take_plain (h : IsPlain cs) (hplace : r.place = .plain) :
    r.records? (cs ++ rest) = { r with field := r.field ++ cs }.records? rest := by
  induction cs generalizing r with
  | nil => rw [List.nil_append, List.append_nil]
  | cons c cs ih =>
    obtain ⟨hquote, hcomma, hline, hreturn⟩ := h c List.mem_cons_self
    have hnext : r.next c = some (r.take c .plain) := by
      simp only [Reader.next, hplace, Reader.end?, if_neg hquote, if_neg hcomma, if_neg hline,
        if_neg hreturn, Option.none_or]
    rw [List.cons_append, records?_cons hnext,
      ih (fun d hd => h d (List.mem_cons_of_mem _ hd)) rfl]
    simp only [Reader.take, hplace, List.append_assoc, List.singleton_append]

/-- **A plain field** is read as it stands, whatever ends it. -/
theorem records?_plain (h : IsPlain cs) (hc : c = ',' ∨ c = '\n') :
    (begin fields records).records? (cs ++ c :: rest) =
      (if c = ',' then begin (fields ++ [.ofList cs]) records
        else begin [] (records ++ [fields ++ [.ofList cs]])).records? rest := by
  have hquote : c ≠ '"' := by
    rintro rfl
    revert hc
    decide
  have hend (r : Reader) : r.end? c = some (if c = ',' then r.endField else r.endRecord) := by
    unfold Reader.end?
    obtain rfl | rfl := hc <;> rfl
  cases cs with
  | nil =>
    have hnext : (begin fields records).next c =
        some (if c = ',' then (begin fields records).endField
          else (begin fields records).endRecord) := by
      show (if c = '"' then _ else _) = _
      rw [if_neg hquote, hend, Option.some_or]
    rw [List.nil_append, records?_cons hnext]
    rfl
  | cons d cs =>
    obtain ⟨hd, hcomma, hline, hreturn⟩ := h d List.mem_cons_self
    have hnext : (begin fields records).next d = some ((begin fields records).take d .plain) := by
      simp only [Reader.next, begin, Reader.end?, if_neg hd, if_neg hcomma, if_neg hline,
        if_neg hreturn, Option.none_or]
    rw [List.cons_append, records?_cons hnext,
      records?_take_plain (fun e he => h e (List.mem_cons_of_mem _ he)) rfl]
    refine records?_cons ?_
    show (if c = '"' then _ else _) = _
    rw [if_neg hquote, hend, Option.some_or]
    rfl

/-- Plain fields with a comma behind each are read one after another. -/
theorem records?_fields {fs : List String} (h : ∀ f ∈ fs, IsPlain f.toList) :
    (begin fields records).records? (fs.flatMap (fun f => f.toList ++ [',']) ++ rest) =
      (begin (fields ++ fs) records).records? rest := by
  induction fs generalizing fields with
  | nil => rw [List.flatMap_nil, List.nil_append, List.append_nil]
  | cons f fs ih =>
    rw [List.flatMap_cons, List.append_assoc, List.append_assoc, List.singleton_append,
      records?_plain (h f List.mem_cons_self) (.inl rfl), if_pos rfl,
      ih fun g hg => h g (List.mem_cons_of_mem _ hg), String.ofList_toList, List.append_assoc,
      List.singleton_append]

/-! ## Fields between quotes -/

/-- What a field holds whose opening quote was read, and what follows the closing quote. -/
def unquote : List Char → Option (List Char × List Char)
  | [] => none
  | '"' :: '"' :: cs => (unquote cs).map fun x => ('"' :: x.1, x.2)
  | c :: cs => if c = '"' then some ([], cs) else (unquote cs).map fun x => (c :: x.1, x.2)

theorem unquote_pair : unquote ('"' :: '"' :: cs) = (unquote cs).map fun x => ('"' :: x.1, x.2) :=
  rfl

theorem unquote_close (hc : c ≠ '"') : unquote ('"' :: c :: cs) = some ([], c :: cs) := by
  simp [unquote, hc]

theorem unquote_cons (hc : c ≠ '"') :
    unquote (c :: cs) = (unquote cs).map fun x => (c :: x.1, x.2) := by
  simp [unquote, hc]

/-- **A field between quotes** is read to its closing quote. -/
theorem records?_quoted (hplace : r.place = .quoted) :
    r.records? cs = (unquote cs).bind fun x =>
      { r with place := .closing, field := r.field ++ x.1 }.records? x.2 := by
  fun_induction unquote cs generalizing r with
  | case1 =>
    rw [Reader.records?, Reader.finish, hplace]
    rfl
  | case2 cs ih =>
    have hfirst : r.next '"' = some { r with place := .closing } := by
      rw [Reader.next, hplace]
      rfl
    have hsecond : Reader.next { r with place := .closing } '"' = some (r.take '"' .quoted) := rfl
    rw [records?_cons hfirst, records?_cons hsecond, ih rfl, Option.bind_map]
    simp only [Reader.take, Function.comp_def, List.append_assoc, List.singleton_append]
  | case3 cs _ =>
    have hclose : r.next '"' = some { r with place := .closing } := by
      rw [Reader.next, hplace]
      rfl
    rw [records?_cons hclose, Option.bind_some, List.append_nil]
  | case4 c cs _ hc ih =>
    have hnext : r.next c = some (r.take c .quoted) := by
      rw [Reader.next, hplace]
      exact if_neg hc
    rw [records?_cons hnext, ih rfl, Option.bind_map]
    simp only [Reader.take, Function.comp_def, List.append_assoc, List.singleton_append]

/-- What follows a closing quote is no quote. -/
theorem unquote_rest {x : List Char × List Char} (h : unquote cs = some x) :
    x.2.head? ≠ some '"' := by
  fun_induction unquote cs generalizing x with
  | case1 => cases h
  | case2 cs ih =>
    obtain ⟨y, hy, rfl⟩ := Option.map_eq_some_iff.mp h
    have hhead := ih hy
    exact hhead
  | case3 cs hne =>
    cases h
    intro hhead
    obtain ⟨rest, rfl⟩ := List.head?_eq_some_iff.mp hhead
    exact hne rest rfl rfl
  | case4 c cs _ _ ih =>
    obtain ⟨y, hy, rfl⟩ := Option.map_eq_some_iff.mp h
    have hhead := ih hy
    exact hhead

/-- A field without quotes in it ends at the next quote, if no other one follows that. -/
theorem unquote_append (h : '"' ∉ cs) (hrest : rest.head? ≠ some '"') :
    unquote (cs ++ '"' :: rest) = some (cs, rest) := by
  induction cs with
  | nil =>
    cases rest with
    | nil => rfl
    | cons c rest => exact unquote_close fun hc => hrest (congrArg some hc)
  | cons c cs ih =>
    have hc : c ≠ '"' := fun hc => h (hc ▸ List.mem_cons_self)
    rw [List.cons_append, unquote_cons hc, ih fun hmem => h (List.mem_cons_of_mem _ hmem)]
    rfl

/-- **A quote that is written once is not read back.** If what is read between quotes is what was
written there, then no quote was. The quotes in front are those by which the reader is behind. -/
theorem not_mem_of_unquote {behind : Nat} {x : List Char}
    (h : unquote (cs ++ '"' :: '\n' :: rest) = some (List.replicate behind '"' ++ cs, x)) :
    behind = 0 ∧ '"' ∉ cs := by
  induction cs using List.twoStepInduction generalizing behind with
  | nil =>
    rw [List.nil_append, unquote_close (by decide), List.append_nil] at h
    have hfield := (Prod.mk.inj (Option.some.inj h)).1
    exact ⟨(List.replicate_eq_nil_iff _).mp hfield.symm, List.not_mem_nil⟩
  | singleton c =>
    by_cases hc : c = '"'
    · -- the closing quote is taken for the second of two, and the reader goes on to the next line
      subst hc
      rw [List.singleton_append, unquote_pair, unquote_cons (by decide), Option.map_map] at h
      obtain ⟨y, -, heq⟩ := Option.map_eq_some_iff.mp h
      have hfield := (Prod.mk.inj heq).1
      cases behind with
      | zero => cases hfield
      | succ n => cases n <;> cases hfield
    · rw [List.singleton_append, unquote_cons hc, unquote_close (by decide)] at h
      have hfield := (Prod.mk.inj (Option.some.inj h)).1
      cases behind with
      | zero => exact ⟨rfl, fun hmem => hc (List.mem_singleton.mp hmem).symm⟩
      | succ n => exact absurd (congrArg List.length hfield) (by simp)
  | cons_cons c d cs ih ih' =>
    by_cases hc : c = '"'
    · subst hc
      by_cases hd : d = '"'
      · -- two quotes are read as one, so the reader falls behind by one more
        subst hd
        rw [List.cons_append, List.cons_append, unquote_pair] at h
        obtain ⟨y, hy, heq⟩ := Option.map_eq_some_iff.mp h
        obtain ⟨hfield, rfl⟩ := Prod.mk.inj heq
        have hbehind : List.replicate behind '"' ++ '"' :: '"' :: cs =
            '"' :: (List.replicate (behind + 1) '"' ++ cs) := by
          rw [List.append_cons, ← List.replicate_succ', List.append_cons, ← List.replicate_succ',
            List.replicate_succ, List.cons_append]
        have hread : unquote (cs ++ '"' :: '\n' :: rest) =
            some (List.replicate (behind + 1) '"' ++ cs, y.2) :=
          hy.trans (congrArg some (Prod.ext (List.cons.inj (hfield.trans hbehind)).2 rfl))
        exact absurd (ih hread).1 (Nat.succ_ne_zero behind)
      · rw [List.cons_append, List.cons_append, unquote_close hd] at h
        have hfield := (Prod.mk.inj (Option.some.inj h)).1
        exact absurd (congrArg List.length hfield) (by simp)
    · rw [List.cons_append, unquote_cons hc] at h
      obtain ⟨y, hy, heq⟩ := Option.map_eq_some_iff.mp h
      obtain ⟨hfield, rfl⟩ := Prod.mk.inj heq
      cases behind with
      | zero =>
        have hread : unquote (d :: cs ++ '"' :: '\n' :: rest) =
            some (List.replicate 0 '"' ++ d :: cs, y.2) :=
          hy.trans (congrArg some (Prod.ext (List.cons.inj hfield).2 rfl))
        obtain ⟨-, hcs⟩ := ih' d hread
        refine ⟨rfl, ?_⟩
        intro hmem
        rcases List.mem_cons.mp hmem with heq | hmem
        · exact hc heq.symm
        · exact hcs hmem
      | succ n => exact absurd (List.cons.inj hfield).1 hc

/-! ## What was read stays read -/

theorem next_cases {r' : Reader} (h : r.next c = some r') :
    (r'.fields = r.fields ∧ r'.records = r.records) ∨ r' = r.endField ∨ r' = r.endRecord := by
  have hend {r' : Reader} (h : r.end? c = some r') :
      (r'.fields = r.fields ∧ r'.records = r.records) ∨ r' = r.endField ∨ r' = r.endRecord := by
    unfold Reader.end? at h
    split at h
    · exact .inr (.inl (Option.some.inj h).symm)
    · split at h
      · exact .inr (.inr (Option.some.inj h).symm)
      · obtain ⟨-, h⟩ := Option.ite_none_right_eq_some.mp h
        cases h
        exact .inl ⟨rfl, rfl⟩
  have hplain (h : (r.end? c).or (some (r.take c .plain)) = some r') :
      (r'.fields = r.fields ∧ r'.records = r.records) ∨ r' = r.endField ∨ r' = r.endRecord := by
    rcases Option.or_eq_some_iff.mp h with h | ⟨-, h⟩
    · exact hend h
    · cases h
      exact .inl ⟨rfl, rfl⟩
  unfold Reader.next at h
  split at h
  · split at h
    · cases h
      exact .inl ⟨rfl, rfl⟩
    · exact hplain h
  · split at h
    · cases h
    · exact hplain h
  · split at h <;> cases h <;> exact .inl ⟨rfl, rfl⟩
  · split at h
    · cases h
      exact .inl ⟨rfl, rfl⟩
    · exact hend h
  · obtain ⟨-, h⟩ := Option.ite_none_right_eq_some.mp h
    exact .inr (.inr (Option.some.inj h).symm)

/-- At its end a text has the records that were read, and the one that was begun. -/
theorem finish_cases (h : r.finish = some all) :
    (r.fields = [] ∧ all = r.records) ∨ all = r.endRecord.records := by
  unfold Reader.finish at h
  split at h
  · split at h
    · next hfields => exact .inl ⟨hfields, (Option.some.inj h).symm⟩
    · exact .inr (Option.some.inj h).symm
  · exact .inr (Option.some.inj h).symm
  · exact .inr (Option.some.inj h).symm
  · cases h
  · cases h

/-- A field that ends goes in front of those that the record goes on with, -/
theorem endField_append (r : Reader) (others : List String) (more : List (List String)) :
    r.endField.records ++ (r.endField.fields ++ others) :: more =
      r.records ++ (r.fields ++ .ofList r.field :: others) :: more := by
  rw [Reader.endField, List.append_assoc, List.singleton_append]

/-- and the last one, with its record, in front of the other records. -/
theorem endRecord_append (r : Reader) (more : List (List String)) :
    r.endRecord.records ++ more = r.records ++ (r.fields ++ [.ofList r.field]) :: more := by
  rw [Reader.endRecord, List.append_assoc, List.singleton_append]
  rfl

theorem records_isPrefix (h : r.records? cs = some all) : r.records <+: all := by
  induction cs generalizing r with
  | nil =>
    rw [Reader.records?] at h
    obtain ⟨-, rfl⟩ | rfl := finish_cases h
    · exact List.prefix_rfl
    · exact List.prefix_append _ _
  | cons c cs ih =>
    obtain ⟨r', hnext, hrest⟩ := Option.bind_eq_some_iff.mp h
    have hprefix := ih hrest
    obtain ⟨-, hrecords⟩ | rfl | rfl := next_cases hnext
    · rwa [hrecords] at hprefix
    · exact hprefix
    · exact (List.prefix_append _ _).trans hprefix

/-- A record that was begun goes on with at least one more field. -/
theorem exists_of_records? (hfields : r.fields ≠ []) (h : r.records? cs = some all) :
    ∃ field others more, all = r.records ++ (r.fields ++ field :: others) :: more := by
  induction cs generalizing r with
  | nil =>
    rw [Reader.records?] at h
    obtain ⟨hnil, -⟩ | hend := finish_cases h
    · exact absurd hnil hfields
    · exact ⟨_, [], [], hend⟩
  | cons c cs ih =>
    obtain ⟨r', hnext, hrest⟩ := Option.bind_eq_some_iff.mp h
    obtain ⟨hsame, hrecords⟩ | rfl | rfl := next_cases hnext
    · obtain ⟨field, others, more, hall⟩ := ih (hsame ▸ hfields) hrest
      exact ⟨field, others, more, by rw [hall, hsame, hrecords]⟩
    · obtain ⟨field, others, more, hall⟩ := ih (List.concat_ne_nil _ _) hrest
      exact ⟨.ofList r.field, field :: others, more, hall.trans (endField_append ..)⟩
    · obtain ⟨more, hall⟩ := records_isPrefix hrest
      exact ⟨.ofList r.field, [], more, hall.symm.trans (endRecord_append r more)⟩

/-- A field that was closed is a field of its record. -/
theorem exists_of_closing (hplace : r.place = .closing) (hrest : rest.head? ≠ some '"')
    (h : r.records? rest = some all) :
    ∃ others more, all = r.records ++ (r.fields ++ .ofList r.field :: others) :: more := by
  have hrecord (h : ∃ cs, r.endRecord.records? cs = some all) :
      ∃ others more, all = r.records ++ (r.fields ++ .ofList r.field :: others) :: more := by
    obtain ⟨cs, h⟩ := h
    obtain ⟨more, hall⟩ := records_isPrefix h
    exact ⟨[], more, hall.symm.trans (endRecord_append r more)⟩
  cases rest with
  | nil =>
    rw [Reader.records?, Reader.finish, hplace] at h
    exact ⟨[], [], (Option.some.inj h).symm⟩
  | cons c rest =>
    have hc : c ≠ '"' := fun hc => hrest (congrArg some hc)
    obtain ⟨r', hnext, hall⟩ := Option.bind_eq_some_iff.mp h
    rw [Reader.next, hplace] at hnext
    have hend : r.end? c = some r' := (if_neg hc).symm.trans hnext
    unfold Reader.end? at hend
    split at hend
    · obtain rfl := Option.some.inj hend
      obtain ⟨field, others, more, rfl⟩ := exists_of_records? (List.concat_ne_nil _ _) hall
      exact ⟨field :: others, more, endField_append ..⟩
    · split at hend
      · obtain rfl := Option.some.inj hend
        exact hrecord ⟨rest, hall⟩
      · obtain ⟨-, hreturn⟩ := Option.ite_none_right_eq_some.mp hend
        obtain rfl := Option.some.inj hreturn
        cases rest with
        | nil => cases hall
        | cons d rest =>
          obtain ⟨r', hnext, hall⟩ := Option.bind_eq_some_iff.mp hall
          obtain ⟨-, hline⟩ := Option.ite_none_right_eq_some.mp hnext
          obtain rfl := Option.some.inj hline
          exact hrecord ⟨rest, hall⟩

/-! ## The last field of a record, written between quotes -/

/-- **Without a quote in it** the field is read as it was written. -/
theorem records?_closed (h : '"' ∉ cs) :
    (begin fields records).records? ('"' :: (cs ++ '"' :: '\n' :: rest)) =
      (begin [] (records ++ [fields ++ [.ofList cs]])).records? rest := by
  have hopen : (begin fields records).next '"' =
      some { begin fields records with place := .quoted } := rfl
  have hline : ('\n' :: rest).head? ≠ some '"' := by
    rw [List.head?_cons]
    decide
  rw [records?_cons hopen, records?_quoted rfl, unquote_append h hline, Option.bind_some]
  exact records?_cons rfl

/-- **With a quote in it** the field is read as another one, or the record has more fields. -/
theorem exists_of_quoted
    (h : (begin fields records).records? ('"' :: (cs ++ '"' :: '\n' :: rest)) = some all) :
    ∃ field others more, all = records ++ (fields ++ .ofList field :: others) :: more ∧
      (field = cs → '"' ∉ cs) := by
  have hopen : (begin fields records).next '"' =
      some { begin fields records with place := .quoted } := rfl
  rw [records?_cons hopen, records?_quoted rfl] at h
  obtain ⟨x, hx, hrest⟩ := Option.bind_eq_some_iff.mp h
  obtain ⟨others, more, hall⟩ := exists_of_closing rfl (unquote_rest hx) hrest
  refine ⟨x.1, others, more, hall, ?_⟩
  intro hfield
  have hread : unquote (cs ++ '"' :: '\n' :: rest) = some (List.replicate 0 '"' ++ cs, x.2) := by
    rw [hx, ← hfield]
    rfl
  exact (not_mem_of_unquote hread).2

end ArcadeUplink.Csv
