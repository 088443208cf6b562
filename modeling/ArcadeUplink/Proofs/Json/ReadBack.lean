import ArcadeUplink.Json.Reader

/-!
# Reading what was written

The reader finds in the text of a value the value again: `parse?_render`. Strings may hold any
character, escaped or not; of an object the members come back in increasing order of their
names, and of two members of one name the later (`ordered`). A number has to be one that the
reader keeps exact; floating-point numbers are left out (`Whole`).

The proof goes from the inside to the outside, each law with a rest that is left as it is:
characters, strings, whole numbers, and then values by induction (`Whole.isReadBack`). The
kind of a value is known by its first character (`Whole.chars_eq_cons`), so the reader takes
the right way; the fuel is enough because each step leaves a shorter text.
-/

namespace ArcadeUplink.Json

/-! ## Strings -/

section Strings

variable {c : Char} {rest : List Char}

/-- A string that was read, with one more character in front. -/
def withChar (c : Char) (r : List Char × List Char) : List Char × List Char := (c :: r.1, r.2)

theorem bind_withChar (o : Option (List Char × List Char)) (c : Char) :
    (do let (s, r) ← o; some (c :: s, r)) = o.map (withChar c) := by
  cases o <;> rfl

theorem readString_plain (hquote : c ≠ '"') (hslash : c ≠ '\\') (hc : ¬c.toNat < 0x20) :
    readString (c :: rest) = (readString rest).map (withChar c) := by
  rw [readString, if_neg (not_or.mpr ⟨hc, hslash⟩)]
  · exact bind_withChar _ _
  all_goals simp [hquote, hslash]

theorem readString_short {e : Char} (h : shortEscape? e = some c) :
    readString ('\\' :: e :: rest) = (readString rest).map (withChar c) := by
  have hne : e ≠ 'u' := by
    rintro rfl
    cases h
  rw [readString, h]
  · exact bind_withChar _ _
  all_goals simp [hne]

/-- An escaped unit that is no surrogate is a character, whatever follows. -/
theorem readString_unit {a b x y : Char} {n : Nat} (h : unit? a b x y = some n) (hn : n < 0xD800)
    (rest : List Char) : readString ('\\' :: 'u' :: a :: b :: x :: y :: rest) =
      (readString rest).map (withChar (Char.ofNat n)) := by
  -- the reader looks ahead for a second unit, with which the first might be a pair
  by_cases hpair : ∃ e f g i r, rest = '\\' :: 'u' :: e :: f :: g :: i :: r
  · obtain ⟨e, f, g, i, r, rfl⟩ := hpair
    rw [readString, h, Option.bind_eq_bind, Option.bind_some, if_neg (by omega), if_neg (by omega)]
    exact bind_withChar _ _
  · rw [readString, h, Option.bind_eq_bind, Option.bind_some, if_neg (by omega)]
    · exact bind_withChar _ _
    · exact fun e f g i r hr => hpair ⟨e, f, g, i, r, hr⟩

theorem unit?_control {n : Nat} (h : n < 0x20) :
    unit? '0' '0' (Text.Hex.digit (n / 16)) (Text.Hex.digit (n % 16)) = some n := by
  have hzero : Text.Hex.value? '0' = some 0 := rfl
  simp only [unit?, hzero, Text.Hex.value?_digit_of_lt (n := n / 16) (by omega),
    Text.Hex.value?_digit_of_lt (n := n % 16) (by omega), Option.bind_eq_bind, Option.bind_some]
  exact congrArg some (by omega)

/-- A character is written behind a backslash, by its number, or as it stands. -/
theorem stringChar_cases (c : Char) :
    (∃ e, stringChar c = ['\\', e] ∧ shortEscape? e = some c) ∨
      (stringChar c = controlEscape c ∧ c.toNat < 0x20) ∨
      (stringChar c = [c] ∧ c ≠ '"' ∧ c ≠ '\\' ∧ ¬c.toNat < 0x20) := by
  by_cases hshort : c ∈ ['"', '\\', '\x08', '\x0c', '\n', '\r', '\t']
  · simp only [List.mem_cons, List.not_mem_nil, or_false] at hshort
    left
    obtain rfl | rfl | rfl | rfl | rfl | rfl | rfl := hshort <;> exact ⟨_, rfl, rfl⟩
  · simp only [List.mem_cons, List.not_mem_nil, or_false, not_or] at hshort
    obtain ⟨hquote, hslash, hb, hf, hn, hr, ht⟩ := hshort
    right
    rw [stringChar, if_neg hquote, if_neg hslash, if_neg hb, if_neg hf, if_neg hn, if_neg hr,
      if_neg ht]
    by_cases hc : c.toNat < 0x20
    · exact .inl ⟨if_pos hc, hc⟩
    · exact .inr ⟨if_neg hc, hquote, hslash, hc⟩

/-- **Every character is read as it was written**, escaped or not. -/
theorem readString_stringChar (c : Char) (rest : List Char) :
    readString (stringChar c ++ rest) = (readString rest).map (withChar c) := by
  obtain ⟨e, hc, he⟩ | ⟨hc, hlt⟩ | ⟨hc, hquote, hslash, hlt⟩ := stringChar_cases c
  · rw [hc]
    exact readString_short he
  · have hunit := readString_unit (unit?_control hlt) (by omega) rest
    rw [hc]
    rwa [Char.ofNat_toNat] at hunit
  · rw [hc]
    exact readString_plain hquote hslash hlt

/-- **A written string is read back**, and what follows it is left. -/
theorem readString_flatMap (cs rest : List Char) :
    readString (cs.flatMap stringChar ++ '"' :: rest) = some (cs, rest) := by
  induction cs with
  | nil => rfl
  | cons c cs ih =>
    rw [List.flatMap_cons, List.append_assoc, readString_stringChar, ih]
    rfl

end Strings

/-! ## Numbers -/

/-- A text that ends here, or goes on with what stands behind a value. -/
inductive Stops : List Char → Prop where
  | nil : Stops []
  | comma (cs : List Char) : Stops (',' :: cs)
  | bracket (cs : List Char) : Stops (']' :: cs)
  | brace (cs : List Char) : Stops ('\x7d' :: cs)

section Numbers

variable {rest : List Char}

theorem Stops.noDigitHead (h : Stops rest) : Decimal.NoDigitHead rest := by
  cases h with
  | nil => trivial
  | _ => rfl

theorem Stops.readFraction (h : Stops rest) : readFraction rest = some ([], rest) := by
  cases h <;> rfl

theorem Stops.readExponent (h : Stops rest) : readExponent rest = some (none, rest) := by
  cases h <;> rfl

theorem readUnsigned_natChars (negative : Bool) (n : Nat) {i : Int}
    (hi : i = if negative then -(n : Int) else n) (hexact : isExact i = true)
    (hsign : ¬(negative = true ∧ n = 0)) (h : Stops rest) :
    readUnsigned negative (Decimal.natChars n ++ rest) = some (.int i, rest) := by
  have hspan := Decimal.spanDigits_append (fun _ => Decimal.isDigit_of_mem_natChars (n := n))
    h.noDigitHead
  have hfront : ¬(Decimal.natChars n = [] ∨
      ((Decimal.natChars n).head? = some '0' ∧ Decimal.natChars n ≠ ['0'])) := by
    rintro (hnil | ⟨hhead, hne⟩)
    · exact Decimal.natChars_ne_nil n hnil
    · exact hne (Decimal.natChars_head n hhead)
  have hvalue : numberValue negative (Decimal.natChars n) [] none = some (.int i) := by
    unfold numberValue
    rw [Decimal.ofDigits_natChars]
    exact hi ▸ if_pos ⟨rfl, rfl, hi ▸ hexact, hsign⟩
  unfold readUnsigned
  simp only [hspan, hfront, if_false, h.readFraction, h.readExponent, hvalue, Option.bind_eq_bind,
    Option.bind_some]

/-- **A written number is read back**, as long as the reader keeps numbers of its size exact. -/
theorem readNumber_intChars {i : Int} (hexact : isExact i = true) (h : Stops rest) :
    readNumber (Decimal.intChars i ++ rest) = some (.int i, rest) := by
  cases i with
  | negSucc n => exact readUnsigned_natChars true (n + 1) rfl hexact (by simp) h
  | ofNat n =>
    have hread := readUnsigned_natChars false n rfl hexact (by simp) h
    obtain ⟨d, ds, hds, hd⟩ := Decimal.natChars_eq_cons n
    have hsign : d ≠ '-' := by
      rintro rfl
      cases hd
    have hchars : Decimal.intChars (Int.ofNat n) ++ rest = d :: (ds ++ rest) :=
      congrArg (· ++ rest) hds
    rw [hchars, readNumber.eq_2 _ fun cs heq => hsign (List.cons.inj heq).1, ← hchars]
    exact hread

end Numbers

/-! ## Values -/

/-- **A value of whole numbers**, each of which satisfies `P`: there is no floating-point number in
it. -/
inductive Whole (P : Int → Prop) : Json → Prop where
  | null : Whole P .null
  | bool (b : Bool) : Whole P (.bool b)
  | int {i : Int} (h : P i) : Whole P (.int i)
  | text (s : String) : Whole P (.text s)
  | list {vs : List Json} (h : ∀ v ∈ vs, Whole P v) : Whole P (.list vs)
  | object {ms : List (String × Json)} (h : ∀ m ∈ ms, Whole P m.2) : Whole P (.object ms)

theorem whole_option {α : Type} {P : Int → Prop} {f : α → Json} (h : ∀ a, Whole P (f a))
    (x : Option α) : Whole P (option f x) := by
  cases x with
  | none => exact .null
  | some a => exact h a

mutual

/-- A value with the members of each object in increasing order of their names, one to a name: of
two members of one name the later counts. -/
def ordered : Json → Json
  | .list vs => .list (orderedItems vs)
  | .object ms => .object (SortedMap.ofList (orderedMembers ms)).entries
  | .null => .null
  | .bool b => .bool b
  | .int i => .int i
  | .real x => .real x
  | .text s => .text s

def orderedItems : List Json → List Json
  | [] => []
  | v :: vs => ordered v :: orderedItems vs

def orderedMembers : List (String × Json) → List (String × Json)
  | [] => []
  | (k, v) :: ms => (k, ordered v) :: orderedMembers ms

end

theorem orderedItems_eq_map (vs : List Json) : orderedItems vs = vs.map ordered := by
  induction vs with
  | nil => rfl
  | cons v vs ih => rw [orderedItems, ih, List.map_cons]

/-- What the first character of a value tells. -/
inductive Kind where
  | null
  | bool (b : Bool)
  | number
  | text
  | list
  | object
deriving DecidableEq

def kind : Json → Kind
  | .null => .null
  | .bool b => .bool b
  | .int _ => .number
  | .real _ => .number
  | .text _ => .text
  | .list _ => .list
  | .object _ => .object

/-- What begins with a character, if any value does. -/
def Kind.of? (c : Char) : Option Kind :=
  if c.isDigit ∨ c = '-' then some .number
  else if c = 'n' then some .null
  else if c = 't' then some (.bool true)
  else if c = 'f' then some (.bool false)
  else if c = '"' then some .text
  else if c = '[' then some .list
  else if c = '\x7b' then some .object
  else none

/-- **The first character tells the kind of a value.** -/
theorem Whole.chars_eq_cons {P : Int → Prop} {v : Json} (h : Whole P v) :
    ∃ c cs, v.chars = c :: cs ∧ Kind.of? c = some v.kind := by
  cases h with
  | null => exact ⟨_, _, rfl, rfl⟩
  | bool b => cases b <;> exact ⟨_, _, rfl, rfl⟩
  | @int i _ =>
    cases i with
    | ofNat n =>
      obtain ⟨d, ds, hds, hd⟩ := Decimal.natChars_eq_cons n
      exact ⟨d, ds, hds, if_pos (.inl hd)⟩
    | negSucc n => exact ⟨_, _, rfl, rfl⟩
  | text s => exact ⟨_, _, rfl, rfl⟩
  | @list vs _ => cases vs <;> exact ⟨_, _, rfl, rfl⟩
  | @object ms _ =>
    match ms with
    | [] => exact ⟨_, _, rfl, rfl⟩
    | (k, v) :: ms => exact ⟨_, _, rfl, rfl⟩

/-- Whether a value is read back from its text, up to the order of members, with as much fuel as
the text is long. -/
def IsReadBack (v : Json) : Prop :=
  ∀ fuel rest, (chars v).length ≤ fuel → Stops rest →
    readValue fuel (chars v ++ rest) = some (v.ordered, rest)

section Values

variable {c : Char} {cs rest : List Char} {fuel : Nat} {v : Json} {vs : List Json}
  {ms : List (String × Json)}

theorem skipGap_cons (h : isGap c = false) : skipGap (c :: cs) = c :: cs := by
  rw [skipGap, List.dropWhile_cons_of_neg (by simp [h])]

/-- No value begins with a blank. -/
theorem skipGap_of_kind {k : Kind} (h : Kind.of? c = some k) : skipGap (c :: cs) = c :: cs := by
  refine skipGap_cons (Bool.eq_false_iff.mpr fun hgap => ?_)
  have hnone : Kind.of? c = none := by
    simp only [isGap, Bool.or_eq_true, decide_eq_true_eq] at hgap
    rcases hgap with ((rfl | rfl) | rfl) | rfl <;> decide
  exact nomatch hnone.symm.trans h

/-- What begins like a number is read as one. -/
theorem readValue_number (h : Kind.of? c = some .number) :
    readValue (fuel + 1) (c :: cs) = readNumber (c :: cs) := by
  have hne {d : Char} (hd : Kind.of? d ≠ some .number) : c ≠ d := by
    rintro rfl
    exact hd h
  rw [readValue, skipGap_of_kind h]
  split
  · next heq => exact absurd (List.cons.inj heq).1 (hne (by decide))
  · next heq => exact absurd (List.cons.inj heq).1 (hne (by decide))
  · next heq => exact absurd (List.cons.inj heq).1 (hne (by decide))
  · next heq => exact absurd (List.cons.inj heq).1 (hne (by decide))
  · next heq => exact absurd (List.cons.inj heq).1 (hne (by decide))
  · next heq => exact absurd (List.cons.inj heq).1 (hne (by decide))
  · rfl

theorem readValue_text (cs : List Char) : readValue (fuel + 1) ('"' :: cs) =
    (readString cs).map fun r => (.text (.ofList r.1), r.2) := rfl

theorem readValue_list {left left' : List Char} (hgap : skipGap (c :: cs) = c :: cs)
    (hopen : c ≠ ']') (hfirst : readValue fuel (c :: cs) = some (v, left))
    (hothers : readItems fuel left = some (vs, left')) :
    readValue (fuel + 1) ('[' :: c :: cs) = some (.list (v :: vs), left') := by
  simp only [readValue, skipGap_cons (c := '[') rfl, hgap]
  split
  · next heq => exact absurd (List.cons.inj heq).1 hopen
  · simp only [hfirst, hothers, Option.bind_eq_bind, Option.bind_some]

theorem readValue_object {left left' : List Char} {m : String × Json}
    (hfirst : readMember fuel ('"' :: cs) = some (m, left))
    (hothers : readMembers fuel left = some (ms, left')) :
    readValue (fuel + 1) ('\x7b' :: '"' :: cs) =
      some (.object (SortedMap.ofList (m :: ms)).entries, left') := by
  refine Option.bind_eq_some_iff.mpr ⟨(m, left), hfirst, ?_⟩
  exact Option.bind_eq_some_iff.mpr ⟨(ms, left'), hothers, rfl⟩

theorem stops_itemChars (vs : List Json) (rest : List Char) : Stops (itemChars vs ++ rest) := by
  cases vs with
  | nil => exact .bracket _
  | cons v vs => exact .comma _

theorem stops_memberChars (ms : List (String × Json)) (rest : List Char) :
    Stops (memberChars ms ++ rest) := by
  match ms with
  | [] => exact .brace _
  | (k, v) :: ms => exact .comma _

/-- The items behind the first are read as they were written. -/
theorem readItems_itemChars (h : ∀ v ∈ vs, IsReadBack v) (hfuel : (itemChars vs).length ≤ fuel) :
    readItems fuel (itemChars vs ++ rest) = some (orderedItems vs, rest) := by
  induction vs generalizing fuel with
  | nil =>
    cases fuel with
    | zero => cases hfuel
    | succ fuel => rfl
  | cons v vs ih =>
    cases fuel with
    | zero => cases hfuel
    | succ fuel =>
      have hlen : (itemChars (v :: vs)).length = (chars v).length + (itemChars vs).length + 1 := by
        simp [itemChars]
      have hfirst := h v List.mem_cons_self fuel (itemChars vs ++ rest) (by omega)
        (stops_itemChars vs rest)
      have hrest : readItems fuel (itemChars vs ++ rest) = some (orderedItems vs, rest) :=
        ih (fun w hw => h w (List.mem_cons_of_mem _ hw)) (by omega)
      simp only [itemChars, List.cons_append, List.append_assoc, readItems,
        skipGap_cons (c := ',') rfl, hfirst, hrest, Option.bind_eq_bind, Option.bind_some,
        orderedItems]

theorem readMember_chars (k : String) (h : IsReadBack v)
    (hfuel : (stringChars k ++ ':' :: chars v).length ≤ fuel) (hrest : Stops rest) :
    readMember fuel (stringChars k ++ ':' :: (chars v ++ rest)) = some ((k, v.ordered), rest) := by
  cases fuel with
  | zero => cases hfuel
  | succ fuel =>
    have hname : readString (k.toList.flatMap stringChar ++ '"' :: ':' :: (chars v ++ rest)) =
        some (k.toList, ':' :: (chars v ++ rest)) := readString_flatMap ..
    have hvalue := h fuel rest (by simp at hfuel; omega) hrest
    simp only [stringChars, List.cons_append, List.append_assoc, List.nil_append, readMember,
      skipGap_cons (c := '"') rfl, skipGap_cons (c := ':') rfl, hname, hvalue, Option.bind_eq_bind,
      Option.bind_some, String.ofList_toList]

theorem readMembers_memberChars (h : ∀ m ∈ ms, IsReadBack m.2)
    (hfuel : (memberChars ms).length ≤ fuel) :
    readMembers fuel (memberChars ms ++ rest) = some (orderedMembers ms, rest) := by
  induction ms generalizing fuel with
  | nil =>
    cases fuel with
    | zero => cases hfuel
    | succ fuel => rfl
  | cons m ms ih =>
    obtain ⟨k, v⟩ := m
    cases fuel with
    | zero => cases hfuel
    | succ fuel =>
      have hlen : (memberChars ((k, v) :: ms)).length =
          (stringChars k ++ ':' :: chars v).length + (memberChars ms).length + 1 := by
        simp [memberChars]; omega
      have hv : IsReadBack v := h (k, v) List.mem_cons_self
      have hfirst := readMember_chars k hv (show _ ≤ fuel by omega) (stops_memberChars ms rest)
      have hrest : readMembers fuel (memberChars ms ++ rest) = some (orderedMembers ms, rest) :=
        ih (fun w hw => h w (List.mem_cons_of_mem _ hw)) (by omega)
      simp only [memberChars, List.cons_append, List.append_assoc, readMembers,
        skipGap_cons (c := ',') rfl, hfirst, hrest, Option.bind_eq_bind, Option.bind_some,
        orderedMembers]

/-- The text of a value is not empty, so there is fuel for it. -/
theorem Whole.isReadBack_of_succ {P : Int → Prop} (hv : Whole P v)
    (h : ∀ fuel rest, (chars v).length ≤ fuel + 1 → Stops rest →
      readValue (fuel + 1) (chars v ++ rest) = some (v.ordered, rest)) : IsReadBack v := by
  intro fuel rest hfuel hrest
  cases fuel with
  | zero =>
    obtain ⟨c, cs, hc, -⟩ := hv.chars_eq_cons
    rw [hc] at hfuel
    cases hfuel
  | succ fuel => exact h fuel rest hfuel hrest

theorem isReadBack_list {P : Int → Prop} (hvs : ∀ v ∈ vs, Whole P v)
    (ih : ∀ v ∈ vs, IsReadBack v) : IsReadBack (.list vs) := by
  refine (Whole.list hvs).isReadBack_of_succ fun fuel rest hfuel _ => ?_
  cases vs with
  | nil => rfl
  | cons v vs =>
    have hlen : (chars (.list (v :: vs))).length =
        (chars v).length + (itemChars vs).length + 1 := by
      simp [chars]
    obtain ⟨c, cs, hc, hkind⟩ := (hvs v List.mem_cons_self).chars_eq_cons
    have hopen : c ≠ ']' := by
      rintro rfl
      cases hkind
    have htext : chars (.list (v :: vs)) ++ rest =
        '[' :: c :: (cs ++ (itemChars vs ++ rest)) := by
      simp [chars, hc]
    have hfirst := ih v List.mem_cons_self fuel (itemChars vs ++ rest) (by omega)
      (stops_itemChars vs rest)
    have hothers : readItems fuel (itemChars vs ++ rest) = some (orderedItems vs, rest) :=
      readItems_itemChars (fun w hw => ih w (List.mem_cons_of_mem _ hw)) (by omega)
    rw [hc, List.cons_append] at hfirst
    rw [htext]
    exact readValue_list (skipGap_of_kind hkind) hopen hfirst hothers

theorem isReadBack_object {P : Int → Prop} (hms : ∀ m ∈ ms, Whole P m.2)
    (ih : ∀ m ∈ ms, IsReadBack m.2) : IsReadBack (.object ms) := by
  refine (Whole.object hms).isReadBack_of_succ fun fuel rest hfuel _ => ?_
  match ms, ih with
  | [], _ => rfl
  | (k, v) :: ms, ih =>
    have hlen : (chars (.object ((k, v) :: ms))).length =
        (stringChars k ++ ':' :: chars v).length + (memberChars ms).length + 1 := by
      simp [chars]; omega
    have htext : chars (.object ((k, v) :: ms)) ++ rest =
        '\x7b' :: (stringChars k ++ ':' :: (chars v ++ (memberChars ms ++ rest))) := by
      simp [chars]
    have hv : IsReadBack v := ih (k, v) List.mem_cons_self
    have hfirst := readMember_chars k hv (show _ ≤ fuel by omega) (stops_memberChars ms rest)
    have hothers : readMembers fuel (memberChars ms ++ rest) = some (orderedMembers ms, rest) :=
      readMembers_memberChars (fun m hm => ih m (List.mem_cons_of_mem _ hm)) (by omega)
    rw [htext]
    exact readValue_object hfirst hothers

/-- **Every written value is read back**, its members in their order. -/
theorem Whole.isReadBack (h : Whole (fun i => isExact i = true) v) : IsReadBack v := by
  induction h with
  | null => exact Whole.null.isReadBack_of_succ (P := fun _ => True) fun _ _ _ _ => rfl
  | bool b =>
    refine (Whole.bool b).isReadBack_of_succ (P := fun _ => True) fun _ _ _ _ => ?_
    cases b <;> rfl
  | int hi =>
    have hwhole := Whole.int (P := fun i => isExact i = true) hi
    refine hwhole.isReadBack_of_succ fun fuel rest _ hrest => ?_
    obtain ⟨c, cs, hc, hkind⟩ := hwhole.chars_eq_cons
    rw [hc, List.cons_append, readValue_number hkind, ← List.cons_append, ← hc]
    exact readNumber_intChars hi hrest
  | text s =>
    refine (Whole.text s).isReadBack_of_succ (P := fun _ => True) fun fuel rest _ _ => ?_
    have hread := readString_flatMap s.toList rest
    simp only [chars, stringChars, List.cons_append, List.append_assoc, List.nil_append,
      readValue_text, hread, Option.map_some, String.ofList_toList, ordered]
  | list hvs ih => exact isReadBack_list hvs ih
  | object hms ih => exact isReadBack_object hms ih

/-- **A written text is read as the value it was written from**, its members in their order. -/
theorem parse?_render (h : Whole (fun i => isExact i = true) v) :
    parse? v.render = some v.ordered := by
  have hread := h.isReadBack (2 * v.chars.length + 2) [] (by omega) .nil
  rw [List.append_nil] at hread
  unfold parse? render
  simp only [String.toList_ofList, hread]
  rfl

end Values

end ArcadeUplink.Json
