import ArcadeUplink.Log.Entry
import Mathlib.Data.List.Infix

/-!
# What is left of a long message

A message of at most 511 bytes is kept whole. Of a longer one the longest beginning and the
longest end of at most 253 bytes are kept, around a marker (`message_kept`). Bytes and
characters do not go together: a character takes up to four bytes, so an offset may lie within
one, and the search for a boundary moves it by up to three bytes. That it always finds one is
`exists_boundary`; that the two searches stay clear of each other is a matter of the numbers.
-/

namespace ArcadeUplink

namespace Text

variable {cs as bs : List Char} {m n : Nat}

/-! ## Boundaries -/

theorem byteSize_ofList (cs : List Char) : (String.ofList cs).utf8ByteSize = byteSize cs := by
  induction cs with
  | nil => rfl
  | cons c cs ih =>
    rw [String.ofList_cons, String.utf8ByteSize_append, String.utf8ByteSize_singleton, ih,
      byteSize_cons]

theorem byteSize_toList (s : String) : byteSize s.toList = s.utf8ByteSize := by
  rw [← byteSize_ofList, String.ofList_toList]

theorem byteSize_eq_zero (h : byteSize cs = 0) : cs = [] := by
  cases cs with
  | nil => rfl
  | cons c cs =>
    have hc := c.utf8Size_pos
    rw [byteSize_cons] at h
    omega

theorem byteSize_le_of_prefix (h : as <+: bs) : byteSize as ≤ byteSize bs := by
  obtain ⟨rest, rfl⟩ := h
  rw [byteSize_append]
  exact Nat.le_add_right _ _

/-- Of two beginnings of a text the one with fewer bytes is a beginning of the other. -/
theorem prefix_of_byteSize_le (ha : as <+: cs) (hb : bs <+: cs) (h : byteSize as ≤ byteSize bs) :
    as <+: bs := by
  obtain hab | ⟨rest, rfl⟩ := List.prefix_or_prefix_of_prefix ha hb
  · exact hab
  · rw [byteSize_append] at h
    have hrest : rest = [] := byteSize_eq_zero (by omega)
    rw [hrest, List.append_nil]

/-- **A boundary is never far**: of four offsets in a row one is a boundary. -/
theorem exists_boundary (h : n ≤ byteSize cs) :
    ∃ i, isBoundary cs i = true ∧ i ≤ n ∧ n < i + 4 := by
  simp only [isBoundary_iff]
  induction cs generalizing n with
  | nil => exact ⟨0, ⟨[], [], rfl, rfl⟩, Nat.zero_le n, by rw [byteSize_nil] at h; omega⟩
  | cons c cs ih =>
    have hc := c.utf8Size_le_four
    rw [byteSize_cons] at h
    by_cases hn : n < c.utf8Size
    · exact ⟨0, ⟨[], c :: cs, rfl, rfl⟩, Nat.zero_le n, by omega⟩
    · obtain ⟨i, ⟨as, bs, rfl, rfl⟩, hle, hlt⟩ := ih (n := n - c.utf8Size) (by omega)
      exact ⟨_, ⟨c :: as, bs, rfl, rfl⟩, by rw [byteSize_cons]; omega, by rw [byteSize_cons]; omega⟩

theorem isBoundary_zero (cs : List Char) : isBoundary cs 0 = true :=
  isBoundary_iff.mpr ⟨[], cs, rfl, rfl⟩

theorem isBoundary_byteSize (cs : List Char) : isBoundary cs (byteSize cs) = true :=
  isBoundary_iff.mpr ⟨cs, [], (List.append_nil cs).symm, rfl⟩

theorem boundaryDown?_zero (cs : List Char) : boundaryDown? cs 0 = some 0 :=
  List.find?_cons_of_pos (isBoundary_zero cs)

theorem boundaryDown?_succ (cs : List Char) (n : Nat) :
    boundaryDown? cs (n + 1) =
      if isBoundary cs (n + 1) then some (n + 1) else boundaryDown? cs n := by
  unfold boundaryDown?
  rw [List.range_succ, List.reverse_append, List.reverse_singleton, List.singleton_append,
    List.find?_cons]
  cases isBoundary cs (n + 1) <;> rfl

/-- **The search downwards** finds the last boundary in front of it. -/
theorem boundaryDown?_found (cs : List Char) (n : Nat) :
    ∃ i, boundaryDown? cs n = some i ∧ isBoundary cs i = true ∧ i ≤ n ∧
      ∀ j ≤ n, isBoundary cs j = true → j ≤ i := by
  induction n with
  | zero =>
    exact ⟨0, boundaryDown?_zero cs, isBoundary_zero cs, Nat.le_refl 0, fun j hj _ => hj⟩
  | succ n ih =>
    rw [boundaryDown?_succ]
    split
    · next hb => exact ⟨n + 1, rfl, hb, Nat.le_refl _, fun j hj _ => hj⟩
    · next hb =>
      obtain ⟨i, hi, hboundary, hle, hlast⟩ := ih
      refine ⟨i, hi, hboundary, Nat.le_succ_of_le hle, fun j hj hjb => hlast j ?_ hjb⟩
      have hne : j ≠ n + 1 := fun heq => hb (heq ▸ hjb)
      omega

/-- **The search upwards** finds the first boundary in front of it. -/
theorem boundaryUp?_found (h : n ≤ byteSize cs) :
    ∃ i, boundaryUp? cs n = some i ∧ isBoundary cs i = true ∧ n ≤ i ∧
      ∀ j, n ≤ j → isBoundary cs j = true → i ≤ j := by
  cases hfound : boundaryUp? cs n with
  | none =>
    have hend := List.find?_range'_eq_none.mp hfound (byteSize cs) h (by omega)
    rw [isBoundary_byteSize] at hend
    cases hend
  | some i =>
    obtain ⟨hboundary, hmem, hfirst⟩ := List.find?_range'_eq_some.mp hfound
    refine ⟨i, rfl, hboundary, (List.mem_range'_1.mp hmem).1, fun j hj hjb => ?_⟩
    by_contra hlt
    have hnot := hfirst j hj (Nat.lt_of_not_le hlt)
    rw [hjb] at hnot
    cases hnot

/-- A character of two bytes at the second offset is gone round by either search. -/
example : boundaryDown? ['a', 'é', 'b'] 2 = some 1 ∧ boundaryUp? ['a', 'é', 'b'] 2 = some 3 := by
  decide

end Text

namespace Log

open Text

variable {cs head tail : List Char} {m n : Nat}

/-! ## The beginning and the end -/

/-- **The beginning is found**, the longest one of at most `n` bytes; and it has nearly so many, if
the text has. -/
theorem head?_found (cs : List Char) (n : Nat) :
    ∃ head rest, head? n cs = some head ∧ cs = head ++ rest ∧ byteSize head ≤ n ∧
      (∀ p q, cs = p ++ q → byteSize p ≤ n → byteSize p ≤ byteSize head) ∧
      (n ≤ byteSize cs → boundaryDown? cs n = some (byteSize head) ∧ n < byteSize head + 4) := by
  obtain ⟨i, hi, hboundary, hle, hlast⟩ := boundaryDown?_found cs (min n (byteSize cs))
  obtain ⟨head, rest, hcs, rfl⟩ := isBoundary_iff.mp hboundary
  refine ⟨head, rest, ?_, hcs, hle.trans (Nat.min_le_left _ _), ?_, ?_⟩
  · rw [head?, hi, Option.bind_some, cutAt?_eq_some_iff.mpr ⟨hcs, rfl⟩, Option.map_some]
  · rintro p q rfl hp
    refine hlast _ (Nat.le_min.mpr ⟨hp, ?_⟩) (isBoundary_iff.mpr ⟨p, q, rfl, rfl⟩)
    exact byteSize_le_of_prefix (List.prefix_append p q)
  · intro hn
    rw [Nat.min_eq_left hn] at hi hlast
    obtain ⟨j, hj, hjle, hjlt⟩ := exists_boundary hn
    have := hlast j hjle hj
    exact ⟨hi, by omega⟩

/-- **The end is found**, the longest one of at most `n` bytes; and it has nearly so many, if the
text has. -/
theorem tail?_found (cs : List Char) (n : Nat) :
    ∃ tail rest, tail? n cs = some tail ∧ cs = rest ++ tail ∧ byteSize tail ≤ n ∧
      (∀ p q, cs = p ++ q → byteSize q ≤ n → byteSize q ≤ byteSize tail) ∧
      boundaryUp? cs (byteSize cs - n) = some (byteSize rest) ∧
      (n ≤ byteSize cs → n < byteSize tail + 4) := by
  obtain ⟨i, hi, hboundary, hle, hfirst⟩ := boundaryUp?_found (Nat.sub_le (byteSize cs) n)
  obtain ⟨rest, tail, hcs, rfl⟩ := isBoundary_iff.mp hboundary
  have hsize : byteSize cs = byteSize rest + byteSize tail := by rw [hcs, byteSize_append]
  refine ⟨tail, rest, ?_, hcs, by omega, ?_, hi, ?_⟩
  · rw [tail?, hi, Option.bind_some, cutAt?_eq_some_iff.mpr ⟨hcs, rfl⟩, Option.map_some]
  · rintro p q rfl hq
    rw [byteSize_append] at hsize hfirst
    have := hfirst (byteSize p) (by omega) (isBoundary_iff.mpr ⟨p, q, rfl, rfl⟩)
    omega
  · intro hn
    by_cases hend : byteSize cs - n + 3 ≤ byteSize cs
    · obtain ⟨j, hj, hjle, hjlt⟩ := exists_boundary hend
      have := hfirst j (by omega) hj
      omega
    · omega

/-! ## The message that is kept -/

/-- What is kept of a text that does not fit: a beginning and an end of it. -/
structure Elision (text kept head tail : String) : Prop where
  shape : kept = head ++ " ... " ++ tail
  /-- The two do not overlap. -/
  apart : ∃ middle, text = head ++ middle ++ tail
  head_le : head.utf8ByteSize ≤ 253
  head_longest : ∀ p q, text = p ++ q → p.utf8ByteSize ≤ 253 → p.utf8ByteSize ≤ head.utf8ByteSize
  tail_le : tail.utf8ByteSize ≤ 253
  tail_longest : ∀ p q, text = p ++ q → q.utf8ByteSize ≤ 253 → q.utf8ByteSize ≤ tail.utf8ByteSize
  size_ge : 505 ≤ kept.utf8ByteSize
  size_le : kept.utf8ByteSize ≤ 511
  /-- Both searches for a boundary end within the text, -/
  down : boundaryDown? text.toList 253 = some head.utf8ByteSize
  up : boundaryUp? text.toList (text.utf8ByteSize - 253) =
    some (text.utf8ByteSize - tail.utf8ByteSize)
  /-- and it can be cut at either boundary. -/
  cut_head : head? 253 text.toList = some head.toList
  cut_tail : tail? 253 text.toList = some tail.toList
  /-- In bytes: what is in front of the one boundary, the marker, and what is behind the other. -/
  bytes : kept.toByteArray = text.toByteArray.extract 0 head.utf8ByteSize ++ " ... ".toByteArray ++
    text.toByteArray.extract (text.utf8ByteSize - tail.utf8ByteSize) text.utf8ByteSize

theorem half_maxBytes : half maxBytes = 253 := by decide

/-- The beginning and the end of a text that is long enough stay clear of each other. -/
theorem exists_middle {front back : List Char} (hfront : cs = head ++ back)
    (hback : cs = front ++ tail) (h : byteSize head + byteSize tail ≤ byteSize cs) :
    ∃ middle, cs = head ++ middle ++ tail := by
  have hsize : byteSize cs = byteSize front + byteSize tail := by rw [hback, byteSize_append]
  have hhead : head <+: cs := hfront ▸ List.prefix_append head back
  have hrest : front <+: cs := hback ▸ List.prefix_append front tail
  obtain ⟨middle, rfl⟩ := prefix_of_byteSize_le hhead hrest (by omega)
  exact ⟨middle, hback⟩

theorem toList_eq_of_append {text p q : String} (h : text = p ++ q) :
    text.toList = p.toList ++ q.toList := by
  rw [h, String.toList_append]

/-- What stands between two texts is what lies between their bytes. -/
theorem bytes_of_append {text head middle tail : String} (h : text = head ++ middle ++ tail) :
    text.toByteArray.extract 0 head.utf8ByteSize = head.toByteArray ∧
      text.toByteArray.extract (text.utf8ByteSize - tail.utf8ByteSize) text.utf8ByteSize =
        tail.toByteArray := by
  have hsize : text.utf8ByteSize - tail.utf8ByteSize = (head ++ middle).utf8ByteSize := by
    rw [h, String.utf8ByteSize_append, Nat.add_sub_cancel]
  constructor
  · rw [h, String.append_assoc, String.toByteArray_append]
    exact ByteArray.extract_append_eq_left rfl
  · rw [hsize, h, String.toByteArray_append]
    exact ByteArray.extract_append_eq_right rfl String.utf8ByteSize_append

/-- **A text that does not fit** is kept but for its middle. -/
theorem elision_of_long {text : String} (h : maxBytes < text.utf8ByteSize) :
    ∃ head tail, Elision text (.ofList (fit text.toList)) head tail := by
  have hlong : ¬byteSize text.toList ≤ 511 := by
    rw [byteSize_toList]
    exact Nat.not_le.mpr h
  obtain ⟨head, back, hhead, hfront, hle, hlongest, hdown⟩ := head?_found text.toList 253
  obtain ⟨tail, front, htail, hback, hle', hlongest', hup, hnear'⟩ := tail?_found text.toList 253
  obtain ⟨hdown, hnear⟩ := hdown (by omega)
  specialize hnear' (by omega)
  have hkept : String.ofList (fit text.toList) = .ofList head ++ " ... " ++ .ofList tail := by
    have hfit : fit text.toList = head ++ marker ++ tail := by
      rw [fit, maxBytes, if_neg hlong, ← maxBytes, elide, half_maxBytes, hhead, htail]
      rfl
    rw [hfit, String.ofList_append, String.ofList_append]
    rfl
  have hmiddle : ∃ middle, text = .ofList head ++ middle ++ .ofList tail := by
    obtain ⟨middle, hmiddle⟩ := exists_middle hfront hback (by omega)
    refine ⟨.ofList middle, ?_⟩
    rw [← String.ofList_append, ← String.ofList_append, ← hmiddle, String.ofList_toList]
  have hsize : (String.ofList (fit text.toList)).utf8ByteSize =
      byteSize head + 5 + byteSize tail := by
    rw [hkept, String.utf8ByteSize_append, String.utf8ByteSize_append]
    simp only [byteSize_ofList]
    rfl
  refine ⟨.ofList head, .ofList tail, ?_⟩
  exact {
    shape := hkept
    apart := hmiddle
    head_le := by rwa [byteSize_ofList]
    head_longest := by
      intro p q hpq hp
      rw [← byteSize_toList] at hp ⊢
      rw [byteSize_ofList]
      exact hlongest _ _ (toList_eq_of_append hpq) hp
    tail_le := by rwa [byteSize_ofList]
    tail_longest := by
      intro p q hpq hq
      rw [← byteSize_toList] at hq ⊢
      rw [byteSize_ofList]
      exact hlongest' _ _ (toList_eq_of_append hpq) hq
    size_ge := by omega
    size_le := by omega
    down := by rw [byteSize_ofList, hdown]
    up := by
      have hrest : byteSize text.toList - byteSize tail = byteSize front := by
        rw [hback, byteSize_append, Nat.add_sub_cancel]
      rw [byteSize_ofList, ← byteSize_toList, hup, hrest]
    cut_head := by rw [hhead, String.toList_ofList]
    cut_tail := by rw [htail, String.toList_ofList]
    bytes := by
      obtain ⟨middle, hmiddle⟩ := hmiddle
      obtain ⟨hfirst, hlast⟩ := bytes_of_append hmiddle
      rw [hkept, String.toByteArray_append, String.toByteArray_append, hfirst, hlast] }

theorem fit_of_short {text : String} (h : text.utf8ByteSize ≤ maxBytes) :
    String.ofList (fit text.toList) = text := by
  rw [fit, if_pos (by rwa [byteSize_toList]), String.ofList_toList]

/-- What is kept of a message of any length. -/
structure Kept (text kept : String) : Prop where
  whole : text.utf8ByteSize ≤ 511 → kept = text
  elided : 511 < text.utf8ByteSize → ∃ head tail, Elision text kept head tail
  valid : kept.toByteArray.IsValidUTF8
  /-- Nothing more is left out when it is logged again. -/
  settled : ∀ level path line time, (Record.of level kept path line time).message = kept

/-- **A message is kept** whole if it fits, and else as much as fits of its two ends. -/
theorem message_kept (level : Level) (text path : String) (line : Nat) (time : Int) :
    Kept text (Record.of level text path line time).message := by
  show Kept text (.ofList (fit text.toList))
  have hfits : (String.ofList (fit text.toList)).utf8ByteSize ≤ maxBytes := by
    by_cases h : text.utf8ByteSize ≤ maxBytes
    · rwa [fit_of_short h]
    · obtain ⟨head, tail, helision⟩ := elision_of_long (Nat.lt_of_not_le h)
      exact helision.size_le
  exact {
    whole := fit_of_short
    elided := elision_of_long
    valid := (String.ofList (fit text.toList)).isValidUTF8
    settled := fun _ _ _ _ => fit_of_short hfits }

end Log

end ArcadeUplink
