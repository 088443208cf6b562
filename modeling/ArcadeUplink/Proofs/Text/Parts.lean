import ArcadeUplink.Text.Blank

/-!
# Characters and parts of texts

What is so of each of the first 128 characters is found by looking at them (`exists_ascii`).
A text stays as it is when it is trimmed, if it neither begins nor ends with what is trimmed off
(`strip_eq_self`). A reader of the parts between separators that goes through a text from its end
finds the parts that were joined (`eq_splitOn`), and one that finds what it looks for in every part
finds it all (`mapM_eq_some_map`).
-/

namespace ArcadeUplink

/-- Readers that find what they look for in every item of a list find it all. -/
theorem mapM_eq_some_map {α β : Type} {f : α → Option β} {g : α → β} {l : List α}
    (h : ∀ a ∈ l, f a = some (g a)) : l.mapM f = some (l.map g) := by
  induction l with
  | nil => rfl
  | cons a l ih =>
    rw [List.mapM_cons, h a List.mem_cons_self, ih fun b hb => h b (List.mem_cons_of_mem _ hb)]
    rfl

namespace Text

variable {p : Char → Bool} {cs : List Char}

/-- What is looked up for each of the first 128 characters is known of any of them. -/
theorem exists_ascii {c : Char} (h : c.toNat < 128) : ∃ n : Fin 128, Char.ofNat n = c :=
  ⟨⟨c.toNat, h⟩, Char.ofNat_toNat c⟩

theorem dropWhile_eq_self (h : ∀ c ∈ cs.head?, p c = false) : cs.dropWhile p = cs := by
  cases cs with
  | nil => rfl
  | cons c cs => rw [List.dropWhile_cons_of_neg (by simp [h c rfl])]

theorem takeWhile_eq_nil (h : ∀ c ∈ cs.head?, p c = false) : cs.takeWhile p = [] := by
  cases cs with
  | nil => rfl
  | cons c cs => rw [List.takeWhile_cons_of_neg (by simp [h c rfl])]

theorem head?_dropWhile (p : Char → Bool) (cs : List Char) :
    ∀ c ∈ (cs.dropWhile p).head?, p c = false := by
  intro c hc
  have hhead := List.head?_dropWhile_not p cs
  rw [Option.mem_def.mp hc] at hhead
  exact hhead

/-- **There is nothing to trim off** a text that has none of it at its two ends. -/
theorem strip_eq_self (hfirst : ∀ c ∈ cs.head?, p c = false)
    (hlast : ∀ c ∈ cs.getLast?, p c = false) :
    ((cs.dropWhile p).reverse.dropWhile p).reverse = cs := by
  rw [dropWhile_eq_self hfirst, dropWhile_eq_self (List.head?_reverse ▸ hlast),
    List.reverse_reverse]

/-- A text without blanks is its own trimmed form. -/
theorem trimChars_eq_self (h : ∀ c ∈ cs, isBlank c = false) : trimChars cs = cs :=
  strip_eq_self (fun c hc => h c (List.mem_of_mem_head? hc))
    fun c hc => h c (List.mem_of_mem_getLast? hc)

/-- **The parts between separators**, by whatever function that puts each character in front of the
parts of the rest. -/
theorem eq_splitOn {f : List Char → List (List Char)} {sep : Char} (hnil : f [] = [[]])
    (hcons : ∀ c cs l ls, f cs = l :: ls →
      f (c :: cs) = if c = sep then [] :: l :: ls else (c :: l) :: ls) (cs : List Char) :
    f cs = cs.splitOn sep := by
  rw [List.splitOn_eq_splitOnP]
  induction cs with
  | nil => rw [hnil, List.splitOnP_nil]
  | cons c cs ih =>
    rw [List.splitOnP_cons_eq_if_modifyHead]
    cases hls : cs.splitOnP (· == sep) with
    | nil => exact absurd hls (List.splitOnP_ne_nil _ _)
    | cons l ls =>
      rw [hcons c cs l ls (ih.trans hls)]
      by_cases hc : c = sep <;> simp [hc]

end Text

end ArcadeUplink
