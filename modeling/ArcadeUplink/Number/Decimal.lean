/-!
# Decimal text

Naturals and integers as decimal digits without leading zeros, and the reader
that takes as many digits as it finds. `readNat_natChars` and `readInt_intChars`
say that a written number is read back from the front of any text whose rest
cannot extend it.
-/

namespace ArcadeUplink.Decimal

def natChars (n : Nat) : List Char := Nat.toDigits 10 n

/-- The digits of an integer, after a sign if it is negative. -/
def intChars : Int → List Char
  | .ofNat n => natChars n
  | .negSucc n => '-' :: natChars (n + 1)

def natText (n : Nat) : String := .ofList (natChars n)

def intText (i : Int) : String := .ofList (intChars i)

/-- The digits at the front of a text, and what follows them. -/
def spanDigits (cs : List Char) : List Char × List Char :=
  (cs.takeWhile Char.isDigit, cs.dropWhile Char.isDigit)

/-- The number that a list of digits stands for. -/
def ofDigits (ds : List Char) : Nat := Nat.ofDigitChars 10 ds 0

/-- Reads the digits at the front of a text; there has to be one. -/
def readNat (cs : List Char) : Option (Nat × List Char) :=
  match spanDigits cs with
  | ([], _) => none
  | (ds, rest) => some (ofDigits ds, rest)

/-- Reads a number with an optional minus sign at the front of a text. -/
def readInt : List Char → Option (Int × List Char)
  | '-' :: cs => (readNat cs).map fun r => (-(r.1 : Int), r.2)
  | cs => (readNat cs).map fun r => ((r.1 : Int), r.2)

/-- A text that does not begin with a digit. -/
def NoDigitHead : List Char → Prop
  | [] => True
  | c :: _ => c.isDigit = false

theorem isDigit_of_mem_natChars {n : Nat} {c : Char} (h : c ∈ natChars n) : c.isDigit = true :=
  Nat.isDigit_of_mem_toDigits (by decide) (by decide) h

theorem ofDigits_natChars (n : Nat) : ofDigits (natChars n) = n :=
  Nat.ofDigitChars_toDigits (by decide) (by decide)

theorem natChars_ne_nil (n : Nat) : natChars n ≠ [] := by
  intro h
  have h0 := ofDigits_natChars n
  have h1 : n = 0 := by rw [h] at h0; simpa [ofDigits] using h0.symm
  subst h1
  exact absurd h (by decide)

theorem natChars_eq_cons (n : Nat) : ∃ d ds, natChars n = d :: ds ∧ d.isDigit = true := by
  cases h : natChars n with
  | nil => exact absurd h (natChars_ne_nil n)
  | cons d ds => exact ⟨d, ds, rfl, isDigit_of_mem_natChars (h ▸ List.mem_cons_self)⟩

/-- A written number has no zero in front, unless it is zero. -/
theorem natChars_head (n : Nat) (h : (natChars n).head? = some '0') : natChars n = ['0'] := by
  induction n using Nat.strongRecOn with
  | ind n ih =>
    rcases Nat.lt_or_ge n 10 with hlt | hge
    · have hone : natChars n = [n.digitChar] := Nat.toDigits_of_lt_base hlt
      rw [hone] at h ⊢
      exact congrArg (fun c => [c]) (Option.some.inj h)
    · have hsplit : natChars n = natChars (n / 10) ++ [(n % 10).digitChar] :=
        Nat.toDigits_of_base_le (by decide) hge
      obtain ⟨d, ds, hfront, -⟩ := natChars_eq_cons (n / 10)
      have hhead : (natChars (n / 10)).head? = some '0' := by
        rw [hsplit, hfront] at h
        rw [hfront]
        exact h
      have hvalue := ofDigits_natChars (n / 10)
      rw [ih (n / 10) (by omega) hhead] at hvalue
      have hzero : 0 = n / 10 := hvalue
      omega

theorem spanDigits_append {ds rest : List Char} (hd : ∀ c ∈ ds, c.isDigit = true)
    (hr : NoDigitHead rest) : spanDigits (ds ++ rest) = (ds, rest) := by
  induction ds with
  | nil =>
    cases rest with
    | nil => rfl
    | cons c r =>
      have hc : c.isDigit = false := hr
      simp [spanDigits, hc]
  | cons d ds ih =>
    have hh := hd d List.mem_cons_self
    have ih := ih fun c hc => hd c (List.mem_cons_of_mem _ hc)
    simp only [spanDigits, Prod.mk.injEq] at ih ⊢
    simp [hh, ih.1, ih.2]

theorem readNat_natChars (n : Nat) {rest : List Char} (hr : NoDigitHead rest) :
    readNat (natChars n ++ rest) = some (n, rest) := by
  rw [readNat, spanDigits_append (fun _ => isDigit_of_mem_natChars) hr]
  match h : natChars n with
  | [] => exact absurd h (natChars_ne_nil n)
  | d :: ds => simp [← h, ofDigits_natChars]

theorem readInt_intChars (i : Int) {rest : List Char} (hr : NoDigitHead rest) :
    readInt (intChars i ++ rest) = some (i, rest) := by
  cases i with
  | ofNat n =>
    have hne := natChars_ne_nil n
    simp only [intChars]
    match h : natChars n with
    | [] => exact absurd h hne
    | d :: ds =>
      have hd : d.isDigit = true := isDigit_of_mem_natChars (n := n) (by simp [h])
      have hm : d ≠ '-' := by rintro rfl; exact absurd hd (by decide)
      have := readNat_natChars n hr
      rw [h] at this
      simp only [List.cons_append] at this ⊢
      unfold readInt
      split
      · next heq => exact absurd (List.cons.inj heq).1 hm
      · simp [this]
  | negSucc n =>
    simp only [intChars, List.cons_append, readInt, readNat_natChars (n + 1) hr, Option.map_some]
    rfl

end ArcadeUplink.Decimal
