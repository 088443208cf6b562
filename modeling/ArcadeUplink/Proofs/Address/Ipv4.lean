import ArcadeUplink.Address.Ipv4
import ArcadeUplink.Proofs.Text.Parts

/-!
# The written form of an IPv4 address

The reader knows many spellings of an address, and takes digits behind a zero in another base. The
four decimal numbers that are written have no zero in front, so it reads the same address from
them (`parse?_chars`). A host that is written so has to be an address (`isDue_chars`).
-/

namespace ArcadeUplink.Address

theorem labels_eq_splitOn (cs : List Char) : labels cs = cs.splitOn '.' :=
  Text.eq_splitOn rfl (fun c cs l ls hls => by rw [labels, hls]) cs

namespace Ipv4

/-! ## Numbers -/

theorem value?_digitChar : ∀ d : Fin 16, Text.Hex.value? (Nat.digitChar d) = some d.val := by
  decide

theorem digitsValue?_concat {base d : Nat} (hd : d < base) (hle : base ≤ 16) (cs : List Char) :
    digitsValue? base (cs ++ [d.digitChar]) = (digitsValue? base cs).map (base * · + d) := by
  have hvalue := value?_digitChar ⟨d, by omega⟩
  rw [digitsValue?, List.foldlM_append, ← digitsValue?]
  cases digitsValue? base cs with
  | none => rfl
  | some n => simp [hvalue, hd]

/-- **Written digits are read back** in any base that the reader knows. -/
theorem digitsValue?_toDigits {base : Nat} (hbase : 1 < base) (hle : base ≤ 16) (n : Nat) :
    digitsValue? base (Nat.toDigits base n) = some n := by
  induction n using Nat.strongRecOn with
  | ind n ih =>
    by_cases hlt : n < base
    · rw [Nat.toDigits_of_lt_base hlt, ← List.nil_append [n.digitChar],
        digitsValue?_concat hlt hle]
      simp [digitsValue?]
    · -- the last digit is the remainder, those before it stand for the quotient
      have hquotient : n / base < n := Nat.div_lt_self (by omega) hbase
      rw [Nat.toDigits_of_base_le hbase (by omega),
        digitsValue?_concat (Nat.mod_lt _ (by omega)) hle, ih _ hquotient, Option.map_some,
        Nat.div_add_mod]

theorem exists_of_mem_toDigits {base n : Nat} {c : Char} (hbase : 1 < base)
    (h : c ∈ Nat.toDigits base n) : ∃ d < base, c = d.digitChar := by
  induction n using Nat.strongRecOn with
  | ind n ih =>
    by_cases hlt : n < base
    · rw [Nat.toDigits_of_lt_base hlt] at h
      exact ⟨n, hlt, List.mem_singleton.mp h⟩
    · rw [Nat.toDigits_of_base_le hbase (by omega), List.mem_append] at h
      rcases h with h | h
      · exact ih _ (Nat.div_lt_self (by omega) hbase) h
      · exact ⟨_, Nat.mod_lt _ (by omega), List.mem_singleton.mp h⟩

theorem part?_natChars (n : Nat) : part? (Decimal.natChars n) = some n := by
  have hvalue := digitsValue?_toDigits (by decide) (by decide : 10 ≤ 16) n
  rw [← Decimal.natChars] at hvalue
  by_cases hzero : (Decimal.natChars n).head? = some '0'
  · have hone := Decimal.natChars_head n hzero
    have hn : n = 0 := by
      have hread := Decimal.ofDigits_natChars n
      rw [hone] at hread
      exact hread.symm
    rw [hone, hn]
    rfl
  · unfold part?
    split
    · next hnil => exact absurd hnil (Decimal.natChars_ne_nil n)
    all_goals first
      | exact hvalue
      | next heq => exact absurd (by rw [heq]; rfl) hzero

theorem isNumeric_natChars (n : Nat) : isNumeric (Decimal.natChars n) = true := by
  rw [isNumeric, part?_natChars, Option.isSome_some, Bool.or_true]

/-! ## Four numbers -/

variable (i : Ipv4)

/-- The four written numbers. -/
def written : List (List Char) :=
  [Decimal.natChars i.a.toNat, Decimal.natChars i.b.toNat, Decimal.natChars i.c.toNat,
    Decimal.natChars i.d.toNat]

theorem dropRoot_labels_chars : dropRoot (labels i.chars) = i.written := by
  have hjoined : i.chars = ['.'].intercalate i.written := by
    simp [chars, written, List.intercalate]
  have hplain : ∀ l ∈ i.written, '.' ∉ l := by
    intro l hl hdot
    simp only [written, List.mem_cons, List.not_mem_nil, or_false] at hl
    obtain rfl | rfl | rfl | rfl := hl <;> cases Decimal.isDigit_of_mem_natChars hdot
  rw [labels_eq_splitOn, hjoined, List.splitOn_intercalate '.' hplain (by simp [written]), dropRoot,
    if_neg]
  rintro ⟨-, hlast⟩
  exact Decimal.natChars_ne_nil _ (Option.some.inj hlast)

variable {i} in
theorem digit_or_dot_of_mem_chars {c : Char} (h : c ∈ i.chars) :
    (∃ d < 10, c = Nat.digitChar d) ∨ c = '.' := by
  have hdigit {n : Nat} (hc : c ∈ Decimal.natChars n) : ∃ d < 10, c = Nat.digitChar d :=
    exists_of_mem_toDigits (by decide) hc
  simp only [chars, List.mem_append, List.mem_cons] at h
  obtain ((h | rfl | h) | rfl | h) | rfl | h := h
  · exact .inl (hdigit h)
  · exact .inr rfl
  · exact .inl (hdigit h)
  · exact .inr rfl
  · exact .inl (hdigit h)
  · exact .inr rfl
  · exact .inl (hdigit h)

theorem isDue_chars : isDue i.chars = true := by
  rw [isDue, dropRoot_labels_chars]
  exact isNumeric_natChars _

theorem combine?_bytes : combine? i.d.toNat [i.a.toNat, i.b.toNat, i.c.toNat] = some i.toNat := by
  have ha := i.a.toNat_lt
  have hb := i.b.toNat_lt
  have hc := i.c.toNat_lt
  have hd := i.d.toNat_lt
  unfold combine?
  rw [if_neg (by simp; omega)]
  simp only [toNat, List.foldl_cons, List.foldl_nil, List.length_cons, List.length_nil,
    Nat.shiftLeft_eq]
  congr 1
  omega

theorem ofNat_toNat : ofNat i.toNat = i := by
  have ha := i.a.toNat_lt
  have hb := i.b.toNat_lt
  have hc := i.c.toNat_lt
  have hd := i.d.toNat_lt
  cases i
  simp only [ofNat, toNat, Ipv4.mk.injEq, ← UInt8.toNat_inj, UInt8.toNat_ofNat'] at *
  omega

/-- **An address is read back** from its written form. -/
theorem parse?_chars : parse? i.chars = some i := by
  have hnumbers : (dropRoot (labels i.chars)).mapM part? =
      some [i.a.toNat, i.b.toNat, i.c.toNat, i.d.toNat] := by
    rw [dropRoot_labels_chars, written]
    simp only [List.mapM_cons, List.mapM_nil, part?_natChars]
    rfl
  unfold parse?
  rw [hnumbers]
  show (combine? i.d.toNat [i.a.toNat, i.b.toNat, i.c.toNat]).map ofNat = some i
  rw [combine?_bytes, Option.map_some, ofNat_toNat]

end Ipv4

end ArcadeUplink.Address
