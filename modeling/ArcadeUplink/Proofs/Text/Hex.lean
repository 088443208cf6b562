import ArcadeUplink.Proofs.Text.Parts
import ArcadeUplink.Text.Hex

/-!
# Reading hexadecimal text

A text is read as bytes just if it has an even number of characters and all of them are
digits (`isSome_decodeChars_iff`). Of the texts that are read as the same bytes one is
written, that in lower case (`encodeChars_of_decodeChars`). So two texts of digits stand
for the same bytes just if they differ in nothing but case (`decodeChars_map_toLower`).
-/

namespace ArcadeUplink.Text.Hex

variable {c : Char} {cs : List Char} {bytes : List UInt8} {n : Nat}

/-- The digits are among the first 128 characters, of which each is looked at. -/
theorem value?_ascii : ∀ n : Fin 128, ∀ v, value? (Char.ofNat n) = some v →
    v < 16 ∧ digit v = (Char.ofNat n).toLower := by
  decide +kernel

theorem value?_eq_some (h : value? c = some n) : n < 16 ∧ digit n = c.toLower := by
  have hascii : c.toNat < 128 := by
    unfold value? at h
    split at h
    · next hc => exact Nat.lt_of_le_of_lt hc.2 (by decide)
    · split at h
      · next hc => exact Nat.lt_of_le_of_lt hc.2 (by decide)
      · split at h
        · next hc => exact Nat.lt_of_le_of_lt hc.2 (by decide)
        · cases h
  obtain ⟨i, rfl⟩ := exists_ascii hascii
  exact value?_ascii i n h

/-- The digits, one by one. -/
theorem isDigit_iff : isDigit c = true ↔
    ('0' ≤ c ∧ c ≤ '9') ∨ ('a' ≤ c ∧ c ≤ 'f') ∨ ('A' ≤ c ∧ c ≤ 'F') := by
  unfold isDigit value?
  split
  · next hc => simp [hc]
  · next hc =>
    split
    · next hc' => simp [hc']
    · next hc' => split <;> simp_all

theorem exists_of_mem_encodeChars (h : c ∈ encodeChars bytes) : ∃ n < 16, c = digit n := by
  obtain ⟨b, -, hc⟩ := List.mem_flatMap.mp h
  have hb : b.toNat < 256 := b.toNat_lt
  rcases List.mem_cons.mp hc with rfl | hc
  · exact ⟨_, by omega, rfl⟩
  · exact ⟨_, Nat.mod_lt _ (by decide), List.mem_singleton.mp hc⟩

/-- What is written are digits. -/
theorem isDigit_of_mem_encodeChars (h : c ∈ encodeChars bytes) : isDigit c = true := by
  obtain ⟨n, hn, rfl⟩ := exists_of_mem_encodeChars h
  rw [isDigit, value?_digit_of_lt hn]
  rfl

theorem digit_lower : ∀ n : Fin 16,
    ('0' ≤ digit n ∧ digit n ≤ '9') ∨ ('a' ≤ digit n ∧ digit n ≤ 'f') := by
  decide

/-- The letters among them are small. -/
theorem lower_of_mem_encodeChars (h : c ∈ encodeChars bytes) :
    ('0' ≤ c ∧ c ≤ '9') ∨ ('a' ≤ c ∧ c ≤ 'f') := by
  obtain ⟨n, hn, rfl⟩ := exists_of_mem_encodeChars h
  exact digit_lower ⟨n, hn⟩

/-- **What is read as bytes**: an even number of digits. -/
theorem isSome_decodeChars_iff :
    (decodeChars cs).isSome = true ↔ cs.length % 2 = 0 ∧ ∀ c ∈ cs, isDigit c = true := by
  fun_induction decodeChars cs with
  | case1 => simp
  | case2 c => simp
  | case3 hi lo rest x y hlo hhi ih =>
    have hdigits : isDigit hi = true ∧ isDigit lo = true := by simp [isDigit, hhi, hlo]
    rw [Option.isSome_map, ih]
    simp only [List.length_cons, List.forall_mem_cons, hdigits, true_and, Nat.add_assoc,
      Nat.reduceAdd, Nat.add_mod_right]
  | case4 hi lo rest hnot =>
    refine iff_of_false nofun ?_
    rintro ⟨-, hall⟩
    simp only [List.forall_mem_cons] at hall
    obtain ⟨x, hx⟩ := Option.isSome_iff_exists.mp hall.1
    obtain ⟨y, hy⟩ := Option.isSome_iff_exists.mp hall.2.1
    exact hnot x y hx hy

theorem value?_toLower_ascii : ∀ n : Fin 128,
    value? (Char.ofNat n).toLower = value? (Char.ofNat n) := by
  decide +kernel

theorem value?_toLower (c : Char) : value? c.toLower = value? c := by
  by_cases hascii : c.toNat < 128
  · obtain ⟨n, rfl⟩ := exists_ascii hascii
    exact value?_toLower_ascii n
  · have hlower : c.toLower = c := dif_neg fun h =>
      hascii (Nat.lt_of_le_of_lt (UInt32.le_iff_toNat_le.mp h.2) (by decide))
    rw [hlower]

/-- **Case does not count.** -/
theorem decodeChars_map_toLower (cs : List Char) :
    decodeChars (cs.map Char.toLower) = decodeChars cs := by
  fun_induction decodeChars cs with
  | case1 => rfl
  | case2 => rfl
  | case3 hi lo rest x y hlo hhi ih =>
    simp only [List.map_cons, decodeChars, value?_toLower, hhi, hlo, ih]
  | case4 hi lo rest hnot =>
    simp only [List.map_cons, decodeChars, value?_toLower]

/-- **The written form** of what is read is the text in lower case. -/
theorem encodeChars_of_decodeChars (h : decodeChars cs = some bytes) :
    encodeChars bytes = cs.map Char.toLower := by
  fun_induction decodeChars cs generalizing bytes with
  | case1 => cases h; rfl
  | case2 c => cases h
  | case3 hi lo rest x y hlo hhi ih =>
    obtain ⟨tail, htail, rfl⟩ := Option.map_eq_some_iff.mp h
    obtain ⟨hx, hdigit⟩ := value?_eq_some hhi
    obtain ⟨hy, hdigit'⟩ := value?_eq_some hlo
    have hbyte : (UInt8.ofNat (16 * x + y)).toNat = 16 * x + y :=
      UInt8.toNat_ofNat_of_lt (show 16 * x + y < 256 by omega)
    have hhigh : (16 * x + y) / 16 = x := by omega
    have hlow : (16 * x + y) % 16 = y := by omega
    rw [encodeChars, List.flatMap_cons, byteDigits, hbyte, hhigh, hlow, hdigit, hdigit',
      ← encodeChars, ih htail]
    rfl
  | case4 => cases h

theorem length_of_decodeChars (h : decodeChars cs = some bytes) :
    cs.length = 2 * bytes.length := by
  rw [← length_encodeChars, encodeChars_of_decodeChars h, List.length_map]

/-- The higher digit of each byte. -/
theorem getElem?_encodeChars (bytes : List UInt8) (i : Nat) :
    (encodeChars bytes)[2 * i]? = bytes[i]?.map fun b => digit (b.toNat / 16) := by
  induction bytes generalizing i with
  | nil => rfl
  | cons b bytes ih =>
    cases i with
    | zero => rfl
    | succ i => exact ih i

end ArcadeUplink.Text.Hex
