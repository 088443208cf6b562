import ArcadeUplink.Address.Host
import ArcadeUplink.Proofs.Address.Ipv6

/-!
# The written form of a host

A name in its final form is not changed any more: it has no escapes, no capitals and no label to
encode (`normalize?_of_allowed`). So every host is read back from its written form, be it a name
or an address (`parse?_chars`). The brackets of an address and the colons in them are all that a
written host holds besides what a name may hold (`allowed_or_of_mem_chars`).
-/

namespace ArcadeUplink.Address

namespace Domain

variable {c : Char} {cs : List Char}

/-! ## Allowed characters -/

theorem ascii_of_isAllowed (h : isAllowed c = true) : c.toNat < 128 := by
  simp only [isAllowed, Bool.and_eq_true, decide_eq_true_eq] at h
  exact h.1.1.2

theorem fold?_ascii : ∀ n : Fin 128, isAllowed (Char.ofNat n) = true →
    fold? (Char.ofNat n) = some [Char.ofNat n] := by
  decide +kernel

theorem fold?_of_isAllowed (h : isAllowed c = true) : fold? c = some [c] := by
  obtain ⟨n, rfl⟩ := Text.exists_ascii (ascii_of_isAllowed h)
  exact fold?_ascii n h

/-- Marks are outside ASCII, so there is none to be joined within it. -/
theorem composed?_of_ascii {base mark : Char} (h : mark.toNat < 128) :
    composed? base mark = none := by
  unfold composed?
  refine List.lookup_eq_none_iff.mpr fun entry hentry => ?_
  have hwide : 128 ≤ entry.1.2.toNat := by
    revert entry
    decide +kernel
  have hne : (base, mark) ≠ entry.1 := by
    intro heq
    rw [← heq] at hwide
    exact Nat.not_lt.mpr hwide h
  exact bne_iff_ne.mpr hne

theorem compose_of_ascii (h : ∀ c ∈ cs, c.toNat < 128) : compose cs = cs := by
  induction cs with
  | nil => rfl
  | cons c cs ih =>
    rw [compose, ih fun d hd => h d (List.mem_cons_of_mem _ hd)]
    cases cs with
    | nil => rfl
    | cons d ds =>
      have hd : d.toNat < 128 := h d (by simp)
      simp only [composed?_of_ascii hd]

/-! ## Labels -/

theorem joinLabels_cons (l m : List Char) (ls : List (List Char)) :
    joinLabels (l :: m :: ls) = l ++ '.' :: joinLabels (m :: ls) := rfl

theorem joinLabels_eq_intercalate (ls : List (List Char)) :
    joinLabels ls = ['.'].intercalate ls := by
  induction ls with
  | nil => rfl
  | cons l ls ih =>
    cases ls with
    | nil => simp [joinLabels]
    | cons m ls => simp [joinLabels_cons, ih, List.intercalate_cons_cons]

theorem joinLabels_labels (cs : List Char) : joinLabels (labels cs) = cs := by
  rw [joinLabels_eq_intercalate, labels_eq_splitOn, List.intercalate_splitOn]

theorem asciiLabel_of_ascii (h : ∀ c ∈ cs, c.toNat < 128) : asciiLabel cs = cs := by
  refine if_neg fun hwide => ?_
  obtain ⟨c, hc, hwide⟩ := List.any_eq_true.mp hwide
  exact absurd (h c hc) (Nat.not_lt.mpr (of_decide_eq_true hwide))

theorem mem_joinLabels {l : List Char} {ls : List (List Char)} (hl : l ∈ ls) (hc : c ∈ l) :
    c ∈ joinLabels ls := by
  induction ls with
  | nil => cases hl
  | cons m ls ih =>
    cases ls with
    | nil =>
      obtain rfl := List.mem_singleton.mp hl
      exact hc
    | cons k ls =>
      rw [joinLabels_cons, List.mem_append, List.mem_cons]
      rcases List.mem_cons.mp hl with rfl | hl
      · exact .inl hc
      · exact .inr (.inr (ih hl))

/-- **What a name may hold is not changed.** -/
theorem normalize?_of_allowed (h : ∀ c ∈ cs, isAllowed c = true) : normalize? cs = some cs := by
  have hascii : ∀ c ∈ cs, c.toNat < 128 := fun c hc => ascii_of_isAllowed (h c hc)
  have hlabels : (labels cs).map asciiLabel = labels cs := by
    refine (List.map_congr_left fun l hl => ?_).trans (List.map_id _)
    exact asciiLabel_of_ascii fun c hc =>
      hascii c (joinLabels_labels cs ▸ mem_joinLabels hl hc)
  rw [normalize?, mapM_eq_some_map fun c hc => fold?_of_isAllowed (h c hc), Option.map_some]
  rw [← List.flatMap_def, List.flatMap_singleton', compose_of_ascii hascii, hlabels,
    joinLabels_labels]

/-- An allowed character is not one of those that are forbidden. -/
theorem ne_of_isAllowed {d : Char} (h : isAllowed c = true) (hd : isAllowed d = false) : c ≠ d := by
  rintro rfl
  rw [h] at hd
  cases hd

theorem isAllowed_digitChar : ∀ d : Fin 16, isAllowed (Nat.digitChar d) = true := by
  decide

theorem isAllowed_of_mem_ipv4 {i : Ipv4} (h : c ∈ i.chars) : isAllowed c = true := by
  obtain ⟨d, hd, rfl⟩ | rfl := Ipv4.digit_or_dot_of_mem_chars h
  · exact isAllowed_digitChar ⟨d, by omega⟩
  · decide

theorem allowed_of_isNormal (h : isNormal cs = true) : ∀ c ∈ cs, isAllowed c = true := by
  simp only [isNormal, Bool.and_eq_true] at h
  exact List.all_eq_true.mp h.1.1.2

theorem not_isDue_of_isNormal (h : isNormal cs = true) : Ipv4.isDue cs = false := by
  simp only [isNormal, Bool.and_eq_true, Bool.not_eq_true'] at h
  exact h.2

end Domain

namespace Host

variable {cs : List Char} {c : Char}

/-- A character of a host is one that a name may hold, or belongs to the brackets of an address. -/
theorem allowed_or_of_mem_chars {h : Host} (hc : c ∈ h.chars) :
    Domain.isAllowed c = true ∨ c ∈ [':', '[', ']'] := by
  cases h with
  | ipv4 i => exact .inl (Domain.isAllowed_of_mem_ipv4 hc)
  | ipv6 a =>
    simp only [chars, List.mem_append, List.mem_cons] at hc
    obtain (rfl | hc) | rfl | hc := hc
    · exact .inr (by decide)
    · obtain ⟨d, hd, rfl⟩ | rfl := Ipv6.digit_or_colon_of_mem_chars hc
      · exact .inl (Domain.isAllowed_digitChar ⟨d, hd⟩)
      · exact .inr (by decide)
    · exact .inr (by decide)
    · cases hc
  | domain d => exact .inl (Domain.allowed_of_isNormal d.isNormal_chars c hc)

/-- **A text of allowed characters is a host in its final form**, or none at all. -/
theorem parse?_of_allowed (h : ∀ c ∈ cs, Domain.isAllowed c = true) : parse? cs = ofNormal? cs := by
  have hescape : decodeEscapes? cs = some cs := by
    refine if_neg fun hmem => ?_
    exact Domain.ne_of_isAllowed (h _ (List.contains_iff_mem.mp hmem)) (by decide) rfl
  unfold parse?
  split
  · next rest => exact absurd rfl (Domain.ne_of_isAllowed (h '[' List.mem_cons_self) (by decide))
  · rw [hescape, Option.bind_some, Domain.normalize?_of_allowed h, Option.bind_some]

/-- **A host is read back** from its written form. -/
theorem parse?_chars (h : Host) : parse? h.chars = some h := by
  cases h with
  | ipv4 i =>
    have hallowed : ∀ c ∈ i.chars, Domain.isAllowed c = true :=
      fun _ => Domain.isAllowed_of_mem_ipv4
    rw [chars, parse?_of_allowed hallowed, ofNormal?, if_pos i.isDue_chars,
      if_pos (List.all_eq_true.mpr hallowed), i.parse?_chars, Option.map_some]
  | ipv6 a =>
    show (if (a.chars ++ [']']).getLast? = some ']' then
      (Ipv6.parse? (a.chars ++ [']']).dropLast).map ipv6 else none) = _
    rw [if_pos List.getLast?_concat, List.dropLast_concat, a.parse?_chars, Option.map_some]
  | domain d =>
    have hnormal := d.isNormal_chars
    rw [chars, parse?_of_allowed (Domain.allowed_of_isNormal hnormal), ofNormal?,
      if_neg (by simp [Domain.not_isDue_of_isNormal hnormal]), dif_pos hnormal]

end Host

end ArcadeUplink.Address
