import ArcadeUplink.Address.Ipv6
import ArcadeUplink.Proofs.Address.Ipv4

/-!
# The written form of an IPv6 address

What is left out of the written form is a run of zeros and nothing else (`exists_gap`). It leaves
the only two colons behind that stand side by side, so the reader cuts the text where the run was
(`splitGap_join`), reads the pieces on both sides and fills the gap with as many zeros as are
missing. It reads the same address again (`parse?_chars`).
-/

namespace ArcadeUplink.Address.Ipv6

variable {ps : List UInt16} {p : UInt16} {cs rest : List Char} {c : Char}

/-! ## Pieces -/

theorem digit_of_mem_pieceChars (h : c ∈ pieceChars p) : ∃ d < 16, c = Nat.digitChar d :=
  Ipv4.exists_of_mem_toDigits (by decide) h

theorem digitChar_ne_colon : ∀ d : Fin 16, Nat.digitChar d ≠ ':' := by
  decide

theorem colon_not_mem_pieceChars (p : UInt16) : ':' ∉ pieceChars p := by
  intro h
  obtain ⟨d, hd, hcolon⟩ := digit_of_mem_pieceChars h
  exact digitChar_ne_colon ⟨d, hd⟩ hcolon.symm

theorem pieceChars_ne_nil (p : UInt16) : pieceChars p ≠ [] := Nat.toDigits_ne_nil

theorem piece?_pieceChars (p : UInt16) : piece? (pieceChars p) = some p := by
  have hlength : (pieceChars p).length ≤ 4 :=
    (Nat.length_toDigits_le_iff (by decide) (by decide)).mpr p.toNat_lt
  rw [piece?, if_neg (by simp [pieceChars_ne_nil, hlength]), pieceChars,
    Ipv4.digitsValue?_toDigits (by decide) (by decide), Option.map_some, UInt16.ofNat_toNat]

/-! ## Pieces between colons -/

theorem join_cons (p q : UInt16) (ps : List UInt16) :
    join (p :: q :: ps) = pieceChars p ++ ':' :: join (q :: ps) := rfl

theorem join_eq_intercalate (ps : List UInt16) :
    join ps = [':'].intercalate (ps.map pieceChars) := by
  induction ps with
  | nil => rfl
  | cons p ps ih =>
    cases ps with
    | nil => simp [join]
    | cons q ps => simp [join_cons, ih, List.intercalate_cons_cons]

theorem digit_or_colon_of_mem_join (h : c ∈ join ps) :
    (∃ d < 16, c = Nat.digitChar d) ∨ c = ':' := by
  induction ps with
  | nil => cases h
  | cons p ps ih =>
    cases ps with
    | nil => exact .inl (digit_of_mem_pieceChars h)
    | cons q ps =>
      rw [join_cons, List.mem_append, List.mem_cons] at h
      obtain h | rfl | h := h
      · exact .inl (digit_of_mem_pieceChars h)
      · exact .inr rfl
      · exact ih h

theorem parts_eq_splitOn (cs : List Char) : parts cs = cs.splitOn ':' :=
  Text.eq_splitOn rfl (fun c cs l ls hls => by rw [parts, hls]) cs

theorem parts_join (h : ps ≠ []) : parts (join ps) = ps.map pieceChars := by
  have hplain : ∀ l ∈ ps.map pieceChars, ':' ∉ l := by
    intro l hl
    obtain ⟨p, -, rfl⟩ := List.mem_map.mp hl
    exact colon_not_mem_pieceChars p
  rw [parts_eq_splitOn, join_eq_intercalate, List.splitOn_intercalate ':' hplain (by simpa using h)]

theorem pieces?_map (tail : Bool) (ps : List UInt16) :
    pieces? tail (ps.map pieceChars) = some ps := by
  induction ps with
  | nil => rfl
  | cons p ps ih =>
    cases ps with
    | nil => simp [pieces?, piece?_pieceChars]
    | cons q ps =>
      rw [List.map_cons, List.map_cons, pieces?, ← List.map_cons, piece?_pieceChars, ih]
      · rfl
      · exact List.cons_ne_nil _ _

theorem join_eq_nil_iff : join ps = [] ↔ ps = [] := by
  constructor
  · intro h
    cases ps with
    | nil => rfl
    | cons p ps =>
      cases ps with
      | nil => exact absurd h (pieceChars_ne_nil p)
      | cons q ps => simp [join_cons] at h
  · rintro rfl
    rfl

theorem side?_join (tail : Bool) (ps : List UInt16) : side? tail (join ps) = some ps := by
  by_cases h : ps = []
  · rw [h]
    rfl
  · rw [side?, if_neg (mt join_eq_nil_iff.mp h), parts_join h, pieces?_map]

/-! ## The gap -/

theorem splitGap_cons (h : c ≠ ':' ∨ cs.head? ≠ some ':') :
    splitGap (c :: cs) = (c :: (splitGap cs).1, (splitGap cs).2) := by
  rw [splitGap]
  rintro rest rfl rfl
  simp at h

theorem splitGap_append (h : ':' ∉ cs) :
    splitGap (cs ++ rest) = (cs ++ (splitGap rest).1, (splitGap rest).2) := by
  induction cs with
  | nil => rfl
  | cons c cs ih =>
    obtain ⟨hc, hcs⟩ := not_or.mp (mt List.mem_cons.mpr h)
    rw [List.cons_append, splitGap_cons (.inl (Ne.symm hc)), ih hcs]
    rfl

theorem head?_join (h : ps ≠ []) (rest : List Char) : (join ps ++ rest).head? ≠ some ':' := by
  cases ps with
  | nil => exact absurd rfl h
  | cons p ps =>
    obtain ⟨d, ds, hpiece⟩ := List.exists_cons_of_ne_nil (pieceChars_ne_nil p)
    have hd : d ≠ ':' := fun hd => colon_not_mem_pieceChars p (by simp [hpiece, hd])
    cases ps with
    | nil => simp [join, hpiece, hd]
    | cons q ps => simp [join_cons, hpiece, hd]

/-- **Joined pieces hold no gap**, whatever follows them. -/
theorem splitGap_join (ps : List UInt16) (rest : List Char) :
    splitGap (join ps ++ rest) = (join ps ++ (splitGap rest).1, (splitGap rest).2) := by
  induction ps with
  | nil => rfl
  | cons p ps ih =>
    cases ps with
    | nil => exact splitGap_append (colon_not_mem_pieceChars p)
    | cons q ps =>
      have hhead := head?_join (List.cons_ne_nil q ps) rest
      rw [join_cons, List.append_assoc, splitGap_append (colon_not_mem_pieceChars p),
        List.cons_append, splitGap_cons (.inr hhead), ih]
      simp

theorem takeWhile_zero (ps : List UInt16) :
    ps.takeWhile (· = 0) = List.replicate (zeros ps) 0 := by
  refine List.eq_replicate_iff.mpr ⟨rfl, fun p hp => ?_⟩
  exact of_decide_eq_true (List.all_eq_true.mp List.all_takeWhile p hp)

/-- **What is left out is a run of zeros**, at the place that is said. -/
theorem exists_gap (i : Nat) (ps : List UInt16) : ∃ front back,
    ps = front ++ (List.replicate (longestRun i ps).2 0 ++ back) ∧
      (longestRun i ps).1 = i + front.length := by
  induction ps generalizing i with
  | nil => exact ⟨[], [], rfl, rfl⟩
  | cons p ps ih =>
    rw [longestRun]
    split
    · refine ⟨[], (p :: ps).dropWhile (· = 0), ?_, rfl⟩
      rw [← takeWhile_zero, List.nil_append, List.takeWhile_append_dropWhile]
    · obtain ⟨front, back, hps, hplace⟩ := ih (i + 1)
      refine ⟨p :: front, back, ?_, ?_⟩
      · rw [List.cons_append, ← hps]
      · rw [hplace, List.length_cons]
        omega

/-- The text of an address is its pieces joined, or those before and behind two zeros at least. -/
theorem chars_cases (a : Ipv6) : a.chars = join a.pieces ∨
    ∃ front n back, a.pieces = front ++ (List.replicate (n + 2) 0 ++ back) ∧
      a.chars = join front ++ ':' :: ':' :: join back := by
  obtain ⟨front, back, hpieces, hplace⟩ := exists_gap 0 a.pieces
  rw [chars]
  split
  · exact .inl rfl
  · next hlong =>
    obtain ⟨n, hn⟩ := Nat.exists_eq_add_of_le' (Nat.not_lt.mp hlong)
    refine .inr ⟨front, n, back, hn ▸ hpieces, ?_⟩
    rw [hplace, Nat.zero_add]
    generalize (longestRun 0 a.pieces).2 = run at hpieces
    rw [hpieces, List.take_left, ← List.drop_drop, List.drop_left,
      List.drop_left' List.length_replicate]

theorem digit_or_colon_of_mem_chars {a : Ipv6} (h : c ∈ a.chars) :
    (∃ d < 16, c = Nat.digitChar d) ∨ c = ':' := by
  obtain hchars | ⟨front, n, back, -, hchars⟩ := chars_cases a
  · rw [hchars] at h
    exact digit_or_colon_of_mem_join h
  · rw [hchars] at h
    simp only [List.mem_append, List.mem_cons] at h
    obtain h | h | h | h := h
    · exact digit_or_colon_of_mem_join h
    · exact .inr h
    · exact .inr h
    · exact digit_or_colon_of_mem_join h

/-- **An address is read back** from its written form. -/
theorem parse?_chars (a : Ipv6) : parse? a.chars = some a := by
  obtain hchars | ⟨front, n, back, hpieces, hchars⟩ := chars_cases a
  · have hne : a.pieces ≠ [] := List.ne_nil_of_length_pos (by rw [a.length_pieces]; decide)
    have hgap : splitGap a.chars = (a.chars, none) := by
      have hjoin := splitGap_join a.pieces []
      rw [← hchars, List.append_nil] at hjoin
      rw [hjoin, splitGap, List.append_nil]
    rw [parse?, hgap]
    dsimp only
    rw [hchars, parts_join hne, pieces?_map]
    show (if h : a.pieces.length = 8 then some (⟨a.pieces, h⟩ : Ipv6) else none) = some a
    rw [dif_pos a.length_pieces]
  · have hgap : splitGap a.chars = (join front, some (join back)) := by
      rw [hchars, splitGap_join, splitGap, List.append_nil]
    have hlength := congrArg List.length hpieces
    rw [a.length_pieces] at hlength
    simp only [List.length_append, List.length_replicate] at hlength
    rw [parse?, hgap]
    dsimp only
    rw [side?_join, side?_join]
    show fill? front back = some a
    have hfilled :
        front ++ List.replicate (8 - front.length - back.length) 0 ++ back = a.pieces := by
      rw [hpieces, show 8 - front.length - back.length = n + 2 by omega, List.append_assoc]
    rw [fill?, dif_pos (by omega)]
    cases a
    exact congrArg some (Ipv6.mk.injEq .. ▸ hfilled)

end ArcadeUplink.Address.Ipv6
