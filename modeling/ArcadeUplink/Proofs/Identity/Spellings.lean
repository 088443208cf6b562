import ArcadeUplink.Identity.Uuid
import ArcadeUplink.Proofs.Text.Hex
import ArcadeUplink.Proofs.Text.Parts

/-!
# Spellings of a UUID

A UUID is read from thirty-two hexadecimal digits of either case, from the same with hyphens
between groups of 8, 4, 4, 4 and 12, and from the latter in braces or behind a name. Blanks around
it do not count. `Spelling` is this grammar, stated apart from the reader: a text is read just if
it is a spelling, and what is written instead is the same digits in lower case and with hyphens
(`canonical`). Two texts are written the same just if they spell the same bytes.

The name is `urn:uuid:`, in letters of either case.
-/

namespace ArcadeUplink

namespace Uuid

/-! ## The grammar -/

/-- Thirty-two hexadecimal digits of either case. -/
structure AreDigits (ds : List Char) : Prop where
  count : ds.length = 32
  hex : ∀ c ∈ ds, Text.Hex.isDigit c = true

/-- Digits in groups, with hyphens between the groups. -/
def Hyphenated (ds cs : List Char) : Prop :=
  ∃ gs : List (List Char), gs.map (·.length) = [8, 4, 4, 4, 12] ∧ gs.flatten = ds ∧
    ['-'].intercalate gs = cs

/-- **The spellings of some digits.** `named` says which names may stand in front. -/
inductive Spelling (named : List Char → Prop) (ds : List Char) : List Char → Prop
  | bare : Spelling named ds ds
  | hyphenated {cs : List Char} : Hyphenated ds cs → Spelling named ds cs
  | braced {cs : List Char} : Hyphenated ds cs → Spelling named ds ('\x7b' :: (cs ++ ['\x7d']))
  | behind {name cs : List Char} : named name → Hyphenated ds cs → Spelling named ds (name ++ cs)

/-- The name of the namespace, in letters of either case. -/
def IsUrn (name : List Char) : Prop :=
  name.map Char.toLower = urn

variable {ds es cs gs : List Char} {named : List Char → Prop} {u : Uuid}

theorem hyphenated_iff : Hyphenated ds cs ↔ ∃ a b c d e : List Char,
    (a.length = 8 ∧ b.length = 4 ∧ c.length = 4 ∧ d.length = 4 ∧ e.length = 12) ∧
    ds = a ++ (b ++ (c ++ (d ++ e))) ∧
    cs = a ++ '-' :: (b ++ '-' :: (c ++ '-' :: (d ++ '-' :: e))) := by
  constructor
  · rintro ⟨gs, hlengths, rfl, rfl⟩
    simp only [List.map_eq_cons_iff, List.map_eq_nil_iff] at hlengths
    obtain ⟨a, _, rfl, ha, b, _, rfl, hb, c, _, rfl, hc, d, _, rfl, hd, e, _, rfl, he, rfl⟩ :=
      hlengths
    exact ⟨a, b, c, d, e, ⟨ha, hb, hc, hd, he⟩, by simp, by simp [List.intercalate]⟩
  · rintro ⟨a, b, c, d, e, ⟨ha, hb, hc, hd, he⟩, rfl, rfl⟩
    exact ⟨[a, b, c, d, e], by simp [ha, hb, hc, hd, he], by simp, by simp [List.intercalate]⟩

theorem Hyphenated.length (h : Hyphenated ds cs) : ds.length = 32 ∧ cs.length = 36 := by
  obtain ⟨a, b, c, d, e, ⟨ha, hb, hc, hd, he⟩, rfl, rfl⟩ := hyphenated_iff.mp h
  simp only [List.length_append, List.length_cons]
  omega

/-- Hyphens are put in at one place after the other. -/
theorem hyphenate_eq (ds : List Char) : hyphenate ds =
    ds.take 8 ++ '-' :: ((ds.drop 8).take 4 ++ '-' :: (((ds.drop 8).drop 4).take 4 ++
      '-' :: ((((ds.drop 8).drop 4).drop 4).take 4 ++
        '-' :: (((ds.drop 8).drop 4).drop 4).drop 4))) := by
  simp [hyphenate]

/-- **There is one way to put the hyphens in.** -/
theorem hyphenated_iff_eq (h : ds.length = 32) : Hyphenated ds cs ↔ cs = hyphenate ds := by
  rw [hyphenate_eq]
  constructor
  · intro hh
    obtain ⟨a, b, c, d, e, ⟨ha, hb, hc, hd, -⟩, rfl, rfl⟩ := hyphenated_iff.mp hh
    rw [List.take_left' ha, List.drop_left' ha, List.take_left' hb, List.drop_left' hb,
      List.take_left' hc, List.drop_left' hc, List.take_left' hd, List.drop_left' hd]
  · rintro rfl
    refine hyphenated_iff.mpr ⟨_, _, _, _, _, ?_, ?_, rfl⟩
    · simp only [List.length_take, List.length_drop]
      omega
    · simp only [List.take_append_drop]

/-! ## The reader -/

theorem groups_eq_splitOn (cs : List Char) : groups cs = cs.splitOn '-' :=
  Text.eq_splitOn rfl (fun c cs g gs hgs => by rw [groups, hgs]) cs

/-- **The hyphens are taken out** where they stand between groups of the right lengths. -/
theorem ungroup?_eq_some_iff (h : '-' ∉ ds) : ungroup? cs = some ds ↔ Hyphenated ds cs := by
  unfold ungroup?
  rw [Option.ite_none_right_eq_some, groups_eq_splitOn, Option.some_inj]
  constructor
  · rintro ⟨hlengths, hflat⟩
    exact ⟨_, hlengths, hflat, List.intercalate_splitOn '-'⟩
  · rintro ⟨gs, hlengths, rfl, rfl⟩
    have hgs : ∀ g ∈ gs, '-' ∉ g := fun g hg hmem => h (List.mem_flatten.mpr ⟨g, hg, hmem⟩)
    rw [List.splitOn_intercalate '-' hgs (by rintro rfl; cases hlengths)]
    exact ⟨hlengths, rfl⟩

theorem unbrace?_eq_some_iff : unbrace? es = some cs ↔ es = '\x7b' :: (cs ++ ['\x7d']) := by
  unfold unbrace?
  split
  · next rest =>
    rw [Option.ite_none_right_eq_some, Option.some_inj, List.cons_inj_right]
    constructor
    · rintro ⟨hlast, rfl⟩
      obtain ⟨init, rfl⟩ := List.getLast?_eq_some_iff.mp hlast
      rw [List.dropLast_concat]
    · rintro rfl
      exact ⟨List.getLast?_concat, List.dropLast_concat⟩
  · next hnot =>
    refine iff_of_false nofun ?_
    rintro rfl
    exact hnot _ rfl

theorem dropUrn?_eq_some_iff :
    dropUrn? es = some cs ↔ ∃ name, IsUrn name ∧ es = name ++ cs := by
  unfold dropUrn?
  rw [Option.ite_none_right_eq_some, Option.some_inj]
  constructor
  · rintro ⟨hname, rfl⟩
    exact ⟨es.take 9, hname, (List.take_append_drop 9 es).symm⟩
  · rintro ⟨name, hname, rfl⟩
    have hlength : name.length = 9 := by
      rw [← List.length_map (f := Char.toLower), hname]
      rfl
    rw [List.take_left' hlength, List.drop_left' hlength]
    exact ⟨hname, rfl⟩

theorem AreDigits.no_hyphen (h : AreDigits ds) : '-' ∉ ds := fun hmem => nomatch h.hex _ hmem

/-- **What is read of a text** is what it spells. -/
theorem spelled?_eq_some_iff (h : AreDigits ds) :
    spelled? cs = some ds ↔ Spelling IsUrn ds cs := by
  have hungroup {es : List Char} : ungroup? es = some ds ↔ Hyphenated ds es :=
    ungroup?_eq_some_iff h.no_hyphen
  constructor
  · intro hread
    unfold spelled? at hread
    split at hread
    · cases hread
      exact .bare
    split at hread
    · exact .hyphenated (hungroup.mp hread)
    split at hread
    · obtain ⟨es, hes, hin⟩ := Option.bind_eq_some_iff.mp hread
      rw [unbrace?_eq_some_iff.mp hes]
      exact .braced (hungroup.mp hin)
    split at hread
    · obtain ⟨es, hes, hin⟩ := Option.bind_eq_some_iff.mp hread
      obtain ⟨name, hname, rfl⟩ := dropUrn?_eq_some_iff.mp hes
      exact .behind hname (hungroup.mp hin)
    · cases hread
  · intro hspelling
    cases hspelling with
    | bare => exact if_pos h.count
    | hyphenated hin =>
      have hlength := hin.length.2
      rw [spelled?, if_neg (by omega), if_pos hlength, hungroup.mpr hin]
    | @braced es hin =>
      have hlength : ('\x7b' :: (es ++ ['\x7d'])).length = 38 := by simp [hin.length.2]
      rw [spelled?, if_neg (by omega), if_neg (by omega), if_pos hlength,
        unbrace?_eq_some_iff.mpr rfl, Option.bind_some, hungroup.mpr hin]
    | @behind name es hname hin =>
      have hlength : (name ++ es).length = 45 := by
        rw [List.length_append, hin.length.2, ← List.length_map (f := Char.toLower), hname]
        rfl
      rw [spelled?, if_neg (by omega), if_neg (by omega), if_neg (by omega), if_pos hlength,
        dropUrn?_eq_some_iff.mpr ⟨name, hname, rfl⟩, Option.bind_some, hungroup.mpr hin]

/-! ## What is read, and what is written instead -/

/-- **A text is read as a UUID** just if it spells its bytes. -/
theorem parse?_eq_some_iff {s : String} : parse? s = some u ↔
    ∃ ds, AreDigits ds ∧ Spelling IsUrn ds (Text.trimChars s.toList) ∧
      Text.Hex.decodeChars ds = some u.bytes := by
  unfold parse?
  simp only [Option.bind_eq_some_iff]
  constructor
  · rintro ⟨ds, hread, bytes, hbytes, hu⟩
    obtain ⟨hlength, hu⟩ := Option.dite_none_right_eq_some.mp hu
    cases hu
    have hdigits : AreDigits ds := by
      refine ⟨by rw [Text.Hex.length_of_decodeChars hbytes, hlength], ?_⟩
      exact (Text.Hex.isSome_decodeChars_iff.mp (Option.isSome_of_eq_some hbytes)).2
    exact ⟨ds, hdigits, (spelled?_eq_some_iff hdigits).mp hread, hbytes⟩
  · rintro ⟨ds, hdigits, hspelling, hbytes⟩
    exact ⟨ds, (spelled?_eq_some_iff hdigits).mpr hspelling, u.bytes, hbytes,
      dif_pos u.length_bytes⟩

/-- The digits of a spelling stand for sixteen bytes. -/
theorem AreDigits.exists_uuid (h : AreDigits ds) :
    ∃ u : Uuid, Text.Hex.decodeChars ds = some u.bytes := by
  have hsome : (Text.Hex.decodeChars ds).isSome = true :=
    Text.Hex.isSome_decodeChars_iff.mpr ⟨by rw [h.count], h.hex⟩
  obtain ⟨bytes, hbytes⟩ := Option.isSome_iff_exists.mp hsome
  have hlength := Text.Hex.length_of_decodeChars hbytes
  rw [h.count] at hlength
  exact ⟨⟨bytes, by omega⟩, hbytes⟩

theorem areDigits_digits (u : Uuid) : AreDigits u.digits :=
  ⟨u.length_digits, fun _ hc => Text.Hex.isDigit_of_mem_encodeChars hc⟩

/-- **The written form** is the digits that were read, in lower case and with hyphens. -/
theorem text_of_decodeChars (h : AreDigits ds) (hu : Text.Hex.decodeChars ds = some u.bytes) :
    Hyphenated (ds.map Char.toLower) cs ↔ cs = u.text.toList := by
  have hdigits : u.digits = ds.map Char.toLower := Text.Hex.encodeChars_of_decodeChars hu
  rw [hyphenated_iff_eq (by rw [List.length_map, h.count]), text, hdigits, String.toList_ofList]

/-- Without the hyphens the digits are left. -/
theorem Hyphenated.filter (h : Hyphenated ds cs) (hds : '-' ∉ ds) :
    cs.filter (· ≠ '-') = ds := by
  obtain ⟨a, b, c, d, e, -, rfl, rfl⟩ := hyphenated_iff.mp h
  have hself {as : List Char} (has : '-' ∉ as) : as.filter (· ≠ '-') = as :=
    List.filter_eq_self.mpr fun x hx => decide_eq_true fun heq => has (heq ▸ hx)
  simp only [List.mem_append, not_or] at hds
  simp only [List.filter_append, List.filter_cons, ne_eq, not_true_eq_false, decide_false,
    Bool.false_eq_true, if_false, hself hds.1, hself hds.2.1, hself hds.2.2.1, hself hds.2.2.2.1,
    hself hds.2.2.2.2]

theorem hyphenated_text (u : Uuid) : Hyphenated u.digits u.text.toList := by
  rw [hyphenated_iff_eq u.length_digits, text, String.toList_ofList]

/-- The digits of a written form are in lower case. -/
theorem written (u : Uuid) :
    ∃ ds, AreDigits ds ∧ Hyphenated (ds.map Char.toLower) u.text.toList :=
  ⟨u.digits, u.areDigits_digits,
    (text_of_decodeChars u.areDigits_digits (Text.Hex.decodeChars_encodeChars u.bytes)).mpr rfl⟩

theorem filter_text (u : Uuid) : u.text.toList.filter (· ≠ '-') = u.digits :=
  u.hyphenated_text.filter u.areDigits_digits.no_hyphen

theorem isBlank_digit : ∀ n : Fin 16, Text.isBlank (Text.Hex.digit n) = false := by
  decide

theorem isBlank_of_mem_digits {c : Char} (h : c ∈ u.digits) : Text.isBlank c = false := by
  obtain ⟨n, hn, rfl⟩ := Text.Hex.exists_of_mem_encodeChars h
  exact isBlank_digit ⟨n, hn⟩

/-- Nothing in a written form is blank. -/
theorem isBlank_of_mem_text {c : Char} (h : c ∈ u.text.toList) : Text.isBlank c = false := by
  by_cases hc : c = '-'
  · rw [hc]
    decide
  · refine isBlank_of_mem_digits (u := u) ?_
    rw [← filter_text]
    exact List.mem_filter.mpr ⟨h, decide_eq_true hc⟩

/-- **A UUID is read from what is written of it.** -/
theorem parse?_text (u : Uuid) : parse? u.text = some u := by
  refine parse?_eq_some_iff.mpr ⟨u.digits, u.areDigits_digits, ?_, ?_⟩
  · rw [Text.trimChars_eq_self fun c hc => isBlank_of_mem_text hc]
    exact .hyphenated u.hyphenated_text
  · exact Text.Hex.decodeChars_encodeChars u.bytes

theorem without_hyphens (u : Uuid) : Text.without "-" u.text = .ofList u.digits := by
  rw [Text.without, ← filter_text]
  refine congrArg String.ofList (List.filter_congr fun c _ => ?_)
  simp

/-- A UUID is read from its digits alone. -/
theorem parse?_without_hyphens (u : Uuid) : parse? (Text.without "-" u.text) = some u := by
  refine parse?_eq_some_iff.mpr ⟨u.digits, u.areDigits_digits, ?_, ?_⟩
  · rw [without_hyphens, String.toList_ofList,
      Text.trimChars_eq_self fun c hc => isBlank_of_mem_digits hc]
    exact .bare
  · exact Text.Hex.decodeChars_encodeChars u.bytes

theorem text_injective {u v : Uuid} (h : u.text = v.text) : u = v :=
  Option.some.inj ((parse?_text u).symm.trans (h ▸ parse?_text v))

/-! ## Version and variant -/

theorem getElem?_hyphenate (h : ds.length = 32) :
    (hyphenate ds)[14]? = ds[12]? ∧ (hyphenate ds)[19]? = ds[16]? := by
  simp [hyphenate, h]

/-- The third group begins with the version, the fourth with the bits of the variant. -/
theorem getElem?_text (u : Uuid) :
    u.text.toList[14]? = some (Text.Hex.digit u.version) ∧
      u.text.toList[19]? = some (Text.Hex.digit ((u.bytes.getD 8 0).toNat / 16)) := by
  have hdigit (i : Nat) (hi : i < 16) :
      u.digits[2 * i]? = some (Text.Hex.digit ((u.bytes.getD i 0).toNat / 16)) := by
    rw [digits, Text.Hex.getElem?_encodeChars, List.getD_eq_getElem?_getD,
      List.getElem?_eq_getElem (by rw [u.length_bytes]; exact hi), Option.map_some,
      Option.getD_some]
  rw [text, String.toList_ofList, (getElem?_hyphenate u.length_digits).1,
    (getElem?_hyphenate u.length_digits).2]
  exact ⟨hdigit 6 (by decide), hdigit 8 (by decide)⟩

theorem getD_stamp (version : UInt8) {bytes : List UInt8} (h : bytes.length = 16) :
    (stamp version bytes).getD 6 0 = withVersion version (bytes.getD 6 0) ∧
      (stamp version bytes).getD 8 0 = withVariant (bytes.getD 8 0) := by
  simp [stamp, List.getD_eq_getElem?_getD, h]

theorem withVersion_high_fin : ∀ n : Fin 256, (withVersion 5 (.ofNat n)).toNat / 16 = 5 := by
  decide +kernel

theorem withVersion_high (b : UInt8) : (withVersion 5 b).toNat / 16 = 5 := by
  simpa using withVersion_high_fin ⟨b.toNat, b.toNat_lt⟩

theorem withVariant_high_fin : ∀ n : Fin 256,
    Text.Hex.digit ((withVariant (.ofNat n)).toNat / 16) ∈ ['8', '9', 'a', 'b'] := by
  decide +kernel

theorem withVariant_high (b : UInt8) :
    Text.Hex.digit ((withVariant b).toNat / 16) ∈ ['8', '9', 'a', 'b'] := by
  simpa only [UInt8.ofNat_toNat] using withVariant_high_fin ⟨b.toNat, b.toNat_lt⟩

/-- **A derived UUID** begins its third group with the version 5, and its fourth with one of the
four digits of the usual variant. -/
theorem text_derive (name : String) :
    (derive name).text.toList[14]? = some '5' ∧
      ∃ c ∈ ['8', '9', 'a', 'b'], (derive name).text.toList[19]? = some c := by
  have hlength : ((Digest.sha1 (dnsNamespace ++ name.toUTF8.toList)).take 16).length = 16 := by
    simp [Digest.length_sha1]
  obtain ⟨hversion, hvariant⟩ := getD_stamp 5 hlength
  obtain ⟨htext, htext'⟩ := getElem?_text (derive name)
  constructor
  · have hhigh : (derive name).version = 5 := by
      rw [version, derive, hversion, withVersion_high]
    rw [htext, hhigh]
    rfl
  · refine ⟨_, ?_, htext'⟩
    rw [derive, hvariant]
    exact withVariant_high _

/-! ## The normal form -/

/-- What is written instead of a text that spells a UUID. -/
def normal? (s : String) : Option String := (parse? s).map text

/-- A text spells some digits, with or without blanks around it. -/
structure Spells (named : List Char → Prop) (s : String) (ds : List Char) : Prop where
  digits : AreDigits ds
  spelling : Spelling named ds (Text.trimChars s.toList)

variable {s t : String}

theorem Spells.parse? (h : Spells IsUrn s ds) :
    ∃ u, Uuid.parse? s = some u ∧ Text.Hex.decodeChars ds = some u.bytes := by
  obtain ⟨u, hu⟩ := h.digits.exists_uuid
  exact ⟨u, parse?_eq_some_iff.mpr ⟨ds, h.digits, h.spelling, hu⟩, hu⟩

theorem normal?_text (u : Uuid) : normal? u.text = some u.text := by
  rw [normal?, parse?_text, Option.map_some]

theorem normal?_eq_some_iff {n : String} : normal? s = some n ↔
    ∃ ds, Spells IsUrn s ds ∧ Hyphenated (ds.map Char.toLower) n.toList := by
  constructor
  · intro hn
    obtain ⟨u, hu, rfl⟩ := Option.map_eq_some_iff.mp hn
    obtain ⟨ds, hdigits, hspelling, hbytes⟩ := parse?_eq_some_iff.mp hu
    exact ⟨ds, ⟨hdigits, hspelling⟩, (text_of_decodeChars hdigits hbytes).mpr rfl⟩
  · rintro ⟨ds, hspells, hn⟩
    obtain ⟨u, hu, hbytes⟩ := hspells.parse?
    rw [text_of_decodeChars hspells.digits hbytes] at hn
    rw [normal?, hu, Option.map_some, String.toList_injective hn]

/-- The same is written for two texts just if they spell the same bytes. -/
theorem normal?_eq_iff (hs : Spells IsUrn s ds) (ht : Spells IsUrn t es) :
    normal? s = normal? t ↔ Text.Hex.decodeChars ds = Text.Hex.decodeChars es := by
  obtain ⟨u, hu, hds⟩ := hs.parse?
  obtain ⟨v, hv, hes⟩ := ht.parse?
  rw [normal?, normal?, hu, hv, hds, hes, Option.map_some, Option.map_some, Option.some_inj,
    Option.some_inj]
  constructor
  · intro htext
    rw [text_injective htext]
  · intro hbytes
    exact congrArg text (by cases u; cases v; cases hbytes; rfl)

/-- **There is one written form.** -/
structure Canonical (t : String) : Prop where
  /-- A text is accepted just if it spells thirty-two digits. The same digits are written, in
  lower case and with hyphens. -/
  accepted : ∀ n, normal? t = some n ↔
    ∃ ds, Spells IsUrn t ds ∧ Hyphenated (ds.map Char.toLower) n.toList
  /-- What is written is accepted as it is, and without its hyphens too. -/
  fixed : ∀ n, normal? t = some n → normal? n = some n ∧ normal? (Text.without "-" n) = some n
  /-- The same is written for another text just if the two spell the same bytes. -/
  same : ∀ s ds es, Spells IsUrn t ds → Spells IsUrn s es →
    (normal? t = normal? s ↔ Text.Hex.decodeChars ds = Text.Hex.decodeChars es)
  /-- What is derived from a name is written like that from the start. -/
  derived : normal? (derive t).text = some (derive t).text
  /-- It has the version 5 and the usual variant. -/
  stamped : (derive t).text.toList[14]? = some '5' ∧
    ∃ c ∈ ['8', '9', 'a', 'b'], (derive t).text.toList[19]? = some c

theorem canonical (t : String) : Canonical t where
  accepted _ := normal?_eq_some_iff
  fixed n hn := by
    obtain ⟨u, -, rfl⟩ := Option.map_eq_some_iff.mp hn
    exact ⟨normal?_text u, by rw [normal?, parse?_without_hyphens, Option.map_some]⟩
  same _ _ _ ht hs := normal?_eq_iff ht hs
  derived := normal?_text _
  stamped := text_derive t

/-- A name in capitals is accepted, so the name may not be fixed to its letters in lower case. -/
theorem capital_name_accepted :
    let t := "URN:UUID:f0b188f8-9f2d-4f8d-abe4-c3107516e7ce"
    (normal? t).isSome = true ∧ ¬∃ ds, Spells (· = urn) t ds := by
  refine ⟨by decide +kernel, ?_⟩
  rintro ⟨ds, hdigits, hspelling⟩
  generalize hcs : Text.trimChars _ = cs at hspelling
  have hhead : cs.head? = some 'U' := hcs ▸ by decide
  have hlength : cs.length = 45 := hcs ▸ by decide
  cases hspelling with
  | bare => cases hdigits.count.symm.trans hlength
  | hyphenated hin => cases hin.length.2.symm.trans hlength
  | braced => cases hhead
  | behind hname =>
    subst hname
    cases hhead

end Uuid

end ArcadeUplink
