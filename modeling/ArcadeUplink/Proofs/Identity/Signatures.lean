import ArcadeUplink.Identity.Signature
import ArcadeUplink.Proofs.Text.Hex

/-!
# What is signed, and what is written of it

The signer is asked once if the digits of the UUID are bytes, and not at all otherwise
(`attended_of_request`, `attended_of_none`). What he is asked to sign is a hash of these bytes and
the time, so it is the same for digits of either case. What he returns is written in lower-case
digits, from which the same bytes are read again.

`Faithful` puts this together. It is said of a signer with a state of his own, who may answer the
same request differently each time; a signer without effects is a case of it.
-/

namespace ArcadeUplink.Signature

variable {σ : Type} {ask : Request → StateM σ (Option (List UInt8))} {s : σ}
  {key signature : List UInt8} {digits time text : String} {r : Request}

/-- Whether a character is a hexadecimal digit in lower case. -/
def IsLower (c : Char) : Prop := ('0' ≤ c ∧ c ≤ '9') ∨ ('a' ≤ c ∧ c ≤ 'f')

/-- The digits that are read as bytes: an even number of them, of either case. -/
def AreBytes (digits : String) : Prop :=
  digits.length % 2 = 0 ∧ ∀ c ∈ digits.toList, IsLower c ∨ ('A' ≤ c ∧ c ≤ 'F')

theorem exists_decode_iff : (∃ bytes, Text.Hex.decode digits = some bytes) ↔ AreBytes digits := by
  rw [Text.Hex.decode, ← Option.isSome_iff_exists, Text.Hex.isSome_decodeChars_iff,
    String.length_toList]
  simp only [Text.Hex.isDigit_iff, AreBytes, IsLower, or_assoc]

theorem request?_eq_some_iff : request? key digits time = some r ↔
    ∃ bytes, Text.Hex.decode digits = some bytes ∧
      ⟨Digest.sha256 (bytes ++ time.toUTF8.toList), key⟩ = r := by
  rw [request?, digest?, Option.map_map, Option.map_eq_some_iff]
  rfl

/-- Digits in either case ask for the same. -/
theorem decode_congr {digits' : String}
    (h : digits'.toList.map Char.toLower = digits.toList.map Char.toLower) :
    Text.Hex.decode digits' = Text.Hex.decode digits := by
  rw [Text.Hex.decode, ← Text.Hex.decodeChars_map_toLower, h, Text.Hex.decodeChars_map_toLower,
    Text.Hex.decode]

/-! ## The exchange with the signer -/

theorem attended_of_none (h : request? key digits time = none) :
    attended ask s key digits time = (none, []) := by
  rw [attended, signWith, h]
  rfl

theorem attended_of_request (h : request? key digits time = some r) :
    attended ask s key digits time =
      (((ask r).run s).1.bind written?, [⟨r, ((ask r).run s).1⟩]) := by
  rw [attended, signWith, h]
  rfl

theorem sign_of_none {signer : Signer} (h : request? key digits time = none) :
    sign signer key digits time = none := by
  rw [sign, signWith, h]
  rfl

theorem sign_of_request {signer : Signer} (h : request? key digits time = some r) :
    sign signer key digits time = (signer r).bind written? := by
  rw [sign, signWith, h]
  rfl

/-! ## The written signature -/

theorem written?_eq_some_iff : written? signature = some text ↔
    (1 ≤ signature.length ∧ signature.length ≤ 72) ∧ Text.Hex.encode signature = text := by
  unfold written?
  rw [Option.ite_none_left_eq_some, Option.some_inj, not_or, ← ne_eq, ← List.length_pos_iff,
    maxLength, Nat.not_lt]
  rfl

/-- What is written of a signature: lower-case digits, from which it is read again. -/
structure Written (signature : List UInt8) (text : String) : Prop where
  lower : ∀ c ∈ text.toList, IsLower c
  even : text.length % 2 = 0
  short : text.length ≤ 144
  read : Text.Hex.decode text = some signature

theorem written_of_written? (h : written? signature = some text) : Written signature text := by
  obtain ⟨⟨-, hle⟩, rfl⟩ := written?_eq_some_iff.mp h
  have hlength : (Text.Hex.encode signature).length = 2 * signature.length := by
    rw [Text.Hex.encode, String.length_ofList, Text.Hex.length_encodeChars]
  refine ⟨fun c hc => ?_, by omega, by omega, Text.Hex.decode_encode signature⟩
  rw [Text.Hex.encode, String.toList_ofList] at hc
  exact Text.Hex.lower_of_mem_encodeChars hc

/-! ## The law -/

/-- **Signing encodes exactly what was signed**, whoever signs and in whatever state he is. -/
structure Faithful (ask : Request → StateM σ (Option (List UInt8))) (s : σ) (key : List UInt8)
    (digits time : String) : Prop where
  /-- The signer is asked just if the digits are bytes. -/
  asked : (attended ask s key digits time).2 ≠ [] ↔ AreBytes digits
  /-- Then he is asked once, to sign the hash of these bytes and the time with the key. -/
  once : ∀ bytes, Text.Hex.decode digits = some bytes →
    let r := ⟨Digest.sha256 (bytes ++ time.toUTF8.toList), key⟩
    (attended ask s key digits time).2 = [⟨r, ((ask r).run s).1⟩]
  /-- There is a signature just if he was asked and returned one of a length that can be sent. -/
  returned : (attended ask s key digits time).1.isSome = true ↔
    ∃ r signature, (attended ask s key digits time).2 = [⟨r, some signature⟩] ∧
      1 ≤ signature.length ∧ signature.length ≤ 72
  /-- What he returned is written down. -/
  written : ∀ text, (attended ask s key digits time).1 = some text →
    ∃ r signature, (attended ask s key digits time).2 = [⟨r, some signature⟩] ∧
      Written signature text
  /-- The digits count through the bytes that are read from them. -/
  bytes_only : ∀ digits', Text.Hex.decode digits' = Text.Hex.decode digits →
    attended ask s key digits' time = attended ask s key digits time
  /-- Their case does not count. -/
  any_case : ∀ digits', digits'.toList.map Char.toLower = digits.toList.map Char.toLower →
    digest? digits' time = digest? digits time
  /-- With a signer without effects it is the same. -/
  plain : ∀ signer, ask = (fun r => pure (signer r)) →
    sign signer key digits time = (attended ask s key digits time).1

theorem faithful_to_signed (ask : Request → StateM σ (Option (List UInt8))) (s : σ)
    (key : List UInt8) (digits time : String) : Faithful ask s key digits time := by
  have hbytes : AreBytes digits ↔ ∃ r, request? key digits time = some r := by
    simp only [← exists_decode_iff, request?_eq_some_iff]
    constructor
    · rintro ⟨bytes, h⟩
      exact ⟨_, bytes, h, rfl⟩
    · rintro ⟨r, bytes, h, -⟩
      exact ⟨bytes, h⟩
  constructor
  case asked =>
    rw [hbytes]
    cases h : request? key digits time with
    | none => simp [attended_of_none h]
    | some r => simp [attended_of_request h]
  case once =>
    intro bytes h r
    rw [attended_of_request (request?_eq_some_iff.mpr ⟨bytes, h, rfl⟩)]
  case returned =>
    cases h : request? key digits time with
    | none => simp [attended_of_none h]
    | some r =>
      rw [attended_of_request h]
      cases ((ask r).run s).1 with
      | none => simp
      | some signature =>
        simp only [Option.bind_some, Option.isSome_iff_exists, written?_eq_some_iff]
        constructor
        · rintro ⟨text, hlength, -⟩
          exact ⟨r, signature, rfl, hlength⟩
        · rintro ⟨r', signature', hlog, hlength⟩
          cases hlog
          exact ⟨_, hlength, rfl⟩
  case written =>
    intro text htext
    cases h : request? key digits time with
    | none =>
      rw [attended_of_none h] at htext
      cases htext
    | some r =>
      rw [attended_of_request h] at htext ⊢
      obtain ⟨signature, hreply, hwritten⟩ := Option.bind_eq_some_iff.mp htext
      exact ⟨r, signature, by rw [hreply], written_of_written? hwritten⟩
  case bytes_only =>
    intro digits' h
    rw [attended, attended, signWith, signWith, request?, request?, digest?, digest?, h]
  case any_case =>
    intro digits' h
    rw [digest?, digest?, decode_congr h]
  case plain =>
    rintro signer rfl
    cases h : request? key digits time with
    | none => rw [sign_of_none h, attended_of_none h]
    | some r =>
      rw [sign_of_request h, attended_of_request h]
      rfl

end ArcadeUplink.Signature
