import ArcadeUplink.Device.Setup
import ArcadeUplink.Identity.Signature
import ArcadeUplink.Proofs.Identity.Spellings
import ArcadeUplink.Proofs.Json.Decoding

/-!
# The identity of a device

A description and settings are accepted just if the settings make sense and the description says
what it has to, which includes something to identify the device by (`exists_prepare_iff`). What the
device is identified by then is a UUID in its written form. The description that carries it is
accepted again, for the same UUID and the same server (`prepare_again`), and there is a digest of it
at any time (`digest?_signedUuid`).
-/

namespace ArcadeUplink

variable {d : DeviceInfo} {s s' : Settings} {u : Uuid} {time : String}

theorem Settings.validate_eq_ok_iff : s.validate = .ok () ↔ s.heartbeatMs ≠ 0 ∧ s.workers ≠ 0 := by
  unfold validate
  split
  · next hms => exact iff_of_false nofun fun h => h.1 hms
  · next hms =>
    split
    · next hworkers => exact iff_of_false nofun fun h => h.2 hworkers
    · next hworkers => exact iff_of_true rfl ⟨hms, hworkers⟩

/-- A UUID that is written down is no blank text. -/
theorem Uuid.isBlankText_text (u : Uuid) : Text.isBlankText u.text = false := by
  have hmem := List.mem_of_getElem? u.getElem?_text.1
  exact List.all_eq_false.mpr ⟨_, hmem, Bool.eq_false_iff.mp (isBlank_of_mem_text hmem)⟩

namespace Setup

theorem required_eq_ok_iff {field value : String} :
    required field value = .ok () ↔ Text.isBlankText value = false := by
  unfold required
  cases Text.isBlankText value with
  | true => exact iff_of_false nofun nofun
  | false => exact iff_of_true rfl rfl

/-- **What a device is identified by**: the UUID that it was given, or else its host identifier. -/
theorem identify_eq_ok_iff : identify d = .ok u ↔
    (Text.isBlankText d.uuid = false ∧ Uuid.parse? d.uuid = some u) ∨
      (Text.isBlankText d.uuid = true ∧ Text.isBlankText d.hostIdentifier = false ∧
        Uuid.derive (Text.trim d.hostIdentifier) = u) := by
  unfold identify
  cases Text.isBlankText d.uuid with
  | true =>
    cases Text.isBlankText d.hostIdentifier with
    | true => simp
    | false => simp
  | false =>
    cases Uuid.parse? d.uuid with
    | none => simp
    | some v => simp

/-- Whether there is something to identify a device by. -/
def Identifiable (d : DeviceInfo) : Prop :=
  (Text.isBlankText d.uuid = false ∧ (Uuid.parse? d.uuid).isSome = true) ∨
    (Text.isBlankText d.uuid = true ∧ Text.isBlankText d.hostIdentifier = false)

theorem exists_identify_iff : (∃ u, identify d = .ok u) ↔ Identifiable d := by
  simp only [identify_eq_ok_iff, exists_or, exists_and_left, ← Option.isSome_iff_exists,
    exists_eq', and_true]
  rfl

theorem identify_again (d : DeviceInfo) (u : Uuid) : identify { d with uuid := u.text } = .ok u :=
  identify_eq_ok_iff.mpr (.inl ⟨u.isBlankText_text, u.parse?_text⟩)

/-- What is made of a description and settings, and what is logged of it. -/
def made (d : DeviceInfo) (s : Settings) (u : Uuid) : Setup × List Log.Entry :=
  let address := Address.Server.resolve d.hostname
  ({ device := { d with uuid := u.text }, settings := s, uuid := u, baseUrl := address.url },
    addressLog d.hostname address)

variable {setup : Setup} {log : List Log.Entry} {result : Setup × List Log.Entry}

theorem prepare_eq_ok_iff : prepare d s = .ok result ↔
    s.validate = .ok () ∧ required "provider" d.provider = .ok () ∧
      required "game_code_version" d.gameCodeVersion = .ok () ∧
      ∃ u, identify d = .ok u ∧ made d s u = result := by
  unfold prepare
  simp only [Json.bind_eq_ok]
  constructor
  · rintro ⟨⟨⟩, hs, ⟨⟩, hprovider, ⟨⟩, hversion, u, hu, hmade⟩
    exact ⟨hs, hprovider, hversion, u, hu, Except.ok.inj hmade⟩
  · rintro ⟨hs, hprovider, hversion, u, hu, rfl⟩
    exact ⟨⟨⟩, hs, ⟨⟩, hprovider, ⟨⟩, hversion, u, hu, rfl⟩

/-- **What is accepted.** -/
structure Acceptable (d : DeviceInfo) (s : Settings) : Prop where
  beats : s.heartbeatMs ≠ 0
  workers : s.workers ≠ 0
  provider : Text.isBlankText d.provider = false
  version : Text.isBlankText d.gameCodeVersion = false
  identity : Identifiable d

theorem exists_prepare_iff : (∃ result, prepare d s = .ok result) ↔ Acceptable d s := by
  constructor
  · rintro ⟨result, h⟩
    obtain ⟨hs, hprovider, hversion, u, hu, -⟩ := prepare_eq_ok_iff.mp h
    obtain ⟨hbeats, hworkers⟩ := Settings.validate_eq_ok_iff.mp hs
    exact ⟨hbeats, hworkers, required_eq_ok_iff.mp hprovider, required_eq_ok_iff.mp hversion,
      exists_identify_iff.mp ⟨u, hu⟩⟩
  · intro h
    obtain ⟨u, hu⟩ := exists_identify_iff.mpr h.identity
    exact ⟨made d s u, prepare_eq_ok_iff.mpr ⟨Settings.validate_eq_ok_iff.mpr ⟨h.beats, h.workers⟩,
      required_eq_ok_iff.mpr h.provider, required_eq_ok_iff.mpr h.version, u, hu, rfl⟩⟩

/-- Of the description only the UUID is written anew. -/
theorem made_of_prepare (h : prepare d s = .ok (setup, log)) :
    identify d = .ok setup.uuid ∧ made d s setup.uuid = (setup, log) := by
  obtain ⟨-, -, -, u, hu, hmade⟩ := prepare_eq_ok_iff.mp h
  cases hmade
  exact ⟨hu, rfl⟩

/-- **A description that carries its UUID is accepted again**, for the same UUID, and the server is
the same. -/
theorem prepare_again (h : prepare d s = .ok (setup, log)) (hs : s'.validate = .ok ()) :
    prepare setup.device s' = .ok ({ setup with settings := s' }, log) := by
  obtain ⟨-, hprovider, hversion, u, -, hmade⟩ := prepare_eq_ok_iff.mp h
  cases hmade
  refine prepare_eq_ok_iff.mpr ⟨hs, hprovider, hversion, u, identify_again d u, ?_⟩
  rw [made]

/-! ## What is signed -/

/-- The digits that are signed are those of the UUID. -/
theorem signedUuid_eq (setup : Setup) : setup.signedUuid = .ofList setup.uuid.digits :=
  setup.uuid.without_hyphens

theorem areDigits_signedUuid (setup : Setup) : Uuid.AreDigits setup.signedUuid.toList := by
  rw [signedUuid_eq, String.toList_ofList]
  exact setup.uuid.areDigits_digits

/-- What a device has signed at a time. -/
def digest (setup : Setup) (time : String) : List UInt8 :=
  Digest.sha256 (setup.uuid.bytes ++ time.toUTF8.toList)

/-- **There is a digest at any time.** -/
theorem digest?_signedUuid (setup : Setup) (time : String) :
    Signature.digest? setup.signedUuid time = some (setup.digest time) := by
  unfold Signature.digest? Text.Hex.decode
  rw [signedUuid_eq, String.toList_ofList, Uuid.digits, Text.Hex.decodeChars_encodeChars,
    Option.map_some, digest]

end Setup

end ArcadeUplink
