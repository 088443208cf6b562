import ArcadeUplink.Proofs.Json.Decoding
import ArcadeUplink.Roster.Profile

/-!
# What a value tells of a player

A profile is told by the members of an object, whatever else it has, or by the items of a
list in their order (`Profile.Told`). Its number, name and initials have to be there; the
other two fields have defaults. The reader takes a value just if it tells a profile, and
then it is that one (`Profile.decode_eq_ok`). A seat is told likewise, by its position and
by what tells the profile of the player there (`Seat.decode_eq_ok`).

An object has each name once, where it comes from a text. Here it need not: of two members of
one name the first one counts, and both have to be of its kind.
-/

namespace ArcadeUplink

namespace Json

/-- Whether a value stands for a record, which it does as an object, or as a list that is no longer
than the record. -/
inductive IsRecord (name : String) (arity : Nat) : Json → Record → Prop where
  | object (ms : List (String × Json)) : IsRecord name arity (.object ms) (.members ms)
  | list {vs : List Json} (h : vs.length ≤ arity) :
    IsRecord name arity (.list vs) (.items name arity vs)

def IsText (v : Json) : Prop := ∃ s, v = .text s

def IsBool (v : Json) : Prop := ∃ b, v = .bool b

/-- Whether a value is a whole number of a range. -/
def IsIn (range : IntRange) (v : Json) : Prop := ∃ i, v = .int i ∧ i ∈ range

variable {name : String} {arity i : Nat} {v : Json} {r : Record}

/-- What stands for a record is opened and can be closed. -/
theorem isRecord_iff :
    IsRecord name arity v r ↔ Record.ofJson name arity v = .ok r ∧ r.close = .ok () := by
  constructor
  · rintro (ms | hlen)
    · exact ⟨rfl, rfl⟩
    · exact ⟨rfl, if_pos hlen⟩
  · rintro ⟨hopen, hclose⟩
    cases v with
    | object ms =>
      obtain rfl := Except.ok.inj hopen
      exact .object ms
    | list vs =>
      obtain rfl := Except.ok.inj hopen
      rw [Record.close] at hclose
      split at hclose
      · next hlen => exact .list hlen
      · cases hclose
    | _ => cases hopen

theorem check_asText : asText.check v = .ok () ↔ v.IsText :=
  check_eq_ok.trans (exists_congr fun _ => asText_eq_ok)

theorem check_asBool : asBool.check v = .ok () ↔ v.IsBool :=
  check_eq_ok.trans (exists_congr fun _ => asBool_eq_ok)

theorem check_asInt {range : IntRange} : (asInt range).check v = .ok () ↔ v.IsIn range :=
  check_eq_ok.trans (exists_congr fun _ => asInt_eq_ok)

theorem check_asOption {α : Type} {d : Decoder α} :
    (asOption d).check v = .ok () ↔ v = .null ∨ d.check v = .ok () := by
  simp only [check_eq_ok, asOption_eq_ok]
  by_cases hv : v = .null
  · simp [hv]
  · simp [hv, exists_comm]

namespace Record

theorem field_text {s : String} :
    r.field i name asText = .ok s ↔ r.value? i name = some (.text s) := by
  simp [field_eq_ok, asText_eq_ok]

theorem field_int {range : IntRange} {n : Int} :
    r.field i name (asInt range) = .ok n ↔ r.value? i name = some (.int n) ∧ n ∈ range := by
  rw [field_eq_ok]
  constructor
  · rintro ⟨v, hv, h⟩
    obtain ⟨rfl, hmem⟩ := asInt_eq_ok.mp h
    exact ⟨hv, hmem⟩
  · rintro ⟨hv, hmem⟩
    exact ⟨.int n, hv, asInt_eq_ok.mpr ⟨rfl, hmem⟩⟩

/-- A natural number is read if the record has it. -/
theorem field_nat {range : IntRange} (hrange : range.least = 0) {n : Nat} :
    (∃ k, r.field i name (asInt range) = .ok k ∧ k.toNat = n) ↔
      r.value? i name = some (.nat n) ∧ (n : Int) ∈ range := by
  simp only [field_int]
  constructor
  · rintro ⟨k, ⟨hk, hmem⟩, rfl⟩
    have hnonneg : 0 ≤ k := hrange ▸ hmem.1
    rw [nat, Int.toNat_of_nonneg hnonneg]
    exact ⟨hk, hmem⟩
  · intro h
    exact ⟨n, h, Int.toNat_natCast n⟩

theorem fieldD_bool {b default : Bool} : r.fieldD i name asBool default = .ok b ↔
    (r.value? i name).getD (.bool default) = .bool b := by
  rw [fieldD_eq_ok]
  cases r.value? i name with
  | none => simpa using eq_comm
  | some v => simp [asBool_eq_ok]

/-- A text that may be absent is empty if it is. -/
theorem fieldD_text {s : String} :
    (∃ o, r.fieldD i name (asOption asText) none = .ok o ∧ o.getD "" = s) ↔
      r.value? i name = some (.text s) ∨ s = "" ∧ (r.value? i name).getD .null = .null := by
  simp only [fieldD_eq_ok, asOption_eq_ok, asText_eq_ok]
  cases r.value? i name with
  | none => simp
  | some v => cases v <;> simp

end Record

end Json

namespace Profile

/-- Of what kind the fields of a profile are. -/
def kinds : List (String × (Json → Prop)) :=
  [("id", Json.IsIn .u64), ("cached_display_name", Json.IsText), ("initials", Json.IsText),
    ("prefer_initials", Json.IsBool), ("profile_picture", fun v => v = .null ∨ v.IsText)]

/-- **What a record tells of a player.** -/
structure ToldBy (r : Json.Record) (p : Profile) : Prop where
  id : r.value? 0 "id" = some (.nat p.id) ∧ (p.id : Int) ∈ Json.IntRange.u64
  name : r.value? 1 "cached_display_name" = some (.text p.name)
  initials : r.value? 2 "initials" = some (.text p.initials)
  preferInitials : (r.value? 3 "prefer_initials").getD (.bool false) = .bool p.preferInitials
  pictureUrl : r.value? 4 "profile_picture" = some (.text p.pictureUrl) ∨
    p.pictureUrl = "" ∧ (r.value? 4 "profile_picture").getD .null = .null
  kinds : ∀ k ∈ kinds, r.Every k.1 k.2

/-- Whether a value tells a profile. -/
def Told (v : Json) (p : Profile) : Prop := ∃ r, Json.IsRecord "ProfileFields" 5 v r ∧ ToldBy r p

variable {v : Json} {r : Json.Record} {p : Profile}

theorem check_eq_ok : r.check [("id", (Json.asInt .u64).check),
    ("cached_display_name", Json.asText.check), ("initials", Json.asText.check),
    ("prefer_initials", Json.asBool.check),
    ("profile_picture", (Json.asOption Json.asText).check)] = .ok () ↔
      ∀ k ∈ kinds, r.Every k.1 k.2 := by
  rw [Json.Record.check_eq_ok (by decide)]
  simp only [kinds, List.forall_mem_cons, Json.check_asText, Json.check_asBool, Json.check_asInt,
    Json.check_asOption]
  simp

/-- **A profile is read** from a value that tells it. -/
theorem decode_eq_ok : decode v = .ok p ↔ Told v p := by
  unfold decode Told
  simp only [Json.bind_eq_ok, Json.isRecord_iff]
  constructor
  · rintro ⟨r, hopen, _, hcheck, id, hid, name, hname, initials, hinitials, initial, hprefer,
      picture, hpicture, _, hclose, h⟩
    obtain rfl := Except.ok.inj h
    refine ⟨r, ⟨hopen, hclose⟩, ?_⟩
    exact {
      id := (Json.Record.field_nat rfl).mp ⟨id, hid, rfl⟩
      name := Json.Record.field_text.mp hname
      initials := Json.Record.field_text.mp hinitials
      preferInitials := Json.Record.fieldD_bool.mp hprefer
      pictureUrl := Json.Record.fieldD_text.mp ⟨picture, hpicture, rfl⟩
      kinds := check_eq_ok.mp hcheck }
  · rintro ⟨r, ⟨hopen, hclose⟩, hid, hname, hinitials, hprefer, hpicture, hkinds⟩
    obtain ⟨id, hid, hp⟩ := (Json.Record.field_nat rfl).mpr hid
    obtain ⟨picture, hpicture, hurl⟩ := Json.Record.fieldD_text.mpr hpicture
    refine ⟨r, hopen, (), check_eq_ok.mpr hkinds, id, hid, p.name, Json.Record.field_text.mpr hname,
      p.initials, Json.Record.field_text.mpr hinitials, p.preferInitials,
      Json.Record.fieldD_bool.mpr hprefer, picture, hpicture, (), hclose, ?_⟩
    rw [hp, hurl]
    rfl

theorem check_decode : Json.Decoder.check decode v = .ok () ↔ ∃ p, Told v p :=
  Json.check_eq_ok.trans (exists_congr fun _ => decode_eq_ok)

theorem Told.ne_null (h : Told v p) : v ≠ .null := by
  rintro rfl
  cases decode_eq_ok.mpr h

end Profile

namespace Seat

/-- Of what kind the fields of a seat are. -/
def kinds : List (String × (Json → Prop)) :=
  [("position", Json.IsIn .u32), ("player", fun v => v = .null ∨ ∃ p, Profile.Told v p)]

/-- **What a record tells of a seat** where somebody is. -/
structure ToldBy (r : Json.Record) (position : Nat) (p : Profile) : Prop where
  position : r.value? 0 "position" = some (.nat position) ∧ (position : Int) ∈ Json.IntRange.u32
  player : ∃ v, r.value? 1 "player" = some v ∧ Profile.Told v p
  kinds : ∀ k ∈ kinds, r.Every k.1 k.2

/-- Whether a value tells who is at a position. -/
def Told (v : Json) (position : Nat) (p : Profile) : Prop :=
  ∃ r, Json.IsRecord "ProfileEntry" 2 v r ∧ ToldBy r position p

variable {v : Json} {r : Json.Record} {position : Nat} {p : Profile}

theorem check_eq_ok : r.check [("position", (Json.asInt .u32).check),
    ("player", (Json.asOption Profile.decode).check)] = .ok () ↔
      ∀ k ∈ kinds, r.Every k.1 k.2 := by
  rw [Json.Record.check_eq_ok (by decide)]
  simp only [kinds, List.forall_mem_cons, Json.check_asInt, Json.check_asOption,
    Profile.check_decode]
  simp

theorem optional_eq_some : r.optional 1 "player" Profile.decode = .ok (some p) ↔
    ∃ v, r.value? 1 "player" = some v ∧ Profile.Told v p := by
  rw [Json.Record.optional_eq_some]
  constructor
  · rintro ⟨v, hv, h⟩
    obtain ⟨-, hnone⟩ | ⟨-, q, hq, heq⟩ := Json.asOption_eq_ok.mp h
    · cases hnone
    · obtain rfl := Option.some.inj heq
      exact ⟨v, hv, Profile.decode_eq_ok.mp hq⟩
  · rintro ⟨v, hv, h⟩
    exact ⟨v, hv, Json.asOption_eq_ok.mpr (.inr ⟨h.ne_null, p, Profile.decode_eq_ok.mpr h, rfl⟩)⟩

/-- **A seat where somebody is, is read** from a value that tells it. -/
theorem decode_eq_ok : decode v = .ok ⟨position, some p⟩ ↔ Told v position p := by
  unfold decode Told
  simp only [Json.bind_eq_ok, Json.isRecord_iff]
  constructor
  · rintro ⟨r, hopen, _, hcheck, n, hn, player, hplayer, _, hclose, h⟩
    obtain ⟨hposition, rfl⟩ := Seat.mk.inj (Except.ok.inj h)
    refine ⟨r, ⟨hopen, hclose⟩, ?_⟩
    exact {
      position := (Json.Record.field_nat rfl).mp ⟨n, hn, hposition⟩
      player := optional_eq_some.mp hplayer
      kinds := check_eq_ok.mp hcheck }
  · rintro ⟨r, ⟨hopen, hclose⟩, hposition, hplayer, hkinds⟩
    obtain ⟨n, hn, hposition⟩ := (Json.Record.field_nat rfl).mpr hposition
    refine ⟨r, hopen, (), check_eq_ok.mpr hkinds, n, hn, some p, optional_eq_some.mpr hplayer, (),
      hclose, ?_⟩
    rw [hposition]
    rfl

end Seat

end ArcadeUplink
