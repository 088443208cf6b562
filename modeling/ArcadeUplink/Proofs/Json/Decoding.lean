import ArcadeUplink.Json.Decode

/-!
# What typed readers accept

Each reader of a simple value is paired with what it accepts: a text, a whole number
of a range, a list whose items are all accepted. Every law is an equivalence, so it
says what is read from a written value and also that nothing else is read as it.
-/

namespace ArcadeUplink.Json

instance : Membership Int IntRange := ⟨fun range i => range.least ≤ i ∧ i ≤ range.greatest⟩

instance (i : Int) (range : IntRange) : Decidable (i ∈ range) :=
  inferInstanceAs (Decidable (_ ∧ _))

theorem asText_eq_ok {v : Json} {s : String} : asText v = .ok s ↔ v = .text s := by
  cases v with
  | text t => exact ⟨fun h => congrArg text (Except.ok.inj h), fun h => congrArg _ (text.inj h)⟩
  | _ => exact ⟨nofun, nofun⟩

theorem asBool_eq_ok {v : Json} {b : Bool} : asBool v = .ok b ↔ v = .bool b := by
  cases v with
  | bool c => exact ⟨fun h => congrArg bool (Except.ok.inj h), fun h => congrArg _ (bool.inj h)⟩
  | _ => exact ⟨nofun, nofun⟩

theorem asInt_eq_ok {range : IntRange} {v : Json} {i : Int} :
    asInt range v = .ok i ↔ v = .int i ∧ i ∈ range := by
  cases v with
  | int j =>
    show (if j ∈ range then Except.ok j else Except.error (DecodeError.range j range.name)) = _ ↔ _
    split
    · next hrange =>
      constructor
      · intro h
        obtain rfl := Except.ok.inj h
        exact ⟨rfl, hrange⟩
      · rintro ⟨h, -⟩
        exact congrArg _ (int.inj h)
    · next hrange =>
      constructor
      · nofun
      · rintro ⟨h, hi⟩
        exact absurd (int.inj h ▸ hi) hrange
  | _ => exact ⟨nofun, fun h => nomatch h.1⟩

/-- What is left of a computation that came to a result. -/
theorem bind_eq_ok {ε α β : Type} {x : Except ε α} {f : α → Except ε β} {b : β} :
    (x >>= f) = .ok b ↔ ∃ a, x = .ok a ∧ f a = .ok b := by
  cases x with
  | error e => exact ⟨nofun, fun ⟨_, h, _⟩ => nomatch h⟩
  | ok a => exact ⟨fun h => ⟨a, rfl, h⟩, fun ⟨_, h, hf⟩ => Except.ok.inj h ▸ hf⟩

theorem map_eq_ok {ε α β : Type} {x : Except ε α} {f : α → β} {b : β} :
    x.map f = .ok b ↔ ∃ a, x = .ok a ∧ f a = b := by
  cases x with
  | error e => exact ⟨nofun, fun ⟨_, h, _⟩ => nomatch h⟩
  | ok a => exact ⟨fun h => ⟨a, rfl, Except.ok.inj h⟩, fun ⟨_, h, hf⟩ => Except.ok.inj h ▸ hf ▸ rfl⟩

/-- **A value that may be absent** is read from `null`, or from what it is read from itself. -/
theorem asOption_eq_ok {α : Type} {d : Decoder α} {v : Json} {o : Option α} :
    asOption d v = .ok o ↔
      (v = .null ∧ o = none) ∨ (v ≠ .null ∧ ∃ a, d v = .ok a ∧ o = some a) := by
  cases v with
  | null => simp [asOption, eq_comm (a := none)]
  | _ => simp [asOption, map_eq_ok, eq_comm (a := o)]

/-- **A byte is read** from the number that it is. -/
theorem byte_eq_ok {v : Json} {b : UInt8} :
    (∃ i, asInt .u8 v = .ok i ∧ i.toNat.toUInt8 = b) ↔ v = nat b.toNat := by
  constructor
  · rintro ⟨i, hi, rfl⟩
    obtain ⟨rfl, hleast, hgreatest⟩ := asInt_eq_ok.mp hi
    have hnat : (i.toNat.toUInt8).toNat = i.toNat := by
      rw [Nat.toUInt8, UInt8.toNat_ofNat', Nat.mod_eq_of_lt]
      simp only [IntRange.u8] at hleast hgreatest
      omega
    rw [nat, hnat, Int.toNat_of_nonneg hleast]
  · rintro rfl
    refine ⟨b.toNat, asInt_eq_ok.mpr ⟨rfl, Int.natCast_nonneg _, ?_⟩, ?_⟩
    · have hlt : b.toNat < 256 := b.toNat_lt
      simp only [IntRange.u8]
      omega
    · rw [Int.toNat_natCast]
      exact UInt8.ofNat_toNat

theorem mapM_eq_ok {α : Type} {d : Decoder α} {write : α → Json}
    (hd : ∀ v a, d v = .ok a ↔ v = write a) {items : List Json} {l : List α} :
    items.mapM d = .ok l ↔ items = l.map write := by
  induction items generalizing l with
  | nil =>
    rw [List.mapM_nil, eq_comm (a := []), List.map_eq_nil_iff]
    exact ⟨fun h => (Except.ok.inj h).symm, fun h => h ▸ rfl⟩
  | cons item items ih =>
    rw [List.mapM_cons]
    constructor
    · intro h
      obtain ⟨a, hitem, h⟩ := bind_eq_ok.mp h
      obtain ⟨as, hrest, h⟩ := bind_eq_ok.mp h
      obtain rfl := Except.ok.inj h
      rw [List.map_cons, (hd item a).mp hitem, ih.mp hrest]
    · intro h
      cases l with
      | nil => cases h
      | cons a as =>
        obtain ⟨rfl, hrest⟩ := List.cons.inj h
        rw [(hd _ a).mpr rfl, ih.mpr hrest]
        rfl

/-- **A list is read** if its items are what the values that were read are written as. -/
theorem asList_eq_ok {α : Type} {d : Decoder α} {write : α → Json}
    (hd : ∀ v a, d v = .ok a ↔ v = write a) {v : Json} {l : List α} :
    asList d v = .ok l ↔ v = .list (l.map write) := by
  cases v with
  | list items => exact (mapM_eq_ok hd).trans ⟨congrArg list, list.inj⟩
  | _ => exact ⟨nofun, nofun⟩

/-- The value of a field, wherever a record has it. -/
def Record.value? (r : Record) (i : Nat) (name : String) : Option Json :=
  match r with
  | .members ms => ms.lookup name
  | .items _ _ vs => vs[i]?

theorem Record.field_eq_ok {α : Type} {r : Record} {i : Nat} {name : String} {d : Decoder α}
    {a : α} : r.field i name d = .ok a ↔ ∃ v, r.value? i name = some v ∧ d v = .ok a := by
  unfold field value?
  cases r with
  | members ms =>
    dsimp only
    cases ms.lookup name with
    | none => exact ⟨nofun, fun ⟨_, h, _⟩ => nomatch h⟩
    | some v => exact ⟨fun h => ⟨v, rfl, h⟩, fun ⟨_, h, hd⟩ => Option.some.inj h ▸ hd⟩
  | items record arity vs =>
    dsimp only
    cases vs[i]? with
    | none => exact ⟨nofun, fun ⟨_, h, _⟩ => nomatch h⟩
    | some v => exact ⟨fun h => ⟨v, rfl, h⟩, fun ⟨_, h, hd⟩ => Option.some.inj h ▸ hd⟩

theorem Record.fieldD_eq_ok {α : Type} {r : Record} {i : Nat} {name : String} {d : Decoder α}
    {a default : α} : r.fieldD i name d default = .ok a ↔
      (r.value? i name = none ∧ a = default) ∨ ∃ v, r.value? i name = some v ∧ d v = .ok a := by
  unfold fieldD value?
  cases r with
  | members ms =>
    dsimp only
    generalize ms.lookup name = found
    cases found <;> simp [eq_comm (a := a)]
  | items record arity vs =>
    dsimp only
    generalize vs[i]? = found
    cases found <;> simp [eq_comm (a := a)]

theorem Record.optional_eq_some {α : Type} {r : Record} {i : Nat} {name : String} {d : Decoder α}
    {a : α} : r.optional i name d = .ok (some a) ↔
      ∃ v, r.value? i name = some v ∧ asOption d v = .ok (some a) := by
  cases r with
  | members ms =>
    unfold optional value?
    dsimp only
    generalize ms.lookup name = found
    cases found <;> simp
  | items record arity vs =>
    rw [optional]
    exact field_eq_ok

/-- A reader that is only asked whether it refuses accepts what it can read. -/
theorem check_eq_ok {α : Type} {d : Decoder α} {v : Json} :
    d.check v = .ok () ↔ ∃ a, d v = .ok a := by
  rw [Decoder.check, map_eq_ok]
  simp

/-- Whether every member of a name is of a kind, if the record is made of members. -/
def Record.Every (r : Record) (name : String) (kind : Json → Prop) : Prop :=
  match r with
  | .members ms => ∀ m ∈ ms, m.1 = name → kind m.2
  | .items .. => True

theorem Record.check_members {ms : List (String × Json)} {readers : List (String × Decoder Unit)} :
    (members ms).check readers = .ok () ↔
      ∀ m ∈ ms, ∀ d, readers.lookup m.1 = some d → d m.2 = .ok () := by
  unfold check
  dsimp only
  induction ms with
  | nil => exact iff_of_true rfl nofun
  | cons m ms ih =>
    rw [List.forall_mem_cons, ← ih]
    refine bind_eq_ok.trans ?_
    dsimp only
    generalize readers.lookup m.1 = found
    cases found with
    | none => simp
    | some d =>
      constructor
      · rintro ⟨⟨⟩, h, hrest⟩
        exact ⟨fun _ hd => Option.some.inj hd ▸ h, hrest⟩
      · rintro ⟨h, hrest⟩
        exact ⟨(), h d rfl, hrest⟩

/-- A list of readers finds under a name the one that is called so, if no two are. -/
theorem lookup_eq_some {α : Type} {l : List (String × α)} (hd : (l.map (·.1)).Nodup)
    {name : String} {a : α} : l.lookup name = some a ↔ (name, a) ∈ l := by
  induction l with
  | nil => exact iff_of_false nofun List.not_mem_nil
  | cons e l ih =>
    obtain ⟨key, b⟩ := e
    obtain ⟨hnew, hl⟩ := List.nodup_cons.mp hd
    by_cases hname : name = key
    · subst hname
      have hrest : (name, a) ∉ l := fun hmem => hnew (List.mem_map_of_mem (f := (·.1)) hmem)
      simp [List.lookup_cons_self, hrest, eq_comm]
    · have hne : (name == key) = false := beq_eq_false_iff_ne.mpr hname
      simp [List.lookup_cons, hne, ih hl, hname]

/-- **The members of an object are accepted** if every one that goes by the name of a reader is
accepted by it. -/
theorem Record.check_eq_ok {r : Record} {readers : List (String × Decoder Unit)}
    (hd : (readers.map (·.1)).Nodup) :
    r.check readers = .ok () ↔ ∀ e ∈ readers, r.Every e.1 fun v => e.2 v = .ok () := by
  cases r with
  | items => exact iff_of_true rfl fun _ _ => trivial
  | members ms =>
    simp only [check_members, lookup_eq_some hd]
    constructor
    · intro h e he m hm hname
      exact h m hm e.2 (hname ▸ he)
    · intro h m hm d hmem
      exact h (m.1, d) hmem m hm rfl

end ArcadeUplink.Json
