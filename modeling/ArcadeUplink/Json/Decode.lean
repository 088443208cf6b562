import ArcadeUplink.Json.Basic
import ArcadeUplink.Text.Literal

/-!
# Typed reading of JSON values

Readers from JSON values to typed values. A reader refuses with the cause: the
kind of value that was found instead, a number outside the range, a missing
member, or a list of the wrong length. A record is read from an object, whose
superfluous members are ignored, or from the list of its fields in order.
-/

namespace ArcadeUplink.Json

/-- Why a value could not be read as what was wanted. -/
inductive DecodeError where
  /-- A value of another kind. -/
  | kind (found : Json) (wanted : String)
  /-- A whole number outside the range. -/
  | range (found : Int) (wanted : String)
  /-- An object without a mandatory member. -/
  | missing (name : String)
  /-- A list with the wrong number of items. -/
  | length (found : Nat) (wanted : String)
deriving Repr, BEq

/-- What a value is, for a reader who expected something else. -/
def describe : Json → String
  | .null => "null"
  | .bool b => "boolean `" ++ (if b then "true" else "false") ++ "`"
  | .int i => "integer `" ++ Decimal.intText i ++ "`"
  | .real x => "floating point `" ++ .ofList x.plainChars ++ "`"
  | .text s => "string " ++ Text.literal s
  | .list _ => "sequence"
  | .object _ => "map"

def DecodeError.message : DecodeError → String
  | .kind v wanted => "invalid type: " ++ v.describe ++ ", expected " ++ wanted
  | .range i wanted =>
    "invalid value: integer `" ++ Decimal.intText i ++ "`, expected " ++ wanted
  | .missing name => "missing field `" ++ name ++ "`"
  | .length n wanted => "invalid length " ++ Decimal.natText n ++ ", expected " ++ wanted

/-- A reader of values of type `α`. -/
abbrev Decoder (α : Type) := Json → Except DecodeError α

def asText : Decoder String
  | .text s => .ok s
  | v => .error (.kind v "a string")

def asBool : Decoder Bool
  | .bool b => .ok b
  | v => .error (.kind v "a boolean")

/-- A range of whole numbers with the name it goes by. -/
structure IntRange where
  name : String
  least : Int
  greatest : Int

def IntRange.u8 : IntRange := ⟨"u8", 0, 0xff⟩

def IntRange.u32 : IntRange := ⟨"u32", 0, 0xffffffff⟩

def IntRange.u64 : IntRange := ⟨"u64", 0, 0xffffffffffffffff⟩

def IntRange.i32 : IntRange := ⟨"i32", -0x80000000, 0x7fffffff⟩

def IntRange.i64 : IntRange := ⟨"i64", -0x8000000000000000, 0x7fffffffffffffff⟩

/-- Reads a whole number of a range. -/
def asInt (range : IntRange) : Decoder Int
  | .int i =>
    if range.least ≤ i ∧ i ≤ range.greatest then .ok i else .error (.range i range.name)
  | v => .error (.kind v range.name)

/-- Reads a value, or `null` as its absence. -/
def asOption (d : Decoder α) : Decoder (Option α)
  | .null => .ok none
  | v => (d v).map some

/-- Reads every item of a list, in order. -/
def asList (d : Decoder α) : Decoder (List α)
  | .list items => items.mapM d
  | v => .error (.kind v "a sequence")

/-- The value of a record before its fields are read: its members, or its items in order. -/
inductive Record where
  | members (ms : List (String × Json))
  | items (name : String) (arity : Nat) (vs : List Json)

/-- Opens a record called `name` with `arity` fields. -/
def Record.ofJson (name : String) (arity : Nat) : Decoder Record
  | .object ms => .ok (.members ms)
  | .list vs => .ok (.items name arity vs)
  | v => .error (.kind v ("struct " ++ name))

/-- The refusal of a list that ends before field `i`. -/
def tooShort (name : String) (arity i : Nat) : DecodeError :=
  .length i ("struct " ++ name ++ " with " ++ Decimal.natText arity ++
    (if arity = 1 then " element" else " elements"))

/-- Reads the members of an object in their order with the reader of their name, so that of
several faults the first one is reported. A list is read field by field anyway. -/
def Record.check (r : Record) (readers : List (String × Decoder Unit)) :
    Except DecodeError Unit :=
  match r with
  | .members ms =>
    ms.forM fun m =>
      match readers.lookup m.1 with
      | some d => d m.2
      | none => .ok ()
  | .items .. => .ok ()

def Record.field (r : Record) (i : Nat) (name : String) (d : Decoder α) : Except DecodeError α :=
  match r with
  | .members ms =>
    match ms.lookup name with
    | some v => d v
    | none => .error (.missing name)
  | .items record arity vs =>
    match vs[i]? with
    | some v => d v
    | none => .error (tooShort record arity i)

/-- Reads a field whose value may be absent: an object may leave it out, a list may not. -/
def Record.optional (r : Record) (i : Nat) (name : String) (d : Decoder α) :
    Except DecodeError (Option α) :=
  match r with
  | .members ms =>
    match ms.lookup name with
    | some v => asOption d v
    | none => .ok none
  | .items .. => r.field i name (asOption d)

/-- Reads a field with a default, which an object may leave out and a list may end before. -/
def Record.fieldD (r : Record) (i : Nat) (name : String) (d : Decoder α) (default : α) :
    Except DecodeError α :=
  match r with
  | .members ms =>
    match ms.lookup name with
    | some v => d v
    | none => .ok default
  | .items _ _ vs =>
    match vs[i]? with
    | some v => d v
    | none => .ok default

/-- Refuses a list with more items than the record has fields. -/
def Record.close : Record → Except DecodeError Unit
  | .members _ => .ok ()
  | .items _ arity vs =>
    if vs.length ≤ arity then .ok () else .error (.length vs.length "fewer elements in array")

/-- A reader that is only asked whether it refuses. -/
def Decoder.check (d : Decoder α) : Decoder Unit := fun v => (d v).map fun _ => ()

end ArcadeUplink.Json
