import ArcadeUplink.Number.Binary64

/-!
# JSON values

The values of the JSON data format. Whole numbers are exact; a number written
with a fraction or an exponent is a floating-point number. An object is the list
of its members in the order in which they are written; the reader hands out
members in increasing order of their names, one to a name.
-/

namespace ArcadeUplink

inductive Json where
  | null
  | bool (b : Bool)
  | int (i : Int)
  | real (x : Binary64)
  | text (s : String)
  | list (items : List Json)
  | object (members : List (String × Json))
deriving Repr, Inhabited, BEq

namespace Json

/-- A natural number as a JSON value. -/
def nat (n : Nat) : Json := .int n

/-- The value, or `null` if there is none. -/
def option (f : α → Json) : Option α → Json
  | none => .null
  | some a => f a

/-- The member called `name` of an object. -/
def member? (v : Json) (name : String) : Option Json :=
  match v with
  | .object ms => ms.lookup name
  | _ => none

end Json

end ArcadeUplink
