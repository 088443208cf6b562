import ArcadeUplink.Json.Decode

/-!
# Game modes

The modes that are on in a game: names in the order in which they were switched
on, none twice, and a flag that an edit raises exactly if it changed the names.
Two values are the same modes if they have the same names; the flag does not
count.
-/

namespace ArcadeUplink

/-- A flag that edits raise and its owner lowers. -/
structure ChangeFlag where
  raised : Bool := false
deriving DecidableEq, Repr, Inhabited

namespace ChangeFlag

def mark (_ : ChangeFlag) : ChangeFlag := ⟨true⟩

def clear (_ : ChangeFlag) : ChangeFlag := ⟨false⟩

end ChangeFlag

structure Modes where
  names : List String := []
  flag : ChangeFlag := {}
deriving DecidableEq, Repr, Inhabited

namespace Modes

def empty : Modes := {}

def contains (m : Modes) (name : String) : Bool := m.names.contains name

def change (m : Modes) (names : List String) : Modes := ⟨names, m.flag.mark⟩

/-- Switches a mode on, behind those that are on already. Tells whether it was off. -/
def add (m : Modes) (name : String) : Bool × Modes :=
  if m.contains name then (false, m) else (true, m.change (m.names ++ [name]))

/-- Switches a mode off. Tells whether it was on. -/
def remove (m : Modes) (name : String) : Bool × Modes :=
  if m.contains name then (true, m.change (m.names.erase name)) else (false, m)

/-- Switches every mode off. Tells whether there was one. -/
def clear (m : Modes) : Bool × Modes :=
  if m.names.isEmpty then (false, m) else (true, m.change [])

def clearChanged (m : Modes) : Modes := { m with flag := m.flag.clear }

/-- Whether an edit changed the names since the flag was last lowered. -/
def isChanged (m : Modes) : Bool := m.flag.raised

def isEmpty (m : Modes) : Bool := m.names.isEmpty

def size (m : Modes) : Nat := m.names.length

def joined (m : Modes) : String := String.intercalate ";" m.names

/-- Whether two values are the same modes. -/
def same (m n : Modes) : Bool := m.names = n.names

def toJson (m : Modes) : Json := .list (m.names.map .text)

/-- Reads a list of names as it is, the flag lowered. -/
def decode : Json.Decoder Modes := fun v =>
  (Json.asList Json.asText v).map fun names => { names }

end Modes

end ArcadeUplink
