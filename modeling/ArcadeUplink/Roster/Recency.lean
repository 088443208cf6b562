/-!
# A cache that forgets what was used least recently

Up to `capacity` entries in the order of their last use. Storing a value and
finding one count as a use; asking whether a key is there does not. One entry too
many pushes out the one whose last use is longest ago.
-/

namespace ArcadeUplink

universe u v

/-- A bounded cache, its entries from least to most recently used. -/
structure Recency (κ : Type u) (ν : Type v) where
  capacity : Nat
  entries : List (κ × ν) := []
deriving DecidableEq, Repr

namespace Recency

variable {κ : Type u} {ν : Type v} [DecidableEq κ]

/-- An empty cache for at least one entry. -/
def ofCapacity (n : Nat) : Recency κ ν := { capacity := max n 1 }

def size (c : Recency κ ν) : Nat := c.entries.length

/-- The entries other than that of `k`. -/
def others (c : Recency κ ν) (k : κ) : List (κ × ν) := c.entries.filter fun e => e.1 ≠ k

/-- The value of `k`, looked at without using it. -/
def peek? (c : Recency κ ν) (k : κ) : Option ν := c.entries.lookup k

/-- Whether there is an entry of `k`. -/
def contains (c : Recency κ ν) (k : κ) : Bool := (c.peek? k).isSome

/-- Stores a value; gives the entry that was pushed out. -/
def put (c : Recency κ ν) (k : κ) (v : ν) : Option (κ × ν) × Recency κ ν :=
  let entries := c.others k ++ [(k, v)]
  if c.capacity < entries.length then (entries.head?, { c with entries := entries.tail })
  else (none, { c with entries })

/-- Finds a value and makes it the most recently used. -/
def get? (c : Recency κ ν) (k : κ) : Option ν × Recency κ ν :=
  match c.peek? k with
  | some v => (some v, { c with entries := c.others k ++ [(k, v)] })
  | none => (none, c)

/-- Takes an entry out; gives its value. -/
def remove (c : Recency κ ν) (k : κ) : Option ν × Recency κ ν :=
  (c.peek? k, { c with entries := c.others k })

def clear (c : Recency κ ν) : Recency κ ν := { c with entries := [] }

end Recency

end ArcadeUplink
