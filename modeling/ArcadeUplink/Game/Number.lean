import ArcadeUplink.Json.Decode

/-!
# Player and ball numbers

Players and balls are numbered from 1 to 9. The checked constructors hand out
no other number. A number that is read from data is taken as it is, as long as
it fits a byte; `Valid` is stated beside it for that reason.
-/

namespace ArcadeUplink

/-- Whether a number can be that of a player or a ball. -/
def isGameNumber (n : Nat) : Bool := 1 ≤ n && n ≤ 9

structure PlayerNumber where
  value : UInt8
deriving DecidableEq, Repr, Inhabited

structure BallNumber where
  value : UInt8
deriving DecidableEq, Repr, Inhabited

namespace PlayerNumber

def Valid (p : PlayerNumber) : Prop := isGameNumber p.value.toNat = true

instance (p : PlayerNumber) : Decidable p.Valid := inferInstanceAs (Decidable (_ = _))

/-- The player of a number; none outside 1 to 9. -/
def ofNat? (n : Nat) : Option PlayerNumber :=
  if isGameNumber n then some ⟨n.toUInt8⟩ else none

/-- Player 1, who begins a game. -/
def first : PlayerNumber := ⟨1⟩

def toNat (p : PlayerNumber) : Nat := p.value.toNat

def text (p : PlayerNumber) : String := Decimal.natText p.toNat

/-- Players are ordered by their numbers. -/
instance : Ord PlayerNumber := ⟨fun p q => compare p.value q.value⟩

/-- The order of the numbers, on which that of the players rests. -/
abbrev compareValues : UInt8 → UInt8 → Ordering := compare

instance : Std.TransOrd PlayerNumber where
  eq_swap {p q} := @Std.OrientedCmp.eq_swap _ compareValues _ p.value q.value
  isLE_trans {p q r} := @Std.TransCmp.isLE_trans _ compareValues _ p.value q.value r.value

instance : Std.LawfulEqOrd PlayerNumber where
  compare_self {p} := @Std.ReflCmp.compare_self _ compareValues _ p.value
  eq_of_compare {p q} h := by
    cases p; cases q
    exact congrArg mk (@Std.LawfulEqCmp.eq_of_compare _ compareValues _ _ _ h)

def toJson (p : PlayerNumber) : Json := .nat p.toNat

/-- Reads a number that fits a byte. -/
def decode : Json.Decoder PlayerNumber := fun v =>
  (Json.asInt .u8 v).map fun i => ⟨i.toNat.toUInt8⟩

/-- The checked constructor gives the number it was asked for, and only a valid one. -/
theorem ofNat?_eq_some {n : Nat} {p : PlayerNumber} (h : ofNat? n = some p) :
    p.toNat = n ∧ p.Valid := by
  unfold ofNat? at h
  split at h
  · next hn =>
    cases h
    have hn' : n < 256 := by
      simp [isGameNumber] at hn
      omega
    have : (⟨n.toUInt8⟩ : PlayerNumber).toNat = n := by
      simp [toNat, Nat.mod_eq_of_lt hn']
    exact ⟨this, by unfold Valid; rw [show (n.toUInt8).toNat = n from this]; exact hn⟩
  · cases h

end PlayerNumber

namespace BallNumber

def Valid (b : BallNumber) : Prop := isGameNumber b.value.toNat = true

instance (b : BallNumber) : Decidable b.Valid := inferInstanceAs (Decidable (_ = _))

/-- The ball of a number; none outside 1 to 9. -/
def ofNat? (n : Nat) : Option BallNumber :=
  if isGameNumber n then some ⟨n.toUInt8⟩ else none

/-- Ball 1, with which a game begins. -/
def first : BallNumber := ⟨1⟩

def toNat (b : BallNumber) : Nat := b.value.toNat

def text (b : BallNumber) : String := Decimal.natText b.toNat

def toJson (b : BallNumber) : Json := .nat b.toNat

/-- Reads a number that fits a byte. -/
def decode : Json.Decoder BallNumber := fun v =>
  (Json.asInt .u8 v).map fun i => ⟨i.toNat.toUInt8⟩

end BallNumber

end ArcadeUplink
