/-!
# Texts in bytes

In UTF-8 each character of a text takes one to four bytes. An offset in bytes is a
boundary if it lies between two characters, or at one of the ends; a text can be cut
there and nowhere else (`cutAt?_eq_some_iff`). A boundary near an offset is found by
trying one offset after the other, downwards or upwards.
-/

namespace ArcadeUplink.Text

/-- The number of bytes of a text in UTF-8. -/
def byteSize (cs : List Char) : Nat := cs.foldr (fun c n => c.utf8Size + n) 0

/-- A text cut at an offset: what is in front of it, and the rest. There is no cut within a
character, and none behind the end. -/
def cutAt? : Nat → List Char → Option (List Char × List Char)
  | 0, cs => some ([], cs)
  | _ + 1, [] => none
  | n + 1, c :: cs =>
    if c.utf8Size ≤ n + 1 then (cutAt? (n + 1 - c.utf8Size) cs).map fun p => (c :: p.1, p.2)
    else none

def isBoundary (cs : List Char) (n : Nat) : Bool := (cutAt? n cs).isSome

/-- The boundary that is found from an offset downwards; none, if the search passes the
beginning. -/
def boundaryDown? (cs : List Char) (n : Nat) : Option Nat :=
  (List.range (n + 1)).reverse.find? (isBoundary cs)

/-- The boundary that is found from an offset upwards; none, if the search passes the end. -/
def boundaryUp? (cs : List Char) (n : Nat) : Option Nat :=
  (List.range' n (byteSize cs + 1 - n)).find? (isBoundary cs)

@[simp] theorem byteSize_nil : byteSize [] = 0 := rfl

@[simp] theorem byteSize_cons (c : Char) (cs : List Char) :
    byteSize (c :: cs) = c.utf8Size + byteSize cs := rfl

@[simp] theorem byteSize_append (as bs : List Char) :
    byteSize (as ++ bs) = byteSize as + byteSize bs := by
  induction as with
  | nil => simp
  | cons c as ih => simp [ih, Nat.add_assoc]

theorem cutAt?_append (as bs : List Char) : cutAt? (byteSize as) (as ++ bs) = some (as, bs) := by
  induction as with
  | nil => simp [cutAt?]
  | cons c as ih =>
    obtain ⟨n, hn⟩ := Nat.exists_eq_add_one.mpr c.utf8Size_pos
    have hsize : byteSize (c :: as) = n + byteSize as + 1 := by rw [byteSize_cons]; omega
    rw [hsize, List.cons_append, cutAt?, if_pos (by omega)]
    rw [show n + byteSize as + 1 - c.utf8Size = byteSize as by omega, ih]
    rfl

theorem eq_of_cutAt? {n : Nat} {cs as bs : List Char} (h : cutAt? n cs = some (as, bs)) :
    cs = as ++ bs ∧ byteSize as = n := by
  induction cs generalizing n as with
  | nil =>
    cases n with
    | zero => cases h; exact ⟨rfl, rfl⟩
    | succ n => cases h
  | cons c cs ih =>
    cases n with
    | zero => cases h; exact ⟨rfl, rfl⟩
    | succ n =>
      rw [cutAt?] at h
      split at h
      · obtain ⟨⟨as', bs'⟩, hrest, heq⟩ := Option.map_eq_some_iff.mp h
        cases heq
        obtain ⟨rfl, hsize⟩ := ih hrest
        refine ⟨rfl, ?_⟩
        simp only [byteSize_cons]
        omega
      · cases h

/-- **A text is cut at an offset** with so many bytes in front of it. -/
theorem cutAt?_eq_some_iff {n : Nat} {cs as bs : List Char} :
    cutAt? n cs = some (as, bs) ↔ cs = as ++ bs ∧ byteSize as = n := by
  constructor
  · exact eq_of_cutAt?
  · rintro ⟨rfl, rfl⟩
    exact cutAt?_append as bs

theorem isBoundary_iff {n : Nat} {cs : List Char} :
    isBoundary cs n = true ↔ ∃ as bs, cs = as ++ bs ∧ byteSize as = n := by
  simp only [isBoundary, Option.isSome_iff_exists, Prod.exists, cutAt?_eq_some_iff]

end ArcadeUplink.Text
