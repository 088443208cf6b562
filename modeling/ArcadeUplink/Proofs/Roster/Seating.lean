import ArcadeUplink.Proofs.Game.Validity
import ArcadeUplink.Proofs.Roster.Profiles
import ArcadeUplink.Roster.Directory

/-!
# Taking over profiles

The server sends the profiles of the players as one list, whose items are read on their own.
An item that tells who is at a position from 1 to 9 seats somebody there; every other item seats
nobody, whatever is wrong with it. Of those that seat somebody at the same position the last one
counts (`Directory.Tells`).

The main statement is `Directory.reseating`. It leaves out what is logged, which does depend
on the items that seat nobody and on the order of all items.
-/

namespace ArcadeUplink.Directory

/-- Whether an item of a list seats somebody at a position. -/
def Seats (item : Json) (p : PlayerNumber) (profile : Profile) : Prop :=
  p.Valid ∧ Seat.Told item p.toNat profile

def SeatsNobody (item : Json) : Prop := ∀ p profile, ¬Seats item p profile

/-- Whether two items do not both seat somebody at the same position. -/
def Apart (x y : Json) : Prop := ∀ p profile other, Seats x p profile → ¬Seats y p other

/-- Whether the items of a list have changed their places, but no two that seat somebody at the same
position have passed each other. -/
inductive Rearranged : List Json → List Json → Prop where
  | refl (items : List Json) : Rearranged items items
  | cons (x : Json) {items items' : List Json} (rest : Rearranged items items') :
    Rearranged (x :: items) (x :: items')
  | swap {x y : Json} (items : List Json) (apart : Apart x y) :
    Rearranged (x :: y :: items) (y :: x :: items)
  | trans {first middle last : List Json} (before : Rearranged first middle)
    (after : Rearranged middle last) : Rearranged first last

/-- Whether a profile is that of the last item to seat somebody at a position. -/
def SeatsLast (items : List Json) (p : PlayerNumber) (profile : Profile) : Prop :=
  ∃ before item after, items = before ++ item :: after ∧ Seats item p profile ∧
    ∀ x ∈ after, ∀ other, ¬Seats x p other

/-- **What a list of items tells**: who is at each position, and nothing else. -/
def Tells (items : List Json) (seating : Seating) : Prop :=
  ∀ p profile, seating.get? p = some profile ↔ SeatsLast items p profile

/-- The answer when profiles are taken over, and the directory afterwards. -/
def taking (d : Directory) (value : Json) : Bool × Directory :=
  ((d.setProfiles value).1, (d.setProfiles value).2.1)

variable {d : Directory} {item x y : Json} {items items' : List Json} {p q : PlayerNumber}
  {profile other : Profile} {seating : Seating}

/-! ## One item -/

theorem seats_iff : Seats item p profile ↔
    ∃ n, Seat.decode item = .ok ⟨n, some profile⟩ ∧ PlayerNumber.ofNat? n = some p := by
  constructor
  · rintro ⟨hvalid, htold⟩
    obtain ⟨n, hn⟩ := PlayerNumber.valid_iff.mp hvalid
    obtain ⟨rfl, -⟩ := PlayerNumber.ofNat?_eq_some hn
    exact ⟨p.toNat, Seat.decode_eq_ok.mpr htold, hn⟩
  · rintro ⟨n, hdecode, hn⟩
    obtain ⟨rfl, hvalid⟩ := PlayerNumber.ofNat?_eq_some hn
    exact ⟨hvalid, Seat.decode_eq_ok.mp hdecode⟩

/-- An item seats one person at one position. -/
theorem Seats.unique (h : Seats item p profile) (h' : Seats item q other) :
    p = q ∧ profile = other := by
  obtain ⟨n, hdecode, hn⟩ := seats_iff.mp h
  obtain ⟨m, hdecode', hm⟩ := seats_iff.mp h'
  obtain ⟨rfl, hsome⟩ := Seat.mk.inj (Except.ok.inj (hdecode.symm.trans hdecode'))
  exact ⟨Option.some.inj (hn.symm.trans hm), Option.some.inj hsome⟩

/-- What seats nobody cannot be read, or says that nobody is there, or tells a position that does not
exist. -/
theorem seatsNobody_iff : SeatsNobody item ↔
    ∀ n profile, Seat.decode item = .ok ⟨n, some profile⟩ → PlayerNumber.ofNat? n = none := by
  constructor
  · intro h n profile hdecode
    cases hn : PlayerNumber.ofNat? n with
    | none => rfl
    | some p => exact absurd (seats_iff.mpr ⟨n, hdecode, hn⟩) (h p profile)
  · intro h p profile hseats
    obtain ⟨n, hdecode, hn⟩ := seats_iff.mp hseats
    cases hn.symm.trans (h n profile hdecode)

/-- **One item** adds whom it seats, whoever sat there before; one that seats nobody adds
nothing. -/
theorem addSeat_cases (item : Json) :
    (∃ p profile, Seats item p profile ∧
      ∀ seating, (addSeat seating item).1 = seating.insert p profile) ∨
    (SeatsNobody item ∧ ∀ seating, (addSeat seating item).1 = seating) := by
  unfold addSeat
  simp only [seats_iff, seatsNobody_iff]
  cases Seat.decode item with
  | error e =>
    refine .inr ⟨?_, fun _ => rfl⟩
    intro n profile h
    cases h
  | ok seat =>
    obtain ⟨position, _ | profile⟩ := seat
    · refine .inr ⟨?_, fun _ => rfl⟩
      intro n profile h
      cases h
    · cases hp : PlayerNumber.ofNat? position with
      | some p => exact .inl ⟨p, profile, ⟨position, rfl, hp⟩, fun _ => by simp only [hp]⟩
      | none =>
        refine .inr ⟨?_, fun _ => by simp only [hp]⟩
        intro n other h
        cases h
        exact hp

theorem addSeat_of_seatsNobody (h : SeatsNobody item) : (addSeat seating item).1 = seating := by
  obtain ⟨p, profile, hseats, -⟩ | ⟨-, hsame⟩ := addSeat_cases item
  · exact absurd hseats (h p profile)
  · exact hsame seating

theorem addSeat_of_seats (h : Seats item p profile) :
    (addSeat seating item).1 = seating.insert p profile := by
  obtain ⟨q, other, hseats, hadd⟩ | ⟨hnobody, -⟩ := addSeat_cases item
  · obtain ⟨rfl, rfl⟩ := h.unique hseats
    exact hadd seating
  · exact absurd h (hnobody p profile)

/-- An item leaves a position alone where it seats nobody. -/
theorem get?_addSeat_of_not (h : ∀ profile, ¬Seats item p profile) :
    (addSeat seating item).1.get? p = seating.get? p := by
  obtain ⟨q, other, hseats, hadd⟩ | ⟨-, hsame⟩ := addSeat_cases item
  · have hne : p ≠ q := by
      rintro rfl
      exact h other hseats
    rw [hadd, SortedMap.get?_insert_of_ne _ _ hne]
  · rw [hsame]

/-- Items of different positions can be taken in either order. -/
theorem addSeat_comm (h : Apart x y) :
    (addSeat (addSeat seating x).1 y).1 = (addSeat (addSeat seating y).1 x).1 := by
  refine SortedMap.ext_get? fun p => ?_
  by_cases hx : ∃ profile, Seats x p profile
  · obtain ⟨profile, hx⟩ := hx
    have hy (other : Profile) : ¬Seats y p other := h p profile other hx
    rw [get?_addSeat_of_not hy, addSeat_of_seats hx, addSeat_of_seats hx]
    simp [SortedMap.get?_insert_self]
  · have hx := not_exists.mp hx
    rw [get?_addSeat_of_not hx]
    by_cases hy : ∃ other, Seats y p other
    · obtain ⟨other, hy⟩ := hy
      simp [addSeat_of_seats hy, SortedMap.get?_insert_self]
    · have hy := not_exists.mp hy
      rw [get?_addSeat_of_not hy, get?_addSeat_of_not hx, get?_addSeat_of_not hy]

/-! ## A list of items -/

theorem seatsLast_cons : SeatsLast (x :: items) p profile ↔
    SeatsLast items p profile ∨
      Seats x p profile ∧ ∀ y ∈ items, ∀ other, ¬Seats y p other := by
  constructor
  · rintro ⟨_ | ⟨y, before⟩, item, after, heq, hseats, hafter⟩
    · obtain ⟨rfl, rfl⟩ := List.cons.inj heq
      exact .inr ⟨hseats, hafter⟩
    · obtain ⟨rfl, rfl⟩ := List.cons.inj heq
      exact .inl ⟨before, item, after, rfl, hseats, hafter⟩
  · rintro (⟨before, item, after, rfl, hseats, hafter⟩ | ⟨hseats, hafter⟩)
    · exact ⟨x :: before, item, after, rfl, hseats, hafter⟩
    · exact ⟨[], x, items, rfl, hseats, hafter⟩

theorem addSeats_cons :
    (addSeats seating (x :: items)).1 = (addSeats (addSeat seating x).1 items).1 := rfl

theorem addSeats_append : (addSeats seating (items ++ items')).1 =
    (addSeats (addSeats seating items).1 items').1 := by
  induction items generalizing seating with
  | nil => rfl
  | cons x items ih => simp only [List.cons_append, addSeats_cons, ih]

/-- Who is at a position after several items: whom the last one seated there, or who was there
before if none did. -/
theorem get?_addSeats : (addSeats seating items).1.get? p = some profile ↔
    SeatsLast items p profile ∨
      (∀ x ∈ items, ∀ other, ¬Seats x p other) ∧ seating.get? p = some profile := by
  induction items generalizing seating with
  | nil => simp [addSeats, SeatsLast]
  | cons x items ih =>
    rw [addSeats_cons, ih, seatsLast_cons, List.forall_mem_cons]
    by_cases hx : ∃ other, Seats x p other
    · obtain ⟨other, hx⟩ := hx
      have hwho : Seats x p profile ↔ other = profile :=
        ⟨fun h => (hx.unique h).2, fun h => h ▸ hx⟩
      have hsome : ¬∀ other, ¬Seats x p other := fun h => h other hx
      simp [addSeat_of_seats hx, SortedMap.get?_insert_self, hwho, hsome, and_comm]
    · have hx := not_exists.mp hx
      simp [get?_addSeat_of_not hx, hx]

/-- **The seating that is made of a list** is the one that the list tells. -/
theorem tells_addSeats (items : List Json) : Tells items (addSeats ∅ items).1 := by
  intro p profile
  rw [get?_addSeats]
  exact or_iff_left fun h => nomatch h.2

theorem Rearranged.addSeats (h : Rearranged items items') (seating : Seating) :
    (addSeats seating items).1 = (addSeats seating items').1 := by
  induction h generalizing seating with
  | refl => rfl
  | cons x _ ih => exact ih (addSeat seating x).1
  | swap items hapart => simp only [addSeats_cons, addSeat_comm hapart]
  | trans _ _ ih ih' => exact (ih seating).trans (ih' seating)

theorem Apart.symm (h : Apart x y) : Apart y x :=
  fun p profile other hy hx => h p other profile hx hy

/-- Items that all are of different positions can be put in any order. -/
theorem rearranged_of_perm (h : items.Perm items') (hapart : items.Pairwise Apart) :
    Rearranged items items' := by
  induction h with
  | nil => exact .refl []
  | cons x _ ih => exact .cons x (ih (List.pairwise_cons.mp hapart).2)
  | swap x y items =>
    exact .swap items ((List.pairwise_cons.mp hapart).1 x List.mem_cons_self)
  | trans hperm _ ih ih' =>
    exact .trans (ih hapart) (ih' (hperm.pairwise hapart Apart.symm))

/-! ## The directory -/

/-- A directory is compared with the seating that a list tells. -/
theorem taking_list (d : Directory) (items : List Json) :
    d.taking (.list items) =
      if d.profiles = (addSeats ∅ items).1 then (false, d)
      else (true, d.replace (addSeats ∅ items).1) := by
  rw [taking, setProfiles]
  dsimp only
  split <;> rfl

theorem taking_of_not_list (d : Directory) {value : Json} (h : ∀ items, value ≠ .list items) :
    d.taking value = (false, d) := by
  cases value with
  | list items => exact absurd rfl (h items)
  | _ => rfl

/-- Only the seating that they tell decides what two lists do. -/
theorem taking_congr (h : (addSeats ∅ items).1 = (addSeats ∅ items').1) :
    d.taking (.list items) = d.taking (.list items') := by
  rw [taking_list, taking_list, h]

/-- **How a directory takes over profiles.** -/
structure Reseating (d : Directory) : Prop where
  /-- Anything but a list changes nothing. -/
  ignored : ∀ value, (∀ items, value ≠ .list items) → d.taking value = (false, d)
  /-- What a list tells takes the place of the profiles, and is news, if it differs from them. -/
  list : ∀ items, ∃ seating, Tells items seating ∧
    (seating ≠ d.profiles →
      d.taking (.list items) = (true, { d with profiles := seating, updated := true })) ∧
    (seating = d.profiles → d.taking (.list items) = (false, d))
  /-- An item that seats nobody makes no difference wherever it stands. -/
  idle : ∀ before item after, SeatsNobody item →
    d.taking (.list (before ++ item :: after)) = d.taking (.list (before ++ after))
  /-- Nor does the order of items of different positions. -/
  rearranged : ∀ items items', Rearranged items items' →
    d.taking (.list items) = d.taking (.list items')
  permuted : ∀ items items', items.Perm items' → items.Pairwise Apart →
    d.taking (.list items) = d.taking (.list items')
  /-- Nothing is news twice. -/
  again : ∀ value, (d.taking value).2.taking value = (false, (d.taking value).2)

/-- **Every directory takes over the profiles that it is told**, of any value at all. -/
theorem reseating (d : Directory) : d.Reseating where
  ignored value := d.taking_of_not_list
  list items := by
    refine ⟨(addSeats ∅ items).1, tells_addSeats items, ?_, ?_⟩
    · intro hne
      rw [taking_list, if_neg hne.symm]
      rfl
    · intro heq
      rw [taking_list, if_pos heq.symm]
  idle before item after h := by
    refine taking_congr ?_
    rw [addSeats_append, addSeats_append, addSeats_cons, addSeat_of_seatsNobody h]
  rearranged items items' h := taking_congr (h.addSeats ∅)
  permuted items items' hperm hapart :=
    taking_congr ((rearranged_of_perm hperm hapart).addSeats ∅)
  again value := by
    by_cases hvalue : ∃ items, value = .list items
    · obtain ⟨items, rfl⟩ := hvalue
      rw [d.taking_list]
      split
      · next heq => rw [taking_list, if_pos heq]
      · exact (taking_list _ _).trans (if_pos rfl)
    · have hvalue := not_exists.mp hvalue
      rw [d.taking_of_not_list hvalue]
      exact d.taking_of_not_list hvalue

/-- A position keeps the last one to be seated there: nobody at all does not count, nor does what
is no seat. -/
example : (empty.taking (.list
    [.object [("position", .nat 3), ("player", .object
      [("id", .nat 7), ("cached_display_name", .text "Ann"), ("initials", .text "AN")])],
     .object [("position", .nat 3), ("player", .null)],
     .text "?"])).2.profiles.entries = [(⟨3⟩, ⟨7, false, "Ann", "AN", ""⟩)] := by
  decide +kernel

end ArcadeUplink.Directory
