import ArcadeUplink.Proofs.Json.ReadBack

/-!
# Values and their texts

Two values of whole numbers that are written alike are the same value: `render_inj`. Nothing is
asked of the size of the numbers or of the names in an object, so this says more than
that a text is read back. The proof follows the values: the text of a part is told apart
from that of any other part whatever follows it (`IsTold`), so that parts which stand one
behind the other are told apart as well.
-/

namespace ArcadeUplink.Json

variable {P : Int → Prop} {v w : Json} {vs ws : List Json} {ms ns : List (String × Json)}
  {r s : List Char}

/-- Whether the text of a value is that of no other, whatever follows. -/
def IsTold (P : Int → Prop) (v : Json) : Prop :=
  ∀ w r s, Whole P w → Decimal.NoDigitHead r → Decimal.NoDigitHead s →
    chars v ++ r = chars w ++ s → v = w ∧ r = s

theorem intChars_inj {i j : Int} (hr : Decimal.NoDigitHead r) (hs : Decimal.NoDigitHead s)
    (h : Decimal.intChars i ++ r = Decimal.intChars j ++ s) : i = j ∧ r = s := by
  have hread : some (i, r) = some (j, s) := by
    rw [← Decimal.readInt_intChars i hr, h, Decimal.readInt_intChars j hs]
  exact Prod.mk.inj (Option.some.inj hread)

theorem stringChars_inj {a b : String} (h : stringChars a ++ r = stringChars b ++ s) :
    a = b ∧ r = s := by
  have htail : a.toList.flatMap stringChar ++ '"' :: r =
      b.toList.flatMap stringChar ++ '"' :: s := by
    simpa [stringChars] using h
  have hread : some (a.toList, r) = some (b.toList, s) := by
    rw [← readString_flatMap, htail, readString_flatMap]
  obtain ⟨hchars, hrest⟩ := Prod.mk.inj (Option.some.inj hread)
  exact ⟨String.toList_inj.mp hchars, hrest⟩

/-- Values that are written alike are of one kind. -/
theorem kind_eq (hv : Whole P v) (hw : Whole P w) (h : chars v ++ r = chars w ++ s) :
    v.kind = w.kind := by
  obtain ⟨c, cs, hc, hkind⟩ := hv.chars_eq_cons
  obtain ⟨d, ds, hd, hkind'⟩ := hw.chars_eq_cons
  rw [hc, hd] at h
  obtain rfl : c = d := (List.cons.inj h).1
  exact Option.some.inj (hkind.symm.trans hkind')

theorem itemChars_inj (hvs : ∀ v ∈ vs, IsTold P v) (hws : ∀ w ∈ ws, Whole P w)
    (h : itemChars vs ++ r = itemChars ws ++ s) : vs = ws ∧ r = s := by
  induction vs generalizing ws with
  | nil =>
    cases ws with
    | nil => exact ⟨rfl, (List.cons.inj h).2⟩
    | cons w ws => exact absurd (List.cons.inj h).1 (by decide)
  | cons v vs ih =>
    cases ws with
    | nil => exact absurd (List.cons.inj h).1 (by decide)
    | cons w ws =>
      have hitems : chars v ++ (itemChars vs ++ r) = chars w ++ (itemChars ws ++ s) := by
        simpa [itemChars] using h
      obtain ⟨rfl, hrest⟩ := hvs v List.mem_cons_self w _ _ (hws w List.mem_cons_self)
        (stops_itemChars vs r).noDigitHead (stops_itemChars ws s).noDigitHead hitems
      obtain ⟨rfl, hleft⟩ := ih (fun x hx => hvs x (List.mem_cons_of_mem _ hx))
        (fun x hx => hws x (List.mem_cons_of_mem _ hx)) hrest
      exact ⟨rfl, hleft⟩

theorem memberChars_inj (hms : ∀ m ∈ ms, IsTold P m.2) (hns : ∀ n ∈ ns, Whole P n.2)
    (h : memberChars ms ++ r = memberChars ns ++ s) : ms = ns ∧ r = s := by
  induction ms generalizing ns with
  | nil =>
    match ns with
    | [] => exact ⟨rfl, (List.cons.inj h).2⟩
    | (k, w) :: ns => exact absurd (List.cons.inj h).1 (by decide)
  | cons m ms ih =>
    obtain ⟨k, v⟩ := m
    match ns, hns with
    | [], _ => exact absurd (List.cons.inj h).1 (by decide)
    | (l, w) :: ns, hns =>
      have hmembers : stringChars k ++ ':' :: (chars v ++ (memberChars ms ++ r)) =
          stringChars l ++ ':' :: (chars w ++ (memberChars ns ++ s)) := by
        simpa [memberChars] using h
      obtain ⟨rfl, hvalues⟩ := stringChars_inj hmembers
      have hv : IsTold P v := hms (k, v) List.mem_cons_self
      obtain ⟨rfl, hrest⟩ := hv w _ _ (hns (k, w) List.mem_cons_self)
        (stops_memberChars ms r).noDigitHead (stops_memberChars ns s).noDigitHead
        (List.cons.inj hvalues).2
      obtain ⟨rfl, hleft⟩ := ih (fun x hx => hms x (List.mem_cons_of_mem _ hx))
        (fun x hx => hns x (List.mem_cons_of_mem _ hx)) hrest
      exact ⟨rfl, hleft⟩

/-- No value begins with a closing bracket. -/
theorem Whole.chars_ne_close (hv : Whole P v) : chars v ++ r ≠ ']' :: s := by
  intro h
  obtain ⟨c, cs, hc, hkind⟩ := hv.chars_eq_cons
  rw [hc] at h
  obtain rfl : c = ']' := (List.cons.inj h).1
  cases hkind

theorem list_inj (hvs : ∀ v ∈ vs, Whole P v) (hws : ∀ w ∈ ws, Whole P w)
    (ih : ∀ v ∈ vs, IsTold P v) (h : chars (.list vs) ++ r = chars (.list ws) ++ s) :
    vs = ws ∧ r = s := by
  match vs, ws with
  | [], [] => exact ⟨rfl, List.append_cancel_left h⟩
  | [], w :: ws =>
    have hclose : ']' :: r = chars w ++ (itemChars ws ++ s) := by simpa [chars] using h
    exact absurd hclose.symm (hws w List.mem_cons_self).chars_ne_close
  | v :: vs, [] =>
    have hclose : chars v ++ (itemChars vs ++ r) = ']' :: s := by simpa [chars] using h
    exact absurd hclose (hvs v List.mem_cons_self).chars_ne_close
  | v :: vs, w :: ws =>
    refine itemChars_inj ih hws ?_
    simpa [chars, itemChars] using h

theorem object_inj (hns : ∀ n ∈ ns, Whole P n.2) (ih : ∀ m ∈ ms, IsTold P m.2)
    (h : chars (.object ms) ++ r = chars (.object ns) ++ s) : ms = ns ∧ r = s := by
  match ms, ns with
  | [], [] => exact ⟨rfl, List.append_cancel_left h⟩
  | [], (l, w) :: ns => exact absurd (List.cons.inj (List.cons.inj h).2).1 (by decide)
  | (k, v) :: ms, [] => exact absurd (List.cons.inj (List.cons.inj h).2).1 (by decide)
  | (k, v) :: ms, (l, w) :: ns =>
    refine memberChars_inj ih hns ?_
    simpa [chars, memberChars] using h

/-- **Every value is told apart by its text**, whatever follows it. -/
theorem Whole.isTold (hv : Whole P v) : IsTold P v := by
  induction hv with
  | null =>
    intro w r s hw hr hs h
    have hkind := kind_eq .null hw h
    cases hw with
    | null => exact ⟨rfl, List.append_cancel_left h⟩
    | _ => cases hkind
  | bool b =>
    intro w r s hw hr hs h
    have hkind := kind_eq (.bool b) hw h
    cases hw with
    | bool c =>
      obtain rfl : b = c := Kind.bool.inj hkind
      exact ⟨rfl, List.append_cancel_left h⟩
    | _ => cases hkind
  | int hi =>
    intro w r s hw hr hs h
    have hkind := kind_eq (.int hi) hw h
    cases hw with
    | int hj =>
      obtain ⟨rfl, hrest⟩ := intChars_inj hr hs h
      exact ⟨rfl, hrest⟩
    | _ => cases hkind
  | text a =>
    intro w r s hw hr hs h
    have hkind := kind_eq (.text a) hw h
    cases hw with
    | text b =>
      obtain ⟨rfl, hrest⟩ := stringChars_inj h
      exact ⟨rfl, hrest⟩
    | _ => cases hkind
  | list hvs ih =>
    intro w r s hw hr hs h
    have hkind := kind_eq (.list hvs) hw h
    cases hw with
    | list hws =>
      obtain ⟨rfl, hrest⟩ := list_inj hvs hws ih h
      exact ⟨rfl, hrest⟩
    | _ => cases hkind
  | object hms ih =>
    intro w r s hw hr hs h
    have hkind := kind_eq (.object hms) hw h
    cases hw with
    | object hns =>
      obtain ⟨rfl, hrest⟩ := object_inj hns ih h
      exact ⟨rfl, hrest⟩
    | _ => cases hkind

/-- Values that may be absent are told apart where those that are there are. -/
theorem option_iff {α : Type} {f : α → Json} (hnull : ∀ a, f a ≠ .null)
    (hinj : ∀ a b, f a = f b → a = b) {x y : Option α} : option f x = option f y ↔ x = y := by
  refine ⟨fun h => ?_, congrArg _⟩
  match x, y with
  | none, none => rfl
  | none, some b => exact absurd h.symm (hnull b)
  | some a, none => exact absurd h (hnull a)
  | some a, some b => exact congrArg some (hinj a b h)

/-- **Different values have different texts.** -/
theorem render_inj (hv : Whole P v) (hw : Whole P w) (h : v.render = w.render) : v = w := by
  have hchars : chars v = chars w := String.ofList_injective h
  exact (hv.isTold w [] [] hw trivial trivial (congrArg (· ++ []) hchars)).1

end ArcadeUplink.Json
