/-!
# Sorted maps

A finite map kept as the list of its entries, in increasing order of the keys.
The order is part of the type, so that two maps with the same bindings are the
same value and a listing needs no sorting.

The main statements say what a look-up finds after each edit: `get?_insert`,
`get?_erase` and `get?_modify`. Bindings that are in order already stay as they are
when a map is made of them (`ofList_entries`), and maps in which the same is found under
every key are the same map (`ext_get?`).
-/

namespace ArcadeUplink

universe u v

/-- A finite map from `κ` to `ν`, listed in increasing order of the keys. -/
structure SortedMap (κ : Type u) (ν : Type v) [Ord κ] where
  /-- The bindings, smallest key first. -/
  entries : List (κ × ν)
  /-- Keys strictly increase along the list. -/
  sorted : entries.Pairwise fun a b => compare a.1 b.1 = .lt

namespace SortedMap

variable {κ : Type u} {ν : Type v} [Ord κ]

def empty : SortedMap κ ν := ⟨[], .nil⟩

instance : EmptyCollection (SortedMap κ ν) := ⟨empty⟩

instance : Inhabited (SortedMap κ ν) := ⟨empty⟩

theorem ext_entries {m n : SortedMap κ ν} (h : m.entries = n.entries) : m = n := by
  cases m; cases n; cases h; rfl

instance [DecidableEq κ] [DecidableEq ν] : DecidableEq (SortedMap κ ν) := fun m n =>
  if h : m.entries = n.entries then isTrue (ext_entries h)
  else isFalse fun e => h (congrArg entries e)

def size (m : SortedMap κ ν) : Nat := m.entries.length

def keys (m : SortedMap κ ν) : List κ := m.entries.map (·.1)

/-- The values, in the order of their keys. -/
def values (m : SortedMap κ ν) : List ν := m.entries.map (·.2)

/-- The value of `k` in a list of bindings: the first one wins. -/
def lookup (k : κ) : List (κ × ν) → Option ν
  | [] => none
  | e :: r => if compare k e.1 = .eq then some e.2 else lookup k r

def get? (m : SortedMap κ ν) (k : κ) : Option ν := lookup k m.entries

def contains (m : SortedMap κ ν) (k : κ) : Bool := (m.get? k).isSome

/-- A list of bindings with `k` bound to `v` at its place in the order. -/
def place (k : κ) (v : ν) : List (κ × ν) → List (κ × ν)
  | [] => [(k, v)]
  | e :: r =>
    match compare k e.1 with
    | .lt => (k, v) :: e :: r
    | .eq => (k, v) :: r
    | .gt => e :: place k v r

theorem mem_place {k : κ} {v : ν} {e : κ × ν} {l : List (κ × ν)} (h : e ∈ place k v l) :
    e = (k, v) ∨ e ∈ l := by
  induction l with
  | nil => exact .inl (by simpa [place] using h)
  | cons a r ih =>
    unfold place at h
    split at h
    · rcases List.mem_cons.1 h with h | h
      · exact .inl h
      · exact .inr h
    · rcases List.mem_cons.1 h with h | h
      · exact .inl h
      · exact .inr (List.mem_cons_of_mem _ h)
    · rcases List.mem_cons.1 h with h | h
      · exact .inr (h ▸ List.mem_cons_self)
      · rcases ih h with h | h
        · exact .inl h
        · exact .inr (List.mem_cons_of_mem _ h)

section Ordered

variable [Std.TransOrd κ] [Std.LawfulEqOrd κ]

/-- Placing a binding keeps the keys increasing. -/
theorem pairwise_place {k : κ} {v : ν} {l : List (κ × ν)}
    (h : l.Pairwise fun a b => compare a.1 b.1 = .lt) :
    (place k v l).Pairwise fun a b => compare a.1 b.1 = .lt := by
  induction l with
  | nil => simp [place]
  | cons a r ih =>
    obtain ⟨ha, hr⟩ := List.pairwise_cons.1 h
    unfold place
    split
    · next hlt =>
      refine List.pairwise_cons.2 ⟨?_, h⟩
      intro b hb
      rcases List.mem_cons.1 hb with rfl | hb
      · exact hlt
      · exact Std.TransCmp.lt_trans hlt (ha b hb)
    · next heq =>
      have hk : k = a.1 := Std.LawfulEqCmp.eq_of_compare heq
      exact List.pairwise_cons.2 ⟨fun b hb => hk ▸ ha b hb, hr⟩
    · next hgt =>
      refine List.pairwise_cons.2 ⟨?_, ih hr⟩
      intro b hb
      rcases mem_place hb with rfl | hb
      · exact Std.OrientedCmp.lt_of_gt hgt
      · exact ha b hb

/-- The map with `k` bound to `v`, whatever it was bound to before. -/
def insert (m : SortedMap κ ν) (k : κ) (v : ν) : SortedMap κ ν :=
  ⟨place k v m.entries, pairwise_place m.sorted⟩

/-- The map of a list of bindings; of two bindings of one key the later counts. -/
def ofList (l : List (κ × ν)) : SortedMap κ ν :=
  l.foldl (fun m e => m.insert e.1 e.2) empty

end Ordered

def erase (m : SortedMap κ ν) (k : κ) : SortedMap κ ν :=
  ⟨m.entries.filter fun e => compare k e.1 ≠ .eq, m.sorted.filter _⟩

/-- A list of bindings with `f` applied to the value of every key. -/
def changeValues (f : κ → ν → ν) (l : List (κ × ν)) : List (κ × ν) :=
  l.map fun e => (e.1, f e.1 e.2)

/-- Every value replaced by its image; the keys stay. -/
def mapValues (m : SortedMap κ ν) (f : κ → ν → ν) : SortedMap κ ν :=
  ⟨changeValues f m.entries, by
    unfold changeValues
    exact List.pairwise_map.2 m.sorted⟩

/-- The value of `k` replaced by its image; nothing happens if `k` is unbound. -/
def modify (m : SortedMap κ ν) (k : κ) (f : ν → ν) : SortedMap κ ν :=
  m.mapValues fun k' v => if compare k k' = .eq then f v else v

theorem get?_empty (k : κ) : (empty : SortedMap κ ν).get? k = none := rfl

section Insertion

variable [Std.TransOrd κ] [Std.LawfulEqOrd κ]

theorem lookup_place {k j : κ} {v : ν} {l : List (κ × ν)} :
    lookup j (place k v l) = if compare j k = .eq then some v else lookup j l := by
  induction l with
  | nil => simp [place, lookup]
  | cons a r ih =>
    unfold place
    split
    · simp [lookup]
    · next heq =>
      have hk : k = a.1 := Std.LawfulEqCmp.eq_of_compare heq
      subst hk
      simp only [lookup]
      split <;> rfl
    · next hgt =>
      simp only [lookup, ih]
      by_cases hj : compare j a.1 = .eq
      · have : j = a.1 := Std.LawfulEqCmp.eq_of_compare hj
        subst this
        have : compare a.1 k = .lt := Std.OrientedCmp.lt_of_gt hgt
        simp [this]
      · simp [hj]

/-- After an insertion the new key has the new value and every other key its old one. -/
theorem get?_insert (m : SortedMap κ ν) (k j : κ) (v : ν) :
    (m.insert k v).get? j = if compare j k = .eq then some v else m.get? j :=
  lookup_place

theorem get?_insert_self (m : SortedMap κ ν) (k : κ) (v : ν) :
    (m.insert k v).get? k = some v := by
  simp [get?_insert]

theorem get?_insert_of_ne (m : SortedMap κ ν) {k j : κ} (v : ν) (h : j ≠ k) :
    (m.insert k v).get? j = m.get? j := by
  rw [get?_insert, if_neg fun e => h (Std.LawfulEqCmp.eq_of_compare e)]

end Insertion

section Lawful

variable [Std.LawfulEqOrd κ]

theorem lookup_filter {k j : κ} {l : List (κ × ν)} :
    lookup j (l.filter fun e => compare k e.1 ≠ .eq) =
      if compare j k = .eq then none else lookup j l := by
  induction l with
  | nil => simp [lookup]
  | cons a r ih =>
    by_cases hka : compare k a.1 = .eq
    · have : k = a.1 := Std.LawfulEqCmp.eq_of_compare hka
      subst this
      simp only [ne_eq, hka, not_true_eq_false, decide_false, Bool.false_eq_true,
        not_false_eq_true, List.filter_cons_of_neg, ih, lookup]
      split <;> rfl
    · simp only [ne_eq, hka, not_false_eq_true, decide_true, List.filter_cons_of_pos, lookup]
      by_cases hja : compare j a.1 = .eq
      · have : j = a.1 := Std.LawfulEqCmp.eq_of_compare hja
        subst this
        have : compare a.1 k ≠ .eq := fun e =>
          hka (by rw [Std.LawfulEqCmp.eq_of_compare e]; exact Std.ReflCmp.compare_self)
        simp [this]
      · rw [if_neg hja, if_neg hja]
        exact ih

/-- After an erasure the key is unbound and every other key has its old value. -/
theorem get?_erase (m : SortedMap κ ν) (k j : κ) :
    (m.erase k).get? j = if compare j k = .eq then none else m.get? j :=
  lookup_filter

theorem lookup_changeValues {j : κ} {f : κ → ν → ν} {l : List (κ × ν)} :
    lookup j (changeValues f l) = (lookup j l).map (f j) := by
  induction l with
  | nil => rfl
  | cons a r ih =>
    show lookup j ((a.1, f a.1 a.2) :: changeValues f r) = _
    simp only [lookup]
    by_cases h : compare j a.1 = .eq
    · have : j = a.1 := Std.LawfulEqCmp.eq_of_compare h
      subst this
      simp
    · rw [if_neg h, if_neg h, ih]

theorem get?_mapValues (m : SortedMap κ ν) (f : κ → ν → ν) (j : κ) :
    (m.mapValues f).get? j = (m.get? j).map (f j) :=
  lookup_changeValues

/-- A modification reaches the value of its key and no other. -/
theorem get?_modify (m : SortedMap κ ν) (k j : κ) (f : ν → ν) :
    (m.modify k f).get? j = (m.get? j).map fun v => if compare k j = .eq then f v else v :=
  get?_mapValues ..

theorem lookup_of_mem {l : List (κ × ν)} (h : l.Pairwise fun a b => compare a.1 b.1 = .lt)
    {e : κ × ν} (he : e ∈ l) : lookup e.1 l = some e.2 := by
  induction l with
  | nil => cases he
  | cons a r ih =>
    obtain ⟨ha, hr⟩ := List.pairwise_cons.1 h
    unfold lookup
    rcases List.mem_cons.1 he with rfl | he
    · exact if_pos Std.ReflCmp.compare_self
    · rw [if_neg, ih hr he]
      intro heq
      have hlt := ha e he
      rw [Std.LawfulEqCmp.eq_of_compare heq] at hlt
      cases hlt.symm.trans Std.ReflCmp.compare_self

theorem get?_of_mem (m : SortedMap κ ν) {e : κ × ν} (he : e ∈ m.entries) :
    m.get? e.1 = some e.2 :=
  lookup_of_mem m.sorted he

end Lawful

/-- A key above all others is placed at the end. -/
theorem place_of_above [Std.OrientedOrd κ] {k : κ} {v : ν} {l : List (κ × ν)}
    (h : ∀ e ∈ l, compare e.1 k = .lt) : place k v l = l ++ [(k, v)] := by
  induction l with
  | nil => rfl
  | cons e l ih =>
    have hgt : compare k e.1 = .gt := Std.OrientedCmp.gt_of_lt (h e List.mem_cons_self)
    rw [place, hgt, ih fun x hx => h x (List.mem_cons_of_mem _ hx)]
    rfl

theorem foldl_insert_entries [Std.TransOrd κ] [Std.LawfulEqOrd κ] (m : SortedMap κ ν)
    {l : List (κ × ν)} (h : (m.entries ++ l).Pairwise fun a b => compare a.1 b.1 = .lt) :
    (l.foldl (fun m e => m.insert e.1 e.2) m).entries = m.entries ++ l := by
  induction l generalizing m with
  | nil => exact (List.append_nil _).symm
  | cons e l ih =>
    have habove : ∀ x ∈ m.entries, compare x.1 e.1 = .lt := fun x hx =>
      (List.pairwise_append.mp h).2.2 x hx e List.mem_cons_self
    have hplace : (m.insert e.1 e.2).entries = m.entries ++ [e] := place_of_above habove
    have hassoc : (m.insert e.1 e.2).entries ++ l = m.entries ++ e :: l := by
      rw [hplace, List.append_assoc, List.singleton_append]
    rw [List.foldl_cons, ih _ (hassoc ▸ h), hassoc]

/-- Bindings whose keys increase are the entries of the map that is made of them. -/
theorem ofList_entries [Std.TransOrd κ] [Std.LawfulEqOrd κ] {l : List (κ × ν)}
    (h : (l.map (·.1)).Pairwise fun j k => compare j k = .lt) : (ofList l).entries = l :=
  foldl_insert_entries empty (List.pairwise_map.mp h)

theorem lookup_of_below {k : κ} {l : List (κ × ν)} (h : ∀ e ∈ l, compare k e.1 = .lt) :
    lookup k l = none := by
  induction l with
  | nil => rfl
  | cons e l ih =>
    have hlt : compare k e.1 = .lt := h e List.mem_cons_self
    rw [lookup, if_neg (by rw [hlt]; nofun), ih fun x hx => h x (List.mem_cons_of_mem _ hx)]

/-- A key that is found comes no sooner than the first one. -/
theorem not_lt_of_lookup_cons [Std.TransOrd κ] {k : κ} {v : ν} {e : κ × ν}
    {l : List (κ × ν)} (h : (e :: l).Pairwise fun a b => compare a.1 b.1 = .lt)
    (hv : lookup k (e :: l) = some v) : compare k e.1 ≠ .lt := by
  intro hlt
  have hnone : lookup k (e :: l) = none := by
    refine lookup_of_below fun x hx => ?_
    rcases List.mem_cons.mp hx with rfl | hx
    · exact hlt
    · exact Std.TransCmp.lt_trans hlt ((List.pairwise_cons.mp h).1 x hx)
  cases hv.symm.trans hnone

section Extensionality

variable [Std.TransOrd κ] [Std.LawfulEqOrd κ]

/-- Increasing lists of bindings are equal if they bind the same. -/
theorem lookup_ext {l l' : List (κ × ν)} (h : l.Pairwise fun a b => compare a.1 b.1 = .lt)
    (h' : l'.Pairwise fun a b => compare a.1 b.1 = .lt)
    (heq : ∀ k, lookup k l = lookup k l') : l = l' := by
  have hfirst (e : κ × ν) (r : List (κ × ν)) : lookup e.1 (e :: r) = some e.2 :=
    if_pos Std.ReflCmp.compare_self
  induction l generalizing l' with
  | nil =>
    cases l' with
    | nil => rfl
    | cons e' r' => cases (heq e'.1).trans (hfirst e' r')
  | cons e r ih =>
    cases l' with
    | nil => cases (hfirst e r).symm.trans (heq e.1)
    | cons e' r' =>
      have hfound := (heq e.1).symm.trans (hfirst e r)
      have hkey : compare e.1 e'.1 = .eq := by
        cases hc : compare e.1 e'.1 with
        | eq => rfl
        | lt => exact absurd hc (not_lt_of_lookup_cons h' hfound)
        | gt =>
          have hfound' := (heq e'.1).trans (hfirst e' r')
          exact absurd (Std.OrientedCmp.lt_of_gt hc) (not_lt_of_lookup_cons h hfound')
      rw [lookup, if_pos hkey] at hfound
      obtain rfl : e = e' :=
        Prod.ext (Std.LawfulEqCmp.eq_of_compare hkey) (Option.some.inj hfound).symm
      obtain ⟨ha, hr⟩ := List.pairwise_cons.mp h
      obtain ⟨ha', hr'⟩ := List.pairwise_cons.mp h'
      refine congrArg (e :: ·) (ih hr hr' fun k => ?_)
      by_cases hk : compare k e.1 = .eq
      · obtain rfl := Std.LawfulEqCmp.eq_of_compare hk
        rw [lookup_of_below ha, lookup_of_below ha']
      · have hrest := heq k
        rwa [lookup, lookup, if_neg hk, if_neg hk] at hrest

/-- **A map is what is found in it.** -/
theorem ext_get? {m n : SortedMap κ ν} (h : ∀ k, m.get? k = n.get? k) : m = n :=
  ext_entries (lookup_ext m.sorted n.sorted h)

/-- A modification that changes the value of its key changes the map, and no other does. -/
theorem modify_eq_self_iff {m : SortedMap κ ν} {k : κ} {v : ν} {f : ν → ν}
    (h : m.get? k = some v) : m.modify k f = m ↔ f v = v := by
  constructor
  · intro heq
    have hget := m.get?_modify k k f
    rw [heq, h, Option.map_some, if_pos Std.ReflCmp.compare_self] at hget
    exact (Option.some.inj hget).symm
  · intro hv
    refine ext_get? fun j => ?_
    rw [get?_modify]
    by_cases hj : compare k j = .eq
    · rw [← Std.LawfulEqCmp.eq_of_compare hj, h, Option.map_some,
        if_pos Std.ReflCmp.compare_self, hv]
    · simp only [if_neg hj, Option.map_id']

end Extensionality

end SortedMap

end ArcadeUplink
