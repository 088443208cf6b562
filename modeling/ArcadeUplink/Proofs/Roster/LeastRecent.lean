import ArcadeUplink.Proofs.Roster.Pictures
import Mathlib.Data.List.DropRight
import Mathlib.Data.List.Nodup
import Mathlib.Data.List.Perm.Subperm

/-!
# What a cache keeps

A cache is used in any way and as often as one likes, and a diary is kept of it: every
use with its answer. A key is touched when a value is stored under it, and when one is
found. What a cache has can be read off its diary without a look at its entries: the
keys that were put, were not taken out since they were last touched, and were at no
moment since then followed by as many others as there is room for (`Diary.strict`).

The invariant behind it is `Faithful`. Its two ideas are that each key in the cache was
touched after those before it (`ordered`), and that whatever was touched after a key in
the cache, and not taken out since, is in the cache as well (`closed`), as the cache
would have pushed out the other one first.
-/

namespace ArcadeUplink.Recency

universe u v

variable {κ : Type u} {ν : Type v}

/-- What can be done with a cache. -/
inductive Use (κ : Type u) (ν : Type v) where
  | put (k : κ) (v : ν)
  | get (k : κ)
  | contains (k : κ)
  | remove (k : κ)
  | clear
deriving DecidableEq, Repr

/-- What comes back. -/
inductive Answer (κ : Type u) (ν : Type v) where
  | pushedOut (entry : Option (κ × ν))
  | value (found : Option ν)
  | flag (there : Bool)
  | nothing
deriving DecidableEq, Repr

/-- A use of a cache, with its answer. -/
structure Event (κ : Type u) (ν : Type v) where
  use : Use κ ν
  answer : Answer κ ν
deriving DecidableEq, Repr

/-- A cache, with everything that was done with it. -/
structure Diary (κ : Type u) (ν : Type v) where
  events : List (Event κ ν) := []
  cache : Recency κ ν

section Definitions

variable [DecidableEq κ]

def use (c : Recency κ ν) : Use κ ν → Answer κ ν × Recency κ ν
  | .put k v => (.pushedOut (c.put k v).1, (c.put k v).2)
  | .get k => (.value (c.get? k).1, (c.get? k).2)
  | .contains k => (.flag (c.contains k), c)
  | .remove k => (.value (c.remove k).1, (c.remove k).2)
  | .clear => (.nothing, c.clear)

def Diary.add (d : Diary κ ν) (u : Use κ ν) : Diary κ ν :=
  ⟨d.events ++ [⟨u, (d.cache.use u).1⟩], (d.cache.use u).2⟩

/-- **The diary of a new cache** that is used in any way. -/
def Diary.of (n : Nat) (us : List (Use κ ν)) : Diary κ ν := us.foldl add { cache := ofCapacity n }

namespace Event

/-- The key that is touched: a value is stored under it, or one is found. -/
def touched? : Event κ ν → Option κ
  | ⟨.put k _, _⟩ => some k
  | ⟨.get k, .value (some _)⟩ => some k
  | _ => none

/-- Whether whatever is stored under a key is taken out. -/
def drops (e : Event κ ν) (k : κ) : Bool :=
  match e.use with
  | .remove j => j = k
  | .clear => true
  | _ => false

/-- The value that is stored under a key. -/
def stored? (e : Event κ ν) (k : κ) : Option ν :=
  match e.use with
  | .put j v => if j = k then some v else none
  | _ => none

end Event

/-- What was done since a key was last touched. -/
def since (es : List (Event κ ν)) (k : κ) : List (Event κ ν) :=
  es.rtakeWhile fun e => e.touched? ≠ some k

/-- Whether a key was touched, and not taken out since. -/
def Standing (es : List (Event κ ν)) (k : κ) : Prop :=
  (∃ e ∈ es, e.touched? = some k) ∧ ∀ e ∈ since es k, e.drops k = false

/-- Whether `m` other keys were touched and not taken out since. -/
def Crowded (m : Nat) (es : List (Event κ ν)) (k : κ) : Prop :=
  ∃ others : List κ, others.Nodup ∧ others.length = m ∧ ∀ j ∈ others, j ≠ k ∧ Standing es j

/-- Whether one key was touched after another one was touched last. -/
def Before (es : List (Event κ ν)) (j k : κ) : Prop := ∃ e ∈ since es j, e.touched? = some k

/-- The value that was stored last under a key. -/
def latest? (es : List (Event κ ν)) (k : κ) : Option ν := (es.filterMap (·.stored? k)).getLast?

/-- Whether a key has its place among `m`: it was put, and since it was last touched it was not
taken out, and there were never `m` others that came after it and stayed. -/
structure Kept (m : Nat) (es : List (Event κ ν)) (k : κ) : Prop where
  put : ∃ e ∈ es, ∃ v, e.use = .put k v
  stays : ∀ e ∈ since es k, e.drops k = false
  room : ∀ past, past <+: since es k → ¬Crowded m past k

end Definitions

/-- The keys of a cache, the one that was used least recently first. -/
def keys (c : Recency κ ν) : List κ := c.entries.map (·.1)

theorem Event.touched?_of_put {x : Event κ ν} {k : κ} {v : ν} (h : x.use = .put k v) :
    x.touched? = some k := by
  obtain ⟨use, answer⟩ := x
  cases h
  rfl

variable [DecidableEq κ] {c c' : Recency κ ν} {es : List (Event κ ν)} {x : Event κ ν} {j k : κ}
  {ks : List κ} {v : ν} {e : κ × ν} {m : Nat}

/-! ## One more event -/

namespace Event

theorem drops_of_touched (h : x.touched? = some k) (j : κ) : x.drops j = false := by
  obtain ⟨use, answer⟩ := x
  cases use with
  | put | get | contains => rfl
  | remove | clear => cases h

theorem stored?_of_not_touched (h : x.touched? ≠ some k) : x.stored? k = none := by
  obtain ⟨use, answer⟩ := x
  cases use with
  | put i w => exact if_neg fun he => h (congrArg some he)
  | _ => rfl

theorem use_of_stored? (h : x.stored? k = some v) : x.use = .put k v := by
  unfold stored? at h
  split at h
  · next i w huse =>
    obtain ⟨rfl, hw⟩ := Option.ite_none_right_eq_some.mp h
    rw [huse, Option.some.inj hw]
  · cases h

end Event

theorem since_of_touched (h : x.touched? = some k) : since (es ++ [x]) k = [] :=
  List.rtakeWhile_concat_neg _ _ _ (by simp [h])

theorem since_of_not_touched (h : x.touched? ≠ some k) :
    since (es ++ [x]) k = since es k ++ [x] :=
  List.rtakeWhile_concat_pos _ _ _ (by simp [h])

theorem standing_concat :
    Standing (es ++ [x]) k ↔ x.touched? = some k ∨ (Standing es k ∧ x.drops k = false) := by
  unfold Standing
  by_cases h : x.touched? = some k
  · rw [since_of_touched h]
    exact iff_of_true ⟨⟨x, List.mem_concat_self, h⟩, nofun⟩ (.inl h)
  · rw [since_of_not_touched h]
    simp only [List.mem_append, List.mem_singleton, or_and_right, exists_or, exists_eq_left, h,
      or_false, false_or, or_imp, forall_and, forall_eq, and_assoc]

theorem not_standing_nil : ¬Standing ([] : List (Event κ ν)) k := fun h => nomatch h.1

theorem before_concat :
    Before (es ++ [x]) j k ↔
      x.touched? ≠ some j ∧ (Before es j k ∨ x.touched? = some k) := by
  unfold Before
  by_cases h : x.touched? = some j
  · rw [since_of_touched h]
    exact iff_of_false nofun fun hn => hn.1 h
  · rw [since_of_not_touched h]
    simp only [List.mem_append, List.mem_singleton, or_and_right, exists_or, exists_eq_left, h,
      ne_eq, not_false_eq_true, true_and]

/-- Of two keys one was touched last. -/
theorem Before.asymm (h : Before es j k) : ¬Before es k j := by
  induction es using List.reverseRecOn with
  | nil => exact fun _ => nomatch h
  | append_singleton es x ih =>
    rw [before_concat] at h ⊢
    rintro ⟨hk, hj⟩
    exact ih (h.2.resolve_right hk) (hj.resolve_right h.1)

/-- What was touched and stays since a key was touched came after it. -/
theorem Standing.before (h : Standing (since es j) k) : Before es j k := h.1

/-- A value that was stored was put. -/
theorem put_of_latest? (h : latest? es k = some v) : ∃ x ∈ es, x.use = .put k v := by
  obtain ⟨x, hx, hv⟩ := List.mem_filterMap.mp (List.mem_of_getLast? h)
  exact ⟨x, hx, Event.use_of_stored? hv⟩

theorem latest?_concat : latest? (es ++ [x]) k = (x.stored? k).or (latest? es k) := by
  unfold latest?
  rw [List.filterMap_append]
  cases h : x.stored? k with
  | none => simp [h]
  | some w => simp [h]

/-! ## The keys that stay -/

/-- Whether a key was touched and has its place among `m` since then. -/
def Remains (m : Nat) (es : List (Event κ ν)) (k : κ) : Prop :=
  Standing es k ∧ ∀ past, past <+: since es k → ¬Crowded m past k

theorem remains_of_touched (hm : 0 < m) (h : x.touched? = some k) : Remains m (es ++ [x]) k := by
  refine ⟨standing_concat.mpr (.inl h), ?_⟩
  intro past hpast
  rw [since_of_touched h, List.prefix_nil] at hpast
  rintro ⟨others, -, hlen, hall⟩
  obtain ⟨i, hi⟩ := List.exists_mem_of_length_pos (hlen ▸ hm)
  exact not_standing_nil (hpast ▸ (hall i hi).2)

theorem remains_concat (h : x.touched? ≠ some k) :
    Remains m (es ++ [x]) k ↔
      Remains m es k ∧ x.drops k = false ∧ ¬Crowded m (since (es ++ [x]) k) k := by
  unfold Remains
  rw [standing_concat, since_of_not_touched h]
  simp only [h, false_or, List.prefix_concat_iff, forall_eq_or_imp]
  tauto

/-! ## The keys of a cache, one behind the other -/

/-- **Keys in the order of their last touch**, with room for `m`: whatever came after one of them
and stays is there as well. -/
structure Ranked (m : Nat) (es : List (Event κ ν)) (ks : List κ) : Prop where
  distinct : ks.Nodup
  bounded : ks.length ≤ m
  ordered : ks.Pairwise fun j k => Standing (since es j) k
  closed : ∀ j ∈ ks, ∀ i, Standing (since es j) i → i ∈ ks

namespace Ranked

/-- There is room for no more than what is there, so none of the keys is crowded. -/
theorem not_crowded (h : Ranked m es ks) (hj : j ∈ ks) : ¬Crowded m (since es j) j := by
  rintro ⟨others, hnodup, hlen, hall⟩
  have hnew : j ∉ others := fun hmem => (hall j hmem).1 rfl
  have hsub : j :: others ⊆ ks :=
    List.cons_subset.mpr ⟨hj, fun i hi => h.closed j hj i (hall i hi).2⟩
  have hle := (List.subperm_of_subset (List.nodup_cons.mpr ⟨hnew, hnodup⟩) hsub).length_le
  have hbounded := h.bounded
  rw [List.length_cons, hlen] at hle
  omega

/-- **A key is touched**: it comes last, behind a part of those that were there. -/
theorem touch (h : Ranked m es ks) (hx : x.touched? = some k) {l : List κ} (hl : l.Sublist ks)
    (hk : k ∉ l) (hlen : l.length < m)
    (hclosed : ∀ j ∈ l, ∀ i, Standing (since es j) i → i ≠ k → i ∈ l) :
    Ranked m (es ++ [x]) (l ++ [k]) := by
  have hsince {j i : κ} (hj : j ∈ l) :
      Standing (since (es ++ [x]) j) i ↔ i = k ∨ Standing (since es j) i := by
    have hne : x.touched? ≠ some j := fun he => hk (Option.some.inj (hx.symm.trans he) ▸ hj)
    rw [since_of_not_touched hne, standing_concat, hx, Event.drops_of_touched hx,
      Option.some_inj, eq_comm]
    simp only [and_true]
  refine ⟨List.concat_eq_append ▸ (h.distinct.sublist hl).concat hk, ?_, ?_, ?_⟩
  · rw [List.length_append, List.length_singleton]
    exact hlen
  · refine List.pairwise_append.mpr ⟨?_, List.pairwise_singleton _ _, ?_⟩
    · exact (h.ordered.sublist hl).imp_of_mem fun hj _ hs => (hsince hj).mpr (.inr hs)
    · intro j hj i hi
      exact (hsince hj).mpr (.inl (List.mem_singleton.mp hi))
  · intro j hj i hi
    by_cases hik : i = k
    · exact hik ▸ List.mem_concat_self
    rcases List.mem_append.mp hj with hj | hj
    · have hold : Standing (since es j) i := ((hsince hj).mp hi).resolve_left hik
      exact List.mem_append_left _ (hclosed j hj i hold hik)
    · rw [List.mem_singleton.mp hj, since_of_touched hx] at hi
      exact absurd hi not_standing_nil

/-- No key is touched, and some may be taken out. -/
theorem drop (h : Ranked m es ks) (hx : x.touched? = none) :
    Ranked m (es ++ [x]) (ks.filter fun k => !x.drops k) := by
  have hsince {j i : κ} :
      Standing (since (es ++ [x]) j) i ↔ Standing (since es j) i ∧ x.drops i = false := by
    have hne (k : κ) : x.touched? ≠ some k := fun he => nomatch hx.symm.trans he
    rw [since_of_not_touched (hne j), standing_concat, or_iff_right (hne i)]
  have hstays {k : κ} (hk : k ∈ ks.filter fun k => !x.drops k) : k ∈ ks ∧ x.drops k = false := by
    rwa [List.mem_filter, Bool.not_eq_true'] at hk
  refine ⟨h.distinct.filter _, (List.length_filter_le _ _).trans h.bounded, ?_, ?_⟩
  · exact (h.ordered.filter _).imp_of_mem fun _ hi hs => hsince.mpr ⟨hs, (hstays hi).2⟩
  · intro j hj i hi
    obtain ⟨hold, hdrops⟩ := hsince.mp hi
    exact List.mem_filter.mpr ⟨h.closed j (hstays hj).1 i hold, congrArg not hdrops⟩

/-- **The key that was touched longest ago** is crowded when a new one takes the last place. -/
theorem crowded_head (h : Ranked m es (j :: ks)) (hlen : (j :: ks).length = m)
    (hx : x.touched? = some k) (hk : k ∉ j :: ks) : Crowded m (since (es ++ [x]) j) j := by
  have hne : x.touched? ≠ some j := fun he =>
    hk (Option.some.inj (hx.symm.trans he) ▸ List.mem_cons_self)
  have hks : k ∉ ks := fun hmem => hk (List.mem_cons_of_mem j hmem)
  obtain ⟨hj, hdistinct⟩ := List.nodup_cons.mp h.distinct
  rw [since_of_not_touched hne]
  refine ⟨k :: ks, List.nodup_cons.mpr ⟨hks, hdistinct⟩, hlen, ?_⟩
  intro i hi
  rcases List.mem_cons.mp hi with rfl | hi
  · exact ⟨fun he => hk (he ▸ List.mem_cons_self), standing_concat.mpr (.inl hx)⟩
  · have hold : Standing (since es j) i := (List.pairwise_cons.mp h.ordered).1 i hi
    refine ⟨fun he => hj (he ▸ hi), standing_concat.mpr (.inr ⟨hold, ?_⟩)⟩
    exact Event.drops_of_touched hx i

/-- Nothing that came after a key behind the first one is the first one. -/
theorem closed_tail (h : Ranked m es (j :: ks)) :
    ∀ i ∈ ks, ∀ a, Standing (since es i) a → a ∈ ks := by
  intro i hi a ha
  refine (List.mem_cons.mp (h.closed i (List.mem_cons_of_mem j hi) a ha)).resolve_left ?_
  rintro rfl
  exact ((List.pairwise_cons.mp h.ordered).1 i hi).before.asymm ha.before

end Ranked

/-! ## What a use does -/

theorem keys_others (c : Recency κ ν) (k : κ) :
    (c.others k).map (·.1) = c.keys.filter (· ≠ k) := by
  rw [keys, List.filter_map]
  rfl

theorem not_mem_others (c : Recency κ ν) (k : κ) : k ∉ (c.others k).map (·.1) := by
  rw [keys_others, List.mem_filter]
  exact fun h => of_decide_eq_true h.2 rfl

theorem others_of_not_mem (h : k ∉ c.keys) : c.others k = c.entries :=
  List.filter_eq_self.mpr fun _ ha => decide_eq_true fun he => h (he ▸ List.mem_map_of_mem ha)

theorem length_others_lt (h : k ∈ c.keys) : (c.others k).length < c.size := by
  obtain ⟨a, ha, rfl⟩ := List.mem_map.mp h
  exact List.length_filter_lt_length_iff_exists.mpr ⟨a, ha, by simp⟩

theorem contains_iff : c.contains k = true ↔ k ∈ c.keys := by
  rw [contains, peek?, List.lookup_isSome_iff, keys, List.mem_map]
  simp only [beq_iff_eq, eq_comm (a := k)]

theorem get?_fst (c : Recency κ ν) (k : κ) : (c.get? k).1 = c.peek? k := by
  unfold get?
  split
  · next h => exact h.symm
  · next h => exact h.symm

theorem peek?_of_not_mem (h : k ∉ c.keys) : c.peek? k = none := by
  rw [← Option.not_isSome_iff_eq_none]
  exact mt contains_iff.mp h

theorem get?_of_not_mem (h : k ∉ c.keys) : c.get? k = (none, c) := by
  unfold get?
  rw [peek?_of_not_mem h]

theorem remove_of_not_mem (h : k ∉ c.keys) : c.remove k = (none, c) := by
  unfold remove
  rw [peek?_of_not_mem h, others_of_not_mem h]

theorem put_of_room (h : (c.others k).length < c.capacity) (v : ν) :
    c.put k v = (none, { c with entries := c.others k ++ [(k, v)] }) := by
  unfold put
  have hlen : ¬c.capacity < (c.others k ++ [(k, v)]).length := by
    rw [List.length_append, List.length_singleton]
    omega
  exact if_neg hlen

theorem put_of_full {rest : List (κ × ν)} (hnew : k ∉ c.keys) (hentries : c.entries = e :: rest)
    (hfull : c.size = c.capacity) (v : ν) :
    c.put k v = (some e, { c with entries := rest ++ [(k, v)] }) := by
  unfold put
  have hlen : c.capacity < (c.others k ++ [(k, v)]).length := by
    rw [others_of_not_mem hnew, List.length_append, List.length_singleton]
    exact Nat.lt_succ_of_le hfull.ge
  rw [if_pos hlen, others_of_not_mem hnew, hentries]
  rfl

/-- **What a use of a cache can do**, told by its event. -/
inductive Change (c : Recency κ ν) (x : Event κ ν) : Recency κ ν → Prop where
  /-- A key is touched, and there is room for it. -/
  | touched {k : κ} {v : ν} (hx : x.touched? = some k)
    (hv : x.stored? k = some v ∨ (x.stored? k = none ∧ (k, v) ∈ c.entries))
    (hroom : (c.others k).length < c.capacity) :
    Change c x { c with entries := c.others k ++ [(k, v)] }
  /-- A new key pushes out the first one. -/
  | replaced {k : κ} {v : ν} {e : κ × ν} {rest : List (κ × ν)} (hx : x.touched? = some k)
    (hv : x.stored? k = some v) (hnew : k ∉ c.keys) (hentries : c.entries = e :: rest)
    (hfull : c.size = c.capacity) : Change c x { c with entries := rest ++ [(k, v)] }
  /-- No key is touched, and some may be taken out. -/
  | dropped (hx : x.touched? = none) :
    Change c x { c with entries := c.entries.filter fun e => !x.drops e.1 }

/-- **A value finds room**, or it is that of a new key and pushes out the first entry. -/
theorem put_cases (hpos : 0 < c.capacity) (hsize : c.size ≤ c.capacity) (k : κ) (v : ν) :
    ((c.others k).length < c.capacity ∧
      c.put k v = (none, { c with entries := c.others k ++ [(k, v)] })) ∨
    ∃ e rest, k ∉ c.keys ∧ c.entries = e :: rest ∧ c.size = c.capacity ∧
      c.put k v = (some e, { c with entries := rest ++ [(k, v)] }) := by
  by_cases hroom : (c.others k).length < c.capacity
  · exact .inl ⟨hroom, put_of_room hroom v⟩
  have hnew : k ∉ c.keys := fun hmem => hroom ((length_others_lt hmem).trans_le hsize)
  have hfull : c.size = c.capacity := by
    rw [others_of_not_mem hnew] at hroom
    exact Nat.le_antisymm hsize (Nat.le_of_not_lt hroom)
  obtain ⟨e, rest, hentries⟩ : ∃ e rest, c.entries = e :: rest :=
    List.exists_cons_of_length_pos (hpos.trans_eq hfull.symm)
  exact .inr ⟨e, rest, hnew, hentries, hfull, put_of_full hnew hentries hfull v⟩

/-- What touches no key and takes none out leaves the cache as it is. -/
theorem change_idle (hx : x.touched? = none) (hdrops : ∀ k, x.drops k = false) :
    Change c x c := by
  have hall : c.entries.filter (fun e => !x.drops e.1) = c.entries :=
    List.filter_eq_self.mpr fun a _ => congrArg not (hdrops a.1)
  have h := Change.dropped (c := c) hx
  rwa [hall] at h

theorem change_use (hpos : 0 < c.capacity) (hsize : c.size ≤ c.capacity) (u : Use κ ν) :
    Change c ⟨u, (c.use u).1⟩ (c.use u).2 := by
  cases u with
  | put k v =>
    show Change c ⟨.put k v, .pushedOut (c.put k v).1⟩ (c.put k v).2
    rcases put_cases hpos hsize k v with ⟨hroom, hput⟩ | ⟨e, rest, hnew, hentries, hfull, hput⟩
    · rw [hput]
      exact .touched rfl (.inl (if_pos rfl)) hroom
    · rw [hput]
      exact .replaced rfl (if_pos rfl) hnew hentries hfull
  | get k =>
    show Change c ⟨.get k, .value (c.get? k).1⟩ (c.get? k).2
    unfold get?
    split
    · next v hv =>
      have hmem := mem_of_peek? hv
      have hroom := (length_others_lt (List.mem_map_of_mem hmem)).trans_le hsize
      exact .touched rfl (.inr ⟨rfl, hmem⟩) hroom
    · exact change_idle rfl fun _ => rfl
  | contains k => exact change_idle rfl fun _ => rfl
  | remove k =>
    have heq : c.others k = c.entries.filter fun e => !decide (k = e.1) := by
      unfold others
      refine List.filter_congr fun e _ => ?_
      rw [← decide_not, decide_eq_decide]
      exact ne_comm
    show Change c _ { c with entries := c.others k }
    rw [heq]
    exact .dropped rfl
  | clear =>
    have heq : [] = c.entries.filter fun _ => !true := (List.filter_false _).symm
    show Change c _ { c with entries := [] }
    rw [heq]
    exact .dropped rfl

/-! ## The invariant -/

/-- **A cache is faithful to what was done with it.** -/
structure Faithful (m : Nat) (es : List (Event κ ν)) (c : Recency κ ν) : Prop where
  capacity : c.capacity = m
  ranked : Ranked m es c.keys
  remains : ∀ k, k ∈ c.keys ↔ Remains m es k
  latest : ∀ e ∈ c.entries, latest? es e.1 = some e.2

namespace Faithful

theorem fresh (n : Nat) : Faithful (max n 1) [] (ofCapacity n : Recency κ ν) where
  capacity := rfl
  ranked := ⟨List.nodup_nil, Nat.zero_le _, .nil, nofun⟩
  remains _ := ⟨nofun, fun h => nomatch h.1.1⟩
  latest := nofun

/-- **A key is touched**: its entry comes last, behind a part of those that were there. Whatever
is pushed out is crowded. -/
theorem touch (h : Faithful m es c) (hx : x.touched? = some k) {l : List (κ × ν)}
    (hl : l.Sublist c.entries) (hranked : Ranked m (es ++ [x]) (l.map (·.1) ++ [k]))
    (hpushed : ∀ j ∈ c.keys, j ∉ l.map (·.1) → j ≠ k → Crowded m (since (es ++ [x]) j) j)
    (hv : latest? (es ++ [x]) k = some v) :
    Faithful m (es ++ [x]) { c with entries := l ++ [(k, v)] } := by
  have hkeys : keys { c with entries := l ++ [(k, v)] } = l.map (·.1) ++ [k] := List.map_append
  have hk : k ∉ l.map (·.1) := fun hmem =>
    (List.nodup_append.mp hranked.distinct).2.2 k hmem k (List.mem_singleton_self k) rfl
  have hother {j : κ} (hj : j ≠ k) : x.touched? ≠ some j := fun he =>
    hj (Option.some.inj (he.symm.trans hx))
  refine ⟨h.capacity, hkeys ▸ hranked, ?_, ?_⟩
  · intro j
    rw [hkeys]
    by_cases hjk : j = k
    · have hpos : 0 < m := Nat.lt_of_lt_of_le (by simp) hranked.bounded
      rw [hjk]
      exact iff_of_true List.mem_concat_self (remains_of_touched hpos hx)
    rw [remains_concat (hother hjk), ← h.remains, List.mem_append, List.mem_singleton,
      or_iff_left hjk]
    constructor
    · intro hj
      have hroom := hranked.not_crowded (List.mem_append_left _ hj)
      exact ⟨(hl.map _).subset hj, Event.drops_of_touched hx j, hroom⟩
    · rintro ⟨hj, -, hroom⟩
      exact Classical.not_not.mp fun hnot => hroom (hpushed j hj hnot hjk)
  · intro a ha
    rcases List.mem_append.mp ha with ha | ha
    · have hne : a.1 ≠ k := fun he => hk (he ▸ List.mem_map_of_mem ha)
      rw [latest?_concat, Event.stored?_of_not_touched (hother hne), Option.none_or]
      exact h.latest a (hl.subset ha)
    · rw [List.mem_singleton.mp ha]
      exact hv

/-- **No key is touched**, and some are taken out. -/
theorem drop (h : Faithful m es c) (hx : x.touched? = none) :
    Faithful m (es ++ [x]) { c with entries := c.entries.filter fun e => !x.drops e.1 } := by
  have hkeys : keys { c with entries := c.entries.filter fun e => !x.drops e.1 } =
      c.keys.filter fun k => !x.drops k := by
    unfold keys
    rw [List.filter_map]
    rfl
  have hother (j : κ) : x.touched? ≠ some j := fun he => nomatch hx.symm.trans he
  have hranked := h.ranked.drop hx
  refine ⟨h.capacity, hkeys ▸ hranked, ?_, ?_⟩
  · intro j
    rw [hkeys, remains_concat (hother j), ← h.remains]
    constructor
    · intro hj
      obtain ⟨hold, hdrops⟩ := List.mem_filter.mp hj
      exact ⟨hold, Bool.not_eq_true' _ ▸ hdrops, hranked.not_crowded hj⟩
    · rintro ⟨hj, hdrops, -⟩
      exact List.mem_filter.mpr ⟨hj, congrArg not hdrops⟩
  · intro a ha
    rw [latest?_concat, Event.stored?_of_not_touched (hother a.1), Option.none_or]
    exact h.latest a (List.mem_of_mem_filter ha)

/-- **Faith is kept**, whatever is done. -/
theorem change (h : Faithful m es c) (hc : Change c x c') : Faithful m (es ++ [x]) c' := by
  cases hc with
  | @touched k v hx hv hroom =>
    have hkeys := c.keys_others k
    refine h.touch hx List.filter_sublist ?_ ?_ ?_
    · refine h.ranked.touch hx (hkeys ▸ List.filter_sublist) (c.not_mem_others k) ?_ ?_
      · rw [List.length_map, ← h.capacity]
        exact hroom
      · intro j hj i hi hne
        rw [hkeys] at hj ⊢
        exact List.mem_filter.mpr
          ⟨h.ranked.closed j (List.mem_of_mem_filter hj) i hi, decide_eq_true hne⟩
    · intro j hj hnot hne
      rw [hkeys] at hnot
      exact absurd (List.mem_filter.mpr ⟨hj, decide_eq_true hne⟩) hnot
    · rw [latest?_concat]
      rcases hv with hv | ⟨hnone, hmem⟩
      · rw [hv, Option.some_or]
      · rw [hnone, Option.none_or]
        exact h.latest _ hmem
  | @replaced k v e rest hx hv hnew hentries hfull =>
    have hkeys : c.keys = e.1 :: rest.map (·.1) := by
      rw [keys, hentries]
      rfl
    have hranked := h.ranked
    rw [hkeys] at hranked hnew
    have hlen : (e.1 :: rest.map (·.1)).length = m := by
      rw [← hkeys, ← h.capacity, ← hfull]
      exact List.length_map _
    refine h.touch hx (hentries ▸ List.sublist_cons_self e rest) ?_ ?_ ?_
    · refine hranked.touch hx (List.sublist_cons_self ..) (fun hmem => hnew (.tail _ hmem)) ?_ ?_
      · exact hlen ▸ Nat.lt_succ_self _
      · exact fun j hj i hi _ => hranked.closed_tail j hj i hi
    · intro j hj hnot _
      rw [hkeys] at hj
      rw [(List.mem_cons.mp hj).resolve_right hnot]
      exact hranked.crowded_head hlen hx hnew
    · rw [latest?_concat, hv, Option.some_or]
  | dropped hx => exact h.drop hx

theorem size_le (h : Faithful m es c) : c.size ≤ m := by
  rw [size, ← List.length_map]
  exact h.ranked.bounded

/-- A cache has the keys that kept their place. -/
theorem mem_iff (h : Faithful m es c) : k ∈ c.keys ↔ Kept m es k := by
  constructor
  · intro hk
    obtain ⟨a, ha, rfl⟩ := List.mem_map.mp hk
    obtain ⟨x, hx, huse⟩ := put_of_latest? (h.latest a ha)
    obtain ⟨⟨-, hstays⟩, hroom⟩ := (h.remains _).mp hk
    exact ⟨⟨x, hx, _, huse⟩, hstays, hroom⟩
  · rintro ⟨⟨x, hx, v, huse⟩, hstays, hroom⟩
    exact (h.remains k).mpr ⟨⟨⟨x, hx, Event.touched?_of_put huse⟩, hstays⟩, hroom⟩

theorem peek?_iff (h : Faithful m es c) :
    c.peek? k = some v ↔ k ∈ c.keys ∧ latest? es k = some v := by
  constructor
  · intro hv
    have hmem := mem_of_peek? hv
    exact ⟨List.mem_map_of_mem hmem, h.latest _ hmem⟩
  · rintro ⟨hk, hlatest⟩
    obtain ⟨w, hw⟩ := Option.isSome_iff_exists.mp (contains_iff.mpr hk)
    rw [hw, ← hlatest, h.latest _ (mem_of_peek? hw)]

theorem before (h : Faithful m es c) : c.entries.Pairwise fun a b => Before es a.1 b.1 :=
  (List.pairwise_map.mp h.ranked.ordered).imp Standing.before

/-- **What is pushed out** was touched before everything else. -/
theorem put_eq_some (h : Faithful m es c) (hm : 0 < m) :
    (c.put k v).1 = some e ↔ k ∉ c.keys ∧ c.size = m ∧ e ∈ c.entries ∧
      ∀ a ∈ c.entries, a ≠ e → Before es e.1 a.1 := by
  have hsize : c.size ≤ c.capacity := h.size_le.trans_eq h.capacity.symm
  rcases put_cases (h.capacity ▸ hm) hsize k v with
    ⟨hroom, hput⟩ | ⟨first, rest, hnew, hentries, hfull, hput⟩
  · rw [hput]
    refine iff_of_false nofun ?_
    rintro ⟨hnew, hfull, -⟩
    rw [others_of_not_mem hnew, h.capacity, ← hfull] at hroom
    exact Nat.lt_irrefl _ hroom
  have hbefore := h.before
  rw [hput, Option.some_inj, hentries]
  rw [hentries, List.pairwise_cons] at hbefore
  constructor
  · rintro rfl
    refine ⟨hnew, hfull.trans h.capacity, List.mem_cons_self, ?_⟩
    exact fun a ha hne => hbefore.1 a ((List.mem_cons.mp ha).resolve_left hne)
  · rintro ⟨-, -, he, hall⟩
    by_contra hne
    have hrest : e ∈ rest := (List.mem_cons.mp he).resolve_left (Ne.symm hne)
    exact (hbefore.1 e hrest).asymm (hall first List.mem_cons_self hne)

end Faithful

/-! ## Whatever is done with a cache -/

namespace Diary

variable {d : Diary κ ν} {n : Nat}

theorem of_concat (n : Nat) (us : List (Use κ ν)) (u : Use κ ν) :
    of n (us ++ [u]) = (of n us).add u := List.foldl_append

theorem faithful_of (n : Nat) (us : List (Use κ ν)) :
    Faithful (max n 1) (of n us).events (of n us).cache := by
  induction us using List.reverseRecOn with
  | nil => exact .fresh n
  | append_singleton us u ih =>
    rw [of_concat]
    have hpos : 0 < (of n us).cache.capacity := by
      rw [ih.capacity]
      omega
    have hsize : (of n us).cache.size ≤ (of n us).cache.capacity :=
      ih.size_le.trans_eq ih.capacity.symm
    exact ih.change (change_use hpos hsize u)

/-- **The promises of a cache** for `n` entries, and for one if `n` is 0. -/
structure Strict (n : Nat) (d : Diary κ ν) : Prop where
  /-- No key has two entries, and there are no more than there is room for. -/
  distinct : d.cache.keys.Nodup
  bounded : d.cache.size ≤ max n 1
  /-- A key is there if it was put and has kept its place, -/
  present : ∀ k, d.cache.contains k = true ↔ Kept (max n 1) d.events k
  /-- and then its value is the one that was stored last. -/
  found : ∀ k v, (d.cache.get? k).1 = some v ↔
    Kept (max n 1) d.events k ∧ latest? d.events k = some v
  /-- Something is pushed out just if a new key comes to a full cache, and then it is what was
  touched before everything else. -/
  pushedOut : ∀ k v e, (d.cache.put k v).1 = some e ↔
    d.cache.contains k = false ∧ d.cache.size = max n 1 ∧ e ∈ d.cache.entries ∧
      ∀ a ∈ d.cache.entries, a ≠ e → Before d.events e.1 a.1
  /-- The entries stand in the order of their last touch. -/
  ordered : d.cache.entries.Pairwise fun a b => Before d.events a.1 b.1
  /-- Asking whether a key is there changes nothing, and neither does what comes too late. -/
  asked : ∀ k, (d.cache.use (.contains k)).2 = d.cache
  missed : ∀ k, d.cache.contains k = false →
    d.cache.get? k = (none, d.cache) ∧ d.cache.remove k = (none, d.cache)

/-- **A cache keeps its promises**, whatever is done with it. -/
theorem strict (n : Nat) (us : List (Use κ ν)) : (of n us).Strict n := by
  have h := faithful_of n us
  have hmem (k : κ) : (of n us).cache.contains k = true ↔ Kept (max n 1) (of n us).events k :=
    contains_iff.trans h.mem_iff
  have hout (k : κ) : (of n us).cache.contains k = false ↔ k ∉ (of n us).cache.keys := by
    rw [← contains_iff, Bool.not_eq_true]
  exact {
    distinct := h.ranked.distinct
    bounded := h.size_le
    present := hmem
    found := by
      intro k v
      rw [get?_fst, h.peek?_iff, h.mem_iff]
    pushedOut := by
      intro k v e
      rw [hout]
      exact h.put_eq_some (by omega)
    ordered := h.before
    asked := fun _ => rfl
    missed := fun k hk => ⟨get?_of_not_mem ((hout k).mp hk), remove_of_not_mem ((hout k).mp hk)⟩ }

/-- The first key is found before a third one comes, so the second one has to go. -/
example : (of 2 [.put 1 'a', .put 2 'b', .get 1, .contains 2, .put 3 'c']).cache.keys = [1, 3] := by
  decide

end Diary

end ArcadeUplink.Recency
