import ArcadeUplink.Proofs.Session.Edits

/-!
# Which game is dropped

The ledger retains at most 16 games. A snapshot of another one enters it at the
cost of a game that is dropped: a finished one if there is one besides the game
that is recorded, of these the one that entered the ledger first, and of those
that entered together the one with the smallest identifier. No other recording
drops anything, and nothing else than the recorded game and the dropped one is
touched (`Run.retained`).

Since when a game is in the ledger is told by the run (`enteredAt?`); that its
record knows the time is a law (`Run.startedAt`).
-/

namespace ArcadeUplink

namespace SortedMap

variable {κ ν : Type} [Ord κ] {k : κ} {v : ν} {l : List (κ × ν)}

theorem size_mapValues (m : SortedMap κ ν) (f : κ → ν → ν) : (m.mapValues f).size = m.size :=
  List.length_map _

theorem length_place [Std.TransOrd κ] (h : l.Pairwise fun a b => compare a.1 b.1 = .lt) :
    (place k v l).length + (lookup k l).isSome.toNat = l.length + 1 := by
  induction l with
  | nil => rfl
  | cons a r ih =>
    obtain ⟨ha, hr⟩ := List.pairwise_cons.mp h
    unfold place lookup
    cases hk : compare k a.1 with
    | lt =>
      have hnone : lookup k r = none :=
        lookup_of_below fun e he => Std.TransCmp.lt_trans hk (ha e he)
      simp [hnone]
    | eq => simp
    | gt =>
      have hlen := ih hr
      simp only [List.length_cons, reduceCtorEq, if_false]
      omega

variable [Std.LawfulEqOrd κ]

theorem mem_of_lookup (h : lookup k l = some v) : (k, v) ∈ l := by
  induction l with
  | nil => cases h
  | cons a r ih =>
    unfold lookup at h
    split at h
    · next heq =>
      obtain rfl := Option.some.inj h
      rw [Std.LawfulEqCmp.eq_of_compare heq]
      exact List.mem_cons_self
    · exact List.mem_cons_of_mem a (ih h)

theorem length_filter_ne (h : l.Pairwise fun a b => compare a.1 b.1 = .lt) :
    (l.filter fun e => compare k e.1 ≠ .eq).length + (lookup k l).isSome.toNat = l.length := by
  induction l with
  | nil => rfl
  | cons a r ih =>
    obtain ⟨ha, hr⟩ := List.pairwise_cons.mp h
    have hlen := ih hr
    unfold lookup
    by_cases hk : compare k a.1 = .eq
    · have hnone : lookup k r = none := by
        rw [Std.LawfulEqCmp.eq_of_compare hk]
        exact lookup_of_below ha
      rw [hnone] at hlen
      simp only [hk, ne_eq, not_true_eq_false, decide_false, Bool.false_eq_true, not_false_eq_true,
        List.filter_cons_of_neg, if_true, List.length_cons, Option.isSome_some, Bool.toNat_true]
      exact congrArg (· + 1) hlen
    · simp only [hk, ne_eq, not_false_eq_true, decide_true, List.filter_cons_of_pos, if_false,
        List.length_cons]
      simp only [ne_eq] at hlen
      omega

/-- An erasure makes a map smaller if the key was bound. -/
theorem size_erase (m : SortedMap κ ν) (k : κ) :
    (m.erase k).size + (m.contains k).toNat = m.size :=
  length_filter_ne m.sorted

/-- A binding makes a map larger if its key was unbound. -/
theorem size_insert [Std.TransOrd κ] (m : SortedMap κ ν) (k : κ) (v : ν) :
    (m.insert k v).size + (m.contains k).toNat = m.size + 1 :=
  length_place m.sorted

end SortedMap

/-! ## The game that is dropped -/

theorem GameRecord.before_iff {r x : GameRecord} : r.before x = true ↔
    r.isFinished = true ∧ x.isFinished = false ∨
      r.isFinished = x.isFinished ∧ r.startedAt < x.startedAt := by
  unfold before
  cases r.isFinished <;> cases x.isFinished <;> simp

theorem GameRecord.before_trans {r x y : GameRecord} (h : r.before x = true)
    (h' : x.before y = true) : r.before y = true := by
  rw [before_iff] at h h' ⊢
  grind

/-- Of two records one of which is dropped rather than the other, a third one comes after the first
or before the second. -/
theorem GameRecord.before_or_before {r x : GameRecord} (h : r.before x = true) (y : GameRecord) :
    r.before y = true ∨ y.before x = true := by
  rw [before_iff] at h ⊢
  rw [before_iff]
  grind

/-- A game is dropped rather than another. It is finished if the other one is; and if the two are
both finished, or both not, it entered the ledger earlier, or at the same time and comes before by
its identifier. -/
structure Ledger.Rather (v w : String) (r x : GameRecord) (since since' : Nat) : Prop where
  finished : x.isFinished = true → r.isFinished = true
  earlier : r.isFinished = x.isFinished → since < since' ∨ since = since' ∧ compare v w = .lt

namespace Ledger

variable {l : Ledger} {keep v w id : String} {r x : GameRecord} {e f : String × GameRecord}
  {es : List (String × GameRecord)} {now : Nat} {s : Snapshot}

theorem foremost_eq_none (h : foremost es = none) : es = [] := by
  cases es with
  | nil => rfl
  | cons e es =>
    unfold foremost at h
    split at h
    · cases h
    · split at h <;> cases h

/-- **The foremost of some games** is dropped rather than any that is listed before it, and none
that is listed after it is dropped rather than it. -/
theorem foremost_eq_some (h : foremost es = some e) : ∃ front back, es = front ++ e :: back ∧
    (∀ f ∈ front, e.2.before f.2 = true) ∧ ∀ f ∈ back, ¬f.2.before e.2 = true := by
  induction es generalizing e with
  | nil => cases h
  | cons a es ih =>
    unfold foremost at h
    split at h
    · next hnone =>
      obtain rfl := Option.some.inj h
      exact ⟨[], [], congrArg _ (foremost_eq_none hnone), nofun, nofun⟩
    · next f hf =>
      obtain ⟨front, back, rfl, hfront, hback⟩ := ih hf
      split at h
      · next hfa =>
        obtain rfl := Option.some.inj h
        exact ⟨a :: front, back, rfl, List.forall_mem_cons.mpr ⟨hfa, hfront⟩, hback⟩
      · next hfa =>
        obtain rfl := Option.some.inj h
        refine ⟨[], front ++ f :: back, rfl, nofun, fun g hg hga => ?_⟩
        rcases List.mem_append.mp hg with hg | hg
        · exact hfa (GameRecord.before_trans (hfront g hg) hga)
        · rcases List.mem_cons.mp hg with rfl | hg
          · exact hfa hga
          · exact (GameRecord.before_or_before hga f.2).elim (hback g hg) hfa

theorem victim?_eq_some (h : l.victim? keep = some v) : limit < l.size ∧ v ≠ keep ∧
    ∃ r, l.get? v = some r ∧ ∀ w x, w ≠ keep → w ≠ v → l.get? w = some x →
      Rather v w r x r.startedAt x.startedAt := by
  unfold victim? at h
  obtain ⟨hsize, h⟩ := Option.ite_none_right_eq_some.mp h
  obtain ⟨⟨_, r⟩, hforemost, rfl⟩ := Option.map_eq_some_iff.mp h
  obtain ⟨hmem, hne⟩ := List.mem_filter.mp (foremost_mem hforemost)
  obtain ⟨front, back, hall, hfront, hback⟩ := foremost_eq_some hforemost
  have hsorted := l.sorted.filter fun e => e.1 ≠ keep
  rw [hall] at hsorted
  obtain ⟨-, hsorted, -⟩ := List.pairwise_append.mp hsorted
  refine ⟨hsize, of_decide_eq_true hne, r, SortedMap.get?_of_mem l hmem, fun w x hw hwv hx => ?_⟩
  have hwx : (w, x) ∈ front ++ (_, r) :: back :=
    hall ▸ List.mem_filter.mpr ⟨SortedMap.mem_of_lookup hx, decide_eq_true hw⟩
  rcases List.mem_append.mp hwx with hmem | hmem
  · have hbefore := GameRecord.before_iff.mp (hfront _ hmem)
    constructor <;> grind
  · rcases List.mem_cons.mp hmem with heq | hmem
    · cases heq
      exact absurd rfl hwv
    · have hbefore := mt GameRecord.before_iff.mpr (hback _ hmem)
      have hlt := (List.pairwise_cons.mp hsorted).1 _ hmem
      constructor <;> grind

theorem victim?_ne_none (h : limit < l.size) (keep : String) : l.victim? keep ≠ none := by
  intro hnone
  unfold victim? at hnone
  rw [if_pos h, Option.map_eq_none_iff] at hnone
  have hkeep : ∀ e ∈ l.entries, e.1 = keep := fun e he => by
    simpa using List.filter_eq_nil_iff.mp (foremost_eq_none hnone) e he
  have hempty : (l.erase keep).entries = [] := List.filter_eq_nil_iff.mpr fun e he => by
    simp [hkeep e he]
  have hsize := SortedMap.size_erase l keep
  have hone := Bool.toNat_le (l.contains keep)
  unfold SortedMap.size at h hsize
  rw [hempty, List.length_nil] at hsize
  unfold limit at h
  omega

/-! ## Recording -/

/-- What a recording does to a ledger, if the games in it are known to have entered it when
`since` says. -/
structure Retained (since : String → Option Nat) (l : Ledger) (now : Nat) (s : Snapshot)
    (dropped : Option String) (l' : Ledger) : Prop where
  /-- The game that is recorded stays, or enters, and has one more snapshot. -/
  own : l'.get? s.session = some (((l.get? s.session).getD { startedAt := now }).add s)
  /-- A game is dropped just if there would be 17. -/
  needed : dropped ≠ none ↔ l.get? s.session = none ∧ l.size = limit
  /-- It is another game, and dropped rather than any other. -/
  chosen : ∀ v, dropped = some v → v ≠ s.session ∧ l'.get? v = none ∧
    ∃ r n, l.get? v = some r ∧ since v = some n ∧
      ∀ w x, w ≠ s.session → w ≠ v → l.get? w = some x →
        ∃ n', since w = some n' ∧ Rather v w r x n n'
  others : ∀ w, w ≠ s.session → dropped ≠ some w → l'.get? w = l.get? w

/-- Somebody is dropped just if there are too many. -/
theorem victim?_ne_none_iff : l.victim? keep ≠ none ↔ limit < l.size := by
  refine ⟨fun h => ?_, fun h => victim?_ne_none h keep⟩
  obtain ⟨v, hv⟩ := Option.ne_none_iff_exists'.mp h
  exact (victim?_eq_some hv).1

/-- A ledger is full just if another game is too many. -/
theorem limit_lt_size_insert (h : l.size ≤ limit) :
    limit < SortedMap.size (l.insert id r) ↔ l.get? id = none ∧ l.size = limit := by
  have hinsert := SortedMap.size_insert l id r
  unfold SortedMap.contains at hinsert
  cases hget : l.get? id with
  | none =>
    rw [hget] at hinsert
    simp only [Option.isSome_none, Bool.toNat_false, true_and] at hinsert ⊢
    omega
  | some x =>
    rw [hget] at hinsert
    simp only [Option.isSome_some, Bool.toNat_true, reduceCtorEq, false_and, iff_false] at hinsert ⊢
    omega

/-- **No more than 16 games are retained.** -/
theorem size_record (h : l.size ≤ limit) (now : Nat) (s : Snapshot) :
    (l.record now s).ledger.size ≤ limit := by
  unfold record
  dsimp only
  generalize ((l.get? s.session).getD { startedAt := now }).add s = r
  cases hv : victim? (l.insert s.session r) s.session with
  | none => exact Nat.le_of_not_lt (victim?_ne_none_iff.not_right.mp hv)
  | some v =>
    obtain ⟨-, -, x, hx, -⟩ := victim?_eq_some hv
    have hinsert := SortedMap.size_insert l s.session r
    have herase := SortedMap.size_erase (l.insert s.session r) v
    rw [SortedMap.contains, hx] at herase
    simp only [Option.isSome_some, Bool.toNat_true] at herase
    show SortedMap.size (SortedMap.erase _ v) ≤ limit
    omega

theorem retained_record {since : String → Option Nat} (h : l.size ≤ limit)
    (hsince : ∀ id, (l.get? id).map (·.startedAt) = since id) (now : Nat) (s : Snapshot) :
    Retained since l now s (l.record now s).dropped (l.record now s).ledger where
  own := by
    rw [get?_record, if_neg (dropped_ne l now s), if_pos rfl]
  needed := victim?_ne_none_iff.trans (limit_lt_size_insert h)
  chosen v hv := by
    obtain ⟨-, hne, r, hr, hrather⟩ := victim?_eq_some hv
    rw [SortedMap.get?_insert_of_ne _ _ hne] at hr
    refine ⟨hne, ?_, r, r.startedAt, hr, ?_, fun w x hw hwv hx =>
      ⟨x.startedAt, ?_, hrather w x hw hwv ?_⟩⟩
    · rw [get?_record, if_pos hv]
    · rw [← hsince, hr]
      rfl
    · rw [← hsince, hx]
      rfl
    · rw [SortedMap.get?_insert_of_ne _ _ hw, hx]
  others w hw hv := by
    rw [get?_record, if_neg hv, if_neg hw]

/-! ## All that can become of the games -/

theorem mapValues_id (l : Ledger) : l.mapValues (fun _ r => r) = l :=
  SortedMap.ext_entries (List.map_id l.entries)

theorem startedAt_lowered (k : Sending) (r : GameRecord) :
    (k.lowered r).startedAt = r.startedAt := by
  cases k <;> rfl

theorem startedAt_requeued (r : GameRecord) : (requeued r).startedAt = r.startedAt := by
  unfold requeued
  split
  · rfl
  · split <;> rfl

theorem startedAt_accepted (k : Nat) (r : GameRecord) :
    (accepted k r).startedAt = r.startedAt := by
  unfold accepted
  dsimp only
  split <;> rfl

theorem modify_eq_mapValues {f : GameRecord → GameRecord}
    (hf : ∀ r, (f r).startedAt = r.startedAt) (l : Ledger) (j : String) :
    ∃ g : String → GameRecord → GameRecord,
      l.modify j f = l.mapValues g ∧ ∀ id r, (g id r).startedAt = r.startedAt := by
  refine ⟨_, rfl, fun id r => (apply_ite GameRecord.startedAt ..).trans ?_⟩
  rw [hf, ite_self]

/-- Whoever neither records nor closes a game leaves all games in the ledger, with the times at
which they entered. -/
theorem turned_eq_mapValues {a : Activity} (hr : ∀ s, a ≠ .record s) (hc : ∀ id, a ≠ .close id)
    (l : Ledger) (now : Nat) : ∃ f : String → GameRecord → GameRecord,
      l.turned now a = l.mapValues f ∧ ∀ id r, (f id r).startedAt = r.startedAt := by
  cases a with
  | record s => exact absurd rfl (hr s)
  | close id => exact absurd rfl (hc id)
  | upload id | withdrawUpload id | history id | withdrawHistory id =>
    exact modify_eq_mapValues (startedAt_lowered _) l id
  | scanLedger => exact ⟨fun _ => requeued, rfl, fun _ => startedAt_requeued⟩
  | acknowledge id k => exact modify_eq_mapValues (startedAt_accepted k) l id
  | _ => exact ⟨_, (mapValues_id l).symm, fun _ _ => rfl⟩

theorem size_turned (h : l.size ≤ limit) (now : Nat) (a : Activity) :
    (l.turned now a).size ≤ limit := by
  by_cases hr : ∃ s, a = .record s
  · obtain ⟨s, rfl⟩ := hr
    exact size_record h now s
  by_cases hc : ∃ id, a = .close id
  · obtain ⟨id, rfl⟩ := hc
    exact Nat.le_trans (Nat.le.intro (SortedMap.size_erase l id)) h
  obtain ⟨f, heq, -⟩ := turned_eq_mapValues (not_exists.mp hr) (not_exists.mp hc) l now
  rw [heq, SortedMap.size_mapValues]
  exact h

/-- A game that stays knows since when it is in the ledger, and one that enters does from now on. -/
theorem startedAt_turned {a : Activity} (h : (l.turned now a).get? id = some x) :
    x.startedAt = ((l.get? id).map (·.startedAt)).getD now := by
  by_cases hr : ∃ s, a = .record s
  · obtain ⟨s, rfl⟩ := hr
    have hget := (get?_record l now s id).symm.trans h
    split at hget
    · cases hget
    · split at hget
      · next hid =>
        obtain rfl := Option.some.inj hget
        rw [← hid]
        cases l.get? id <;> rfl
      · rw [hget]
        rfl
  by_cases hc : ∃ j, a = .close j
  · obtain ⟨j, rfl⟩ := hc
    have hget := (SortedMap.get?_erase l j id).symm.trans h
    split at hget
    · cases hget
    · rw [hget]
      rfl
  obtain ⟨f, heq, hf⟩ := turned_eq_mapValues (not_exists.mp hr) (not_exists.mp hc) l now
  rw [heq, SortedMap.get?_mapValues] at h
  obtain ⟨r, hr, rfl⟩ := Option.map_eq_some_iff.mp h
  rw [hr, hf]
  rfl

/-- Of the turns of a call of the host only a recording does more to the ledger than to lower the
flag of a sending that the call gives up. -/
theorem turned_of_caller {a : Activity} (hplace : none ∈ a.places) (hr : ∀ s, a ≠ .record s)
    (l : Ledger) (now : Nat) : l.turned now a = l ∨
      ∃ (k : Sending) (id : String) (others : List String),
        k.games a = id :: others ∧ l.turned now a = l.lower k id := by
  cases a with
  | record s => exact absurd rfl (hr s)
  | withdrawUpload id uploads histories => exact .inr ⟨.snapshot, id, uploads, rfl, rfl⟩
  | withdrawHistory id histories => exact .inr ⟨.history, id, histories, rfl, rfl⟩
  | upload | history | scanLedger | acknowledge | close => simp [Activity.places] at hplace
  | _ => exact .inl rfl

end Ledger

/-! ## Runs -/

namespace Engine

open Ledger (Retained)

/-- Since when a game is in the ledger after a step, if it is. -/
def sinceAfter (id : String) (since : Option Nat) (t : Transition) : Option Nat :=
  if t.after.world.ledger.contains id then
    if t.before.world.ledger.contains id then since else some t.before.now
  else none

/-- The time of the step in which a game entered the ledger in which it still is. -/
def enteredAt? (ts : List Transition) (id : String) : Option Nat :=
  ts.foldl (sinceAfter id) none

variable {s : Setup} {start : Nat} {ts : List Transition} {m : System} {id : String}

theorem enteredAt?_concat (ts : List Transition) (t : Transition) (id : String) :
    enteredAt? (ts ++ [t]) id = sinceAfter id (enteredAt? ts id) t := List.foldl_append

/-- The ledger after a step is the one of the table, or the one before. -/
theorem Run.ledger_step {t : Transition} (h : Run s start (ts ++ [t]) m) :
    (∃ lane a reply, t.turn? = some ⟨lane, a, reply⟩ ∧
      t.after.world.ledger = t.before.world.ledger.turned t.before.now a) ∨
    t.after.world.ledger = t.before.world.ledger := by
  cases hu : t.turn? with
  | some u =>
    obtain ⟨lane, a, reply⟩ := u
    exact .inl ⟨lane, a, reply, rfl,
      RunFrom.ledger_of_turn h (List.mem_append_right _ List.mem_cons_self) hu⟩
  | none => exact .inr (congrArg ledger (h.idle hu).2.2)

theorem Run.bounded (h : Run s start ts m) : m.world.ledger.size ≤ Ledger.limit := by
  induction h with
  | start => exact Nat.zero_le _
  | @step ts m m' move events hts hopen hstep ih =>
    have hrun : Run s start (ts ++ [⟨m, move, m'⟩]) m' := .step hts hopen hstep
    obtain ⟨lane, a, reply, -, heq⟩ | heq := hrun.ledger_step
    · exact heq ▸ Ledger.size_turned ih ..
    · exact heq ▸ ih

/-- **Every record knows since when its game is in the ledger.** -/
theorem Run.startedAt (h : Run s start ts m) (id : String) :
    (m.world.ledger.get? id).map (·.startedAt) = enteredAt? ts id := by
  induction h with
  | start => rfl
  | @step ts m m' move events hts hopen hstep ih =>
    have hrun : Run s start (ts ++ [⟨m, move, m'⟩]) m' := .step hts hopen hstep
    have hknown : ∀ x, m'.world.ledger.get? id = some x →
        x.startedAt = ((m.world.ledger.get? id).map (·.startedAt)).getD m.now := by
      intro x hx
      obtain ⟨lane, a, reply, -, heq⟩ | heq := hrun.ledger_step
      · exact Ledger.startedAt_turned (heq ▸ hx)
      · rw [← show m'.world.ledger = m.world.ledger from heq, hx]
        rfl
    rw [enteredAt?_concat, ← ih]
    unfold sinceAfter SortedMap.contains
    dsimp only
    cases hx : m'.world.ledger.get? id with
    | none => rfl
    | some x =>
      rw [Option.map_some, hknown x hx]
      cases m.world.ledger.get? id <;> rfl

/-- What holds of the ledger along a run. -/
structure Retention (ts : List Transition) (m : System) : Prop where
  bounded : m.world.ledger.size ≤ Ledger.limit
  /-- What a recording drops, and keeps; and what is left of the call is to submit an upload of the
  game, if anything. -/
  recording : ∀ pre t post lane x reply, ts = pre ++ t :: post →
    t.turn? = some ⟨lane, .record x, reply⟩ →
      (∃ dropped, Retained (enteredAt? pre) t.before.world.ledger t.before.now x dropped
        t.after.world.ledger) ∧
      ∃ front back rest, t.before.callers = front ++ .record x :: back ∧
        t.after.callers = front ++ rest ++ back ∧
        ∀ a ∈ rest, a = .submit [x.session] []
  /-- Any other turn of a call of the host leaves the ledger as it is, but for the flag of a sending
  that it gives up. -/
  otherwise : ∀ pre t post a reply, ts = pre ++ t :: post → t.turn? = some ⟨none, a, reply⟩ →
    (∀ x, a ≠ .record x) → t.after.world.ledger = t.before.world.ledger ∨
      ∃ (k : Sending) (id : String) (others : List String), k.games a = id :: others ∧
        t.after.world.ledger = t.before.world.ledger.lower k id

theorem rest_record {now : Nat} {self : Option Nat} {e : Engine} {p : Workers} {x : Snapshot}
    {reply : Option Reply} {r : Result}
    (h : program.act now self e p (.record x) reply = some r) :
    ∀ a ∈ r.rest, a = .submit [x.session] [] := by
  obtain ⟨_, _, _, ha, -, -⟩ | ⟨-, hstep⟩ := act_cases h
  · cases ha
  · obtain rfl := Option.some.inj (show e.recordStep now p (.record x) = some r from hstep)
    intro a ha
    split at ha
    · exact (Option.some.inj ha).symm
    · cases ha

/-- **Bounded retention drops the right game.** Take any run. The ledger never holds more than 16
games. A recording keeps the game that it records; it drops another one just if that game is new
and 16 are there, and only one; that one is finished if any other one is, but for the game that is
recorded, and of those that are finished as well, or that are not either, it entered the ledger
first, and comes before those that entered at the same time. The record of every other game stays
as it is, and nothing else in a call of the host drops a game. -/
theorem Run.retained (h : Run s start ts m) : Retention ts m where
  bounded := h.bounded
  recording := by
    rintro pre t post lane x reply rfl ht
    obtain ⟨hpre, -⟩ := h.before
    obtain ⟨self, r, hact, htook⟩ := h.turn ht
    have hledger : t.after.world.ledger = (t.before.world.ledger.record t.before.now x).ledger :=
      RunFrom.ledger_of_turn h (List.mem_append_right _ List.mem_cons_self) ht
    refine ⟨⟨_, hledger ▸ Ledger.retained_record hpre.bounded hpre.startedAt t.before.now x⟩, ?_⟩
    obtain ⟨-, front, back, hbefore, hafter⟩ | ⟨hlane, -⟩ := htook.callers
    · exact ⟨front, back, r.rest.toList, hbefore, hafter, fun a ha =>
        rest_record hact a (Option.mem_toList.mp ha)⟩
    · exact absurd (List.mem_singleton.mp htook.place) hlane
  otherwise := by
    rintro pre t post a reply rfl ht hr
    obtain ⟨self, r, -, htook⟩ := h.turn ht
    rw [RunFrom.ledger_of_turn h (List.mem_append_right _ List.mem_cons_self) ht]
    exact Ledger.turned_of_caller htook.place hr ..

/-- Sixteen games, of which two are finished and one is older than these, and another one. -/
def Sample.seventeen : List (Machine.Move Activity Reply) :=
  arrive ++ send { active := true, session := "oldest" } ++ [.wait 1] ++
    send { active := false, session := "over" } ++ send { active := false, session := "done" } ++
    (List.range 13).flatMap (fun i =>
      send { active := true, session := "other" ++ String.ofList (List.replicate i '+') }) ++
    send { active := true, session := "newest" }

set_option maxRecDepth 100000 in
/-- A run in which a seventeenth game is recorded: of two finished games that entered together the
one is dropped that comes before the other, and an older game that is not finished stays. -/
theorem finished_dropped_first :
    ∃ ts m, Run Sample.setup 0 ts m ∧ Retention ts m ∧ m.world.ledger.size = Ledger.limit ∧
      m.world.ledger.get? "done" = none ∧ m.world.ledger.get? "over" ≠ none ∧
      m.world.ledger.get? "oldest" ≠ none ∧ m.world.ledger.get? "newest" ≠ none := by
  have hcourse : ((system Sample.setup 0).course? program Activity.isHostCall
      Sample.seventeen).any (fun x => decide (x.2.world.ledger.size = Ledger.limit ∧
        x.2.world.ledger.get? "done" = none ∧ x.2.world.ledger.get? "over" ≠ none ∧
        x.2.world.ledger.get? "oldest" ≠ none ∧ x.2.world.ledger.get? "newest" ≠ none)) =
      true := by
    decide +kernel
  obtain ⟨ts, m, hrun, hfound⟩ := Machine.exists_course hcourse
  exact ⟨ts, m, hrun, Run.retained hrun, of_decide_eq_true hfound⟩

end Engine

end ArcadeUplink
