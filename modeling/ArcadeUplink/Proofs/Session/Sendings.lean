import ArcadeUplink.Proofs.Session.Conduct

/-!
# Sendings

What is sent of a game are its snapshots, and in the end its history. For either a
record has a flag, which is raised when a sending is to be submitted, and an
activity has games of which a sending is yet to be begun. `Ledger.raised` counts
the flags, and for each change of the ledger there is a law of what it does to
them.

A step puts other activities in the place of one and may raise or lower flags.
`Exchange` says that the one makes up for the other, so that flags and sendings
stay in balance (`Balanced.exchange`); nothing else that is to be done is looked
at.
-/

namespace ArcadeUplink

open scoped List

namespace SortedMap

variable {κ ν : Type} [Ord κ] [DecidableEq κ] [Std.LawfulEqOrd κ]

theorem count_lookup {l : List (κ × ν)} (h : l.Pairwise fun a b => compare a.1 b.1 = .lt)
    (f : ν → Bool) (k : κ) :
    ((l.filter fun e => f e.2).map (·.1)).count k = ((lookup k l).any f).toNat := by
  induction l with
  | nil => rfl
  | cons a r ih =>
    obtain ⟨ha, hr⟩ := List.pairwise_cons.mp h
    unfold lookup
    by_cases hk : k = a.1
    · have hrest : ((r.filter fun e => f e.2).map (·.1)).count a.1 = 0 := by
        apply List.count_eq_zero.mpr
        intro hmem
        obtain ⟨b, hb, heq⟩ := List.mem_map.mp hmem
        have hlt := ha b (List.mem_filter.mp hb).1
        rw [heq] at hlt
        cases hlt.symm.trans Std.ReflCmp.compare_self
      rw [hk, if_pos Std.ReflCmp.compare_self, List.filter_cons]
      cases hf : f a.2 <;> simp [hf, hrest]
    · rw [if_neg fun e => hk (Std.LawfulEqCmp.eq_of_compare e), ← ih hr, List.filter_cons]
      split
      · exact List.count_cons_of_ne (Ne.symm hk)
      · rfl

/-- A key is listed once if its value passes, and not at all otherwise. -/
theorem count_filter (m : SortedMap κ ν) (f : ν → Bool) (k : κ) :
    ((m.entries.filter fun e => f e.2).map (·.1)).count k = ((m.get? k).any f).toNat :=
  count_lookup m.sorted f k

end SortedMap

/-- What is sent of a game: snapshots, and in the end its history. -/
inductive Sending where
  | snapshot
  | history
deriving DecidableEq

namespace Sending

/-- The sending that a sending is not. -/
def other : Sending → Sending
  | snapshot => history
  | history => snapshot

theorem eq_other {k k' : Sending} (h : k ≠ k') : k' = k.other := by
  cases k <;> cases k' <;> first | rfl | exact absurd rfl h

/-- The flag of a record that says that a sending is queued. -/
def flag : Sending → GameRecord → Bool
  | snapshot, r => r.uploadQueued
  | history, r => r.historyQueued

/-- A record with a flag lowered. -/
def lowered : Sending → GameRecord → GameRecord
  | snapshot, r => { r with uploadQueued := false }
  | history, r => { r with historyQueued := false }

theorem flag_lowered (k k' : Sending) (r : GameRecord) :
    k'.flag (k.lowered r) = if k = k' then false else k'.flag r := by
  cases k <;> cases k' <;> rfl

/-- Whether a sending of a game is missing, which nobody is at. -/
def missing : Sending → GameRecord → Bool
  | snapshot, r => Ledger.needsUpload r
  | history, r => r.historyDue

/-- The games of which an activity has still to submit, or to begin, a sending. -/
def games : Sending → Activity → List String
  | snapshot, a => a.uploads
  | history, a => a.histories

/-- The task of a sending. -/
def task : Sending → String → Activity
  | snapshot, id => .upload id
  | history, id => .history id

variable {k : Sending} {a : Activity}

theorem games_of_isPlain (h : a.isPlain = true) : k.games a = [] := by
  cases k with
  | snapshot => exact Activity.uploads_of_isPlain h
  | history => exact Activity.histories_of_isPlain h

theorem games_of_not_isOfGames (h : a.isOfGames = false) : k.games a = [] := by
  cases a <;> first | (cases k <;> rfl) | cases h

end Sending

/-! ## Flags of a ledger -/

namespace Ledger

variable {l l' : Ledger} {k k' : Sending} {id j : String}

/-- A modification reaches the record of its game and no other. -/
theorem get?_modify (l : Ledger) (j id : String) (f : GameRecord → GameRecord) :
    SortedMap.get? (l.modify j f) id = (l.get? id).map fun r => if j = id then f r else r := by
  simp only [SortedMap.get?_modify, Std.LawfulEqOrd.compare_eq_iff_eq]

/-- Whether a flag of a game is raised, as a number. -/
def raised (l : Ledger) (k : Sending) (id : String) : Nat := ((l.get? id).any k.flag).toNat

theorem raised_of_get? {r : GameRecord} (h : l.get? id = some r) :
    l.raised k id = (k.flag r).toNat := by
  rw [raised, h]
  rfl

theorem raised_of_none (h : l.get? id = none) : l.raised k id = 0 := by
  rw [raised, h]
  rfl

theorem raised_le_one : l.raised k id ≤ 1 := Bool.toNat_le _

/-- The ledger with a flag lowered. -/
def lower (l : Ledger) (k : Sending) (j : String) : Ledger := l.modify j k.lowered

theorem raised_lower (l : Ledger) (k : Sending) (j : String) (k' : Sending) (id : String) :
    (l.lower k j).raised k' id = if k = k' ∧ j = id then 0 else l.raised k' id := by
  unfold raised lower
  rw [get?_modify]
  cases l.get? id with
  | none => exact (ite_self _).symm
  | some r =>
    simp only [Option.map_some, Option.any_some]
    by_cases hj : j = id
    · rw [if_pos hj, Sending.flag_lowered]
      by_cases hk : k = k' <;> simp [hj, hk]
    · rw [if_neg hj, if_neg fun h => hj h.2]

/-- Flags that change along with the records. -/
theorem raised_of_map {f : GameRecord → GameRecord} {g : GameRecord → Bool}
    (h : l'.get? id = (l.get? id).map f)
    (hf : ∀ r, (k.flag (f r)).toNat = (k.flag r).toNat + (g r).toNat) :
    l'.raised k id = l.raised k id + ((l.get? id).any g).toNat := by
  cases hr : l.get? id with
  | none => rw [raised_of_none hr, raised_of_none (by rw [h, hr]; rfl)]; rfl
  | some r =>
    rw [raised_of_get? hr, raised_of_get? (by rw [h, hr]; rfl), hf]
    rfl

/-- A game that is not in the ledger counts like one whose record is new. -/
theorem raised_eq_getD (l : Ledger) (k : Sending) (id : String) (now : Nat) :
    l.raised k id = (k.flag ((l.get? id).getD { startedAt := now })).toNat := by
  unfold raised
  cases l.get? id with
  | none => cases k <;> rfl
  | some r => rfl

/-- A recording raises the flag of its game unless it is raised, and no other one. -/
theorem raised_record (l : Ledger) (now : Nat) (s : Snapshot) (k : Sending)
    (hstays : (l.record now s).dropped ≠ some id) :
    (l.record now s).ledger.raised k id = l.raised k id +
      if (l.record now s).submit then (k.games (.submit [s.session] [])).count id else 0 := by
  have hget := get?_record l now s id
  rw [if_neg hstays] at hget
  by_cases hid : id = s.session
  · subst hid
    rw [if_pos rfl] at hget
    rw [raised_of_get? hget, raised_eq_getD l k s.session now]
    unfold record
    generalize (l.get? s.session).getD { startedAt := now } = r
    cases k with
    | snapshot =>
      show 1 = r.uploadQueued.toNat + if !r.uploadQueued then [s.session].count s.session else 0
      rw [List.count_singleton_self]
      cases r.uploadQueued <;> rfl
    | history =>
      show r.historyQueued.toNat = r.historyQueued.toNat + if !r.uploadQueued then 0 else 0
      rw [ite_self, Nat.add_zero]
  · have hnot : (k.games (.submit [s.session] [])).count id = 0 := by
      cases k with
      | snapshot => exact List.count_eq_zero.mpr fun h => hid (List.mem_singleton.mp h)
      | history => rfl
    rw [if_neg hid] at hget
    unfold raised
    rw [hget, hnot, ite_self, Nat.add_zero]

theorem of_needsUpload {r : GameRecord} (h : needsUpload r = true) :
    r.isDelivered = false ∧ r.uploadQueued = false := by
  unfold needsUpload at h
  simpa only [Bool.and_eq_true, Bool.not_eq_true'] using h

theorem of_historyDue {r : GameRecord} (h : r.historyDue = true) :
    r.isDelivered = true ∧ r.historyQueued = false := by
  unfold GameRecord.historyDue at h
  simp only [Bool.and_eq_true, Bool.not_eq_true'] at h
  exact ⟨h.1.1, h.2⟩

/-- A record that is queued once more has a flag raised that was down. -/
theorem flag_requeued (k : Sending) (r : GameRecord) :
    (k.flag (requeued r)).toNat = (k.flag r).toNat + (k.missing r).toNat := by
  unfold requeued
  split
  · next hneeds =>
    obtain ⟨hdelivered, hdown⟩ := of_needsUpload hneeds
    cases k with
    | snapshot => simp [Sending.flag, Sending.missing, hneeds, hdown]
    | history => simp [Sending.flag, Sending.missing, GameRecord.historyDue, hdelivered]
  · next hneeds =>
    split
    · next hdue =>
      cases k with
      | snapshot => simp [Sending.flag, Sending.missing, hneeds]
      | history => simp [Sending.flag, Sending.missing, hdue, (of_historyDue hdue).2]
    · next hdue => cases k <;> simp [Sending.missing, hneeds, hdue]

/-- A look through the ledger raises just the flags of what it submits. -/
theorem raised_retry (l : Ledger) (k : Sending) (id : String) :
    l.retry.2.2.raised k id =
      l.raised k id + (k.games (.submit l.retry.1 l.retry.2.1)).count id := by
  have hgames : (k.games (.submit l.retry.1 l.retry.2.1)).count id =
      ((l.get? id).any k.missing).toNat := by
    cases k <;> exact SortedMap.count_filter ..
  rw [hgames]
  exact raised_of_map (SortedMap.get?_mapValues ..) (flag_requeued k)

/-- A record that notes an acceptance has a flag raised that was down, if the history is due. -/
theorem flag_accepted (k : Sending) (revision : Nat) (r : GameRecord) :
    (k.flag (accepted revision r)).toNat =
      (k.flag r).toNat + (decide (k = .history) && dueAfter revision r).toNat := by
  unfold accepted dueAfter
  dsimp only
  split
  · next hdue =>
    have hdown : r.historyQueued = false := (of_historyDue hdue).2
    rw [hdue]
    cases k with
    | snapshot => rfl
    | history =>
      show 1 = r.historyQueued.toNat + 1
      rw [hdown]
      rfl
  · next hdue =>
    rw [Bool.not_eq_true _ |>.mp hdue, Bool.and_false]
    cases k <;> rfl

/-- An acknowledgement raises the flag of a history that is due. -/
theorem raised_acknowledge (l : Ledger) (id j : String) (revision : Nat) (k : Sending) :
    (l.acknowledge j revision).2.raised k id = l.raised k id +
      if (l.acknowledge j revision).1 then (k.games (.history j)).count id else 0 := by
  have hget : (l.acknowledge j revision).2.get? id =
      (l.get? id).map fun r => if j = id then accepted revision r else r := get?_modify ..
  by_cases hj : j = id
  · subst hj
    simp only [if_pos] at hget
    rw [raised_of_map hget (flag_accepted k revision)]
    unfold acknowledge
    cases l.get? j with
    | none => cases k <;> rfl
    | some r =>
      cases k with
      | snapshot => exact congrArg _ (ite_self _).symm
      | history =>
        show _ = _ + if dueAfter revision r then [j].count j else 0
        rw [List.count_singleton_self]
        cases hdue : dueAfter revision r <;> simp [hdue]
  · have hnot : (k.games (.history j)).count id = 0 := by
      cases k with
      | snapshot => rfl
      | history => exact List.count_eq_zero.mpr fun h => hj (List.mem_singleton.mp h).symm
    simp only [if_neg hj, Option.map_id'] at hget
    unfold raised
    rw [hget, hnot, ite_self, Nat.add_zero]

theorem dropped_ne_of_stays {now : Nat} {s : Snapshot}
    (h : l.get? id ≠ none → (l.record now s).ledger.get? id ≠ none) :
    (l.record now s).dropped ≠ some id := by
  intro hdropped
  have hafter := h (get?_of_dropped hdropped)
  rw [get?_record, if_pos hdropped] at hafter
  exact hafter rfl

/-- A game that is closed is not one that stays. -/
theorem raised_close (k : Sending)
    (h : l.get? id ≠ none → SortedMap.get? (l.erase j) id ≠ none) :
    raised (l.erase j) k id = l.raised k id := by
  unfold raised
  rw [SortedMap.get?_erase] at h ⊢
  split
  · next heq =>
    rw [if_pos heq] at h
    rw [not_not.mp fun hne => h hne rfl]
  · rfl

end Ledger

/-! ## One activity for others -/

/-- Every flag of a game is raised just if one of its sendings is yet to be begun. -/
def Balanced (id : String) (l : Ledger) (as : List Activity) : Prop :=
  ∀ k : Sending, (as.flatMap k.games).count id = l.raised k id

/-- Other activities come for one, and the ledger changes, so that a balance is kept. -/
def Exchange (id : String) (l : Ledger) (a : Activity) (l' : Ledger) (bs : List Activity) : Prop :=
  ∀ k : Sending, (k.games a).count id ≤ l.raised k id →
    (bs.flatMap k.games).count id + l.raised k id = (k.games a).count id + l'.raised k id

section Exchanges

variable {id j : String} {l l' : Ledger} {a : Activity} {as bs : List Activity} {k : Sending}

theorem Balanced.perm (h : Balanced id l as) (hp : as ~ bs) : Balanced id l bs :=
  fun k => ((hp.flatMap_right _).count_eq id).symm.trans (h k)

/-- Whatever has no sendings can join. -/
theorem Balanced.join (h : Balanced id l as) (hb : ∀ b ∈ bs, ∀ k : Sending, k.games b = []) :
    Balanced id l (bs ++ as) := by
  intro k
  rw [List.flatMap_append, List.flatMap_eq_nil_iff.mpr fun b hmem => hb b hmem k]
  exact h k

theorem Balanced.exchange (h : Balanced id l (a :: as)) (hx : Exchange id l a l' bs) :
    Balanced id l' (bs ++ as) := by
  intro k
  have hbefore := h k
  rw [List.flatMap_cons, List.count_append] at hbefore
  rw [List.flatMap_append, List.count_append]
  have := hx k (by omega)
  omega

namespace Exchange

/-- The same games in other hands. -/
theorem pass (h : ∀ k : Sending, bs.flatMap k.games ~ k.games a) : Exchange id l a l bs := by
  intro k _
  rw [(h k).count_eq]

theorem same (h : ∀ k : Sending, bs.flatMap k.games = k.games a) : Exchange id l a l bs :=
  .pass fun k => .of_eq (h k)

theorem idle (ha : ∀ k : Sending, k.games a = [])
    (hb : ∀ b ∈ bs, ∀ k : Sending, k.games b = []) : Exchange id l a l bs := by
  refine .pass fun k => ?_
  rw [ha, List.flatMap_eq_nil_iff.mpr fun b hmem => hb b hmem k]

/-- Whoever takes a game in hand lowers its flag. -/
theorem lower (h : k.games a = j :: bs.flatMap k.games)
    (hother : bs.flatMap k.other.games = k.other.games a)
    (hl : ∀ k', l'.raised k' id = if k = k' ∧ j = id then 0 else l.raised k' id) :
    Exchange id l a l' bs := by
  intro k' hle
  rw [hl]
  by_cases hk : k = k'
  · subst hk
    have hone : l.raised k id ≤ 1 := Ledger.raised_le_one
    rw [h, List.count_cons] at hle ⊢
    by_cases hj : j = id
    · simp only [hj, beq_self_eq_true, if_true, true_and] at hle ⊢
      omega
    · simp [hj]
  · rw [if_neg fun e => hk e.1, Sending.eq_other hk, hother]

/-- Whoever raises flags takes the games in hand. -/
theorem raise (ha : ∀ k : Sending, k.games a = [])
    (hl : ∀ k, l'.raised k id = l.raised k id + (bs.flatMap k.games).count id) :
    Exchange id l a l' bs := by
  intro k _
  rw [hl, ha, List.count_nil]
  omega

end Exchange

end Exchanges

end ArcadeUplink
