import ArcadeUplink.Proofs.Session.Delivery

/-!
# The order and the numbers of uploads

For a game that never leaves the ledger the uploads that the server accepts are
numbered without gap or repeat, their snapshots come in the order in which they
were recorded, and each was the latest one when its upload was begun. The reason
is that uploads run one after another: `Numbered` is kept by every lawful deed,
as only recordings come between the first deed of an upload and the last.

Which uploads the server accepts is up to it; any may fail.
-/

namespace ArcadeUplink

namespace Deed

variable {id : String} {ds es l : List Deed} {d : Deed} {k : Nat} {s : Snapshot}

/-! ## Games that stay -/

theorem Lawful.life_of_begun (h : Lawful ds) (hstays : ∀ d ∈ ds, d.removes id = false)
    {u : SnapshotUpload} (hb : begun u k ∈ ds) (hu : u.session = id) :
    life id ds ≠ none := by
  obtain ⟨before, after, rfl⟩ := List.append_of_mem hb
  obtain ⟨-, a, ha, -⟩ := h.allowed
  rw [life_append (hu ▸ ha) fun d hd => hstays d (List.mem_append_right _ hd)]
  exact nofun

theorem recordings_of_life_eq_none (hstays : ∀ d ∈ ds, d.removes id = false)
    (hlife : life id ds = none) : recordings id ds = [] := by
  induction ds using List.reverseRecOn with
  | nil => rfl
  | append_singleton ds d ih =>
    have hstays' : ∀ e ∈ ds, e.removes id = false := fun e he =>
      hstays e (List.mem_append_left _ he)
    have hd : d.removes id = false := hstays d (List.mem_append_right _ List.mem_cons_self)
    rw [life_concat] at hlife
    cases hl : life id ds with
    | some l =>
      rw [hl, grow_some hd] at hlife
      cases hlife
    | none =>
      rw [hl] at hlife
      cases hr : d.recorded? id with
      | some s =>
        rw [grow_of_recorded hd hr] at hlife
        cases hlife
      | none =>
        rw [recordings_append, ih hstays' hl, recordings_cons, hr]
        rfl

theorem Lawful.acknowledgements_of_life_eq_none (h : Lawful ds)
    (hstays : ∀ d ∈ ds, d.removes id = false) (hlife : life id ds = none) :
    acknowledgements id ds = [] := by
  apply List.eq_nil_iff_forall_not_mem.mpr
  intro k hk
  obtain ⟨before, after, rfl⟩ := List.append_of_mem (mem_acknowledgements.mp hk)
  obtain ⟨u, front, mid, mid', hu, rfl, -⟩ := h.acknowledged_origin
  exact h.life_of_begun (k := k) hstays (by simp) hu hlife

/-- **A life is everything** for a game that never leaves. -/
theorem Lawful.life_of_stays (h : Lawful ds) (hstays : ∀ d ∈ ds, d.removes id = false)
    (hlife : life id ds = some l) :
    recordings id l = recordings id ds ∧ acknowledgements id l = acknowledgements id ds := by
  obtain ⟨front, rfl, hfront, -⟩ := life_suffix hlife
  have hstays' : ∀ d ∈ front, d.removes id = false := fun d hd =>
    hstays d (List.mem_append_left _ hd)
  rw [recordings_append, recordings_of_life_eq_none hstays' hfront, acknowledgements_append,
    h.of_append.acknowledgements_of_life_eq_none hstays' hfront]
  exact ⟨rfl, rfl⟩

/-! ## Numbers -/

/-- A snapshot is the one that was recorded as a certain revision. -/
def IsRevision (id : String) (ds : List Deed) (k : Nat) (s : Snapshot) : Prop :=
  0 < k ∧ (recordings id ds)[k - 1]? = some s

theorem IsRevision.append (h : IsRevision id ds k s) : IsRevision id (ds ++ es) k s := by
  obtain ⟨hlt, -⟩ := List.getElem?_eq_some_iff.mp h.2
  refine ⟨h.1, ?_⟩
  rw [recordings_append, List.getElem?_append_left hlt]
  exact h.2

theorem IsRevision.le (h : IsRevision id ds k s) : k ≤ (recordings id ds).length := by
  obtain ⟨hlt, -⟩ := List.getElem?_eq_some_iff.mp h.2
  omega

/-- The latest snapshot is the last revision. -/
theorem isRevision_of_getLast? (h : (recordings id ds).getLast? = some s) :
    IsRevision id ds (recordings id ds).length s := by
  rw [List.getLast?_eq_getElem?] at h
  refine ⟨?_, h⟩
  obtain ⟨hlt, -⟩ := List.getElem?_eq_some_iff.mp h
  omega

/-- How many acceptances of a game have still to be acknowledged. -/
def outstanding (id : String) (ds : List Deed) : Nat :=
  (acceptances id (lastAct? ds).toList).length

/-- The uploads of a game that the server accepted have the numbers 0, 1, 2 and so on, each carries
the snapshot of its revision, and the revisions never fall. -/
structure Numbered (id : String) (ds : List Deed) : Prop where
  balance : (acceptances id ds).length = (acknowledgements id ds).length + outstanding id ds
  counters : (acceptances id ds).map (·.1.counter) = List.range (acceptances id ds).length
  revisions : (acceptances id ds).Pairwise fun a b => a.2 ≤ b.2
  recorded : ∀ a ∈ acceptances id ds, IsRevision id ds a.2 a.1.data
  /-- The upload that is under way has the next number and a revision no earlier than any. -/
  next : ∀ u k, lastAct? ds = some (begun u k) → u.session = id →
    u.counter = (acceptances id ds).length ∧ (∀ a ∈ acceptances id ds, a.2 ≤ k) ∧
      IsRevision id ds k u.data

/-- If the last act is no acceptance of a game then none of it is outstanding. -/
theorem outstanding_of_lastAct? (h : lastAct? ds = some d) (hd : d.accepted? id = none) :
    outstanding id ds = 0 := by
  rw [outstanding, h, Option.toList_some, acceptances, List.filterMap_cons_none hd]
  rfl

theorem outstanding_of_rested (h : Rested ds) : outstanding id ds = 0 := by
  cases hlast : lastAct? ds with
  | none =>
    rw [outstanding, hlast]
    rfl
  | some d =>
    have hd := h d hlast
    apply outstanding_of_lastAct? hlast
    cases d with
    | accepted u k => cases hd
    | _ => rfl

/-- What is outstanding of a game is the acceptance of its upload just now. -/
theorem outstanding_of_accepted {u : SnapshotUpload} (h : lastAct? ds = some (accepted u k)) :
    outstanding u.session ds = 1 := by
  rw [outstanding, h, Option.toList_some]
  simp [acceptances, accepted?]

theorem outstanding_cases (id : String) (ds : List Deed) :
    outstanding id ds = 0 ∨ ∃ u k, u.session = id ∧ lastAct? ds = some (accepted u k) := by
  cases hlast : lastAct? ds with
  | none =>
    rw [outstanding, hlast]
    exact .inl rfl
  | some d =>
    cases d with
    | accepted u k =>
      by_cases hu : u.session = id
      · exact .inr ⟨u, k, hu, rfl⟩
      · exact .inl (outstanding_of_lastAct? hlast (if_neg hu))
    | _ => exact .inl (outstanding_of_lastAct? hlast rfl)

namespace Numbered

theorem nil : Numbered id [] :=
  ⟨rfl, rfl, .nil, nofun, nofun⟩

section Concat

variable (h : Numbered id ds)

include h

/-- A recording adds a revision, and changes no number. -/
theorem concat_recorded (hr : d.isRecorded = true) : Numbered id (ds ++ [d]) := by
  have hsingle : ∀ e ∈ [d], e.isRecorded = true := fun e he => List.mem_singleton.mp he ▸ hr
  have haccs : acceptances id (ds ++ [d]) = acceptances id ds := by
    rw [acceptances_append, acceptances_of_recorded hsingle, List.append_nil]
  have hacks : acknowledgements id (ds ++ [d]) = acknowledgements id ds := by
    rw [acknowledgements_append, acknowledgements_of_recorded hsingle, List.append_nil]
  have hout : outstanding id (ds ++ [d]) = outstanding id ds := by
    rw [outstanding, lastAct?_concat_of_recorded hr, outstanding]
  refine ⟨?_, haccs ▸ h.counters, haccs ▸ h.revisions, ?_, ?_⟩
  · rw [haccs, hacks, hout]
    exact h.balance
  · rw [haccs]
    intro a ha
    exact (h.recorded a ha).append
  · intro u k hlast hu
    rw [lastAct?_concat_of_recorded hr] at hlast
    obtain ⟨hcounter, hle, hrev⟩ := h.next u k hlast hu
    rw [haccs]
    exact ⟨hcounter, hle, hrev.append⟩

/-- A deed by which nothing is accepted or acknowledged; an upload that is begun by it has the next
number. -/
theorem concat_other (hr : d.isRecorded = false) (hacc : d.accepted? id = none)
    (hack : d.acknowledged? id = none) (hout : outstanding id ds = 0)
    (hnext : ∀ u k, d = begun u k → u.session = id → u.counter = (acceptances id ds).length ∧
      k = (recordings id ds).length ∧ (recordings id ds).getLast? = some u.data) :
    Numbered id (ds ++ [d]) := by
  have haccs : acceptances id (ds ++ [d]) = acceptances id ds := by
    rw [acceptances_append]
    simp [acceptances, hacc]
  have hacks : acknowledgements id (ds ++ [d]) = acknowledgements id ds := by
    rw [acknowledgements_append]
    simp [acknowledgements, hack]
  have hout' : outstanding id (ds ++ [d]) = 0 := outstanding_of_lastAct? (lastAct?_concat hr) hacc
  refine ⟨?_, haccs ▸ h.counters, haccs ▸ h.revisions, ?_, ?_⟩
  · rw [haccs, hacks, hout', h.balance, hout]
  · rw [haccs]
    intro a ha
    exact (h.recorded a ha).append
  · intro u k hlast hu
    rw [lastAct?_concat hr] at hlast
    obtain ⟨hcounter, rfl, hdata⟩ := hnext u k (Option.some.inj hlast) hu
    rw [haccs]
    exact ⟨hcounter, fun a ha => (h.recorded a ha).le, (isRevision_of_getLast? hdata).append⟩

/-- An acceptance has the next number, and a revision no earlier than those before. -/
theorem concat_accepted {u : SnapshotUpload} (hlast : lastAct? ds = some (begun u k))
    (hu : u.session = id) : Numbered id (ds ++ [accepted u k]) := by
  obtain ⟨hcounter, hle, hrev⟩ := h.next u k hlast hu
  have haccs : acceptances id (ds ++ [accepted u k]) = acceptances id ds ++ [(u, k)] := by
    rw [acceptances_append]
    simp [acceptances, accepted?, hu]
  have hacks : acknowledgements id (ds ++ [accepted u k]) = acknowledgements id ds := by
    rw [acknowledgements_append]
    exact List.append_nil _
  have hout : outstanding id ds = 0 := outstanding_of_lastAct? hlast rfl
  have hout' : outstanding id (ds ++ [accepted u k]) = 1 :=
    hu ▸ outstanding_of_accepted (lastAct?_concat rfl)
  refine ⟨?_, ?_, ?_, ?_, ?_⟩
  · rw [haccs, hacks, hout', List.length_append, h.balance, hout]
    rfl
  · rw [haccs, List.map_append, h.counters, List.length_append]
    simp only [List.map_cons, List.map_nil, List.length_cons, List.length_nil, hcounter,
      List.range_succ]
  · rw [haccs, List.pairwise_append]
    refine ⟨h.revisions, List.pairwise_singleton .., ?_⟩
    intro a ha b hb
    rw [List.mem_singleton.mp hb]
    exact hle a ha
  · rw [haccs]
    intro a ha
    rcases List.mem_append.mp ha with ha | ha
    · exact (h.recorded a ha).append
    · rw [List.mem_singleton.mp ha]
      exact hrev.append
  · intro v j hv
    rw [lastAct?_concat rfl] at hv
    cases hv

/-- An acknowledgement makes up for the last acceptance. -/
theorem concat_acknowledged {u : SnapshotUpload} (hlast : lastAct? ds = some (accepted u k))
    (hu : u.session = id) : Numbered id (ds ++ [acknowledged id k]) := by
  have haccs : acceptances id (ds ++ [acknowledged id k]) = acceptances id ds := by
    rw [acceptances_append]
    exact List.append_nil _
  have hacks : acknowledgements id (ds ++ [acknowledged id k]) = acknowledgements id ds ++ [k] := by
    rw [acknowledgements_append]
    simp [acknowledgements, acknowledged?]
  have hout : outstanding id ds = 1 := hu ▸ outstanding_of_accepted hlast
  have hout' : outstanding id (ds ++ [acknowledged id k]) = 0 :=
    outstanding_of_lastAct? (lastAct?_concat rfl) rfl
  refine ⟨?_, haccs ▸ h.counters, haccs ▸ h.revisions, ?_, ?_⟩
  · rw [haccs, hacks, hout', h.balance, hout, List.length_append]
    rfl
  · rw [haccs]
    intro a ha
    exact (h.recorded a ha).append
  · intro v j hv
    rw [lastAct?_concat rfl] at hv
    cases hv

/-- **Every lawful deed keeps the numbers in order**, for a game that never leaves. -/
theorem concat (hl : Lawful ds) (hd : Allowed ds d)
    (hstays : ∀ e ∈ ds, e.removes id = false) : Numbered id (ds ++ [d]) := by
  cases d with
  | recorded s dropped => exact h.concat_recorded rfl
  | begun u k =>
    obtain ⟨hrest, a, ha, hcounter, hlast, hlen⟩ := hd
    have hout : outstanding id ds = 0 := outstanding_of_rested hrest
    refine h.concat_other rfl rfl rfl hout ?_
    rintro v j heq rfl
    cases heq
    obtain ⟨hrecs, hacks⟩ := hl.life_of_stays hstays ha
    rw [hrecs] at hlast hlen
    exact ⟨by rw [h.balance, hout, hcounter, hacks]; rfl, hlen, hlast⟩
  | accepted u k =>
    by_cases hu : u.session = id
    · exact h.concat_accepted hd hu
    · exact h.concat_other rfl (if_neg hu) rfl (outstanding_of_lastAct? hd rfl) nofun
  | acknowledged j k =>
    obtain ⟨u, rfl, hlast⟩ := hd
    by_cases hu : u.session = id
    · subst hu
      exact h.concat_acknowledged hlast rfl
    · exact h.concat_other rfl rfl (if_neg hu) (outstanding_of_lastAct? hlast (if_neg hu)) nofun
  | written u => exact h.concat_other rfl rfl rfl (outstanding_of_rested hd.1) nofun
  | filed u => exact h.concat_other rfl rfl rfl (outstanding_of_lastAct? hd rfl) nofun
  | closed j =>
    obtain ⟨u, -, hlast⟩ := hd
    exact h.concat_other rfl rfl rfl (outstanding_of_lastAct? hlast rfl) nofun

end Concat

end Numbered

theorem Lawful.numbered (h : Lawful ds) (hstays : ∀ d ∈ ds, d.removes id = false) :
    Numbered id ds := by
  induction ds using List.reverseRecOn with
  | nil => exact .nil
  | append_singleton ds d ih =>
    have hstays' : ∀ e ∈ ds, e.removes id = false := fun e he =>
      hstays e (List.mem_append_left _ he)
    exact (ih h.of_append hstays').concat h.of_append h.allowed_last hstays'

end Deed

namespace Engine

open Deed

variable {s : Setup} {now : Nat} {ts : List Transition} {m : System} {id : String} {r : GameRecord}

/-- A game stays in the ledger from its first snapshot on. -/
def Stays (id : String) (ts : List Transition) : Prop :=
  ∀ t ∈ ts, t.before.world.ledger.get? id ≠ none → t.after.world.ledger.get? id ≠ none

instance (id : String) (ts : List Transition) : Decidable (Stays id ts) :=
  inferInstanceAs (Decidable (∀ t ∈ ts, _ → _))

theorem Run.removes_of_stays (h : Run s now ts m) (hstays : Stays id ts) :
    ∀ d ∈ deeds ts, d.removes id = false := by
  induction h with
  | start => exact nofun
  | @step ts m m' move events hrun hopen hstep ih =>
    have ih := ih fun t ht => hstays t (List.mem_append_left _ ht)
    have hsound := Run.sound (hrun.step hopen hstep)
    rw [deeds_append, deeds_singleton] at hsound ⊢
    intro d hd
    rcases List.mem_append.mp hd with hd | hd
    · exact ih d hd
    · rw [Option.mem_toList.mp hd, Option.toList_some] at hsound
      apply Bool.eq_false_iff.mpr
      intro hremoves
      -- the game was in the ledger, and it is not any more
      have hafter : m'.world.ledger.get? id = none := by
        rw [← hsound.kept.life_eq_none, life_concat, grow_of_removes hremoves]
      refine hstays _ (List.mem_append_right _ List.mem_cons_self) ?_ hafter
      show m.world.ledger.get? id ≠ none
      rw [ne_eq, ← (Run.sound hrun).kept.life_eq_none]
      cases d with
      | recorded s dropped => exact hsound.lawful.allowed_last.2 id (of_decide_eq_true hremoves)
      | closed j =>
        cases of_decide_eq_true hremoves
        obtain ⟨u, before, mid, mid', hu, heq, ⟨-, -, a, ha, -⟩, -⟩ :=
          hsound.lawful.closed_origin
        rw [heq] at ih ⊢
        rw [life_append (hu ▸ ha) fun e he => ih e (List.mem_append_right _ he)]
        exact nofun
      | _ => cases hremoves

theorem Run.account_of_stays (h : Run s now ts m) (hstays : Stays id ts)
    (hr : m.world.ledger.get? id = some r) :
    r.history = recordings id (deeds ts) ∧ r.counter = (acknowledgements id (deeds ts)).length ∧
      (recordings id (deeds ts)).getLast? = some r.latest := by
  obtain ⟨l, hlife, hacc⟩ := h.sound.kept.account hr
  obtain ⟨hrecs, hacks⟩ := h.sound.lawful.life_of_stays (h.removes_of_stays hstays) hlife
  rw [← hrecs, ← hacks]
  exact ⟨hacc.history, hacc.counter, hacc.latest⟩

theorem Stays.of_append {us : List Transition} (h : Stays id (ts ++ us)) : Stays id ts :=
  fun t ht => h t (List.mem_append_left _ ht)

/-- Where an acceptance comes from, for a game that stays: its upload was begun with the snapshot
that was recorded last, and nothing was accepted in between. -/
theorem Run.begun_of_accepted {pre post : List Transition} {t : Transition} {u : SnapshotUpload}
    {k : Nat} (h : Run s now (pre ++ t :: post) m) (hstays : Stays id (pre ++ t :: post))
    (ht : deed? t = some (.accepted u k)) (hu : u.session = id) :
    ∃ pre₁ b mid r₁, pre = pre₁ ++ b :: mid ∧ deed? b = some (.begun u k) ∧
      b.before.world.ledger.get? id = some r₁ ∧ u.data = r₁.latest ∧
      (recordings id (deeds pre₁)).getLast? = some u.data ∧ acceptances id (deeds mid) = [] := by
  have hlawful : Lawful (deeds pre ++ .accepted u k :: deeds post) := by
    have := h.sound.lawful
    rwa [deeds_append, deeds_cons, ht] at this
  obtain ⟨before, mid, hpre, ⟨-, a, ha, -, hlast, -⟩, hmid⟩ := hlawful.accepted_origin
  obtain ⟨pre₁, b, mid', rfl, rfl, hb, rfl⟩ := exists_of_deeds_eq hpre
  have hrun : Run s now (pre₁ ++ b :: (mid' ++ t :: post)) m := by
    simpa only [List.append_assoc, List.cons_append] using h
  have hstays₁ : Stays id pre₁ := hstays.of_append.of_append
  have hrun₁ : Run s now pre₁ b.before := hrun.before_of_mem
  rw [hu] at ha hlast
  obtain ⟨r₁, hr₁, hacc⟩ := hrun₁.sound.kept.exists_of_life ha
  have hdata : u.data = r₁.latest := Option.some.inj (hlast.symm.trans hacc.latest)
  refine ⟨pre₁, b, mid', r₁, rfl, hb, hr₁, hdata, ?_, acceptances_of_recorded hmid⟩
  rw [hdata]
  exact (hrun₁.account_of_stays hstays₁ hr₁).2.2

/-- **Uploads are numbered and in order.** Take any run, and a game that stays in the ledger from
its first snapshot on. Its history is exactly what was recorded, in order, and its counter is how
many acceptances the ledger was told of, which are all, but for one that is about to be. The
accepted uploads have the counters 0, 1, 2 and so on; each carries the snapshot of its revision,
and the revisions never fall. And whenever one is accepted, it was begun with the snapshot that the
ledger held as the latest, which was the last one recorded, and nothing was accepted in between. -/
theorem Run.uploads_in_order (h : Run s now ts m) (hstays : Stays id ts)
    (hr : m.world.ledger.get? id = some r) :
    r.history = recordings id (deeds ts) ∧
    r.counter = (acknowledgements id (deeds ts)).length ∧
    ((acceptances id (deeds ts)).length = r.counter ∨
      (acceptances id (deeds ts)).length = r.counter + 1 ∧
        ∃ k, m.pool.atWork .gameData = [.acknowledge id k]) ∧
    (acceptances id (deeds ts)).map (·.1.counter) =
      List.range (acceptances id (deeds ts)).length ∧
    (acceptances id (deeds ts)).Pairwise (fun a b => a.2 ≤ b.2) ∧
    (∀ a ∈ acceptances id (deeds ts), IsRevision id (deeds ts) a.2 a.1.data) ∧
    ∀ pre t post u k, ts = pre ++ t :: post → deed? t = some (.accepted u k) → u.session = id →
      ∃ pre₁ b mid r₁, pre = pre₁ ++ b :: mid ∧ deed? b = some (.begun u k) ∧
        b.before.world.ledger.get? id = some r₁ ∧ u.data = r₁.latest ∧
        (recordings id (deeds pre₁)).getLast? = some u.data ∧ acceptances id (deeds mid) = [] := by
  obtain ⟨hhistory, hcounter, -⟩ := h.account_of_stays hstays hr
  have hnumbered := h.sound.lawful.numbered (h.removes_of_stays hstays)
  refine ⟨hhistory, hcounter, ?_, hnumbered.counters, hnumbered.revisions, hnumbered.recorded, ?_⟩
  · rw [hnumbered.balance, ← hcounter]
    obtain hout | ⟨u, k, rfl, hlast⟩ := outstanding_cases id (deeds ts)
    · exact .inl (by rw [hout, Nat.add_zero])
    · exact .inr ⟨by rw [outstanding_of_accepted hlast], k, h.sound.acknowledging hlast⟩
  · rintro pre t post u k rfl ht hu
    exact h.begun_of_accepted hstays ht hu

/-- Two uploads of a game are accepted. -/
def Sample.twice : List (Machine.Move Activity Reply) :=
  arrive ++ signIn ++ send { active := true, session := "game" } ++ beginUpload ++ accept 1 ++
    [.next 0] ++ send { active := true, session := "game", time := 1 } ++ beginUpload ++ accept 1

set_option maxRecDepth 100000 in
/-- A run with two uploads, which have the numbers 0 and 1. -/
theorem uploads_of_two :
    ∃ ts m r, Run Sample.setup 0 ts m ∧ Stays "game" ts ∧
      m.world.ledger.get? "game" = some r ∧ r.history = recordings "game" (deeds ts) ∧
      (acceptances "game" (deeds ts)).map (·.1.counter) = [0, 1] := by
  have hcourse : ((system Sample.setup 0).course? program Activity.isHostCall Sample.twice).any
      (fun x => decide (Stays "game" x.1) && (x.2.world.ledger.get? "game").isSome &&
        decide ((acceptances "game" (deeds x.1)).length = 2)) = true := by
    decide +kernel
  obtain ⟨ts, m, hrun, hfound⟩ := Machine.exists_course hcourse
  simp only [Bool.and_eq_true, decide_eq_true_eq] at hfound
  obtain ⟨⟨hstays, hsome⟩, htwo⟩ := hfound
  obtain ⟨r, hr⟩ := Option.isSome_iff_exists.mp hsome
  obtain ⟨hhistory, -, -, hcounters, -⟩ := Run.uploads_in_order hrun hstays hr
  rw [htwo] at hcounters
  exact ⟨ts, m, r, hrun, hstays, hr, hhistory, hcounters⟩

end Engine

end ArcadeUplink
