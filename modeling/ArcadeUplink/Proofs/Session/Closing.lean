import ArcadeUplink.Proofs.Session.Delivery

/-!
# What is lost when a game is closed

A game leaves the ledger once its history was filed. The history was written up
some steps earlier, and nobody looks at the game again before it is taken out:
what is recorded in between goes with it. `Run.closed_complete_iff` says exactly
when nothing does.

How a game comes to be closed while it goes on is not restricted here: the host
may record any snapshots of it.
-/

namespace ArcadeUplink

/-- A table gives away whether rows were added to it. -/
theorem History.csv_append_eq {a b : List Snapshot} (h : csv (a ++ b) = csv a) : b = [] := by
  have hlen := congrArg String.length h
  unfold csv at hlen
  simp only [List.map_append, String.length_append, String.length_join, List.map_map,
    List.sum_append] at hlen
  cases b with
  | nil => rfl
  | cons s b =>
    have hrow : 0 < (row s).length := by
      unfold row
      rw [String.length_append]
      exact Nat.lt_of_lt_of_le (by decide : 0 < "\n".length) (Nat.le_add_left _ _)
    simp only [List.map_cons, Function.comp_apply, List.sum_cons] at hlen
    omega

namespace Deed

variable {id : String} {ds l : List Deed} {u : HistoryUpload}

theorem acknowledgements_of_filing (h : ∀ d ∈ ds, d.isRecorded = true ∨ d = filed u) :
    acknowledgements id ds = [] := by
  apply List.filterMap_eq_nil_iff.mpr
  intro d hd
  obtain hr | rfl := h d hd
  · exact acknowledged?_of_recorded hr id
  · rfl

theorem acceptances_of_filing (h : ∀ d ∈ ds, d.isRecorded = true ∨ d = filed u) :
    acceptances id ds = [] := by
  apply List.filterMap_eq_nil_iff.mpr
  intro d hd
  obtain hr | rfl := h d hd
  · exact accepted?_of_recorded hr id
  · rfl

end Deed

open Deed

/-- The server has all that was recorded of a game that is over: the latest snapshot, which is
delivered, and a table of the whole history. -/
structure GameRecord.Complete (id : String) (ds : List Deed) (r : GameRecord) (csv : String) :
    Prop where
  finished : r.isFinished = true
  delivered : r.isDelivered = true
  accepted : LatestAccepted id ds r
  table : csv = History.csv r.history

namespace Deed

variable {id : String} {ds es l l₀ : List Deed} {r r₀ : GameRecord} {csv : String}

/-- Whether the server has everything hangs on what it accepted, and on three parts of a record. -/
theorem complete_congr (h : r₀.Complete id ds csv) (hhist : r.history = r₀.history)
    (hlatest : r.latest = r₀.latest) (hdel : r.isDelivered = r₀.isDelivered)
    (haccs : acceptances id es = acceptances id ds) : r.Complete id es csv where
  finished := by
    rw [GameRecord.isFinished, hlatest]
    exact h.finished
  delivered := hdel.trans h.delivered
  accepted := by
    rw [LatestAccepted, hlatest, haccs]
    exact h.accepted
  table := by
    rw [hhist]
    exact h.table

theorem Account.not_delivered (h : Account id l r) (hacks : acknowledgements id l = []) :
    r.isDelivered = false := by
  apply decide_eq_false
  intro heq
  rw [h.delivered, h.revision, Deed.delivered, hacks] at heq
  have hlast := h.latest
  rw [List.eq_nil_of_length_eq_zero heq.symm] at hlast
  cases hlast

/-- As long as nothing is recorded or acknowledged, what the ledger holds of a game stays the
same. -/
theorem Account.same (h₀ : Account id l₀ r₀) (h : Account id (l₀ ++ es) r)
    (hrecs : recordings id es = []) (hacks : acknowledgements id es = []) :
    r.history = r₀.history ∧ r.latest = r₀.latest ∧ r.isDelivered = r₀.isDelivered := by
  have hrecs' : recordings id (l₀ ++ es) = recordings id l₀ := by
    rw [recordings_append, hrecs, List.append_nil]
  have hdelivered : Deed.delivered id (l₀ ++ es) = Deed.delivered id l₀ := by
    rw [Deed.delivered, acknowledgements_append, hacks, List.append_nil, Deed.delivered]
  have hlatest := h.latest
  rw [hrecs'] at hlatest
  refine ⟨?_, Option.some.inj (hlatest.symm.trans h₀.latest), ?_⟩
  · rw [h.history, h₀.history, hrecs']
  · unfold GameRecord.isDelivered
    rw [h.delivered, h₀.delivered, h.revision, h₀.revision, hrecs', hdelivered]

/-- **What time takes away**: while nothing is accepted or acknowledged, the server goes on to have
everything of a game exactly if nothing is recorded of it. -/
theorem complete_append_iff (hlife₀ : life id ds = some l₀) (h₀ : Account id l₀ r₀)
    (hlife : life id (ds ++ es) = some l) (h : Account id l r)
    (hacks : acknowledgements id es = []) (haccs : acceptances id es = [])
    (hcsv : csv = History.csv r₀.history) :
    r.Complete id (ds ++ es) csv ↔ r₀.Complete id ds csv ∧ recordings id es = [] := by
  have haccs' : acceptances id (ds ++ es) = acceptances id ds := by
    rw [acceptances_append, haccs, List.append_nil]
  obtain ⟨l₁, hl₁, rfl, -⟩ | ⟨fs, rfl, -, -⟩ := life_append_cases hlife
  · cases hlife₀.symm.trans hl₁
    constructor
    · intro hc
      have hrecs : recordings id es = [] := by
        refine History.csv_append_eq (a := recordings id l₀) ?_
        rw [← recordings_append, ← h.history, ← h₀.history, ← hcsv, ← hc.table]
      obtain ⟨hhist, hlatest, hdel⟩ := h₀.same h hrecs hacks
      exact ⟨complete_congr hc hhist.symm hlatest.symm hdel.symm haccs'.symm, hrecs⟩
    · rintro ⟨hc, hrecs⟩
      obtain ⟨hhist, hlatest, hdel⟩ := h₀.same h hrecs hacks
      exact complete_congr hc hhist hlatest hdel haccs'
  · -- the game left and came back, so it is not delivered, and something was recorded
    rw [acknowledgements_append, List.append_eq_nil_iff] at hacks
    constructor
    · intro hc
      cases (h.not_delivered hacks.2).symm.trans hc.delivered
    · rintro ⟨-, hrecs⟩
      rw [recordings_append, List.append_eq_nil_iff] at hrecs
      have hlast := h.latest
      rw [hrecs.2] at hlast
      cases hlast

end Deed

namespace Engine

variable {s : Setup} {now : Nat} {ts pre post : List Transition} {t : Transition} {m : System}
  {id : String} {r : GameRecord}

/-- **What is lost when a game is closed.** Whenever a game is taken out of the ledger, its history
was written up before, from the record of that time, and then filed; in between there were only
recordings. The server has everything of the game when it is taken out exactly if it had all but
the table when that was written up, and nothing was recorded of the game since. -/
theorem Run.closed_complete_iff (h : Run s now (pre ++ t :: post) m)
    (hclose : deed? t = some (.closed id)) (hr : t.before.world.ledger.get? id = some r) :
    ∃ pre₁ w mid u r₀, pre = pre₁ ++ w :: mid ∧ deed? w = some (.written u) ∧ u.session = id ∧
      .filed u ∈ deeds mid ∧ (∀ d ∈ deeds mid, d.isRecorded = true ∨ d = .filed u) ∧
      w.before.world.ledger.get? id = some r₀ ∧ u.csv = History.csv r₀.history ∧
      (r.Complete id (deeds pre) u.csv ↔
        r₀.Complete id (deeds pre₁) u.csv ∧ recordings id (deeds mid) = []) := by
  have hlawful : Lawful (deeds pre ++ .closed id :: deeds post) := by
    have := h.sound.lawful
    rwa [deeds_append, deeds_cons, hclose] at this
  obtain ⟨u, before, m₁, m₂, hu, hpre, hwritten, hm₁, hm₂⟩ := hlawful.closed_origin
  obtain ⟨pre₁, w, mid, rfl, rfl, hw, hmid⟩ := exists_of_deeds_eq hpre
  have honly : ∀ d ∈ deeds mid, d.isRecorded = true ∨ d = .filed u := by
    intro d hd
    rw [hmid] at hd
    rcases List.mem_append.mp hd with hd | hd
    · exact .inl (hm₁ d hd)
    · exact (List.mem_cons.mp hd).symm.imp_left (hm₂ d)
  -- the record as the history was written up
  have hw_sound : Sound (deeds pre₁) w.before := by
    have hrun : Run s now (pre₁ ++ w :: (mid ++ t :: post)) m := by
      simpa only [List.append_assoc, List.cons_append] using h
    exact Run.sound hrun.before_of_mem
  obtain ⟨-, -, l₀, hlife₀, hcsv⟩ := hwritten
  rw [hu] at hlife₀ hcsv
  obtain ⟨r₀, hr₀, hacc₀⟩ := hw_sound.kept.exists_of_life hlife₀
  rw [← hacc₀.history] at hcsv
  obtain ⟨l, hlife, hacc⟩ := (Run.sound h.before_of_mem).kept.account hr
  refine ⟨pre₁, w, mid, u, r₀, rfl, hw, hu, ?_, honly, hr₀, hcsv, ?_⟩
  · rw [hmid]
    simp
  · have hes : deeds (pre₁ ++ w :: mid) = deeds pre₁ ++ (.written u :: deeds mid) := by
      rw [deeds_append, deeds_cons, hw]
      rfl
    rw [hes] at hlife ⊢
    have hacks : acknowledgements id (deeds mid) = [] := acknowledgements_of_filing honly
    have haccs : acceptances id (deeds mid) = [] := acceptances_of_filing honly
    exact complete_append_iff hlife₀ hacc₀ hlife hacc hacks haccs hcsv

/-- Another snapshot of a game is recorded while its history is being uploaded. -/
def Sample.afterthought : List (Machine.Move Activity Reply) :=
  arrive ++ signIn ++ send { active := false, session := "game" } ++ beginUpload ++ accept 4 ++
    send { active := true, session := "game" } ++ accept 1

set_option maxRecDepth 100000 in
/-- **Closed with something missing**: there is a run in which a game is taken out of the ledger
that is being played and whose latest snapshot is not delivered. Something was recorded of it since
its history was written up. -/
theorem closed_with_a_loss :
    ∃ pre t post m r, Run Sample.setup 0 (pre ++ t :: post) m ∧ deed? t = some (.closed "game") ∧
      t.before.world.ledger.get? "game" = some r ∧ r.isFinished = false ∧ r.isDelivered = false ∧
      ∃ pre₁ w mid u r₀, pre = pre₁ ++ w :: mid ∧ deed? w = some (.written u) ∧
        w.before.world.ledger.get? "game" = some r₀ ∧ u.csv = History.csv r₀.history ∧
        ¬(r₀.Complete "game" (deeds pre₁) u.csv ∧ recordings "game" (deeds mid) = []) := by
  have hcourse : ((system Sample.setup 0).course? program Activity.isHostCall
      Sample.afterthought).any (fun x => x.1.any fun t =>
        decide (deed? t = some (.closed "game")) && (t.before.world.ledger.get? "game").any fun r =>
          !r.isFinished && !r.isDelivered) = true := by
    decide +kernel
  obtain ⟨ts, m, hrun, hfound⟩ := Machine.exists_course hcourse
  obtain ⟨t, ht, hp⟩ := List.any_eq_true.mp hfound
  obtain ⟨hclose, hget⟩ := Bool.and_eq_true_iff.mp hp
  obtain ⟨r, hr, hloss⟩ := (Option.any_eq_true _ _).mp hget
  simp only [Bool.and_eq_true, Bool.not_eq_true'] at hloss
  obtain ⟨pre, post, rfl⟩ := List.append_of_mem ht
  obtain ⟨pre₁, w, mid, u, r₀, hpre, hw, -, -, -, hr₀, hcsv, hiff⟩ :=
    Run.closed_complete_iff hrun (of_decide_eq_true hclose) hr
  refine ⟨pre, t, post, m, r, hrun, of_decide_eq_true hclose, hr, hloss.1, hloss.2, pre₁, w, mid, u,
    r₀, hpre, hw, hr₀, hcsv, fun hcomplete => ?_⟩
  cases hloss.2.symm.trans (hiff.mpr hcomplete).delivered

end Engine

end ArcadeUplink
