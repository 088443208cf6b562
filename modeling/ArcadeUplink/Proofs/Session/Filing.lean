import ArcadeUplink.Proofs.Session.Numbering

/-!
# What is filed of a game that does not come back

A game that left the ledger can come back if more is recorded of it. Where that
never happens (`Once`) a history is filed with everything that was recorded of its
game, after the server has accepted the last snapshot of it
(`Lawful.filed_origin`), and no other history of that game is filed
(`Lawful.filed_once`).
-/

namespace ArcadeUplink.Deed

/-- Whether a deed files a history. -/
def isFiled : Deed → Bool
  | filed _ => true
  | _ => false

theorem exists_of_isFiled {d : Deed} (h : d.isFiled = true) : ∃ u, d = filed u := by
  cases d with
  | filed u => exact ⟨u, rfl⟩
  | _ => cases h

/-- Nothing is recorded of a game once it has left the ledger. -/
def Once (id : String) (ds : List Deed) : Prop :=
  ∀ before after, ds = before ++ after → (∃ d ∈ before, d.removes id = true) →
    recordings id after = []

variable {id : String} {ds es l : List Deed} {d : Deed}

namespace Once

theorem nil : Once id [] := by
  intro before after h
  rw [(List.append_eq_nil_iff.mp h.symm).2]
  intro _
  exact rfl

theorem of_append (h : Once id (ds ++ es)) : Once id ds := by
  intro before after heq hleft
  have hnil := h before (after ++ es) (by rw [heq, List.append_assoc]) hleft
  rw [recordings_append] at hnil
  exact (List.append_eq_nil_iff.mp hnil).1

theorem concat (h : Once id ds)
    (hd : (∃ e ∈ ds, e.removes id = true) → d.recorded? id = none) : Once id (ds ++ [d]) := by
  intro before after heq hleft
  rcases List.eq_nil_or_concat after with rfl | ⟨after', e, rfl⟩
  · rfl
  · rw [List.concat_eq_append, ← List.append_assoc] at heq
    obtain ⟨rfl, hde⟩ := List.append_inj' heq rfl
    cases hde
    obtain ⟨x, hx, hr⟩ := hleft
    rw [List.concat_eq_append, recordings_append, h before after' rfl ⟨x, hx, hr⟩, recordings_cons,
      hd ⟨x, List.mem_append_left _ hx, hr⟩]
    rfl

end Once

theorem recordings_of_life (h : life id ds = some l) : recordings id l ≠ [] := by
  induction ds using List.reverseRecOn generalizing l with
  | nil => cases h
  | append_singleton ds d ih =>
    obtain ⟨-, ⟨l', hl', rfl⟩ | ⟨-, ⟨s, hs⟩, rfl⟩⟩ := life_concat_cases h
    · rw [recordings_append]
      exact List.append_ne_nil_of_left_ne_nil (ih hl') _
    · rw [recordings_cons, hs]
      exact List.cons_ne_nil _ _

/-- **Who is there never left**, if nobody comes back. -/
theorem Once.stays (h : Once id ds) (hlife : life id ds = some l) :
    ∀ d ∈ ds, d.removes id = false := by
  obtain ⟨front, rfl, -⟩ := life_suffix hlife
  intro d hd
  rcases List.mem_append.mp hd with hd | hd
  · apply Bool.eq_false_iff.mpr
    intro hr
    exact recordings_of_life hlife (h front l rfl ⟨d, hd, hr⟩)
  · exact removes_of_mem_life hlife hd

/-- **Where a filed history comes from**: the game was over, with its last snapshot accepted by the
server, and then the history was written up from everything that was recorded until then. -/
theorem Lawful.filed_origin {u : HistoryUpload} (h : Lawful (ds ++ filed u :: es))
    (ho : Once u.session ds) :
    ∃ before mid after s, ds = before ++ mid ++ after ∧
      (recordings u.session before).getLast? = some s ∧ s.active = false ∧
      (∃ v k, (v, k) ∈ acceptances u.session before ∧ v.data = s) ∧
      u.csv = History.csv (recordings u.session (before ++ mid)) := by
  obtain ⟨front, after, rfl, ⟨-, hdue, l, hlife, hcsv⟩, -⟩ := h.of_append.of_lastAct? h.allowed
  obtain ⟨before, mid, l₁, s, rfl, hlife₁, hlast, hactive, hdelivered⟩ := hdue
  have hfront : Lawful (before ++ mid) := h.of_append.of_append
  have hlawful : Lawful before := hfront.of_append
  have hstays := ho.of_append.of_append.stays hlife₁
  refine ⟨before, mid, _, s, rfl, ?_, hactive, ?_, ?_⟩
  · rw [← (hlawful.life_of_stays hstays hlife₁).1]
    exact hlast
  · obtain ⟨v, k, hv, hu, hdata⟩ := hlawful.accepted_of_not_stray hlife₁ hlast
      (acknowledged_of_delivered hlast hdelivered) (hlawful.not_stray_of_stays hstays _)
    obtain ⟨first, rfl, -⟩ := life_suffix hlife₁
    exact ⟨v, k, mem_acceptances.mpr ⟨List.mem_append_right _ hv, hu⟩, hdata⟩
  · rw [← (hfront.life_of_stays (ho.of_append.stays hlife) hlife).1]
    exact hcsv

/-- A filed history is followed up before anything else but recordings. -/
theorem Lawful.lastAct?_filed {u : HistoryUpload} (h : Lawful (ds ++ filed u :: es))
    (hstays : ∀ d ∈ es, d.removes u.session = false) :
    lastAct? (ds ++ filed u :: es) = some (filed u) := by
  induction es using List.reverseRecOn with
  | nil => exact lastAct?_concat rfl
  | append_singleton es d ih =>
    rw [← List.cons_append, ← List.append_assoc] at h ⊢
    have hlast := ih h.of_append fun e he => hstays e (List.mem_append_left _ he)
    have hopen : ¬Rested (ds ++ filed u :: es) := fun hrest => by cases hrest _ hlast
    have hallowed := h.allowed
    cases d with
    | recorded s dropped => rw [lastAct?_concat_of_recorded rfl, hlast]
    | begun v k => exact absurd hallowed.1 hopen
    | accepted v k => cases hlast.symm.trans hallowed
    | acknowledged id k =>
      obtain ⟨v, -, hv⟩ := hallowed
      cases hlast.symm.trans hv
    | written v => exact absurd hallowed.1 hopen
    | filed v => cases hlast.symm.trans hallowed
    | closed id =>
      obtain ⟨v, rfl, hv⟩ := hallowed
      cases hlast.symm.trans hv
      have hfalse := hstays _ (List.mem_append_right _ (List.mem_singleton_self _))
      cases hfalse.symm.trans (decide_eq_true rfl)

/-- **A history is filed once**: no other one of that game was filed before. -/
theorem Lawful.filed_once {u : HistoryUpload} (h : Lawful (ds ++ filed u :: es))
    (ho : Once u.session ds) {v : HistoryUpload} (hv : filed v ∈ ds) : v.session ≠ u.session := by
  intro hsession
  obtain ⟨front, after, rfl, ⟨hrest, -, l, hlife, -⟩, hafter⟩ := h.of_append.of_lastAct? h.allowed
  have hmem : filed v ∈ front := by
    rcases List.mem_append.mp hv with hv | hv
    · exact hv
    · rcases List.mem_cons.mp hv with hv | hv
      · cases hv
      · cases hafter _ hv
  obtain ⟨a, b, rfl⟩ := List.append_of_mem hmem
  have hstays := ho.of_append.stays hlife
  have hlast := Lawful.lastAct?_filed h.of_append.of_append fun d hd =>
    hsession ▸ hstays d (List.mem_append_right _ (List.mem_cons_of_mem _ hd))
  cases hrest _ hlast

end ArcadeUplink.Deed
