import ArcadeUplink.Proofs.Session.Numbering

/-!
# Uploads under way

From the moment when an upload is begun until the ledger was told that it was
accepted, an activity at the lane of game data carries the revision of a game.
Which one it is follows from the deeds, and it never is a revision that is yet to
be recorded. Between two steps an upload stays under way, or has just begun
(`Sound.underWay_step`).
-/

namespace ArcadeUplink

namespace Deed

variable {ds es : List Deed} {id : String} {u : SnapshotUpload} {k : Nat}

/-- If the last act is an acceptance then the next one acknowledges it. -/
theorem Lawful.acknowledged_next (h : Lawful (ds ++ es)) (hlast : lastAct? ds = some (accepted u k))
    (hrest : Rested (ds ++ es)) : acknowledged u.session k ∈ es := by
  induction es generalizing ds with
  | nil =>
    rw [List.append_nil] at hrest
    cases hrest _ hlast
  | cons d es ih =>
    have hallowed := h.allowed
    have hopen : ¬Rested ds := fun hr => by cases hr _ hlast
    cases d with
    | recorded s dropped =>
      rw [← List.singleton_append, ← List.append_assoc] at h hrest
      have hlast' : lastAct? (ds ++ [recorded s dropped]) = some (accepted u k) :=
        (lastAct?_concat_of_recorded rfl).trans hlast
      exact List.mem_cons_of_mem _ (ih h hlast' hrest)
    | begun v j => exact absurd hallowed.1 hopen
    | accepted v j => cases hlast.symm.trans hallowed
    | acknowledged j i =>
      obtain ⟨v, rfl, hv⟩ := hallowed
      cases hlast.symm.trans hv
      exact List.mem_cons_self
    | written v => exact absurd hallowed.1 hopen
    | filed v => cases hlast.symm.trans hallowed
    | closed j =>
      obtain ⟨v, -, hv⟩ := hallowed
      cases hlast.symm.trans hv

/-- When nothing is to be followed up, the ledger was told of every acceptance. -/
theorem Lawful.acknowledged_of_accepted (h : Lawful ds) (hrest : Rested ds)
    (hk : (u, k) ∈ acceptances id ds) : k ∈ acknowledgements id ds := by
  obtain ⟨hmem, rfl⟩ := mem_acceptances.mp hk
  obtain ⟨before, after, rfl⟩ := List.append_of_mem hmem
  rw [← List.singleton_append, ← List.append_assoc] at h hrest ⊢
  apply mem_acknowledgements.mpr
  exact List.mem_append_right _ (h.acknowledged_next (lastAct?_concat rfl) hrest)

/-- The ledger is told of what was accepted. -/
theorem Lawful.accepted_of_acknowledged (h : Lawful ds) (hk : k ∈ acknowledgements id ds) :
    ∃ u, (u, k) ∈ acceptances id ds := by
  obtain ⟨before, after, rfl⟩ := List.append_of_mem (mem_acknowledgements.mp hk)
  obtain ⟨u, front, mid, mid', hu, rfl, -⟩ := h.acknowledged_origin
  exact ⟨u, mem_acceptances.mpr ⟨by simp, hu⟩⟩

end Deed

open Deed

/-- The revision of a game that an activity is in the midst of uploading. -/
def Activity.carried? : Activity → Option (String × Nat)
  | .uploadGate u k => some (u.session, k)
  | .callUpload u k => some (u.session, k)
  | .waiting _ (.uploaded id k) => some (id, k)
  | .acknowledge id k => some (id, k)
  | _ => none

theorem Activity.isMidway_of_carried? {a : Activity} {c : String × Nat}
    (h : a.carried? = some c) : a.isMidway = true := by
  cases a with
  | waiting call r => cases r <;> first | rfl | cases h
  | _ => first | rfl | cases h

/-- Whoever carries a revision has begun its upload last, or had it accepted. -/
theorem Activity.lastAct?_of_carried? {ds : List Deed} {a : Activity} {id : String} {k : Nat}
    (h : a.Follows ds) (hc : a.carried? = some (id, k)) : ∃ u, u.session = id ∧
      (lastAct? ds = some (begun u k) ∨ lastAct? ds = some (accepted u k)) := by
  cases a with
  | uploadGate u i =>
    cases hc
    exact ⟨u, rfl, .inl h⟩
  | callUpload u i =>
    cases hc
    exact ⟨u, rfl, .inl h⟩
  | waiting call c =>
    cases c with
    | uploaded j i =>
      cases hc
      obtain ⟨-, u, -, rfl, hlast⟩ := h
      exact ⟨u, rfl, .inl hlast⟩
    | _ => cases hc
  | acknowledge j i =>
    cases hc
    obtain ⟨u, rfl, hlast⟩ := h
    exact ⟨u, rfl, .inr hlast⟩
  | _ => cases hc

namespace Engine

variable {now : Nat} {self : Option Nat} {e : Engine} {p : Workers} {a b : Activity}
  {reply : Option Reply} {r : Result} {id : String} {k : Nat}

/-- Whoever carries a revision after a step of uploading carried it before, unless he just took it
up. -/
theorem carried?_uploadStep (h : e.uploadStep p a = some r) (hb : b ∈ r.rest)
    (hc : b.carried? = some (id, k)) : a.carried? = some (id, k) ∨ a = .upload id := by
  cases a with
  | upload j =>
    obtain rfl := Option.some.inj h
    split at hb
    · next u i hu =>
      cases hb
      obtain ⟨x, -, heq⟩ := Option.map_eq_some_iff.mp hu
      cases heq
      cases hc
      exact .inr rfl
    · cases hb
  | uploadGate u i =>
    obtain rfl := Option.some.inj h
    split at hb <;> cases hb
    exact .inl hc
  | callUpload u i =>
    obtain rfl := Option.some.inj h
    cases hb
    exact .inl hc
  | acknowledge j i =>
    obtain rfl := Option.some.inj h
    split at hb <;> cases hb
    cases hc
  | history j =>
    obtain rfl := Option.some.inj h
    split at hb <;> cases hb
    cases hc
  | historyGate u =>
    obtain rfl := Option.some.inj h
    split at hb <;> cases hb
    cases hc
  | callHistory u =>
    obtain rfl := Option.some.inj h
    cases hb
    cases hc
  | close j =>
    obtain rfl := Option.some.inj h
    cases hb
  | _ => cases h

/-- Whoever carries a revision after a step carried it before, unless he just took it up. -/
theorem carried?_rest (h : program.act now self e p a reply = some r) (hb : b ∈ r.rest)
    (hc : b.carried? = some (id, k)) : a.carried? = some (id, k) ∨ a = .upload id := by
  have hmid := Activity.isMidway_of_carried? hc
  cases act_part h with
  | aside ha haside =>
    have hup := Activity.isUploading_of_isPlain (haside.rest b hb)
    cases hmid.symm.trans (Activity.isMidway_of_isUploading hup)
  | @replied call c reply r ha hresume =>
    cases c with
    | uploaded j i =>
      obtain ⟨-, rfl⟩ | ⟨-, events, rfl⟩ := resume_uploaded_cases hresume
      · cases hb
        exact .inl hc
      · cases hb
    | historyUploaded j =>
      obtain ⟨-, rfl⟩ | ⟨-, events, rfl⟩ := resume_historyUploaded_cases hresume
      · cases hb
        cases hc
      · cases hb
    | _ => cases ha
  | scanned hscan =>
    obtain rfl := Option.some.inj hscan
    cases hb
    cases hc
  | recorded hrec => cases hmid.symm.trans (recordStep_rest hrec hb)
  | uploaded hup => exact carried?_uploadStep hup hb hc

/-! ## The lane of game data -/

variable {m m' : System} {move : Machine.Move Activity Reply} {events : List EngineEvent}

/-- An upload of a revision is under way: it has begun, and the ledger was not yet told of it. -/
def UnderWay (id : String) (k : Nat) (m : System) : Prop :=
  ∃ a ∈ m.pool.atWork .gameData, a.carried? = some (id, k)

theorem Sound.underWay_step {ds : List Deed} (h : Sound ds m)
    (hstep : m.step program move = some (m', events)) (hm' : UnderWay id k m') :
    UnderWay id k m ∨
      ∃ v, Machine.Transition.turn? ⟨m, move, m'⟩ = some v ∧ v.activity = .upload id := by
  obtain ⟨b, hb, hc⟩ := hm'
  obtain ⟨v, self, e, hv, -, he, -, hbefore, hafter⟩ | ⟨-, hwork | ⟨-, -, task, htask, hwork⟩⟩ :=
    Machine.lane_step act_uses h.orderly hstep .gameData
  · rw [hafter] at hb
    obtain hc | hup := carried?_rest he (Option.mem_toList.mp hb) hc
    · exact .inl ⟨v.activity, hbefore ▸ List.mem_singleton_self _, hc⟩
    · exact .inr ⟨v, hv, hup⟩
  · exact .inl ⟨b, hwork ▸ hb, hc⟩
  · rw [hwork] at hb
    obtain rfl := List.mem_singleton.mp hb
    have hfresh := (h.tended.pool.waiting _ b htask).fresh
    cases hfresh.symm.trans (Activity.isMidway_of_carried? hc)

/-- Whoever is in the midst of an upload is at the lane of game data. -/
theorem Sound.underWay_of_turn {ds : List Deed} (h : Sound ds m)
    (hstep : m.step program move = some (m', events)) {v : Machine.Turn Activity Reply}
    (hv : Machine.Transition.turn? ⟨m, move, m'⟩ = some v)
    (hc : v.activity.carried? = some (id, k)) : UnderWay id k m := by
  have hup : v.activity.isUploading = true := by
    cases hup : v.activity.isUploading with
    | true => rfl
    | false =>
      cases (Activity.isMidway_of_carried? hc).symm.trans (Activity.isMidway_of_isUploading hup)
  obtain ⟨v', self, e, hv', -, -, -, hbefore, -⟩ | ⟨hne, -⟩ :=
    Machine.lane_step act_uses h.orderly hstep .gameData
  · cases hv.symm.trans hv'
    exact ⟨v.activity, hbefore ▸ List.mem_singleton_self _, hc⟩
  · exact absurd ((h.tended.fit_of_turn hv).uploading hup) (hne v hv)

/-- What is under way was begun with a revision that was recorded. -/
theorem Sound.le_of_underWay {ds : List Deed} (h : Sound ds m)
    (hstays : ∀ d ∈ ds, d.removes id = false) (hm : UnderWay id k m) :
    k ≤ (recordings id ds).length := by
  have hnumbered := h.lawful.numbered hstays
  obtain ⟨a, ha, hc⟩ := hm
  have hdesk := h.desk
  rw [h.orderly.atWork_eq ha] at hdesk
  obtain ⟨u, hu, hlast | hlast⟩ := Activity.lastAct?_of_carried? hdesk hc
  · exact (hnumbered.next u k hlast hu).2.2.le
  · obtain ⟨before, after, rfl, -⟩ := exists_of_lastAct? hlast
    exact (hnumbered.recorded (u, k) (mem_acceptances.mpr ⟨by simp, hu⟩)).le

end Engine

end ArcadeUplink
