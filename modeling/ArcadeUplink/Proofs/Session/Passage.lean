import ArcadeUplink.Proofs.Session.Runs

/-!
# Snapshots on their way

A snapshot that the host sends is on its way until the ledger records it: it is
`pending`. A step records a pending snapshot, or refuses it, or leaves all of them
pending (`Sound.pending_step`). It is refused only if it names no game or after the
handshake has failed.

Nothing is filed in that state. The gate lets a history pass only while the device
is paired, and from there the status does not become one in which the handshake
has failed (`Run.settled_of_filed`).
-/

namespace ArcadeUplink

open Pool (Lane)
open Deed

/-- Whether an activity hands a history to the server: it is past the gate. -/
def Activity.isFiling : Activity → Bool
  | .callHistory _ => true
  | .waiting _ (.historyUploaded _) => true
  | _ => false

theorem Activity.isFiling_of_isMidway {a : Activity} (h : a.isMidway = false) :
    a.isFiling = false := by
  cases a with
  | waiting call c => cases c <;> first | rfl | cases h
  | _ => first | rfl | cases h

theorem Activity.isUploading_of_isFiling {a : Activity} (h : a.isFiling = true) :
    a.isUploading = true := by
  cases ha : a.isUploading with
  | true => rfl
  | false => cases h.symm.trans (isFiling_of_isMidway (isMidway_of_isUploading ha))

theorem Status.settled_of_follows {s t : Status} (h : s ∈ Gate.settled.states)
    (hf : s.Follows t) : t ∈ Gate.settled.states := by
  obtain rfl | hbecome := hf
  · exact h
  · cases s <;> cases t <;> first | (cases hbecome; done) | decide | (revert h; decide)

theorem Status.ne_failed_of_follows {s t : Status} (hf : s.Follows t) (h : t ≠ .failed) :
    s ≠ .failed := by
  rintro rfl
  obtain rfl | hbecome := hf
  · exact h rfl
  · cases hbecome

namespace Engine

/-- The snapshots that callers are about to record. -/
def pending (m : System) : List Snapshot := m.callers.filterMap Activity.pending?

section Act

variable {now : Nat} {self : Option Nat} {e : Engine} {p : Workers} {a b : Activity}
  {reply : Option Reply} {r : Result}

/-- What an activity outside of uploads does with the snapshot that it is about to record: it
leaves it so, or refuses it, or records it. -/
inductive Handled (now : Nat) (e : Engine) (a : Activity) (reply : Option Reply) (r : Result) : Prop
  | kept (hrest : r.rest.bind Activity.pending? = a.pending?)
      (hdeed : Deed.of? now e.ledger a reply = none)
  | refused (s : Snapshot) (ha : a.pending? = some s)
      (hrest : r.rest.bind Activity.pending? = none)
      (hdeed : Deed.of? now e.ledger a reply = none)
      (why : s.session = "" ∨ r.world.status = .failed)
  | recorded (s : Snapshot) (dropped : Option String) (ha : a.pending? = some s)
      (hrest : r.rest.bind Activity.pending? = none)
      (hdeed : Deed.of? now e.ledger a reply = some (.recorded s dropped))

theorem rest_pending_of_plain (h : ∀ b ∈ r.rest, b.isPlain = true) :
    r.rest.bind Activity.pending? = none :=
  Option.bind_eq_none_iff.mpr fun b hb => Activity.pending?_of_isPlain (h b hb)

theorem act_handled (h : program.act now self e p a reply = some r)
    (ha : a.isUploading = false) : Handled now e a reply r := by
  cases act_part h with
  | aside hg haside =>
    refine .kept ?_ (of?_eq_none hg now e.ledger reply)
    rw [rest_pending_of_plain haside.rest]
    cases a <;> first | rfl | cases hg
  | replied hup => cases ha.symm.trans hup
  | scanned hscan =>
    obtain rfl := Option.some.inj hscan
    exact .kept rfl rfl
  | recorded hrec =>
    cases a with
    | sendSnapshot s =>
      obtain rfl := Option.some.inj hrec
      split
      · next hs => exact .refused s rfl rfl rfl (.inl hs)
      · split
        · next hfailed => exact .refused s rfl rfl rfl (.inr hfailed)
        · exact .kept rfl rfl
    | record s =>
      obtain rfl := Option.some.inj hrec
      exact .recorded s _ rfl (by split <;> rfl) rfl
    | submit uploads histories =>
      refine .kept ?_ rfl
      match uploads, histories with
      | id :: uploads, histories =>
        obtain rfl := Option.some.inj hrec
        split <;> rfl
      | [], id :: histories =>
        obtain rfl := Option.some.inj hrec
        split <;> rfl
      | [], [] =>
        obtain rfl := Option.some.inj hrec
        rfl
    | withdrawUpload id uploads histories =>
      obtain rfl := Option.some.inj hrec
      exact .kept rfl rfl
    | withdrawHistory id histories =>
      obtain rfl := Option.some.inj hrec
      exact .kept rfl rfl
    | _ => cases hrec
  | uploaded hup => cases ha.symm.trans (isUploading_of_uploadStep hup)

theorem pending?_of_recorded {l : Ledger} {d : Deed} (h : Deed.of? now l a reply = some d)
    (hd : d.isRecorded = true) : a.pending?.isSome = true := by
  unfold Deed.of? at h
  split at h
  · rfl
  · obtain ⟨x, -, rfl⟩ := Option.map_eq_some_iff.mp h
    cases hd
  · cases h
    cases hd
  · cases h
    cases hd
  · obtain ⟨x, -, rfl⟩ := Option.map_eq_some_iff.mp h
    cases hd
  · cases h
    cases hd
  · cases h
    cases hd
  · cases h

theorem not_isFiling_of_plain (h : ∀ b ∈ r.rest, b.isPlain = true) (hb : b ∈ r.rest) :
    b.isFiling = false :=
  Activity.isFiling_of_isMidway
    (Activity.isMidway_of_isUploading (Activity.isUploading_of_isPlain (h b hb)))

/-- **The gate of histories**: an upload hands one over only if it did so before, or if the device
is paired. -/
theorem uploadStep_rest (h : e.uploadStep p a = some r) (hb : b ∈ r.rest)
    (hf : b.isFiling = true) : a.isFiling = true ∨ e.status ∈ Gate.settled.states := by
  unfold uploadStep at h
  split at h
  · obtain rfl := Option.some.inj h
    split at hb <;> cases hb
    cases hf
  · obtain rfl := Option.some.inj h
    split at hb <;> cases hb
    cases hf
  · obtain rfl := Option.some.inj h
    cases hb
    cases hf
  · obtain rfl := Option.some.inj h
    split at hb <;> cases hb
    cases hf
  · obtain rfl := Option.some.inj h
    split at hb <;> cases hb
    cases hf
  · obtain rfl := Option.some.inj h
    split at hb
    · cases hb
    · next hgate =>
      right
      unfold Gate.refusal? at hgate
      split at hgate
      · next hpaired => exact List.mem_cons_of_mem _ hpaired
      · split at hgate <;> cases hgate
  · exact .inl rfl
  · obtain rfl := Option.some.inj h
    cases hb
  · cases h

/-- **Whoever hands over a history** has passed the gate just now, or before. -/
theorem act_filing (h : program.act now self e p a reply = some r) (hb : b ∈ r.rest)
    (hf : b.isFiling = true) : a.isFiling = true ∨ e.status ∈ Gate.settled.states := by
  cases act_part h with
  | aside hg haside => cases hf.symm.trans (not_isFiling_of_plain haside.rest hb)
  | replied hup hresume =>
    obtain ⟨id, k, rfl⟩ | ⟨id, rfl⟩ := (resume_upload hresume hup).2 b hb
    · cases hf
    · cases hf
  | scanned hscan =>
    obtain rfl := Option.some.inj hscan
    cases hb
    cases hf
  | recorded hrec =>
    cases hf.symm.trans (Activity.isFiling_of_isMidway (recordStep_rest hrec hb))
  | uploaded hup => exact uploadStep_rest hup hb hf

end Act

/-! ## What a step does to what is pending -/

section Steps

variable {ds : List Deed} {m m' : System} {move : Machine.Move Activity Reply}
  {events : List EngineEvent}

/-- A step takes a snapshot out of those that are pending, and leaves the others. -/
def Takes (m m' : System) (s : Snapshot) : Prop :=
  ∃ before after, pending m = before ++ s :: after ∧ pending m' = before ++ after

/-- **A pending snapshot** stays so, or is refused, or is recorded; and nothing else is recorded.
It is refused only if it names no game or the handshake has failed. -/
theorem Sound.pending_step (h : Sound ds m) (hstep : m.step program move = some (m', events))
    (hcall : ∀ a, move = .call a → a.pending? = none) :
    (pending m' = pending m ∧ ∀ d, deed? ⟨m, move, m'⟩ = some d → d.isRecorded = false) ∨
      ∃ s, Takes m m' s ∧
        ((deed? ⟨m, move, m'⟩ = none ∧ (s.session = "" ∨ m'.world.status = .failed)) ∨
          ∃ dropped, deed? ⟨m, move, m'⟩ = some (.recorded s dropped)) := by
  cases hu : Machine.Transition.turn? ⟨m, move, m'⟩ with
  | none =>
    rw [deed?_of_idle hu]
    refine .inl ⟨?_, nofun⟩
    unfold pending
    obtain ⟨-, ⟨a, rfl, hcs, -⟩ | ⟨hcs, -⟩⟩ := Machine.step_idle hstep hu
    · rw [hcs, List.filterMap_append, List.filterMap_cons_none (hcall a rfl), List.filterMap_nil,
        List.append_nil]
    · rw [hcs]
  | some u =>
    rw [deed?_of_turn hu]
    obtain ⟨self, e, he, hworld, -, ⟨hlane, -, i, hi, hcs⟩ | ⟨hcs, w, hduty, -⟩⟩ :=
      Machine.step_turn hstep hu
    · have hup : u.activity.isUploading = false := Bool.eq_false_iff.mpr fun hup => by
        cases hlane.symm.trans ((h.tended.fit_of_turn hu).uploading hup)
      obtain ⟨before, after, hbefore, hafter⟩ := Machine.afterCall_eq hi
      have hm : pending m = before.filterMap Activity.pending? ++
          (u.activity.pending?.toList ++ after.filterMap Activity.pending?) := by
        unfold pending
        rw [hbefore, List.filterMap_append, List.filterMap_cons]
        cases u.activity.pending? <;> rfl
      have hm' : pending m' = before.filterMap Activity.pending? ++
          ((e.rest.bind Activity.pending?).toList ++ after.filterMap Activity.pending?) := by
        unfold pending
        rw [hcs, hafter, List.filterMap_append, List.filterMap_append, List.append_assoc]
        cases e.rest <;> rfl
      cases act_handled he hup with
      | kept hrest hdeed =>
        rw [hrest] at hm'
        exact .inl ⟨hm'.trans hm.symm, by rw [hdeed]; exact nofun⟩
      | refused s ha hrest hdeed why =>
        rw [ha] at hm
        rw [hrest] at hm'
        exact .inr ⟨s, ⟨_, _, hm, hm'⟩, .inl ⟨hdeed, hworld ▸ why⟩⟩
      | recorded s dropped ha hrest hdeed =>
        rw [ha] at hm
        rw [hrest] at hm'
        exact .inr ⟨s, ⟨_, _, hm, hm'⟩, .inr ⟨dropped, hdeed⟩⟩
    · refine .inl ⟨by unfold pending; rw [hcs], fun d hd => Bool.eq_false_iff.mpr ?_⟩
      intro hr
      obtain ⟨lane, hlane, hfit⟩ := h.tended.pool.of_duty? hduty
      have hsome := pending?_of_recorded hd hr
      rw [hfit.outside nofun] at hsome
      cases hsome

/-- **The status changes as the diagram allows** in every step. -/
theorem Sound.status_step (h : Sound ds m) (hstep : m.step program move = some (m', events)) :
    m.world.status.Follows m'.world.status := by
  cases hu : Machine.Transition.turn? ⟨m, move, m'⟩ with
  | none =>
    obtain ⟨hworld, -⟩ := Machine.step_idle hstep hu
    exact .inl (by rw [hworld])
  | some u =>
    obtain ⟨self, e, he, hworld, -⟩ := Machine.step_turn hstep hu
    rw [hworld]
    exact (conduct (h.ready hstep hu) he).status

/-- Whoever hands over a history does so for a device whose pairing is known. -/
def Cleared (m : System) : Prop :=
  ∀ a ∈ m.pool.atWork .gameData, a.isFiling = true → m.world.status ∈ Gate.settled.states

theorem Sound.cleared_step (h : Sound ds m) (hm : Cleared m)
    (hstep : m.step program move = some (m', events)) : Cleared m' := by
  have hstatus := h.status_step hstep
  obtain ⟨u, self, e, -, -, he, hworld, hwork, hwork'⟩ | ⟨-, hwork | ⟨-, -, task, htask, hwork⟩⟩ :=
    Machine.lane_step act_uses h.orderly hstep .gameData
  · intro b hb hf
    rw [hwork'] at hb
    refine Status.settled_of_follows ?_ hstatus
    obtain hu | hsettled := act_filing he (Option.mem_toList.mp hb) hf
    · exact hm u.activity (hwork ▸ List.mem_singleton_self _) hu
    · exact hsettled
  · intro a ha hf
    exact Status.settled_of_follows (hm a (hwork ▸ ha) hf) hstatus
  · intro a ha hf
    rw [hwork, List.mem_singleton] at ha
    have hmidway := (h.tended.pool.waiting _ task htask).fresh
    rw [ha] at hf
    cases hf.symm.trans (Activity.isFiling_of_isMidway hmidway)

end Steps

section Runs

variable {s : Setup} {now : Nat} {ts : List Transition} {m : System}

theorem Run.cleared (h : Run s now ts m) : Cleared m := by
  induction h with
  | start => exact fun a ha => absurd ha List.not_mem_nil
  | step hrun hopen hstep ih => exact (Run.sound hrun).cleared_step ih hstep

theorem isFiling_of_filed {now : Nat} {l : Ledger} {a : Activity} {reply : Option Reply}
    {u : HistoryUpload} (h : Deed.of? now l a reply = some (.filed u)) : a.isFiling = true := by
  unfold Deed.of? at h
  split at h
  · cases h
  · obtain ⟨x, -, hx⟩ := Option.map_eq_some_iff.mp h
    cases hx
  · cases h
  · cases h
  · obtain ⟨x, -, hx⟩ := Option.map_eq_some_iff.mp h
    cases hx
  · rfl
  · cases h
  · cases h

/-- **A history is filed while the pairing is known.** -/
theorem Run.settled_of_filed {t : Transition} (h : Run s now (ts ++ [t]) m) {u : HistoryUpload}
    (ht : deed? t = some (.filed u)) : t.before.world.status ∈ Gate.settled.states := by
  obtain ⟨hrun, -, -, events, hstep⟩ := h.of_concat
  obtain ⟨v, hv, hdeed⟩ := Option.bind_eq_some_iff.mp ht
  have hfiling := isFiling_of_filed hdeed
  have hsound := Run.sound hrun
  have hlane := (hsound.tended.fit_of_turn hv).uploading (Activity.isUploading_of_isFiling hfiling)
  obtain ⟨u', -, -, hu', -, -, -, hwork, -⟩ | ⟨hne, -⟩ :=
    Machine.lane_step act_uses hsound.orderly hstep .gameData
  · cases hv.symm.trans hu'
    exact Run.cleared hrun v.activity (hwork ▸ List.mem_singleton_self _) hfiling
  · exact absurd hlane (hne v hv)

end Runs

end Engine

end ArcadeUplink
