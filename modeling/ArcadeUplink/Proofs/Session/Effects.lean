import ArcadeUplink.Proofs.Session.Steps

/-!
# What a step leaves behind

The links, the directory and the two flags of heartbeats after a turn of an
activity, by tables. Only the check of a pairing, the end of one and whoever reads
a link touch the links; only what a heartbeat brings, a download and the host touch
the directory; only heartbeats, their timer and who asks for one touch the flags.
Whoever else has a turn leaves all of them as they are (`act_effects`).
-/

namespace ArcadeUplink

/-- The links after a turn of an activity. -/
def Links.turned (l : Links) (s : Setup) : Activity → Links
  | .storeToken token => { l with token }
  | .recordPairing pairing _ => l.recordPairing pairing
  | .keepCode _ code => { l with shortCode := some code }
  | .forgetPairing .. => l.forget
  | .readPairLink => (l.pair s).2
  | .readClaimLink p => (l.claim p).2
  | _ => l

/-- The directory after a turn of an activity. -/
def Directory.turned (d : Directory) : Activity → Directory
  | .applyProfiles value => (d.setProfiles value).2.1
  | .storePicture p picture => d.storePicture p picture
  | .announcePicture => d.announce
  | .consult query => (d.ask query).2.1
  | _ => d

namespace Activity

/-- Whether a heartbeat is marked as queued after a turn of an activity. -/
def queuedAfter (old : Bool) : Activity → Bool
  | .requestBeat _ => true
  | .withdrawBeat _ | .beat => false
  | _ => old

/-- Whether the timer for heartbeats was ever set, after a turn of an activity. -/
def armedAfter (old : Bool) : Activity → Bool
  | .armTimer => true
  | _ => old

end Activity

namespace Engine

/-- The links, the directory and the flags after a step are those of the tables. -/
structure Effects (e : Engine) (a : Activity) (f : Engine) : Prop where
  links : f.links = e.links.turned e.setup a
  directory : f.directory = e.directory.turned a
  queued : f.beatQueued = a.queuedAfter e.beatQueued
  armed : f.beatArmed = a.armedAfter e.beatArmed

variable {now : Nat} {self : Option Nat} {e f : Engine} {p : Workers} {a : Activity}
  {reply : Option Reply} {r : Result}

/-- A change of the status leaves all else alone. -/
theorem Effects.of_move {sources : List Status} {target : Status} {log : List Log.Entry}
    (h : e.move sources target = (f, log)) (hl : e.links.turned e.setup a = e.links)
    (hd : e.directory.turned a = e.directory) (hq : a.queuedAfter e.beatQueued = e.beatQueued)
    (ha : a.armedAfter e.beatArmed = e.beatArmed) : Effects e a f := by
  unfold move at h
  rw [move?_eq] at h
  split at h
  · cases h
    exact ⟨hl.symm, hd.symm, hq.symm, ha.symm⟩
  · cases h
    exact ⟨hl.symm, hd.symm, hq.symm, ha.symm⟩

theorem lifeStep_effects (h : e.lifeStep self p a = some r) : Effects e a r.world := by
  unfold lifeStep at h
  split at h
  · obtain ⟨q, -, rfl⟩ := Option.map_eq_some_iff.mp h
    split <;> exact ⟨rfl, rfl, rfl, rfl⟩
  · split at h
    · cases h
      exact ⟨rfl, rfl, rfl, rfl⟩
    · cases h
  · obtain ⟨q, -, rfl⟩ := Option.map_eq_some_iff.mp h
    exact ⟨rfl, rfl, rfl, rfl⟩
  · obtain ⟨c, -, rfl⟩ := Option.map_eq_some_iff.mp h
    split <;> exact ⟨rfl, rfl, rfl, rfl⟩
  · cases h

theorem handshakeStep_effects (h : e.handshakeStep now p a = some r) : Effects e a r.world := by
  unfold handshakeStep at h
  split at h
  · obtain rfl := Option.some.inj h
    rw [move?_eq]
    by_cases hs : e.status ∈ [Status.notAuthenticated]
    · rw [if_pos hs]
      exact ⟨rfl, rfl, rfl, rfl⟩
    · rw [if_neg hs]
      exact ⟨rfl, rfl, rfl, rfl⟩
  · obtain rfl := Option.some.inj h
    split <;> exact ⟨rfl, rfl, rfl, rfl⟩
  · obtain rfl := Option.some.inj h
    exact .of_move rfl rfl rfl rfl rfl
  · obtain rfl := Option.some.inj h
    split <;> exact ⟨rfl, rfl, rfl, rfl⟩
  · obtain rfl := Option.some.inj h
    exact ⟨rfl, rfl, rfl, rfl⟩
  · obtain rfl := Option.some.inj h
    exact .of_move rfl rfl rfl rfl rfl
  · cases h

theorem pairingStep_effects (h : e.pairingStep p a = some r) : Effects e a r.world := by
  unfold pairingStep at h
  split at h
  · obtain rfl := Option.some.inj h
    exact ⟨rfl, rfl, rfl, rfl⟩
  · obtain rfl := Option.some.inj h
    exact ⟨rfl, rfl, rfl, rfl⟩
  · obtain rfl := Option.some.inj h
    exact .of_move rfl rfl rfl rfl rfl
  · obtain rfl := Option.some.inj h
    exact .of_move rfl rfl rfl rfl rfl
  · cases h

theorem beatRequested_effects {again : Bool} {log : List Log.Entry} (h : Effects e a f) :
    Effects e a (f.beatRequested p again log).world := by
  unfold beatRequested
  split <;> exact h

theorem timerStep_effects (h : e.timerStep now p a = some r) : Effects e a r.world := by
  unfold timerStep at h
  split at h
  · obtain rfl := Option.some.inj h
    split
    · next harmed => exact ⟨rfl, rfl, rfl, harmed⟩
    · exact ⟨rfl, rfl, rfl, rfl⟩
  · obtain rfl := Option.some.inj h
    split <;> exact ⟨rfl, rfl, rfl, rfl⟩
  · obtain rfl := Option.some.inj h
    split <;> exact ⟨rfl, rfl, rfl, rfl⟩
  · obtain rfl := Option.some.inj h
    split
    · next hqueued => exact beatRequested_effects ⟨rfl, rfl, hqueued, rfl⟩
    · exact ⟨rfl, rfl, rfl, rfl⟩
  · obtain rfl := Option.some.inj h
    split
    · exact beatRequested_effects ⟨rfl, rfl, rfl, rfl⟩
    · exact ⟨rfl, rfl, rfl, rfl⟩
  · obtain rfl := Option.some.inj h
    exact beatRequested_effects ⟨rfl, rfl, rfl, rfl⟩
  · cases h

theorem beatStep_effects (h : e.beatStep p a = some r) : Effects e a r.world := by
  unfold beatStep at h
  split at h
  all_goals first
    | (obtain rfl := Option.some.inj h; first | exact ⟨rfl, rfl, rfl, rfl⟩ | (split <;> exact ⟨rfl, rfl, rfl, rfl⟩))
    | cases h

theorem recordStep_effects (h : e.recordStep now p a = some r) : Effects e a r.world := by
  unfold recordStep at h
  split at h
  · obtain rfl := Option.some.inj h
    split
    · exact ⟨rfl, rfl, rfl, rfl⟩
    · split <;> exact ⟨rfl, rfl, rfl, rfl⟩
  all_goals first
    | (obtain rfl := Option.some.inj h; first | exact ⟨rfl, rfl, rfl, rfl⟩ | (split <;> exact ⟨rfl, rfl, rfl, rfl⟩))
    | cases h

theorem uploadStep_effects (h : e.uploadStep p a = some r) : Effects e a r.world := by
  unfold uploadStep at h
  split at h
  all_goals first
    | (obtain rfl := Option.some.inj h; first | exact ⟨rfl, rfl, rfl, rfl⟩ | (split <;> exact ⟨rfl, rfl, rfl, rfl⟩))
    | cases h

theorem requestStep_effects (h : e.requestStep p a = some r) : Effects e a r.world := by
  unfold requestStep at h
  split at h
  · obtain rfl := Option.some.inj h
    split <;> exact ⟨rfl, rfl, rfl, rfl⟩
  · obtain rfl := Option.some.inj h
    split <;> exact ⟨rfl, rfl, rfl, rfl⟩
  · obtain rfl := Option.some.inj h
    split <;> exact ⟨rfl, rfl, rfl, rfl⟩
  · obtain rfl := Option.some.inj h
    exact ⟨rfl, rfl, rfl, rfl⟩
  · obtain rfl := Option.some.inj h
    exact ⟨rfl, rfl, rfl, rfl⟩
  · obtain rfl := Option.some.inj h
    rw [move?_eq]
    by_cases hs : e.status ∈ [Status.paired]
    · rw [if_pos hs]
      exact ⟨rfl, rfl, rfl, rfl⟩
    · rw [if_neg hs]
      exact ⟨rfl, rfl, rfl, rfl⟩
  · obtain rfl := Option.some.inj h
    exact ⟨rfl, rfl, rfl, rfl⟩
  · cases h

theorem reportStep_effects (h : e.reportStep p a = some r) : Effects e a r.world := by
  unfold reportStep at h
  split at h
  all_goals first
    | (obtain rfl := Option.some.inj h; first | exact ⟨rfl, rfl, rfl, rfl⟩ | (split <;> exact ⟨rfl, rfl, rfl, rfl⟩))
    | cases h

theorem directoryStep_effects (h : e.directoryStep p a = some r) : Effects e a r.world := by
  unfold directoryStep at h
  split at h
  all_goals first | (obtain rfl := Option.some.inj h; exact ⟨rfl, rfl, rfl, rfl⟩) | cases h

theorem linkStep_effects (h : e.linkStep p a = some r) : Effects e a r.world := by
  unfold linkStep at h
  split at h
  all_goals first
    | (obtain rfl := Option.some.inj h; first | exact ⟨rfl, rfl, rfl, rfl⟩ | (split <;> exact ⟨rfl, rfl, rfl, rfl⟩))
    | cases h

/-- Whoever is replied to touches nothing yet. -/
theorem resume_world {c : Resume} {answer : Reply} (h : e.resume p c answer = some r) :
    r.world = e := by
  unfold resume at h
  split at h
  case h_1 => cases c <;> (obtain rfl := Option.some.inj h; rfl)
  case h_2 => cases c <;> (obtain rfl := Option.some.inj h; rfl)
  case h_10 =>
    obtain rfl := Option.some.inj h
    unfold served
    split <;> rfl
  all_goals first
    | (obtain rfl := Option.some.inj h; first | rfl | (split <;> rfl))
    | cases h

/-- **Every step leaves the links, the directory and the flags as the tables say.** -/
theorem act_effects (h : program.act now self e p a reply = some r) : Effects e a r.world := by
  cases act_made h with
  | resumed h =>
    rw [resume_world h]
    exact ⟨rfl, rfl, rfl, rfl⟩
  | life h => exact lifeStep_effects h
  | handshake h => exact handshakeStep_effects h
  | pairing h => exact pairingStep_effects h
  | timer h => exact timerStep_effects h
  | beat h => exact beatStep_effects h
  | record h => exact recordStep_effects h
  | upload h => exact uploadStep_effects h
  | request h => exact requestStep_effects h
  | report h => exact reportStep_effects h
  | directory h => exact directoryStep_effects h
  | link h => exact linkStep_effects h

/-- The turn of an activity, in a run. -/
theorem Run.effects {s : Setup} {start : Nat} {pre post : List Transition} {t : Transition}
    {m : System} {lane : Option Pool.Lane} (h : Run s start (pre ++ t :: post) m)
    (ht : t.turn? = some ⟨lane, a, reply⟩) : Effects t.before.world a t.after.world := by
  obtain ⟨self, r, hact, htook⟩ := h.turn ht
  exact htook.world ▸ act_effects hact

end Engine

end ArcadeUplink
