import ArcadeUplink.Proofs.Pool.Custody
import ArcadeUplink.Session.Engine

/-!
# Steps beside the games

Most activities of the engine are not about games: they start and stop it,
authenticate, look up the pairing, send heartbeats, and serve requests, reports,
pictures and links. `Aside` says what such a step leaves alone: the ledger stays
as it is, and whatever is submitted or remains to be done is not about games
either. The status changes only as the diagram allows.

Heartbeats end in a look through the ledger, which is not aside; nor are the
replies to uploads.
-/

namespace ArcadeUplink

open Pool (Lane Use)

namespace Activity

/-- Whether an activity is in the midst of an upload. -/
def isMidway : Activity → Bool
  | .uploadGate .. => true
  | .callUpload .. => true
  | .waiting _ (.uploaded ..) => true
  | .acknowledge .. => true
  | .historyGate _ => true
  | .callHistory _ => true
  | .waiting _ (.historyUploaded _) => true
  | .close _ => true
  | _ => false

/-- Whether an activity uploads a snapshot or a history, from the beginning on. -/
def isUploading : Activity → Bool
  | .upload _ => true
  | .history _ => true
  | a => a.isMidway

/-- The snapshot that an activity is about to record. -/
def pending? : Activity → Option Snapshot
  | .sendSnapshot s => some s
  | .record s => some s
  | _ => none

/-- The games whose histories an activity has still to upload or to submit. -/
def histories : Activity → List String
  | .submit _ ids => ids
  | .withdrawUpload _ _ ids => ids
  | .withdrawHistory id ids => id :: ids
  | .history id => [id]
  | _ => []

/-- The games whose snapshots an activity has still to upload or to submit. -/
def uploads : Activity → List String
  | .submit ids _ => ids
  | .withdrawUpload id ids _ => id :: ids
  | .upload id => [id]
  | _ => []

/-- Whether an activity is not about games: it uploads nothing, records nothing and submits neither
snapshots nor histories. -/
def isPlain (a : Activity) : Bool :=
  !a.isUploading && a.pending?.isNone && a.histories.isEmpty && a.uploads.isEmpty

theorem isUploading_of_isPlain {a : Activity} (h : a.isPlain = true) : a.isUploading = false := by
  unfold isPlain at h
  simp only [Bool.and_eq_true, Bool.not_eq_true'] at h
  exact h.1.1.1

theorem pending?_of_isPlain {a : Activity} (h : a.isPlain = true) : a.pending? = none := by
  unfold isPlain at h
  simp only [Bool.and_eq_true, Option.isNone_iff_eq_none] at h
  exact h.1.1.2

theorem histories_of_isPlain {a : Activity} (h : a.isPlain = true) : a.histories = [] := by
  unfold isPlain at h
  simp only [Bool.and_eq_true, List.isEmpty_iff] at h
  exact h.1.2

theorem uploads_of_isPlain {a : Activity} (h : a.isPlain = true) : a.uploads = [] := by
  unfold isPlain at h
  simp only [Bool.and_eq_true, List.isEmpty_iff] at h
  exact h.2

theorem isPlain_ite {c : Prop} [Decidable c] {a b : Activity} (ha : a.isPlain = true)
    (hb : b.isPlain = true) : (if c then a else b).isPlain = true := by
  split
  · exact ha
  · exact hb

end Activity

/-- Whether a state stays or is followed by another as the diagram says. -/
def Status.Follows (s t : Status) : Prop := t = s ∨ s.canBecome t = true

namespace Engine

/-- A step that leaves the ledger and the games alone. -/
structure Aside (e : Engine) (p : Workers) (r : Result) : Prop where
  ledger : r.world.ledger = e.ledger
  status : e.status.Follows r.world.status
  pool : Use (fun _ a => a.isPlain = true) p r.pool
  rest : ∀ b ∈ r.rest, b.isPlain = true

variable {now : Nat} {self : Option Nat} {e f : Engine} {p q : Workers} {a b : Activity}
  {r : Result}

theorem use_of_postTo {Task : Lane → Activity → Prop} {l : Lane} {task : Activity} {done : Bool}
    {log : List Log.Entry} (h : p.postTo l task = (done, q, log)) (ht : Task l task) :
    Use Task p q := by
  have huse : Use Task p (p.postTo l task).2.1 := .postTo ht
  rw [h] at huse
  exact huse

namespace Aside

theorem go {log : List Log.Entry} (hp : Use (fun _ a => a.isPlain = true) p q)
    (hs : e.status.Follows f.status) (hl : f.ledger = e.ledger)
    (hb : b.isPlain = true) : Aside e p (f.go q b log) :=
  ⟨hl, hs, hp, fun _ hc => Option.some.inj hc ▸ hb⟩

theorem quit (hp : Use (fun _ a => a.isPlain = true) p q) {events : List EngineEvent}
    (hs : e.status.Follows f.status) (hl : f.ledger = e.ledger) :
    Aside e p (f.quit q events) :=
  ⟨hl, hs, hp, fun b hb => absurd hb (Option.not_mem_none b)⟩

theorem ask {call : ServerCall} {resume : Resume}
    (hr : (Activity.waiting call resume).isPlain = true) :
    Aside e p (e.ask p call resume) :=
  ⟨rfl, .inl rfl, .leave, fun _ hc => Option.some.inj hc ▸ hr⟩

theorem tell (hp : Use (fun _ a => a.isPlain = true) p q) {failing : Bool} {log : List Log.Entry}
    {t : Ticket} {code : ResultCode} {text : String}
    (hs : e.status.Follows f.status) (hl : f.ledger = e.ledger) :
    Aside e p (f.tell q failing log t code text) := by
  refine ⟨hl, hs, hp, fun b hb => ?_⟩
  obtain ⟨-, heq⟩ := Option.ite_none_right_eq_some.mp hb
  cases heq
  rfl

end Aside

theorem move?_eq_some {sources : List Status} {target : Status} {log : List Log.Entry}
    (h : e.move? sources target = some (f, log)) :
    e.status ∈ sources ∧ f = { e with status := target } := by
  unfold move? at h
  split at h
  · next hmem =>
    cases h
    exact ⟨hmem, rfl⟩
  · cases h

theorem move_cases (e : Engine) (sources : List Status) (target : Status) :
    (e.move sources target).1 = e ∨
      e.status ∈ sources ∧ (e.move sources target).1 = { e with status := target } := by
  unfold move
  cases hm : e.move? sources target with
  | none => exact .inl rfl
  | some r =>
    obtain ⟨hmem, hr⟩ := move?_eq_some hm
    exact .inr ⟨hmem, hr⟩

theorem move_aside (e : Engine) (sources : List Status) (target : Status)
    (h : ∀ s ∈ sources, s.canBecome target = true) :
    (e.move sources target).1.ledger = e.ledger ∧
      e.status.Follows (e.move sources target).1.status := by
  obtain hm | ⟨hmem, hm⟩ := move_cases e sources target
  · rw [hm]
    exact ⟨rfl, .inl rfl⟩
  · rw [hm]
    exact ⟨rfl, .inr (h _ hmem)⟩

theorem lifeStep_aside (h : e.lifeStep self p a = some r) : Aside e p r := by
  unfold lifeStep at h
  split at h
  · obtain ⟨q, hq, rfl⟩ := Option.map_eq_some_iff.mp h
    split
    · exact .quit (.beginStart hq) (.inl rfl) rfl
    · exact .go (.beginStart hq) (.inl rfl) rfl rfl
  · split at h
    · next q log hq =>
      cases h
      exact .quit (.advance hq) (.inl rfl) rfl
    · cases h
  · obtain ⟨q, hq, rfl⟩ := Option.map_eq_some_iff.mp h
    exact .go (.beginStop hq) (.inl rfl) rfl rfl
  · obtain ⟨c, hc, rfl⟩ := Option.map_eq_some_iff.mp h
    split
    · exact .quit (.advance hc) (.inl rfl) rfl
    · exact .go (.advance hc) (.inl rfl) rfl rfl
  · cases h

theorem handshakeStep_aside (h : e.handshakeStep now p a = some r) : Aside e p r := by
  unfold handshakeStep at h
  split at h
  · obtain rfl := Option.some.inj h
    split
    · next f log hm =>
      obtain ⟨hmem, rfl⟩ := move?_eq_some hm
      rw [List.mem_singleton] at hmem
      exact .go .leave (by rw [hmem]; exact .inr rfl) rfl rfl
    · exact .quit .leave (.inl rfl) rfl
  · obtain rfl := Option.some.inj h
    split
    · next q log hq => exact .quit (use_of_postTo hq rfl) (.inl rfl) rfl
    · next q log hq => exact .go (use_of_postTo hq rfl) (.inl rfl) rfl rfl
  · obtain rfl := Option.some.inj h
    obtain ⟨hl, hs⟩ := e.move_aside [.authenticating] .failed (by decide)
    exact .quit .leave hs hl
  · obtain rfl := Option.some.inj h
    split
    · exact .ask rfl
    · exact .go .leave (.inl rfl) rfl rfl
  · obtain rfl := Option.some.inj h
    exact .go .leave (.inl rfl) rfl rfl
  · obtain rfl := Option.some.inj h
    obtain ⟨hl, hs⟩ := e.move_aside [.authenticating] .checkingPairing (by decide)
    exact .go .leave hs hl rfl
  · cases h

theorem pairingStep_aside (h : e.pairingStep p a = some r) : Aside e p r := by
  unfold pairingStep at h
  split at h
  · obtain rfl := Option.some.inj h
    exact .ask rfl
  · obtain rfl := Option.some.inj h
    exact .go .leave (.inl rfl) rfl rfl
  · next occasion =>
    obtain rfl := Option.some.inj h
    obtain ⟨hl, hs⟩ := e.move_aside [.checkingPairing, .unpaired] .paired (by decide)
    exact .go .leave hs hl (by cases occasion <;> rfl)
  · next occasion =>
    obtain rfl := Option.some.inj h
    obtain ⟨hl, hs⟩ := e.move_aside [.checkingPairing] .unpaired (by decide)
    exact .go .leave hs hl (by cases occasion <;> rfl)
  · cases h

theorem beatRequested_aside (hp : Use (fun _ a => a.isPlain = true) p q) {again : Bool}
    {log : List Log.Entry} (hs : f.status = e.status)
    (hl : f.ledger = e.ledger) :
    Aside e p (f.beatRequested q again log) := by
  unfold beatRequested
  split
  · exact .go hp (.inl hs) hl rfl
  · exact .quit hp (.inl hs) hl

theorem timerStep_aside (h : e.timerStep now p a = some r) : Aside e p r := by
  unfold timerStep at h
  split at h
  · obtain rfl := Option.some.inj h
    split
    · exact .quit .leave (.inl rfl) rfl
    · exact .go .leave (.inl rfl) rfl rfl
  · obtain rfl := Option.some.inj h
    split
    · exact .go .leave (.inl rfl) rfl rfl
    · exact .quit .leave (.inl rfl) rfl
  · obtain rfl := Option.some.inj h
    split
    · exact .quit .leave (.inl rfl) rfl
    · exact .quit (.delay rfl) (.inl rfl) rfl
  · obtain rfl := Option.some.inj h
    split
    · exact beatRequested_aside .leave rfl rfl
    · exact .go .leave (.inl rfl) rfl rfl
  · obtain rfl := Option.some.inj h
    split
    · next q log hq => exact beatRequested_aside (use_of_postTo hq rfl) rfl rfl
    · next q log hq => exact .go (use_of_postTo hq rfl) (.inl rfl) rfl rfl
  · obtain rfl := Option.some.inj h
    exact beatRequested_aside .leave rfl rfl
  · cases h

theorem beatStep_aside (h : e.beatStep p a = some r) (ha : a ≠ .scanLedger) : Aside e p r := by
  unfold beatStep at h
  split at h
  · obtain rfl := Option.some.inj h
    exact .go .leave (.inl rfl) rfl rfl
  · obtain rfl := Option.some.inj h
    split
    · exact .quit .leave (.inl rfl) rfl
    · exact .go .leave (.inl rfl) rfl rfl
  · obtain rfl := Option.some.inj h
    exact .go .leave (.inl rfl) (by rfl) (Activity.isPlain_ite rfl rfl)
  · obtain rfl := Option.some.inj h
    exact .ask rfl
  · obtain rfl := Option.some.inj h
    exact .go .leave (.inl rfl) (by rfl) (Activity.isPlain_ite rfl rfl)
  · obtain rfl := Option.some.inj h
    exact .go .leave (.inl rfl) rfl rfl
  · obtain rfl := Option.some.inj h
    exact .go .leave (.inl rfl) rfl rfl
  · obtain rfl := Option.some.inj h
    exact .go (.postTo rfl) (.inl rfl) rfl rfl
  · obtain rfl := Option.some.inj h
    split
    · exact .go .leave (.inl rfl) rfl rfl
    · exact .quit .leave (.inl rfl) rfl
  · exact absurd rfl ha
  · cases h

theorem requestStep_aside (h : e.requestStep p a = some r) : Aside e p r := by
  unfold requestStep at h
  split at h
  · obtain rfl := Option.some.inj h
    split
    · next q log hq => exact .quit (use_of_postTo hq rfl) (.inl rfl) rfl
    · next q log hq => exact .tell (use_of_postTo hq rfl) (.inl rfl) rfl
  · obtain rfl := Option.some.inj h
    split
    · exact .tell .leave (.inl rfl) rfl
    · exact .go .leave (.inl rfl) (by rfl) (Activity.isPlain_ite rfl rfl)
  · obtain rfl := Option.some.inj h
    split
    · exact .tell .leave (.inl rfl) rfl
    · exact .go .leave (.inl rfl) rfl rfl
  · obtain rfl := Option.some.inj h
    exact .ask rfl
  · obtain rfl := Option.some.inj h
    exact .tell .leave (.inl rfl) rfl
  · obtain rfl := Option.some.inj h
    split
    · next f log hm =>
      obtain ⟨hmem, rfl⟩ := move?_eq_some hm
      rw [List.mem_singleton] at hmem
      exact .go .leave (by rw [hmem]; exact .inr rfl) rfl rfl
    · exact .tell .leave (.inl rfl) rfl
  · obtain rfl := Option.some.inj h
    exact .tell .leave (.inl rfl) rfl
  · cases h

theorem reportStep_aside (h : e.reportStep p a = some r) : Aside e p r := by
  unfold reportStep at h
  split at h
  · obtain rfl := Option.some.inj h
    exact .quit (.postTo rfl) (.inl rfl) rfl
  · obtain rfl := Option.some.inj h
    split
    · exact .quit .leave (.inl rfl) rfl
    · exact .go .leave (.inl rfl) rfl rfl
  · obtain rfl := Option.some.inj h
    exact .ask rfl
  · cases h

theorem directoryStep_aside (h : e.directoryStep p a = some r) : Aside e p r := by
  unfold directoryStep at h
  split at h
  · obtain rfl := Option.some.inj h
    exact .ask rfl
  · obtain rfl := Option.some.inj h
    exact .go .leave (.inl rfl) rfl rfl
  · obtain rfl := Option.some.inj h
    exact .quit .leave (.inl rfl) rfl
  · obtain rfl := Option.some.inj h
    refine ⟨rfl, .inl rfl, .leave, ?_⟩
    intro b hb
    obtain ⟨-, heq⟩ := Option.ite_none_right_eq_some.mp hb
    cases heq
    rfl
  · cases h

theorem linkStep_aside (h : e.linkStep p a = some r) : Aside e p r := by
  unfold linkStep at h
  split at h
  · obtain rfl := Option.some.inj h
    split
    · exact .go .leave (.inl rfl) rfl rfl
    · exact .quit .leave (.inl rfl) rfl
  · obtain rfl := Option.some.inj h
    exact .quit .leave (.inl rfl) rfl
  · obtain rfl := Option.some.inj h
    split
    · exact .go .leave (.inl rfl) rfl rfl
    · exact .quit .leave (.inl rfl) rfl
  · obtain rfl := Option.some.inj h
    exact .quit .leave (.inl rfl) rfl
  · cases h

end Engine

end ArcadeUplink
