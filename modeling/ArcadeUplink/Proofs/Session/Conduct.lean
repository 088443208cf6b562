import ArcadeUplink.Proofs.Session.Account
import ArcadeUplink.Proofs.Session.Aside
import ArcadeUplink.Proofs.Session.Parts

/-!
# The conduct of the engine

Which deed a step of the engine is, and that the engine does only what is
lawful. What an activity may be at depends on its lane: uploads are made in the
lane of game data only, and whoever is at one follows up the deed that he did
last. `Conduct` says what a step preserves of that; it holds of every step
(`conduct`), whatever is replied and whoever comes in between.
-/

namespace ArcadeUplink

open Pool (Lane Use)
open Deed

/-- The deed that a step of an activity is, if it is one, with the ledger before it. -/
def Deed.of? (now : Nat) (l : Ledger) : Activity → Option Reply → Option Deed
  | .record s, _ => some (.recorded s (l.record now s).dropped)
  | .upload id, _ => (l.upload? id).map fun r => .begun r.1 r.2
  | .waiting (.gameData _ u) (.uploaded _ k), some .accepted => some (.accepted u k)
  | .acknowledge id k, _ => some (.acknowledged id k)
  | .history id, _ => (l.history? id).map .written
  | .waiting (.uploadHistory _ u) (.historyUploaded _), some .accepted => some (.filed u)
  | .close id, _ => some (.closed id)
  | _, _ => none

namespace Activity

/-- Whether an activity has to do with games at all. -/
def isOfGames : Activity → Bool
  | .sendSnapshot _ => true
  | .record _ => true
  | .submit .. => true
  | .withdrawUpload .. => true
  | .withdrawHistory .. => true
  | .scanLedger => true
  | a => a.isUploading

theorem isUploading_of_isOfGames {a : Activity} (h : a.isOfGames = false) :
    a.isUploading = false := by
  cases a <;> first | exact h | rfl

/-- What an activity in the lane of game data has behind it: the deed that it follows up, or none
that is to be followed up. -/
def Follows (ds : List Deed) : Activity → Prop
  | .uploadGate u k => lastAct? ds = some (.begun u k)
  | .callUpload u k => lastAct? ds = some (.begun u k)
  | .waiting call (.uploaded id k) =>
    ∃ at_ u, call = .gameData at_ u ∧ id = u.session ∧ lastAct? ds = some (.begun u k)
  | .acknowledge id k => ∃ u, u.session = id ∧ lastAct? ds = some (.accepted u k)
  | .historyGate u => lastAct? ds = some (.written u)
  | .callHistory u => lastAct? ds = some (.written u)
  | .waiting call (.historyUploaded id) =>
    ∃ at_ u, call = .uploadHistory at_ u ∧ id = u.session ∧ lastAct? ds = some (.written u)
  | .close id => ∃ u, u.session = id ∧ lastAct? ds = some (.filed u)
  | _ => Rested ds

theorem follows_of_not_midway {a : Activity} (h : a.isMidway = false) {ds : List Deed} :
    a.Follows ds ↔ Rested ds := by
  cases a with
  | waiting call resume => cases resume <;> first | exact .rfl | cases h
  | _ => first | exact .rfl | cases h

theorem isMidway_of_isUploading {a : Activity} (h : a.isUploading = false) :
    a.isMidway = false := by
  cases a with
  | upload id => cases h
  | history id => cases h
  | _ => exact h

end Activity

/-- What is at the lane of game data: nothing that is to be followed up, or an activity that
follows it up. -/
def AtDesk (ds : List Deed) : List Activity → Prop
  | [] => Rested ds
  | a :: _ => a.Follows ds

theorem Pool.Use.mono {α : Type} {P Q : Lane → α → Prop} {p q : Pool α} (h : Use P p q)
    (hPQ : ∀ l a, P l a → Q l a) : Use Q p q := by
  cases h with
  | leave => exact .leave
  | postTo ht => exact .postTo (hPQ _ _ ht)
  | delay ht => exact .delay (hPQ _ _ ht)
  | beginStart hq => exact .beginStart hq
  | beginStop hq => exact .beginStop hq
  | advance hq => exact .advance hq

namespace Engine

/-- What an activity may be at in a lane, or outside of all lanes. -/
structure Fit (ds : List Deed) (lane : Option Lane) (a : Activity) : Prop where
  uploading : a.isUploading = true → lane = some .gameData
  outside : lane ≠ none → a.pending? = none
  due : ∀ id ∈ a.histories, Due id ds

/-- What may wait in a lane: a fit activity that has yet to begin. -/
structure Fresh (ds : List Deed) (lane : Lane) (a : Activity) : Prop where
  fit : Fit ds (some lane) a
  fresh : a.isMidway = false

/-- What holds of whoever takes his turn: the deeds so far are lawful, the ledger is kept by them,
and his activity is fit and follows up what was done. -/
structure Ready (ds : List Deed) (lane : Option Lane) (e : Engine) (a : Activity) : Prop where
  lawful : Lawful ds
  kept : e.ledger.Kept ds
  fit : Fit ds lane a
  follows : lane = some .gameData → a.Follows ds

/-- **What a step preserves**: the deeds are lawful and the ledger is kept, the status changes as
the diagram allows, and what is submitted or remains is fit and follows up what was done. -/
structure Conduct (ds : List Deed) (lane : Option Lane) (e : Engine) (p : Workers) (r : Result) :
    Prop where
  lawful : Lawful ds
  kept : r.world.ledger.Kept ds
  status : e.status.Follows r.world.status
  pool : Use (Fresh ds) p r.pool
  rest : ∀ b ∈ r.rest, Fit ds lane b
  desk : lane = some .gameData → AtDesk ds r.rest.toList

variable {ds es : List Deed} {lane : Option Lane} {a b : Activity} {now : Nat} {self : Option Nat}
  {e f : Engine} {p q : Workers} {reply : Option Reply} {r : Result}

theorem Fit.of_plain (h : a.isPlain = true) : Fit ds lane a where
  uploading hu := by rw [Activity.isUploading_of_isPlain h] at hu; cases hu
  outside _ := Activity.pending?_of_isPlain h
  due id hid := by rw [Activity.histories_of_isPlain h] at hid; cases hid

theorem Fresh.of_plain {l : Lane} (h : a.isPlain = true) : Fresh ds l a :=
  ⟨.of_plain h, Activity.isMidway_of_isUploading (Activity.isUploading_of_isPlain h)⟩

theorem Fit.append (h : Fit ds lane a) : Fit (ds ++ es) lane a :=
  ⟨h.uploading, h.outside, fun id hid => (h.due id hid).append⟩

theorem Fresh.append {l : Lane} (h : Fresh ds l a) : Fresh (ds ++ es) l a :=
  ⟨h.fit.append, h.fresh⟩

namespace Conduct

theorem quit {events : List EngineEvent} (hs : f.status = e.status) (hl : Lawful ds)
    (hk : f.ledger.Kept ds) (hr : lane = some .gameData → Rested ds) :
    Conduct ds lane e p (f.quit p events) :=
  ⟨hl, hk, .inl hs, .leave, fun b hb => absurd hb (Option.not_mem_none b), hr⟩

theorem go {log : List Log.Entry} (hs : f.status = e.status) (hp : Use (Fresh ds) p q)
    (hl : Lawful ds) (hk : f.ledger.Kept ds) (hb : Fit ds lane b)
    (hd : lane = some .gameData → b.Follows ds) : Conduct ds lane e p (f.go q b log) :=
  ⟨hl, hk, .inl hs, hp, fun _ hc => Option.some.inj hc ▸ hb, hd⟩

theorem ask {call : ServerCall} {resume : Resume} (hl : Lawful ds) (hk : e.ledger.Kept ds)
    (hb : Fit ds lane (.waiting call resume))
    (hd : lane = some .gameData → (Activity.waiting call resume).Follows ds) :
    Conduct ds lane e p (e.ask p call resume) :=
  ⟨hl, hk, .inl rfl, .leave, fun _ hc => Option.some.inj hc ▸ hb, hd⟩

theorem aside (h : Ready ds lane e a) (ha : a.isMidway = false) (hr : Aside e p r) :
    Conduct ds lane e p r where
  lawful := h.lawful
  kept := by rw [hr.ledger]; exact h.kept
  status := hr.status
  pool := hr.pool.mono fun _ _ => .of_plain
  rest b hb := .of_plain (hr.rest b hb)
  desk hlane := by
    have hrest := (Activity.follows_of_not_midway ha).mp (h.follows hlane)
    cases hb : r.rest with
    | none => exact hrest
    | some b =>
      refine (Activity.follows_of_not_midway ?_).mpr hrest
      exact Activity.isMidway_of_isUploading (Activity.isUploading_of_isPlain (hr.rest b hb))

end Conduct

/-! ## Recording and submitting -/

/-- A call that records is made from outside. -/
theorem Ready.lane_eq_none (h : Ready ds lane e a) (ha : a.pending?.isSome = true) :
    lane = none := by
  by_contra hlane
  rw [h.fit.outside hlane] at ha
  cases ha

theorem Ready.rested (h : Ready ds lane e a) (ha : a.isMidway = false)
    (hlane : lane = some .gameData) : Rested ds :=
  (Activity.follows_of_not_midway ha).mp (h.follows hlane)

theorem fit_submit {uploads histories : List String} (h : ∀ id ∈ histories, Due id ds) :
    Fit ds lane (.submit uploads histories) :=
  ⟨nofun, fun _ => rfl, h⟩

theorem conduct_sendSnapshot {s : Snapshot} (h : Ready ds lane e (.sendSnapshot s))
    (hr : e.recordStep now p (.sendSnapshot s) = some r) : Conduct ds lane e p r := by
  obtain rfl := Option.some.inj hr
  have hlane : lane = none := h.lane_eq_none rfl
  split
  · exact .quit rfl h.lawful h.kept (h.rested rfl)
  · split
    · exact .quit rfl h.lawful h.kept (h.rested rfl)
    · exact .go rfl .leave h.lawful h.kept ⟨nofun, fun hn => absurd hlane hn, nofun⟩ (h.rested rfl)

theorem conduct_record {s : Snapshot} (h : Ready ds lane e (.record s))
    (hr : e.recordStep now p (.record s) = some r) :
    Conduct (ds ++ [.recorded s (e.ledger.record now s).dropped]) lane e p r := by
  obtain rfl := Option.some.inj hr
  have hlane : lane = none := h.lane_eq_none rfl
  have hl : Lawful (ds ++ [.recorded s (e.ledger.record now s).dropped]) :=
    h.lawful.concat (h.kept.recorded now s)
  have hk := h.kept.record now s
  subst hlane
  split
  · exact .go rfl .leave hl hk (fit_submit nofun) nofun
  · exact .quit rfl hl hk nofun

theorem conduct_submit {uploads histories : List String}
    (h : Ready ds lane e (.submit uploads histories))
    (hr : e.recordStep now p (.submit uploads histories) = some r) : Conduct ds lane e p r := by
  have hdue := h.fit.due
  have hrest := h.rested rfl
  match uploads, histories with
  | id :: uploads, histories =>
    obtain rfl := Option.some.inj hr
    have hfresh : Fresh ds .gameData (.upload id) := ⟨⟨fun _ => rfl, fun _ => rfl, nofun⟩, rfl⟩
    split
    · next q log hq =>
      exact .go rfl (use_of_postTo hq hfresh) h.lawful h.kept (fit_submit hdue) hrest
    · next q log hq =>
      exact .go rfl (use_of_postTo hq hfresh) h.lawful h.kept ⟨nofun, fun _ => rfl, hdue⟩ hrest
  | [], id :: histories =>
    obtain rfl := Option.some.inj hr
    have hid := hdue id List.mem_cons_self
    have hrest' : ∀ j ∈ histories, Due j ds := fun j hj => hdue j (List.mem_cons_of_mem _ hj)
    have hfresh : Fresh ds .gameData (.history id) :=
      ⟨⟨fun _ => rfl, fun _ => rfl, fun j hj => List.mem_singleton.mp hj ▸ hid⟩, rfl⟩
    split
    · next q log hq =>
      exact .go rfl (use_of_postTo hq hfresh) h.lawful h.kept (fit_submit hrest') hrest
    · next q log hq =>
      exact .go rfl (use_of_postTo hq hfresh) h.lawful h.kept ⟨nofun, fun _ => rfl, hdue⟩ hrest
  | [], [] =>
    obtain rfl := Option.some.inj hr
    exact .quit rfl h.lawful h.kept hrest

theorem conduct_withdrawUpload {id : String} {uploads histories : List String}
    (h : Ready ds lane e (.withdrawUpload id uploads histories))
    (hr : e.recordStep now p (.withdrawUpload id uploads histories) = some r) :
    Conduct ds lane e p r := by
  obtain rfl := Option.some.inj hr
  exact .go rfl .leave h.lawful (h.kept.lowerUpload id) (fit_submit h.fit.due) (h.rested rfl)

theorem conduct_withdrawHistory {id : String} {histories : List String}
    (h : Ready ds lane e (.withdrawHistory id histories))
    (hr : e.recordStep now p (.withdrawHistory id histories) = some r) :
    Conduct ds lane e p r := by
  obtain rfl := Option.some.inj hr
  exact .go rfl .leave h.lawful (h.kept.lowerHistory id)
    (fit_submit fun j hj => h.fit.due j (List.mem_cons_of_mem _ hj)) (h.rested rfl)

theorem conduct_scanLedger (h : Ready ds lane e .scanLedger)
    (hr : e.beatStep p .scanLedger = some r) : Conduct ds lane e p r := by
  obtain rfl := Option.some.inj hr
  exact .go rfl .leave h.lawful h.kept.retry (fit_submit fun _ => h.kept.due_retry) (h.rested rfl)

/-! ## Uploading -/

theorem fit_midway (ha : a.isMidway = true) (hlane : lane = some .gameData) : Fit ds lane a where
  uploading _ := hlane
  outside _ := by
    cases a with
    | sendSnapshot s => cases ha
    | record s => cases ha
    | _ => rfl
  due id hid := by
    cases a with
    | submit uploads ids => cases ha
    | withdrawUpload id uploads ids => cases ha
    | withdrawHistory id ids => cases ha
    | history id => cases ha
    | _ => cases hid

theorem conduct_upload {id : String} (h : Ready ds lane e (.upload id))
    (hr : e.uploadStep p (.upload id) = some r) :
    Conduct (ds ++ ((e.ledger.upload? id).map fun x => Deed.begun x.1 x.2).toList) lane e p r := by
  obtain rfl := Option.some.inj hr
  have hlane := h.fit.uploading rfl
  cases hu : e.ledger.upload? id with
  | none =>
    rw [Option.map_none, Option.toList_none, List.append_nil]
    exact .quit rfl h.lawful h.kept (h.rested rfl)
  | some x =>
    obtain ⟨u, k⟩ := x
    obtain ⟨-, hallowed⟩ := h.kept.begun hu (h.rested rfl hlane)
    exact .go rfl .leave (h.lawful.concat hallowed)
      ((h.kept.lowerUpload id).concat (fun _ => rfl) (fun _ => rfl) fun _ => rfl)
      (fit_midway rfl hlane) fun _ => lastAct?_concat rfl

theorem conduct_uploadGate {u : SnapshotUpload} {k : Nat} (h : Ready ds lane e (.uploadGate u k))
    (hr : e.uploadStep p (.uploadGate u k) = some r) : Conduct ds lane e p r := by
  obtain rfl := Option.some.inj hr
  have hlane := h.fit.uploading rfl
  split
  · exact .quit rfl h.lawful h.kept fun _ => rested_of_lastAct? (h.follows hlane) rfl
  · exact .go rfl .leave h.lawful h.kept (fit_midway rfl hlane) h.follows

theorem conduct_callUpload {u : SnapshotUpload} {k : Nat} (h : Ready ds lane e (.callUpload u k))
    (hr : e.uploadStep p (.callUpload u k) = some r) : Conduct ds lane e p r := by
  obtain rfl := Option.some.inj hr
  have hlane := h.fit.uploading rfl
  exact .ask h.lawful h.kept (fit_midway rfl hlane) fun _ => ⟨_, u, rfl, rfl, h.follows hlane⟩

theorem conduct_acknowledge {id : String} {k : Nat} (h : Ready ds lane e (.acknowledge id k))
    (hr : e.uploadStep p (.acknowledge id k) = some r) :
    Conduct (ds ++ [.acknowledged id k]) lane e p r := by
  obtain rfl := Option.some.inj hr
  have hlane := h.fit.uploading rfl
  have hl : Lawful (ds ++ [.acknowledged id k]) := h.lawful.concat (h.follows hlane)
  have hk := h.kept.acknowledge id k
  have hrest : Rested (ds ++ [.acknowledged id k]) := rested_concat rfl rfl
  split
  · next hdue =>
    refine .go rfl .leave hl hk ⟨fun _ => hlane, fun _ => rfl, ?_⟩ fun _ => hrest
    intro j hj
    rw [List.mem_singleton.mp hj]
    exact h.kept.due_acknowledge hdue
  · exact .quit rfl hl hk fun _ => hrest

theorem conduct_history {id : String} (h : Ready ds lane e (.history id))
    (hr : e.uploadStep p (.history id) = some r) :
    Conduct (ds ++ ((e.ledger.history? id).map Deed.written).toList) lane e p r := by
  obtain rfl := Option.some.inj hr
  have hlane := h.fit.uploading rfl
  cases hu : e.ledger.history? id with
  | none =>
    rw [Option.map_none, Option.toList_none, List.append_nil]
    exact .quit rfl h.lawful h.kept (h.rested rfl)
  | some u =>
    have hdue := h.fit.due id (List.mem_singleton_self id)
    obtain ⟨-, hallowed⟩ := h.kept.written hu (h.rested rfl hlane) hdue
    exact .go rfl .leave (h.lawful.concat hallowed)
      ((h.kept.lowerHistory id).concat (fun _ => rfl) (fun _ => rfl) fun _ => rfl)
      (fit_midway rfl hlane) fun _ => lastAct?_concat rfl

theorem conduct_historyGate {u : HistoryUpload} (h : Ready ds lane e (.historyGate u))
    (hr : e.uploadStep p (.historyGate u) = some r) : Conduct ds lane e p r := by
  obtain rfl := Option.some.inj hr
  have hlane := h.fit.uploading rfl
  split
  · exact .quit rfl h.lawful h.kept fun _ => rested_of_lastAct? (h.follows hlane) rfl
  · exact .go rfl .leave h.lawful h.kept (fit_midway rfl hlane) h.follows

theorem conduct_callHistory {u : HistoryUpload} (h : Ready ds lane e (.callHistory u))
    (hr : e.uploadStep p (.callHistory u) = some r) : Conduct ds lane e p r := by
  obtain rfl := Option.some.inj hr
  have hlane := h.fit.uploading rfl
  exact .ask h.lawful h.kept (fit_midway rfl hlane) fun _ => ⟨_, u, rfl, rfl, h.follows hlane⟩

theorem conduct_close {id : String} (h : Ready ds lane e (.close id))
    (hr : e.uploadStep p (.close id) = some r) : Conduct (ds ++ [.closed id]) lane e p r := by
  obtain rfl := Option.some.inj hr
  have hlane := h.fit.uploading rfl
  have hl : Lawful (ds ++ [.closed id]) := h.lawful.concat (h.follows hlane)
  exact .quit rfl hl (h.kept.close id) fun _ => rested_concat rfl rfl

/-! ## Replies -/

/-- A reply to a call that is not about games is beside the games. -/
theorem resume_aside {call : ServerCall} {c : Resume} {reply : Reply}
    (h : e.resume p c reply = some r) (hc : (Activity.waiting call c).isUploading = false) :
    Aside e p r := by
  unfold resume at h
  split at h
  · obtain rfl := Option.some.inj h
    unfold fail
    split
    · exact .tell .leave (.inl rfl) rfl
    · exact .quit .leave (.inl rfl) rfl
  · unfold refused at h
    split at h
    · obtain rfl := Option.some.inj h
      exact .go .leave (.inl rfl) rfl rfl
    · obtain rfl := Option.some.inj h
      exact .go .leave (.inl rfl) rfl rfl
    · obtain rfl := Option.some.inj h
      exact .go .leave (.inl rfl) rfl rfl
    all_goals
      obtain rfl := Option.some.inj h
      first | exact .quit .leave (.inl rfl) rfl | exact .tell .leave (.inl rfl) rfl
  · obtain rfl := Option.some.inj h
    split
    · exact .ask rfl
    · exact .go .leave (.inl rfl) rfl rfl
  · obtain rfl := Option.some.inj h
    exact .go .leave (.inl rfl) rfl rfl
  · obtain rfl := Option.some.inj h
    exact .go .leave (.inl rfl) rfl (Activity.isPlain_ite rfl rfl)
  · obtain rfl := Option.some.inj h
    exact .quit .leave (.inl rfl) rfl
  · cases hc
  · cases hc
  · obtain rfl := Option.some.inj h
    split
    · exact .go .leave (.inl rfl) rfl rfl
    · exact .go .leave (.inl rfl) rfl rfl
  · obtain rfl := Option.some.inj h
    unfold served
    split
    · exact .go .leave (.inl rfl) rfl rfl
    · exact .tell .leave (.inl rfl) rfl
    · exact .go .leave (.inl rfl) rfl rfl
  · obtain rfl := Option.some.inj h
    exact .go .leave (.inl rfl) rfl rfl
  · cases h

/-- An upload that is accepted goes on to be acknowledged; with any other reply it is over. -/
theorem resume_uploaded_cases {id : String} {k : Nat} {reply : Reply}
    (h : e.resume p (.uploaded id k) reply = some r) :
    (reply = .accepted ∧ r = e.go p (.acknowledge id k) []) ∨
      (reply ≠ .accepted ∧ ∃ events, r = e.quit p events) := by
  cases reply with
  | panic => exact .inr ⟨nofun, _, (Option.some.inj h).symm⟩
  | refused error => exact .inr ⟨nofun, _, (Option.some.inj h).symm⟩
  | accepted => exact .inl ⟨rfl, (Option.some.inj h).symm⟩
  | _ => cases h

/-- A history that is accepted goes on to be closed; with any other reply its upload is over. -/
theorem resume_historyUploaded_cases {id : String} {reply : Reply}
    (h : e.resume p (.historyUploaded id) reply = some r) :
    (reply = .accepted ∧ r = e.go p (.close id) []) ∨
      (reply ≠ .accepted ∧ ∃ events, r = e.quit p events) := by
  cases reply with
  | panic => exact .inr ⟨nofun, _, (Option.some.inj h).symm⟩
  | refused error => exact .inr ⟨nofun, _, (Option.some.inj h).symm⟩
  | accepted => exact .inl ⟨rfl, (Option.some.inj h).symm⟩
  | _ => cases h

/-- Only a reply that accepts is a deed. -/
theorem of?_eq_none_of_ne {reply : Reply} (h : reply ≠ .accepted) (l : Ledger) (call : ServerCall)
    (c : Resume) : Deed.of? now l (.waiting call c) (some reply) = none := by
  unfold Deed.of?
  split
  case h_3 hreply => exact absurd (Option.some.inj hreply) h
  case h_6 hreply => exact absurd (Option.some.inj hreply) h
  case h_8 => rfl
  all_goals (rename_i heq; cases heq)

theorem conduct_uploaded {call : ServerCall} {id : String} {k : Nat} {reply : Reply}
    (h : Ready ds lane e (.waiting call (.uploaded id k)))
    (hr : e.resume p (.uploaded id k) reply = some r) :
    Conduct (ds ++ (Deed.of? now e.ledger (.waiting call (.uploaded id k)) (some reply)).toList)
      lane e p r := by
  have hlane := h.fit.uploading rfl
  obtain ⟨at_, u, rfl, rfl, hlast⟩ := h.follows hlane
  obtain ⟨rfl, rfl⟩ | ⟨hne, events, rfl⟩ := resume_uploaded_cases hr
  · have hl : Lawful (ds ++ [.accepted u k]) := h.lawful.concat hlast
    have hk : e.ledger.Kept (ds ++ [.accepted u k]) :=
      h.kept.concat (fun _ => rfl) (fun _ => rfl) fun _ => rfl
    exact .go rfl .leave hl hk (fit_midway rfl hlane) fun _ => ⟨u, rfl, lastAct?_concat rfl⟩
  · rw [of?_eq_none_of_ne hne, Option.toList_none, List.append_nil]
    exact .quit rfl h.lawful h.kept fun _ => rested_of_lastAct? hlast rfl

theorem conduct_historyUploaded {call : ServerCall} {id : String} {reply : Reply}
    (h : Ready ds lane e (.waiting call (.historyUploaded id)))
    (hr : e.resume p (.historyUploaded id) reply = some r) :
    Conduct
      (ds ++ (Deed.of? now e.ledger (.waiting call (.historyUploaded id)) (some reply)).toList)
      lane e p r := by
  have hlane := h.fit.uploading rfl
  obtain ⟨at_, u, rfl, rfl, hlast⟩ := h.follows hlane
  obtain ⟨rfl, rfl⟩ | ⟨hne, events, rfl⟩ := resume_historyUploaded_cases hr
  · have hl : Lawful (ds ++ [.filed u]) := h.lawful.concat hlast
    have hk : e.ledger.Kept (ds ++ [.filed u]) :=
      h.kept.concat (fun _ => rfl) (fun _ => rfl) fun _ => rfl
    exact .go rfl .leave hl hk (fit_midway rfl hlane) fun _ => ⟨u, rfl, lastAct?_concat rfl⟩
  · rw [of?_eq_none_of_ne hne, Option.toList_none, List.append_nil]
    exact .quit rfl h.lawful h.kept fun _ => rested_of_lastAct? hlast rfl

/-- A reply to an upload leaves the pool as it is, and nothing that is about to upload. -/
theorem resume_upload {call : ServerCall} {c : Resume} {reply : Reply}
    (h : e.resume p c reply = some r) (hc : (Activity.waiting call c).isUploading = true) :
    r.pool = p ∧ ∀ b ∈ r.rest, (∃ id k, b = .acknowledge id k) ∨ ∃ id, b = .close id := by
  cases c with
  | uploaded id k =>
    obtain ⟨-, rfl⟩ | ⟨-, events, rfl⟩ := resume_uploaded_cases h
    · exact ⟨rfl, fun b hb => .inl ⟨id, k, (Option.some.inj hb).symm⟩⟩
    · exact ⟨rfl, fun b hb => absurd hb (Option.not_mem_none b)⟩
  | historyUploaded id =>
    obtain ⟨-, rfl⟩ | ⟨-, events, rfl⟩ := resume_historyUploaded_cases h
    · exact ⟨rfl, fun b hb => .inr ⟨id, (Option.some.inj hb).symm⟩⟩
    · exact ⟨rfl, fun b hb => absurd hb (Option.not_mem_none b)⟩
  | _ => cases hc

/-! ## Every step -/

theorem isOfGames_of_recordStep (h : e.recordStep now p a = some r) : a.isOfGames = true := by
  unfold recordStep at h
  split at h <;> first | rfl | cases h

theorem isUploading_of_uploadStep (h : e.uploadStep p a = some r) : a.isUploading = true := by
  unfold uploadStep at h
  split at h <;> first | rfl | cases h

theorem act_aside (h : program.act now self e p a reply = some r) (ha : a.isOfGames = false) :
    Aside e p r := by
  cases act_made h with
  | resumed h => exact resume_aside h (Activity.isUploading_of_isOfGames ha)
  | life h => exact lifeStep_aside h
  | handshake h => exact handshakeStep_aside h
  | pairing h => exact pairingStep_aside h
  | timer h => exact timerStep_aside h
  | beat h => exact beatStep_aside h (by rintro rfl; cases ha)
  | record h => cases ha.symm.trans (isOfGames_of_recordStep h)
  | upload h =>
    cases (Activity.isUploading_of_isOfGames ha).symm.trans (isUploading_of_uploadStep h)
  | request h => exact requestStep_aside h
  | report h => exact reportStep_aside h
  | directory h => exact directoryStep_aside h
  | link h => exact linkStep_aside h

theorem of?_eq_none (ha : a.isOfGames = false) (now : Nat) (l : Ledger) (reply : Option Reply) :
    Deed.of? now l a reply = none := by
  unfold Deed.of?
  split <;> first | rfl | cases ha

/-- The kinds of steps: beside the games, a reply to an upload, a look through the ledger, and the
steps of recording and of uploading. -/
inductive Part (now : Nat) (e : Engine) (p : Workers) : Activity → Option Reply → Result → Prop
  | aside {a : Activity} {reply : Option Reply} {r : Result} (ha : a.isOfGames = false)
      (h : Aside e p r) : Part now e p a reply r
  | replied {call : ServerCall} {c : Resume} {reply : Reply} {r : Result}
      (ha : (Activity.waiting call c).isUploading = true) (h : e.resume p c reply = some r) :
      Part now e p (.waiting call c) (some reply) r
  | scanned {r : Result} (h : e.beatStep p .scanLedger = some r) : Part now e p .scanLedger none r
  | recorded {a : Activity} {r : Result} (h : e.recordStep now p a = some r) :
      Part now e p a none r
  | uploaded {a : Activity} {r : Result} (h : e.uploadStep p a = some r) : Part now e p a none r

/-- **Every step is of one of these kinds.** -/
theorem act_part (h : program.act now self e p a reply = some r) : Part now e p a reply r := by
  cases ha : a.isOfGames with
  | false => exact .aside ha (act_aside h ha)
  | true =>
    obtain ⟨call, c, reply', rfl, rfl, hresume⟩ | ⟨rfl, hstep⟩ := act_cases h
    · exact .replied ha hresume
    · cases a with
      | sendSnapshot s => exact .recorded hstep
      | record s => exact .recorded hstep
      | submit uploads histories =>
        cases uploads <;> cases histories <;> exact .recorded hstep
      | withdrawUpload id uploads histories => exact .recorded hstep
      | withdrawHistory id histories => exact .recorded hstep
      | scanLedger => exact .scanned hstep
      | upload id => exact .uploaded hstep
      | uploadGate u k => exact .uploaded hstep
      | callUpload u k => exact .uploaded hstep
      | acknowledge id k => exact .uploaded hstep
      | history id => exact .uploaded hstep
      | historyGate u => exact .uploaded hstep
      | callHistory u => exact .uploaded hstep
      | close id => exact .uploaded hstep
      | waiting call c => cases hstep
      | _ => cases ha

theorem Conduct.append_none {d : Option Deed} (hd : d = none) (h : Conduct ds lane e p r) :
    Conduct (ds ++ d.toList) lane e p r := by
  rwa [hd, Option.toList_none, List.append_nil]

/-- **Whatever the engine does is lawful**: if the deeds so far are lawful, the ledger is kept and
whoever takes his turn is ready, so it is after his step. -/
theorem conduct (h : Ready ds lane e a) (hr : program.act now self e p a reply = some r) :
    Conduct (ds ++ (Deed.of? now e.ledger a reply).toList) lane e p r := by
  cases act_part hr with
  | aside ha haside =>
    have hmidway := Activity.isMidway_of_isUploading (Activity.isUploading_of_isOfGames ha)
    exact .append_none (of?_eq_none ha now e.ledger reply) (.aside h hmidway haside)
  | @replied call c reply r ha hresume =>
    cases c with
    | uploaded id k => exact conduct_uploaded h hresume
    | historyUploaded id => exact conduct_historyUploaded h hresume
    | _ => cases ha
  | scanned hscan => exact .append_none rfl (conduct_scanLedger h hscan)
  | recorded hrec =>
    cases a with
    | sendSnapshot s => exact .append_none rfl (conduct_sendSnapshot h hrec)
    | record s => exact conduct_record h hrec
    | submit uploads histories => exact .append_none rfl (conduct_submit h hrec)
    | withdrawUpload id uploads histories => exact .append_none rfl (conduct_withdrawUpload h hrec)
    | withdrawHistory id histories => exact .append_none rfl (conduct_withdrawHistory h hrec)
    | _ => cases hrec
  | uploaded hup =>
    cases a with
    | upload id => exact conduct_upload h hup
    | uploadGate u k => exact .append_none rfl (conduct_uploadGate h hup)
    | callUpload u k => exact .append_none rfl (conduct_callUpload h hup)
    | acknowledge id k => exact conduct_acknowledge h hup
    | history id => exact conduct_history h hup
    | historyGate u => exact .append_none rfl (conduct_historyGate h hup)
    | callHistory u => exact .append_none rfl (conduct_callHistory h hup)
    | close id => exact conduct_close h hup
    | _ => cases hup

end Engine

end ArcadeUplink
