import ArcadeUplink.Proofs.Game.Tale
import ArcadeUplink.Proofs.Json.Decoding
import Mathlib.Data.List.Induction
import Mathlib.Data.List.Nodup
import Mathlib.Tactic.TFAE

/-!
# Valid values, and values that were read

Modes that were switched on and off by the edits have distinct names, and a number
that a checked constructor gave lies between 1 and 9. The readers check neither:
whatever is written of a value is read as it (`Modes.decode_eq_ok`,
`PlayerNumber.decode_eq_ok`), valid or not. So a value that was read is valid just if
the data was (`read_value_valid_iff`), and two equal names in a list of modes stay
behind even when the mode is switched off.
-/

namespace ArcadeUplink

/-! ## Modes -/

namespace Modes

/-- What switches modes on and off. -/
inductive Edit where
  | add (name : String)
  | remove (name : String)
  | clear
deriving DecidableEq, Repr

def edit (m : Modes) : Edit → Modes
  | .add name => (m.add name).2
  | .remove name => (m.remove name).2
  | .clear => m.clear.2

def editAll (m : Modes) (edits : List Edit) : Modes := edits.foldl edit m

/-- Whether edits of no modes lead to the names of these. -/
def Constructible (m : Modes) : Prop := ∃ edits, (empty.editAll edits).names = m.names

variable {m : Modes} {name : String}

theorem contains_iff : m.contains name = true ↔ name ∈ m.names := List.contains_iff_mem

theorem add_names_of_mem (h : name ∈ m.names) : (m.add name).2 = m := by
  unfold add
  rw [if_pos (contains_iff.mpr h)]

theorem add_names_of_not_mem (h : name ∉ m.names) :
    (m.add name).2.names = m.names ++ [name] := by
  unfold add
  rw [if_neg (mt contains_iff.mp h)]
  rfl

theorem remove_names (m : Modes) (name : String) :
    (m.remove name).2.names = m.names.erase name := by
  unfold remove
  split
  · rfl
  · next h => exact (List.erase_of_not_mem (mt contains_iff.mpr h)).symm

theorem clear_names (m : Modes) : m.clear.2.names = [] := by
  unfold clear
  split
  · next h => exact List.isEmpty_iff.mp h
  · rfl

/-- **An edit keeps the names distinct.** -/
theorem nodup_edit (h : m.names.Nodup) (e : Edit) : (m.edit e).names.Nodup := by
  cases e with
  | add name =>
    show (m.add name).2.names.Nodup
    by_cases hmem : name ∈ m.names
    · rwa [add_names_of_mem hmem]
    · rw [add_names_of_not_mem hmem]
      exact List.concat_eq_append ▸ h.concat hmem
  | remove name =>
    show (m.remove name).2.names.Nodup
    rw [remove_names]
    exact h.erase name
  | clear =>
    show m.clear.2.names.Nodup
    rw [clear_names]
    exact List.nodup_nil

theorem nodup_editAll (h : m.names.Nodup) (edits : List Edit) :
    (m.editAll edits).names.Nodup := by
  induction edits generalizing m with
  | nil => exact h
  | cons e edits ih => exact ih (nodup_edit h e)

/-- Names that are not on yet are switched on one after another. -/
theorem editAll_add {names : List String} (h : (m.names ++ names).Nodup) :
    (m.editAll (names.map .add)).names = m.names ++ names := by
  induction names generalizing m with
  | nil => exact (List.append_nil _).symm
  | cons name names ih =>
    have hfresh : name ∉ m.names := fun hmem =>
      (List.nodup_append.mp h).2.2 name hmem name List.mem_cons_self rfl
    have hadd : (m.edit (.add name)).names = m.names ++ [name] := add_names_of_not_mem hfresh
    have hrest : ((m.edit (.add name)).names ++ names).Nodup := by
      rwa [hadd, List.append_assoc, List.singleton_append]
    show ((m.edit (.add name)).editAll (names.map .add)).names = _
    rw [ih hrest, hadd, List.append_assoc, List.singleton_append]

/-- A mode that is switched off is off, unless its name stood there twice. -/
theorem contains_remove_iff :
    (m.remove name).2.contains name = false ↔ m.names.count name ≤ 1 := by
  rw [← Bool.not_eq_true, contains_iff, remove_names, ← List.count_pos_iff, List.count_erase_self]
  omega

/-- **Distinct names** are those that edits can lead to, those that every edit leaves distinct, and
those of which each is gone when it is switched off. -/
theorem nodup_tfae (m : Modes) :
    [m.names.Nodup, m.Constructible, ∀ edits, (m.editAll edits).names.Nodup,
      ∀ edits name, ((m.editAll edits).remove name).2.contains name = false].TFAE := by
  tfae_have 1 → 2 := by
    intro h
    exact ⟨m.names.map .add, editAll_add (m := empty) h⟩
  tfae_have 2 → 3 := by
    rintro ⟨edits, hedits⟩
    have h : m.names.Nodup := hedits ▸ nodup_editAll List.nodup_nil edits
    exact nodup_editAll h
  tfae_have 3 → 4 := by
    intro h edits name
    exact contains_remove_iff.mpr (List.nodup_iff_count_le_one.mp (h edits) name)
  tfae_have 4 → 1 := by
    intro h
    exact List.nodup_iff_count_le_one.mpr fun name => contains_remove_iff.mp (h [] name)
  tfae_finish

/-- **A list of names is read as it stands**, and nothing else is read. -/
theorem decode_eq_ok {v : Json} : decode v = .ok m ↔ v = m.toJson ∧ m.isChanged = false := by
  unfold decode
  rw [Json.map_eq_ok]
  constructor
  · rintro ⟨names, hnames, rfl⟩
    exact ⟨(Json.asList_eq_ok fun _ _ => Json.asText_eq_ok).mp hnames, rfl⟩
  · rintro ⟨rfl, hflag⟩
    refine ⟨m.names, (Json.asList_eq_ok fun _ _ => Json.asText_eq_ok).mpr rfl, ?_⟩
    obtain ⟨names, ⟨raised⟩⟩ := m
    obtain rfl : raised = false := hflag
    rfl

end Modes

/-! ## Numbers -/

theorem isGameNumber_iff {n : Nat} : isGameNumber n = true ↔ 1 ≤ n ∧ n ≤ 9 := by
  rw [isGameNumber, Bool.and_eq_true, decide_eq_true_iff, decide_eq_true_iff]

/-- The bytes that a checked constructor gives are the valid ones. -/
theorem exists_checked_iff {b : UInt8} :
    (∃ n, isGameNumber n = true ∧ n.toUInt8 = b) ↔ isGameNumber b.toNat = true := by
  constructor
  · rintro ⟨n, hn, rfl⟩
    have hlt : n < 256 := Nat.lt_of_le_of_lt (isGameNumber_iff.mp hn).2 (by decide)
    rwa [Nat.toUInt8, UInt8.toNat_ofNat', Nat.mod_eq_of_lt hlt]
  · exact fun h => ⟨b.toNat, h, UInt8.ofNat_toNat⟩

namespace PlayerNumber

variable {p : PlayerNumber} {v : Json}

/-- A number is valid if the checked constructor gives it. -/
theorem valid_iff : p.Valid ↔ ∃ n, ofNat? n = some p := by
  refine exists_checked_iff.symm.trans (exists_congr fun n => ?_)
  rw [ofNat?, Option.ite_none_right_eq_some, Option.some_inj]
  exact and_congr_right fun _ => ⟨congrArg mk, congrArg value⟩

/-- **A number is read as it stands**, as long as it fits a byte. -/
theorem decode_eq_ok : decode v = .ok p ↔ v = p.toJson := by
  refine Iff.trans ?_ Json.byte_eq_ok
  refine Json.map_eq_ok.trans (exists_congr fun i => and_congr_right fun _ => ?_)
  exact ⟨congrArg value, congrArg mk⟩

end PlayerNumber

namespace BallNumber

variable {b : BallNumber} {v : Json}

theorem valid_iff : b.Valid ↔ ∃ n, ofNat? n = some b := by
  refine exists_checked_iff.symm.trans (exists_congr fun n => ?_)
  rw [ofNat?, Option.ite_none_right_eq_some, Option.some_inj]
  exact and_congr_right fun _ => ⟨congrArg mk, congrArg value⟩

theorem decode_eq_ok : decode v = .ok b ↔ v = b.toJson := by
  refine Iff.trans ?_ Json.byte_eq_ok
  refine Json.map_eq_ok.trans (exists_congr fun i => and_congr_right fun _ => ?_)
  exact ⟨congrArg value, congrArg mk⟩

end BallNumber

namespace PlayerScore

variable {s : PlayerScore} {v : Json}

theorem set_player (s : PlayerScore) (score feature : Int) :
    (s.set score feature).2.player = s.player := by
  unfold set
  split <;> rfl

/-- The player of a score that was read is the one that the data names. -/
theorem player_of_decode (h : decode v = .ok s) :
    ∃ r, Json.Record.ofJson "PlayerState" 3 v = .ok r ∧
      r.value? 0 "player" = some s.player.toJson := by
  obtain ⟨r, hr, h⟩ := Json.bind_eq_ok.mp h
  obtain ⟨-, -, h⟩ := Json.bind_eq_ok.mp h
  obtain ⟨player, hplayer, h⟩ := Json.bind_eq_ok.mp h
  obtain ⟨score, -, h⟩ := Json.bind_eq_ok.mp h
  obtain ⟨feature, -, h⟩ := Json.bind_eq_ok.mp h
  obtain ⟨-, -, h⟩ := Json.bind_eq_ok.mp h
  obtain rfl := Except.ok.inj h
  obtain ⟨item, hitem, hdecode⟩ := Json.Record.field_eq_ok.mp hplayer
  exact ⟨r, hr, hitem.trans (congrArg some (PlayerNumber.decode_eq_ok.mp hdecode))⟩

/-- A score within the range of its numbers is read as it was written. -/
theorem decode_toJson (hscore : s.score ∈ Json.IntRange.i64)
    (hfeature : s.feature ∈ Json.IntRange.i32) : decode s.toJson = .ok s := by
  have hp : PlayerNumber.decode s.player.toJson = .ok s.player := PlayerNumber.decode_eq_ok.mpr rfl
  have hs : Json.asInt .i64 (.int s.score) = .ok s.score := Json.asInt_eq_ok.mpr ⟨rfl, hscore⟩
  have hf : Json.asInt .i32 (.int s.feature) = .ok s.feature := Json.asInt_eq_ok.mpr ⟨rfl, hfeature⟩
  refine Json.bind_eq_ok.mpr ⟨_, rfl, Json.bind_eq_ok.mpr ⟨(), ?_, ?_⟩⟩
  · refine Json.Record.check_members.mpr ?_
    intro m hm d hd
    rcases List.mem_cons.mp hm with rfl | hm
    · exact Option.some.inj hd ▸ Json.check_eq_ok.mpr ⟨_, hp⟩
    · rcases List.mem_cons.mp hm with rfl | hm
      · exact Option.some.inj hd ▸ Json.check_eq_ok.mpr ⟨_, hs⟩
      · obtain rfl := List.mem_singleton.mp hm
        exact Option.some.inj hd ▸ Json.check_eq_ok.mpr ⟨_, hf⟩
  · refine Json.bind_eq_ok.mpr ⟨_, Json.Record.field_eq_ok.mpr ⟨_, rfl, hp⟩, ?_⟩
    refine Json.bind_eq_ok.mpr ⟨_, Json.Record.field_eq_ok.mpr ⟨_, rfl, hs⟩, ?_⟩
    exact Json.bind_eq_ok.mpr ⟨_, Json.Record.field_eq_ok.mpr ⟨_, rfl, hf⟩, rfl⟩

end PlayerScore

/-! ## Snapshots -/

namespace Snapshot

/-- Whether the numbers in a snapshot are valid, each player's score stands under his number, and
no mode stands there twice. -/
structure Valid (s : Snapshot) : Prop where
  player : ∀ p, s.activePlayer = some p → p.Valid
  ball : ∀ b, s.ball = some b → b.Valid
  players : ∀ e ∈ s.players.entries, e.1.Valid ∧ e.2.player = e.1
  modes : s.modes.names.Nodup

variable {s : Snapshot} {p : PlayerNumber} {b : BallNumber}

theorem valid_empty : empty.Valid := ⟨nofun, nofun, nofun, List.nodup_nil⟩

theorem Valid.ensurePlayer (h : s.Valid) (hp : p.Valid) : (s.ensurePlayer p).2.Valid := by
  unfold Snapshot.ensurePlayer
  split
  · exact h
  · refine { h with players := ?_ }
    intro e he
    rcases SortedMap.mem_place he with rfl | he
    · exact ⟨hp, rfl⟩
    · exact h.players e he

theorem Valid.setBall (h : s.Valid) (hb : b.Valid) : (s.setBall b).2.Valid :=
  { h with ball := fun _ hc => Option.some.inj hc ▸ hb }

theorem Valid.setActivePlayer (h : s.Valid) (hp : p.Valid) : (s.setActivePlayer p).2.Valid :=
  { h.ensurePlayer hp with player := fun _ hq => Option.some.inj hq ▸ hp }

theorem Valid.setScore (h : s.Valid) (hp : p.Valid) (score feature : Int) :
    (s.setScore p score feature).2.Valid := by
  have hensure := h.ensurePlayer hp
  refine { hensure with players := ?_ }
  intro e he
  obtain ⟨x, hx, rfl⟩ := List.mem_map.mp he
  obtain ⟨hvalid, hplayer⟩ := hensure.players x hx
  refine ⟨hvalid, ?_⟩
  dsimp only
  split
  · exact (PlayerScore.set_player ..).trans hplayer
  · exact hplayer

theorem Valid.withModes (h : s.Valid) {m : Modes} (hm : m.names.Nodup) :
    ({ s with modes := m } : Snapshot).Valid :=
  { h with modes := hm }

theorem Valid.stamp (h : s.Valid) (time : Timestamp) : (s.stamp time).Valid := { h with }

theorem valid_started (id : String) : (started id).Valid := by
  refine Valid.setActivePlayer ?_ (by decide)
  exact ⟨nofun, fun _ hb => Option.some.inj hb ▸ (by decide), nofun, List.nodup_nil⟩

end Snapshot

namespace Tracker

variable {t : Tracker}

theorem send_valid (h : t.current.Valid) (now : Timestamp) :
    (t.send now).1.current.Valid ∧
      ∀ s ∈ (t.send now).2.filterMap TrackerEvent.sent?, s.Valid := by
  have hs : (t.send now).1.current.Valid := (h.stamp now).withModes h.modes
  refine ⟨hs, ?_⟩
  intro s hmem
  rw [List.mem_singleton.mp hmem]
  exact hs

/-- **Whatever the host says**, a valid snapshot stays valid, and only valid ones are sent. -/
theorem perform_valid (h : t.current.Valid) (x : Say) :
    (t.perform x.1 x.2).1.current.Valid ∧ ∀ s ∈ t.sends x, s.Valid := by
  obtain ⟨now, op⟩ := x
  have hedit (hop : op.isEdit = true) (hcur : (t.perform now op).1.current.Valid) :
      (t.perform now op).1.current.Valid ∧ ∀ s ∈ t.sends (now, op), s.Valid := by
    refine ⟨hcur, ?_⟩
    rw [sends, (t.perform_quiet now hop).silent]
    exact nofun
  cases op with
  | start id =>
    show (t.start now id).1.current.Valid ∧
      ∀ s ∈ (t.start now id).2.filterMap TrackerEvent.sent?, s.Valid
    unfold start
    split
    · exact ⟨h, nofun⟩
    · exact send_valid (t := { t with current := .started id.text }) (Snapshot.valid_started _) now
  | finish =>
    show (t.finish now).1.current.Valid ∧
      ∀ s ∈ (t.finish now).2.filterMap TrackerEvent.sent?, s.Valid
    unfold finish
    split
    · exact ⟨h, nofun⟩
    · exact ⟨Snapshot.valid_empty,
        (send_valid (t := { t with current := t.current.setActive false }) { h with } now).2⟩
  | commit =>
    show (t.commit now).1.current.Valid ∧
      ∀ s ∈ (t.commit now).2.filterMap TrackerEvent.sent?, s.Valid
    unfold commit
    split
    · exact ⟨h, nofun⟩
    · exact send_valid h now
  | setBall n =>
    refine hedit rfl ?_
    show (t.setBall n).1.current.Valid
    unfold setBall
    split
    · next b hb => exact h.setBall (BallNumber.valid_iff.mpr ⟨n, hb⟩)
    · exact h
  | setActivePlayer n =>
    refine hedit rfl ?_
    show (t.setActivePlayer n).1.current.Valid
    unfold setActivePlayer
    split
    · next p hp => exact h.setActivePlayer (PlayerNumber.valid_iff.mpr ⟨n, hp⟩)
    · exact h
  | setScore n score feature =>
    refine hedit rfl ?_
    show (t.setScore n score feature).1.current.Valid
    unfold setScore
    split
    · next p hp => exact h.setScore (PlayerNumber.valid_iff.mpr ⟨n, hp⟩) score feature
    · exact h
  | addMode name =>
    refine hedit rfl ?_
    show (t.addMode name).1.current.Valid
    unfold addMode
    split
    · exact h
    · exact h.withModes (Modes.nodup_edit h.modes (.add name))
  | removeMode name => exact hedit rfl (h.withModes (Modes.nodup_edit h.modes (.remove name)))
  | clearModes => exact hedit rfl (h.withModes (Modes.nodup_edit h.modes .clear))

end Tracker

/-- **A tracker sends valid snapshots only**, whatever the host says and in whatever order. -/
theorem Tale.valid (xs : List Tracker.Say) : (addAll {} xs).tracker.current.Valid ∧
    ∀ s ∈ (addAll {} xs).sent, s.Valid := by
  induction xs using List.reverseRecOn with
  | nil => exact ⟨Snapshot.valid_empty, nofun⟩
  | append_singleton xs x ih =>
    rw [addAll_concat]
    obtain ⟨hcur, hsent⟩ := Tracker.perform_valid ih.1 x
    refine ⟨hcur, ?_⟩
    intro s hs
    rcases List.mem_append.mp hs with hs | hs
    · exact ih.2 s hs
    · exact hsent s hs

/-! ## What reading vouches for -/

/-- **Reading vouches for no more than the data does.** Modes are read from every list of names,
a number from every one that fits a byte, and the player of a score as its data names him. So what
was read could come of the edits or of a checked constructor just if the data could: if its names
are distinct, which is also when they stay distinct under every edit and when every mode that is
switched off is gone, and if its number lies between 1 and 9. -/
theorem read_value_valid_iff (v : Json) :
    (∀ m, Modes.decode v = .ok m ↔ v = m.toJson ∧ m.isChanged = false) ∧
    (∀ m : Modes, [m.names.Nodup, m.Constructible, ∀ edits, (m.editAll edits).names.Nodup,
      ∀ edits name, ((m.editAll edits).remove name).2.contains name = false].TFAE) ∧
    (∀ p, PlayerNumber.decode v = .ok p ↔ v = p.toJson) ∧
    (∀ p : PlayerNumber, [p.Valid, 1 ≤ p.toNat ∧ p.toNat ≤ 9,
      ∃ n, PlayerNumber.ofNat? n = some p].TFAE) ∧
    (∀ b, BallNumber.decode v = .ok b ↔ v = b.toJson) ∧
    (∀ b : BallNumber, [b.Valid, 1 ≤ b.toNat ∧ b.toNat ≤ 9,
      ∃ n, BallNumber.ofNat? n = some b].TFAE) ∧
    (∀ s, PlayerScore.decode v = .ok s → ∃ r, Json.Record.ofJson "PlayerState" 3 v = .ok r ∧
      r.value? 0 "player" = some s.player.toJson) := by
  refine ⟨fun m => Modes.decode_eq_ok, Modes.nodup_tfae, fun p => PlayerNumber.decode_eq_ok,
    fun p => ?_, fun b => BallNumber.decode_eq_ok, fun b => ?_,
    fun s => PlayerScore.player_of_decode⟩
  · tfae_have 1 ↔ 2 := isGameNumber_iff
    tfae_have 1 ↔ 3 := PlayerNumber.valid_iff
    tfae_finish
  · tfae_have 1 ↔ 2 := isGameNumber_iff
    tfae_have 1 ↔ 3 := BallNumber.valid_iff
    tfae_finish

/-- A name that stands twice in the data stays when its mode is switched off, and the number 0 is
read as that of a player. -/
theorem invalid_values_are_read :
    (∃ m, Modes.decode (.list [.text "a", .text "a"]) = .ok m ∧ ¬m.Constructible ∧
      (m.remove "a").2.contains "a" = true) ∧
    (∃ p, PlayerNumber.decode (.int 0) = .ok p ∧ ¬p.Valid) ∧
    (∃ b, BallNumber.decode (.int 10) = .ok b ∧ ¬b.Valid) ∧
    (∃ s r, PlayerScore.decode (.list [.int 0, .int 7, .int 0]) = .ok s ∧
      Json.Record.ofJson "PlayerState" 3 (.list [.int 0, .int 7, .int 0]) = .ok r ∧
      r.value? 0 "player" = some s.player.toJson ∧ ¬s.player.Valid) := by
  obtain ⟨hmodes, htfae, -⟩ := read_value_valid_iff (.list [.text "a", .text "a"])
  obtain ⟨-, -, hplayer, -⟩ := read_value_valid_iff (.int 0)
  obtain ⟨-, -, -, -, hball, -⟩ := read_value_valid_iff (.int 10)
  obtain ⟨-, -, -, -, -, -, hscore⟩ := read_value_valid_iff (.list [.int 0, .int 7, .int 0])
  obtain ⟨r, hr, hitem⟩ := hscore ⟨⟨0⟩, 7, 0⟩ rfl
  refine ⟨⟨⟨["a", "a"], {}⟩, (hmodes _).mpr ⟨rfl, rfl⟩, ?_, by decide⟩,
    ⟨⟨0⟩, (hplayer _).mpr rfl, by decide⟩, ⟨⟨10⟩, (hball _).mpr rfl, by decide⟩,
    ⟨⟨⟨0⟩, 7, 0⟩, r, rfl, hr, hitem, by decide⟩⟩
  have hdistinct := (htfae ⟨["a", "a"], {}⟩).out 0 1
  exact mt hdistinct.mpr (by decide)

end ArcadeUplink
