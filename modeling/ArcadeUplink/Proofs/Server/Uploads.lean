import ArcadeUplink.Proofs.Game.Validity
import ArcadeUplink.Proofs.Json.Unambiguous
import ArcadeUplink.Server.Message

/-!
# What an upload tells

The text of an upload tells the session, the counter, the snapshot and the whole seconds
of its time, and nothing else: two uploads have the same text exactly if they agree on
these (`SnapshotUpload.render_iff`). What the snapshot holds besides, the change flag of
its modes and the rest of its time, is not in the value that is written
(`Snapshot.toJson_iff`), and a value of whole numbers is told by its text whatever the
names in it and however large the numbers.

Scores and modes have readers, which find again what was written.
-/

namespace ArcadeUplink

/-! ## Values -/

/-- The ranges that are in use stay exact. -/
theorem Json.isExact_of_mem {range : Json.IntRange} {i : Int}
    (hrange : -0x8000000000000000 ≤ range.least ∧ range.greatest < 0x10000000000000000)
    (h : i ∈ range) : Json.isExact i = true := by
  rw [Json.isExact, Bool.and_eq_true, decide_eq_true_iff, decide_eq_true_iff]
  exact ⟨Int.le_trans hrange.1 h.1, Int.lt_of_le_of_lt h.2 hrange.2⟩

theorem BallNumber.toJson_inj {a b : BallNumber} (h : a.toJson = b.toJson) : a = b :=
  Except.ok.inj ((decode_eq_ok.mpr rfl).symm.trans (decode_eq_ok.mpr h))

namespace PlayerNumber

variable {p q : PlayerNumber}

theorem toJson_inj (h : p.toJson = q.toJson) : p = q :=
  Except.ok.inj ((decode_eq_ok.mpr rfl).symm.trans (decode_eq_ok.mpr h))

theorem text_inj (h : p.text = q.text) : p = q := by
  have hdigits : Decimal.natChars p.toNat = Decimal.natChars q.toNat := String.ofList_injective h
  have hnumber : p.toNat = q.toNat := by
    rw [← Decimal.ofDigits_natChars p.toNat, hdigits, Decimal.ofDigits_natChars]
  cases p
  cases q
  exact congrArg mk (UInt8.toNat_inj.mp hnumber)

end PlayerNumber

theorem PlayerScore.toJson_inj {s t : PlayerScore} (h : s.toJson = t.toJson) : s = t := by
  simp only [toJson, Json.object.injEq, List.cons.injEq, Prod.mk.injEq, Json.int.injEq, true_and,
    and_true] at h
  obtain ⟨hplayer, hscore, hfeature⟩ := h
  cases s
  cases t
  rw [mk.injEq]
  exact ⟨PlayerNumber.toJson_inj hplayer, hscore, hfeature⟩

theorem Modes.toJson_iff {m n : Modes} : m.toJson = n.toJson ↔ m.names = n.names := by
  unfold toJson
  rw [Json.list.injEq]
  exact List.map_inj_right fun _ _ => Json.text.inj

theorem PlayerScore.whole_toJson {P : Int → Prop} {s : PlayerScore} (hplayer : P s.player.toNat)
    (hscore : P s.score) (hfeature : P s.feature) : Json.Whole P s.toJson := by
  refine .object ?_
  simp only [List.forall_mem_cons]
  exact ⟨.int hplayer, .int hscore, .int hfeature, nofun⟩

theorem Modes.whole_toJson (P : Int → Prop) (m : Modes) : Json.Whole P m.toJson := by
  refine .list fun v hv => ?_
  obtain ⟨name, -, rfl⟩ := List.mem_map.mp hv
  exact .text name

namespace Snapshot

variable {s t : Snapshot}

/-- The players are told by their numbers and their scores. -/
theorem players_iff : s.players.entries.map (fun e => (e.1.text, e.2.toJson)) =
    t.players.entries.map (fun e => (e.1.text, e.2.toJson)) ↔ s.players = t.players := by
  refine ⟨fun h => SortedMap.ext_entries ((List.map_inj_right ?_).mp h), fun h => h ▸ rfl⟩
  intro e f h
  obtain ⟨hplayer, hscore⟩ := Prod.mk.inj h
  exact Prod.ext (PlayerNumber.text_inj hplayer) (PlayerScore.toJson_inj hscore)

/-- **What is written of a snapshot** is all that makes it the same as another, and its seconds. -/
theorem toJson_iff : s.toJson = t.toJson ↔ s.same t = true ∧ s.seconds = t.seconds := by
  have hball := Json.option_iff (f := BallNumber.toJson) (x := s.ball) (y := t.ball) nofun
    fun _ _ => BallNumber.toJson_inj
  have hplayer := Json.option_iff (f := PlayerNumber.toJson) (x := s.activePlayer)
    (y := t.activePlayer) nofun fun _ _ => PlayerNumber.toJson_inj
  simp only [toJson, same, Modes.same, Json.object.injEq, List.cons.injEq, Prod.mk.injEq,
    Json.bool.injEq, Json.text.injEq, Json.int.injEq, Modes.toJson_iff, players_iff, hball, hplayer,
    Bool.and_eq_true, decide_eq_true_eq, true_and, and_true, and_assoc]

theorem whole_toJson (s : Snapshot) : Json.Whole (fun _ => True) s.toJson := by
  have hplayers : Json.Whole (fun _ => True)
      (.object (s.players.entries.map fun e => (e.1.text, e.2.toJson))) := by
    refine .object fun m hm => ?_
    obtain ⟨e, -, rfl⟩ := List.mem_map.mp hm
    exact PlayerScore.whole_toJson trivial trivial trivial
  refine .object ?_
  simp only [List.forall_mem_cons]
  exact ⟨.bool _, .text _, Json.whole_option (fun _ => .int trivial) _,
    Json.whole_option (fun _ => .int trivial) _, s.modes.whole_toJson _, hplayers, .int trivial,
    nofun⟩

end Snapshot

/-! ## Texts -/

namespace SnapshotUpload

theorem whole_toJson (u : SnapshotUpload) : Json.Whole (fun _ => True) u.toJson := by
  refine .object ?_
  simp only [List.forall_mem_cons]
  exact ⟨.text _, .int trivial, u.data.whole_toJson, nofun⟩

/-- **Uploads that are written alike** agree on everything that is to be told. -/
theorem render_iff {u v : SnapshotUpload} : u.toJson.render = v.toJson.render ↔
    u.session = v.session ∧ u.counter = v.counter ∧ u.data.same v.data = true ∧
      u.data.seconds = v.data.seconds := by
  have hvalues : u.toJson.render = v.toJson.render ↔ u.toJson = v.toJson :=
    ⟨Json.render_inj u.whole_toJson v.whole_toJson, congrArg _⟩
  rw [hvalues]
  simp only [toJson, Json.nat, Json.object.injEq, List.cons.injEq, Prod.mk.injEq, Json.text.injEq,
    Json.int.injEq, Int.ofNat_inj, Snapshot.toJson_iff, true_and, and_true]

end SnapshotUpload

/-- A score is read back from its text, -/
theorem PlayerScore.decode_parse? {s : PlayerScore} (hscore : s.score ∈ Json.IntRange.i64)
    (hfeature : s.feature ∈ Json.IntRange.i32) :
    (Json.parse? s.toJson.render).map decode = some (.ok s) := by
  have hplayer : (s.player.toNat : Int) ∈ Json.IntRange.u8 :=
    ⟨Int.natCast_nonneg _, Int.ofNat_le.mpr (Nat.le_of_lt_succ s.player.value.toNat_lt)⟩
  have hwhole : Json.Whole (fun i => Json.isExact i = true) s.toJson :=
    whole_toJson (Json.isExact_of_mem (by decide) hplayer) (Json.isExact_of_mem (by decide) hscore)
      (Json.isExact_of_mem (by decide) hfeature)
  have hnames : ["player", "score", "score_feature"].Pairwise fun j k => compare j k = .lt := by
    decide
  have hordered : s.toJson.ordered = s.toJson := congrArg Json.object <|
    SortedMap.ofList_entries (l := [("player", s.player.toJson), ("score", .int s.score),
      ("score_feature", .int s.feature)]) hnames
  rw [Json.parse?_render hwhole, hordered, Option.map_some, decode_toJson hscore hfeature]

/-- and so are modes, whose flag is lowered by that. -/
theorem Modes.decode_parse? (m : Modes) :
    (Json.parse? m.toJson.render).map decode = some (.ok { names := m.names }) := by
  have hordered : m.toJson.ordered = m.toJson := by
    rw [toJson, Json.ordered, Json.orderedItems_eq_map, List.map_map]
    rfl
  rw [Json.parse?_render (m.whole_toJson _), hordered, Option.map_some]
  exact congrArg some (decode_eq_ok.mpr ⟨rfl, rfl⟩)

/-- **Bodies are faithful.** Two uploads have the same text exactly if they are of one session, have
the same counter and the same snapshot, and were taken in the same second: neither the change flag
of the modes nor the rest of the time shows, and nothing else is lost. A score and modes are read
back from what was written of them, the modes with their flag lowered. -/
theorem SnapshotUpload.text_faithful :
    (∀ u v : SnapshotUpload, u.toJson.render = v.toJson.render ↔
      u.session = v.session ∧ u.counter = v.counter ∧ u.data.same v.data = true ∧
        u.data.seconds = v.data.seconds) ∧
    (∀ s : PlayerScore, s.score ∈ Json.IntRange.i64 → s.feature ∈ Json.IntRange.i32 →
      (Json.parse? s.toJson.render).map PlayerScore.decode = some (.ok s)) ∧
    ∀ m : Modes, ∃ n : Modes, (Json.parse? m.toJson.render).map Modes.decode = some (.ok n) ∧
      n.names = m.names ∧ n.isChanged = false :=
  ⟨fun _ _ => render_iff, fun _ => PlayerScore.decode_parse?,
    fun m => ⟨_, m.decode_parse?, rfl, rfl⟩⟩

/-- A new game, half a second after it began and with a mode switched on and off again, is written
as it was; a second later it is not. The least score of all is read back. -/
theorem SnapshotUpload.text_faithful_within_second :
    let now : Snapshot := (Snapshot.started "game").stamp 5000000000
    let modes : Modes := ((now.modes.add "Multiball").2.remove "Multiball").2
    let soon : Snapshot := { now with modes }.stamp 5500000000
    let late : Snapshot := now.stamp 6000000000
    now ≠ soon ∧
      (SnapshotUpload.mk "game" 0 now).toJson.render =
        (SnapshotUpload.mk "game" 0 soon).toJson.render ∧
      (SnapshotUpload.mk "game" 0 now).toJson.render ≠
        (SnapshotUpload.mk "game" 0 late).toJson.render ∧
      (Json.parse? (PlayerScore.mk .first (-0x8000000000000000) 2).toJson.render).map
        PlayerScore.decode = some (.ok ⟨.first, -0x8000000000000000, 2⟩) := by
  obtain ⟨htexts, hscores, -⟩ := SnapshotUpload.text_faithful
  refine ⟨by decide, (htexts _ _).mpr ⟨rfl, rfl, by decide, by decide⟩, fun h => ?_,
    hscores _ (by decide) (by decide)⟩
  obtain ⟨-, -, -, hseconds⟩ := (htexts _ _).mp h
  exact absurd hseconds (by decide)

end ArcadeUplink
