import ArcadeUplink.Proofs.Session.Edits
import ArcadeUplink.Proofs.Session.UnderWay

/-!
# When a snapshot is accepted twice

An upload sends whatever is latest, without asking whether the server has it
already. What guards against a second upload of one revision are the flag of the
game and the number that is delivered, and neither says that an upload is under
way: the flag was lowered when it began, and nothing is delivered before it is
accepted. So a look through the ledger that comes just then queues the revision
once more.

`Run.repeated_iff` says that this is the only way. For a game that never leaves
the ledger an accepted upload repeats a revision just if the game counted as
delivered when it was begun; and then a look through the ledger overtook an upload
of that revision. The invariant is `Explained`: a raised flag that is not needed
was raised by such a look.
-/

namespace ArcadeUplink

open Deed

namespace Engine

variable {now : Nat} {self : Option Nat} {e : Engine} {p : Workers} {a : Activity}
  {reply : Option Reply} {r : Result} {id : String} {k : Nat}

/-! ## What becomes of a record -/

/-- What a step of an activity makes of the record of a game, as far as its revisions and the flag
of its uploads go. -/
inductive Turned (id : String) (now : Nat) (l : Ledger) (a : Activity) (x' : GameRecord) : Prop
  | left {x : GameRecord} : l.get? id = some x → x'.revision = x.revision →
      x'.delivered = x.delivered → (x'.uploadQueued = true → x.uploadQueued = true) →
      (a = .upload id → x'.uploadQueued = false) → Turned id now l a x'
  | recorded {s : Snapshot} : a = .record s → s.session = id →
      x' = ((l.get? id).getD { startedAt := now }).add s → Turned id now l a x'
  | told {x : GameRecord} {k : Nat} : a = .acknowledge id k → l.get? id = some x →
      x'.revision = x.revision → x'.delivered = max x.delivered k →
      x'.uploadQueued = x.uploadQueued → Turned id now l a x'
  | requeued {x : GameRecord} : a = .scanLedger → l.get? id = some x →
      Ledger.needsUpload x = true → x'.revision = x.revision → x'.delivered = x.delivered →
      Turned id now l a x'

namespace Turned

variable {l l' : Ledger} {x' : GameRecord}

theorem same (h : l.get? id = some x') (ha : a ≠ .upload id) : Turned id now l a x' :=
  .left h rfl rfl (fun hq => hq) fun he => absurd he ha

theorem lower {k : Sending} {j : String} (h : SortedMap.get? (l.lower k j) id = some x')
    (ha : a = .upload id → k = .snapshot ∧ j = id) : Turned id now l a x' := by
  rw [Ledger.lower, Ledger.get?_modify] at h
  obtain ⟨x, hx, rfl⟩ := Option.map_eq_some_iff.mp h
  refine .left hx ?_ ?_ ?_ ?_
  · split
    · cases k <;> rfl
    · rfl
  · split
    · cases k <;> rfl
    · rfl
  · split
    · cases k with
      | snapshot => exact fun hq => absurd hq Bool.false_ne_true
      | history => exact fun hq => hq
    · exact fun hq => hq
  · intro he
    obtain ⟨rfl, rfl⟩ := ha he
    rw [if_pos rfl]
    rfl

theorem acknowledge {j : String} {i : Nat}
    (h : (l.acknowledge j i).2.get? id = some x') : Turned id now l (.acknowledge j i) x' := by
  rw [Ledger.acknowledge, Ledger.get?_modify] at h
  obtain ⟨x, hx, rfl⟩ := Option.map_eq_some_iff.mp h
  by_cases hj : j = id
  · subst hj
    rw [if_pos rfl]
    unfold Ledger.accepted
    dsimp only
    split <;> exact .told rfl hx rfl rfl rfl
  · rw [if_neg hj]
    exact .same hx (by simp)

theorem scan (h : l.retry.2.2.get? id = some x') : Turned id now l .scanLedger x' := by
  have hget : l.retry.2.2.get? id = (l.get? id).map Ledger.requeued := SortedMap.get?_mapValues ..
  rw [hget] at h
  obtain ⟨x, hx, rfl⟩ := Option.map_eq_some_iff.mp h
  unfold Ledger.requeued
  split
  · next hneeds => exact .requeued rfl hx hneeds rfl rfl
  · split
    · exact .left hx rfl rfl (fun hq => hq) nofun
    · exact .same hx nofun

theorem record {s : Snapshot} (h : (l.record now s).ledger.get? id = some x') :
    Turned id now l (.record s) x' := by
  rw [Ledger.get?_record] at h
  split at h
  · cases h
  · split at h
    · next hid =>
      subst hid
      exact .recorded rfl rfl (Option.some.inj h).symm
    · exact .same h nofun

end Turned

theorem turned (h : program.act now self e p a reply = some r) {x' : GameRecord}
    (hx : r.world.ledger.get? id = some x') : Turned id now e.ledger a x' := by
  rw [act_ledger h] at hx
  cases a with
  | record s => exact .record hx
  | upload j =>
    refine .lower (k := .snapshot) hx fun he => ?_
    cases he
    exact ⟨rfl, rfl⟩
  | withdrawUpload j uploads histories => exact .lower (k := .snapshot) hx nofun
  | history j => exact .lower (k := .history) hx nofun
  | withdrawHistory j histories => exact .lower (k := .history) hx nofun
  | scanLedger => exact .scan hx
  | acknowledge j i => exact .acknowledge hx
  | close j =>
    have hget := SortedMap.get?_erase e.ledger j id
    refine .same ?_ nofun
    split at hget
    · cases hx.symm.trans hget
    · exact hget.symm.trans hx
  | _ => exact .same hx nofun

/-! ## Flags that are not needed -/

variable {s : Setup} {start : Nat} {ts pre post : List Transition} {t : Transition} {m : System}
  {x : GameRecord} {u : SnapshotUpload}

/-- For a game that stays the revision of its record counts what was recorded. -/
theorem Run.revision_of_stays (h : Run s start ts m) (hstays : Stays id ts) (now : Nat) :
    ((m.world.ledger.get? id).getD { startedAt := now }).revision =
        (recordings id (deeds ts)).length ∧
      ((m.world.ledger.get? id).getD { startedAt := now }).delivered ≤
        (recordings id (deeds ts)).length := by
  have hremoves := h.removes_of_stays hstays
  cases hx : m.world.ledger.get? id with
  | none =>
    have hlife := h.sound.kept.life_eq_none.mpr hx
    rw [recordings_of_life_eq_none hremoves hlife]
    exact ⟨rfl, Nat.le_refl 0⟩
  | some x =>
    obtain ⟨l, hlife, hacc⟩ := h.sound.kept.account hx
    rw [← (h.sound.lawful.life_of_stays hremoves hlife).1, ← hacc.revision]
    exact ⟨rfl, (h.delivered_of_stays hx hremoves).1⟩

/-- **A look through the ledger overtakes an upload**: it finds that a game is not delivered and not
queued, and queues it, while an upload of its latest revision is under way. -/
def Overtakes (id : String) (k : Nat) (t : Transition) : Prop :=
  (∃ v, t.turn? = some v ∧ v.activity = .scanLedger) ∧ UnderWay id k t.before ∧
    ∃ x, t.before.world.ledger.get? id = some x ∧ Ledger.needsUpload x = true ∧ x.revision = k

/-- A raised flag is explained if the revision it stands for was overtaken, should it be delivered
or under way. -/
def Explained (id : String) (ts : List Transition) (m : System) : Prop :=
  ∀ x, m.world.ledger.get? id = some x → x.uploadQueued = true →
    (x.delivered = x.revision ∨ UnderWay id x.revision m) → ∃ t ∈ ts, Overtakes id x.revision t

theorem Run.explained_step (h : Run s start (pre ++ t :: post) m) (hstays : Stays id pre)
    (hexplained : Explained id pre t.before) : Explained id (pre ++ [t]) t.after := by
  obtain ⟨hpre, events, hstep⟩ := h.before
  have hsound := hpre.sound
  intro x' hx' hqueued hor
  -- a record of before that stands for the same revision explains the one of now
  have hbefore : ∀ x, t.before.world.ledger.get? id = some x → x'.revision = x.revision →
      x.uploadQueued = true → (x.delivered = x.revision ∨ UnderWay id x.revision t.before) →
      ∃ u ∈ pre ++ [t], Overtakes id x'.revision u := by
    intro x hx hrevision hq ho
    obtain ⟨u, hu, hover⟩ := hexplained x hx hq ho
    exact ⟨u, List.mem_append_left _ hu, hrevision ▸ hover⟩
  cases hv : t.turn? with
  | none =>
    rw [(h.idle hv).2.2] at hx'
    refine hbefore x' hx' rfl hqueued (hor.imp_right fun hunder => ?_)
    obtain hunder | ⟨v, hv', -⟩ := hsound.underWay_step hstep hunder
    · exact hunder
    · cases hv.symm.trans hv'
  | some v =>
    have hunder : v.activity ≠ .upload id → UnderWay id x'.revision t.after →
        UnderWay id x'.revision t.before := by
      intro hne hm'
      obtain hm | ⟨v', hv', hup⟩ := hsound.underWay_step hstep hm'
      · exact hm
      · cases hv.symm.trans hv'
        exact absurd hup hne
    obtain ⟨self, e, he, hworld, -⟩ := Machine.step_turn hstep hv
    rw [hworld] at hx'
    cases turned he hx' with
    | @left x hx hrevision hdelivered hq hdown =>
      have hne : v.activity ≠ .upload id := by
        intro hup
        rw [hdown hup] at hqueued
        cases hqueued
      refine hbefore x hx hrevision (hq hqueued) ?_
      rw [← hrevision, ← hdelivered]
      exact hor.imp_right (hunder hne)
    | @recorded s ha hid heq =>
      exfalso
      obtain ⟨hrevision, hdelivered⟩ := hpre.revision_of_stays hstays t.before.now
      have hnext : x'.revision = (recordings id (deeds pre)).length + 1 := by
        rw [heq, ← hrevision]
        rfl
      obtain hd | hm' := hor
      · have hsame : x'.delivered ≤ (recordings id (deeds pre)).length := heq ▸ hdelivered
        omega
      · have hne : v.activity ≠ .upload id := by
          rw [ha]
          exact nofun
        have := hsound.le_of_underWay (hpre.removes_of_stays hstays) (hunder hne hm')
        omega
    | @told x k ha hx hrevision hdelivered hq =>
      have hne : v.activity ≠ .upload id := by
        rw [ha]
        exact nofun
      refine hbefore x hx hrevision (hq ▸ hqueued) ?_
      obtain hd | hm' := hor
      · rw [hdelivered, hrevision] at hd
        obtain hx' | hk : x.delivered = x.revision ∨ k = x.revision := by omega
        · exact .inl hx'
        · refine .inr (hsound.underWay_of_turn hstep hv ?_)
          rw [ha, ← hk]
          rfl
      · exact .inr (hrevision ▸ hunder hne hm')
    | @requeued x ha hx hneeds hrevision hdelivered =>
      have hne : v.activity ≠ .upload id := by
        rw [ha]
        exact nofun
      obtain hd | hm' := hor
      · rw [hdelivered, hrevision] at hd
        exact absurd hd (of_decide_eq_false (Ledger.of_needsUpload hneeds).1)
      · exact ⟨_, List.mem_append_right _ List.mem_cons_self, ⟨v, hv, ha⟩, hunder hne hm', x, hx,
          hneeds, hrevision.symm⟩

/-- **Only a look through the ledger raises a flag that is not needed.** -/
theorem Run.explained (h : Run s start ts m) (hstays : Stays id ts) : Explained id ts m := by
  induction h with
  | start => exact fun x hx => nomatch hx
  | @step ts m m' move events hts hopen hstep ih =>
    have hrun : Run s start (ts ++ ⟨m, move, m'⟩ :: []) m' := .step hts hopen hstep
    exact hrun.explained_step hstays.of_append (ih hstays.of_append)

/-! ## Repeats -/

/-- Whoever is about to begin an upload finds the flag of its game raised. -/
theorem Run.queued_of_turn (h : Run s start ts t.before) (hstays : Stays id ts)
    (hstep : t.before.step program t.move = some (t.after, events))
    {v : Machine.Turn Activity Reply} (hv : t.turn? = some v) (ha : v.activity = .upload id)
    (hx : t.before.world.ledger.get? id = some x) : x.uploadQueued = true := by
  obtain ⟨self, e, others, -, -, -, hbefore, -⟩ :=
    Machine.stock_turn act_uses hstep hv .gameData
  have hcount := ((h.balanced hstays).perm hbefore) .snapshot
  rw [Ledger.raised_of_get? hx, ha, List.flatMap_cons, List.count_append] at hcount
  have hone : (Sending.games .snapshot (.upload id)).count id = 1 := List.count_singleton_self
  rw [hone] at hcount
  cases hq : x.uploadQueued with
  | true => rfl
  | false =>
    have hzero : (Sending.flag .snapshot x).toNat = 0 := congrArg _ hq
    omega

/-- A game that stays counts as delivered once the ledger was told of its latest revision. -/
theorem Run.isDelivered_iff (h : Run s start ts m) (hstays : Stays id ts)
    (hx : m.world.ledger.get? id = some x) :
    x.isDelivered = true ↔ x.revision ∈ acknowledgements id (deeds ts) := by
  have hremoves := h.removes_of_stays hstays
  obtain ⟨l, hlife, hacc⟩ := h.sound.kept.account hx
  rw [← (h.sound.lawful.life_of_stays hremoves hlife).2, mem_acknowledgements]
  unfold GameRecord.isDelivered
  rw [decide_eq_true_eq]
  constructor
  · intro hd
    rw [hacc.revision]
    rw [hacc.delivered, hacc.revision] at hd
    exact acknowledged_of_delivered hacc.latest hd
  · intro hk
    refine Nat.le_antisymm (h.delivered_of_stays hx hremoves).1 ?_
    rw [hacc.delivered]
    exact delivered_le_iff.mp (Nat.le_refl _) _ hk

theorem turn_of_begun (h : deed? t = some (.begun u k)) :
    ∃ v, t.turn? = some v ∧ v.activity = .upload u.session ∧
      ∃ x, t.before.world.ledger.get? u.session = some x ∧ x.revision = k := by
  obtain ⟨v, hv, hd⟩ := Option.bind_eq_some_iff.mp h
  refine ⟨v, hv, ?_⟩
  unfold Deed.of? at hd
  split at hd
  · cases hd
  · next j reply ha =>
    obtain ⟨⟨u', k'⟩, hu', heq⟩ := Option.map_eq_some_iff.mp hd
    cases heq
    obtain ⟨x, hx, heq⟩ := Option.map_eq_some_iff.mp hu'
    cases heq
    exact ⟨ha, x, hx, rfl⟩
  all_goals
    first
      | cases hd
      | (obtain ⟨w, hw⟩ := Option.map_eq_some_iff.mp hd
         cases hw.2)

/-- **When a snapshot is accepted twice.** Take any run, a game that stays in the ledger from its
first snapshot on, and an upload of it that the server accepts. The upload was begun with the
latest revision of the game, and it repeats one that was accepted before just if the game counted
as delivered already when it was begun; nobody asks. And that can only be if a look through the
ledger had overtaken an upload of that revision. -/
theorem Run.repeated_iff (h : Run s start (pre ++ t :: post) m)
    (hstays : Stays id (pre ++ t :: post)) (ht : deed? t = some (.accepted u k))
    (hu : u.session = id) :
    ∃ pre₁ b mid x, pre = pre₁ ++ b :: mid ∧ deed? b = some (.begun u k) ∧
      b.before.world.ledger.get? id = some x ∧ x.revision = k ∧
      ((∃ v, (v, k) ∈ acceptances id (deeds pre)) ↔ x.isDelivered = true) ∧
      (x.isDelivered = true → ∃ o ∈ pre₁, Overtakes id k o) := by
  obtain ⟨pre₁, b, mid, x, rfl, hb, hx, -, -, hmid⟩ := h.begun_of_accepted hstays ht hu
  have hstays₁ : Stays id pre₁ := hstays.of_append.of_append
  obtain ⟨hrun, events, hstep⟩ : Run s start pre₁ b.before ∧
      ∃ events, b.before.step program b.move = some (b.after, events) := by
    rw [List.append_assoc, List.cons_append, ← List.singleton_append, ← List.append_assoc] at h
    obtain ⟨m', h'⟩ := h.of_append
    obtain ⟨hrun, -, -, hstep⟩ := h'.of_concat
    exact ⟨hrun, hstep⟩
  obtain ⟨v, hv, ha, x', hx', hk⟩ := turn_of_begun hb
  subst hu
  cases hx.symm.trans hx'
  have hsound := hrun.sound
  have hrest : Rested (deeds pre₁) := by
    obtain ⟨m', h'⟩ := h.of_append
    have hlawful := (Run.sound h').lawful
    rw [deeds_append, deeds_cons, hb] at hlawful
    exact hlawful.allowed.1
  have haccs : acceptances u.session (deeds (pre₁ ++ b :: mid)) =
      acceptances u.session (deeds pre₁) := by
    rw [deeds_append, deeds_cons, hb, acceptances_append, acceptances_append, hmid]
    exact List.append_nil _
  refine ⟨pre₁, b, mid, x, rfl, hb, hx, hk, ?_, ?_⟩
  · rw [haccs, hrun.isDelivered_iff hstays₁ hx, hk]
    exact ⟨fun ⟨w, hw⟩ => hsound.lawful.acknowledged_of_accepted hrest hw,
      fun hk => hsound.lawful.accepted_of_acknowledged hk⟩
  · intro hd
    have hqueued := hrun.queued_of_turn hstays₁ hstep hv ha hx
    rw [← hk]
    exact hrun.explained hstays₁ x hx hqueued (.inl (of_decide_eq_true hd))

namespace Sample

/-- The other worker sends a heartbeat and looks through the ledger. -/
def overtake : List (Machine.Move Activity Reply) :=
  [.call (.requestBeat false), .caller 0 none, .caller 0 none, .take 1, .next 1] ++
    List.replicate 4 (.worker 1 none) ++ [.worker 1 (some (.beaten { players := none }))] ++
    List.replicate 4 (.worker 1 none)

/-- The one snapshot of a game. -/
def only : Snapshot := { active := true, session := "game" }

/-- A heartbeat overtakes an upload, and the upload that it leads to is accepted too. -/
def overtaken : List (Machine.Move Activity Reply) :=
  arrive ++ signIn ++ send only ++ beginUpload ++ overtake ++ accept 1 ++ [.next 0] ++
    List.replicate 3 (.worker 0 none) ++ accept 0

/-- The upload of that snapshot with a number. -/
def upload (counter : Nat) : SnapshotUpload := ⟨"game", counter, only⟩

end Sample

set_option maxRecDepth 100000 in
/-- **A run in which a snapshot is accepted twice**, with the numbers 0 and 1. -/
theorem accepted_twice :
    ∃ pre t post m, Run Sample.pair 0 (pre ++ t :: post) m ∧ Stays "game" (pre ++ t :: post) ∧
      deed? t = some (.accepted (Sample.upload 1) 1) ∧
      (Sample.upload 0, 1) ∈ acceptances "game" (deeds pre) ∧ ∃ o ∈ pre, Overtakes "game" 1 o := by
  have hcourse : ((system Sample.pair 0).course? program Activity.isHostCall
      Sample.overtaken).any
      (fun x => decide (Stays "game" x.1) && decide (deeds x.1 =
        [.recorded Sample.only none, .begun (Sample.upload 0) 1, .accepted (Sample.upload 0) 1,
          .acknowledged "game" 1, .begun (Sample.upload 1) 1] ++
            .accepted (Sample.upload 1) 1 :: [])) = true := by
    decide +kernel
  obtain ⟨ts, m, hrun, hfound⟩ := Machine.exists_course hcourse
  simp only [Bool.and_eq_true, decide_eq_true_eq] at hfound
  obtain ⟨hstays, hdeeds⟩ := hfound
  obtain ⟨pre, t, post, rfl, hpre, ht, -⟩ := exists_of_deeds_eq hdeeds
  have hfirst : (Sample.upload 0, 1) ∈ acceptances "game" (deeds pre) := by
    rw [hpre]
    exact mem_acceptances.mpr ⟨by simp, rfl⟩
  obtain ⟨pre₁, b, mid, x, rfl, -, -, -, hiff, hover⟩ := Run.repeated_iff hrun hstays ht rfl
  obtain ⟨o, ho, hovertakes⟩ := hover (hiff.mp ⟨_, hfirst⟩)
  exact ⟨_, t, post, m, hrun, hstays, ht, hfirst, o, List.mem_append_left _ ho, hovertakes⟩

end Engine

end ArcadeUplink
