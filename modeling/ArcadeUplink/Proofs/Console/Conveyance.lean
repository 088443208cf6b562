import ArcadeUplink.Proofs.Console.Play
import ArcadeUplink.Proofs.Session.Filing

/-!
# From the tracker to the server

As long as the handshake has not failed, what a tracker has sent of a game is what
the engine recorded of it, and what is pending (`Intact.told`). A game leaves the
ledger only when it is over, and does not come back (`Intact.gone`, `Intact.once`):
the game that is being played is the one that is recorded, and nothing is ever
dropped for its own sake. From this and from what is known of the uploads of a
game that does not come back follows `Play.faithful`: a history that the server has
accepted is the whole story of its game.
-/

namespace ArcadeUplink

namespace Console

open Engine (Transition Run deed? deeds pending program Takes)
open Tracker (Say)
open Deed

/-- What a tale has in common with deeds and with what is pending. -/
structure Intact (ds : List Deed) (t : Tale) (waiting : List Snapshot) : Prop where
  told : ∀ id, t.told id = recordings id ds ++ waiting.filter fun s => s.session = id
  once : ∀ id, Once id ds
  gone : ∀ id, (∃ d ∈ ds, d.removes id = true) → t.Over id ∧ ∀ s ∈ waiting, s.session ≠ id

namespace Intact

variable {ds : List Deed} {d : Deed} {t : Tale} {waiting : List Snapshot} {s : Snapshot}
  {id : String}

theorem start : Intact [] {} [] where
  told _ := rfl
  once _ := .nil
  gone id h := by
    obtain ⟨d, hd, -⟩ := h
    cases hd

/-- **Recorded to the end, told to the end**: if a snapshot in which its game is over was recorded,
then everything that was told of that game was recorded by then. -/
theorem told_of_ended (h : Intact ds t waiting) (ht : t.Coherent) {before after : List Deed}
    (hds : ds = before ++ after) (hlast : (recordings id before).getLast? = some s)
    (hover : s.active = false) :
    t.Over id ∧ t.told id = recordings id before ∧
      waiting.filter (fun s => s.session = id) = [] := by
  have htold := h.told id
  rw [hds, recordings_append, List.append_assoc] at htold
  have hs : s ∈ t.told id := by
    rw [htold]
    exact List.mem_append_left _ (List.mem_of_getLast? hlast)
  have hgame : id ∈ t.games := by
    obtain ⟨hsent, hid⟩ := List.mem_filter.mp hs
    exact of_decide_eq_true hid ▸ ht.known s hsent
  have hrun : ¬t.Running id := fun hrun => by
    obtain ⟨-, -, -, hactive⟩ := ht.opens id hrun
    cases hover.symm.trans (hactive s hs)
  have hends := ht.ends id ⟨hgame, hrun⟩
  rw [htold] at hends
  have hnil := hends.eq_of_prefix hlast hover
  rw [htold, hnil, List.append_nil]
  exact ⟨⟨hgame, hrun⟩, rfl, (List.append_eq_nil_iff.mp hnil).2⟩

theorem say (h : Intact ds t []) (ht : t.Coherent) (x : Say) (hd : (t.add x).games.Nodup) :
    Intact ds (t.add x) (t.tracker.sends x) where
  told id := by
    refine Tale.told_extend.trans ?_
    rw [h.told id]
    exact congrArg (· ++ _) (List.append_nil _)
  once := h.once
  gone id hid := ht.over_add x hd (h.gone id hid).1

theorem record (h : Intact ds t [s]) (ht : t.Coherent) {dropped : Option String}
    (hallowed : Allowed ds (recorded s dropped)) (hlatest : t.sent.getLast? = some s) :
    Intact (ds ++ [recorded s dropped]) t [] where
  told id := by
    rw [h.told id, recordings_append, recordings_cons, recorded?, recordings_nil]
    by_cases hid : s.session = id
    · simp [hid]
    · simp [hid]
  once id := (h.once id).concat fun hleft =>
    if_neg ((h.gone id hleft).2 s (List.mem_singleton_self s))
  gone id hid := by
    obtain ⟨d, hd, hr⟩ := hid
    refine ⟨?_, fun x hx => absurd hx List.not_mem_nil⟩
    rcases List.mem_append.mp hd with hd | hd
    · exact (h.gone id ⟨d, hd, hr⟩).1
    · obtain rfl := List.mem_singleton.mp hd
      obtain rfl : dropped = some id := of_decide_eq_true hr
      obtain ⟨hne, hlife⟩ := hallowed
      obtain ⟨l, hl⟩ := Option.ne_none_iff_exists'.mp (hlife id rfl)
      refine ⟨?_, fun hrun => hne ?_⟩
      · obtain ⟨front, rfl, -⟩ := life_suffix hl
        obtain ⟨x, hx⟩ := List.exists_mem_of_ne_nil _ (recordings_of_life hl)
        have hmem : x ∈ t.told id := by
          rw [h.told id, recordings_append]
          exact List.mem_append_left _ (List.mem_append_right _ hx)
        obtain ⟨hsent, hid⟩ := List.mem_filter.mp hmem
        exact of_decide_eq_true hid ▸ ht.known x hsent
      · obtain ⟨x, hx, rfl⟩ := ht.latest id hrun
        obtain rfl := Option.some.inj (hx.symm.trans hlatest)
        rfl

/-- Something else is done than recording. -/
theorem other (h : Intact ds t waiting) (ht : t.Coherent) (hd : d.isRecorded = false)
    (hl : Lawful (ds ++ [d])) : Intact (ds ++ [d]) t waiting := by
  have hnone : ∀ id, d.recorded? id = none := fun id => by
    cases d <;> first | rfl | cases hd
  refine ⟨?_, fun id => (h.once id).concat fun _ => hnone id, ?_⟩
  · intro id
    rw [h.told id, recordings_append, recordings_cons, hnone id]
    exact congrArg (· ++ _) (List.append_nil _).symm
  · rintro id ⟨e, he, hr⟩
    rcases List.mem_append.mp he with he | he
    · exact h.gone id ⟨e, he, hr⟩
    · obtain rfl := List.mem_singleton.mp he
      cases e with
      | recorded s dropped => cases hd
      | closed j =>
        obtain rfl : j = id := of_decide_eq_true hr
        obtain ⟨u, front, mid, mid', rfl, rfl, ⟨-, hdue, -⟩, -⟩ := hl.closed_origin
        obtain ⟨before, after, l, s, rfl, hlife, hlast, hover, -⟩ := hdue
        obtain ⟨first, rfl, -⟩ := life_suffix hlife
        have hlast' : (recordings u.session (first ++ l)).getLast? = some s := by
          rw [recordings_append, List.getLast?_append, hlast]
          rfl
        obtain ⟨hgone, -, hwaiting⟩ :=
          h.told_of_ended ht (List.append_assoc _ after _) hlast' hover
        refine ⟨hgone, ?_⟩
        intro x hx he
        exact List.filter_eq_nil_iff.mp hwaiting x hx (decide_eq_true he)
      | _ => cases hr

end Intact

/-- What holds of a console after every play, by the deeds of its engine. -/
structure Matched (ds : List Deed) (c : Console) : Prop where
  coherent : c.tale.Coherent
  single : (pending c.system).length ≤ 1
  latest : ∀ s ∈ pending c.system, c.tale.sent.getLast? = some s
  intact : c.system.world.status ≠ .failed → Intact ds c.tale (pending c.system)

variable {ds : List Deed} {s : Setup} {now : Nat} {ts us pre post : List Transition}
  {t : Transition} {c c' : Console} {x : Say} {m m' : Engine.System}

/-- What a tracker makes known is pending if it is a snapshot. -/
theorem pending_callsOf (events : List TrackerEvent) :
    (callsOf events).filterMap Activity.pending? = events.filterMap TrackerEvent.sent? := by
  unfold callsOf
  rw [List.filterMap_filterMap]
  exact congrArg (events.filterMap ·) (funext fun e => by cases e <;> rfl)

theorem pending_of_calls {calls : List Activity}
    (h : m.course? program Activity.isHostCall (calls.map .call) = some (us, m')) :
    m'.world = m.world ∧ pending m' = pending m ++ calls.filterMap Activity.pending? := by
  obtain ⟨rfl, -⟩ := Machine.course?_calls h
  exact ⟨rfl, List.filterMap_append⟩

namespace Matched

theorem opening (h : (Engine.system s now).course? program
      Activity.isHostCall ((callsOf (Tracker.opening s.device.gameCodeVersion)).map .call) =
        some (us, m)) : Matched (deeds us) ⟨{}, m⟩ := by
  obtain ⟨hworld, hpending⟩ := pending_of_calls h
  have hnil : pending m = [] := hpending.trans (pending_callsOf _)
  rw [deeds_of_calls h]
  refine ⟨.start, ?_, ?_, fun _ => ?_⟩
  · rw [hnil]
    exact Nat.zero_le 1
  · rw [hnil]
    intro s hs
    exact absurd hs List.not_mem_nil
  · rw [hnil]
    exact .start

theorem say (h : Matched ds c) (hstep : c.step (.say x) = some (us, c'))
    (hd : c'.tale.games.Nodup) : Matched (ds ++ deeds us) c' := by
  obtain ⟨hidle, htale, hcalls⟩ := step_say hstep
  obtain ⟨hworld, hpending⟩ := pending_of_calls hcalls
  have hsends : pending c'.system = c.tale.tracker.sends x := by
    rw [hpending, hidle, List.nil_append]
    exact pending_callsOf _
  have hone := Tale.length_sends_le_one c.tale.tracker x
  rw [deeds_of_calls hcalls, List.append_nil]
  rw [htale] at hd
  refine ⟨htale ▸ h.coherent.add x hd, hsends ▸ hone, ?_, ?_⟩
  · intro s hs
    rw [hsends] at hs
    obtain ⟨y, hy⟩ : ∃ y, c.tale.tracker.sends x = [y] := by
      refine List.length_eq_one_iff.mp (Nat.le_antisymm hone ?_)
      exact List.length_pos_of_mem hs
    rw [hy, List.mem_singleton] at hs
    rw [htale, Tale.add, hy, hs]
    exact List.getLast?_concat
  · intro hne
    rw [hworld] at hne
    have hintact := h.intact hne
    rw [hidle] at hintact
    rw [hsends, htale]
    exact hintact.say h.coherent x hd

/-- A step of the engine takes nothing or the only snapshot that is pending. -/
theorem eq_of_takes (h : Matched ds c) {x : Snapshot} (hx : Takes c.system m x) :
    pending c.system = [x] ∧ pending m = [] := by
  obtain ⟨before, after, hbefore, hafter⟩ := hx
  have hone := h.single
  rw [hbefore, List.length_append, List.length_cons] at hone
  obtain rfl : before = [] := List.eq_nil_of_length_eq_zero (by omega)
  obtain rfl : after = [] := List.eq_nil_of_length_eq_zero (by omega)
  exact ⟨hbefore, hafter⟩

theorem other (h : Matched ds c) (hsound : Engine.Sound ds c.system)
    {move : Machine.Move Activity Reply} (hstep : c.step (.other move) = some (us, c')) :
    Matched (ds ++ deeds us) c' := by
  obtain ⟨hopen, htale, rfl, events, hevents⟩ := step_other hstep
  have hstatus := hsound.status_step hevents
  have hlawful := (hsound.step (isOpen_of_isBeside hopen) hevents).lawful
  rw [Engine.deeds_singleton]
  obtain ⟨hpending, hdeed⟩ | ⟨y, htakes, hy⟩ :=
    hsound.pending_step hevents (pending?_of_isBeside hopen)
  · refine ⟨htale ▸ h.coherent, hpending ▸ h.single, ?_, ?_⟩
    · rw [hpending, htale]
      exact h.latest
    · intro hne
      have hintact := h.intact (Status.ne_failed_of_follows hstatus hne)
      rw [hpending, htale]
      cases hd : deed? ⟨c.system, move, c'.system⟩ with
      | none =>
        rw [Option.toList_none, List.append_nil]
        exact hintact
      | some d =>
        rw [hd] at hlawful
        exact hintact.other h.coherent (hdeed d hd) hlawful
  · obtain ⟨hbefore, hafter⟩ := h.eq_of_takes htakes
    have hlatest := h.latest y (hbefore ▸ List.mem_singleton_self y)
    refine ⟨htale ▸ h.coherent, ?_, ?_, ?_⟩
    · rw [hafter]
      exact Nat.zero_le 1
    · rw [hafter]
      intro s hs
      exact absurd hs List.not_mem_nil
    · intro hne
      have hintact := h.intact (Status.ne_failed_of_follows hstatus hne)
      rw [hbefore] at hintact
      rw [hafter, htale]
      obtain ⟨-, hempty | hfailed⟩ | ⟨dropped, hd⟩ := hy
      · have hknown := h.coherent.known y (List.mem_of_getLast? hlatest)
        exact absurd (hempty ▸ hknown) h.coherent.named
      · exact absurd hfailed hne
      · rw [hd] at hlawful ⊢
        exact hintact.record h.coherent hlawful.allowed hlatest

end Matched

/-- **After every play** of games with different identifiers, console and deeds match. -/
theorem Play.matched (h : Play s now ts c) (hd : c.tale.games.Nodup) : Matched (deeds ts) c := by
  induction h with
  | opening h => exact .opening h
  | @step ts us c c' move hplay hstep ih =>
    rw [Engine.deeds_append]
    cases move with
    | say x =>
      have hd' : c.tale.games.Nodup := by
        rw [(step_say hstep).2.1] at hd
        exact hd.sublist (List.sublist_append_left _ _)
      exact (ih hd').say hstep hd
    | other move =>
      rw [(step_other hstep).2.1] at hd
      exact (ih hd).other hplay.run.sound hstep

/-- A history tells everything of its game: it is the table of all that was ever sent of it, from
the snapshot with which the game started to the one with which it ended; the server had accepted
the last one before, and it accepts no other history of that game. -/
structure Faithful (t : Tale) (before after : List Deed) (u : HistoryUpload) : Prop where
  whole : u.csv = History.csv (t.told u.session)
  ends : Snapshot.Ends u.session (t.told u.session)
  accepted : ∃ v k, (v, k) ∈ acceptances u.session before ∧
    (t.told u.session).getLast? = some v.data
  only : ∀ v, filed v ∈ before ++ after → v.session ≠ u.session

/-- What holds where a history is filed. -/
theorem Play.at_filed (h : Play s now (pre ++ t :: post) c) (hd : c.tale.games.Nodup)
    {u : HistoryUpload} (ht : deed? t = some (.filed u)) :
    ∃ (c₀ : Console) (words : List Say), c.tale = c₀.tale.addAll words ∧ c₀.tale.Coherent ∧
      Intact (deeds pre) c₀.tale (pending c₀.system) := by
  obtain ⟨c₀, words, hplay, hsystem, htale⟩ := h.before_of_deed ht
  have hd₀ : c₀.tale.games.Nodup := by
    rw [htale] at hd
    exact hd.sublist (Tale.games_addAll c₀.tale words).sublist
  have hmatched := hplay.matched hd₀
  have hrun : Run s now (pre ++ [t] ++ post) c.system := by
    rw [List.append_assoc]
    exact h.run
  obtain ⟨m, hrun'⟩ := hrun.of_append
  have hsettled := Engine.Run.settled_of_filed hrun' ht
  refine ⟨c₀, words, htale, hmatched.coherent, hmatched.intact ?_⟩
  intro hfailed
  rw [← hsystem, hfailed] at hsettled
  revert hsettled
  decide

/-- No history was filed of a game before another one. -/
theorem Play.filed_ne (h : Play s now (pre ++ t :: post) c) (hd : c.tale.games.Nodup)
    {u v : HistoryUpload} (ht : deed? t = some (.filed u)) (hv : filed v ∈ deeds pre) :
    v.session ≠ u.session := by
  obtain ⟨c₀, words, -, -, hintact⟩ := h.at_filed hd ht
  have hlawful := h.run.sound.lawful
  rw [Engine.deeds_append, Engine.deeds_cons, ht] at hlawful
  exact hlawful.filed_once (hintact.once u.session) hv

/-- No other history was filed of a game, and none will be. -/
theorem Play.filed_only (h : Play s now (pre ++ t :: post) c) (hd : c.tale.games.Nodup)
    {u v : HistoryUpload} (ht : deed? t = some (.filed u))
    (hv : filed v ∈ deeds pre ++ deeds post) : v.session ≠ u.session := by
  rcases List.mem_append.mp hv with hv | hv
  · exact h.filed_ne hd ht hv
  · obtain ⟨a, b, hab⟩ := List.append_of_mem hv
    obtain ⟨pre', t', post', rfl, -, ht', -⟩ := Engine.exists_of_deeds_eq hab
    rw [← List.cons_append, ← List.append_assoc] at h
    have hu : filed u ∈ deeds (pre ++ t :: pre') := by
      rw [Engine.deeds_append, Engine.deeds_cons, ht]
      exact List.mem_append_right _ List.mem_cons_self
    exact (h.filed_ne hd ht' hu).symm

/-- The game that is being played is not dropped for the sake of another: the others are over. -/
theorem Play.not_running_of_dropped (h : Play s now ts c) (hd : c.tale.games.Nodup) {move : Move}
    {y : Snapshot} {id : String} (hstep : c.step move = some (us, c'))
    (hy : recorded y (some id) ∈ deeds us) : ¬c.tale.Running id := by
  have hmatched := h.matched hd
  have hsound := h.run.sound
  cases move with
  | say x =>
    rw [deeds_of_calls (step_say hstep).2.2] at hy
    exact absurd hy List.not_mem_nil
  | other move =>
    obtain ⟨hopen, -, rfl, events, hevents⟩ := step_other hstep
    rw [Engine.deeds_singleton, Option.mem_toList] at hy
    have hlawful := (hsound.step (isOpen_of_isBeside hopen) hevents).lawful
    rw [hy] at hlawful
    obtain ⟨hne, -⟩ := hlawful.allowed
    obtain ⟨-, hdeed⟩ | ⟨z, htakes, ⟨hnone, -⟩ | ⟨dropped, hz⟩⟩ :=
      hsound.pending_step hevents (pending?_of_isBeside hopen)
    · cases hdeed _ hy
    · cases hy.symm.trans hnone
    · cases hy.symm.trans hz
      intro hrun
      obtain ⟨hpending, -⟩ := hmatched.eq_of_takes htakes
      have hlatest := hmatched.latest y (hpending ▸ List.mem_singleton_self y)
      obtain ⟨x, hx, rfl⟩ := hmatched.coherent.latest id hrun
      cases hx.symm.trans hlatest
      exact hne rfl

/-- **A history is the whole story of its game.** In every play of a console in which no two games
go by one identifier, whatever else the host calls, whatever the server replies and in whatever
order the steps come: a history that the server accepts is that of everything the tracker ever sent
of its game, from the start to the end of it; the server had accepted the last snapshot before; and
it accepts no other history of that game. And the game that is being played is never the one that is
dropped for the sake of another. -/
theorem Play.faithful (h : Play s now ts c) (hd : c.tale.games.Nodup) :
    (∀ pre t post u, ts = pre ++ t :: post → deed? t = some (.filed u) →
        Faithful c.tale (deeds pre) (deeds post) u) ∧
      ∀ move us c' y id, c.step move = some (us, c') → recorded y (some id) ∈ deeds us →
        ¬c.tale.Running id := by
  constructor
  · rintro pre t post u rfl ht
    obtain ⟨c₀, words, htale, hcoherent, hintact⟩ := h.at_filed hd ht
    have hlawful := h.run.sound.lawful
    rw [Engine.deeds_append, Engine.deeds_cons, ht] at hlawful
    obtain ⟨before, mid, after, last, hpre, hlast, hover, ⟨v, k, hv, rfl⟩, hcsv⟩ :=
      hlawful.filed_origin (hintact.once u.session)
    obtain ⟨hgone, htold, -⟩ :=
      hintact.told_of_ended hcoherent (hpre.trans (List.append_assoc ..)) hlast hover
    have hsame : c.tale.told u.session = c₀.tale.told u.session := by
      rw [htale] at hd ⊢
      exact hcoherent.told_addAll hd hgone
    -- nothing was recorded between the last snapshot and the writing of the history
    have hmid : recordings u.session mid = [] := by
      have hall := hintact.told u.session
      rw [htold, hpre, recordings_append, recordings_append, List.append_assoc,
        List.append_assoc] at hall
      exact (List.append_eq_nil_iff.mp (List.self_eq_append_right.mp hall)).1
    refine ⟨?_, ?_, ⟨v, k, ?_, ?_⟩, fun w hw => h.filed_only hd ht hw⟩
    · rw [hsame, htold, hcsv, recordings_append, hmid, List.append_nil]
    · exact hsame ▸ hcoherent.ends _ hgone
    · rw [hpre, acceptances_append, acceptances_append]
      exact List.mem_append_left _ (List.mem_append_left _ hv)
    · rw [hsame, htold, hlast]
  · intro move us c' y id hstep hy
    exact h.not_running_of_dropped hd hstep hy

/-- The device signs in, and both of its reports are sent. -/
def Sample.arrive : List (Machine.Move Activity Reply) :=
  .call .startUp :: List.replicate 2 (.caller 3 none) ++ List.replicate 4 (.caller 0 none) ++
    Engine.Sample.signIn ++ [.worker 0 none, .worker 0 none, .worker 0 (some .accepted), .next 0,
      .worker 0 none, .worker 0 none, .worker 0 (some .accepted), .next 0]

/-- A game is started and finished, and uploaded with its history. -/
def Sample.game : List Move :=
  Sample.arrive.map Move.other ++
    .say (0, .start (.random [])) :: List.replicate 4 (.other (.caller 0 none)) ++
    .say (1, .finish) :: List.replicate 2 (.other (.caller 0 none)) ++
    (Engine.Sample.beginUpload ++ Engine.Sample.accept 4 ++ Engine.Sample.accept 1).map Move.other

set_option maxRecDepth 100000 in
/-- A play in which a history is accepted. -/
theorem a_faithful_history :
    ∃ ts c pre t post u, Play Engine.Sample.setup 0 ts c ∧ c.tale.games.Nodup ∧
      ts = pre ++ t :: post ∧ deed? t = some (.filed u) ∧
      Faithful c.tale (deeds pre) (deeds post) u := by
  have hgame : (play? Engine.Sample.setup 0 Sample.game).any (fun x =>
      decide x.2.tale.games.Nodup && x.1.any fun t => (deed? t).any Deed.isFiled) = true := by
    decide +kernel
  obtain ⟨ts, c, hplay, hfound⟩ := exists_play hgame
  simp only [Bool.and_eq_true, decide_eq_true_eq] at hfound
  obtain ⟨t, ht, hfiled⟩ := List.any_eq_true.mp hfound.2
  obtain ⟨pre, post, hts⟩ := List.append_of_mem ht
  obtain ⟨d, hd, hfiled⟩ := (Option.any_eq_true _ _).mp hfiled
  obtain ⟨u, rfl⟩ := Deed.exists_of_isFiled hfiled
  exact ⟨ts, c, pre, t, post, u, hplay, hfound.1, hts, hd,
    (Play.faithful hplay hfound.1).1 pre t post u hts hd⟩

end Console

end ArcadeUplink
