import ArcadeUplink.Proofs.Game.Tale
import Mathlib.Data.List.Chain
import Mathlib.Data.List.Induction

/-!
# The chapters of a tale

What a tracker sends falls into chapters, one for each game that is started and in
that order: the snapshot with which the game starts, others in which it is played,
and one in which it is over as soon as the host has finished it. No snapshot is
sent twice in a row, and none with the change flag of its modes raised. What the
host says while no game is played is never sent, and what makes no sense is ignored
(`Tale.in_chapters`).
-/

namespace ArcadeUplink

open Tracker (Say)

/-! ## Edits -/

namespace Modes

variable {m : Modes} {name : String}

theorem add_named (h : "" ∉ m.names) (hname : name ≠ "") : "" ∉ (m.add name).2.names := by
  unfold add
  split
  · exact h
  · intro hmem
    rcases List.mem_append.mp hmem with hmem | hmem
    · exact h hmem
    · exact hname (List.mem_singleton.mp hmem).symm

theorem remove_named (h : "" ∉ m.names) (name : String) : "" ∉ (m.remove name).2.names := by
  unfold remove
  split
  · exact fun hmem => h (List.mem_of_mem_erase hmem)
  · exact h

theorem clear_named (h : "" ∉ m.names) : "" ∉ m.clear.2.names := by
  unfold clear
  split
  · exact h
  · exact List.not_mem_nil

end Modes

namespace Tracker

namespace Operation

/-- Whether an operation makes no sense: its number is none of a player or of a ball, or its mode
has no name. -/
def isVoid : Operation → Bool
  | setBall n | setActivePlayer n | setScore n _ _ => n = 0 || 9 < n
  | addMode name | removeMode name => name = ""
  | _ => false

end Operation

variable {t u : Tracker} {now : Timestamp} {op : Operation} {x : Say}

/-- A game that is played goes on unless it is finished. -/
theorem perform_alike (h : t.current.active = true) (hop : op ≠ .finish) :
    (t.perform now op).1.current.Alike t.current := by
  cases op with
  | start id => exact (t.start_quiet now id h).alike
  | finish => exact absurd rfl hop
  | commit =>
    show (t.commit now).1.current.Alike t.current
    unfold commit
    split <;> exact ⟨rfl, rfl⟩
  | _ => exact (t.perform_quiet now rfl).alike

/-- No mode without a name is ever on. -/
theorem perform_named (h : "" ∉ t.current.modes.names) :
    "" ∉ (t.perform now op).1.current.modes.names := by
  have hensure (s : Snapshot) (p : PlayerNumber) : (s.ensurePlayer p).2.modes = s.modes := by
    unfold Snapshot.ensurePlayer
    split <;> rfl
  cases op with
  | start id =>
    show "" ∉ (t.start now id).1.current.modes.names
    unfold start
    split
    · exact h
    · exact List.not_mem_nil
  | finish =>
    show "" ∉ (t.finish now).1.current.modes.names
    unfold finish
    split
    · exact h
    · exact List.not_mem_nil
  | commit =>
    show "" ∉ (t.commit now).1.current.modes.names
    unfold commit
    split <;> exact h
  | setBall n =>
    show "" ∉ (t.setBall n).1.current.modes.names
    unfold setBall
    split <;> exact h
  | setActivePlayer n =>
    show "" ∉ (t.setActivePlayer n).1.current.modes.names
    unfold setActivePlayer
    split
    · next p _ =>
      show "" ∉ (t.current.ensurePlayer p).2.modes.names
      rwa [hensure]
    · exact h
  | setScore n score feature =>
    show "" ∉ (t.setScore n score feature).1.current.modes.names
    unfold setScore
    split
    · next p _ =>
      show "" ∉ (t.current.ensurePlayer p).2.modes.names
      rwa [hensure]
    · exact h
  | addMode name =>
    show "" ∉ (t.addMode name).1.current.modes.names
    unfold addMode
    split
    · exact h
    · next hname => exact Modes.add_named h hname
  | removeMode name => exact Modes.remove_named h name
  | clearModes => exact Modes.clear_named h

/-- **What makes no sense** leaves the tracker as it is, change flag and all. -/
theorem perform_void (h : op.isVoid = true) (hmodes : "" ∉ t.current.modes.names) :
    (t.perform now op).1 = t := by
  have hnumber {n : Nat} (hn : (n = 0 || 9 < n) = true) : ¬isGameNumber n = true := by
    simp only [isGameNumber, Bool.or_eq_true, Bool.and_eq_true, decide_eq_true_eq] at hn ⊢
    omega
  have hplayer {n : Nat} (hn : (n = 0 || 9 < n) = true) : PlayerNumber.ofNat? n = none :=
    if_neg (hnumber hn)
  have hball {n : Nat} (hn : (n = 0 || 9 < n) = true) : BallNumber.ofNat? n = none :=
    if_neg (hnumber hn)
  cases op with
  | setBall n =>
    show (t.setBall n).1 = t
    unfold setBall
    rw [hball h]
  | setActivePlayer n =>
    show (t.setActivePlayer n).1 = t
    unfold setActivePlayer
    rw [hplayer h]
  | setScore n score feature =>
    show (t.setScore n score feature).1 = t
    unfold setScore
    rw [hplayer h]
  | addMode name =>
    show (t.addMode name).1 = t
    unfold addMode
    rw [if_pos (of_decide_eq_true h)]
  | removeMode name =>
    have hname : name = "" := of_decide_eq_true h
    have hcontains : t.current.modes.contains name = false :=
      Bool.eq_false_iff.mpr fun hmem => hmodes (hname ▸ List.contains_iff_mem.mp hmem)
    show (t.removeMode name).1 = t
    unfold removeMode editModes Modes.remove
    rw [hcontains]
    rfl
  | _ => cases h

/-- Whether no game is played, and none is known. -/
def Idle (t : Tracker) : Prop := t.current.active = false ∧ t.current.session = ""

/-- Two trackers that send the same from now on, whatever the host says. -/
def Agree (t u : Tracker) : Prop := t = u ∨ (t.Idle ∧ u.Idle)

/-- A quiet operation leaves an idle tracker idle. -/
theorem Idle.quiet {r : Tracker × List TrackerEvent} (ht : t.Idle) (h : t.Quiet r) : r.1.Idle :=
  ⟨h.alike.1.trans ht.1, h.alike.2.trans ht.2⟩

/-- **Between games only the next start counts**: trackers that agree send the same and start the
same game, and agree again. -/
theorem Agree.perform (h : t.Agree u) (x : Say) :
    t.sends x = u.sends x ∧ t.begins? x.2 = u.begins? x.2 ∧
      (t.perform x.1 x.2).1.Agree (u.perform x.1 x.2).1 := by
  rcases h with rfl | ⟨ht, hu⟩
  · exact ⟨rfl, rfl, .inl rfl⟩
  obtain ⟨now, op⟩ := x
  have hquiet (htq : t.Quiet (t.perform now op)) (huq : u.Quiet (u.perform now op)) :
      t.sends (now, op) = u.sends (now, op) ∧
        (t.perform now op).1.Agree (u.perform now op).1 :=
    ⟨htq.silent.trans huq.silent.symm, .inr ⟨ht.quiet htq, hu.quiet huq⟩⟩
  cases op with
  | start id =>
    have hstart : t.start now id = u.start now id := by
      unfold start
      rw [ht.1, hu.1]
      rfl
    have hbegins : t.begins? (.start id) = u.begins? (.start id) := by
      unfold begins?
      rw [ht.1, hu.1]
    exact ⟨congrArg (fun r => r.2.filterMap TrackerEvent.sent?) hstart, hbegins,
      .inl (congrArg Prod.fst hstart)⟩
  | finish =>
    obtain ⟨hsends, hagree⟩ := hquiet (t.finish_quiet now ht.2) (u.finish_quiet now hu.2)
    exact ⟨hsends, rfl, hagree⟩
  | commit =>
    have hcommit {v : Tracker} (hv : v.Idle) :
        (!v.current.active || v.current.same v.previous) = true := by rw [hv.1]; rfl
    obtain ⟨hsends, hagree⟩ :=
      hquiet (t.commit_quiet now (hcommit ht)) (u.commit_quiet now (hcommit hu))
    exact ⟨hsends, rfl, hagree⟩
  | _ =>
    obtain ⟨hsends, hagree⟩ := hquiet (t.perform_quiet now rfl) (u.perform_quiet now rfl)
    exact ⟨hsends, rfl, hagree⟩

end Tracker

/-! ## Sayings -/

theorem Snapshot.same_of_active_ne {s u : Snapshot} (h : s.active ≠ u.active) :
    s.same u = false := by
  simp [same, h]

namespace Tale

/-- What comes of everything that the host says to a new tracker. -/
def of (xs : List Say) : Tale := addAll {} xs

/-- Whether the host finished a game, which it did while the game was being played. -/
def Finished (xs : List Say) (id : String) : Prop :=
  ∃ pre now post, xs = pre ++ (now, .finish) :: post ∧ (of pre).Running id

variable {t t' : Tale} {tr : Tracker} {sends : List Snapshot} {game : Option String} {id : String}
  {s : Snapshot} {x : Say} {xs : List Say}

theorem of_concat (xs : List Say) (x : Say) : of (xs ++ [x]) = (of xs).add x :=
  addAll_concat {} xs x

theorem of_append (xs ys : List Say) : of (xs ++ ys) = (of xs).addAll ys := List.foldl_append

/-- How a tale goes on: what was sent last is of the stage that the game is at, and is what the
tracker remembers for as long as the game is played. -/
structure Paced (t : Tale) : Prop where
  known : t.tracker.current.active = true ↔ t.tracker.current.session ≠ ""
  stage : ∀ s ∈ t.sent.getLast?, s.active = t.tracker.current.active
  remembered : t.tracker.current.active = true → t.sent.getLast? = some t.tracker.previous
  varied : t.sent.IsChain fun s u => s.same u = false
  lowered : ∀ s ∈ t.sent, s.modes.isChanged = false

namespace Paced

theorem start : Paced {} where
  known := ⟨nofun, fun h => absurd rfl h⟩
  stage := nofun
  remembered := nofun
  varied := .nil
  lowered := nofun

/-- One more snapshot is sent, which shows another game than the one before it. -/
theorem sending (h : t.Paced) (hknown : tr.current.active = true ↔ tr.current.session ≠ "")
    (hs : s.active = tr.current.active) (hkept : tr.current.active = true → s = tr.previous)
    (hother : ∀ r ∈ t.sent.getLast?, r.same s = false) (hlowered : s.modes.isChanged = false) :
    (t.extend tr [s] game).Paced where
  known := hknown
  stage := by
    intro r hr
    obtain rfl := Option.some.inj (List.getLast?_concat.symm.trans hr)
    exact hs
  remembered := by
    intro hactive
    exact List.getLast?_concat.trans (congrArg some (hkept hactive))
  varied := by
    refine List.isChain_append.mpr ⟨h.varied, .singleton s, ?_⟩
    intro r hr u hu
    obtain rfl := Option.some.inj hu
    exact hother r hr
  lowered := by
    intro r hr
    rcases mem_sent_extend hr with hr | hr
    · exact h.lowered r hr
    · rw [List.mem_singleton.mp hr]
      exact hlowered

/-- **The pace is kept** by everything that the host can say. -/
theorem extend (h : t.Paced) (ho : t.tracker.Outcome tr sends game) :
    (t.extend tr sends game).Paced := by
  cases ho with
  | quiet halike kept =>
    have hsent : (t.extend tr [] none).sent = t.sent := List.append_nil _
    refine ⟨?_, ?_, ?_, hsent ▸ h.varied, hsent ▸ h.lowered⟩
    · show tr.current.active = true ↔ tr.current.session ≠ ""
      rw [halike.1, halike.2]
      exact h.known
    · intro s hs
      exact (h.stage s (hsent ▸ hs)).trans halike.1.symm
    · intro hactive
      show (t.extend tr [] none).sent.getLast? = some tr.previous
      rw [hsent, kept]
      exact h.remembered (halike.1 ▸ hactive)
  | started u now hidle hcur kept =>
    have hactive : tr.current.active = true := by rw [hcur]; rfl
    have hsession : tr.current.session = u.text := by rw [hcur]; rfl
    refine h.sending ?_ rfl (fun _ => kept.symm) ?_ (by rw [hcur]; rfl)
    · exact ⟨fun _ => hsession ▸ u.text_ne_empty, fun _ => hactive⟩
    · intro r hr
      refine Snapshot.same_of_active_ne ?_
      rw [h.stage r hr, hidle, hactive]
      exact Bool.false_ne_true
  | committed hactive halike other lowered kept =>
    refine h.sending ?_ rfl (fun _ => kept.symm) ?_ lowered
    · rw [halike.1, halike.2]
      exact h.known
    · intro r hr
      obtain rfl := Option.some.inj ((h.remembered hactive).symm.trans hr)
      exact other
  | finished hne hs hover lowered =>
    refine h.sending ⟨nofun, fun hn => absurd rfl hn⟩ hover nofun ?_ lowered
    intro r hr
    refine Snapshot.same_of_active_ne ?_
    rw [h.stage r hr, h.known.mpr hne, hover]
    exact Bool.false_ne_true.symm

theorem addAll (h : t.Paced) (xs : List Say) : (t.addAll xs).Paced := by
  induction xs generalizing t with
  | nil => exact h
  | cons x xs ih => exact ih (h.extend (t.tracker.perform_outcome x.1 x.2))

end Paced

/-- What was sent is told game by game, and the game that is being played comes last. -/
structure Chaptered (t : Tale) : Prop where
  chapters : t.sent = t.games.flatMap t.told
  last : ∀ id, t.Running id → t.games.getLast? = some id

theorem flatMap_told_of_not_mem {ids : List String} (h : s.session ∉ ids) :
    ids.flatMap (t.extend tr [s] game).told = ids.flatMap t.told := by
  refine List.flatMap_congr fun id hid => ?_
  exact told_extend_of_ne fun he => h (he ▸ hid)

namespace Chaptered

theorem start : Chaptered {} := ⟨rfl, fun _ h => nomatch h.1⟩

/-- One more snapshot is sent of the game that is being played. -/
theorem sending (h : t.Chaptered) (hd : t.games.Nodup) (hrun : t.Running s.session) :
    (t.extend tr [s] none).sent =
      (t.extend tr [s] none).games.flatMap (t.extend tr [s] none).told := by
  have hgames : (t.extend tr [s] none).games = t.games := List.append_nil _
  obtain ⟨front, hfront⟩ := List.getLast?_eq_some_iff.mp (h.last _ hrun)
  have hfresh : s.session ∉ front := by
    rw [hfront] at hd
    exact fun hmem => (List.nodup_append.mp hd).2.2 _ hmem _ (List.mem_singleton_self _) rfl
  calc t.sent ++ [s]
      = (front.flatMap t.told ++ t.told s.session) ++ [s] := by
        rw [h.chapters, hfront, List.flatMap_append, List.flatMap_singleton]
    _ = front.flatMap (t.extend tr [s] none).told ++ (t.extend tr [s] none).told s.session := by
        rw [flatMap_told_of_not_mem hfresh, told_extend_of_eq rfl, List.append_assoc]
    _ = _ := by rw [hgames, hfront, List.flatMap_append, List.flatMap_singleton]

/-- **Chapter follows chapter**, whatever the host says, if a new game has a new name. -/
theorem extend (h : t.Chaptered) (hc : t.Coherent) (ho : t.tracker.Outcome tr sends game)
    (hd : (t.extend tr sends game).games.Nodup) : (t.extend tr sends game).Chaptered := by
  have hold : t.games.Nodup := hd.sublist (List.sublist_append_left _ _)
  cases ho with
  | quiet halike _ =>
    have hsame : t.extend tr [] none = ⟨tr, t.sent, t.games⟩ := by simp [Tale.extend]
    rw [hsame]
    exact ⟨h.chapters, fun id hr => h.last id ⟨halike.1 ▸ hr.1, halike.2 ▸ hr.2⟩⟩
  | started u now hidle hcur _ =>
    have hsession : tr.current.session = u.text := by rw [hcur]; rfl
    have hfresh : u.text ∉ t.games := fun hmem =>
      (List.nodup_append.mp hd).2.2 _ hmem _ (List.mem_singleton_self _) rfl
    refine ⟨?_, ?_⟩
    · calc t.sent ++ [tr.current]
          = t.games.flatMap t.told ++ (t.told u.text ++ [tr.current]) := by
            rw [told_eq_nil hc hfresh, List.nil_append, ← h.chapters]
        _ = _ := by
            rw [← flatMap_told_of_not_mem (hsession ▸ hfresh), ← told_extend_of_eq hsession]
            exact (List.flatMap_append.trans (congrArg _ (List.flatMap_singleton ..))).symm
    · intro id hr
      exact List.getLast?_concat.trans (congrArg some (hsession.symm.trans hr.2))
  | committed hactive halike _ _ _ =>
    refine ⟨h.sending hold ⟨hactive, halike.2.symm⟩, ?_⟩
    intro id hr
    exact (congrArg _ (List.append_nil _)).trans (h.last id ⟨hactive, halike.2 ▸ hr.2⟩)
  | finished hne hs _ _ =>
    refine ⟨h.sending hold ⟨hc.active_of_session_ne hne, hs.symm⟩, ?_⟩
    exact fun _ hr => absurd hr.1 Bool.false_ne_true

end Chaptered

/-- A tale is coherent and falls into chapters if no two games go by one name. -/
theorem chaptered_addAll (h : t.Coherent) (h' : t.Chaptered)
    (hd : (t.addAll xs).games.Nodup) : (t.addAll xs).Coherent ∧ (t.addAll xs).Chaptered := by
  induction xs generalizing t with
  | nil => exact ⟨h, h'⟩
  | cons x xs ih =>
    have hadd : (t.add x).games.Nodup := hd.sublist (games_addAll (t.add x) xs).sublist
    exact ih (h.add x hadd) (h'.extend h (t.tracker.perform_outcome x.1 x.2) hadd) hd

theorem paced_of (xs : List Say) : (of xs).Paced := Paced.start.addAll xs

theorem coherent_of (hd : (of xs).games.Nodup) : (of xs).Coherent :=
  (chaptered_addAll .start .start hd).1

theorem Coherent.over_addAll (h : t.Coherent) (hd : (t.addAll xs).games.Nodup)
    (hover : t.Over id) : (t.addAll xs).Over id := by
  induction xs generalizing t with
  | nil => exact hover
  | cons x xs ih =>
    have hadd : (t.add x).games.Nodup := hd.sublist (games_addAll (t.add x) xs).sublist
    exact ih (h.add x hadd) hd (h.over_add x hadd hover).1

/-- A game that was started is played, unless it was started before. -/
theorem running_of_begun (ho : t.tracker.Outcome tr sends (some id)) :
    (t.extend tr sends (some id)).Running id := by
  cases ho with
  | started u now _ hcur _ =>
    show tr.current.active = true ∧ tr.current.session = u.text
    rw [hcur]
    exact ⟨rfl, rfl⟩

/-- A game that is being played and is not finished goes on. -/
theorem Running.add (h : t.Running id) (hx : x.2 ≠ .finish) : (t.add x).Running id := by
  have halike : (t.tracker.perform x.1 x.2).1.current.Alike t.tracker.current :=
    Tracker.perform_alike h.1 hx
  exact ⟨halike.1.trans h.1, halike.2.trans h.2⟩

theorem Finished.append (h : Finished xs id) (ys : List Say) : Finished (xs ++ ys) id := by
  obtain ⟨pre, now, post, rfl, hrun⟩ := h
  exact ⟨pre, now, post ++ ys, by rw [List.append_assoc, List.cons_append], hrun⟩

theorem finished_of_over (hd : (of xs).games.Nodup) (h : (of xs).Over id) : Finished xs id := by
  induction xs using List.reverseRecOn with
  | nil => exact absurd h.1 List.not_mem_nil
  | append_singleton ys x ih =>
    rw [of_concat] at hd h
    have hold : (of ys).games.Nodup := hd.sublist (List.sublist_append_left _ _)
    by_cases hover : (of ys).Over id
    · exact (ih hold hover).append [x]
    have hrun (hid : id ∈ (of ys).games) : (of ys).Running id :=
      Classical.not_not.mp fun hnot => hover ⟨hid, hnot⟩
    obtain ⟨now, op⟩ := x
    rcases List.mem_append.mp h.1 with hid | hid
    · by_cases hop : op = .finish
      · exact ⟨ys, now, [], hop ▸ rfl, hrun hid⟩
      · exact absurd ((hrun hid).add hop) h.2
    · have hbegun : (of ys).tracker.begins? op = some id := Option.mem_toList.mp hid
      have hout := (of ys).tracker.perform_outcome now op
      rw [hbegun] at hout
      exact absurd (running_of_begun hout) h.2

theorem over_of_finished (hd : (of xs).games.Nodup) (h : Finished xs id) : (of xs).Over id := by
  obtain ⟨pre, now, post, rfl, hrun⟩ := h
  rw [of_append] at hd ⊢
  have hpre : (of pre).Coherent := coherent_of (hd.sublist (games_addAll _ _).sublist)
  have hadd : ((of pre).add (now, .finish)).games.Nodup :=
    hd.sublist (games_addAll ((of pre).add (now, .finish)) post).sublist
  have hover : ((of pre).add (now, .finish)).Over id := by
    refine ⟨List.mem_append_left _ (hpre.mem_of_running hrun), ?_⟩
    rintro ⟨hactive, -⟩
    have hsession := (paced_of pre).known.mp hrun.1
    have hfinish : ((of pre).tracker.perform now .finish).1 = {} := by
      show ((of pre).tracker.finish now).1 = {}
      unfold Tracker.finish
      rw [if_neg hsession]
    rw [Tale.add, hfinish] at hactive
    cases hactive
  exact (hpre.add _ hadd).over_addAll hd hover

/-- What the host says to trackers that agree is told alike. -/
theorem sent_of_agree (h : t.tracker.Agree t'.tracker) (hs : t.sent = t'.sent) (xs : List Say) :
    (t.addAll xs).sent = (t'.addAll xs).sent := by
  induction xs generalizing t t' with
  | nil => exact hs
  | cons x xs ih =>
    obtain ⟨hsends, -, hagree⟩ := h.perform x
    refine ih hagree ?_
    show t.sent ++ t.tracker.sends x = t'.sent ++ t'.tracker.sends x
    rw [hs, hsends]

/-- **An edit between games is never heard of.** -/
theorem sent_of_idle_edit {pre post : List Say} {now : Timestamp} {op : Tracker.Operation}
    (h : op.isEdit = true) (hidle : (of pre).tracker.current.active = false) :
    (of (pre ++ (now, op) :: post)).sent = (of (pre ++ post)).sent := by
  have hquiet := (of pre).tracker.perform_quiet now h
  have hsession : (of pre).tracker.current.session = "" := by
    by_contra hne
    cases hidle.symm.trans ((paced_of pre).known.mpr hne)
  have hidle' : (of pre).tracker.Idle := ⟨hidle, hsession⟩
  rw [of_append, of_append]
  refine sent_of_agree (t := (of pre).add (now, op)) (.inr ⟨hidle'.quiet hquiet, hidle'⟩) ?_ post
  exact (congrArg _ hquiet.silent).trans (List.append_nil _)

theorem named_of (xs : List Say) : "" ∉ (of xs).tracker.current.modes.names := by
  induction xs using List.reverseRecOn with
  | nil => exact List.not_mem_nil
  | append_singleton ys x ih =>
    rw [of_concat]
    exact Tracker.perform_named ih

/-- The shape of everything that is sent, whatever the host says. -/
structure InChapters (xs : List Say) : Prop where
  /-- There is one chapter for each game, in the order in which they were started. -/
  chapters : (of xs).sent = (of xs).games.flatMap (of xs).told
  /-- The chapter of a game that was not finished has a beginning and no end, -/
  opens : ∀ id ∈ (of xs).games, ¬Finished xs id → Snapshot.Opens id ((of xs).told id)
  /-- and that of a game that was finished has both. -/
  ends : ∀ id ∈ (of xs).games, Finished xs id → Snapshot.Ends id ((of xs).told id)
  /-- Nothing is sent twice in a row, -/
  varied : (of xs).sent.IsChain fun s u => s.same u = false
  /-- and nothing with the change flag raised. -/
  lowered : ∀ s ∈ (of xs).sent, s.modes.isChanged = false
  known : (of xs).tracker.current.active = true ↔ (of xs).tracker.current.session ≠ ""
  /-- Leaving out an edit that is made between games changes nothing of what is sent. -/
  unheard : ∀ pre now op post, xs = pre ++ (now, op) :: post → op.isEdit = true →
    (of pre).tracker.current.active = false → (of xs).sent = (of (pre ++ post)).sent
  /-- What makes no sense changes nothing at all. -/
  ignored : ∀ now op, op.isVoid = true → ((of xs).tracker.perform now op).1 = (of xs).tracker

/-- **A tracker tells its games in chapters**, whatever the host says, if no two games go by one
name. -/
theorem in_chapters (xs : List Say) (hd : (of xs).games.Nodup) : InChapters xs := by
  obtain ⟨hcoherent, hchaptered⟩ := chaptered_addAll .start .start hd
  have hpaced := paced_of xs
  exact {
    chapters := hchaptered.chapters
    opens := by
      intro id hid hnot
      refine hcoherent.opens id (Classical.not_not.mp fun hrun => ?_)
      exact hnot (finished_of_over hd ⟨hid, hrun⟩)
    ends := fun id _ hfin => hcoherent.ends id (over_of_finished hd hfin)
    varied := hpaced.varied
    lowered := hpaced.lowered
    known := hpaced.known
    unheard := by
      rintro pre now op post rfl hedit hidle
      exact sent_of_idle_edit hedit hidle
    ignored := fun now op hvoid => Tracker.perform_void hvoid (named_of xs) }

/-- A mode is switched on, two games are started and edited, and the first of them is finished. -/
def twoGames : List Say :=
  [(1, .addMode "a"), (2, .start (.random [])), (3, .setBall 2), (4, .commit), (5, .finish),
   (6, .start (.random [1])), (7, .setScore 2 40 0), (8, .commit), (9, .commit)]

theorem twoGames_in_chapters :
    (of twoGames).games.length = 2 ∧ (of twoGames).sent.length = 5 ∧ InChapters twoGames :=
  ⟨by decide +kernel, by decide +kernel, in_chapters twoGames (by decide +kernel)⟩

end Tale

end ArcadeUplink
