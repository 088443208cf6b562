import ArcadeUplink.Roster.Query
import Mathlib.Data.List.DropRight

/-!
# Asking a directory whether anything is new

A directory is shared: the server's profiles and pictures come in while the host asks
what it likes. `Run` lists what is done, in any order, a step for each thing that is
done at one go; storing or removing a picture takes two steps, and others may come in
between. What a step does to what the host sees is said by two laws, one for the host
asking whether anything is new (`Step.of_poll`) and one for everything else
(`Step.of_quiet`).

The main statement is `Run.polling`: the host misses nothing. As long as it would be
told that nothing is new it sees the profiles as they are, asking brings it up to date,
and it is told yes exactly if there was news since it last asked.

A picture is new from the moment that it is said to be: between the two steps of storing
one the host may ask, and is not told of it.
-/

namespace ArcadeUplink.Directory

/-- **A shared directory**, with the number of those who have changed a picture and have yet to
say that something is new. -/
structure Shared where
  directory : Directory := empty
  owing : Nat := 0

/-- What is done with a shared directory at one go. -/
inductive Event where
  /-- It was asked something, and gave an answer. -/
  | asked (query : Query) (answer : Answer)
  /-- Somebody who has changed a picture said that something is new. -/
  | announced

namespace Event

/-- Whether an event is news for the host: profiles that differ from those before, or a picture. -/
def news : Event → Bool
  | asked (.setProfiles _) (.flag differ) => differ
  | asked _ _ => false
  | announced => true

/-- What the host was told, if the event is that it asked whether anything is new. -/
def poll? : Event → Option Bool
  | asked .poll (.flag new) => some new
  | _ => none

end Event

/-- What was done since the host last asked whether anything is new, or from the start. -/
def sincePoll (events : List Event) : List Event := events.rtakeWhile (·.poll?.isNone)

/-- **One step**, of anybody who shares the directory. -/
inductive Step : Shared → Event → Shared → Prop where
  | ask (s : Shared) (query : Query) :
    Step s (.asked query (s.directory.ask query).1)
      ⟨(s.directory.ask query).2.1, s.owing + (s.directory.ask query).2.2.2.toNat⟩
  | announce (s : Shared) (howing : 0 < s.owing) :
    Step s .announced ⟨s.directory.announce, s.owing - 1⟩

/-- **What is done with a shared directory**, from a new one on. -/
inductive Run : List Event → Shared → Prop where
  | start : Run [] {}
  | step {events : List Event} {e : Event} {s s' : Shared} (before : Run events s)
    (step : Step s e s') : Run (events ++ [e]) s'

variable {d : Directory} {s s' : Shared} {e : Event} {events : List Event} {new : Bool}

/-! ## One step -/

/-- Profiles that differ take the place of those before, and the host is to be told; otherwise
everything stays. -/
theorem setProfiles_cases (d : Directory) (value : Json) :
    ((d.setProfiles value).1 = false ∧ (d.setProfiles value).2.1 = d) ∨
      ∃ seating, (d.setProfiles value).1 = true ∧
        (d.setProfiles value).2.1 = d.replace seating := by
  unfold setProfiles
  split
  · next items =>
    dsimp only
    split
    · exact .inl ⟨rfl, rfl⟩
    · exact .inr ⟨(addSeats ∅ items).1, rfl, rfl⟩
  · exact .inl ⟨rfl, rfl⟩

/-- The host is told what the flag says, which is then clear, and if something is new it sees the
profiles as they are. -/
theorem poll_eq (d : Directory) :
    d.poll = (d.updated,
      { d with updated := false, published := if d.updated then d.profiles else d.published }) := by
  obtain ⟨_, _, _, updated⟩ := d
  cases updated <;> rfl

/-- Asking brings the host up to date if a clear flag means that it is. -/
theorem poll_published (h : d.updated = false → d.published = d.profiles) :
    d.poll.2.published = d.profiles := by
  rw [poll_eq]
  dsimp only
  split
  · rfl
  · next hup => exact h (Bool.eq_false_iff.mpr hup)

/-- A step in which the host is told whether anything is new is just that. -/
theorem Step.of_poll (h : Step s e s') (hpoll : e.poll? = some new) :
    new = s.directory.updated ∧ s'.directory = s.directory.poll.2 := by
  cases h with
  | announce => cases hpoll
  | ask query =>
    cases query with
    | poll =>
      have htold : s.directory.poll.1 = new := Option.some.inj hpoll
      exact ⟨htold.symm.trans (congrArg Prod.fst s.directory.poll_eq), rfl⟩
    | _ => cases hpoll

/-- Nothing else changes what the host sees. News raises the flag, and only with news do the
profiles change. -/
theorem Step.of_quiet (h : Step s e s') (hpoll : e.poll? = none) :
    s'.directory.published = s.directory.published ∧
      s'.directory.updated = (s.directory.updated || e.news) ∧
      (e.news = false → s'.directory.profiles = s.directory.profiles) := by
  cases h with
  | announce => exact ⟨rfl, (Bool.or_true _).symm, fun _ => rfl⟩
  | ask query =>
    cases query with
    | poll => cases hpoll
    | setProfiles value =>
      dsimp only [Directory.ask, Event.news]
      rcases s.directory.setProfiles_cases value with ⟨hflag, hsame⟩ | ⟨seating, hflag, hnew⟩
      · rw [hflag, hsame]
        exact ⟨rfl, (Bool.or_false _).symm, fun _ => rfl⟩
      · rw [hflag, hnew]
        exact ⟨rfl, (Bool.or_true _).symm, nofun⟩
    | _ => exact ⟨rfl, (Bool.or_false _).symm, fun _ => rfl⟩

/-! ## What was done since the host last asked -/

theorem sincePoll_of_poll (hpoll : e.poll? = some new) : sincePoll (events ++ [e]) = [] :=
  List.rtakeWhile_concat_neg _ _ _ (by simp [hpoll])

theorem sincePoll_of_quiet (hpoll : e.poll? = none) :
    sincePoll (events ++ [e]) = sincePoll events ++ [e] :=
  List.rtakeWhile_concat_pos _ _ _ (by simp [hpoll])

/-- What was done since the host last asked comes after each time that it asked. -/
theorem sincePoll_subset (before : List Event) (hpoll : e.poll? = some new) (rest : List Event) :
    sincePoll (before ++ e :: rest) ⊆ rest := by
  induction rest using List.reverseRecOn with
  | nil => rw [sincePoll_of_poll hpoll]; exact List.nil_subset _
  | append_singleton rest x ih =>
    have hassoc : before ++ e :: (rest ++ [x]) = (before ++ e :: rest) ++ [x] := by simp
    rw [hassoc]
    cases hx : x.poll? with
    | some b => rw [sincePoll_of_poll hx]; exact List.nil_subset _
    | none =>
      rw [sincePoll_of_quiet hx]
      exact List.append_subset.mpr
        ⟨List.Subset.trans ih (List.subset_append_left _ _), List.subset_append_right _ _⟩

/-! ## Runs -/

namespace Run

/-- **The flag is news**: it is raised exactly if there was news since the host last asked. -/
theorem updated_iff (h : Run events s) :
    s.directory.updated = true ↔ ∃ x ∈ sincePoll events, x.news = true := by
  induction h with
  | start => simp [sincePoll, empty]
  | @step events e s s' _ hstep ih =>
    cases hpoll : e.poll? with
    | some new =>
      obtain ⟨-, hafter⟩ := hstep.of_poll hpoll
      rw [sincePoll_of_poll hpoll, hafter, poll_eq]
      simp
    | none =>
      obtain ⟨-, hflag, -⟩ := hstep.of_quiet hpoll
      rw [sincePoll_of_quiet hpoll, hflag, Bool.or_eq_true, ih]
      simp only [List.mem_append, List.mem_singleton, or_and_right, exists_or, exists_eq_left]

/-- **A clear flag means up to date**: while the flag is clear the host sees the profiles as they
are. -/
theorem published_of_clear (h : Run events s) (hclear : s.directory.updated = false) :
    s.directory.published = s.directory.profiles := by
  induction h with
  | start => rfl
  | @step events e s s' _ hstep ih =>
    cases hpoll : e.poll? with
    | some new =>
      obtain ⟨-, hafter⟩ := hstep.of_poll hpoll
      have hsame : s.directory.poll.2.profiles = s.directory.profiles := by rw [poll_eq]
      rw [hafter, hsame]
      exact poll_published ih
    | none =>
      obtain ⟨hseen, hflag, hsame⟩ := hstep.of_quiet hpoll
      obtain ⟨hup, hnews⟩ := Bool.or_eq_false_iff.mp (hflag.symm.trans hclear)
      rw [hseen, hsame hnews]
      exact ih hup

/-- What the host was told when it last asked is whether there had been news. -/
theorem told_iff (h : Run (events ++ [e]) s) (hpoll : e.poll? = some new) :
    new = true ↔ ∃ x ∈ sincePoll events, x.news = true := by
  generalize heq : events ++ [e] = all at h
  cases h with
  | start => simp at heq
  | step hbefore hstep =>
    obtain ⟨rfl, hlast⟩ := List.append_inj' heq rfl
    cases hlast
    rw [(hstep.of_poll hpoll).1]
    exact hbefore.updated_iff

/-- **Polling misses nothing.** While the flag is clear the host sees the profiles as they are, and
it does after each time that it asks whether anything is new. It is told yes exactly if there was
news since it last asked, or from the start. What it sees at a position changes only as it is told
yes. If there was no news since some time that it asked, it is told no. -/
theorem polling (h : Run events s) :
    (s.directory.updated = false → s.directory.published = s.directory.profiles) ∧
      s.directory.poll.2.published = s.directory.profiles ∧
      (s.directory.poll.1 = true ↔ ∃ x ∈ sincePoll events, x.news = true) ∧
      (∀ e s' p, Step s e s' → s'.directory.profile? p ≠ s.directory.profile? p →
        e.poll? = some true) ∧
      ∀ before first between last old new, events = before ++ first :: between ++ [last] →
        first.poll? = some old → last.poll? = some new → (∀ x ∈ between, x.news = false) →
        new = false := by
  refine ⟨h.published_of_clear, poll_published h.published_of_clear, ?_, ?_, ?_⟩
  · rw [poll_eq]
    exact h.updated_iff
  · intro e s' p hstep hchanged
    cases hpoll : e.poll? with
    | none =>
      obtain ⟨hseen, -, -⟩ := hstep.of_quiet hpoll
      exact absurd (congrArg (·.get? p) hseen) hchanged
    | some new =>
      obtain ⟨rfl, hafter⟩ := hstep.of_poll hpoll
      cases hup : s.directory.updated with
      | true => rfl
      | false =>
        have hsame : s'.directory.published = s.directory.published := by
          rw [hafter, poll_eq, hup]
          rfl
        exact absurd (congrArg (·.get? p) hsame) hchanged
  · intro before first between last old new heq hfirst hlast hquiet
    rw [heq] at h
    refine Bool.eq_false_iff.mpr fun hyes => ?_
    obtain ⟨x, hx, hnews⟩ := (h.told_iff hlast).mp hyes
    have hmem : x ∈ between := sincePoll_subset before hfirst between hx
    exact Bool.noConfusion ((hquiet x hmem).symm.trans hnews)

end Run

/-- What the server says of a first player called Ada. -/
def adaFirst : Json :=
  .list [.object
    [("player", .object
      [("cached_display_name", .text "Ada"), ("id", .int 5), ("initials", .text "ADA")]),
     ("position", .int 1)]]

/-- The host asks after a picture was stored and before that is said to be new, and then twice. -/
def askedTooEarly : List Event :=
  [.asked (.setProfiles adaFirst) (.flag true), .asked (.setPicture .first [7]) .nothing,
    .asked .poll (.flag true), .announced, .asked .poll (.flag true), .asked .poll (.flag false)]

/-- The host is told of the profile at once, of the picture as soon as it is said to be new, and
then of nothing any more. -/
theorem Run.askedTooEarly_polled :
    ∃ s, Run askedTooEarly s ∧ s.directory.poll.2.published = s.directory.profiles ∧
      (s.directory.poll.1 = true ↔ ∃ x ∈ sincePoll askedTooEarly, x.news = true) ∧
      (s.directory.profile? .first).map (·.name) = some "Ada" := by
  have hstored := (start.step (.ask _ (.setProfiles adaFirst))).step
    (.ask _ (.setPicture .first [7]))
  have hearly := hstored.step (.ask _ .poll)
  have hsaid := hearly.step (.announce _ (by decide +kernel))
  have hrun : Run askedTooEarly _ := (hsaid.step (.ask _ .poll)).step (.ask _ .poll)
  exact ⟨_, hrun, hrun.polling.2.1, hrun.polling.2.2.1, by decide +kernel⟩

end ArcadeUplink.Directory
