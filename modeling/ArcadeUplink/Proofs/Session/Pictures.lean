import ArcadeUplink.Proofs.Roster.Pictures
import ArcadeUplink.Proofs.Session.Effects

/-!
# Whose pictures are kept

A heartbeat that brings other profiles orders the pictures that are missing, and
the main lane downloads them one after another. As it does one thing at a time,
a picture that is kept is always the last one that was downloaded for its
position, from where the player had it at whose sight it was ordered
(`Run.picture_source`).

Nothing else is kept of that player. When he leaves, or has his picture
elsewhere, the picture stays, and as there is a picture at his position none is
ordered in its place: it belongs to the player who is there now just if he has
his own where that one was.
-/

namespace ArcadeUplink

open Pool (Lane)

/-- A picture that was downloaded. -/
structure Download where
  player : PlayerNumber
  url : String
  picture : Picture
deriving DecidableEq

namespace Activity

/-- The picture that is about to be stored. -/
def storing? : Activity → Option (PlayerNumber × Picture)
  | .storePicture p picture => some (p, picture)
  | _ => none

/-- Whether an activity is a download, or what remains of one until the picture is stored. -/
def isDownload : Activity → Bool
  | .download .. | .waiting _ (.downloaded _) | .storePicture .. => true
  | _ => false

/-- Whether the host stores a picture of its own. -/
def setsPicture : Activity → Bool
  | .consult (.setPicture ..) => true
  | _ => false

end Activity

/-! ## What is downloaded and kept -/

/-- The picture that was downloaded last for a position. -/
def latest? (ds : List Download) (p : PlayerNumber) : Option Download :=
  (ds.filter fun d => d.player = p).getLast?

/-- Every picture that is kept is the last one that was downloaded for its position. -/
def Shown (ds : List Download) (c : Recency PlayerNumber Picture) : Prop :=
  ∀ x ∈ c.entries, ∃ url, latest? ds x.1 = some ⟨x.1, url, x.2⟩

/-- What was downloaded, what is kept, and the picture that is about to be stored. -/
inductive Album : List Download → Recency PlayerNumber Picture → Option (PlayerNumber × Picture) →
    Prop
  | kept {ds : List Download} {c : Recency PlayerNumber Picture} : Shown ds c → Album ds c none
  | storing {ds : List Download} {c : Recency PlayerNumber Picture} {d : Download} : Shown ds c →
      Album (ds ++ [d]) c (some (d.player, d.picture))

section Album

variable {ds : List Download} {c c' : Recency PlayerNumber Picture} {d : Download}
  {p : PlayerNumber} {picture : Picture} {storing : Option (PlayerNumber × Picture)}

theorem latest?_concat_self (ds : List Download) (d : Download) :
    latest? (ds ++ [d]) d.player = some d := by
  unfold latest?
  rw [List.filter_append, List.filter_singleton, decide_eq_true rfl]
  exact List.getLast?_concat

theorem latest?_concat_of_ne (h : p ≠ d.player) : latest? (ds ++ [d]) p = latest? ds p := by
  unfold latest?
  rw [List.filter_append, List.filter_singleton, decide_eq_false (Ne.symm h)]
  exact congrArg _ (List.append_nil _)

theorem mem_of_latest? (h : latest? ds p = some d) : d ∈ ds :=
  (List.mem_filter.mp (List.mem_of_getLast? h)).1

theorem Shown.mono (h : Shown ds c) (hc : ∀ x ∈ c'.entries, x ∈ c.entries) : Shown ds c' :=
  fun x hx => h x (hc x hx)

theorem Album.mono (h : Album ds c storing) (hc : ∀ x ∈ c'.entries, x ∈ c.entries) :
    Album ds c' storing := by
  cases h with
  | kept hshown => exact .kept (hshown.mono hc)
  | storing hshown => exact .storing (hshown.mono hc)

theorem Album.shown (h : Album ds c none) : Shown ds c := by
  cases h with
  | kept hshown => exact hshown

/-- The picture that was downloaded last takes the place of the one before. -/
theorem Album.store (h : Album ds c (some (p, picture))) : Shown ds (c.put p picture).2 := by
  cases h with
  | @storing ds _ d hshown =>
    intro x hx
    rcases Recency.mem_put hx with rfl | ⟨hold, hne⟩
    · exact ⟨d.url, latest?_concat_self ds d⟩
    · obtain ⟨url, hurl⟩ := hshown x hold
      exact ⟨url, (latest?_concat_of_ne hne).trans hurl⟩

end Album

namespace Engine

/-- What the reply to a download brings. -/
def download? : Activity → Option Reply → Option Download
  | .waiting call (.downloaded p), some (.bytes picture) =>
    match call with
    | .download url => some ⟨p, url, picture⟩
    | _ => none
  | _, _ => none

/-- The pictures that were downloaded. -/
def downloads (ts : List Transition) : List Download :=
  ts.filterMap fun t => t.turn?.bind fun u => download? u.activity u.reply

/-- All pictures are the server's: the host stores none of its own. -/
def ServerOnly (ts : List Transition) : Prop :=
  ∀ t ∈ ts, ∀ u ∈ t.turn?, u.activity.setsPicture = false

instance (ts : List Transition) : Decidable (ServerOnly ts) :=
  inferInstanceAs (Decidable (∀ t ∈ ts, ∀ u ∈ t.turn?, u.activity.setsPicture = false))

/-- A picture was ordered: as a heartbeat had brought other profiles, the player at the position had
it there, and none was kept of him. -/
def Ordered (ts : List Transition) (p : PlayerNumber) (url : String) : Prop :=
  ∃ t ∈ ts, (∃ lane reply, t.turn? = some ⟨lane, .listDownloads, reply⟩) ∧
    t.before.world.directory.place? p = some url ∧ t.before.world.directory.hasPicture p = false

/-- Whatever is about a download goes back to an order. -/
def Backed (ts : List Transition) : Activity → Prop
  | .submitDownloads places => ∀ place ∈ places, Ordered ts place.1 place.2
  | .download p url => Ordered ts p url
  | .waiting call (.downloaded p) => ∃ url, call = .download url ∧ Ordered ts p url
  | _ => True

section Turn

variable {now : Nat} {self : Option Nat} {e f : Engine} {p : Workers} {a b : Activity}
  {reply : Option Reply} {r : Result} {ts us : List Transition} {ds : List Download}
  {player : PlayerNumber} {picture : Picture} {url : String}

theorem Ordered.append (h : Ordered ts player url) : Ordered (ts ++ us) player url := by
  obtain ⟨t, ht, hturn, hplace⟩ := h
  exact ⟨t, List.mem_append_left us ht, hturn, hplace⟩

theorem Backed.append (h : Backed ts a) : Backed (ts ++ us) a := by
  unfold Backed at h ⊢
  split at h
  · exact fun place hplace => (h place hplace).append
  · exact h.append
  · obtain ⟨url, hcall, hordered⟩ := h
    exact ⟨url, hcall, hordered.append⟩
  · trivial

/-- What remains goes back to an order if what was there does, and the orders are made. -/
theorem Origin.backed (h : Origin e p a reply b) (ha : Backed ts a)
    (hlist : a = .listDownloads → ∀ place ∈ e.directory.missingPictures,
      Ordered ts place.1 place.2) : Backed ts b := by
  cases h with
  | listed => exact hlist rfl
  | submitDownload => exact fun place hplace => ha place (List.mem_cons_of_mem _ hplace)
  | download => exact ⟨_, rfl, ha⟩
  | _ => trivial

theorem errand_backed {l : Lane} {task : Activity} (ha : Backed ts a)
    (h : (errand? now self e a).bind Pool.Event.submission? = some (l, task)) :
    Backed ts task := by
  unfold errand? at h
  split at h
  case h_9 =>
    cases h
    exact ha _ List.mem_cons_self
  all_goals cases h
  all_goals trivial

/-- A picture that was downloaded is stored next. -/
theorem rest_of_downloaded {call : ServerCall} (h : program.act now self e p
    (.waiting call (.downloaded player)) (some (.bytes picture)) = some r) :
    r.rest = some (.storePicture player picture) := by
  cases h
  rfl

theorem of_download {d : Download} (h : download? a reply = some d) :
    a = .waiting (.download d.url) (.downloaded d.player) ∧ reply = some (.bytes d.picture) := by
  unfold download? at h
  split at h
  · split at h <;> cases h
    exact ⟨rfl, rfl⟩
  · cases h

theorem storing_of_origin (h : Origin e p a reply b) (ha : Backed ts a) :
    b.storing? = (download? a reply).map fun d => (d.player, d.picture) := by
  cases h with
  | downloaded =>
    obtain ⟨url, rfl, -⟩ := ha
    rfl
  | told htold =>
    refine (Option.map_eq_none_iff.mpr (Option.eq_none_iff_forall_ne_some.mpr fun d hd => ?_)).symm
    obtain ⟨rfl, rfl⟩ := of_download hd
    cases htold
  | _ => rfl

/-- Unless it is a picture that is stored, a turn brings none. -/
theorem Effects.pictures (h : Effects e a f) (hstore : a.storing? = none)
    (hset : a.setsPicture = false) {x : PlayerNumber × Picture}
    (hx : x ∈ f.directory.pictures.entries) : x ∈ e.directory.pictures.entries := by
  rw [h.directory] at hx
  cases a with
  | storePicture => cases hstore
  | applyProfiles value => rwa [← e.directory.setProfiles_pictures value]
  | consult query =>
    refine Directory.mem_ask ?_ hx
    rintro q own rfl
    cases hset
  | _ => exact hx

theorem exists_of_storing (h : a.storing? = some (player, picture)) :
    a = .storePicture player picture := by
  unfold Activity.storing? at h
  split at h
  · cases h
    rfl
  · cases h

/-- **A turn of the main lane** keeps the album. -/
theorem album_turn (h : Album ds e.directory.pictures a.storing?)
    (hact : program.act now self e p a reply = some r) (hback : Backed ts a)
    (hset : a.setsPicture = false) :
    Album (ds ++ (download? a reply).toList) r.world.directory.pictures
      (r.rest.bind Activity.storing?) := by
  have heffects := act_effects hact
  have hrest : r.rest.bind Activity.storing? =
      (download? a reply).map fun d => (d.player, d.picture) := by
    cases hb : r.rest with
    | some b => exact storing_of_origin ((act_behaves hact).origin b hb) hback
    | none =>
      cases hd : download? a reply with
      | none => rfl
      | some d =>
        obtain ⟨rfl, rfl⟩ := of_download hd
        cases hb.symm.trans (rest_of_downloaded hact)
  rw [hrest]
  cases hs : a.storing? with
  | some x =>
    obtain ⟨player, picture⟩ := x
    obtain rfl := exists_of_storing hs
    rw [heffects.directory]
    exact .kept ((List.append_nil ds).symm ▸ h.store)
  | none =>
    rw [hs] at h
    have hshown := h.shown.mono fun x hx => heffects.pictures hs hset hx
    cases hd : download? a reply with
    | none => exact .kept ((List.append_nil ds).symm ▸ hshown)
    | some d => exact .storing hshown

/-- Only in the main lane pictures are downloaded and stored. -/
theorem main_of_isDownload {lane : Option Lane} (ha : a.isDownload = true)
    (hl : lane ∈ a.places) : lane = some .main := by
  unfold Activity.isDownload at ha
  split at ha
  all_goals first | exact List.mem_singleton.mp hl | cases ha

theorem storing_of_not_isDownload (ha : a.isDownload = false) : a.storing? = none := by
  cases a <;> first | rfl | cases ha

theorem download_of_not_isDownload (ha : a.isDownload = false) : download? a reply = none := by
  cases hd : download? a reply with
  | none => rfl
  | some d =>
    rw [(of_download hd).1] at ha
    cases ha

theorem storing_of_isTask {l : Lane} (h : a.isTask l = true) : a.storing? = none := by
  cases a <;> first | rfl | cases h

end Turn

/-! ## The run -/

section Run

variable {s : Setup} {start : Nat} {ts : List Transition} {t : Transition} {m : System}
  {p : PlayerNumber} {picture : Picture}

/-- **Every download goes back to an order** that a heartbeat gave. -/
theorem Run.backed (h : Run s start ts m) :
    m.Tended (fun _ => Backed ts) fun _ => Backed ts := by
  induction h with
  | start => exact ⟨fun _ ha => absurd ha List.not_mem_nil, .ofSize _⟩
  | @step ts m m' move events hts hopen hstep ih =>
    refine Machine.Tended.step ih hopen hstep (fun _ _ => .append) (fun _ _ => .append)
      (fun _ _ => id) (fun a ha => ?_) fun u self r hu hback hact => ?_
    · cases a <;> trivial
    · refine ⟨(act_behaves hact).use fun l task htask => ?_, fun b hb => ?_⟩
      · exact errand_backed hback.append htask
      · refine ((act_behaves hact).origin b hb).backed hback.append fun hlist place hplace => ?_
        obtain ⟨hplace, -, hmissing⟩ := Directory.of_mem_missingPictures hplace
        refine ⟨_, List.mem_append_right ts List.mem_cons_self, ⟨u.lane, u.reply, ?_⟩, hplace,
          hmissing⟩
        rw [hu, ← hlist]

theorem downloads_concat (ts : List Transition) (t : Transition) :
    downloads (ts ++ [t]) =
      downloads ts ++ (t.turn?.bind fun u => download? u.activity u.reply).toList :=
  Pool.filterMap_concat ..

theorem ServerOnly.before (h : ServerOnly (ts ++ [t])) : ServerOnly ts :=
  fun u hu => h u (List.mem_append_left _ hu)

theorem ServerOnly.turn {u : Machine.Turn Activity Reply} (h : ServerOnly (ts ++ [t]))
    (hu : t.turn? = some u) : u.activity.setsPicture = false :=
  h t (List.mem_append_right _ List.mem_cons_self) u hu

/-- **A picture that is kept was the last to be downloaded** for its position. -/
theorem Run.album (h : Run s start ts m) (hserver : ServerOnly ts) :
    Album (downloads ts) m.world.directory.pictures
      ((m.pool.atWork .main).head?.bind Activity.storing?) := by
  refine h.lane_induction (motive := fun ts e work => ServerOnly ts →
    Album (downloads ts) e.directory.pictures (work.head?.bind Activity.storing?)) .main
    ?_ ?_ ?_ ?_ ?_ hserver
  · exact fun _ => .kept fun x hx => absurd hx List.not_mem_nil
  · intro ts t a reply self r hrun hu hact _ ih hserver
    have hback : Backed ts a := hrun.before.1.backed.fit_of_turn hu
    have halbum := album_turn (ih hserver.before) hact hback (hserver.turn hu)
    rw [downloads_concat, hu, Option.bind_some]
    cases hrest : r.rest <;> (rw [hrest] at halbum; exact halbum)
  · intro ts t lane a reply self r hrun hu hl hact htook ih hserver
    have hother : a.isDownload = false :=
      Bool.eq_false_iff.mpr fun ha => hl (main_of_isDownload ha htook.place)
    rw [downloads_concat, hu, Option.bind_some, download_of_not_isDownload hother,
      Option.toList_none, List.append_nil]
    exact (ih hserver.before).mono fun x hx => (act_effects hact).pictures
      (storing_of_not_isDownload hother) (hserver.turn hu) hx
  · intro ts t _ hu _ ih hserver
    rw [downloads_concat, hu, Option.bind_none, Option.toList_none, List.append_nil]
    exact ih hserver.before
  · -- the lane takes up a task, which stores nothing yet
    intro ts t task _ hu htask ih hserver
    rw [downloads_concat, hu, Option.bind_none, Option.toList_none, List.append_nil,
      List.head?_cons, Option.bind_some, storing_of_isTask htask]
    exact ih hserver.before

/-- Every picture that was downloaded had been ordered. -/
theorem Run.ordered_of_downloaded (h : Run s start ts m) {d : Download} (hd : d ∈ downloads ts) :
    Ordered ts d.player d.url := by
  obtain ⟨t, ht, hbind⟩ := List.mem_filterMap.mp hd
  obtain ⟨⟨lane, a, reply⟩, hu, hdownload⟩ := Option.bind_eq_some_iff.mp hbind
  obtain ⟨pre, post, rfl⟩ := List.append_of_mem ht
  have hback : Backed pre a := h.before.1.backed.fit_of_turn hu
  obtain rfl : a = .waiting (.download d.url) (.downloaded d.player) := (of_download hdownload).1
  obtain ⟨url, hcall, hordered⟩ := hback
  cases hcall
  exact hordered.append

/-- Whether a picture belongs to the player at a position: it is what was downloaded last for the
position, from where the player has his picture. -/
def Belongs (ds : List Download) (d : Directory) (p : PlayerNumber) (picture : Picture) : Prop :=
  ∃ url, d.place? p = some url ∧ latest? ds p = some ⟨p, url, picture⟩

/-- **Where a picture is from that the host is given.** While no download is under way, it is the
last one for its position, and was ordered when the player there had it at that place and none was
kept. It belongs to the player who is there now just if he has his picture at the same place; and
however that is, no other is ordered for as long as this one is kept. -/
theorem Run.picture_source (h : Run s start ts m) (hserver : ServerOnly ts)
    (hidle : ∀ a ∈ m.pool.line .main, a.isDownload = false)
    (hkept : m.world.directory.pictures.peek? p = some picture) :
    ∃ url, latest? (downloads ts) p = some ⟨p, url, picture⟩ ∧ Ordered ts p url ∧
      (Belongs (downloads ts) m.world.directory p picture ↔
        m.world.directory.place? p = some url) ∧
      ∀ place ∈ m.world.directory.missingPictures, place.1 ≠ p := by
  have hnone : (m.pool.atWork .main).head?.bind Activity.storing? = none := by
    cases hhead : (m.pool.atWork .main).head? with
    | none => rfl
    | some a =>
      exact storing_of_not_isDownload (hidle a
        (List.mem_append_left _ (List.mem_of_mem_head? hhead)))
  have halbum := h.album hserver
  rw [hnone] at halbum
  obtain ⟨url, hlatest⟩ := halbum.shown _ (Recency.mem_of_peek? hkept)
  dsimp only at hlatest
  refine ⟨url, hlatest, h.ordered_of_downloaded (mem_of_latest? hlatest), ⟨?_, ?_⟩, ?_⟩
  · rintro ⟨url', hplace, hlatest'⟩
    cases hlatest.symm.trans hlatest'
    exact hplace
  · exact fun hplace => ⟨url, hplace, hlatest⟩
  · rintro ⟨q, url'⟩ hplace rfl
    have hmissing := (Directory.of_mem_missingPictures hplace).2.2
    unfold Directory.hasPicture Recency.contains at hmissing
    rw [hkept] at hmissing
    cases hmissing

end Run

namespace Sample

/-- A device with one worker that downloads pictures. -/
def gallery : Setup := { setup with device := { autoDownload := true } }

/-- The host asks for a heartbeat, which brings profiles, and the worker goes on for some steps. -/
def beat (players : List Json) (steps : Nat) : List (Machine.Move Activity Reply) :=
  [.call (.requestBeat false), .caller 0 none, .caller 0 none, .take 0, .next 0] ++
    List.replicate 4 (.worker 0 none) ++
    [.worker 0 (some (.beaten { players := some (.list players) }))] ++
    List.replicate steps (.worker 0 none) ++ [.next 0]

/-- The worker downloads a picture. -/
def download (picture : Picture) : List (Machine.Move Activity Reply) :=
  [.take 0, .next 0, .worker 0 none, .worker 0 (some (.bytes picture)), .worker 0 none,
    .worker 0 none, .next 0]

/-- A player at position 1, whose picture is at `url`. -/
def seat (url : String) : Json :=
  .object [("position", .int 1), ("player", .object [("id", .int 5),
    ("cached_display_name", .text "Ann"), ("initials", .text "A"),
    ("profile_picture", .text url)])]

end Sample

set_option maxRecDepth 100000 in
/-- **A picture outlasts its player**: the last heartbeat told that nobody is there any more. -/
theorem picture_of_nobody : ∃ ts m, Run Sample.gallery 0 ts m ∧ ServerOnly ts ∧
    m.world.directory.profiles.size = 0 ∧ m.world.directory.pictures.peek? .first = some [7] ∧
    ¬Belongs (downloads ts) m.world.directory .first [7] := by
  have hcourse : ((system Sample.gallery 0).course? program Activity.isHostCall
      (Sample.arrive ++ Sample.signIn ++ Sample.beat [Sample.seat "a"] 7 ++ Sample.download [7] ++
        Sample.beat [] 6)).any
      (fun x => decide (ServerOnly x.1 ∧ (∀ a ∈ x.2.pool.line .main, a.isDownload = false) ∧
        x.2.world.directory.profiles.size = 0 ∧
        x.2.world.directory.pictures.peek? .first = some [7] ∧
        x.2.world.directory.place? .first = none)) = true := by
    decide +kernel
  obtain ⟨ts, m, hrun, hfound⟩ := Machine.exists_course hcourse
  obtain ⟨hserver, hidle, hnobody, hkept, hplace⟩ := of_decide_eq_true hfound
  refine ⟨ts, m, hrun, hserver, hnobody, hkept, ?_⟩
  obtain ⟨url, -, -, hiff, -⟩ := Run.picture_source hrun hserver hidle hkept
  intro hbelongs
  cases hplace.symm.trans (hiff.mp hbelongs)

end Engine

end ArcadeUplink
