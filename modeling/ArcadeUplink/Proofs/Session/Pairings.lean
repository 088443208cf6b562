import ArcadeUplink.Proofs.Session.Diagram
import ArcadeUplink.Proofs.Session.Effects

/-!
# What the links are about

A link that is remembered is the one that would be put together now, whatever
happened since (`Run.links_fresh`): it never mentions the machine of another
venue than the one that is remembered. Which one that is depends on the pairing
that was recorded last, and on whether it was forgotten since.

While the device is paired the pairing that was recorded last is the one that
made it so. But to leave a pairing takes two steps, the status first, and a
heartbeat may come in between and find the device paired again. What is then
forgotten is the new pairing: the links say nothing of its venue for as long as
the device stays paired. `Run.links_in_force` gives the condition under which
they do, and `paired_without_venue` is a run in which they do not.
-/

namespace ArcadeUplink

open Pool (Lane)

/-! ## Who looks up the pairing -/

/-- On what occasion an activity looks up the pairing, if it does. -/
def Activity.check? : Activity → Option Occasion
  | .askPairing o | .waiting _ (.pairing o) | .recordPairing _ o | .settlePaired o
  | .settleUnpaired o => some o
  | _ => none

namespace Occasion

/-- The status of a device while its pairing is looked up. -/
def status : Occasion → Status
  | handshake => .checkingPairing
  | heartbeat => .unpaired

/-- The lane in which the pairing is looked up. -/
def lane : Occasion → Lane
  | handshake => .main
  | heartbeat => .heartbeat

end Occasion

/-- What a turn makes of what is remembered of the pairing: one is recorded, or it is forgotten. -/
def Activity.mark? : Activity → Option (Option Pairing)
  | .recordPairing pairing _ => some (some pairing)
  | .forgetPairing .. => some none
  | _ => none

/-! ## Links -/

namespace Links

/-- The link for claiming a position, if there is a machine of a venue. -/
def claimFor (venue : Option Venue) (p : PlayerNumber) : String :=
  (venue.map fun v => claimText v p).getD ""

/-- What is remembered of links is what would be put together now. -/
structure Fresh (l : Links) (s : Setup) : Prop where
  pair : ∀ link ∈ l.pairLink, link = pairText s
  claims : ∀ p link, l.claimLinks.get? p = some link → ∃ v, l.venue = some v ∧ link = claimText v p

variable {l : Links} {s : Setup} {p : PlayerNumber} {v : Venue}

theorem claimText_ne_empty (v : Venue) (p : PlayerNumber) : claimText v p ≠ "" := by
  intro h
  have hlength : (claimText v p).length = 0 := by rw [h]; rfl
  unfold claimText at hlength
  simp only [String.length_append] at hlength
  have hbase : 0 < base.length := by decide
  omega

theorem venue_of_claimFor {venue : Option Venue} (h : claimFor venue p = "") : venue = none := by
  cases venue with
  | none => rfl
  | some v => exact absurd h (claimText_ne_empty v p)

theorem Fresh.pair_eq (h : l.Fresh s) : (l.pair s).1 = pairText s := by
  unfold Links.pair
  split
  · next link hlink => exact h.pair link hlink
  · rfl

theorem Fresh.claim_eq (h : l.Fresh s) (p : PlayerNumber) : (l.claim p).1 = claimFor l.venue p := by
  unfold claim claimFor
  split
  · next link hlink =>
    obtain ⟨v, hv, rfl⟩ := h.claims p link hlink
    rw [hv]
    rfl
  · cases hv : l.venue <;> rfl

theorem Fresh.forget (l : Links) (s : Setup) : l.forget.Fresh s := ⟨nofun, nofun⟩

/-- **Links stay fresh** at every turn. -/
theorem Fresh.turned (h : l.Fresh s) (a : Activity) : (l.turned s a).Fresh s := by
  cases a with
  | storeToken token => exact ⟨h.pair, h.claims⟩
  | keepCode t code => exact ⟨h.pair, h.claims⟩
  | recordPairing pairing occasion => exact ⟨nofun, nofun⟩
  | forgetPairing t body => exact .forget l s
  | readPairLink =>
    show (l.pair s).2.Fresh s
    unfold Links.pair
    split
    · exact h
    · refine ⟨?_, h.claims⟩
      rintro link ⟨⟩
      rfl
  | readClaimLink p =>
    show (l.claim p).2.Fresh s
    unfold claim
    split
    · exact h
    · split
      · next v hv =>
        refine ⟨h.pair, ?_⟩
        intro q link hlink
        dsimp only at hlink
        by_cases hq : q = p
        · subst hq
          rw [SortedMap.get?_insert_self] at hlink
          exact ⟨v, hv, (Option.some.inj hlink).symm⟩
        · rw [SortedMap.get?_insert_of_ne _ _ hq] at hlink
          exact h.claims q link hlink
      · exact h
  | _ => exact h

/-- Only a pairing that is recorded or forgotten changes the venue. -/
theorem venue_turned (l : Links) (s : Setup) (a : Activity) :
    (l.turned s a).venue = (a.mark?.map (·.bind venueOf)).getD l.venue := by
  cases a with
  | readPairLink =>
    show (l.pair s).2.venue = l.venue
    unfold Links.pair
    split <;> rfl
  | readClaimLink p =>
    show (l.claim p).2.venue = l.venue
    unfold claim
    split
    · rfl
    · split <;> rfl
  | _ => rfl

end Links

namespace Engine

section Turn

variable {now : Nat} {self : Option Nat} {e : Engine} {p : Workers} {a b : Activity}
  {reply : Option Reply} {r : Result} {l : Lane} {o : Occasion}

/-- A heartbeat looks up the pairing only of a device that is not paired. -/
theorem Origin.check_of_heartbeat (h : Origin e p a reply b) (hb : b.check? = some .heartbeat) :
    (a.check? = some .heartbeat ∨ e.status = .unpaired) ∧ e.status.turned a = e.status := by
  cases h with
  | askPairing | isPaired | notPaired | recorded => exact ⟨.inl hb, rfl⟩
  | beatUnpaired hs => exact ⟨.inr hs, rfl⟩
  | entered => cases hb
  | _ => cases hb

theorem lane_of_check {lane : Option Lane} (hc : a.check? = some o) (hl : lane ∈ a.places) :
    lane = some o.lane := by
  unfold Activity.check? at hc
  split at hc
  all_goals cases hc
  all_goals (cases o <;> exact List.mem_singleton.mp hl)

theorem stage_of_check (hc : a.check? = some .handshake) : a.stage? = some .checking := by
  unfold Activity.check? at hc
  split at hc
  all_goals cases hc
  all_goals rfl

theorem check_of_isTask (h : a.isTask l = true) : a.check? = none := by
  cases a <;> first | rfl | cases h

end Turn

/-! ## The run -/

section Run

variable {s : Setup} {start : Nat} {ts pre post : List Transition} {t u : Transition} {m : System}
  {a : Activity} {l : Lane} {o : Occasion}

/-- **Links are fresh after every run.** -/
theorem Run.links_fresh (h : Run s start ts m) : m.world.links.Fresh s := by
  refine h.turn_induction (motive := fun _ m => m.world.links.Fresh s) ⟨nofun, nofun⟩ ?_ ?_
  · intro ts t lane a reply self r hrun hu _ _ ih
    rw [(hrun.effects hu).links, hrun.before.1.setup]
    exact ih.turned a
  · intro ts t hrun hu ih
    rwa [(hrun.idle hu).2.2]

/-- What was made known of the pairing. -/
def marks (ts : List Transition) : List (Option Pairing) :=
  ts.filterMap fun t => t.turn?.bind fun u => u.activity.mark?

theorem marks_concat (ts : List Transition) (t : Transition) :
    marks (ts ++ [t]) = marks ts ++ (t.turn?.bind fun u => u.activity.mark?).toList :=
  Pool.filterMap_concat ..

/-- **The venue is that of the pairing that was recorded last**, unless it was forgotten since. -/
theorem Run.venue_eq (h : Run s start ts m) :
    m.world.links.venue = (marks ts).getLast?.join.bind Links.venueOf := by
  refine h.turn_induction (motive := fun ts m =>
    m.world.links.venue = (marks ts).getLast?.join.bind Links.venueOf) rfl ?_ ?_
  · intro ts t lane a reply self r hrun hu _ _ ih
    rw [marks_concat, hu, Option.bind_some, (hrun.effects hu).links, Links.venue_turned]
    cases a.mark? with
    | none => rwa [Option.toList_none, List.append_nil]
    | some mark => rw [Option.toList_some, List.getLast?_concat]; rfl
  · intro ts t hrun hu ih
    rw [marks_concat, hu, Option.bind_none, Option.toList_none, List.append_nil,
      (hrun.idle hu).2.2]
    exact ih

/-! ### While the pairing is looked up -/

theorem turned_of_unpaired {a : Activity} (h : ∀ o, a ≠ .settlePaired o) :
    Status.unpaired.turned a = .unpaired := by
  cases a with
  | settlePaired o => exact absurd rfl (h o)
  | _ => rfl

theorem mem_stock_of_atWork (ha : a ∈ m.pool.atWork l) : a ∈ m.stock .main := by
  obtain ⟨w, hw, htask⟩ := List.mem_filterMap.mp ha
  refine List.mem_append_right _ (List.mem_append_left _ (List.mem_filterMap.mpr ⟨w, hw, ?_⟩))
  unfold Pool.Duty.taskOn? at htask
  split at htask
  · next task heq =>
    split at htask <;> cases htask
    rw [heq]
    rfl
  · cases htask

theorem Run.checking_of_handshake (h : Run s start ts m) (ha : a ∈ m.pool.atWork l)
    (hc : a.check? = some .handshake) : m.world.status = .checkingPairing :=
  h.handshake.status_of_checking
    (List.mem_filterMap.mpr ⟨a, mem_stock_of_atWork ha, stage_of_check hc⟩)

/-- A heartbeat looks up the pairing of a device that is not paired, and nobody makes it paired
meanwhile. -/
theorem Run.unpaired_of_heartbeat (h : Run s start ts m) :
    ∀ a ∈ m.pool.atWork .heartbeat, a.check? = some .heartbeat → m.world.status = .unpaired := by
  refine h.lane_induction (motive := fun _ e work =>
    ∀ a ∈ work, a.check? = some .heartbeat → e.status = .unpaired) .heartbeat ?_ ?_ ?_ ?_ ?_
  · exact fun a ha => absurd ha List.not_mem_nil
  · intro ts t a reply self r hrun hu hact htook ih b hb hc
    obtain ⟨hfrom, hsame⟩ :=
      (htook.behaves.origin b (Option.mem_toList.mp hb)).check_of_heartbeat hc
    rw [htook.behaves.status, hsame]
    exact hfrom.elim (ih a (List.mem_singleton_self _)) id
  · intro ts t lane a reply self r hrun hu hl hact htook ih b hb hc
    have hunpaired := ih b hb hc
    rw [htook.behaves.status, hunpaired]
    refine turned_of_unpaired ?_
    rintro o rfl
    -- the handshake would find the device in another state
    have hlane := lane_of_check rfl htook.place
    cases o with
    | heartbeat => exact hl hlane
    | handshake =>
      have hmem : .settlePaired .handshake ∈ t.before.pool.atWork .main := by
        rw [(htook.work .main hlane).1]
        exact List.mem_singleton_self _
      cases (hrun.before.1.checking_of_handshake hmem rfl).symm.trans hunpaired
  · exact fun _ _ _ ih => ih
  · intro ts t task _ _ htask _ a ha hc
    rw [List.mem_singleton.mp ha, check_of_isTask htask] at hc
    cases hc

/-- **While its pairing is looked up a device is not paired**, on either occasion. -/
theorem Run.status_of_check (h : Run s start ts m) (ha : a ∈ m.pool.atWork o.lane)
    (hc : a.check? = some o) : m.world.status = o.status := by
  cases o with
  | handshake => exact h.checking_of_handshake ha hc
  | heartbeat => exact h.unpaired_of_heartbeat a ha hc

/-! ### The pairing in force -/

/-- The pairings that were recorded. -/
def recorded (ts : List Transition) : List Pairing := (marks ts).filterMap id

theorem recorded_concat_of_ne (h : ∀ u ∈ t.turn?, ∀ pairing, u.activity.mark? ≠ some (some pairing)) :
    recorded (ts ++ [t]) = recorded ts := by
  unfold recorded
  rw [marks_concat, List.filterMap_append]
  refine (congrArg _ ?_).trans (List.append_nil _)
  cases hu : t.turn? with
  | none => rfl
  | some u =>
    rw [Option.bind_some]
    cases hmark : u.activity.mark? with
    | none => rfl
    | some mark =>
      cases mark with
      | none => rfl
      | some pairing => exact absurd hmark (h u hu pairing)

/-- What was made known last is the pairing that was recorded last, or that it is forgotten. -/
theorem last_mark {pairing : Pairing} (h : (recorded ts).getLast? = some pairing) :
    (marks ts).getLast? = some (some pairing) ∨ (marks ts).getLast? = some none := by
  unfold recorded at h
  rcases List.eq_nil_or_concat (marks ts) with hnil | ⟨front, last, hmarks⟩
  · rw [hnil] at h
    cases h
  · rw [hmarks, List.concat_eq_append, List.getLast?_concat]
    rw [hmarks, List.concat_eq_append, List.filterMap_append] at h
    cases last with
    | none => exact .inr rfl
    | some q => exact .inl (congrArg some (List.getLast?_concat.symm.trans h))

theorem of_mark {pairing : Pairing} (h : a.mark? = some (some pairing)) :
    ∃ o, a = .recordPairing pairing o := by
  cases a <;> cases h
  exact ⟨_, rfl⟩

/-- A pairing is recorded only of a device that is not paired, in the lane of the occasion. -/
theorem Run.of_recording (h : Run s start (pre ++ t :: post) m) {u : Machine.Turn Activity Reply}
    (hu : t.turn? = some u) {pairing : Pairing} (hmark : u.activity.mark? = some (some pairing)) :
    ∃ o : Occasion, u.lane = some o.lane ∧ t.before.world.status = o.status := by
  obtain ⟨lane, a, reply⟩ := u
  obtain ⟨o, rfl⟩ := of_mark hmark
  obtain ⟨self, r, -, htook⟩ := h.turn hu
  have hlane : lane = some o.lane := lane_of_check rfl htook.place
  refine ⟨o, hlane, h.before.1.status_of_check (a := .recordPairing pairing o) ?_ rfl⟩
  rw [(htook.work _ hlane).1]
  exact List.mem_singleton_self _

/-- Whoever is about to make the device paired has recorded the pairing, and nobody has recorded
another since. -/
theorem Run.recorded_of_settling (h : Run s start ts m) : .settlePaired o ∈ m.pool.atWork o.lane →
    ∃ vs v pairing, Machine.story o.lane ts = vs ++ [v] ∧
      v.turn? = some ⟨some o.lane, .recordPairing pairing o, none⟩ ∧
      (recorded ts).getLast? = some pairing := by
  refine h.lane_induction (motive := fun ts _ work => .settlePaired o ∈ work →
    ∃ vs v pairing, Machine.story o.lane ts = vs ++ [v] ∧
      v.turn? = some ⟨some o.lane, .recordPairing pairing o, none⟩ ∧
      (recorded ts).getLast? = some pairing) o.lane ?_ ?_ ?_ ?_ ?_
  · exact nofun
  · intro ts t a reply self r hrun hu hact htook _ hb
    have horigin := htook.behaves.origin _ (Option.mem_toList.mp hb)
    cases horigin with
    | @recorded pairing _ =>
      have hwork : t.before.pool.atWork o.lane ≠ [] := by
        rw [(htook.work _ rfl).1]
        exact List.cons_ne_nil _ _
      refine ⟨_, t, pairing, Machine.story_of_turn hwork (isOf_of_turn hu), hu, ?_⟩
      unfold recorded
      rw [marks_concat, hu, List.filterMap_append]
      exact List.getLast?_concat
  · intro ts t lane a reply self r hrun hu hl hact htook ih hb
    obtain ⟨vs, v, pairing, hstory, hv, hlast⟩ := ih hb
    refine ⟨vs, v, pairing, ?_, hv, ?_⟩
    · rw [Machine.story_of_same (htook.others _ hl), hstory]
      unfold Machine.Transition.isOf
      rw [hu, Option.any_some]
      exact decide_eq_false hl
    · rw [recorded_concat_of_ne, hlast]
      intro u hu' pairing' hmark
      cases hu.symm.trans hu'
      -- two at once would find the device in two states
      obtain ⟨o', hlane, hstatus⟩ := hrun.of_recording hu hmark
      have hsame := (hrun.before.1.status_of_check hb rfl).symm.trans hstatus
      refine hl (hlane.trans ?_)
      cases o <;> cases o' <;> first | rfl | cases hsame
  · intro ts t hrun hu hsame ih hb
    obtain ⟨vs, v, pairing, hstory, hv, hlast⟩ := ih hb
    refine ⟨vs, v, pairing, ?_, hv, ?_⟩
    · rw [Machine.story_of_same hsame, hstory]
      unfold Machine.Transition.isOf
      rw [hu]
      rfl
    · rw [recorded_concat_of_ne, hlast]
      intro u hu'
      cases hu.symm.trans hu'
  · intro ts t task _ _ htask _ hb
    rw [← List.mem_singleton.mp hb] at htask
    cases htask

/-- The server has replied with a pairing, which was recorded: the last two turns of a task. -/
def TellsPaired (l : Lane) (us : List Transition) (pairing : Pairing) : Prop :=
  ∃ vs u v address o, us = vs ++ [u, v] ∧ pairing.paired = true ∧
    u.turn? = some ⟨some l, .waiting (.pairingStatus address) (.pairing o),
      some (.pairing pairing)⟩ ∧
    v.turn? = some ⟨some l, .recordPairing pairing o, none⟩

/-- A device that becomes paired does so in the turn of whoever has just recorded its pairing. -/
theorem Run.settles (h : Run s start (pre ++ t :: post) m)
    (hafter : t.after.world.status = .paired) (hbefore : t.before.world.status ≠ .paired) :
    ∃ o, t.turn? = some ⟨some o.lane, .settlePaired o, none⟩ := by
  obtain ⟨-, events, hstep⟩ := h.before
  obtain hsame | ⟨⟨lane, a, reply⟩, hu, hturned⟩ := status_step hstep
  · exact absurd (hsame.symm.trans hafter) hbefore
  replace hu : t.turn? = some ⟨lane, a, reply⟩ := hu
  obtain ⟨o, rfl⟩ := Status.paired_of_turned (hturned.symm.trans hafter) hbefore
  obtain ⟨self, r, hact, htook⟩ := h.turn hu
  have hlane : lane = some o.lane := lane_of_check rfl htook.place
  cases reply with
  | none => exact ⟨o, hlane ▸ hu⟩
  | some reply => cases hact

/-- **What made the device paired**, while it is: the reply that did so last is the pairing that was
recorded last. -/
theorem Run.in_force (h : Run s start ts m) (hpaired : m.world.status = .paired) :
    ∃ pre u post l pairing, ts = pre ++ u :: post ∧ u.before.world.status ≠ .paired ∧
      (∀ t ∈ u :: post, t.after.world.status = .paired) ∧
      TellsPaired l (Machine.story l pre) pairing ∧ (recorded ts).getLast? = some pairing := by
  induction h with
  | start => cases hpaired
  | @step ts m m' move events hts hopen hstep ih =>
    have hbefore : Run s start ts m := hts
    have hrun : Run s start (ts ++ ⟨m, move, m'⟩ :: []) m' := .step hts hopen hstep
    by_cases hp : m.world.status = .paired
    · obtain ⟨pre, u, post, l, pairing, rfl, hu, hpost, htells, hlast⟩ := ih hp
      refine ⟨pre, u, post ++ [⟨m, move, m'⟩], l, pairing, by simp, hu, ?_, htells, ?_⟩
      · intro t ht
        rw [← List.cons_append] at ht
        rcases List.mem_append.mp ht with ht | ht
        · exact hpost t ht
        · rw [List.mem_singleton.mp ht]
          exact hpaired
      · rw [recorded_concat_of_ne, hlast]
        intro v hv pairing' hmark
        obtain ⟨o, -, hstatus⟩ := hrun.of_recording hv hmark
        dsimp only at hstatus
        rw [hp] at hstatus
        cases o <;> cases hstatus
    · obtain ⟨o, hu⟩ := hrun.settles hpaired hp
      obtain ⟨l, hof, vs, w, v, address, o', pairing, hstory, htold, hw, hv⟩ :=
        hrun.told_paired hpaired hp
      obtain rfl : l = o.lane := by
        unfold Machine.Transition.isOf at hof
        rw [hu, Option.any_some] at hof
        exact (Option.some.inj (of_decide_eq_true hof)).symm
      obtain ⟨self, r, -, htook⟩ := hrun.turn hu
      obtain ⟨ws, v', pairing', hstory', hv', hlast⟩ := hbefore.recorded_of_settling (o := o)
        ((htook.work _ rfl).1 ▸ List.mem_singleton_self _)
      have hsplit : (vs ++ [w]) ++ [v] = ws ++ [v'] := by
        rw [List.append_assoc]
        exact hstory.symm.trans hstory'
      cases (List.append_inj' hsplit rfl).2
      cases hv.symm.trans hv'
      refine ⟨ts, _, [], o.lane, pairing, rfl, hp, ?_,
        ⟨vs, w, v, address, o, hstory, htold, hw, hv⟩, ?_⟩
      · intro t ht
        rw [List.mem_singleton.mp ht]
        exact hpaired
      · rw [recorded_concat_of_ne, hlast]
        intro u hu' pairing' hmark
        cases hu.symm.trans hu'
        cases hmark

/-- **What the links are about while the device is paired**: the venue of the pairing that made it
so, unless it was forgotten since that the device is paired. Then there is no link for claiming a
position, though the server may have named a machine. -/
theorem Run.links_in_force (h : Run s start ts m) (hpaired : m.world.status = .paired) :
    ∃ pre u post l pairing, ts = pre ++ u :: post ∧ u.before.world.status ≠ .paired ∧
      (∀ t ∈ u :: post, t.after.world.status = .paired) ∧
      TellsPaired l (Machine.story l pre) pairing ∧
      (m.world.links.pair s).1 = Links.pairText s ∧
      (∀ p, (m.world.links.claim p).1 = Links.claimFor (Links.venueOf pairing) p ∨
        (m.world.links.claim p).1 = "") ∧
      ((∀ p, (m.world.links.claim p).1 = Links.claimFor (Links.venueOf pairing) p) ↔
        (marks ts).getLast? ≠ some none ∨ Links.venueOf pairing = none) := by
  obtain ⟨pre, u, post, l, pairing, hts, hu, hpost, htells, hlast⟩ := h.in_force hpaired
  refine ⟨pre, u, post, l, pairing, hts, hu, hpost, htells, h.links_fresh.pair_eq, ?_⟩
  have hvenue := h.venue_eq
  rcases last_mark hlast with hkept | hforgotten
  · have hclaim (p : PlayerNumber) :
        (m.world.links.claim p).1 = Links.claimFor (Links.venueOf pairing) p := by
      rw [h.links_fresh.claim_eq, hvenue, hkept]
      rfl
    refine ⟨fun p => .inl (hclaim p), fun _ => .inl ?_, fun _ => hclaim⟩
    rw [hkept]
    exact nofun
  · have hclaim (p : PlayerNumber) : (m.world.links.claim p).1 = "" := by
      rw [h.links_fresh.claim_eq, hvenue, hforgotten]
      rfl
    refine ⟨fun p => .inr (hclaim p), fun hfresh => .inr ?_, fun hnone p => ?_⟩
    · exact Links.venue_of_claimFor ((hfresh .first).symm.trans (hclaim .first))
    · rw [hclaim, hnone.resolve_left fun hne => hne hforgotten]
      rfl

end Run

namespace Sample

/-- The server unpairs the device, and the worker is about to forget the pairing. -/
def leave : List (Machine.Move Activity Reply) :=
  [.call (.request ⟨.unpair, 0, false⟩), .caller 0 none, .take 0, .next 0, .worker 0 none, .worker 0 none,
    .worker 0 (some (.text "")), .worker 0 none]

/-- The other worker sends a heartbeat, and the server replies that the device is paired. -/
def pairAgain : List (Machine.Move Activity Reply) :=
  [.call (.requestBeat false), .caller 0 none, .caller 0 none, .take 1, .next 1] ++
    List.replicate 4 (.worker 1 none) ++
    [.worker 1 (some (.pairing { paired := true, venue := some 78 }))] ++
    List.replicate 2 (.worker 1 none)

end Sample

set_option maxRecDepth 100000 in
/-- **A pairing that is forgotten as soon as it is found**: the device is paired at the machine of a
venue, and no link says so. -/
theorem paired_without_venue : ∃ ts m, Run Sample.pair 0 ts m ∧ m.world.status = .paired ∧
    (∀ p, (m.world.links.claim p).1 = "") ∧ ∃ pairing, (recorded ts).getLast? = some pairing ∧
      Links.venueOf pairing ≠ none ∧ (marks ts).getLast? = some none := by
  have hcourse : ((system Sample.pair 0).course? program Activity.isHostCall
      (Sample.arrive ++ Sample.signIn ++ Sample.leave ++ Sample.pairAgain ++ [.worker 0 none])).any
      (fun x => decide (x.2.world.status = .paired ∧
        (recorded x.1).getLast? = some { paired := true, venue := some 78 } ∧
        (marks x.1).getLast? = some none)) = true := by
    decide +kernel
  obtain ⟨ts, m, hrun, hfound⟩ := Machine.exists_course hcourse
  obtain ⟨hpaired, hrecorded, hmarks⟩ := of_decide_eq_true hfound
  refine ⟨ts, m, hrun, hpaired, fun p => ?_, _, hrecorded, nofun, hmarks⟩
  rw [(Run.links_fresh hrun).claim_eq, Run.venue_eq hrun, hmarks]
  rfl

end Engine

end ArcadeUplink
