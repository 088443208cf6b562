import ArcadeUplink.Proofs.Session.Runs

/-!
# What delivered means

A game counts as delivered once the ledger was told of its latest revision. For
this to mean that the server has its latest snapshot, whatever the ledger is told
of must have been begun since the game entered it. An acknowledgement is `Stray`
if that is not so: the game was dropped while an upload for it was under way,
recorded anew, and then told of a revision that counts the snapshots of before.

The main result, `Run.delivered_means_accepted_iff`, says exactly when the numbers of a game can
be trusted: when no stray acknowledgement has reached its latest revision. A game
that never leaves the ledger gets none, `Run.delivered_of_stays`.
-/

namespace ArcadeUplink

namespace Deed

variable {id : String} {ds l : List Deed} {k n : Nat}

/-- The ledger was told of a revision of a game, but no upload for it was begun since the game
entered the ledger. -/
def Stray (id : String) (ds : List Deed) (k : Nat) : Prop :=
  ∃ before after, life id ds = some (before ++ acknowledged id k :: after) ∧
    ∀ u j, begun u j ∈ before → u.session ≠ id

/-- The server has accepted the latest snapshot of a game. -/
def LatestAccepted (id : String) (ds : List Deed) (r : GameRecord) : Prop :=
  ∃ u k, (u, k) ∈ acceptances id ds ∧ u.data = r.latest

theorem delivered_eq : delivered id l = (acknowledgements id l).max?.getD 0 :=
  List.foldl_max.trans (Nat.zero_max _)

/-- The latest revision is no later than a number if no revision is. -/
theorem delivered_le_iff : delivered id l ≤ n ↔ ∀ k, acknowledged id k ∈ l → k ≤ n := by
  simp only [← mem_acknowledgements, delivered_eq]
  cases h : (acknowledgements id l).max? with
  | none =>
    rw [List.max?_eq_none_iff.mp h]
    simp
  | some a => exact List.max?_le_iff h

/-- The latest revision is one of those of which the ledger was told. -/
theorem acknowledged_delivered (h : delivered id l ≠ 0) :
    acknowledged id (delivered id l) ∈ l := by
  rw [← mem_acknowledgements]
  rw [delivered_eq] at h ⊢
  cases ha : (acknowledgements id l).max? with
  | none =>
    rw [ha] at h
    exact absurd rfl h
  | some a => exact List.max?_mem ha

/-- The ledger was told of the latest revision if that is what is delivered. -/
theorem acknowledged_of_delivered {s : Snapshot} (hlast : (recordings id l).getLast? = some s)
    (h : delivered id l = (recordings id l).length) :
    acknowledged id (recordings id l).length ∈ l := by
  have hpos : delivered id l ≠ 0 := by
    rw [h]
    intro hzero
    rw [List.eq_nil_of_length_eq_zero hzero] at hlast
    cases hlast
  have hk := acknowledged_delivered hpos
  rw [h] at hk
  exact hk

/-- What becomes of a game from a point of its life on. -/
theorem life_prefix {before mid after : List Deed} {l : List Deed}
    (h : life id (before ++ mid ++ after) = some (mid ++ after))
    (hmid : life id (before ++ mid) = some l) : l = mid := by
  have hall : ∀ d ∈ after, d.removes id = false := fun d hd =>
    removes_of_mem_life h (List.mem_append_right _ hd)
  rw [life_append hmid hall] at h
  exact List.append_cancel_right (Option.some.inj h)

/-- **Where the ledger has its revisions from**: in the life of a game, either a stray
acknowledgement, or an upload that was begun in that life with the latest snapshot of its time. -/
theorem Lawful.acknowledged_cases (h : Lawful ds) (hlife : life id ds = some l)
    (hk : acknowledged id k ∈ l) :
    Stray id ds k ∨ ∃ u before after, l = before ++ begun u k :: after ∧ u.session = id ∧
      (recordings id before).getLast? = some u.data ∧ k = (recordings id before).length ∧
      accepted u k ∈ after := by
  obtain ⟨b, c, rfl⟩ := List.append_of_mem hk
  obtain ⟨front, rfl, hfront, -⟩ := life_suffix hlife
  have hsplit : Lawful ((front ++ b) ++ acknowledged id k :: c) := by
    rw [List.append_assoc]
    exact h
  obtain ⟨u, before, mid, mid', hu, heq, hallowed, hmid, hmid'⟩ := hsplit.acknowledged_origin
  obtain ⟨-, a, ha, -, hlast, hlen⟩ := hallowed
  rw [hu] at ha hlast hlen
  obtain ⟨b', rfl, hb⟩ | ⟨c', rfl, hb⟩ := List.append_eq_append_iff.mp heq.symm
  · cases b' with
    | nil =>
      -- the upload was begun just as the game entered the ledger, which held nothing of it then
      rw [List.append_nil] at hfront
      cases hfront.symm.trans ha
    | cons d b' =>
      obtain ⟨rfl, htail⟩ := List.cons.inj hb
      refine .inl ⟨b, c, hlife, ?_⟩
      intro v j hv
      have hmem : begun v j ∈ mid ++ accepted u k :: mid' := htail ▸ List.mem_append_right _ hv
      rcases List.mem_append.mp hmem with hm | hm
      · cases hmid _ hm
      · rcases List.mem_cons.mp hm with hm | hm
        · cases hm
        · cases hmid' _ hm
  · subst hb
    have hlife' : life id (front ++ c' ++ (begun u k :: (mid ++ accepted u k :: mid') ++
        acknowledged id k :: c)) =
          some (c' ++ (begun u k :: (mid ++ accepted u k :: mid') ++ acknowledged id k :: c)) := by
      simpa only [List.append_assoc] using hlife
    cases life_prefix hlife' ha
    exact .inr ⟨u, a, _, by rw [List.append_assoc]; rfl, hu, hlast, hlen, by simp⟩

/-- A revision that is not stray counts what was recorded by then. -/
theorem Lawful.le_of_not_stray (h : Lawful ds) (hlife : life id ds = some l)
    (hk : acknowledged id k ∈ l) (hs : ¬Stray id ds k) : k ≤ (recordings id l).length := by
  obtain ⟨u, before, after, rfl, -, -, hlen, -⟩ :=
    (h.acknowledged_cases hlife hk).resolve_left hs
  rw [recordings_append, List.length_append, hlen]
  exact Nat.le_add_right _ _

/-- If the ledger was told of the latest revision, and not by a stray acknowledgement, then the
latest snapshot was accepted: nothing was recorded since its upload was begun. -/
theorem Lawful.accepted_of_not_stray (h : Lawful ds) (hlife : life id ds = some l) {s : Snapshot}
    (hlast : (recordings id l).getLast? = some s)
    (hk : acknowledged id (recordings id l).length ∈ l)
    (hs : ¬Stray id ds (recordings id l).length) :
    ∃ u j, accepted u j ∈ l ∧ u.session = id ∧ u.data = s := by
  obtain ⟨u, before, after, hl, hu, hdata, hlen, hacc⟩ :=
    (h.acknowledged_cases hlife hk).resolve_left hs
  have hrecs : recordings id l = recordings id before ++
      recordings id (begun u (recordings id l).length :: after) := by
    rw [← recordings_append, ← hl]
  have hnil : recordings id (begun u (recordings id l).length :: after) = [] := by
    have hlength := congrArg List.length hrecs
    rw [List.length_append] at hlength
    exact List.eq_nil_of_length_eq_zero (by omega)
  rw [hnil, List.append_nil] at hrecs
  rw [hrecs, hdata] at hlast
  refine ⟨u, (recordings id l).length, ?_, hu, Option.some.inj hlast⟩
  rw [hl] at hacc ⊢
  exact List.mem_append_right _ (List.mem_cons_of_mem _ hacc)

/-- **When the numbers can be trusted**: what is delivered is no later than what was recorded, and
if it is the latest then `A`, exactly if that is so of every stray acknowledgement. Here `A` is
anything that follows from the acceptance of the latest snapshot. -/
theorem Lawful.delivered_iff (h : Lawful ds) (hlife : life id ds = some l) {s : Snapshot}
    (hlast : (recordings id l).getLast? = some s) {A : Prop}
    (hA : ∀ u j, accepted u j ∈ l → u.session = id → u.data = s → A) :
    (delivered id l ≤ (recordings id l).length ∧
        (delivered id l = (recordings id l).length → A)) ↔
      ∀ j, Stray id ds j →
        j < (recordings id l).length ∨ j = (recordings id l).length ∧ A := by
  constructor
  · rintro ⟨hle, hlatest⟩ j ⟨before, after, hj, -⟩
    cases hlife.symm.trans hj
    have hjle : j ≤ delivered id (before ++ acknowledged id j :: after) :=
      delivered_le_iff.mp (Nat.le_refl _) j (by simp)
    obtain hlt | heq := Nat.lt_or_eq_of_le (Nat.le_trans hjle hle)
    · exact .inl hlt
    · exact .inr ⟨heq, hlatest (Nat.le_antisymm hle (heq ▸ hjle))⟩
  · intro hstray
    constructor
    · apply delivered_le_iff.mpr
      intro j hj
      by_cases hs : Stray id ds j
      · obtain hlt | ⟨heq, -⟩ := hstray j hs
        · exact Nat.le_of_lt hlt
        · exact Nat.le_of_eq heq
      · exact h.le_of_not_stray hlife hj hs
    · intro heq
      have hk := acknowledged_of_delivered hlast heq
      by_cases hs : Stray id ds (recordings id l).length
      · obtain hlt | ⟨-, ha⟩ := hstray _ hs
        · exact absurd hlt (Nat.lt_irrefl _)
        · exact ha
      · obtain ⟨u, j, hmem, hu, hdata⟩ := h.accepted_of_not_stray hlife hlast hk hs
        exact hA u j hmem hu hdata

/-- A game that never leaves the ledger gets no stray acknowledgement. -/
theorem Lawful.not_stray_of_stays (h : Lawful ds) (hstays : ∀ d ∈ ds, d.removes id = false)
    (k : Nat) : ¬Stray id ds k := by
  rintro ⟨b, c, hlife, hnone⟩
  obtain ⟨front, hfront, hgone, -⟩ := life_suffix hlife
  rw [hfront] at h hstays
  have hsplit : Lawful ((front ++ b) ++ acknowledged id k :: c) := by
    rw [List.append_assoc]
    exact h
  obtain ⟨u, before, mid, mid', hu, heq, ⟨-, a, ha, -⟩, -⟩ := hsplit.acknowledged_origin
  rw [hu] at ha
  obtain ⟨b', hb', -⟩ | ⟨c', -, hb⟩ := List.append_eq_append_iff.mp heq.symm
  · -- the upload was begun in an earlier life, which has not ended
    have hgoes : life id front = some (a ++ b') := by
      rw [hb']
      refine life_append ha fun d hd => hstays d (List.mem_append_left _ ?_)
      rw [hb']
      exact List.mem_append_right _ hd
    cases hgone.symm.trans hgoes
  · exact hnone u k (hb ▸ List.mem_append_right _ List.mem_cons_self) hu

end Deed

namespace Engine

variable {s : Setup} {now : Nat} {ts : List Transition} {m : System} {id : String} {r : GameRecord}

open Deed

/-- When the numbers of a game can be trusted, by the deeds. -/
theorem Sound.delivered_iff {ds : List Deed} (h : Sound ds m)
    (hr : m.world.ledger.get? id = some r) :
    (r.delivered ≤ r.revision ∧ (r.isDelivered = true → LatestAccepted id ds r)) ↔
      ∀ k, Stray id ds k → k < r.revision ∨ k = r.revision ∧ LatestAccepted id ds r := by
  obtain ⟨l, hlife, hacc⟩ := h.kept.account hr
  have hiff := h.lawful.delivered_iff hlife hacc.latest (A := LatestAccepted id ds r)
    fun u k hmem hu hdata => by
      obtain ⟨front, rfl, -⟩ := life_suffix hlife
      exact ⟨u, k, mem_acceptances.mpr ⟨List.mem_append_right _ hmem, hu⟩, hdata⟩
  rw [← hacc.revision, ← hacc.delivered] at hiff
  simpa only [GameRecord.isDelivered, decide_eq_true_eq] using hiff

/-- **Delivered means accepted, but for stray acknowledgements.** After any run, a game that the
ledger holds has no later revision delivered than recorded, and its latest snapshot accepted if it
counts as delivered, exactly if no stray acknowledgement has reached its latest revision: every one
is of an earlier revision, or the server has accepted the latest snapshot all the same. -/
theorem Run.delivered_means_accepted_iff (h : Run s now ts m)
    (hr : m.world.ledger.get? id = some r) :
    (r.delivered ≤ r.revision ∧ (r.isDelivered = true → LatestAccepted id (deeds ts) r)) ↔
      ∀ k, Stray id (deeds ts) k →
        k < r.revision ∨ k = r.revision ∧ LatestAccepted id (deeds ts) r :=
  h.sound.delivered_iff hr

/-- A game is dropped for the sake of sixteen others while an upload of it is under way, and comes
back before the server accepts. -/
def Sample.comeback : List (Machine.Move Activity Reply) :=
  arrive ++ signIn ++ send { active := true, session := "game" } ++ beginUpload ++
    (List.range 16).flatMap (fun i =>
      send { active := true, session := "other" ++ String.ofList (List.replicate i '+') }) ++
    send { active := false, session := "game" } ++ accept 1

set_option maxRecDepth 100000 in
/-- **Delivered without being accepted**: there is a run after which a game counts as delivered
though its latest snapshot was never accepted, by the fault of a stray acknowledgement. -/
theorem delivered_but_not_accepted :
    ∃ ts m r, Run Sample.setup 0 ts m ∧ m.world.ledger.get? "game" = some r ∧
      r.isDelivered = true ∧ ¬LatestAccepted "game" (deeds ts) r ∧
      ∃ k, Stray "game" (deeds ts) k ∧ r.revision ≤ k := by
  have hcourse : ((system Sample.setup 0).course? program Activity.isHostCall Sample.comeback).any
      (fun x => (x.2.world.ledger.get? "game").any fun r => r.isDelivered &&
        (acceptances "game" (deeds x.1)).all fun a => a.1.data ≠ r.latest) = true := by
    decide +kernel
  obtain ⟨ts, m, hrun, hfound⟩ := Machine.exists_course hcourse
  obtain ⟨r, hr, hp⟩ := (Option.any_eq_true _ _).mp hfound
  obtain ⟨hdelivered, hall⟩ := Bool.and_eq_true_iff.mp hp
  have hnot : ¬LatestAccepted "game" (deeds ts) r := by
    rintro ⟨u, k, hmem, hdata⟩
    exact of_decide_eq_true (List.all_eq_true.mp hall _ hmem) hdata
  refine ⟨ts, m, r, hrun, hr, hdelivered, hnot, ?_⟩
  by_contra hnone
  refine hnot (((Run.delivered_means_accepted_iff hrun hr).mpr fun k hk => .inl ?_).2 hdelivered)
  exact Nat.lt_of_not_le fun hle => hnone ⟨k, hk, hle⟩

/-- **A game that never leaves** has no later revision delivered than recorded, and its latest
snapshot accepted if it counts as delivered. -/
theorem Run.delivered_of_stays (h : Run s now ts m) (hr : m.world.ledger.get? id = some r)
    (hstays : ∀ d ∈ deeds ts, d.removes id = false) :
    r.delivered ≤ r.revision ∧ (r.isDelivered = true → LatestAccepted id (deeds ts) r) :=
  (h.sound.delivered_iff hr).mpr fun k hk => absurd hk (h.sound.lawful.not_stray_of_stays hstays k)

end Engine

end ArcadeUplink
