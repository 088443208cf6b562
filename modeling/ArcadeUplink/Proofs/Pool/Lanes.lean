import ArcadeUplink.Proofs.Pool.History

/-!
# Lanes one task at a time

What holds of every lane after every history, for any number of workers: one
holder exactly if the lane is owned, no task stranded, one task at most being
run, and the tasks begun in the order in which they were accepted
(`History.lane_in_order`). A lane changes only where a task is submitted to it
and where its own worker looks for the next one.

That a lane gets on is not said here: a task may take for ever.
-/

namespace ArcadeUplink.Pool

variable {α : Type} {n : Nat} {p q : Pool α} {e : Event α} {ts : List (Moment α)} {l : Lane}

/-- The lane that an event concerns: to which a task is submitted, or whose worker looks for the
next one. -/
def Event.lane? (p : Pool α) : Event α → Option Lane
  | .postTo l _ => some l
  | .deliver => match p.thread with
    | .handing l _ => some l
    | _ => none
  | .next w => match p.duty? w with
    | some (.draining l) => some l
    | _ => none
  | _ => none

theorem Event.lane?_next {w : Nat} (hd : p.duty? w = some (.draining l)) :
    (Event.next w).lane? p = some l := by
  unfold Event.lane?
  dsimp only
  rw [hd]

theorem Event.lane?_deliver {task : α} (ht : p.thread = .handing l task) :
    Event.lane? p .deliver = some l := by
  unfold Event.lane?
  dsimp only
  rw [ht]

/-! ## The frame -/

/-- **What does not concern a lane leaves it as it is.** -/
theorem Change.lane_same (h : Change p e q) (hl : e.lane? p ≠ some l) :
    q.lanes.get l = p.lanes.get l := by
  cases h with
  | queued hdoor => exact PerLane.get_set_of_ne _ _ fun hm => hl (congrArg some hm.symm)
  | picked hd hwait =>
    exact PerLane.get_set_of_ne _ _ fun hm => hl (hm ▸ Event.lane?_next hd)
  | released hd hwait =>
    exact PerLane.get_set_of_ne _ _ fun hm => hl (hm ▸ Event.lane?_next hd)
  | delivered hthread hdoor =>
    exact PerLane.get_set_of_ne _ _ fun hm => hl (hm ▸ Event.lane?_deliver hthread)
  | _ => rfl

/-- A worker's own events concern no lane but the one he is bound to. -/
theorem Event.lane?_of_worker {w : Nat} {d : Duty α} (hw : e.worker? = some w)
    (hd : p.duty? w = some d) (hl : d.isAt l = false) : e.lane? p ≠ some l := by
  cases e with
  | next v =>
    cases hw
    unfold Event.lane?
    dsimp only
    rw [hd]
    cases d with
    | draining m =>
      intro h
      exact Bool.eq_false_iff.mp hl (decide_eq_true (Option.some.inj h))
    | _ => exact fun h => nomatch h
  | postTo m task => cases hw
  | deliver => cases hw
  | _ => exact fun h => nomatch h

/-! ## First come, first served -/

theorem duty?_assign {w : Nat} {d : Duty α} (h : p.duty? w = some d) (d' : Duty α) :
    (p.assign w d').duty? w = some d' := by
  obtain ⟨x, hx, -⟩ := Option.map_eq_some_iff.mp h
  unfold duty? assign
  dsimp only
  rw [List.getElem?_modify_eq, hx]
  rfl

/-- A worker who takes a job begins what his new duty says. -/
theorem Moment.begun?_take {w : Nat} {d : Duty α} (hd : p.duty? w = some d)
    (jobs : List (Nat × Job α)) (d' : Duty α) (lane : Option Lane) :
    (Moment.mk p (.take w) ({ p with jobs }.assign w d')).begun? lane = d'.taskIn? lane := by
  have hd' : ({ p with jobs }.assign w d').duty? w = some d' :=
    duty?_assign (p := { p with jobs }) hd d'
  unfold Moment.begun?
  dsimp only
  rw [hd', Option.bind_some]

/-- A worker who looks for the next task of his lane begins what his new duty says. -/
theorem Moment.begun?_next {w : Nat} {d : Duty α} (hd : p.duty? w = some d)
    (lanes : PerLane (LaneQueue α)) (d' : Duty α) (lane : Option Lane) :
    (Moment.mk p (.next w) ({ p with lanes }.assign w d')).begun? lane = d'.taskIn? lane := by
  have hd' : ({ p with lanes }.assign w d').duty? w = some d' :=
    duty?_assign (p := { p with lanes }) hd d'
  unfold Moment.begun?
  dsimp only
  rw [hd', Option.bind_some]

theorem Moment.arrival?_postTo (m l : Lane) (task : α) :
    (Moment.mk p (.postTo m task) q).arrival? l =
      if m = l ∧ (p.postTo m task).1 = true then some task else none := by
  unfold Moment.arrival? Moment.submitted?
  dsimp only
  have hsame : (some l = some m ∧ (p.postTo m task).1 = true) =
      (m = l ∧ (p.postTo m task).1 = true) :=
    propext (and_congr_left' (Option.some_inj.trans eq_comm))
  exact Option.or_none.trans (ite_congr hsame (fun _ => rfl) fun _ => rfl)

theorem Moment.arrival?_deliver {m : Lane} {task : α} (h : p.thread = .handing m task) (l : Lane) :
    (Moment.mk p .deliver q).arrival? l =
      if m = l ∧ (p.postTo m task).1 = true then some task else none := by
  unfold Moment.arrival? Moment.delivered?
  dsimp only
  rw [h]
  exact Option.none_or

theorem Job.taskIn?_duty (j : Job α) (l : Lane) : j.duty.taskIn? (some l) = none := by
  cases j <;> rfl

theorem waiting_push (m l : Lane) (task : α) :
    ((p.lanes.set m ((p.lanes.get m).push task)).get l).waiting =
      (p.lanes.get l).waiting ++ if m = l then [task] else [] := by
  rw [PerLane.get_set]
  by_cases hml : m = l
  · rw [if_pos hml.symm, if_pos hml, hml]
    rfl
  · rw [if_neg (Ne.symm hml), if_neg hml, List.append_nil]

/-- **A lane is a queue**: whatever a worker begins was at its front, and whatever is accepted is
at its end from then on. -/
theorem Change.waiting (h : Change p e q) (l : Lane) :
    ((Moment.mk p e q).begun? (some l)).toList ++ (q.lanes.get l).waiting =
      (p.lanes.get l).waiting ++ ((Moment.mk p e q).arrival? l).toList := by
  cases h with
  | @queued crew m task hdoor =>
    refine (waiting_push m l task).trans ?_
    rw [Moment.arrival?_postTo, postTo_of_door hdoor]
    by_cases hml : m = l
    · rw [if_pos hml, if_pos ⟨hml, rfl⟩]
      rfl
    · rw [if_neg hml, if_neg fun h => hml h.1]
      rfl
  | @notQueued m task hdoor =>
    rw [Moment.arrival?_postTo, postTo_of_closed hdoor, if_neg fun h => nomatch h.2]
    exact (List.append_nil _).symm
  | @took w crew j jobs hw hpop =>
    have hd : p.duty? w = some .idle := duty?_of_worker hw
    rw [Moment.begun?_take hd, j.taskIn?_duty]
    exact (List.append_nil _).symm
  | @picked w m task rest hd hwait =>
    rw [Moment.begun?_next hd, assign_lanes, PerLane.get_set]
    by_cases hml : m = l
    · subst hml
      rw [if_pos rfl, hwait, Duty.taskIn?, if_pos rfl]
      exact (List.append_nil _).symm
    · rw [if_neg (Ne.symm hml), Duty.taskIn?, if_neg fun h => hml (Option.some.inj h)]
      exact (List.append_nil _).symm
  | @released w m hd hwait =>
    rw [Moment.begun?_next hd, assign_lanes, PerLane.get_set]
    by_cases hml : m = l
    · rw [if_pos hml.symm, hml]
      exact (List.append_nil _).symm
    · rw [if_neg (Ne.symm hml)]
      exact (List.append_nil _).symm
  | @delivered crew m task hthread hdoor =>
    refine (waiting_push m l task).trans ?_
    rw [Moment.arrival?_deliver hthread, postTo_of_door hdoor]
    by_cases hml : m = l
    · rw [if_pos hml, if_pos ⟨hml, rfl⟩]
      rfl
    · rw [if_neg hml, if_neg fun h => hml h.1]
      rfl
  | @notDelivered m task hthread hdoor =>
    rw [Moment.arrival?_deliver hthread, postTo_of_closed hdoor, if_neg fun h => nomatch h.2]
    exact (List.append_nil _).symm
  | _ => exact (List.append_nil _).symm

/-- **First come, first served**: the tasks of a lane that were begun are the first ones that
were accepted, and the others wait, in the same order. -/
theorem History.arrived_eq (h : History n ts p) (l : Lane) :
    arrived ts l = begun ts (some l) ++ (p.lanes.get l).waiting := by
  induction h with
  | fresh => cases l <;> rfl
  | step _ _ hq ih =>
    unfold arrived begun at ih ⊢
    rw [filterMap_concat, filterMap_concat, ih, List.append_assoc, List.append_assoc,
      ← (change_of_after? hq).waiting l]

/-! ## Every lane after every history -/

/-- Every moment of a history goes on with what was before. -/
theorem History.exists_before (h : History n ts p) {t : Moment α} (ht : t ∈ ts) :
    ∃ us, History n us t.before ∧ t.event.Timely us ∧ t.before.after? t.event = some t.after := by
  induction h with
  | fresh => cases ht
  | step hts htimely hq ih =>
    rcases List.mem_append.mp ht with ht | ht
    · exact ih ht
    · rw [List.mem_singleton.mp ht]
      exact ⟨_, hts, htimely, hq⟩

theorem History.exists_change (h : History n ts p) {t : Moment α} (ht : t ∈ ts) :
    Change t.before t.event t.after := by
  obtain ⟨us, -, -, hq⟩ := h.exists_before ht
  exact change_of_after? hq

/-- What holds of a lane. -/
structure InOrder (ts : List (Moment α)) (p : Pool α) (l : Lane) : Prop where
  one_holder : p.holders l ≤ 1
  held_iff_owned : p.holders l = 1 ↔ (p.lanes.get l).owned = true
  not_stranded : (p.lanes.get l).waiting ≠ [] → (p.lanes.get l).owned = true
  one_at_work : (p.atWork l).length ≤ 1
  /-- The tasks that were begun are the first ones that were accepted. -/
  first_come : begun ts (some l) <+: arrived ts l
  /-- Only what concerns the lane changes it. -/
  undisturbed : ∀ t ∈ ts, t.event.lane? t.before ≠ some l →
    t.after.lanes.get l = t.before.lanes.get l
  /-- What a worker does who is bound to no lane, or to another one, does not concern it. -/
  by_others : ∀ t ∈ ts, ∀ w d, t.event.worker? = some w → t.before.duty? w = some d →
    d.isAt l = false → t.after.lanes.get l = t.before.lanes.get l

/-- **The tasks of a lane run one at a time and in order.** Whatever was submitted to a pool, by
whomever and with the steps of all workers in any order, every lane has at most one holder, and
has one exactly if it is owned; a lane in which tasks wait is owned; at most one task of it is
being run; those begun so far are, in order, the first ones that were accepted; and only a
submission to it or its own worker changed it. -/
theorem History.lane_in_order (h : History n ts p) (l : Lane) : InOrder ts p l where
  one_holder := by
    rw [h.orderly.holders_eq]
    split <;> omega
  held_iff_owned := by
    rw [h.orderly.holders_eq]
    cases (p.lanes.get l).owned <;> decide
  not_stranded hwait := by
    rw [← Bool.not_eq_false]
    exact fun howned => hwait (h.orderly.stranded l howned)
  one_at_work := h.orderly.atWork_le_one l
  first_come := ⟨_, (h.arrived_eq l).symm⟩
  undisturbed _ ht hl := (h.exists_change ht).lane_same hl
  by_others _ ht _ _ hw hd hl := (h.exists_change ht).lane_same (Event.lane?_of_worker hw hd hl)

/-- Two workers and three tasks of one lane; a worker has begun the second one. -/
def Sample.rush : List (Event Nat) :=
  [.beginStart, .advance none, .postTo .gameData 1, .postTo .gameData 2, .take 1, .next 1,
    .postTo .gameData 3, .finish 1, .next 1]

/-- A history in which two of three tasks were begun, in order. -/
theorem rush_in_order :
    ∃ ts p, History 2 ts p ∧ p.atWork .gameData = [2] ∧ InOrder ts p .gameData := by
  have hfound : (continue? [] (ofSize 2) Sample.rush).any
      (fun x => decide (x.2.atWork .gameData = [2])) = true := by
    decide +kernel
  obtain ⟨ts, p, h, hat⟩ := exists_history hfound
  exact ⟨ts, p, h, of_decide_eq_true hat, History.lane_in_order h .gameData⟩

end ArcadeUplink.Pool
