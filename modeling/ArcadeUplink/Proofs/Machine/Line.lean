import ArcadeUplink.Proofs.Machine.Stock

/-!
# A lane in a row

The line of a lane is the task that is being run, followed by those that wait.
It changes only at its ends: a turn of the task in front replaces it by what
remains of it, whatever is submitted comes to stand at the end, and a task that is
begun stays where it was (`Chore.line`, `line_idle`). So whoever stands behind
another one stays behind him for as long as both are there.
-/

namespace ArcadeUplink

namespace Pool

variable {α : Type} {p q : Pool α}

/-- The task of a lane that is being run, followed by those that wait. -/
def line (p : Pool α) (l : Lane) : List α := p.atWork l ++ (p.lanes.get l).waiting

theorem filterMap_sublist_filterMap {β γ : Type} {f g : β → Option γ}
    (h : ∀ b c, f b = some c → g b = some c) (bs : List β) :
    (bs.filterMap f).Sublist (bs.filterMap g) := by
  induction bs with
  | nil => exact .refl _
  | cons b bs ih =>
    cases hf : f b with
    | some c =>
      rw [List.filterMap_cons_some hf, List.filterMap_cons_some (h b c hf)]
      exact ih.cons_cons c
    | none =>
      rw [List.filterMap_cons_none hf]
      cases hg : g b with
      | some c =>
        rw [List.filterMap_cons_some hg]
        exact ih.cons c
      | none =>
        rw [List.filterMap_cons_none hg]
        exact ih

/-- Whatever is in a line is there, or a worker is at it. -/
theorem line_sublist_load (p : Pool α) (l : Lane) : (p.line l).Sublist (p.load l) := by
  refine (filterMap_sublist_filterMap (fun w a ha => ?_) p.workers).append_right _
  cases hd : w.duty with
  | running lane task =>
    rw [hd] at ha
    exact (Option.ite_none_right_eq_some.mp ha).2
  | _ =>
    rw [hd] at ha
    cases ha

theorem line_of_same {l : Lane} (hwork : q.atWork l = p.atWork l)
    (hwait : (q.lanes.get l).waiting = (p.lanes.get l).waiting) : q.line l = p.line l := by
  unfold line
  rw [hwork, hwait]

/-- A worker who looks for the next task leaves the line as it is. -/
theorem line_next {w : Nat} (hq : p.next w = some q) (hp : p.Orderly) (l : Lane) :
    q.line l = p.line l := by
  have hone := (hp.next hq).atWork_le_one l
  obtain ⟨m, hd, ⟨task, rest, hwait, rfl⟩ | ⟨-, rfl⟩⟩ := next_cases hq
  · by_cases hml : m = l
    · subst hml
      let p' : Pool α := { p with lanes := p.lanes.set m { p.lanes.get m with waiting := rest } }
      obtain ⟨before, after, hb, ha⟩ := atWork_assign (p := p') hd (.running (some m) task) m
      rw [ha, Duty.taskOn?_running_self] at hone
      obtain ⟨rfl, rfl⟩ := eq_nil_of_length_le_one hone
      have hbefore : p.atWork m = [] := hb
      have hafter : (p'.assign w (.running (some m) task)).atWork m = [task] := by
        rw [ha, Duty.taskOn?_running_self]
        rfl
      unfold line
      rw [hbefore, hafter, assign_lanes, PerLane.get_set_self, hwait]
      rfl
    · refine line_of_same (atWork_assign_of_none (p := { p with lanes := _ }) hd rfl
        (Duty.taskOn?_running_of_ne hml task)) ?_
      rw [assign_lanes, PerLane.get_set_of_ne _ _ (Ne.symm hml)]
  · refine line_of_same (atWork_assign_of_none (p := { p with lanes := _ }) hd rfl rfl) ?_
    rw [assign_lanes, PerLane.get_set]
    split
    · next hlm => rw [hlm]
    · rfl

/-- **A chore adds to a line only at its end**, and only what was elsewhere in the pool. -/
theorem Chore.line (h : Chore p q) (hp : p.Orderly) (l : Lane) :
    ∃ new, q.line l = p.line l ++ new ∧ ∀ a ∈ new, p.Elsewhere l a := by
  have hsame (hline : q.line l = p.line l) :
      ∃ new, q.line l = p.line l ++ new ∧ ∀ a ∈ new, p.Elsewhere l a :=
    ⟨[], by rw [hline, List.append_nil], nofun⟩
  cases h with
  | take hq =>
    obtain ⟨hd, c, j, jobs, -, rfl⟩ := take_cases hq
    exact hsame (line_of_same
      (atWork_assign_of_none (p := { p with jobs }) hd rfl (j.taskOn?_duty l)) rfl)
  | next hq => exact hsame (line_next hq hp l)
  | retire hq =>
    obtain ⟨hd, rfl⟩ := retire_cases hq
    exact hsame (line_of_same (atWork_assign_of_none hd rfl rfl) rfl)
  | fire hq =>
    obtain ⟨x, rest, -, rfl⟩ := fire_cases hq
    exact hsame rfl
  | @deliver r hq =>
    obtain ⟨m, task, hthread, hr⟩ := deliver_cases hq
    obtain ⟨new, hnew, hmem⟩ := waiting_postTo p l m task
    have huse : Use (fun _ _ => True) p (p.postTo m task).2.1 := .postTo trivial
    refine ⟨new, ?_, fun a ha => ?_⟩
    · unfold Pool.line
      rw [hr]
      show (p.postTo m task).2.1.atWork l ++ ((p.postTo m task).2.1.lanes.get l).waiting = _
      rw [huse.atWork, hnew, List.append_assoc]
    · obtain ⟨rfl, rfl⟩ := hmem a ha
      exact .inr (.inl hthread)
  | dismiss hq =>
    rw [dismiss_eq hq]
    exact ⟨[], (List.append_nil _).symm, nofun⟩

end Pool

namespace Machine

open Pool (Lane)

variable {σ α ρ ω : Type} {P : Program σ α ρ ω} {m m' : Machine σ α} {move : Move α ρ}
  {events : List ω} {l : Lane}

/-- **Nobody's turn and the line**: only its end changes, by what was elsewhere in the pool. -/
theorem line_idle (hp : m.pool.Orderly) (h : m.step P move = some (m', events))
    (hu : Transition.turn? ⟨m, move, m'⟩ = none) (l : Lane) :
    ∃ new, m'.pool.line l = m.pool.line l ++ new ∧ ∀ a ∈ new, m.pool.Elsewhere l a := by
  have hsame (hq : m'.pool = m.pool) :
      ∃ new, m'.pool.line l = m.pool.line l ++ new ∧ ∀ a ∈ new, m.pool.Elsewhere l a :=
    ⟨[], by rw [hq, List.append_nil], nofun⟩
  obtain ⟨-, ⟨a, -, -, hq⟩ | ⟨-, hq | hchore⟩⟩ := step_idle h hu
  · exact hsame hq
  · exact hsame hq
  · exact hchore.line hp l

end Machine

end ArcadeUplink
