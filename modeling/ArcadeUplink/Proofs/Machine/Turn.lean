import ArcadeUplink.Proofs.Machine.Course
import ArcadeUplink.Proofs.Pool.Custody

/-!
# Whose turn it is

A step of a machine is the turn of an activity, or else it changes nothing but
the pool, the callers or the time. `step_turn` and `step_idle` say what comes of
either. From them follows what every step keeps: order in the pool, the
conditions on all activities (`Tended.step`), and that the tasks of a lane take
their turns one after another (`lane_step`).
-/

namespace ArcadeUplink.Machine

open Pool (Lane Use Chore)

variable {σ α ρ ω : Type} {P : Program σ α ρ ω} {mayCall : α → Bool} {m m' : Machine σ α}
  {move : Move α ρ} {events : List ω} {u : Turn α ρ}

/-- **The turn of an activity**: a caller or a worker does a step of it, and goes on with what
remains. -/
theorem step_turn (h : m.step P move = some (m', events))
    (hu : Transition.turn? ⟨m, move, m'⟩ = some u) :
    ∃ self e, P.act m.now self m.world m.pool u.activity u.reply = some e ∧
      m'.world = e.world ∧ events = e.events ∧
      ((u.lane = none ∧ m'.pool = e.pool ∧ ∃ i, m.callers[i]? = some u.activity ∧
          m'.callers = afterCall m.callers i e.rest) ∨
        (m'.callers = m.callers ∧ ∃ w, m.pool.duty? w = some (.running u.lane u.activity) ∧
          e.pool.progress w e.rest = some m'.pool)) := by
  cases move with
  | caller i reply =>
    obtain ⟨a, ha, rfl⟩ := Option.map_eq_some_iff.mp hu
    obtain ⟨b, hb, hact⟩ := Option.bind_eq_some_iff.mp h
    cases ha.symm.trans hb
    obtain ⟨e, he, heq⟩ := Option.map_eq_some_iff.mp hact
    cases heq
    exact ⟨none, e, he, rfl, rfl, .inl ⟨rfl, rfl, i, ha, rfl⟩⟩
  | worker w reply =>
    unfold Transition.turn? at hu
    unfold step at h
    dsimp only at hu h
    split at hu
    · next l a hd =>
      cases hu
      rw [hd] at h
      obtain ⟨e, he, hprogress⟩ := Option.bind_eq_some_iff.mp h
      obtain ⟨q, hq, heq⟩ := Option.map_eq_some_iff.mp hprogress
      cases heq
      exact ⟨some w, e, he, rfl, rfl, .inr ⟨rfl, w, hd, hq⟩⟩
    · cases hu
  | _ => cases hu

/-- **Nobody's turn**: the world stays as it is. A call begins, or a worker or the timer thread
does a chore, or time passes. -/
theorem step_idle (h : m.step P move = some (m', events))
    (hu : Transition.turn? ⟨m, move, m'⟩ = none) :
    m'.world = m.world ∧
      ((∃ a, move = .call a ∧ m'.callers = m.callers ++ [a] ∧ m'.pool = m.pool) ∨
        (m'.callers = m.callers ∧ (m'.pool = m.pool ∨ Chore m.pool m'.pool))) := by
  cases move with
  | call a =>
    cases h
    exact ⟨rfl, .inl ⟨a, rfl, rfl, rfl⟩⟩
  | caller i reply =>
    obtain ⟨a, ha, -⟩ := Option.bind_eq_some_iff.mp h
    have hnone : m.callers[i]? = none := Option.map_eq_none_iff.mp hu
    cases hnone.symm.trans ha
  | worker w reply =>
    unfold Transition.turn? at hu
    unfold step at h
    dsimp only at hu h
    split at hu
    · cases hu
    · next hd =>
      split at h
      · next l a hd' => exact absurd hd' (hd l a)
      · cases h
  | take w =>
    obtain ⟨q, hq, heq⟩ := Option.map_eq_some_iff.mp h
    cases heq
    exact ⟨rfl, .inr ⟨rfl, .inr (.take hq)⟩⟩
  | next w =>
    obtain ⟨q, hq, heq⟩ := Option.map_eq_some_iff.mp h
    cases heq
    exact ⟨rfl, .inr ⟨rfl, .inr (.next hq)⟩⟩
  | retire w =>
    obtain ⟨q, hq, heq⟩ := Option.map_eq_some_iff.mp h
    cases heq
    exact ⟨rfl, .inr ⟨rfl, .inr (.retire hq)⟩⟩
  | fire =>
    obtain ⟨q, hq, heq⟩ := Option.map_eq_some_iff.mp h
    cases heq
    exact ⟨rfl, .inr ⟨rfl, .inr (.fire hq)⟩⟩
  | deliver =>
    obtain ⟨r, hr, heq⟩ := Option.map_eq_some_iff.mp h
    cases heq
    exact ⟨rfl, .inr ⟨rfl, .inr (.deliver hr)⟩⟩
  | dismiss =>
    obtain ⟨q, hq, heq⟩ := Option.map_eq_some_iff.mp h
    cases heq
    exact ⟨rfl, .inr ⟨rfl, .inr (.dismiss hq)⟩⟩
  | wait ms =>
    cases h
    exact ⟨rfl, .inr ⟨rfl, .inl rfl⟩⟩

/-! ## Conditions on all activities -/

/-- `Fit` holds of what remains of every call and every task, with the lane of the task, and `Task`
of every task that waits. -/
structure Tended (Task : Lane → α → Prop) (Fit : Option Lane → α → Prop) (m : Machine σ α) :
    Prop where
  callers : ∀ a ∈ m.callers, Fit none a
  pool : m.pool.Tended Task fun l => Fit (some l)

section Step

variable {Task Task' : Lane → α → Prop} {Fit Fit' : Option Lane → α → Prop}

theorem Tended.fit_of_turn (hm : m.Tended Task Fit) (hu : Transition.turn? ⟨m, move, m'⟩ = some u) :
    Fit u.lane u.activity := by
  cases move with
  | caller i reply =>
    obtain ⟨a, ha, rfl⟩ := Option.map_eq_some_iff.mp hu
    exact hm.callers a (List.mem_of_getElem? ha)
  | worker w reply =>
    unfold Transition.turn? at hu
    dsimp only at hu
    split at hu
    · next l a hd =>
      cases hu
      obtain ⟨lane, rfl, hfit⟩ := hm.pool.of_duty? hd
      exact hfit
    · cases hu
  | _ => cases hu

theorem mem_afterCall {callers : List α} {i : Nat} {rest : Option α} {b : α}
    (hb : b ∈ afterCall callers i rest) : b ∈ callers ∨ rest = some b := by
  cases rest with
  | none => exact .inl (List.mem_of_mem_eraseIdx hb)
  | some c =>
    obtain hb | rfl := List.mem_or_eq_of_mem_set hb
    · exact .inl hb
    · exact .inr rfl

/-- What remains of a call is where the call was. -/
theorem afterCall_eq {callers : List α} {i : Nat} {a : α} (h : callers[i]? = some a) :
    ∃ before after, callers = before ++ a :: after ∧
      ∀ rest, afterCall callers i rest = before ++ rest.toList ++ after := by
  obtain ⟨hi, rfl⟩ := List.getElem?_eq_some_iff.mp h
  refine ⟨callers.take i, callers.drop (i + 1), by simp, ?_⟩
  intro rest
  cases rest with
  | none =>
    rw [afterCall, List.eraseIdx_eq_take_drop_succ, Option.toList_none, List.append_nil]
  | some b =>
    rw [afterCall, List.set_eq_take_append_cons_drop, if_pos hi, Option.toList_some,
      List.append_assoc, List.singleton_append]

/-- **Fit activities lead to fit ones**: conditions hold after a step if they can only grow, and
if every turn of a fit activity submits and leaves what is fit. -/
theorem Tended.step (hm : m.Tended Task Fit) (hopen : move.isOpen mayCall = true)
    (h : m.step P move = some (m', events))
    (hTask : ∀ l a, Task l a → Task' l a) (hFit : ∀ l a, Fit l a → Fit' l a)
    (enter : ∀ l a, Task' l a → Fit' (some l) a) (called : ∀ a, mayCall a = true → Fit' none a)
    (act : ∀ u self e, Transition.turn? ⟨m, move, m'⟩ = some u → Fit u.lane u.activity →
      P.act m.now self m.world m.pool u.activity u.reply = some e →
      Use Task' m.pool e.pool ∧ ∀ b ∈ e.rest, Fit' u.lane b) : m'.Tended Task' Fit' := by
  have hcallers : ∀ a ∈ m.callers, Fit' none a := fun a ha => hFit _ _ (hm.callers a ha)
  have hpool : m.pool.Tended Task' fun l => Fit' (some l) :=
    hm.pool.mono hTask fun l a => hFit (some l) a
  cases hu : Transition.turn? ⟨m, move, m'⟩ with
  | some u =>
    obtain ⟨self, e, he, -, -, hrest⟩ := step_turn h hu
    obtain ⟨huse, hb⟩ := act u self e hu (hm.fit_of_turn hu) he
    obtain ⟨hl, hq, i, -, hcs⟩ | ⟨hcs, w, hd, hq⟩ := hrest
    · refine ⟨?_, hq ▸ huse.tended hpool⟩
      intro a ha
      rw [hcs] at ha
      obtain ha | ha := mem_afterCall ha
      · exact hcallers a ha
      · exact hl ▸ hb a ha
    · obtain ⟨lane, hl, -⟩ := hpool.of_duty? hd
      rw [hl] at hd hb
      exact ⟨hcs ▸ hcallers, (huse.tended hpool).progress (huse.duty? hd) hb hq⟩
  | none =>
    obtain ⟨-, ⟨a, rfl, hcs, hq⟩ | ⟨hcs, hq | hchore⟩⟩ := step_idle h hu
    · refine ⟨?_, hq ▸ hpool⟩
      intro b hb
      rw [hcs] at hb
      rcases List.mem_append.mp hb with hb | hb
      · exact hcallers b hb
      · rw [List.mem_singleton.mp hb]
        exact called a hopen
    · exact ⟨hcs ▸ hcallers, hq ▸ hpool⟩
    · exact ⟨hcs ▸ hcallers, hchore.tended hpool enter⟩

end Step

/-! ## Lanes -/

section Lanes

variable {Task : Lane → α → Prop}
  (uses : ∀ {now self w p a reply e}, P.act now self w p a reply = some e →
    Use (fun _ _ => True) p e.pool)

include uses

theorem orderly_step (hp : m.pool.Orderly) (h : m.step P move = some (m', events)) :
    m'.pool.Orderly := by
  cases hu : Transition.turn? ⟨m, move, m'⟩ with
  | some u =>
    obtain ⟨self, e, he, -, -, ⟨-, hq, -⟩ | ⟨-, w, -, hq⟩⟩ := step_turn h hu
    · exact hq ▸ (uses he).orderly hp
    · exact ((uses he).orderly hp).progress hq
  | none =>
    obtain ⟨-, ⟨a, -, -, hq⟩ | ⟨-, hq | hchore⟩⟩ := step_idle h hu
    · exact hq ▸ hp
    · exact hq ▸ hp
    · exact hchore.orderly hp

/-- **A lane at a step**: it is the turn of the one task that is being run, or else the work on the
lane stays as it is, or a task that waited is begun. -/
theorem lane_step (hp : m.pool.Orderly) (h : m.step P move = some (m', events)) (l : Lane) :
    (∃ u self e, Transition.turn? ⟨m, move, m'⟩ = some u ∧ u.lane = some l ∧
        P.act m.now self m.world m.pool u.activity u.reply = some e ∧ m'.world = e.world ∧
        m.pool.atWork l = [u.activity] ∧ m'.pool.atWork l = e.rest.toList) ∨
      (∀ u, Transition.turn? ⟨m, move, m'⟩ = some u → u.lane ≠ some l) ∧
        (m'.pool.atWork l = m.pool.atWork l ∨
          Transition.turn? ⟨m, move, m'⟩ = none ∧ m.pool.atWork l = [] ∧
            ∃ task ∈ (m.pool.lanes.get l).waiting, m'.pool.atWork l = [task]) := by
  cases hu : Transition.turn? ⟨m, move, m'⟩ with
  | some u =>
    obtain ⟨self, e, he, hw, -, ⟨hl, hq, -⟩ | ⟨-, w, hd, hq⟩⟩ := step_turn h hu
    · refine .inr ⟨?_, .inl ?_⟩
      · intro v hv
        cases hv
        rw [hl]
        exact nofun
      · rw [hq]
        exact (uses he).atWork l
    · by_cases hl : u.lane = some l
      · obtain ⟨hbefore, hafter⟩ :=
          ((uses he).orderly hp).atWork_progress (hl ▸ (uses he).duty? hd) hq
        rw [(uses he).atWork] at hbefore
        exact .inl ⟨u, self, e, rfl, hl, he, hw, hbefore, hafter⟩
      · refine .inr ⟨?_, .inl ?_⟩
        · intro v hv
          cases hv
          exact hl
        · exact (Pool.atWork_progress_of_ne hl ((uses he).duty? hd) hq).trans ((uses he).atWork l)
  | none =>
    refine .inr ⟨nofun, ?_⟩
    obtain ⟨-, ⟨a, -, -, hq⟩ | ⟨-, hq | hchore⟩⟩ := step_idle h hu
    · exact .inl (by rw [hq])
    · exact .inl (by rw [hq])
    · exact (hchore.atWork hp l).imp_right fun hbegin => ⟨rfl, hbegin⟩

end Lanes

end ArcadeUplink.Machine
