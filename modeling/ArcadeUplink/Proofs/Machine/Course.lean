import ArcadeUplink.Pool.Machine
import Mathlib.Data.List.Induction

/-!
# Courses of a machine

A course is a sequence of steps that a machine can take one after another. Each
step is kept with the machine before and after it, so that a statement about a
course can speak of any moment in it: `Course.before_of_mem` gives the course
that led to a step.

What may be called from outside is a parameter. A machine by itself takes any
activity as a call; a program means only some of them to be called.
-/

namespace ArcadeUplink.Machine

variable {σ α ρ ω : Type}

/-- One step, with the machine before and after it. -/
structure Transition (σ α ρ : Type) where
  before : Machine σ α
  move : Move α ρ
  after : Machine σ α

/-- A step of an activity. -/
structure Turn (α ρ : Type) where
  /-- The lane whose task the activity is a part of; none, if it is nobody's. -/
  lane : Option Pool.Lane
  activity : α
  reply : Option ρ

/-- The activity that takes its turn in a step. None does where workers and timers look for
tasks, and none where time passes. -/
def Transition.turn? (t : Transition σ α ρ) : Option (Turn α ρ) :=
  match t.move with
  | .caller i reply => t.before.callers[i]?.map fun a => ⟨none, a, reply⟩
  | .worker w reply =>
    match t.before.pool.duty? w with
    | some (.running l a) => some ⟨l, a, reply⟩
    | _ => none
  | _ => none

namespace Move

/-- Whether a move is open to the outside: a call is, if its activity may be called. -/
def isOpen (mayCall : α → Bool) : Move α ρ → Bool
  | .call a => mayCall a
  | _ => true

end Move

/-- The steps that lead from one machine to another. -/
inductive Course (P : Program σ α ρ ω) (mayCall : α → Bool) (m₀ : Machine σ α) :
    List (Transition σ α ρ) → Machine σ α → Prop
  | start : Course P mayCall m₀ [] m₀
  | step {ts : List (Transition σ α ρ)} {m m' : Machine σ α} {move : Move α ρ} {events : List ω} :
      Course P mayCall m₀ ts m → move.isOpen mayCall = true → m.step P move = some (m', events) →
      Course P mayCall m₀ (ts ++ [⟨m, move, m'⟩]) m'

namespace Course

variable {P : Program σ α ρ ω} {mayCall : α → Bool} {m₀ m : Machine σ α}
  {ts us : List (Transition σ α ρ)} {t : Transition σ α ρ}

theorem of_append (h : Course P mayCall m₀ (ts ++ us) m) : ∃ m', Course P mayCall m₀ ts m' := by
  generalize hall : ts ++ us = all at h
  induction h generalizing us with
  | start =>
    obtain ⟨rfl, -⟩ := List.append_eq_nil_iff.mp hall
    exact ⟨m₀, .start⟩
  | @step vs m m' move events hvs hopen hstep ih =>
    rcases List.eq_nil_or_concat us with rfl | ⟨us', u, rfl⟩
    · rw [List.append_nil] at hall
      exact ⟨m', hall ▸ .step hvs hopen hstep⟩
    · rw [List.concat_eq_append, ← List.append_assoc] at hall
      exact ih (List.append_inj' hall rfl).1

theorem of_concat (h : Course P mayCall m₀ (ts ++ [t]) m) :
    Course P mayCall m₀ ts t.before ∧ m = t.after ∧ t.move.isOpen mayCall = true ∧
      ∃ events, t.before.step P t.move = some (t.after, events) := by
  generalize hall : ts ++ [t] = all at h
  cases h with
  | start => exact absurd hall (by simp)
  | step hvs hopen hstep =>
    obtain ⟨rfl, heq⟩ := List.append_inj' hall rfl
    cases heq
    exact ⟨hvs, rfl, hopen, _, hstep⟩

/-- **From a step on**: what holds after a step, and is kept by every later one, holds in the end. -/
theorem since {motive : Machine σ α → Prop} (h : Course P mayCall m₀ (ts ++ t :: us) m)
    (first : motive t.after)
    (keep : ∀ vs u ws, ts ++ t :: us = vs ++ u :: ws → u ∈ us → motive u.before → motive u.after) :
    motive m := by
  induction us using List.reverseRecOn generalizing m with
  | nil =>
    obtain ⟨-, rfl, -⟩ := h.of_concat
    exact first
  | append_singleton us u ih =>
    rw [← List.cons_append, ← List.append_assoc] at h
    obtain ⟨hbefore, rfl, -⟩ := h.of_concat
    refine keep (ts ++ t :: us) u [] (by rw [List.append_assoc, List.cons_append])
      (List.mem_append_right _ List.mem_cons_self) (ih hbefore fun vs v ws hsplit hv => ?_)
    refine keep vs v (ws ++ [u]) ?_ (List.mem_append_left _ hv)
    rw [← List.cons_append, ← List.append_assoc, hsplit, List.append_assoc, List.cons_append]

/-- **What led to a step**: the steps before it lead to the machine that takes it. -/
theorem before_of_mem (h : Course P mayCall m₀ (ts ++ t :: us) m) :
    Course P mayCall m₀ ts t.before := by
  rw [← List.singleton_append, ← List.append_assoc] at h
  obtain ⟨m', h'⟩ := h.of_append
  exact h'.of_concat.1

end Course

/-- The course that a list of moves leads to, with where it ends; none, if a move is not possible
or not open. -/
def course? (P : Program σ α ρ ω) (mayCall : α → Bool) (m : Machine σ α) :
    List (Move α ρ) → Option (List (Transition σ α ρ) × Machine σ α)
  | [] => some ([], m)
  | move :: moves =>
    if move.isOpen mayCall then
      (m.step P move).bind fun r =>
        (course? P mayCall r.1 moves).map fun s => (⟨m, move, r.1⟩ :: s.1, s.2)
    else none

theorem Course.append_course? {P : Program σ α ρ ω} {mayCall : α → Bool} {m₀ m : Machine σ α}
    {ts : List (Transition σ α ρ)} (h : Course P mayCall m₀ ts m) {moves : List (Move α ρ)}
    {us : List (Transition σ α ρ)} {m' : Machine σ α}
    (hr : m.course? P mayCall moves = some (us, m')) : Course P mayCall m₀ (ts ++ us) m' := by
  induction moves generalizing m ts us with
  | nil =>
    cases hr
    rwa [List.append_nil]
  | cons move moves ih =>
    unfold course? at hr
    split at hr
    · next hopen =>
      obtain ⟨⟨m₁, events⟩, hstep, hrest⟩ := Option.bind_eq_some_iff.mp hr
      obtain ⟨⟨vs, m₂⟩, hvs, heq⟩ := Option.map_eq_some_iff.mp hrest
      cases heq
      have := ih (.step h hopen hstep) hvs
      rwa [List.append_assoc, List.singleton_append] at this
    · cases hr

theorem course_of_course? {P : Program σ α ρ ω} {mayCall : α → Bool} {m m' : Machine σ α}
    {moves : List (Move α ρ)} {ts : List (Transition σ α ρ)}
    (h : m.course? P mayCall moves = some (ts, m')) : Course P mayCall m ts m' :=
  Course.start.append_course? h

theorem exists_course {P : Program σ α ρ ω} {mayCall : α → Bool} {m : Machine σ α}
    {moves : List (Move α ρ)} {p : List (Transition σ α ρ) × Machine σ α → Bool}
    (h : (m.course? P mayCall moves).any p = true) :
    ∃ ts m', Course P mayCall m ts m' ∧ p (ts, m') = true := by
  obtain ⟨⟨ts, m'⟩, hr, hp⟩ := (Option.any_eq_true _ _).mp h
  exact ⟨ts, m', course_of_course? hr, hp⟩

/-- Calls that begin change nothing but the callers, and are nobody's turn. -/
theorem course?_calls {P : Program σ α ρ ω} {mayCall : α → Bool} {m m' : Machine σ α}
    {calls : List α} {ts : List (Transition σ α ρ)}
    (h : m.course? P mayCall (calls.map .call) = some (ts, m')) :
    m' = { m with callers := m.callers ++ calls } ∧ ∀ t ∈ ts, t.turn? = none := by
  induction calls generalizing m ts with
  | nil =>
    cases h
    exact ⟨by rw [List.append_nil], fun t ht => absurd ht List.not_mem_nil⟩
  | cons a calls ih =>
    rw [List.map_cons, course?] at h
    obtain ⟨-, h⟩ := Option.ite_none_right_eq_some.mp h
    obtain ⟨⟨us, m''⟩, hus, heq⟩ := Option.map_eq_some_iff.mp h
    cases heq
    obtain ⟨hm, hturns⟩ := ih hus
    constructor
    · rw [hm, List.append_assoc, List.singleton_append]
    · intro t ht
      rcases List.mem_cons.mp ht with rfl | ht
      · rfl
      · exact hturns t ht

end ArcadeUplink.Machine
