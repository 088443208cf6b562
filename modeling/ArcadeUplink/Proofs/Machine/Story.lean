import ArcadeUplink.Proofs.Machine.Turn
import Mathlib.Data.List.Induction

/-!
# The story of a task

A lane has one task at a time, and the turns that this task has had since a
worker began it are its story. `Course.trail` says that whatever a lane is at
was reached that way: from a task that waited, one turn after another, each of
them leaving what the next one went on with. So what an activity is about can be
looked up in the turns of its own task, however many others came in between.

A story goes on to be told until the next task of the lane begins.
-/

namespace ArcadeUplink.Machine

open Pool (Lane Use)

variable {σ α ρ ω : Type} {P : Program σ α ρ ω} {mayCall : α → Bool} {m₀ m : Machine σ α}
  {ts : List (Transition σ α ρ)} {t : Transition σ α ρ} {l : Lane}

/-- What can be seen of a step. -/
def Transition.seen (P : Program σ α ρ ω) (t : Transition σ α ρ) : List ω :=
  ((t.before.step P t.move).map (·.2)).getD []

theorem Transition.seen_of_step {events : List ω}
    (h : t.before.step P t.move = some (t.after, events)) : t.seen P = events := by
  unfold seen
  rw [h]
  rfl

/-- Where it is nobody's turn, only log entries can be seen. -/
theorem events_of_idle {m' : Machine σ α} {move : Move α ρ} {events : List ω}
    (h : m.step P move = some (m', events)) (hu : Transition.turn? ⟨m, move, m'⟩ = none) :
    ∃ log : List Log.Entry, events = log.map P.log := by
  cases move with
  | call a =>
    cases h
    exact ⟨[], rfl⟩
  | caller i reply =>
    obtain ⟨a, ha, -⟩ := Option.bind_eq_some_iff.mp h
    have hnone : m.callers[i]? = none := Option.map_eq_none_iff.mp hu
    cases hnone.symm.trans ha
  | worker w reply =>
    unfold Transition.turn? at hu
    unfold step at h
    dsimp only at hu h
    split at hu
    · cases hu
    · next hd =>
      split at h
      · next l a hd' => exact absurd hd' (hd l a)
      · cases h
  | deliver =>
    obtain ⟨r, -, heq⟩ := Option.map_eq_some_iff.mp h
    cases heq
    exact ⟨_, rfl⟩
  | wait ms =>
    cases h
    exact ⟨[], rfl⟩
  | _ =>
    obtain ⟨q, -, heq⟩ := Option.map_eq_some_iff.mp h
    cases heq
    exact ⟨[], rfl⟩

/-- Whether a step is the turn of a task of a lane. -/
def Transition.isOf (l : Lane) (t : Transition σ α ρ) : Bool := t.turn?.any (·.lane = some l)

/-- Whether a task of a lane is begun in a step. -/
def Transition.begins (l : Lane) (t : Transition σ α ρ) : Bool :=
  (t.before.pool.atWork l).isEmpty && !(t.after.pool.atWork l).isEmpty

/-- The turns of the task of a lane that was begun last. -/
def story (l : Lane) (ts : List (Transition σ α ρ)) : List (Transition σ α ρ) :=
  ts.foldl (fun us t => if t.begins l then [] else if t.isOf l then us ++ [t] else us) []

theorem story_concat (l : Lane) (ts : List (Transition σ α ρ)) (t : Transition σ α ρ) :
    story l (ts ++ [t]) =
      if t.begins l then [] else if t.isOf l then story l ts ++ [t] else story l ts :=
  List.foldl_append

theorem mem_of_mem_story (h : t ∈ story l ts) : t ∈ ts := by
  induction ts using List.reverseRecOn with
  | nil => cases h
  | append_singleton ts u ih =>
    rw [story_concat] at h
    split at h
    · cases h
    · split at h
      · exact (List.mem_append.mp h).elim (fun h => List.mem_append_left _ (ih h))
          (List.mem_append_right ts)
      · exact List.mem_append_left _ (ih h)

/-- Where a lane stays at what it is at, and it is not its turn, its story goes on unchanged. -/
theorem story_of_same (hwork : t.after.pool.atWork l = t.before.pool.atWork l)
    (hof : t.isOf l = false) : story l (ts ++ [t]) = story l ts := by
  rw [story_concat]
  unfold Transition.begins
  rw [hwork, Bool.and_not_self, hof]
  rfl

/-- A turn of the task of a lane goes into its story. -/
theorem story_of_turn (hwork : t.before.pool.atWork l ≠ []) (hof : t.isOf l = true) :
    story l (ts ++ [t]) = story l ts ++ [t] := by
  rw [story_concat]
  unfold Transition.begins
  rw [List.isEmpty_eq_false_iff.mpr hwork, Bool.false_and, hof]
  rfl

/-- The turns by which a task of a lane has come to what remains of it. -/
inductive Trail (P : Program σ α ρ ω) (l : Lane) (task : α) : List (Transition σ α ρ) → α → Prop
  | begun : Trail P l task [] task
  | turn {us : List (Transition σ α ρ)} {t : Transition σ α ρ} {a b : α} {reply : Option ρ}
      {self : Option Nat} {e : Effect σ α ω} :
      Trail P l task us a → t.turn? = some ⟨some l, a, reply⟩ →
      P.act t.before.now self t.before.world t.before.pool a reply = some e → e.rest = some b →
      Trail P l task (us ++ [t]) b

/-- The last turn of a story, if there was one. -/
theorem Trail.last_cases {task b : α} {us : List (Transition σ α ρ)} (h : Trail P l task us b) :
    (us = [] ∧ b = task) ∨ ∃ vs t a reply self e, us = vs ++ [t] ∧ Trail P l task vs a ∧
      t.turn? = some ⟨some l, a, reply⟩ ∧
      P.act t.before.now self t.before.world t.before.pool a reply = some e ∧ e.rest = some b := by
  cases h with
  | begun => exact .inl ⟨rfl, rfl⟩
  | turn hvs hturn hact hrest => exact .inr ⟨_, _, _, _, _, _, rfl, hvs, hturn, hact, hrest⟩

section Course

variable (uses : ∀ {now self w p a reply e}, P.act now self w p a reply = some e →
    Use (fun _ _ => True) p e.pool) (horderly : m₀.pool.Orderly)
include uses horderly

theorem Course.orderly (h : Course P mayCall m₀ ts m) : m.pool.Orderly := by
  induction h with
  | start => exact horderly
  | step _ _ hstep ih => exact orderly_step uses ih hstep

/-- **Whatever a lane is at has a story**: a task waited, and the turns that it had since it was
begun led to what remains of it. -/
theorem Course.trail (hidle : ∀ l, m₀.pool.atWork l = []) (h : Course P mayCall m₀ ts m) {b : α}
    (hb : b ∈ m.pool.atWork l) :
    ∃ task, (∃ t ∈ ts, task ∈ (t.before.pool.lanes.get l).waiting) ∧
      Trail P l task (story l ts) b := by
  induction h generalizing b with
  | start =>
    rw [hidle] at hb
    cases hb
  | @step ts m m' move events hts hopen hstep ih =>
    have hmono {task : α} (hw : ∃ t ∈ ts, task ∈ (t.before.pool.lanes.get l).waiting) :
        ∃ t ∈ ts ++ [⟨m, move, m'⟩], task ∈ (t.before.pool.lanes.get l).waiting :=
      hw.imp fun t ht => ⟨List.mem_append_left _ ht.1, ht.2⟩
    obtain ⟨u, self, e, hu, hl, he, -, hbefore, hafter⟩ | ⟨hne, hsame | ⟨-, hempty, task, htask,
        hwork⟩⟩ := lane_step uses (hts.orderly uses horderly) hstep l
    · obtain ⟨task, hw, htrail⟩ := ih (b := u.activity) (by rw [hbefore]; exact List.mem_singleton_self _)
      have hrest : e.rest = some b := Option.mem_toList.mp (hafter ▸ hb)
      have hof : Transition.isOf l ⟨m, move, m'⟩ = true := by
        unfold Transition.isOf
        rw [hu, Option.any_some, decide_eq_true hl]
      rw [story_of_turn (by rw [hbefore]; exact List.cons_ne_nil _ _) hof]
      refine ⟨task, hmono hw, .turn htrail ?_ he hrest⟩
      rw [hu, ← hl]
    · obtain ⟨task, hw, htrail⟩ := ih (hsame ▸ hb)
      have hof : Transition.isOf l ⟨m, move, m'⟩ = false := by
        refine Bool.eq_false_iff.mpr fun h => ?_
        obtain ⟨u, hu, hl⟩ := (Option.any_eq_true _ _).mp h
        exact hne u hu (of_decide_eq_true hl)
      rw [story_of_same hsame hof]
      exact ⟨task, hmono hw, htrail⟩
    · rw [hwork] at hb
      obtain rfl := List.mem_singleton.mp hb
      rw [story_concat]
      unfold Transition.begins
      rw [hempty, hwork]
      exact ⟨b, ⟨_, List.mem_append_right _ List.mem_cons_self, htask⟩, .begun⟩

end Course

end ArcadeUplink.Machine
