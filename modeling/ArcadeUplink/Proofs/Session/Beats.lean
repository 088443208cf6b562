import ArcadeUplink.Proofs.Machine.Stock
import ArcadeUplink.Proofs.Session.Effects

/-!
# The flag of heartbeats

Whoever asks for a heartbeat raises a flag before he submits the task, and asks
for none while the flag is up; the task lowers it first of all, and so does he
whose task is refused. So the flag is up just if one heartbeat is yet to be begun
(`Run.beats`): whoever raised the flag has still to submit it, or it waits in its
lane, or a worker is about to begin it.
-/

namespace ArcadeUplink

open scoped List
open Pool (Lane)

namespace Activity

/-- Whether an activity is a heartbeat that is yet to be begun. -/
def isBeat : Activity → Bool
  | .beat => true
  | _ => false

/-- Whether an activity has raised the flag of heartbeats, and has still to submit the task or to
lower the flag again. -/
def isRaising : Activity → Bool
  | .submitBeat _ | .withdrawBeat _ => true
  | _ => false

/-- Whether the flag of heartbeats is up on account of an activity. -/
def holdsFlag (a : Activity) : Bool := a.isBeat || a.isRaising

/-- Whether an activity looks at the flag of heartbeats, or changes it, or answers for it. -/
def isOfFlag : Activity → Bool
  | .requestBeat _ => true
  | a => a.holdsFlag

theorem holdsFlag_of_isHostCall {a : Activity} (h : a.isHostCall = true) :
    a.holdsFlag = false := by
  cases a <;> first | rfl | cases h

end Activity

namespace Engine

variable {now : Nat} {self : Option Nat} {e : Engine} {p : Workers} {a b : Activity}
  {reply : Option Reply} {r : Result}

/-! ## A turn -/

theorem Origin.holdsFlag (h : Origin e p a reply b) (ha : a.isOfFlag = false) :
    b.holdsFlag = false := by
  cases h with
  | requestBeat | submitBeat => cases ha
  | _ => rfl

/-- Only who raised the flag submits a heartbeat. -/
theorem isOfFlag_of_errand (h : errand? now self e a = some (.postTo .heartbeat .beat)) :
    a.isOfFlag = true := by
  unfold errand? at h
  split at h
  all_goals first | rfl | cases h

/-- Nothing else that is submitted, at once or for later, is a heartbeat. -/
theorem errand_holdsFlag {v : Pool.Event Activity} {l : Lane} {task : Activity}
    (h : errand? now self e a = some v) (hv : v.submission? = some (l, task))
    (hne : v ≠ .postTo .heartbeat .beat) : task.holdsFlag = false := by
  unfold errand? at h
  split at h
  all_goals cases h
  all_goals cases hv
  all_goals first | rfl | exact absurd rfl hne

/-- What an activity submits to a lane. -/
theorem errand_of_posted {l : Lane} (h : b ∈ posted e p l a) :
    errand? 0 none e a = some (.postTo l b) := by
  unfold posted at h
  cases hv : errand? 0 none e a with
  | none =>
    rw [hv] at h
    cases h
  | some v =>
    rw [hv] at h
    cases v with
    | postTo m task =>
      have hmem := Option.mem_toList.mp h
      split at hmem
      · next hm =>
        cases hmem
        rw [hm.1]
      · cases hmem
    | _ => cases h

theorem countP_rest_of_other (h : Behaves now self e p a reply r) (ha : a.isOfFlag = false) :
    (r.rest.toList ++ posted e p .heartbeat a).countP Activity.holdsFlag = 0 := by
  refine List.countP_eq_zero.mpr fun b hb => Bool.eq_false_iff.mp ?_
  rcases List.mem_append.mp hb with hb | hb
  · exact (h.origin b (Option.mem_toList.mp hb)).holdsFlag ha
  · refine errand_holdsFlag (errand_of_posted hb) rfl fun hbeat => ?_
    rw [isOfFlag_of_errand (hbeat ▸ errand_of_posted hb)] at ha
    cases ha

theorem countP_beatRequested {f : Engine} {q : Workers} {again : Bool} {log : List Log.Entry} :
    (f.beatRequested q again log).rest.toList.countP Activity.holdsFlag = 0 := by
  cases again <;> rfl

theorem world_beatRequested {f : Engine} {q : Workers} {again : Bool} {log : List Log.Entry} :
    (f.beatRequested q again log).world = f := by
  cases again <;> rfl

/-- **Every turn keeps the balance** of the flag, if the flag is up while somebody answers for it. -/
theorem flag_turn (h : program.act now self e p a reply = some r)
    (hup : a.holdsFlag = true → e.beatQueued = true) :
    (r.rest.toList ++ posted e p .heartbeat a).countP Activity.holdsFlag + e.beatQueued.toNat =
      [a].countP Activity.holdsFlag + r.world.beatQueued.toNat := by
  cases ha : a.isOfFlag with
  | false =>
    have hqueued : r.world.beatQueued = e.beatQueued := by
      rw [(act_effects h).queued]
      cases a <;> first | rfl | cases ha
    have hholds : [a].countP Activity.holdsFlag = 0 := by
      cases a <;> first | rfl | cases ha
    rw [countP_rest_of_other (act_behaves h) ha, hqueued, hholds]
  | true =>
    rw [List.countP_append]
    cases a with
    | requestBeat again =>
      obtain rfl := Option.some.inj (timerStep_of_act h rfl)
      show _ + 0 + _ = 0 + _
      split
      · rw [countP_beatRequested, world_beatRequested]
      · next hqueued =>
        rw [Bool.eq_false_iff.mpr hqueued]
        rfl
    | submitBeat again =>
      obtain rfl := Option.some.inj (timerStep_of_act h rfl)
      rw [posted_of_postTo rfl]
      split
      · next q log hq =>
        rw [countP_beatRequested, world_beatRequested, hq]
        rfl
      · next q log hq =>
        rw [hq]
        rfl
    | withdrawBeat again =>
      obtain rfl := Option.some.inj (timerStep_of_act h rfl)
      rw [countP_beatRequested, world_beatRequested, hup rfl]
      rfl
    | beat =>
      obtain rfl := Option.some.inj (beatStep_of_beat h)
      rw [hup rfl]
      rfl
    | _ => cases ha

/-- Only into their own lane heartbeats are submitted. -/
theorem Behaves.beats_apart (h : Behaves now self e p a reply r)
    (hp : p.Apart (·.holdsFlag = false) .heartbeat) :
    r.pool.Apart (·.holdsFlag = false) .heartbeat := by
  refine h.keeps (motive := (·.Apart (·.holdsFlag = false) .heartbeat)) hp fun v q hv hafter => ?_
  by_cases hbeat : v = .postTo .heartbeat .beat
  · subst hbeat
    have hposted : (p.postTo .heartbeat .beat).2.1 = q := Option.some.inj hafter
    exact hposted ▸ hp.postTo fun hl => absurd rfl hl
  · have huse : Pool.Use (fun _ b => b.holdsFlag = false) p q :=
      .of_after? hafter (errand_isUse hv) fun l task htask => errand_holdsFlag hv htask hbeat
    exact huse.apart hp

/-! ## Along a run -/

/-- How many heartbeats are yet to be begun: whoever raised the flag has still to submit it, or it
waits in its lane, or a worker is about to begin it. -/
def beats (m : System) : Nat := (m.stock .heartbeat).countP Activity.holdsFlag

/-- How many heartbeats wait in their lane. -/
def waitingBeats (m : System) : Nat :=
  (m.pool.lanes.get .heartbeat).waiting.countP Activity.isBeat

/-- How many workers have just taken a heartbeat, and done nothing of it. -/
def takenBeats (m : System) : Nat := m.pool.underway.countP Activity.isBeat

/-- How many have raised the flag, and still to submit the heartbeat. -/
def raisers (m : System) : Nat := (m.callers ++ m.pool.underway).countP Activity.isRaising

theorem countP_holdsFlag (as : List Activity) :
    as.countP Activity.holdsFlag = as.countP Activity.isBeat + as.countP Activity.isRaising := by
  induction as with
  | nil => rfl
  | cons a as ih =>
    have hone : (if a.holdsFlag = true then 1 else 0) =
        (if a.isBeat = true then 1 else 0) + if a.isRaising = true then 1 else 0 := by
      cases a <;> rfl
    rw [List.countP_cons, List.countP_cons, List.countP_cons, ih, hone]
    omega

section Run

variable {s : Setup} {start : Nat} {ts : List Transition} {m : System}

/-- Where heartbeats are that are yet to be begun. -/
theorem Placed.beats (h : Placed m) : beats m = waitingBeats m + takenBeats m + raisers m := by
  have hcallers : m.callers.countP Activity.isBeat = 0 := by
    refine List.countP_eq_zero.mpr fun a ha hbeat => ?_
    obtain ⟨hplace, -⟩ := h.callers a ha
    cases a with
    | beat => cases List.mem_singleton.mp hplace
    | _ => cases hbeat
  have hwaiting : (m.pool.lanes.get .heartbeat).waiting.countP Activity.isRaising = 0 := by
    refine List.countP_eq_zero.mpr fun a ha hraising => ?_
    obtain ⟨htask, -⟩ := h.pool.waiting .heartbeat a ha
    cases a with
    | submitBeat | withdrawBeat => cases htask
    | _ => cases hraising
  unfold Engine.beats waitingBeats takenBeats raisers Machine.stock Pool.load
  simp only [List.countP_append, countP_holdsFlag]
  omega

theorem Run.beats_apart (h : Run s start ts m) :
    m.pool.Apart (·.holdsFlag = false) .heartbeat := by
  induction h with
  | start => exact .ofSize _
  | step _ _ hstep ih =>
    exact Machine.apart_step ih hstep fun _ _ _ _ he => (act_behaves he).beats_apart ih

/-- **The flag is up just if one heartbeat is yet to be begun**, and more than one there never is. -/
theorem Run.beats (h : Run s start ts m) : beats m = m.world.beatQueued.toNat := by
  unfold Engine.beats
  induction h with
  | start => rfl
  | @step ts m m' move events hts hopen hstep ih =>
    cases hu : Machine.Transition.turn? ⟨m, move, m'⟩ with
    | some u =>
      obtain ⟨self, r, others, hr, hworld, -, hbefore, hafter⟩ :=
        Machine.stock_turn act_uses hstep hu .heartbeat
      have hcount := hbefore.countP_eq Activity.holdsFlag
      have hcount' := (hafter _ ((act_behaves hr).waiting .heartbeat)).countP_eq Activity.holdsFlag
      rw [← List.singleton_append, List.countP_append] at hcount
      rw [List.countP_append] at hcount'
      have hbalance := flag_turn hr fun hholds => by
        have hone : [u.activity].countP Activity.holdsFlag = 1 := by
          rw [List.countP_singleton, hholds]
          rfl
        exact Bool.toNat_eq_one.mp (Nat.le_antisymm (Bool.toNat_le _) (by omega))
      rw [hworld]
      omega
    | none =>
      obtain ⟨hworld, new, hnew, hmem⟩ := Machine.stock_idle hstep hu .heartbeat
      have hnone : new.countP Activity.holdsFlag = 0 := by
        refine List.countP_eq_zero.mpr fun a ha => Bool.eq_false_iff.mp ?_
        obtain rfl | helse := hmem a ha
        · exact Activity.holdsFlag_of_isHostCall hopen
        · exact (Run.beats_apart hts).of_elsewhere (Run.placed hts).pool.drains helse
      rw [hworld, hnew.countP_eq, List.countP_append, hnone, Nat.zero_add, ih]

end Run

end Engine

end ArcadeUplink
