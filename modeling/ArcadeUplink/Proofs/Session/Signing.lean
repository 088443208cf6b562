import ArcadeUplink.Proofs.Device.Identity
import ArcadeUplink.Proofs.Session.Gating
import ArcadeUplink.Proofs.Session.Requests
import ArcadeUplink.Proofs.Session.Stops

/-!
# A device that was accepted reaches the signer

The handshake is a task of the main lane, and what it does first is to ask the signer. There is
always something to ask for, as the UUID of a device is sixteen bytes, so no handshake ends before
that (`act_handshake`). A task that was accepted is in the line of its lane until it asks, so none
is lost and none asks twice: `Run.handedIn_eq`. There is one at most.

Nobody gets ahead of the handshake in its line, so it asks as soon as all that waited before it were
begun (`Run.asked_in_turn`), and at the latest when the pool has stopped, or when the workers are
gone if a callback has shut the engine down. Until then a worker can always go on (`Run.stirs`), or
if the one of the main lane waits for his own stop, whoever that stop waits for
(`Run.stopping_stirs`). Whether he does, and whether others reply to him, is not said here.

`Setup.usable` puts this together with what is known of the identity of a device.
-/

namespace ArcadeUplink

open Pool (Lane)
open scoped List

namespace Activity

/-- Whether an activity is the task of a handshake, of which nothing is done yet. -/
def isHandshake : Activity → Bool
  | .handshake => true
  | _ => false

/-- Whether an activity submits the task of a handshake and has it accepted. -/
def handsIn (p : Engine.Workers) : Activity → Bool
  | .submitHandshake => (p.postTo .main .handshake).1
  | _ => false

theorem eq_handshake {a : Activity} (h : a.isHandshake = true) : a = .handshake := by
  cases a <;> first | rfl | cases h

end Activity

namespace Setup

/-- What the signer of a device is asked. -/
def toSign (s : Setup) (now : Nat) : Signature.Request :=
  ⟨s.digest (Engine.timestamp now), s.settings.key⟩

theorem request?_signedUuid (s : Setup) (now : Nat) :
    Signature.request? s.settings.key s.signedUuid (Engine.timestamp now) =
      some (s.toSign now) := by
  rw [Signature.request?, digest?_signedUuid]
  rfl

end Setup

/-- A handshake that somebody has still to ask for was not signed yet. -/
theorem Handshake.unsigned_of_asked {broken : Prop} {k n : Nat} {replies : List AuthReply}
    {s : Status} {token : String} {stages : List Stage}
    (h : Handshake broken k n replies s token stages) (hx : .asked ∈ stages) : k = 0 := by
  cases h <;> first | rfl | simp at hx

namespace Engine

section Turn

variable {now : Nat} {self : Option Nat} {e : Engine} {p : Workers} {a b : Activity}
  {reply : Option Reply} {r : Result} {call : ServerCall}

/-- **A handshake begins with the signer.** -/
theorem act_handshake (h : program.act now self e p .handshake reply = some r) :
    r = e.ask p (.sign (e.setup.toSign now)) (.signed (timestamp now)) := by
  cases act_made h with
  | handshake h =>
    unfold handshakeStep at h
    dsimp only at h
    rw [Setup.request?_signedUuid] at h
    exact (Option.some.inj h).symm
  | life h | pairing h | timer h | beat h | record h | upload h | request h | report h
  | directory h | link h => cases h

/-- Only a handshake asks the signer. -/
theorem Origin.signing (h : Origin e p a reply b) (hb : b.awaited? = some call)
    (hcall : call.method = .sign) : a = .handshake := by
  cases h with
  | sign => rfl
  | @callRequest t =>
    cases hb
    unfold callOf at hcall
    split at hcall <;> cases hcall
  | _ => cases hb <;> cases hcall

/-- What remains of an activity is no task. -/
theorem Origin.not_handshake (h : Origin e p a reply b) : b.isHandshake = false := by
  cases h <;> rfl

theorem countP_posted (e : Engine) (p : Workers) (a : Activity) :
    (posted e p .main a).countP Activity.isHandshake = (a.handsIn p).toNat := by
  by_cases ha : a = .submitHandshake
  · subst ha
    rw [posted_of_postTo rfl]
    show _ = (p.postTo .main .handshake).1.toNat
    cases (p.postTo .main .handshake).1 <;> rfl
  · have hin : a.handsIn p = false := by
      cases a <;> first | rfl | exact absurd rfl ha
    rw [hin, List.countP_eq_length_filter, ← List.filterMap_eq_filter, filterMap_posted]
    · rfl
    · intro m task herrand
      unfold errand? at herrand
      split at herrand
      all_goals cases herrand
      all_goals first | rfl | exact absurd rfl ha

end Turn

/-- Whether the task of a handshake is accepted in a step. -/
def handsIn (t : Transition) : Bool := t.turn?.any fun u => u.activity.handsIn t.before.pool

/-- How many tasks of a handshake were accepted. -/
def handedIn (ts : List Transition) : Nat := ts.countP handsIn

section Run

variable {s : Setup} {start : Nat} {ts pre post : List Transition} {t : Transition} {m : System}
  {lane : Option Lane} {a : Activity} {reply : Option Reply} {w : Option Nat} {r : Result}

/-! ## One turn -/

theorem handsIn_of_turn (ht : t.turn? = some ⟨lane, a, reply⟩) :
    handsIn t = a.handsIn t.before.pool := by
  rw [handsIn, ht, Option.any_some]

theorem Run.asks (h : Run s start (pre ++ t :: post) m)
    (ht : t.turn? = some ⟨lane, .handshake, reply⟩) :
    calls t = [.sign (s.toSign t.before.now)] := by
  obtain ⟨self, r, hact, htook⟩ := h.turn ht
  rw [htook.calls, act_handshake hact, h.before.1.setup]
  rfl

/-- The signer is asked once in the turn of a handshake, and in no other. -/
theorem Took.signings (h : Took t lane a reply w r)
    (hact : program.act t.before.now w t.before.world t.before.pool a reply = some r) :
    (Engine.calls t).countP (·.method = .sign) = a.isHandshake.toNat := by
  rw [h.calls]
  cases ha : a.isHandshake with
  | true =>
    obtain rfl := Activity.eq_handshake ha
    rw [act_handshake hact]
    rfl
  | false =>
    refine List.countP_eq_zero.mpr fun call hcall hsign => ?_
    obtain ⟨b, hrest, hb⟩ := Option.bind_eq_some_iff.mp (Option.mem_toList.mp hcall)
    obtain rfl := (h.behaves.origin b hrest).signing hb (of_decide_eq_true hsign)
    cases ha

theorem countP_isHandshake_rest
    (h : Behaves t.before.now w t.before.world t.before.pool a reply r) :
    r.rest.toList.countP Activity.isHandshake = 0 :=
  List.countP_eq_zero.mpr fun b hb =>
    Bool.eq_false_iff.mp (h.origin b (Option.mem_toList.mp hb)).not_handshake

/-- **A turn loses no handshake**: the one that asks the signer was in the line, and the one that is
accepted comes to be there. -/
theorem Took.handshakes (h : Took t lane a reply w r) :
    (t.after.pool.line .main).countP Activity.isHandshake + a.isHandshake.toNat =
      (t.before.pool.line .main).countP Activity.isHandshake +
        (a.handsIn t.before.pool).toNat := by
  by_cases hl : lane = some .main
  · subst hl
    obtain ⟨others, hbefore, hafter⟩ := h.line_own
    rw [hbefore, hafter, List.countP_append, List.countP_append, countP_posted,
      countP_isHandshake_rest h.behaves, ← List.singleton_append, List.countP_append,
      Pool.countP_one]
    omega
  · have ha : a.isHandshake = false := by
      refine Bool.eq_false_iff.mpr fun ha => hl ?_
      obtain rfl := Activity.eq_handshake ha
      exact List.mem_singleton.mp h.place
    rw [h.line_other hl, List.countP_append, countP_posted, ha]
    rfl

/-! ## Along a run -/

/-- **No handshake is lost**: one that was accepted is in the line of the main lane, or the signer
was asked for it. -/
theorem Run.handedIn_eq (h : Run s start ts m) :
    handedIn ts = asked .sign ts + (m.pool.line .main).countP Activity.isHandshake := by
  refine h.turn_induction (motive := fun ts m => handedIn ts =
    asked .sign ts + (m.pool.line .main).countP Activity.isHandshake) rfl ?_ ?_
  · intro ts t lane a reply self r _ hu hact htook ih
    have hline := htook.handshakes
    rw [handedIn, List.countP_append, ← handedIn, ih, asked_concat, Pool.countP_one,
      htook.signings hact, handsIn_of_turn hu]
    omega
  · intro ts t hrun hu ih
    obtain ⟨hcalls, -, -⟩ := hrun.idle hu
    obtain ⟨new, hnew, hforeign⟩ := hrun.main_idle hu
    have hnone : new.countP Activity.isHandshake = 0 := by
      refine List.countP_eq_zero.mpr fun b hb hhandshake => ?_
      obtain rfl := Activity.eq_handshake hhandshake
      cases hforeign _ hb
    have hin : handsIn t = false := by
      rw [handsIn, hu]
      rfl
    rw [handedIn, List.countP_append, ← handedIn, ih, asked_concat, Pool.countP_one, hcalls, hin,
      hnew, List.countP_append, hnone]
    rfl

/-- **There is one handshake at most.** -/
theorem Run.handedIn_le (h : Run s start ts m) : handedIn ts ≤ 1 := by
  have hdiagram := h.handshake
  rw [h.handedIn_eq]
  by_cases hnone : (m.pool.line .main).countP Activity.isHandshake = 0
  · rw [hnone]
    exact hdiagram.once.1
  have hstock : (m.pool.line .main).Sublist (m.stock .main) :=
    (m.pool.line_sublist_load .main).trans (List.sublist_append_right _ _)
  obtain ⟨a, ha, hhandshake⟩ := List.countP_pos_iff.mp (Nat.pos_of_ne_zero hnone)
  obtain rfl := Activity.eq_handshake hhandshake
  have hasked : asked .sign ts = 0 :=
    hdiagram.unsigned_of_asked (List.mem_filterMap.mpr ⟨_, hstock.mem ha, rfl⟩)
  have hle : (m.pool.line .main).countP Activity.isHandshake ≤ (stages m).length := by
    rw [stages, List.length_filterMap_eq_countP]
    refine hstock.countP_le.trans (List.countP_mono_left fun b _ hb => ?_)
    obtain rfl := Activity.eq_handshake hb
    rfl
  rw [hasked, Nat.zero_add]
  exact hle.trans hdiagram.length_le

/-- A handshake that is in the line, among the tasks that were there when `n` of them waited and of
which `k` have been begun since. -/
def Queued (n k : Nat) (m : System) : Prop :=
  ∃ front back, m.pool.line .main = front ++ .handshake :: back ∧
    front.length + k + 1 ≤ n + (m.pool.atWork .main).length

theorem Run.queued_of_handsIn (h : Run s start (pre ++ t :: post) m) (ht : handsIn t = true) :
    Queued (t.after.pool.lanes.get .main).waiting.length 0 t.after := by
  obtain ⟨⟨lane, a, reply⟩, hu, hin⟩ := (Option.any_eq_true _ _).mp ht
  dsimp only at hin
  obtain ⟨self, r, -, htook⟩ := h.turn hu
  cases a with
  | submitHandshake =>
    have hl : lane ≠ some .main := by
      rintro rfl
      cases List.mem_singleton.mp htook.place
    have hline := htook.line_other hl
    have haccepted : (t.before.pool.postTo .main .handshake).1 = true := hin
    rw [posted_of_postTo rfl, if_pos haccepted] at hline
    refine ⟨_, [], hline, ?_⟩
    have hlength := congrArg List.length hline
    unfold Pool.line at hlength
    simp only [List.length_append, List.length_cons, List.length_nil] at hlength
    unfold Pool.line
    rw [List.length_append]
    omega
  | _ => cases hin

/-- **Nobody gets ahead of the handshake**: it asks the signer, or moves on with its line. -/
theorem Run.queued (h : Run s start (pre ++ t :: post) m) (ht : handsIn t = true) :
    0 < asked .sign (pre ++ t :: post) ∨
      Queued (t.after.pool.lanes.get .main).waiting.length (post.countP (·.begins .main)) m := by
  induction post using List.reverseRecOn generalizing m with
  | nil =>
    obtain ⟨-, rfl, -⟩ := Machine.Course.of_concat h
    exact .inr (h.queued_of_handsIn ht)
  | append_singleton post u ih =>
    have hsplit : pre ++ t :: (post ++ [u]) = pre ++ t :: post ++ u :: [] := by
      rw [List.append_assoc, List.cons_append]
    rw [hsplit] at h ⊢
    obtain ⟨hbefore, rfl, -⟩ := Machine.Course.of_concat h
    rw [asked_concat]
    obtain hasked | ⟨front, back, hline, hlength⟩ := ih hbefore
    · exact .inl (by omega)
    obtain ⟨-, reply, hu⟩ | ⟨front', back', hline', hle⟩ := h.stays_in_line hline
    · rw [h.asks hu]
      exact .inl (Nat.succ_pos _)
    · refine .inr ⟨front', back', hline', ?_⟩
      rw [List.countP_append, Pool.countP_one]
      omega

/-- **The signer is asked in turn**: as soon as more tasks of the lane were begun than waited there
when the handshake was accepted. -/
theorem Run.asked_in_turn (h : Run s start (pre ++ t :: post) m) (ht : handsIn t = true)
    (hcount : (t.after.pool.lanes.get .main).waiting.length < post.countP (·.begins .main)) :
    asked .sign (pre ++ t :: post) = 1 := by
  have hone : asked .sign (pre ++ t :: post) ≤ 1 := h.handshake.once.1
  obtain hasked | ⟨front, back, -, hlength⟩ := h.queued ht
  · omega
  · have hwork := h.orderly.atWork_le_one .main
    omega

/-- **The line is never stuck**: while anybody stands in it a worker can go on, if he gets the reply
that he may be waiting for, and unless the one of the main lane waits for a stop. -/
theorem Run.stirs {l : Lane} (h : Run s start ts m) (hline : m.pool.line l ≠ [])
    (hmain : ∀ a ∈ m.pool.atWork .main, a.isLife = false) :
    ∃ move, IsWorkers move ∧ (m.step program move).isSome = true := by
  obtain ⟨us, hus⟩ := h.recorded
  obtain ⟨w, x, hw, hstays, hjob⟩ := hus.history.staffed.exists_busy h.orderly hline
  exact h.goes_on hw hstays hjob fun a ha =>
    hmain a (Pool.mem_atWork_of_duty? (ha ▸ Pool.duty?_of_worker hw))

/-! ## The law -/

/-- **The handshake reaches the signer**: what holds of the signer after some steps that led to a
machine. -/
structure Signed (s : Setup) (ts : List Transition) (m : System) : Prop where
  /-- A handshake is accepted if the pool is running. -/
  accepted : ∀ t ∈ ts, ∀ lane reply, t.turn? = some ⟨lane, .submitHandshake, reply⟩ →
    t.before.pool.isRunning = true → handsIn t = true
  /-- When it has its turn it asks the signer, and nobody else. -/
  asks : ∀ t ∈ ts, ∀ lane reply, t.turn? = some ⟨lane, .handshake, reply⟩ →
    calls t = [.sign (s.toSign t.before.now)]
  /-- Nothing else asks him. -/
  only : ∀ t ∈ ts, ∀ request, .sign request ∈ calls t →
    ∃ lane reply, t.turn? = some ⟨lane, .handshake, reply⟩
  /-- One at most is accepted. -/
  one : handedIn ts ≤ 1
  /-- It is in the line of the main lane until the signer is asked for it. -/
  none_lost : handedIn ts = asked .sign ts + (m.pool.line .main).countP Activity.isHandshake
  /-- While it is there a worker can go on, unless a callback shuts the engine down. -/
  stirs : (m.pool.line .main).countP Activity.isHandshake ≠ 0 →
    (∀ a ∈ m.pool.atWork .main, a.isLife = false) →
    ∃ move, IsWorkers move ∧ (m.step program move).isSome = true
  /-- If one does, a worker can go on or the timer thread can, unless the stop has to wait for
  another one. -/
  stirs_on : (∃ a ∈ m.pool.atWork .main, a.isLife = true) →
    ((∃ a ∈ m.pool.atWork .main, a.isShutDown = true) → m.pool.control = .free) →
    ∃ move, (IsWorkers move ∨ IsChore move) ∧ (m.step program move).isSome = true
  /-- That comes about when more tasks of the lane were begun than waited before it. -/
  in_turn : ∀ pre t post, ts = pre ++ t :: post → handsIn t = true →
    (t.after.pool.lanes.get .main).waiting.length < post.countP (·.begins .main) →
    asked .sign ts = 1
  /-- At the latest it has come about when the pool has stopped, unless a callback has shut the engine
  down. -/
  stopped : m.pool.isStopped → ¬ShutByCallback ts → asked .sign ts = handedIn ts
  /-- And it has when the workers are gone. -/
  spent : (∀ x ∈ m.pool.workers, x.duty = .gone) → asked .sign ts = handedIn ts

theorem Run.signed (h : Run s start ts m) : Signed s ts m where
  accepted := by
    rintro t - lane reply hu hrunning
    rw [handsIn_of_turn hu]
    obtain ⟨crew, hdoor⟩ := Option.isSome_iff_exists.mp hrunning
    unfold Activity.handsIn Pool.postTo
    dsimp only
    rw [hdoor]
    dsimp only
    split <;> rfl
  asks := by
    rintro t ht lane reply hu
    obtain ⟨pre, post, rfl⟩ := List.append_of_mem ht
    exact h.asks hu
  only := by
    rintro t ht request hcall
    obtain ⟨pre, post, rfl⟩ := List.append_of_mem ht
    obtain ⟨l, a, reply, b, hu, -, -, horigin, hb⟩ := h.caller hcall
    obtain rfl := horigin.signing hb rfl
    exact ⟨some l, reply, hu⟩
  one := h.handedIn_le
  none_lost := h.handedIn_eq
  stirs hline := h.stirs fun hnone => hline (by rw [hnone]; rfl)
  stirs_on := by
    rintro ⟨a, ha, hlife⟩ hfree
    cases hdown : a.isShutDown with
    | true => exact shutDown_stirs ha hdown (hfree ⟨a, ha, hdown⟩)
    | false => exact h.stopping_stirs ha hlife hdown
  in_turn := by
    rintro pre t post rfl ht hcount
    exact h.asked_in_turn ht hcount
  stopped hstopped hts := by
    rw [h.handedIn_eq, (h.atRest (h.not_fromWithin hts) hstopped).line_eq]
    rfl
  spent hgone := by
    rw [h.handedIn_eq, (h.atRest_of_gone hgone).line_eq]
    rfl

end Run

end Engine

namespace Setup

variable {d : DeviceInfo} {s : Settings} {setup : Setup} {log : List Log.Entry}

/-- **What is known of a device that was accepted**, and of what its engine does. -/
structure Known (d : DeviceInfo) (s : Settings) (setup : Setup) (log : List Log.Entry) : Prop where
  /-- Its UUID is written in lower case, in groups of 8, 4, 4, 4 and 12 digits. -/
  written : ∃ ds, Uuid.AreDigits ds ∧
    Uuid.Hyphenated (ds.map Char.toLower) setup.uuid.text.toList
  /-- The description carries it, and says what it said besides. -/
  carried : setup.device = { d with uuid := setup.uuid.text }
  settings : setup.settings = s
  /-- That description is accepted again, for the same UUID and the same server. -/
  again : ∀ s', s'.validate = .ok () →
    prepare setup.device s' = .ok ({ setup with settings := s' }, log)
  /-- Without the hyphens the UUID is thirty-two digits, of which there is a digest at any time. -/
  digits : Uuid.AreDigits (Text.without "-" setup.uuid.text).toList
  digest : ∀ time, Signature.digest? (Text.without "-" setup.uuid.text) time =
    some (setup.digest time)
  /-- That digest is what the signer is asked to sign, with the key of the settings. -/
  request : ∀ now, setup.toSign now = ⟨setup.digest (Engine.timestamp now), s.key⟩
  signed : ∀ start ts m, Engine.Run setup start ts m → Engine.Signed setup ts m

theorem known_of_prepare (h : prepare d s = .ok (setup, log)) : Known d s setup log := by
  obtain ⟨-, hmade⟩ := made_of_prepare h
  have hsettings : setup.settings = s := congrArg (·.1.settings) hmade.symm
  constructor
  case written => exact setup.uuid.written
  case carried => exact congrArg (·.1.device) hmade.symm
  case settings => exact hsettings
  case again => exact fun s' hs => prepare_again h hs
  case digits => exact areDigits_signedUuid setup
  case digest => exact digest?_signedUuid setup
  case request => exact fun now => by rw [toSign, hsettings]
  case signed => exact fun start ts m hrun => hrun.signed

/-- **A device has an identity that can be signed for**, if it is accepted at all. -/
structure Usable (d : DeviceInfo) (s : Settings) : Prop where
  accepted : (∃ result, prepare d s = .ok result) ↔ Acceptable d s
  known : ∀ setup log, prepare d s = .ok (setup, log) → Known d s setup log

theorem usable (d : DeviceInfo) (s : Settings) : Usable d s where
  accepted := exists_prepare_iff
  known _ _ h := known_of_prepare h

end Setup

end ArcadeUplink
