import ArcadeUplink.Proofs.Session.Steps

/-!
# The handshake

A device shakes hands once. `Handshake` is the diagram of all that can become of
it: how often the signer and the server were asked, what the server replied, and
what status, token and activity go with that. `Run.handshake` says that every run
is somewhere in this diagram. So there is never a second handshake, a device that
is authenticated has the token of the one reply, and while the status says that
the handshake is under way somebody is at it, unless a call failed in an
unforeseen way.

That a handshake comes to an end is not said here: a reply may never come.
-/

namespace ArcadeUplink

open scoped List
open Pool (Lane)

/-- What remains to be done of a handshake. -/
inductive Stage where
  /-- Nobody was asked for anything yet. -/
  | asked
  | signing
  | greeting
  | failing
  | storing (token : String)
  | entering
  /-- The device is known, and its pairing is being looked up. -/
  | checking
deriving DecidableEq, Repr

/-- The part of a handshake that an activity is, if it is one. -/
def Activity.stage? : Activity → Option Stage
  | .submitHandshake | .handshake => some .asked
  | .waiting _ (.signed _) => some .signing
  | .waiting _ .greeted => some .greeting
  | .failHandshake _ => some .failing
  | .storeToken token => some (.storing token)
  | .enterChecking => some .entering
  | .askPairing .handshake | .waiting _ (.pairing .handshake) | .recordPairing _ .handshake
  | .settlePaired .handshake | .settleUnpaired .handshake => some .checking
  | _ => none

/-- The activities that are at a stage. -/
def Stage.IsAt (a : Activity) : Stage → Prop
  | asked => a = .submitHandshake ∨ a = .handshake
  | signing => ∃ call time, a = .waiting call (.signed time)
  | greeting => ∃ call, a = .waiting call .greeted
  | failing => ∃ reason, a = .failHandshake reason
  | storing token => a = .storeToken token
  | entering => a = .enterChecking
  | checking => a = .askPairing .handshake ∨ (∃ call, a = .waiting call (.pairing .handshake)) ∨
      (∃ pairing, a = .recordPairing pairing .handshake) ∨ a = .settlePaired .handshake ∨
        a = .settleUnpaired .handshake

theorem Activity.of_stage {a : Activity} {x : Stage} (h : a.stage? = some x) : x.IsAt a := by
  unfold stage? at h
  split at h
  all_goals cases h
  · exact .inl rfl
  · exact .inr rfl
  · exact ⟨_, _, rfl⟩
  · exact ⟨_, rfl⟩
  · exact ⟨_, rfl⟩
  · exact rfl
  · exact rfl
  · exact .inl rfl
  · exact .inr (.inl ⟨_, rfl⟩)
  · exact .inr (.inr (.inl ⟨_, rfl⟩))
  · exact .inr (.inr (.inr (.inl rfl)))
  · exact .inr (.inr (.inr (.inr rfl)))

/-- **The diagram of the handshake**: how often it was signed and sent, what was replied, the status
and the token, and who is at it. `broken` says whether a call failed in an unforeseen way, which
leaves a handshake to nobody. -/
inductive Handshake (broken : Prop) :
    (signed sent : Nat) → List AuthReply → Status → (token : String) → List Stage → Prop
  | unasked {token : String} : Handshake broken 0 0 [] .notAuthenticated token []
  | asked {token : String} : Handshake broken 0 0 [] .authenticating token [.asked]
  | signing {token : String} : Handshake broken 1 0 [] .authenticating token [.signing]
  | greeting {token : String} : Handshake broken 1 1 [] .authenticating token [.greeting]
  | failing {token : String} {k n : Nat} : k ≤ 1 → n ≤ 1 →
      Handshake broken k n [] .authenticating token [.failing]
  | failed {token : String} {k n : Nat} : k ≤ 1 → n ≤ 1 →
      Handshake broken k n [] .failed token []
  | storing {token : String} (reply : AuthReply) :
      Handshake broken 1 1 [reply] .authenticating token [.storing reply.token]
  | entering (reply : AuthReply) :
      Handshake broken 1 1 [reply] .authenticating reply.token [.entering]
  | checking (reply : AuthReply) :
      Handshake broken 1 1 [reply] .checkingPairing reply.token [.checking]
  | settled {s : Status} (reply : AuthReply) : s ∈ Gate.settled.states →
      Handshake broken 1 1 [reply] s reply.token []
  | abandoned {token : String} {k n : Nat} : broken → k ≤ 1 → n ≤ 1 →
      Handshake broken k n [] .authenticating token []
  | unchecked (reply : AuthReply) : broken →
      Handshake broken 1 1 [reply] .checkingPairing reply.token []

namespace Handshake

variable {broken broken' : Prop} {k n : Nat} {replies : List AuthReply} {s : Status}
  {token : String} {stages stages' : List Stage}

theorem mono (h : Handshake broken k n replies s token stages) (hb : broken → broken') :
    Handshake broken' k n replies s token stages := by
  cases h with
  | unasked => exact .unasked
  | asked => exact .asked
  | signing => exact .signing
  | greeting => exact .greeting
  | failing hk hn => exact .failing hk hn
  | failed hk hn => exact .failed hk hn
  | storing reply => exact .storing reply
  | entering reply => exact .entering reply
  | checking reply => exact .checking reply
  | settled reply hs => exact .settled reply hs
  | abandoned hbroken hk hn => exact .abandoned (hb hbroken) hk hn
  | unchecked reply hbroken => exact .unchecked reply (hb hbroken)

/-- At most one is at the handshake. -/
theorem length_le (h : Handshake broken k n replies s token stages) : stages.length ≤ 1 := by
  cases h <;> simp

theorem eq_singleton (h : Handshake broken k n replies s token stages) {x : Stage}
    (hx : x ∈ stages) : stages = [x] := by
  match stages, h.length_le with
  | [], _ => cases hx
  | [y], _ => rw [List.mem_singleton.mp hx]

/-- The order of stages does not matter, as there is at most one. -/
theorem of_perm (h : Handshake broken k n replies s token stages) (hp : stages ~ stages') :
    Handshake broken k n replies s token stages' := by
  have heq : stages = stages' := by
    match stages, h.length_le with
    | [], _ => exact (List.nil_perm.mp hp).symm
    | [x], _ => exact (List.perm_singleton.mp hp.symm).symm
  exact heq ▸ h

/-- The signer and the server are asked for a handshake at most once. -/
theorem once (h : Handshake broken k n replies s token stages) : k ≤ 1 ∧ n ≤ 1 := by
  cases h with
  | failing hk hn => exact ⟨hk, hn⟩
  | failed hk hn => exact ⟨hk, hn⟩
  | abandoned _ hk hn => exact ⟨hk, hn⟩
  | _ => decide

/-- **A device that is authenticated has the token of the one reply.** -/
theorem reply_of_authenticated (h : Handshake broken k n replies s token stages)
    (hs : s ∈ Gate.authenticated.states) : ∃ reply, replies = [reply] ∧ token = reply.token := by
  cases h with
  | checking reply => exact ⟨reply, rfl, rfl⟩
  | settled reply _ => exact ⟨reply, rfl, rfl⟩
  | unchecked reply _ => exact ⟨reply, rfl, rfl⟩
  | _ => exact absurd hs (by decide)

theorem status_of_checking (h : Handshake broken k n replies s token stages)
    (hx : .checking ∈ stages) : s = .checkingPairing := by
  cases h with
  | checking => rfl
  | _ => simp at hx

theorem checking_of_status {x : Stage} (h : Handshake broken k n replies s token [x])
    (hs : s = .checkingPairing) : x = .checking := by
  cases h <;> first | rfl | cases hs

theorem stages_of_failed (h : Handshake broken k n replies s token stages) (hs : s = .failed) :
    stages = [] := by
  cases h <;> first | rfl | cases hs

/-- While the status says so, somebody is at the handshake. -/
theorem exists_stage (h : Handshake broken k n replies s token stages) (hb : ¬broken)
    (hs : s = .authenticating ∨ s = .checkingPairing) : ∃ x, stages = [x] := by
  cases h with
  | abandoned hbroken => exact absurd hbroken hb
  | unchecked _ hbroken => exact absurd hbroken hb
  | unasked | failed => simp at hs
  | settled _ hmem => obtain rfl | rfl := hs <;> exact absurd hmem (by decide)
  | _ => exact ⟨_, rfl⟩

/-- Others change the status only of a device whose pairing is known. -/
theorem of_settled (h : Handshake broken k n replies s token stages) {t : Status}
    (ht : t = s ∨ s ∈ Gate.settled.states ∧ t ∈ Gate.settled.states) :
    Handshake broken k n replies t token stages := by
  obtain rfl | ⟨hs, ht⟩ := ht
  · exact h
  · cases h with
    | settled reply _ => exact .settled reply ht
    | _ => exact absurd hs (by decide)

end Handshake

namespace Engine

variable {now : Nat} {self : Option Nat} {e : Engine} {p : Workers} {a b : Activity}
  {reply : Option Reply} {r : Result}

/-- What the server replied to a handshake. -/
def greeting? : Activity → Option Reply → Option AuthReply
  | .waiting _ .greeted, some (.authenticated reply) => some reply
  | _, _ => none

/-! ## What others do -/

/-- Nobody comes to be at the handshake but who was at it, or begins it. -/
theorem Origin.stage_none (h : Origin e p a reply b) (ha : a.stage? = none)
    (hne : a ≠ .authenticate) : b.stage? = none := by
  cases h with
  | authenticate => exact absurd rfl hne
  | @askPairing occasion => cases occasion <;> first | rfl | cases ha
  | @isPaired _ _ occasion _ => cases occasion <;> first | rfl | cases ha
  | @notPaired _ occasion _ => cases occasion <;> first | rfl | cases ha
  | @recorded _ occasion => cases occasion <;> first | rfl | cases ha
  | _ => first | rfl | cases ha

theorem posted_stage_none (ha : a.stage? = none) (l : Lane) :
    (posted e p l a).filterMap Activity.stage? = [] := by
  refine filterMap_posted l fun m task herrand => ?_
  unfold errand? at herrand
  split at herrand
  all_goals cases herrand
  all_goals first | rfl | cases ha

/-- Others change the status only of a device whose pairing is known. -/
theorem turned_of_stage_none (ha : a.stage? = none) (hne : a ≠ .authenticate)
    (hc : a.Cleared e.status) :
    e.status.turned a = e.status ∨
      e.status ∈ Gate.settled.states ∧ e.status.turned a ∈ Gate.settled.states := by
  cases a with
  | authenticate => exact absurd rfl hne
  | failHandshake | enterChecking => cases ha
  | settlePaired occasion =>
    cases occasion with
    | handshake => cases ha
    | heartbeat => exact .inr ⟨hc _ rfl, hc.turned _ _ rfl⟩
  | settleUnpaired occasion =>
    cases occasion with
    | handshake => cases ha
    | heartbeat => exact .inr ⟨hc _ rfl, hc.turned _ _ rfl⟩
  | leavePairing t body =>
    unfold Status.turned
    dsimp only
    split
    · next hs => exact .inr ⟨by rw [hs]; decide, by decide⟩
    · exact .inl rfl
  | _ => exact .inl rfl

theorem token_of_stage_none (ha : a.stage? = none) (old : String) : a.tokenAfter old = old := by
  unfold Activity.tokenAfter
  split
  · cases ha
  · rfl

theorem greeting_of_stage_none (ha : a.stage? = none) : greeting? a reply = none := by
  unfold greeting?
  split
  · cases ha
  · rfl

/-- A handshake that waits for a reply is broken off only by a failure that nobody foresaw. -/
theorem panic_of_isLast {call : ServerCall} {c : Resume}
    (hc : (Activity.waiting call c).stage?.isSome = true)
    (h : isLast e p (.waiting call c) reply = true) : reply = some .panic := by
  have hlast (time : String) (occasion : Occasion) (hc : c = .signed time ∨ c = .greeted ∨
      c = .pairing occasion) : reply = some .panic := by
    obtain rfl | rfl | rfl := hc
    all_goals
      cases reply with
      | none => cases h
      | some answer => cases answer <;> first | rfl | cases h
  cases c with
  | signed time => exact hlast time .handshake (.inl rfl)
  | greeted => exact hlast "" .handshake (.inr (.inl rfl))
  | pairing occasion => exact hlast "" occasion (.inr (.inr rfl))
  | _ => cases hc

/-- How often a step asks for something. -/
def asks (method : ServerCall.Method) (rest : Option Activity) : Nat :=
  (rest.bind Activity.awaited?).toList.countP (·.method = method)

/-- Only who is at the handshake asks for it. -/
theorem Origin.asks_of_stage_none (h : Origin e p a reply b) (ha : a.stage? = none) :
    asks .sign (some b) = 0 ∧ asks .authenticate (some b) = 0 := by
  cases h with
  | @callRequest t =>
    unfold asks Option.bind Activity.awaited? callOf
    dsimp only
    split <;> exact ⟨rfl, rfl⟩
  | _ => first | exact ⟨rfl, rfl⟩ | cases ha

/-! ## A turn in the diagram -/

/-- What comes of the diagram in a turn: what was asked for and replied, and what remains of the
activity and was submitted by it, besides the stages of others. -/
abbrev After (broken : Prop) (k n : Nat) (replies : List AuthReply) (e : Engine) (p : Workers)
    (a : Activity) (reply : Option Reply) (rest : Option Activity) (others : List Stage) : Prop :=
  Handshake (broken ∨ reply = some .panic) (k + asks .sign rest) (n + asks .authenticate rest)
    (replies ++ (greeting? a reply).toList) (e.status.turned a) (a.tokenAfter e.links.token)
    ((rest.toList ++ posted e p .main a).filterMap Activity.stage? ++ others)

section Turn

variable {broken : Prop} {k n : Nat} {replies : List AuthReply} {others : List Stage}
  {rest : Option Activity}
  (h : Handshake broken k n replies e.status e.links.token (a.stage?.toList ++ others))
  (origin : ∀ b ∈ rest, Origin e p a reply b) (ends : rest = none → isLast e p a reply = true)
include h origin

theorem after_of_stage_none (ha : a.stage? = none) (hne : a ≠ .authenticate)
    (hc : a.Cleared e.status) : After broken k n replies e p a reply rest others := by
  have hasks : asks .sign rest = 0 ∧ asks .authenticate rest = 0 ∧
      rest.toList.filterMap Activity.stage? = [] := by
    cases rest with
    | none => exact ⟨rfl, rfl, rfl⟩
    | some b =>
      obtain ⟨hsign, hsend⟩ := (origin b rfl).asks_of_stage_none ha
      exact ⟨hsign, hsend, List.filterMap_cons_none ((origin b rfl).stage_none ha hne)⟩
  unfold After
  rw [hasks.1, hasks.2.1, List.filterMap_append, hasks.2.2, posted_stage_none ha,
    greeting_of_stage_none ha, token_of_stage_none ha]
  rw [ha] at h
  rw [Option.toList_none, List.append_nil]
  exact (h.mono .inl).of_settled (turned_of_stage_none ha hne hc)

theorem after_asked (ends : rest = none → isLast e p a reply = true)
    (ha : a.stage? = some .asked) : After broken k n replies e p a reply rest others := by
  rw [ha] at h
  generalize hs : e.status = s at h
  generalize htoken : e.links.token = token at h
  cases h
  unfold After
  rw [hs, htoken]
  obtain rfl | rfl := Activity.of_stage ha
  · rw [posted_of_postTo rfl]
    cases rest with
    | none =>
      have haccepted : (p.postTo .main .handshake).1 = true := ends rfl
      rw [if_pos haccepted]
      exact .asked
    | some b =>
      cases origin b rfl with
      | rejected hrejected =>
        rw [if_neg (Bool.eq_false_iff.mp hrejected)]
        exact .failing (Nat.zero_le _) (Nat.zero_le _)
      | told htold => cases htold
  · cases rest with
    | none => cases ends rfl
    | some b =>
      cases origin b rfl with
      | unreadable => exact .failing (Nat.zero_le _) (Nat.zero_le _)
      | sign => exact .signing
      | told htold => cases htold

theorem after_signing (ends : rest = none → isLast e p a reply = true)
    (ha : a.stage? = some .signing) : After broken k n replies e p a reply rest others := by
  rw [ha] at h
  generalize hs : e.status = s at h
  generalize htoken : e.links.token = token at h
  cases h
  unfold After
  rw [hs, htoken]
  obtain ⟨call, time, rfl⟩ := Activity.of_stage ha
  cases rest with
  | none =>
    obtain rfl := panic_of_isLast rfl (ends rfl)
    exact .abandoned (.inr rfl) (Nat.le_refl _) (Nat.zero_le _)
  | some b =>
    cases origin b rfl with
    | unsigned => exact .failing (Nat.le_refl _) (Nat.zero_le _)
    | signed => exact .greeting
    | told htold => obtain ⟨_, ⟨⟩⟩ := served_of_notices htold

theorem after_greeting (ends : rest = none → isLast e p a reply = true)
    (ha : a.stage? = some .greeting) : After broken k n replies e p a reply rest others := by
  rw [ha] at h
  generalize hs : e.status = s at h
  generalize htoken : e.links.token = token at h
  cases h
  unfold After
  rw [hs, htoken]
  obtain ⟨call, rfl⟩ := Activity.of_stage ha
  cases rest with
  | none =>
    obtain rfl := panic_of_isLast rfl (ends rfl)
    exact .abandoned (.inr rfl) (Nat.le_refl _) (Nat.le_refl _)
  | some b =>
    cases origin b rfl with
    | turnedAway => exact .failing (Nat.le_refl _) (Nat.le_refl _)
    | greeted => exact .storing _
    | told htold => obtain ⟨_, ⟨⟩⟩ := served_of_notices htold

theorem after_failing (ha : a.stage? = some .failing) :
    After broken k n replies e p a reply rest others := by
  rw [ha] at h
  generalize hs : e.status = s at h
  generalize htoken : e.links.token = token at h
  cases h
  unfold After
  rw [hs, htoken]
  obtain ⟨reason, rfl⟩ := Activity.of_stage ha
  cases rest with
  | none => exact .failed ‹_› ‹_›
  | some b =>
    cases origin b rfl with
    | told htold => cases htold

theorem after_storing {token : String} (ends : rest = none → isLast e p a reply = true)
    (ha : a.stage? = some (.storing token)) :
    After broken k n replies e p a reply rest others := by
  rw [ha] at h
  generalize hs : e.status = s at h
  generalize htoken : e.links.token = old at h
  cases h
  unfold After
  rw [hs, htoken]
  obtain rfl := Activity.of_stage ha
  cases rest with
  | none => cases ends rfl
  | some b =>
    cases origin b rfl with
    | stored => exact .entering _
    | told htold => cases htold

theorem after_entering (ends : rest = none → isLast e p a reply = true)
    (ha : a.stage? = some .entering) : After broken k n replies e p a reply rest others := by
  rw [ha] at h
  generalize hs : e.status = s at h
  generalize htoken : e.links.token = token at h
  cases h
  unfold After
  rw [hs, htoken]
  obtain rfl := Activity.of_stage ha
  cases rest with
  | none => cases ends rfl
  | some b =>
    cases origin b rfl with
    | entered => exact .checking _
    | told htold => cases htold

theorem after_checking (ends : rest = none → isLast e p a reply = true)
    (ha : a.stage? = some .checking) : After broken k n replies e p a reply rest others := by
  rw [ha] at h
  generalize hs : e.status = s at h
  generalize htoken : e.links.token = token at h
  cases h
  unfold After
  rw [hs, htoken]
  obtain rfl | ⟨call, rfl⟩ | ⟨pairing, rfl⟩ | rfl | rfl := Activity.of_stage ha
  · cases rest with
    | none => cases ends rfl
    | some b =>
      cases origin b rfl with
      | askPairing => exact .checking _
      | told htold => cases htold
  · cases rest with
    | none =>
      obtain rfl := panic_of_isLast rfl (ends rfl)
      exact .unchecked _ (.inr rfl)
    | some b =>
      cases origin b rfl with
      | told htold => obtain ⟨_, ⟨⟩⟩ := served_of_notices htold
      | _ => exact .checking _
  · cases rest with
    | none => cases ends rfl
    | some b =>
      cases origin b rfl with
      | recorded => exact .checking _
      | told htold => cases htold
  · cases rest with
    | none => cases ends rfl
    | some b =>
      cases origin b rfl with
      | paired => exact .settled _ (by decide)
      | told htold => cases htold
  · cases rest with
    | none => cases ends rfl
    | some b =>
      cases origin b rfl with
      | unpaired => exact .settled _ (by decide)
      | told htold => cases htold

theorem after_authenticate (ends : rest = none → isLast e p a reply = true)
    (ha : a = .authenticate) : After broken k n replies e p a reply rest others := by
  subst ha
  unfold After
  cases rest with
  | none =>
    have hs : e.status ≠ .notAuthenticated := of_decide_eq_true (ends rfl)
    have hturned : e.status.turned .authenticate = e.status := if_neg hs
    have hreplies : replies ++ (greeting? .authenticate reply).toList = replies :=
      List.append_nil _
    rw [hturned, hreplies]
    exact Handshake.mono h .inl
  | some b =>
    cases origin b rfl with
    | authenticate hs =>
      generalize hs' : e.status = s at h
      generalize htoken : e.links.token = token at h
      obtain rfl := hs.symm.trans hs'
      cases h with
      | unasked => exact .asked
      | settled _ hmem => exact absurd hmem (by decide)
    | told htold => cases htold

end Turn

/-- **Every turn stays in the diagram.** -/
theorem Behaves.handshake {broken : Prop} {k n : Nat} {replies : List AuthReply}
    {others : List Stage}
    (h : Handshake broken k n replies e.status e.links.token (a.stage?.toList ++ others))
    (hb : Behaves now self e p a reply r) (hc : a.Cleared e.status) :
    After broken k n replies e p a reply r.rest others := by
  have horigin := hb.origin
  have hends := hb.ends
  cases ha : a.stage? with
  | none =>
    by_cases hne : a = .authenticate
    · exact after_authenticate h horigin hends hne
    · exact after_of_stage_none h horigin ha hne hc
  | some x =>
    cases x with
    | asked => exact after_asked h horigin hends ha
    | signing => exact after_signing h horigin hends ha
    | greeting => exact after_greeting h horigin hends ha
    | failing => exact after_failing h horigin ha
    | storing token => exact after_storing h horigin hends ha
    | entering => exact after_entering h horigin hends ha
    | checking => exact after_checking h horigin hends ha

/-! ## Along a run -/

/-- How often something was asked for in some steps. -/
def asked (method : ServerCall.Method) (ts : List Transition) : Nat :=
  (ts.flatMap calls).countP (·.method = method)

/-- What the server replied to handshakes in some steps. -/
def greetings (ts : List Transition) : List AuthReply :=
  ts.filterMap fun t => t.turn?.bind fun u => greeting? u.activity u.reply

/-- Whether a call fails in an unforeseen way. -/
def isPanic (t : Transition) : Bool :=
  t.turn?.any fun u => match u.reply with
    | some .panic => true
    | _ => false

/-- A call failed in an unforeseen way. -/
abbrev Panicked (ts : List Transition) : Prop := ∃ t ∈ ts, isPanic t = true

/-- Who is at the handshake. -/
def stages (m : System) : List Stage := (m.stock .main).filterMap Activity.stage?

section Run

variable {s : Setup} {start : Nat} {ts us : List Transition} {t : Transition} {m : System}
  {method : ServerCall.Method}

theorem asked_concat (method : ServerCall.Method) (ts : List Transition) (t : Transition) :
    asked method (ts ++ [t]) = asked method ts + (calls t).countP (·.method = method) := by
  unfold asked
  rw [List.flatMap_append, List.countP_append, List.flatMap_singleton]

theorem greetings_concat (ts : List Transition) (t : Transition) :
    greetings (ts ++ [t]) =
      greetings ts ++ (t.turn?.bind fun u => greeting? u.activity u.reply).toList :=
  Pool.filterMap_concat ..

theorem isPanic_of_turn {u : Machine.Turn Activity Reply} (h : t.turn? = some u)
    (hpanic : u.reply = some .panic) : isPanic t = true := by
  unfold isPanic
  rw [h, Option.any_some, hpanic]

theorem Panicked.append (h : Panicked ts) (us : List Transition) : Panicked (ts ++ us) := by
  obtain ⟨t, ht, hpanic⟩ := h
  exact ⟨t, List.mem_append_left _ ht, hpanic⟩

theorem stage_of_isHostCall {a : Activity} (h : a.isHostCall = true) : a.stage? = none := by
  cases a <;> first | rfl | cases h

theorem stage_of_isForeign {a : Activity} (h : a.isForeign = true) : a.stage? = none := by
  cases a with
  | _ => first | rfl | cases h

/-- The turn of an activity, along a run. -/
theorem Handshake.turn {m m' : System} {move : Machine.Move Activity Reply}
    {events : List EngineEvent} {u : Machine.Turn Activity Reply} {broken : Prop} {k n : Nat}
    {replies : List AuthReply}
    (h : Handshake broken k n replies m.world.status m.world.links.token (stages m))
    (hm : Placed m) (hstep : m.step program move = some (m', events))
    (hu : Machine.Transition.turn? ⟨m, move, m'⟩ = some u) :
    Handshake (broken ∨ u.reply = some .panic)
      (k + (calls ⟨m, move, m'⟩).countP (·.method = .sign))
      (n + (calls ⟨m, move, m'⟩).countP (·.method = .authenticate))
      (replies ++ (greeting? u.activity u.reply).toList) m'.world.status m'.world.links.token
      (stages m') := by
  obtain ⟨self, r, others, hr, hworld, hevents, hbefore, hafter⟩ :=
    Machine.stock_turn act_uses hstep hu .main
  have hb := act_behaves hr
  have hcalls : calls ⟨m, move, m'⟩ = (r.rest.bind Activity.awaited?).toList := by
    unfold calls
    rw [Machine.Transition.seen_of_step hstep, hevents]
    exact hb.calls
  have hstages : stages m ~ u.activity.stage?.toList ++ others.filterMap Activity.stage? := by
    refine (hbefore.filterMap _).trans (.of_eq ?_)
    rw [List.filterMap_cons]
    cases u.activity.stage? <;> rfl
  have hnext := hb.handshake (h.of_perm hstages) (Machine.Tended.fit_of_turn hm hu).2
  rw [hcalls, hworld, hb.status, hb.token]
  refine hnext.of_perm ?_
  rw [← List.filterMap_append]
  exact (hafter _ (hb.waiting .main)).symm.filterMap _

/-- Nobody's turn, along a run: nobody comes to be at the handshake. -/
theorem stages_idle {m m' : System} {move : Machine.Move Activity Reply}
    {events : List EngineEvent} (hm : Placed m) (hapart : m.pool.Apart (·.isForeign = true) .main)
    (hopen : move.isOpen Activity.isHostCall = true)
    (hstep : m.step program move = some (m', events))
    (hu : Machine.Transition.turn? ⟨m, move, m'⟩ = none) : stages m' ~ stages m := by
  obtain ⟨-, new, hnew, hmem⟩ := Machine.stock_idle hstep hu .main
  refine (hnew.filterMap Activity.stage?).trans (.of_eq ?_)
  have hnone : new.filterMap Activity.stage? = [] := by
    refine List.filterMap_eq_nil_iff.mpr fun a ha => ?_
    obtain rfl | helse := hmem a ha
    · exact stage_of_isHostCall hopen
    · exact stage_of_isForeign (hapart.of_elsewhere hm.pool.drains helse)
  rw [List.filterMap_append, hnone]
  rfl

/-- **Every run is somewhere in the diagram of the handshake.** -/
theorem Run.handshake (h : Run s start ts m) :
    Handshake (Panicked ts) (asked .sign ts) (asked .authenticate ts) (greetings ts)
      m.world.status m.world.links.token (stages m) := by
  induction h with
  | start => exact .unasked
  | @step ts m m' move events hts hopen hstep ih =>
    have hbefore : Run s start ts m := hts
    rw [asked_concat, asked_concat, greetings_concat]
    cases hu : Machine.Transition.turn? ⟨m, move, m'⟩ with
    | some u =>
      refine (Handshake.turn ih hbefore.placed hstep hu).mono ?_
      rintro (hbroken | hpanic)
      · exact hbroken.append _
      · exact ⟨_, List.mem_append_right _ List.mem_cons_self, isPanic_of_turn hu hpanic⟩
    | none =>
      have hrun : Run s start (ts ++ ⟨m, move, m'⟩ :: []) m' := .step hts hopen hstep
      obtain ⟨hcalls, -, hworld⟩ := hrun.idle hu
      dsimp only at hworld
      rw [hcalls, hworld, List.countP_nil, List.countP_nil, Option.bind_none, Option.toList_none,
        List.append_nil]
      have hsame := stages_idle hbefore.placed hbefore.main_apart hopen hstep hu
      exact (ih.of_perm hsame.symm).mono (·.append _)

end Run

end Engine

end ArcadeUplink
