import ArcadeUplink.Proofs.Pool.History
import ArcadeUplink.Proofs.Session.Parts

/-!
# What a step does

Everything that one step of the engine does, said once: where it leaves an
activity from (`Origin`), what it does to the pool (`errand?`), what it makes of
the status, of the token and of the code for pairing, which call it makes and
what it tells the host. `Behaves` puts these together, and `act_behaves` says
that every step does just that. Whatever else is said of runs is a question to
these tables; the program itself is not opened again.

What a step does to the ledger and to the directory is not in the tables.
-/

namespace ArcadeUplink

open Pool (Lane)

/-- What the host is told of a request. -/
structure Notice where
  ticket : Ticket
  code : ResultCode
  text : String
deriving DecidableEq, Repr

namespace EngineEvent

def call? : EngineEvent → Option ServerCall
  | .called call => some call
  | _ => none

def notice? : EngineEvent → Option Notice
  | .callback ticket code text => some ⟨ticket, code, text⟩
  | _ => none

end EngineEvent

/-- The status after a turn of an activity. -/
def Status.turned (s : Status) : Activity → Status
  | .authenticate => if s = .notAuthenticated then .authenticating else s
  | .failHandshake _ => if s = .authenticating then .failed else s
  | .enterChecking => if s = .authenticating then .checkingPairing else s
  | .settlePaired _ => if s = .checkingPairing ∨ s = .unpaired then .paired else s
  | .settleUnpaired _ => if s = .checkingPairing then .unpaired else s
  | .leavePairing .. => if s = .paired then .unpaired else s
  | _ => s

namespace Activity

/-- Whether an activity starts or stops the pool, or goes on with that. -/
def isLife : Activity → Bool
  | .startUp | .starting | .shutDown _ | .stopping _ => true
  | _ => false

/-- The token after a turn of an activity. -/
def tokenAfter (old : String) : Activity → String
  | .storeToken token => token
  | _ => old

/-- The code for pairing that is remembered after a turn of an activity. -/
def codeAfter (old : Option String) : Activity → Option String
  | .keepCode _ code => some code
  | _ => old

/-- The call whose reply an activity waits for. -/
def awaited? : Activity → Option ServerCall
  | .waiting call _ => some call
  | _ => none

/-- The request that a task is about, from its gate on. -/
def ticket? : Activity → Option Ticket
  | .serve t | .recallCode t | .callRequest t | .waiting _ (.served t) | .keepCode t _
  | .leavePairing t _ | .forgetPairing t _ => some t
  | _ => none

end Activity

namespace Engine

/-- **What an activity tells the host** of a request in its turn. -/
def notices (e : Engine) (p : Workers) : Activity → Option Reply → List Notice
  | .request t, _ => if (p.postTo .main (.serve t)).1 then [] else [⟨t, .unknown, droppedText⟩]
  | .serve t, _ => match (gateOf t.request).refusal? e.status with
    | some code => [⟨t, code, ""⟩]
    | none => []
  | .recallCode t, _ => match e.links.shortCode with
    | some code => [⟨t, .success, code⟩]
    | none => []
  | .waiting _ (.served t), some .panic => [⟨t, .unknown, droppedText⟩]
  | .waiting _ (.served t), some (.refused error) => [⟨t, error.code, error.message⟩]
  | .waiting _ (.served t), some (.text body) => match t.request with
    | .topScores _ => [⟨t, .success, body⟩]
    | _ => []
  | .keepCode t code, _ => [⟨t, .success, code⟩]
  | .leavePairing t body, _ => if e.status = .paired then [] else [⟨t, .success, body⟩]
  | .forgetPairing t body, _ => [⟨t, .success, body⟩]
  | _, _ => []

/-- The reply to a call tells the host of a request only if the call was for one. -/
theorem served_of_notices {e : Engine} {p : Workers} {call : ServerCall} {c : Resume}
    {reply : Option Reply} {n : Notice} (h : notices e p (.waiting call c) reply = [n]) :
    ∃ t, c = .served t := by
  cases c with
  | served t => exact ⟨t, rfl⟩
  | _ =>
    cases reply with
    | none => cases h
    | some answer => cases answer <;> cases h

/-- **Where an activity comes from**: what the activity that it remains of was, what that one was
replied, and what it found. Calls and tasks do not remain of anything. -/
inductive Origin (e : Engine) (p : Workers) : Activity → Option Reply → Activity → Prop
  | started : Origin e p .startUp none .starting
  | shutDown {failing : Bool} : Origin e p (.shutDown failing) none (.stopping failing)
  | stopping {failing : Bool} : Origin e p (.stopping failing) none (.stopping failing)
  -- A callback
  | told {a : Activity} {reply : Option Reply} {n : Notice} {failing : Bool} :
      notices e p a reply = [n] → n.ticket.stops = true → Origin e p a reply (.shutDown failing)
  -- Authentication
  | authenticate : e.status = .notAuthenticated → Origin e p .authenticate none .submitHandshake
  | rejected {reason : String} : (p.postTo .main .handshake).1 = false →
      Origin e p .submitHandshake none (.failHandshake reason)
  | unreadable {reason : String} : Origin e p .handshake none (.failHandshake reason)
  | sign {request : Signature.Request} {time : String} :
      Origin e p .handshake none (.waiting (.sign request) (.signed time))
  | unsigned {call : ServerCall} {time reason : String} {answer : Reply} :
      Origin e p (.waiting call (.signed time)) (some answer) (.failHandshake reason)
  | signed {call : ServerCall} {time : String} {bytes : Option (List UInt8)}
      {request : AuthRequest} : Origin e p (.waiting call (.signed time)) (some (.signature bytes))
        (.waiting (.authenticate ⟨e.setup.baseUrl, ""⟩ request) .greeted)
  | turnedAway {call : ServerCall} {error : CallError} :
      Origin e p (.waiting call .greeted) (some (.refused error)) (.failHandshake error.message)
  | greeted {call : ServerCall} {reply : AuthReply} :
      Origin e p (.waiting call .greeted) (some (.authenticated reply)) (.storeToken reply.token)
  | stored {token : String} : Origin e p (.storeToken token) none .enterChecking
  | entered : Origin e p .enterChecking none (.askPairing .handshake)
  -- Pairing
  | askPairing {occasion : Occasion} : Origin e p (.askPairing occasion) none
      (.waiting (.pairingStatus e.endpoint) (.pairing occasion))
  | isPaired {call : ServerCall} {pairing : Pairing} {occasion : Occasion} :
      pairing.paired = true → Origin e p (.waiting call (.pairing occasion))
        (some (.pairing pairing)) (.recordPairing pairing occasion)
  | notPaired {call : ServerCall} {occasion : Occasion} {answer : Reply} :
      Origin e p (.waiting call (.pairing occasion)) (some answer) (.settleUnpaired occasion)
  | recorded {pairing : Pairing} {occasion : Occasion} :
      Origin e p (.recordPairing pairing occasion) none (.settlePaired occasion)
  | paired : Origin e p (.settlePaired .handshake) none .armTimer
  | unpaired : Origin e p (.settleUnpaired .handshake) none .armTimer
  | foundPaired : Origin e p (.settlePaired .heartbeat) none .callHeartbeat
  | foundUnpaired : Origin e p (.settleUnpaired .heartbeat) none .callHeartbeat
  -- Heartbeats
  | armed : Origin e p .armTimer none .setTimer
  | requestedAgain : Origin e p (.requestBeat true) none .setTimer
  | submittedAgain : Origin e p (.submitBeat true) none .setTimer
  | withdrawnAgain : Origin e p (.withdrawBeat true) none .setTimer
  | setTimer : (p.mayDelay .heartbeat).1 = true → Origin e p .setTimer none .enqueueTimer
  | requestBeat {again : Bool} : Origin e p (.requestBeat again) none (.submitBeat again)
  | submitBeat {again : Bool} : Origin e p (.submitBeat again) none (.withdrawBeat again)
  | beat : Origin e p .beat none .beatGate
  | beatGate : e.status ∈ Gate.settled.states → Origin e p .beatGate none .beatPairing
  | beatUnpaired : e.status = .unpaired → Origin e p .beatPairing none (.askPairing .heartbeat)
  | beatPaired : Origin e p .beatPairing none .callHeartbeat
  | callHeartbeat : Origin e p .callHeartbeat none (.waiting (.heartbeat e.endpoint) .beaten)
  | profiles {call : ServerCall} {answer : Reply} {value : Json} :
      Origin e p (.waiting call .beaten) (some answer) (.applyProfiles value)
  | noProfiles {call : ServerCall} {answer : Reply} :
      Origin e p (.waiting call .beaten) (some answer) .retry
  | applied {value : Json} : Origin e p (.applyProfiles value) none .listDownloads
  | unchanged {value : Json} : Origin e p (.applyProfiles value) none .retry
  | listed : Origin e p .listDownloads none (.submitDownloads e.directory.missingPictures)
  | submitDownload {place : PlayerNumber × String} {places : List (PlayerNumber × String)} :
      Origin e p (.submitDownloads (place :: places)) none (.submitDownloads places)
  | submitDownloads : Origin e p (.submitDownloads []) none .retry
  | retry : Origin e p .retry none .scanLedger
  | scanned {uploads histories : List String} :
      Origin e p .scanLedger none (.submit uploads histories)
  -- Games
  | sendSnapshot {s : Snapshot} : Origin e p (.sendSnapshot s) none (.record s)
  | record {s : Snapshot} {uploads histories : List String} :
      Origin e p (.record s) none (.submit uploads histories)
  | submitUpload {id : String} {uploads histories : List String} :
      Origin e p (.submit (id :: uploads) histories) none (.submit uploads histories)
  | submitHistory {id : String} {histories : List String} :
      Origin e p (.submit [] (id :: histories)) none (.submit [] histories)
  | refusedUpload {id : String} {uploads histories : List String} :
      Origin e p (.submit (id :: uploads) histories) none (.withdrawUpload id uploads histories)
  | refusedHistory {id : String} {histories : List String} :
      Origin e p (.submit [] (id :: histories)) none (.withdrawHistory id histories)
  | withdrawUpload {id : String} {uploads histories : List String} :
      Origin e p (.withdrawUpload id uploads histories) none (.submit uploads histories)
  | withdrawHistory {id : String} {histories : List String} :
      Origin e p (.withdrawHistory id histories) none (.submit [] histories)
  | upload {u : SnapshotUpload} {k : Nat} : Origin e p (.upload u.session) none (.uploadGate u k)
  | uploadGate {u : SnapshotUpload} {k : Nat} : e.status ∈ Gate.paired.states →
      Origin e p (.uploadGate u k) none (.callUpload u k)
  | callUpload {u : SnapshotUpload} {k : Nat} : Origin e p (.callUpload u k) none
      (.waiting (.gameData e.endpoint u) (.uploaded u.session k))
  | uploaded {call : ServerCall} {id : String} {k : Nat} {answer : Reply} :
      Origin e p (.waiting call (.uploaded id k)) (some answer) (.acknowledge id k)
  | acknowledge {id : String} {k : Nat} : Origin e p (.acknowledge id k) none (.history id)
  | history {u : HistoryUpload} : Origin e p (.history u.session) none (.historyGate u)
  | historyGate {u : HistoryUpload} : e.status ∈ Gate.paired.states →
      Origin e p (.historyGate u) none (.callHistory u)
  | callHistory {u : HistoryUpload} : Origin e p (.callHistory u) none
      (.waiting (.uploadHistory e.endpoint u) (.historyUploaded u.session))
  | historyUploaded {call : ServerCall} {id : String} {answer : Reply} :
      Origin e p (.waiting call (.historyUploaded id)) (some answer) (.close id)
  -- Requests
  | serveCode {t : Ticket} : e.status ∈ (gateOf t.request).states → t.request = .pairCode →
      Origin e p (.serve t) none (.recallCode t)
  | serve {t : Ticket} : e.status ∈ (gateOf t.request).states → t.request ≠ .pairCode →
      Origin e p (.serve t) none (.callRequest t)
  | recallCode {t : Ticket} : e.links.shortCode = none →
      Origin e p (.recallCode t) none (.callRequest t)
  | callRequest {t : Ticket} :
      Origin e p (.callRequest t) none (.waiting (e.callOf t.request) (.served t))
  | servedCode {call : ServerCall} {t : Ticket} {code : String} : t.request = .pairCode →
      Origin e p (.waiting call (.served t)) (some (.text code)) (.keepCode t code)
  | servedUnpair {call : ServerCall} {t : Ticket} {body : String} : t.request = .unpair →
      Origin e p (.waiting call (.served t)) (some (.text body)) (.leavePairing t body)
  | leavePairing {t : Ticket} {body : String} : e.status = .paired →
      Origin e p (.leavePairing t body) none (.forgetPairing t body)
  -- Reports, pictures and links
  | reportGate {r : InstalledReport} : e.status ∈ Gate.settled.states →
      Origin e p (.reportGate r) none (.callInstalled r)
  | callInstalled {r : InstalledReport} : Origin e p (.callInstalled r) none
      (.waiting (.installed e.endpoint r) (.reported r.kind))
  | download {player : PlayerNumber} {url : String} :
      Origin e p (.download player url) none (.waiting (.download url) (.downloaded player))
  | downloaded {call : ServerCall} {player : PlayerNumber} {picture : Picture} :
      Origin e p (.waiting call (.downloaded player)) (some (.bytes picture))
        (.storePicture player picture)
  | storePicture {player : PlayerNumber} {picture : Picture} :
      Origin e p (.storePicture player picture) none .announcePicture
  | consult {query : Directory.Query} : Origin e p (.consult query) none .announcePicture
  | pairLink : Origin e p .pairLink none .readPairLink
  | claimLink {player : PlayerNumber} : Origin e p (.claimLink player) none (.readClaimLink player)

/-- **What an activity does to the pool** in its turn, if it does anything. `self` is the worker
whose turn it is, if it is one. -/
def errand? (now : Nat) (self : Option Nat) (e : Engine) (a : Activity) :
    Option (Pool.Event Activity) :=
  match a, e.isOutOfReach now with
  | .startUp, _ => some .beginStart
  | .starting, _ => some (.advance self)
  | .shutDown _, _ => some .beginStop
  | .stopping _, _ => some (.advance self)
  | .submitHandshake, _ => some (.postTo .main .handshake)
  | .setTimer, _ => some (.mayDelay .heartbeat (.requestBeat true))
  | .enqueueTimer, false =>
    some (.delay now e.setup.settings.heartbeatMs .heartbeat (.requestBeat true))
  | .submitBeat _, _ => some (.postTo .heartbeat .beat)
  | .submitDownloads ((player, url) :: _), _ => some (.postTo .main (.download player url))
  | .submit (id :: _) _, _ => some (.postTo .gameData (.upload id))
  | .submit [] (id :: _), _ => some (.postTo .gameData (.history id))
  | .request t, _ => some (.postTo .main (.serve t))
  | .report r, _ => some (.postTo .main (.reportGate r))
  | _, _ => none

/-- Whether nothing may remain of an activity after its turn. A handshake and a check of the pairing
go on unless a worker is to go on with them or they fail; a request goes on until the host is told. -/
def isLast (e : Engine) (p : Workers) : Activity → Option Reply → Bool
  | .authenticate, _ => e.status ≠ .notAuthenticated
  | .submitHandshake, _ => (p.postTo .main .handshake).1
  | .handshake, _ | .storeToken _, _ | .enterChecking, _ => false
  | .askPairing _, _ | .recordPairing .., _ | .settlePaired _, _ | .settleUnpaired _, _ => false
  | .waiting _ (.signed _), some .panic | .waiting _ .greeted, some .panic
  | .waiting _ (.pairing _), some .panic => true
  | .waiting _ (.signed _), _ | .waiting _ .greeted, _ | .waiting _ (.pairing _), _ => false
  | a, reply => a.ticket?.isNone || !(notices e p a reply).isEmpty

/-- What a step does, by the tables. -/
structure Behaves (now : Nat) (worker : Option Nat) (e : Engine) (p : Workers) (a : Activity)
    (reply : Option Reply) (r : Result) : Prop where
  origin : ∀ b ∈ r.rest, Origin e p a reply b
  pool : match errand? now worker e a with
    | some v => p.after? v = some r.pool
    | none => r.pool = p
  setup : r.world.setup = e.setup
  status : r.world.status = e.status.turned a
  token : r.world.links.token = a.tokenAfter e.links.token
  code : r.world.links.shortCode = a.codeAfter e.links.shortCode
  /-- A step makes a call just if its reply is waited for. -/
  calls : r.events.filterMap EngineEvent.call? = (r.rest.bind Activity.awaited?).toList
  told : r.events.filterMap EngineEvent.notice? = notices e p a reply
  ends : r.rest = none → isLast e p a reply = true
  /-- Nothing remains of a request that the host is told of, but that its callback may go on. -/
  quiet : ∀ b ∈ r.rest, b.isLife = false → notices e p a reply = []

variable {now : Nat} {self : Option Nat} {e f : Engine} {p q : Workers} {a b : Activity}
  {reply : Option Reply} {r : Result} {log : List Log.Entry} {events : List EngineEvent}

@[simp] theorem calls_noted (log : List Log.Entry) :
    (noted log).filterMap EngineEvent.call? = [] := by
  unfold noted
  rw [List.filterMap_map]
  exact List.filterMap_eq_nil_iff.mpr fun _ _ => rfl

@[simp] theorem notices_noted (log : List Log.Entry) :
    (noted log).filterMap EngineEvent.notice? = [] := by
  unfold noted
  rw [List.filterMap_map]
  exact List.filterMap_eq_nil_iff.mpr fun _ _ => rfl

namespace Behaves

theorem go (origin : Origin e p a reply b)
    (pool : match errand? now self e a with
      | some v => p.after? v = some q
      | none => q = p)
    (setup : f.setup = e.setup) (status : f.status = e.status.turned a)
    (token : f.links.token = a.tokenAfter e.links.token)
    (code : f.links.shortCode = a.codeAfter e.links.shortCode)
    (idle : b.awaited? = none) (quiet : notices e p a reply = []) :
    Behaves now self e p a reply (f.go q b log) where
  origin _ hc := Option.some.inj hc ▸ origin
  pool := pool
  setup := setup
  status := status
  token := token
  code := code
  calls := (calls_noted log).trans (congrArg Option.toList idle).symm
  told := (notices_noted log).trans quiet.symm
  ends := nofun
  quiet _ _ _ := quiet

theorem quit (pool : match errand? now self e a with
      | some v => p.after? v = some q
      | none => q = p)
    (setup : f.setup = e.setup) (status : f.status = e.status.turned a)
    (token : f.links.token = a.tokenAfter e.links.token)
    (code : f.links.shortCode = a.codeAfter e.links.shortCode)
    (calls : events.filterMap EngineEvent.call? = [])
    (told : events.filterMap EngineEvent.notice? = notices e p a reply)
    (ends : isLast e p a reply = true) :
    Behaves now self e p a reply (f.quit q events) where
  origin b hb := absurd hb (Option.not_mem_none b)
  pool := pool
  setup := setup
  status := status
  token := token
  code := code
  calls := calls
  told := told
  ends _ := ends
  quiet b hb := absurd hb (Option.not_mem_none b)

theorem ask {call : ServerCall} {resume : Resume}
    (origin : Origin e p a reply (.waiting call resume))
    (pool : errand? now self e a = none) (status : e.status.turned a = e.status)
    (token : a.tokenAfter e.links.token = e.links.token)
    (code : a.codeAfter e.links.shortCode = e.links.shortCode)
    (quiet : notices e p a reply = []) :
    Behaves now self e p a reply (e.ask p call resume) where
  origin _ hc := Option.some.inj hc ▸ origin
  pool := by rw [pool]; rfl
  setup := rfl
  status := status.symm
  token := token.symm
  code := code.symm
  calls := rfl
  told := quiet.symm
  ends := nofun
  quiet _ _ _ := quiet

theorem tell {failing : Bool} {t : Ticket} {c : ResultCode} {text : String}
    (pool : match errand? now self e a with
      | some v => p.after? v = some q
      | none => q = p)
    (setup : f.setup = e.setup) (status : f.status = e.status.turned a)
    (token : f.links.token = a.tokenAfter e.links.token)
    (code : f.links.shortCode = a.codeAfter e.links.shortCode)
    (told : notices e p a reply = [⟨t, c, text⟩]) (ends : isLast e p a reply = true) :
    Behaves now self e p a reply (f.tell q failing log t c text) := by
  refine ⟨fun b hb => ?_, pool, setup, status, token, code, ?_, ?_, fun _ => ends,
    fun b hb hlife => ?_⟩
  · obtain ⟨hstops, heq⟩ := Option.ite_none_right_eq_some.mp hb
    cases heq
    exact .told told hstops
  · unfold Engine.tell
    dsimp only
    rw [List.filterMap_append, calls_noted, List.filterMap_cons_none rfl, calls_noted]
    split <;> rfl
  · unfold Engine.tell
    dsimp only
    rw [List.filterMap_append, notices_noted, told]
    exact congrArg (_ :: ·) (notices_noted _)
  · obtain ⟨-, heq⟩ := Option.ite_none_right_eq_some.mp hb
    cases heq
    cases hlife

end Behaves

/-- Whatever a submission answers, the pool is the one after it. -/
theorem after?_of_postTo {l : Lane} {task : Activity} {done : Bool}
    (h : p.postTo l task = (done, q, log)) : p.after? (.postTo l task) = some q := by
  unfold Pool.after?
  dsimp only
  rw [h]

theorem after?_of_advance {c : Workers × List Log.Entry} (h : p.advanceControl self = some c) :
    p.after? (.advance self) = some c.1 := by
  unfold Pool.after?
  dsimp only
  rw [h]
  rfl

theorem move?_eq (e : Engine) (sources : List Status) (target : Status) :
    e.move? sources target =
      if e.status ∈ sources then some ({ e with status := target }, [statusNote e.status target])
      else none := rfl

/-- A change of the status changes nothing else. -/
theorem move_same (e : Engine) (sources : List Status) (target : Status) :
    (e.move sources target).1.setup = e.setup ∧ (e.move sources target).1.links = e.links ∧
      (e.move sources target).1.status = if e.status ∈ sources then target else e.status := by
  unfold move move?
  split
  · exact ⟨rfl, rfl, rfl⟩
  · exact ⟨rfl, rfl, rfl⟩

theorem mem_states_of_open {g : Gate} {s : Status} (h : g.refusal? s = none) : s ∈ g.states := by
  unfold Gate.refusal? at h
  split at h
  · next hmem => exact hmem
  · split at h <;> cases h

theorem lifeStep_behaves (h : e.lifeStep self p a = some r) :
    Behaves now self e p a none r := by
  unfold lifeStep at h
  split at h
  · obtain ⟨q, hq, rfl⟩ := Option.map_eq_some_iff.mp h
    split
    · exact .quit hq rfl rfl rfl rfl (calls_noted _) (notices_noted _) rfl
    · apply Behaves.go .started hq <;> rfl
  · split at h
    · next q log hq =>
      cases h
      exact .quit (after?_of_advance hq) rfl rfl rfl rfl (calls_noted _) (notices_noted _) rfl
    · cases h
  · obtain ⟨q, hq, rfl⟩ := Option.map_eq_some_iff.mp h
    apply Behaves.go .shutDown hq <;> rfl
  · obtain ⟨c, hc, rfl⟩ := Option.map_eq_some_iff.mp h
    have hpool := after?_of_advance hc
    split
    · exact .quit hpool rfl rfl rfl rfl (calls_noted _) (notices_noted _) rfl
    · apply Behaves.go .stopping hpool <;> rfl
  · cases h

theorem handshakeStep_behaves (h : e.handshakeStep now p a = some r) :
    Behaves now self e p a none r := by
  unfold handshakeStep at h
  split at h
  · obtain rfl := Option.some.inj h
    rw [move?_eq]
    by_cases hs : e.status = .notAuthenticated
    · rw [if_pos (List.mem_singleton.mpr hs)]
      exact .go (.authenticate hs) rfl rfl (if_pos hs).symm rfl rfl rfl rfl
    · rw [if_neg (mt List.mem_singleton.mp hs)]
      exact .quit rfl rfl (if_neg hs).symm rfl rfl rfl rfl (decide_eq_true hs)
  · obtain rfl := Option.some.inj h
    split
    · next q log hq =>
      exact .quit (after?_of_postTo hq) rfl rfl rfl rfl (calls_noted _) (notices_noted _)
        (congrArg Prod.fst hq)
    · next q log hq =>
      apply Behaves.go (.rejected (congrArg Prod.fst hq)) (after?_of_postTo hq) <;> rfl
  · next reason =>
    obtain rfl := Option.some.inj h
    obtain ⟨hsetup, hlinks, hstatus⟩ := e.move_same [.authenticating] .failed
    have hs := hstatus.trans (if_congr List.mem_singleton rfl rfl)
    exact .quit rfl hsetup hs (congrArg Links.token hlinks) (congrArg Links.shortCode hlinks)
      (calls_noted _) (notices_noted _) rfl
  · obtain rfl := Option.some.inj h
    split
    · apply Behaves.ask .sign <;> rfl
    · apply Behaves.go .unreadable <;> rfl
  · obtain rfl := Option.some.inj h
    apply Behaves.go .stored <;> rfl
  · obtain rfl := Option.some.inj h
    obtain ⟨hsetup, hlinks, hstatus⟩ := e.move_same [.authenticating] .checkingPairing
    have hs := hstatus.trans (if_congr List.mem_singleton rfl rfl)
    exact .go .entered rfl hsetup hs (congrArg Links.token hlinks)
      (congrArg Links.shortCode hlinks) rfl rfl
  · cases h

theorem pairingStep_behaves (h : e.pairingStep p a = some r) : Behaves now self e p a none r := by
  unfold pairingStep at h
  split at h
  · next occasion =>
    obtain rfl := Option.some.inj h
    apply Behaves.ask .askPairing <;> rfl
  · next pairing occasion =>
    obtain rfl := Option.some.inj h
    apply Behaves.go .recorded <;> rfl
  · next occasion =>
    obtain rfl := Option.some.inj h
    obtain ⟨hsetup, hlinks, hstatus⟩ := e.move_same [.checkingPairing, .unpaired] .paired
    have hs : (e.move [.checkingPairing, .unpaired] .paired).1.status =
        e.status.turned (.settlePaired occasion) := by
      rw [hstatus]
      exact if_congr (List.mem_cons.trans (or_congr_right List.mem_singleton)) rfl rfl
    cases occasion with
    | handshake =>
      exact .go .paired rfl hsetup hs (congrArg Links.token hlinks)
        (congrArg Links.shortCode hlinks) rfl rfl
    | heartbeat =>
      exact .go .foundPaired rfl hsetup hs (congrArg Links.token hlinks)
        (congrArg Links.shortCode hlinks) rfl rfl
  · next occasion =>
    obtain rfl := Option.some.inj h
    obtain ⟨hsetup, hlinks, hstatus⟩ := e.move_same [.checkingPairing] .unpaired
    have hs : (e.move [.checkingPairing] .unpaired).1.status =
        e.status.turned (.settleUnpaired occasion) := by
      rw [hstatus]
      exact if_congr List.mem_singleton rfl rfl
    cases occasion with
    | handshake =>
      exact .go .unpaired rfl hsetup hs (congrArg Links.token hlinks)
        (congrArg Links.shortCode hlinks) rfl rfl
    | heartbeat =>
      exact .go .foundUnpaired rfl hsetup hs (congrArg Links.token hlinks)
        (congrArg Links.shortCode hlinks) rfl rfl
  · cases h

/-- After a heartbeat was requested the timer is set just if it is to be. -/
theorem beatRequested_behaves {again : Bool}
    (hpool : match errand? now self e a with
      | some v => p.after? v = some q
      | none => q = p)
    (horigin : again = true → Origin e p a none .setTimer) (hsetup : f.setup = e.setup)
    (hstatus : f.status = e.status.turned a)
    (htoken : f.links.token = a.tokenAfter e.links.token)
    (hcode : f.links.shortCode = a.codeAfter e.links.shortCode)
    (hquiet : notices e p a none = []) (hends : isLast e p a none = true) :
    Behaves now self e p a none (f.beatRequested q again log) := by
  unfold beatRequested
  split
  · next hagain => exact .go (horigin hagain) hpool hsetup hstatus htoken hcode rfl hquiet
  · exact .quit hpool hsetup hstatus htoken hcode (calls_noted _)
      ((notices_noted _).trans hquiet.symm) hends

/-- A timer that cannot be set is left alone, and so is one that is closed. -/
theorem enqueueTimer_behaves : Behaves now self e p .enqueueTimer none
    (if !p.timers.closed && e.isOutOfReach now then e.quit p [.log Pool.panicNote]
      else
        let r := p.delay now e.setup.settings.heartbeatMs .heartbeat (.requestBeat true)
        e.quit r.2.1 (noted r.2.2)) := by
  cases hreach : e.isOutOfReach now with
  | true =>
    have herrand : errand? now self e .enqueueTimer = none := by
      unfold errand?
      rw [hreach]
    cases hclosed : p.timers.closed with
    | true =>
      refine .quit ?_ rfl rfl rfl rfl (calls_noted _) (notices_noted _) rfl
      rw [herrand, Pool.delay_of_closed hclosed]
    | false =>
      refine .quit ?_ rfl rfl rfl rfl rfl rfl rfl
      rw [herrand]
  | false =>
    have herrand : errand? now self e .enqueueTimer =
        some (.delay now e.setup.settings.heartbeatMs .heartbeat (.requestBeat true)) := by
      unfold errand?
      rw [hreach]
    rw [Bool.and_false]
    refine .quit ?_ rfl rfl rfl rfl (calls_noted _) (notices_noted _) rfl
    rw [herrand]
    rfl

theorem timerStep_behaves (h : e.timerStep now p a = some r) :
    Behaves now self e p a none r := by
  unfold timerStep at h
  split at h
  · obtain rfl := Option.some.inj h
    split
    · apply Behaves.quit <;> rfl
    · apply Behaves.go .armed <;> rfl
  · obtain rfl := Option.some.inj h
    split
    · next log hmay => apply Behaves.go (.setTimer (congrArg Prod.fst hmay)) <;> rfl
    · exact .quit rfl rfl rfl rfl rfl (calls_noted _) (notices_noted _) rfl
  · obtain rfl := Option.some.inj h
    exact enqueueTimer_behaves
  · next again =>
    obtain rfl := Option.some.inj h
    split
    · apply beatRequested_behaves rfl (fun hagain => hagain ▸ .requestedAgain) <;> rfl
    · apply Behaves.go .requestBeat <;> rfl
  · next again =>
    obtain rfl := Option.some.inj h
    split
    · next q log hq =>
      apply beatRequested_behaves (after?_of_postTo hq)
        (fun hagain => hagain ▸ .submittedAgain) <;> rfl
    · next q log hq => apply Behaves.go .submitBeat (after?_of_postTo hq) <;> rfl
  · next again =>
    obtain rfl := Option.some.inj h
    apply beatRequested_behaves rfl (fun hagain => hagain ▸ .withdrawnAgain) <;> rfl
  · cases h

theorem beatStep_behaves (h : e.beatStep p a = some r) : Behaves now self e p a none r := by
  unfold beatStep at h
  split at h
  · obtain rfl := Option.some.inj h
    apply Behaves.go .beat <;> rfl
  · obtain rfl := Option.some.inj h
    split
    · apply Behaves.quit <;> rfl
    · next hopen => apply Behaves.go (.beatGate (mem_states_of_open hopen)) <;> rfl
  · obtain rfl := Option.some.inj h
    by_cases hs : e.status = .unpaired
    · rw [if_pos hs]
      apply Behaves.go (.beatUnpaired hs) <;> rfl
    · rw [if_neg hs]
      apply Behaves.go .beatPaired <;> rfl
  · obtain rfl := Option.some.inj h
    apply Behaves.ask .callHeartbeat <;> rfl
  · next value =>
    obtain rfl := Option.some.inj h
    have horigin (c : Prop) [Decidable c] :
        Origin e p (.applyProfiles value) none (if c then .listDownloads else .retry) := by
      split
      · exact .applied
      · exact .unchanged
    have hidle (c : Prop) [Decidable c] :
        (if c then Activity.listDownloads else .retry).awaited? = none := by split <;> rfl
    exact .go (horigin _) rfl rfl rfl rfl rfl (hidle _) rfl
  · obtain rfl := Option.some.inj h
    apply Behaves.go .listed <;> rfl
  · obtain rfl := Option.some.inj h
    apply Behaves.go .submitDownloads <;> rfl
  · obtain rfl := Option.some.inj h
    apply Behaves.go .submitDownload <;> rfl
  · obtain rfl := Option.some.inj h
    split
    · apply Behaves.go .retry <;> rfl
    · apply Behaves.quit <;> rfl
  · obtain rfl := Option.some.inj h
    apply Behaves.go .scanned <;> rfl
  · cases h

theorem recordStep_behaves (h : e.recordStep now p a = some r) :
    Behaves now self e p a none r := by
  unfold recordStep at h
  split at h
  · obtain rfl := Option.some.inj h
    split
    · apply Behaves.quit <;> rfl
    · split
      · apply Behaves.quit <;> rfl
      · apply Behaves.go .sendSnapshot <;> rfl
  · obtain rfl := Option.some.inj h
    split
    · apply Behaves.go .record <;> rfl
    · exact .quit rfl rfl rfl rfl rfl (calls_noted _) (notices_noted _) rfl
  · obtain rfl := Option.some.inj h
    split
    · next q log hq => apply Behaves.go .submitUpload (after?_of_postTo hq) <;> rfl
    · next q log hq => apply Behaves.go .refusedUpload (after?_of_postTo hq) <;> rfl
  · obtain rfl := Option.some.inj h
    split
    · next q log hq => apply Behaves.go .submitHistory (after?_of_postTo hq) <;> rfl
    · next q log hq => apply Behaves.go .refusedHistory (after?_of_postTo hq) <;> rfl
  · obtain rfl := Option.some.inj h
    apply Behaves.quit <;> rfl
  · obtain rfl := Option.some.inj h
    apply Behaves.go .withdrawUpload <;> rfl
  · obtain rfl := Option.some.inj h
    apply Behaves.go .withdrawHistory <;> rfl
  · cases h

theorem uploadStep_behaves (h : e.uploadStep p a = some r) : Behaves now self e p a none r := by
  unfold uploadStep at h
  split at h
  · obtain rfl := Option.some.inj h
    split
    · next u k hu =>
      obtain ⟨x, -, heq⟩ := Option.map_eq_some_iff.mp hu
      cases heq
      apply Behaves.go (.upload (u := ⟨_, _, _⟩)) <;> rfl
    · apply Behaves.quit <;> rfl
  · obtain rfl := Option.some.inj h
    split
    · apply Behaves.quit <;> rfl
    · next hopen => apply Behaves.go (.uploadGate (mem_states_of_open hopen)) <;> rfl
  · obtain rfl := Option.some.inj h
    apply Behaves.ask .callUpload <;> rfl
  · obtain rfl := Option.some.inj h
    split
    · apply Behaves.go .acknowledge <;> rfl
    · apply Behaves.quit <;> rfl
  · obtain rfl := Option.some.inj h
    split
    · next u hu =>
      obtain ⟨x, -, rfl⟩ := Option.map_eq_some_iff.mp hu
      apply Behaves.go (.history (u := ⟨_, _, _⟩)) <;> rfl
    · apply Behaves.quit <;> rfl
  · obtain rfl := Option.some.inj h
    split
    · apply Behaves.quit <;> rfl
    · next hopen => apply Behaves.go (.historyGate (mem_states_of_open hopen)) <;> rfl
  · obtain rfl := Option.some.inj h
    apply Behaves.ask .callHistory <;> rfl
  · obtain rfl := Option.some.inj h
    apply Behaves.quit <;> rfl
  · cases h

/-- A request is over when the host is told of it. -/
theorem ends_of_told {n : Notice} {ns : List Notice} (h : notices e p a reply = n :: ns) :
    (a.ticket?.isNone || !(notices e p a reply).isEmpty) = true := by
  rw [h, List.isEmpty_cons, Bool.not_false, Bool.or_true]

theorem requestStep_behaves (h : e.requestStep p a = some r) : Behaves now self e p a none r := by
  unfold requestStep at h
  split at h
  · next t =>
    obtain rfl := Option.some.inj h
    split
    · next q log hq =>
      have hquiet : notices e p (.request t) none = [] := if_pos (congrArg Prod.fst hq)
      exact .quit (after?_of_postTo hq) rfl rfl rfl rfl (calls_noted _)
        ((notices_noted _).trans hquiet.symm) rfl
    · next q log hq =>
      have htold : notices e p (.request t) none = [⟨t, .unknown, droppedText⟩] :=
        if_neg (Bool.eq_false_iff.mp (congrArg Prod.fst hq))
      exact .tell (after?_of_postTo hq) rfl rfl rfl rfl htold rfl
  · next t =>
    obtain rfl := Option.some.inj h
    split
    · next code hcode =>
      have htold : notices e p (.serve t) none = [⟨t, code, ""⟩] := by
        unfold notices
        dsimp only
        rw [hcode]
      exact .tell rfl rfl rfl rfl rfl htold (ends_of_told htold)
    · next hopen =>
      have hquiet : notices e p (.serve t) none = [] := by
        unfold notices
        dsimp only
        rw [hopen]
      have hmem := mem_states_of_open hopen
      by_cases hcode : t.request = .pairCode
      · rw [if_pos hcode]
        exact .go (.serveCode hmem hcode) rfl rfl rfl rfl rfl rfl hquiet
      · rw [if_neg hcode]
        exact .go (.serve hmem hcode) rfl rfl rfl rfl rfl rfl hquiet
  · next t =>
    obtain rfl := Option.some.inj h
    split
    · next code hcode =>
      have htold : notices e p (.recallCode t) none = [⟨t, .success, code⟩] := by
        unfold notices
        dsimp only
        rw [hcode]
      exact .tell rfl rfl rfl rfl rfl htold (ends_of_told htold)
    · next hnone =>
      refine .go (.recallCode hnone) rfl rfl rfl rfl rfl rfl ?_
      unfold notices
      dsimp only
      rw [hnone]
  · obtain rfl := Option.some.inj h
    apply Behaves.ask .callRequest <;> rfl
  · obtain rfl := Option.some.inj h
    apply Behaves.tell <;> rfl
  · next t body =>
    obtain rfl := Option.some.inj h
    rw [move?_eq]
    by_cases hs : e.status = .paired
    · rw [if_pos (List.mem_singleton.mpr hs)]
      exact .go (.leavePairing hs) rfl rfl (if_pos hs).symm rfl rfl rfl (if_pos hs)
    · rw [if_neg (mt List.mem_singleton.mp hs)]
      have htold : notices e p (.leavePairing t body) none = [⟨t, .success, body⟩] := if_neg hs
      exact .tell rfl rfl (if_neg hs).symm rfl rfl htold (ends_of_told htold)
  · obtain rfl := Option.some.inj h
    apply Behaves.tell <;> rfl
  · cases h

theorem reportStep_behaves (h : e.reportStep p a = some r) : Behaves now self e p a none r := by
  unfold reportStep at h
  split at h
  · obtain rfl := Option.some.inj h
    exact .quit rfl rfl rfl rfl rfl (calls_noted _) (notices_noted _) rfl
  · obtain rfl := Option.some.inj h
    split
    · apply Behaves.quit <;> rfl
    · next hopen => apply Behaves.go (.reportGate (mem_states_of_open hopen)) <;> rfl
  · obtain rfl := Option.some.inj h
    apply Behaves.ask .callInstalled <;> rfl
  · cases h

theorem directoryStep_behaves (h : e.directoryStep p a = some r) :
    Behaves now self e p a none r := by
  unfold directoryStep at h
  split at h
  · obtain rfl := Option.some.inj h
    apply Behaves.ask .download <;> rfl
  · obtain rfl := Option.some.inj h
    apply Behaves.go .storePicture <;> rfl
  · obtain rfl := Option.some.inj h
    apply Behaves.quit <;> rfl
  · next query =>
    obtain rfl := Option.some.inj h
    refine ⟨fun b hb => ?_, rfl, rfl, rfl, rfl, rfl, ?_, ?_, fun _ => rfl, fun _ _ _ => rfl⟩
    · obtain ⟨-, heq⟩ := Option.ite_none_right_eq_some.mp hb
      cases heq
      exact .consult
    · dsimp only
      rw [List.filterMap_append, calls_noted]
      split <;> rfl
    · dsimp only
      rw [List.filterMap_append, notices_noted]
      rfl
  · cases h

theorem linkStep_behaves (h : e.linkStep p a = some r) : Behaves now self e p a none r := by
  have hpair (l : Links) (s : Setup) :
      (l.pair s).2.token = l.token ∧ (l.pair s).2.shortCode = l.shortCode := by
    unfold Links.pair
    split <;> exact ⟨rfl, rfl⟩
  have hclaim (l : Links) (player : PlayerNumber) :
      (l.claim player).2.token = l.token ∧ (l.claim player).2.shortCode = l.shortCode := by
    unfold Links.claim
    split
    · exact ⟨rfl, rfl⟩
    · split <;> exact ⟨rfl, rfl⟩
  unfold linkStep at h
  split at h
  · obtain rfl := Option.some.inj h
    split
    · apply Behaves.go .pairLink <;> rfl
    · apply Behaves.quit <;> rfl
  · obtain rfl := Option.some.inj h
    exact .quit rfl rfl rfl (hpair ..).1 (hpair ..).2 rfl rfl rfl
  · obtain rfl := Option.some.inj h
    split
    · apply Behaves.go .claimLink <;> rfl
    · apply Behaves.quit <;> rfl
  · obtain rfl := Option.some.inj h
    exact .quit rfl rfl rfl (hclaim ..).1 (hclaim ..).2 rfl rfl rfl
  · cases h

/-- A caller whose call failed. -/
theorem refused_behaves {call : ServerCall} {error : CallError} {c : Resume}
    (h : e.refused p error c = some r) :
    Behaves now self e p (.waiting call c) (some (.refused error)) r := by
  cases c with
  | signed time =>
    obtain rfl := Option.some.inj h
    apply Behaves.go .unsigned <;> rfl
  | greeted =>
    obtain rfl := Option.some.inj h
    apply Behaves.go .turnedAway <;> rfl
  | pairing occasion =>
    obtain rfl := Option.some.inj h
    apply Behaves.go .notPaired <;> rfl
  | served t =>
    obtain rfl := Option.some.inj h
    apply Behaves.tell <;> rfl
  | _ =>
    obtain rfl := Option.some.inj h
    apply Behaves.quit <;> rfl

/-- A caller whose call failed in an unforeseen way. -/
theorem panic_behaves {call : ServerCall} {c : Resume}
    (h : e.resume p c .panic = some r) :
    Behaves now self e p (.waiting call c) (some .panic) r := by
  unfold resume at h
  obtain rfl := Option.some.inj h
  cases c with
  | served t => apply Behaves.tell <;> rfl
  | _ => apply Behaves.quit <;> rfl

theorem resume_behaves {call : ServerCall} {c : Resume} {answer : Reply}
    (h : e.resume p c answer = some r) :
    Behaves now self e p (.waiting call c) (some answer) r := by
  unfold resume at h
  split at h
  · next answer => exact panic_behaves h
  · exact refused_behaves h
  · obtain rfl := Option.some.inj h
    split
    · apply Behaves.ask .signed <;> rfl
    · apply Behaves.go .unsigned <;> rfl
  · next reply =>
    obtain rfl := Option.some.inj h
    apply Behaves.go .greeted <;> rfl
  · next occasion pairing =>
    obtain rfl := Option.some.inj h
    cases hpaired : pairing.paired with
    | true => apply Behaves.go (.isPaired hpaired) <;> rfl
    | false => apply Behaves.go .notPaired <;> rfl
  · obtain rfl := Option.some.inj h
    apply Behaves.quit <;> rfl
  · obtain rfl := Option.some.inj h
    apply Behaves.go .uploaded <;> rfl
  · obtain rfl := Option.some.inj h
    apply Behaves.go .historyUploaded <;> rfl
  · next reply =>
    obtain rfl := Option.some.inj h
    split
    · apply Behaves.go .profiles <;> rfl
    · apply Behaves.go .noProfiles <;> rfl
  · next t body =>
    obtain rfl := Option.some.inj h
    unfold served
    split
    · next hreq =>
      refine .go (.servedCode hreq) rfl rfl rfl rfl rfl rfl ?_
      unfold notices
      dsimp only
      rw [hreq]
    · next filter hreq =>
      have htold : notices e p (.waiting call (.served t)) (some (.text body)) =
          [⟨t, .success, body⟩] := by
        unfold notices
        dsimp only
        rw [hreq]
      exact .tell rfl rfl rfl rfl rfl htold (ends_of_told htold)
    · next hreq =>
      refine .go (.servedUnpair hreq) rfl rfl rfl rfl rfl rfl ?_
      unfold notices
      dsimp only
      rw [hreq]
  · obtain rfl := Option.some.inj h
    apply Behaves.go .downloaded <;> rfl
  · cases h

/-- **Every step does what the tables say.** -/
theorem act_behaves (h : program.act now self e p a reply = some r) :
    Behaves now self e p a reply r := by
  cases act_made h with
  | resumed h => exact resume_behaves h
  | life h => exact lifeStep_behaves h
  | handshake h => exact handshakeStep_behaves h
  | pairing h => exact pairingStep_behaves h
  | timer h => exact timerStep_behaves h
  | beat h => exact beatStep_behaves h
  | record h => exact recordStep_behaves h
  | upload h => exact uploadStep_behaves h
  | request h => exact requestStep_behaves h
  | report h => exact reportStep_behaves h
  | directory h => exact directoryStep_behaves h
  | link h => exact linkStep_behaves h

end Engine

end ArcadeUplink
