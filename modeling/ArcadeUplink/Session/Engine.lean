import ArcadeUplink.Pool.Machine
import ArcadeUplink.Session.Activity
import ArcadeUplink.Session.Ledger
import ArcadeUplink.Session.Links
import ArcadeUplink.Session.Status

/-!
# The engine

What the engine knows, and what each activity does with it in one step. The
engine is a program on a pool of workers: host calls submit tasks to lanes, the
tasks call the server, and replies come from outside. Authentication, reports,
requests and downloads run in the main lane, uploads in a lane of their own, and
so do heartbeats.

A step is one look at the shared state, or one change of it. So whatever can
happen between two such steps can happen between two steps here.
-/

namespace ArcadeUplink

open Pool (Lane)

structure Engine where
  setup : Setup
  status : Status := .notAuthenticated
  links : Links := {}
  ledger : Ledger := ∅
  directory : Directory := {}
  /-- Whether a heartbeat is waiting. -/
  beatQueued : Bool := false
  /-- Whether the timer for heartbeats was ever set. -/
  beatArmed : Bool := false

namespace Engine

/-- What a step of the engine does. -/
abbrev Result := Effect Engine Activity EngineEvent

/-- The pool that the engine runs on. -/
abbrev Workers := Pool Activity

/-- Log entries as events. -/
def noted (log : List Log.Entry) : List EngineEvent := log.map .log

/-- The activity goes on. -/
def go (e : Engine) (p : Workers) (rest : Activity) (log : List Log.Entry) : Result :=
  ⟨e, p, some rest, noted log⟩

/-- The activity is over. -/
def quit (e : Engine) (p : Workers) (events : List EngineEvent) : Result := ⟨e, p, none, events⟩

/-- A call is made, and its reply waited for. -/
def ask (e : Engine) (p : Workers) (call : ServerCall) (resume : Resume) : Result :=
  ⟨e, p, some (.waiting call resume), [.called call]⟩

/-- The note that the status has changed. -/
def statusNote (old new : Status) : Log.Entry :=
  .info ("Status changed: " ++ old.text ++ " -> " ++ new.text)

/-- Changes the status if it is one of some; gives what is logged of it. -/
def move? (e : Engine) (sources : List Status) (target : Status) :
    Option (Engine × List Log.Entry) :=
  if e.status ∈ sources then some ({ e with status := target }, [statusNote e.status target])
  else none

/-- Changes the status if it is one of some, or else leaves it. -/
def move (e : Engine) (sources : List Status) (target : Status) : Engine × List Log.Entry :=
  (e.move? sources target).getD (e, [])

def endpoint (e : Engine) : Endpoint := ⟨e.setup.baseUrl, e.links.token⟩

/-- The time in whole seconds, as it is signed. -/
def timestamp (now : Nat) : String := Decimal.natText (now / 1000)

/-- The request for a handshake. -/
def authRequest (e : Engine) (timestamp signature : String) : AuthRequest :=
  let d := e.setup.device
  { uuid := e.setup.signedUuid, timestamp, signature
    provider := d.provider, machineId := d.machineId, serialNumber := d.serialNumber
    gameCodeVersion := d.gameCodeVersion, scoreFeatures := d.scoreFeatures
    scoreFeaturesVersion := if d.scoreFeatures = [] then none else some d.scoreFeaturesVersion }

/-- What a host is told whose request was not carried out. -/
def droppedText : String := "Request dropped before completion"

/-- What is logged of a task when it is over, if it failed in an unforeseen way. -/
def failureNotes (failing : Bool) : List Log.Entry := if failing then [Pool.panicNote] else []

/-- The host is told of a request by its callback, which may go on to shut the engine down; the task is
over after that. -/
def tell (e : Engine) (p : Workers) (failing : Bool) (log : List Log.Entry) (t : Ticket)
    (code : ResultCode) (text : String) : Result :=
  ⟨e, p, if t.stops then some (.shutDown failing) else none,
    noted log ++ .callback t code text :: noted (failureNotes (failing && !t.stops))⟩

/-- The host is told that its request was not carried out. -/
def drop (e : Engine) (p : Workers) (failing : Bool) (log : List Log.Entry) (t : Ticket) : Result :=
  e.tell p failing log t .unknown droppedText

/-- With what the user of the pairing goes on. -/
def after : Occasion → Activity
  | .handshake => .armTimer
  | .heartbeat => .callHeartbeat

/-- The reason why a handshake fails without a signature. -/
def noSignature : String := "signer returned no signature"

def startNote (s : Setup) : Log.Entry :=
  .info ("Network engine for " ++ s.device.provider ++ " (" ++ s.uuid.text ++ ") talking to " ++
    s.baseUrl)

def lifeStep (self : Option Nat) (e : Engine) (p : Workers) : Activity → Option Result
  | .startUp => p.beginStart.map fun q =>
    -- a start of a running pool is over at once
    if q.control = .free then e.quit q (noted [startNote e.setup]) else e.go q .starting []
  | .starting =>
    match p.advanceControl self with
    | some (q, log) => some (e.quit q (noted (log ++ [startNote e.setup])))
    | none => none
  | .shutDown failing => p.beginStop.map fun q => e.go q (.stopping failing) []
  | .stopping failing =>
    (p.advanceControl self).map fun r =>
      if r.1.control = .free then e.quit r.1 (noted (r.2 ++ failureNotes failing))
      else e.go r.1 (.stopping failing) r.2
  | _ => none

def handshakeStep (now : Nat) (e : Engine) (p : Workers) : Activity → Option Result
  | .authenticate =>
    some (match e.move? [.notAuthenticated] .authenticating with
      | some (e, log) => e.go p .submitHandshake log
      | none => e.quit p [.log (.debug "Authentication already started")])
  | .submitHandshake =>
    some (match p.postTo .main .handshake with
      | (true, p, log) => e.quit p (noted log)
      | (false, p, log) => e.go p (.failHandshake "scheduler is stopped") log)
  | .failHandshake reason =>
    let (f, log) := e.move [.authenticating] .failed
    some (f.quit p (noted (.error ("Authentication failed: " ++ reason) :: log)))
  | .handshake =>
    some (match Signature.request? e.setup.settings.key e.setup.signedUuid (timestamp now) with
      | some r => e.ask p (.sign r) (.signed (timestamp now))
      | none => e.go p (.failHandshake noSignature) [])
  | .storeToken token =>
    some ({ e with links := { e.links with token } }.go p .enterChecking [])
  | .enterChecking =>
    let (f, log) := e.move [.authenticating] .checkingPairing
    some (f.go p (.askPairing .handshake) log)
  | _ => none

def pairingStep (e : Engine) (p : Workers) : Activity → Option Result
  | .askPairing occasion => some (e.ask p (.pairingStatus e.endpoint) (.pairing occasion))
  | .recordPairing pairing occasion =>
    some ({ e with links := e.links.recordPairing pairing }.go p (.settlePaired occasion) [])
  | .settlePaired occasion =>
    let (f, log) := e.move [.checkingPairing, .unpaired] .paired
    some (f.go p (after occasion) log)
  | .settleUnpaired occasion =>
    let (f, log) := e.move [.checkingPairing] .unpaired
    some (f.go p (after occasion) log)
  | _ => none

/-- After a heartbeat was requested the timer is set, or nothing. -/
def beatRequested (e : Engine) (p : Workers) (again : Bool) (log : List Log.Entry) : Result :=
  if again then e.go p .setTimer log else e.quit p (noted log)

/-- Whether no deadline can be reckoned for the next heartbeat. -/
def isOutOfReach (e : Engine) (now : Nat) : Bool :=
  Pool.TimerQueue.lastDeadline < now + e.setup.settings.heartbeatMs

/-- Steps of the timer for heartbeats, and of requesting one. -/
def timerStep (now : Nat) (e : Engine) (p : Workers) : Activity → Option Result
  | .armTimer =>
    some (if e.beatArmed then e.quit p [] else { e with beatArmed := true }.go p .setTimer [])
  | .setTimer =>
    some (match p.mayDelay .heartbeat with
      | (true, log) => e.go p .enqueueTimer log
      | (false, log) => e.quit p (noted log))
  | .enqueueTimer =>
    -- timers that are open are asked for a deadline, and that may fail
    some (if !p.timers.closed && e.isOutOfReach now then e.quit p [.log Pool.panicNote]
      else
        let r := p.delay now e.setup.settings.heartbeatMs .heartbeat (.requestBeat true)
        e.quit r.2.1 (noted r.2.2))
  | .requestBeat again =>
    some (if e.beatQueued then e.beatRequested p again []
      else { e with beatQueued := true }.go p (.submitBeat again) [])
  | .submitBeat again =>
    some (match p.postTo .heartbeat .beat with
      | (true, p, log) => e.beatRequested p again log
      | (false, p, log) => e.go p (.withdrawBeat again) log)
  | .withdrawBeat again => some ({ e with beatQueued := false }.beatRequested p again [])
  | _ => none

def beatStep (e : Engine) (p : Workers) : Activity → Option Result
  | .beat => some ({ e with beatQueued := false }.go p .beatGate [])
  | .beatGate =>
    some (match Gate.settled.refusal? e.status with
      | some code => e.quit p [.log (.debug ("Heartbeat skipped: " ++ code.name))]
      | none => e.go p .beatPairing [])
  | .beatPairing =>
    some (e.go p (if e.status = .unpaired then .askPairing .heartbeat else .callHeartbeat) [])
  | .callHeartbeat => some (e.ask p (.heartbeat e.endpoint) .beaten)
  | .applyProfiles value =>
    let (changed, directory, log) := e.directory.setProfiles value
    some ({ e with directory }.go p
      (if changed && e.setup.device.autoDownload then .listDownloads else .retry) log)
  | .listDownloads => some (e.go p (.submitDownloads e.directory.missingPictures) [])
  | .submitDownloads [] => some (e.go p .retry [])
  | .submitDownloads ((player, url) :: rest) =>
    let r := p.postTo .main (.download player url)
    some (e.go r.2.1 (.submitDownloads rest) r.2.2)
  | .retry => some (if e.status = .paired then e.go p .scanLedger [] else e.quit p [])
  | .scanLedger =>
    let (uploads, histories, ledger) := Ledger.retry e.ledger
    let log := if uploads = [] ∧ histories = [] then [] else
      [Log.Entry.debug ("Retrying " ++ Decimal.natText uploads.length ++ " upload(s) and " ++
        Decimal.natText histories.length ++ " history upload(s)")]
    some ({ e with ledger }.go p (.submit uploads histories) log)
  | _ => none

/-- The warning that a game was dropped. -/
def dropWarning (id : String) : Log.Entry :=
  .warn ("Too many pending sessions, dropping session " ++ id)

/-- Steps of recording snapshots and of submitting uploads. -/
def recordStep (now : Nat) (e : Engine) (p : Workers) : Activity → Option Result
  | .sendSnapshot s =>
    some (if s.session = "" then e.quit p [.log (.warn "Game data without session ignored")]
      else if e.status = .failed then
        e.quit p [.log (.warn ("Game data of session " ++ s.session ++ " not recorded: " ++
          ResultCode.authFailed.name))]
      else e.go p (.record s) [])
  | .record s =>
    let r := Ledger.record e.ledger now s
    let log := r.dropped.toList.map dropWarning
    let f := { e with ledger := r.ledger }
    some (if r.submit then f.go p (.submit [s.session] []) log else f.quit p (noted log))
  | .submit (id :: uploads) histories =>
    some (match p.postTo .gameData (.upload id) with
      | (true, p, log) => e.go p (.submit uploads histories) log
      | (false, p, log) => e.go p (.withdrawUpload id uploads histories) log)
  | .submit [] (id :: histories) =>
    some (match p.postTo .gameData (.history id) with
      | (true, p, log) => e.go p (.submit [] histories) log
      | (false, p, log) => e.go p (.withdrawHistory id histories) log)
  | .submit [] [] => some (e.quit p [])
  | .withdrawUpload id uploads histories =>
    some ({ e with ledger := Ledger.lowerUpload e.ledger id }.go p (.submit uploads histories) [])
  | .withdrawHistory id histories =>
    some ({ e with ledger := Ledger.lowerHistory e.ledger id }.go p (.submit [] histories) [])
  | _ => none

def uploadStep (e : Engine) (p : Workers) : Activity → Option Result
  | .upload id =>
    some (match Ledger.upload? e.ledger id with
      | some (u, revision) =>
        { e with ledger := Ledger.lowerUpload e.ledger id }.go p (.uploadGate u revision) []
      | none => e.quit p [])
  | .uploadGate u revision =>
    some (match Gate.paired.refusal? e.status with
      | some code => e.quit p [.log (.debug ("Game data of session " ++ u.session ++
          " kept for later: " ++ code.name))]
      | none => e.go p (.callUpload u revision) [])
  | .callUpload u revision => some (e.ask p (.gameData e.endpoint u) (.uploaded u.session revision))
  | .acknowledge id revision =>
    let (due, ledger) := Ledger.acknowledge e.ledger id revision
    let f := { e with ledger }
    some (if due then f.go p (.history id) [] else f.quit p [])
  | .history id =>
    some (match Ledger.history? e.ledger id with
      | some u => { e with ledger := Ledger.lowerHistory e.ledger id }.go p (.historyGate u) []
      | none => e.quit p [])
  | .historyGate u =>
    some (match Gate.paired.refusal? e.status with
      | some code => e.quit p [.log (.debug ("History of session " ++ u.session ++
          " kept for later: " ++ code.name))]
      | none => e.go p (.callHistory u) [])
  | .callHistory u => some (e.ask p (.uploadHistory e.endpoint u) (.historyUploaded u.session))
  | .close id =>
    some ({ e with ledger := e.ledger.erase id }.quit p
      [.log (.info ("Session " ++ id ++ " uploaded and closed"))])
  | _ => none

/-- What a request needs. -/
def gateOf : Request → Gate
  | .pairCode => .authenticated
  | .topScores _ => .paired
  | .unpair => .paired

/-- The call that a request leads to. -/
def callOf (e : Engine) : Request → ServerCall
  | .pairCode => .pairCode e.endpoint
  | .topScores filter => .topScores e.endpoint filter
  | .unpair => .unpair e.endpoint

def requestStep (e : Engine) (p : Workers) : Activity → Option Result
  | .request t =>
    some (match p.postTo .main (.serve t) with
      | (true, p, log) => e.quit p (noted log)
      | (false, p, log) => e.drop p false log t)
  | .serve t =>
    some (match (gateOf t.request).refusal? e.status with
      | some code =>
        e.tell p false [.warn ("Request " ++ t.request.name ++ " refused: " ++ code.name)] t code ""
      | none => e.go p (if t.request = .pairCode then .recallCode t else .callRequest t) [])
  | .recallCode t =>
    some (match e.links.shortCode with
      | some code => e.tell p false [] t .success code
      | none => e.go p (.callRequest t) [])
  | .callRequest t => some (e.ask p (e.callOf t.request) (.served t))
  | .keepCode t code =>
    some ({ e with links := { e.links with shortCode := some code } }.tell p false [] t .success
      code)
  | .leavePairing t body =>
    some (match e.move? [.paired] .unpaired with
      | some (e, log) => e.go p (.forgetPairing t body) log
      | none => e.tell p false [] t .success body)
  | .forgetPairing t body =>
    some ({ e with links := e.links.forget }.tell p false [] t .success body)
  | _ => none

def reportStep (e : Engine) (p : Workers) : Activity → Option Result
  | .report r =>
    let posted := p.postTo .main (.reportGate r)
    some (e.quit posted.2.1 (noted posted.2.2))
  | .reportGate r =>
    some (match Gate.settled.refusal? e.status with
      | some code => e.quit p [.log (.warn ("Installed report for " ++ r.kind ++ " not sent: " ++
          code.name))]
      | none => e.go p (.callInstalled r) [])
  | .callInstalled r => some (e.ask p (.installed e.endpoint r) (.reported r.kind))
  | _ => none

def directoryStep (e : Engine) (p : Workers) : Activity → Option Result
  | .download player url => some (e.ask p (.download url) (.downloaded player))
  | .storePicture player picture =>
    some ({ e with directory := e.directory.storePicture player picture }.go p .announcePicture [])
  | .announcePicture => some ({ e with directory := e.directory.announce }.quit p [])
  | .consult q =>
    let (answer, directory, log, news) := e.directory.ask q
    some ⟨{ e with directory }, p, if news then some .announcePicture else none,
      noted log ++ [.answered answer]⟩
  | _ => none

def linkStep (e : Engine) (p : Workers) : Activity → Option Result
  | .pairLink => some (if e.status = .paired then e.go p .readPairLink [] else e.quit p [.link ""])
  | .readPairLink =>
    let (link, links) := e.links.pair e.setup
    some ({ e with links }.quit p [.link link])
  | .claimLink player =>
    some (if e.status = .paired then e.go p (.readClaimLink player) [] else e.quit p [.link ""])
  | .readClaimLink player =>
    let (link, links) := e.links.claim player
    some ({ e with links }.quit p [.link link])
  | _ => none

/-- One step of an activity that needs no reply. -/
def step (now : Nat) (self : Option Nat) (e : Engine) (p : Workers) (a : Activity) :
    Option Result :=
  (e.lifeStep self p a).or <| (e.handshakeStep now p a).or <| (e.pairingStep p a).or <|
    (e.timerStep now p a).or <| (e.beatStep p a).or <| (e.recordStep now p a).or <|
      (e.uploadStep p a).or <| (e.requestStep p a).or <| (e.reportStep p a).or <|
        (e.directoryStep p a).or (e.linkStep p a)

/-- A warning that something failed. -/
def failure (what : String) (error : CallError) : Log.Entry :=
  .warn (what ++ " failed: " ++ error.message)

/-- How a caller goes on whose call failed. -/
def refused (e : Engine) (p : Workers) (error : CallError) : Resume → Option Result
  | .signed _ => some (e.go p (.failHandshake noSignature) [])
  | .greeted => some (e.go p (.failHandshake error.message) [])
  | .pairing occasion => some (e.go p (.settleUnpaired occasion) [failure "Pairing check" error])
  | .reported kind => some (e.quit p [.log (failure ("Installed report for " ++ kind) error)])
  | .uploaded id _ => some (e.quit p [.log (failure ("Game data upload of session " ++ id) error)])
  | .historyUploaded id =>
    some (e.quit p [.log (failure ("History upload of session " ++ id) error)])
  | .beaten => some (e.quit p [.log (failure "Heartbeat" error)])
  | .served t =>
    some (e.tell p false [failure ("Request " ++ t.request.name) error] t error.code error.message)
  | .downloaded player =>
    some (e.quit p [.log (.warn ("Failed to download picture of player " ++ player.text ++ ": " ++
      error.message))])

/-- A task fails in an unforeseen way. The host is told of a request all the same. -/
def fail (e : Engine) (p : Workers) : Resume → Result
  | .served t => e.drop p true [] t
  | _ => e.quit p [.log Pool.panicNote]

/-- How a request goes on that the server has answered. -/
def served (e : Engine) (p : Workers) (t : Ticket) (body : String) : Result :=
  match t.request with
  | .pairCode => e.go p (.keepCode t body) []
  | .topScores _ => e.tell p false [] t .success body
  | .unpair => e.go p (.leavePairing t body) []

/-- How a caller goes on when a reply comes; nothing happens if it is no reply to his call. -/
def resume (e : Engine) (p : Workers) : Resume → Reply → Option Result
  | r, .panic => some (e.fail p r)
  | r, .refused error => e.refused p error r
  | .signed timestamp, .signature bytes =>
    some (match bytes.bind Signature.written? with
      | some signature =>
        e.ask p (.authenticate ⟨e.setup.baseUrl, ""⟩ (e.authRequest timestamp signature)) .greeted
      | none => e.go p (.failHandshake noSignature) [])
  | .greeted, .authenticated reply => some (e.go p (.storeToken reply.token) [])
  | .pairing occasion, .pairing pairing =>
    some (e.go p
      (if pairing.paired then .recordPairing pairing occasion else .settleUnpaired occasion) [])
  | .reported kind, .accepted =>
    some (e.quit p [.log (.debug ("Installed report for " ++ kind ++ " sent"))])
  | .uploaded id revision, .accepted => some (e.go p (.acknowledge id revision) [])
  | .historyUploaded id, .accepted => some (e.go p (.close id) [])
  | .beaten, .beaten reply =>
    some (e.go p (match reply.players with
      | some value => .applyProfiles value
      | none => .retry) [])
  | .served t, .text body => some (e.served p t body)
  | .downloaded player, .bytes content => some (e.go p (.storePicture player content) [])
  | _, _ => none

def program : Program Engine Activity Reply EngineEvent where
  log := .log
  act now self e p a reply :=
    match a, reply with
    | .waiting _ r, some reply => e.resume p r reply
    | .waiting .., none => none
    | a, none => e.step now self p a
    | _, some _ => none

abbrev System := Machine Engine Activity

/-- A set-up engine that has not been started, at a time. -/
def system (s : Setup) (now : Nat) : System :=
  { world := { setup := s }, pool := .ofSize s.settings.workers, now }

def describe (e : Engine) (p : Workers) : String :=
  Text.labelledPart "SessionNet"
    [("machine_uuid", Text.literal e.setup.uuid.text), ("base_url", Text.literal e.setup.baseUrl),
     ("status", e.status.name), ("scheduler", p.describe)]

end Engine

end ArcadeUplink
