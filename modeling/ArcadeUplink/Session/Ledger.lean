import ArcadeUplink.Game.History
import ArcadeUplink.Server.Message

/-!
# The ledger of games

For each game that is not done with, what was recorded of it and how much of
that the server has. Every recorded snapshot counts as a revision. A game is
delivered if the server has its latest revision, and finished if its latest
snapshot says so. At most 16 games are retained; for a seventeenth another one
is dropped, a finished one if there is one, and of these the one that was begun
first.
-/

namespace ArcadeUplink

/-- What is known of one game. -/
structure GameRecord where
  /-- The snapshot that an upload sends. -/
  latest : Snapshot := {}
  startedAt : Nat
  /-- Every recorded snapshot, the first one first. -/
  history : List Snapshot := []
  /-- How many snapshots the server has accepted. It is not bounded here; a count of 32 bits that is
  checked for overflow agrees with it up to `2 ^ 32 - 1` accepted snapshots of one game. -/
  counter : Nat := 0
  /-- How many snapshots were recorded. -/
  revision : Nat := 0
  /-- The latest revision that the server has accepted. -/
  delivered : Nat := 0
  uploadQueued : Bool := false
  historyQueued : Bool := false
deriving DecidableEq

namespace GameRecord

/-- Whether the server has the latest snapshot. -/
def isDelivered (r : GameRecord) : Bool := r.delivered = r.revision

def isFinished (r : GameRecord) : Bool := !r.latest.active

/-- The record with one more snapshot, which is to be uploaded. -/
def add (r : GameRecord) (s : Snapshot) : GameRecord :=
  { r with latest := s, history := r.history ++ [s], revision := r.revision + 1,
           uploadQueued := true }

/-- Whether a record is dropped rather than another: finished games first, then older ones. -/
def before (r s : GameRecord) : Bool :=
  if r.isFinished = s.isFinished then r.startedAt < s.startedAt else r.isFinished

/-- Whether the history is due: the game is delivered and over, and nobody is at it. -/
def historyDue (r : GameRecord) : Bool := r.isDelivered && r.isFinished && !r.historyQueued

end GameRecord

/-- The games that are not done with, by their identifiers. -/
abbrev Ledger := SortedMap String GameRecord

namespace Ledger

/-- The most games that are retained. -/
def limit : Nat := 16

/-- Of some games the first that is dropped rather than any other. -/
def foremost : List (String × GameRecord) → Option (String × GameRecord)
  | [] => none
  | e :: es =>
    match foremost es with
    | none => some e
    | some f => if f.2.before e.2 then some f else some e

/-- The game to be dropped for the sake of another, if there are too many. -/
def victim? (l : Ledger) (keep : String) : Option String :=
  if limit < l.size then
    (foremost (l.entries.filter fun e => e.1 ≠ keep)).map (·.1)
  else none

/-- The ledger without a game, if one is given. -/
def dropping (l : Ledger) : Option String → Ledger
  | some id => l.erase id
  | none => l

/-- What comes of recording a snapshot. -/
structure Recorded where
  ledger : Ledger
  /-- Whether an upload has to be submitted, as none is waiting. -/
  submit : Bool
  /-- The game that was dropped. -/
  dropped : Option String

/-- Records a snapshot of a game that may be new. -/
def record (l : Ledger) (now : Nat) (s : Snapshot) : Recorded :=
  let r := (l.get? s.session).getD { startedAt := now }
  let l := l.insert s.session (r.add s)
  let dropped := victim? l s.session
  { ledger := dropping l dropped, submit := !r.uploadQueued, dropped }

def lowerUpload (l : Ledger) (id : String) : Ledger :=
  l.modify id fun r => { r with uploadQueued := false }

def lowerHistory (l : Ledger) (id : String) : Ledger :=
  l.modify id fun r => { r with historyQueued := false }

/-- The upload of the latest snapshot of a game, with its revision. -/
def upload? (l : Ledger) (id : String) : Option (SnapshotUpload × Nat) :=
  (l.get? id).map fun r => (⟨id, r.counter, r.latest⟩, r.revision)

/-- The upload of everything that was recorded of a game. -/
def history? (l : Ledger) (id : String) : Option HistoryUpload :=
  (l.get? id).map fun r => ⟨id, id ++ ".csv", History.csv r.history⟩

/-- A record after the server has accepted one of its revisions. -/
def accepted (revision : Nat) (r : GameRecord) : GameRecord :=
  let r := { r with counter := r.counter + 1, delivered := max r.delivered revision }
  if r.historyDue then { r with historyQueued := true } else r

/-- Whether the history is due once the server has accepted a revision. -/
def dueAfter (revision : Nat) (r : GameRecord) : Bool :=
  { r with counter := r.counter + 1, delivered := max r.delivered revision }.historyDue

/-- Notes that the server has accepted a revision of a game. Tells whether its history is due. -/
def acknowledge (l : Ledger) (id : String) (revision : Nat) : Bool × Ledger :=
  (((l.get? id).map (dueAfter revision)).getD false, l.modify id (accepted revision))

/-- Whether a snapshot is to be uploaded once more. -/
def needsUpload (r : GameRecord) : Bool := !r.isDelivered && !r.uploadQueued

/-- A record after everything that was missing has been queued. -/
def requeued (r : GameRecord) : GameRecord :=
  if needsUpload r then { r with uploadQueued := true }
  else if r.historyDue then { r with historyQueued := true }
  else r

/-- The games of which a snapshot or the history is to be sent once more, which are queued from
now on. -/
def retry (l : Ledger) : List String × List String × Ledger :=
  ((l.entries.filter fun e => needsUpload e.2).map (·.1),
   (l.entries.filter fun e => e.2.historyDue).map (·.1),
   l.mapValues fun _ r => requeued r)

end Ledger

end ArcadeUplink
