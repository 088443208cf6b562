import ArcadeUplink.Text.Bytes

/-!
# Log entries

A log entry is a severity and a message of at most 511 bytes. A longer message
keeps its beginning and its end, 253 bytes each at most and cut between
characters, around a marker. A record adds the place that wrote the entry.
-/

namespace ArcadeUplink.Log

/-- How severe an entry is, from least to most. -/
inductive Level where
  | debug
  | info
  | warn
  | error
deriving DecidableEq, Repr

def Level.code : Level → Nat
  | .debug => 0
  | .info => 1
  | .warn => 2
  | .error => 3

def Level.name : Level → String
  | .debug => "debug"
  | .info => "info"
  | .warn => "warn"
  | .error => "error"

/-- The level that goes by a name. -/
def Level.ofName? : String → Option Level
  | "debug" => some .debug
  | "info" => some .info
  | "warn" => some .warn
  | "error" => some .error
  | _ => none

/-- The most bytes of a message. -/
def maxBytes : Nat := 511

/-- What stands for the part that was left out. -/
def marker : List Char := [' ', '.', '.', '.', ' ']

/-- The beginning of a text, of at most `n` bytes. There is none if no boundary is found. -/
def head? (n : Nat) (cs : List Char) : Option (List Char) :=
  (Text.boundaryDown? cs (min n (Text.byteSize cs))).bind fun i => (Text.cutAt? i cs).map (·.1)

/-- The end of a text, of at most `n` bytes. There is none if no boundary is found. -/
def tail? (n : Nat) (cs : List Char) : Option (List Char) :=
  (Text.boundaryUp? cs (Text.byteSize cs - n)).bind fun i => (Text.cutAt? i cs).map (·.2)

/-- The most bytes of either kept part of an elided text of at most `n` bytes. -/
def half (n : Nat) : Nat := (n - Text.byteSize marker) / 2

/-- The beginning and the end of a text around the marker. -/
def elide (n : Nat) (cs : List Char) : List Char :=
  (head? (half n) cs).getD [] ++ marker ++ (tail? (half n) cs).getD []

/-- A text as a message: whole if it fits, else elided. -/
def fit (cs : List Char) : List Char :=
  if Text.byteSize cs ≤ maxBytes then cs else elide maxBytes cs

structure Entry where
  level : Level
  message : String
deriving DecidableEq, Repr

/-- The entry of a text of any length. -/
def Entry.of (level : Level) (text : String) : Entry := ⟨level, .ofList (fit text.toList)⟩

/-- A detail of use to a developer. -/
def Entry.debug (text : String) : Entry := .of .debug text

def Entry.info (text : String) : Entry := .of .info text

/-- Something was ignored or put off, and the work went on. -/
def Entry.warn (text : String) : Entry := .of .warn text

def Entry.error (text : String) : Entry := .of .error text

/-- The part of a path after its last separator of either kind. -/
def fileName (path : String) : String :=
  .ofList (path.toList.reverse.takeWhile fun c => c ≠ '/' ∧ c ≠ '\\').reverse

/-- An entry with the place in the program that wrote it and the time in milliseconds. -/
structure Record extends Entry where
  file : String
  line : Nat
  time : Int

/-- The record of a text of any length, written at a line of the file at `path`. -/
def Record.of (level : Level) (text path : String) (line : Nat) (time : Int) : Record :=
  { Entry.of level text with file := fileName path, line, time }

def Record.location (r : Record) : String := r.file ++ ":" ++ toString r.line

/-- A record as one line of text. -/
def Record.text (r : Record) : String :=
  "[" ++ r.level.name ++ "] " ++ r.message ++ " (" ++ r.location ++ ")"

end ArcadeUplink.Log
