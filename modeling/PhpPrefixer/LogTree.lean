import PhpPrefixer.Journal

/-!
# The tree of logs

Logs have dotted names and form a tree: `a.b` is below `a`, and all are below the root, which has the
empty name. A log may have a level and handlers of its own. A message that reaches the level in force
at its log goes to the handlers of the log and of those above it, up to one that does not pass
messages on.
-/

namespace PhpPrefixer

/-- Where a handler writes. -/
inductive Sink where
  /-- To the console. -/
  | console
  /-- To the file of the log that has the handler. -/
  | file
  deriving DecidableEq, Repr

/-- What writes messages down. -/
structure Handler where
  /-- Where it writes. -/
  sink : Sink
  /-- The least level it writes. -/
  level : Level
  deriving DecidableEq, Repr

/-- One log. -/
structure Log where
  /-- Its own level. -/
  level : Option Level := none
  /-- Whether messages go on to the logs above. -/
  propagates : Bool := true
  /-- Its handlers, the oldest first. -/
  handlers : List Handler := []
  deriving DecidableEq, Repr

/-- A message in a file. -/
structure LogLine where
  /-- The log it was made in. -/
  log : Text
  /-- Its level. -/
  level : Level
  /-- What it says. -/
  message : Text
  deriving DecidableEq, Repr

/-- All logs, and the files they write to. -/
structure LogTree where
  /-- The logs that were changed, by name. -/
  logs : List (Text × Log)
  /-- The files, by the name of the log they belong to. -/
  files : List (Text × List LogLine)
  deriving DecidableEq, Repr

/-- A level that is not known. -/
structure UnknownLevel where
  /-- What was given. -/
  given : Text
  deriving DecidableEq, Repr

/-- The wording of an unknown level. -/
def UnknownLevel.message (e : UnknownLevel) : String :=
  "Invalid log level: " ++ String.ofList e.given ++ ". Must be one of " ++ Level.namesListed

namespace LogTree

/-- The name of the root as it is shown. -/
def rootName : Text := "root".toList

/-- The name under which a log is kept; the root may also be called by its shown name. -/
def keptName (name : Text) : Text := if name = rootName then [] else name

/-- The name under which a log is shown. -/
def shownName (name : Text) : Text := if keptName name = [] then rootName else name

/-- The tree before anything is changed. -/
def start : LogTree := ⟨[([], { level := some .warning })], []⟩

/-- The log with a name. -/
def log (t : LogTree) (name : Text) : Log :=
  match t.logs.find? fun entry => entry.1 = keptName name with
  | some entry => entry.2
  | none => {}

/-- The tree with a log changed. -/
def change (t : LogTree) (name : Text) (f : Log → Log) : LogTree :=
  let kept := keptName name
  { t with logs := t.logs.filter (fun entry => entry.1 ≠ kept) ++ [(kept, f (t.log name))] }

/-- The names of the logs below the root and above one whose name has these segments in front of the
last, the nearest first. -/
def above : List Text → List Text
  | [] => []
  | segment :: segments =>
    let here := Text.glue '.' (segment :: segments).reverse
    if here = [] then [] else here :: above segments

/-- The name of a log and of those above it, up to the root. -/
def ancestry (name : Text) : List Text :=
  let kept := keptName name
  if kept = [] then [[]] else kept :: above ((Text.pieces '.' kept).reverse.drop 1) ++ [[]]

/-- The level in force at a log: the nearest one set going up. -/
def effectiveLevel? (t : LogTree) (name : Text) : Option Level :=
  (ancestry name).findSome? fun n => (t.log n).level

/-- The logs a message made at a log reaches, given the names going up. -/
def reachedFrom (t : LogTree) : List Text → List Text
  | [] => []
  | n :: ns => if (t.log n).propagates then n :: reachedFrom t ns else [n]

/-- The logs a message made at a log reaches. -/
def reached (t : LogTree) (name : Text) : List Text := t.reachedFrom (ancestry name)

/-- Whether a message made at a log reaches a handler. -/
def isHandled (t : LogTree) (name : Text) : Bool :=
  (t.reached name).any fun n => !(t.log n).handlers.isEmpty

/-- The level with a name. -/
def level (given : Text) : Except UnknownLevel Level :=
  match Level.ofText? given with
  | some level => .ok level
  | none => .error ⟨given⟩

/-- The tree with the level of a log set. -/
def setLevel (t : LogTree) (name : Text) (level : Level) : LogTree :=
  t.change name fun l => { l with level := some level }

/-- The tree with a handler added to a log. A file comes into being with its first handler. -/
def addHandler (t : LogTree) (name : Text) (h : Handler) : LogTree :=
  let t' := t.change name fun l => { l with handlers := l.handlers ++ [h] }
  let kept := keptName name
  if h.sink = .file && !t.files.any (fun entry => entry.1 = kept) then
    { t' with files := t'.files ++ [(kept, [])] }
  else t'

/-- Whether a log has a handler of a kind. -/
def hasSink (t : LogTree) (name : Text) (sink : Sink) : Bool :=
  (t.log name).handlers.any fun h => h.sink = sink

/-- The tree with a log set up: its level is set, and it has a console handler, and a file handler if
one is asked for. -/
def setUp (t : LogTree) (name : Text) (level : Level) (withFile : Bool) : LogTree :=
  let t := t.setLevel name level
  let t := if t.hasSink name .console then t else t.addHandler name ⟨.console, level⟩
  if withFile && !t.hasSink name .file then t.addHandler name ⟨.file, .debug⟩ else t

/-- The tree after a log was asked for: it is set up unless some handler at it or above it exists. -/
def obtain (t : LogTree) (name : Text) : LogTree :=
  if t.isHandled name || (ancestry name).any fun n => !(t.log n).handlers.isEmpty then t
  else t.setUp name .info false

/-- The tree with the passing on of messages switched. -/
def setPropagates (t : LogTree) (name : Text) (propagates : Bool) : LogTree :=
  t.change name fun l => { l with propagates }

/-- The handlers that write a message made at a log, with the logs that have them. -/
def writing (t : LogTree) (name : Text) (level : Level) : List (Text × Handler) :=
  let enabled : Bool :=
    match t.effectiveLevel? name with
    | some least => least.rank ≤ level.rank
    | none => true
  if enabled then
    (t.reached name).flatMap fun n =>
      ((t.log n).handlers.filter fun h => h.level.rank ≤ level.rank).map fun h => (n, h)
  else []

/-- The tree with a line at the end of a file. -/
def writeLine (t : LogTree) (name : Text) (line : LogLine) : LogTree :=
  { t with files := t.files.map fun entry =>
      if entry.1 = name then (entry.1, entry.2 ++ [line]) else entry }

/-- Making a message at a log: the lines on the console, and the tree afterwards. -/
def send (t : LogTree) (name : Text) (level : Level) (message : Text) : List Text × LogTree :=
  let writers := t.writing name level
  let printed := level.name.toList ++ ':' :: ' ' :: message
  let lines := (writers.filter fun w => w.2.sink = .console).flatMap fun _ =>
    Text.pieces '\n' printed
  let line : LogLine := ⟨shownName name, level, message⟩
  (lines, (writers.filter fun w => w.2.sink = .file).foldl (fun t w => t.writeLine w.1 line) t)

/-- The lines of the file of a log, if there is one. -/
def file? (t : LogTree) (name : Text) : Option (List LogLine) :=
  (t.files.find? fun entry => entry.1 = keptName name).map (·.2)

end LogTree

end PhpPrefixer
