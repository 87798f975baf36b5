import ThemedSheets.Disk
import ThemedSheets.Log.Record
/- Where log records go. A configuration replaces the one before it as a whole: records go to the
   console from its level on, and to its log file, if it has one, from the lowest level on. A record
   reaches a sink if it reaches the level of the family and the sink's own. A record of a channel that
   does not come under the family reaches no sink; the console shows it bare. -/
namespace ThemedSheets.Log

/-- What a configuration asks for. To be verbose wins over being quiet. -/
structure Request where
  verbose : Bool := false
  quiet : Bool := false
  file : Option String := none
  deriving DecidableEq, Repr

def Request.consoleLevel (r : Request) : Level :=
  if r.verbose then .debug else if r.quiet then .warning else .info

/-- The sinks of a configuration, and the level of the family before them. -/
structure Sinks where
  least : Level
  console : Level
  file : Option String
  deriving DecidableEq, Repr

namespace Sinks

def fileLevel : Level := .debug

/-- The sinks that a request asks for; a log file is named from the current directory. -/
def ofRequest (directory : String) (r : Request) : Sinks where
  least := if r.file.isSome then fileLevel else r.consoleLevel
  console := r.consoleLevel
  file := r.file.map (Path.absolute directory)

/-- The file tree with the log file there, which begins empty unless it has been written before. -/
def openFile (s : Sinks) (disk : Disk) : Except FileFailure Disk :=
  match s.file with
  | none => .ok disk
  | some path => disk.append "/" path ByteArray.empty

def shown (s : Sinks) (r : Record) : String :=
  if r.level.reaches s.least && r.level.reaches s.console then r.consoleLine else ""

def kept (s : Sinks) (r : Record) : String :=
  if s.file.isSome && r.level.reaches s.least && r.level.reaches fileLevel then r.fileLine else ""

/-- The file tree after a record. -/
def write (s : Sinks) (disk : Disk) (r : Record) : Except FileFailure Disk :=
  match s.file with
  | none => .ok disk
  | some path => disk.append "/" path (s.kept r).toUTF8

end Sinks

/-! ## A sequence of configurations and records -/

inductive Step where
  | configure (request : Request)
  | record (r : Record)

/-- The sinks at work, if any are, the file tree, and the channels in use. -/
structure State where
  sinks : Option Sinks
  disk : Disk
  channels : List String

namespace State

def start (disk : Disk) : State := ⟨none, disk, []⟩

/-- What a step shows on the console, and what it leaves. -/
def step (directory : String) (s : State) : Step → Except FileFailure (String × State)
  | .configure request =>
    let sinks := Sinks.ofRequest directory request
    (sinks.openFile s.disk).map fun disk => ("", { s with sinks := some sinks, disk })
  | .record r =>
    let s := { s with channels := r.channel :: s.channels }
    match s.sinks, isUnderFamily s.channels r.channel with
    | some sinks, true => (sinks.write s.disk r).map fun disk => (sinks.shown r, { s with disk })
    | _, _ => .ok (r.bareLine, s)

/-- What steps one after another show on the console, and what they leave. -/
def run (directory : String) (s : State) : List Step → Except FileFailure (String × State)
  | [] => .ok ("", s)
  | first :: rest => do
    let (text, s) ← s.step directory first
    let (more, s) ← run directory s rest
    pure (text ++ more, s)

end State

end ThemedSheets.Log
