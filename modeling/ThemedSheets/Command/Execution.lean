import ThemedSheets.Command.Arguments
import ThemedSheets.Command.ScopeArgument
import ThemedSheets.Log.Sinks
import ThemedSheets.Request
import ThemedSheets.Sass.Toolchain
import ThemedSheets.Settings.File
/- The program as a function: from the words of a command line, the file tree, the engine and the
   reader of documents to what is written, the file tree afterwards, and the status. Nothing is
   written to the output or to files before the merged stylesheet is there, so a run that ends with a
   message leaves both as they were. -/
namespace ThemedSheets.Command
open ThemedSheets.Text

/-- How the program ends: with a status, or with a fault that it has no message for. -/
inductive Ending where
  | status (code : Nat)
  | fault (f : Fault)
  deriving Repr

structure Report where
  events : List Event
  disk : Disk
  ending : Ending

/-- What the program runs on. -/
structure Machine where
  host : Host
  engine : Sass.Engine
  documents : Settings.Reader
  edition : Edition
  workDirectory : String

/-! ## Before compiling -/

/-- Why the program ends early: with a message, or with a fault that it has no message for. -/
inductive Refusal where
  | message (text : String)
  | fault (f : Fault)
  deriving Repr

structure Plan where
  source : String
  text : String
  entries : Option (List ScopeEntry)
  settings : Settings

/-- A result whose faults the program has no message for. -/
def unforeseen {α : Type} (x : Except Fault α) : Except Refusal α := x.mapError .fault

/-- A result whose faults in the settings and arguments are told in their own words. -/
def toldInFull {α : Type} (x : Except Fault α) : Except Refusal α :=
  x.mapError fun f =>
    match f with
    | .settings _ | .scopeArgument _ => .message (f.message ++ "\n")
    | f => .fault f

/-- The settings as the arguments change them. -/
def adjust (host : Host) (a : Arguments) (s : Settings) : Except Fault Settings := do
  let directories ← readDirectories host.directory a.includePaths
  pure { s with
    options := { s.options with
      outputStyle := a.outputStyle.getD s.options.outputStyle
      includePaths := s.options.includePaths ++ directories
      sourceMap := a.sourceMap || s.options.sourceMap }
    verify := !a.noVerify && s.verify }

def locateSource (host : Host) (text : String) : Except FileFailure (Option Path) := do
  let path ← host.resolve (← host.expand (Path.ofString text))
  pure (if ← host.test path Entry.isFile then some path else none)

def settingsPath (a : Arguments) (source : Path) : String :=
  match a.config with
  | some path => if path = "" then source.parent.toString else path
  | none => source.parent.toString

/-- The request that arguments make. -/
def plan (m : Machine) (a : Arguments) : Except Refusal Plan := do
  match ← unforeseen (Settings.ofFile (locateSource m.host a.source)) with
  | none => throw (.message ("Source file not found: " ++ a.source ++ "\n"))
  | some source => do
    let settings ← toldInFull (Settings.load m.documents m.host (settingsPath a source))
    let scopes ← toldInFull (readScopes a.scopes)
    let entries := if scopes.isEmpty then settings.scopes else some (scopes.map .ofScope)
    let adjusted ← unforeseen (adjust m.host a settings)
    let text ← unforeseen (Settings.ofFile (m.host.readText .utf8 source))
    pure ⟨source.toString, text, entries, adjusted⟩

/-! ## Compiling -/

def workshop (m : Machine) (p : Plan) : Workshop where
  compiler := Sass.Toolchain.compile ⟨m.host, m.engine, m.workDirectory, true⟩
  files := m.host.files .utf8
  options := p.settings.options
  verify := p.settings.verify
  maxWorkers := p.settings.maxWorkers

/-- The message for a fault of compiling or merging, if the program has one. -/
def failureMessage? (f : Fault) : Option String :=
  match f, f.refusal? with
  | .mismatch m, _ => some ("scopedsass compile failed: " ++ m.message
      ++ "\nRerun with --no-verify-structure to merge anyway.\n")
  | _, some e => some ("scopedsass compile failed: " ++ e.describe ++ "\n")
  | _, none => none

/-! ## Writing -/

/-- The records and texts of a run that wrote something, and the file tree then. -/
structure Written where
  disk : Disk
  run : Run Unit

/-- A file written, and what follows if that succeeds. -/
def andThenWrite (disk : Disk) (attempt : Except FileFailure Disk) (next : Disk → Written) :
    Written :=
  match attempt with
  | .ok d => next d
  | .error e => ⟨disk, Run.fail (.file e)⟩

/-- The way to a path from the current directory if it leads down, else the path as given. -/
def shownPath (directory : String) (path : Path) : String :=
  let here := Path.ofString directory
  match here.below? (Path.resolve here path) with
  | some p => p.toString
  | none => path.toString

/-- The last line of a stylesheet that has a source map. -/
def withMapLine (css name : String) : String :=
  String.ofList (css.toList.reverse.dropWhile (· == '\n')).reverse
    ++ "\n/*# sourceMappingURL=" ++ name ++ " */\n"

/-- The source map as it is written beside the output. -/
def writtenMap (directory sourceMap : String) : Except Fault String :=
  match SourceMap.normalize (Path.ofString directory) (.str sourceMap) with
  | .ok fields => .ok (Json.object fields).render
  | .error e => .error (.sourceMap e)

def writeSheet (directory : String) (output : Path) (disk : Disk) (css : String) : Written :=
  andThenWrite disk (disk.write directory output.toString css.toUTF8) fun disk =>
    ⟨disk, Run.log .info "cli" ("Wrote " ++ shownPath directory output)⟩

/-- Writes the source map, and the stylesheet with a line that names it. -/
def writeMapped (directory : String) (output : Path) (disk : Disk) (css sourceMap : String) :
    Written :=
  if output.name = "" then ⟨disk, Run.fail (.outputName output.toString)⟩
  else match writtenMap directory sourceMap with
    | .error e => ⟨disk, Run.fail e⟩
    | .ok map =>
      let name := output.name ++ ".map"
      let place := output.parent.append ⟨0, [name]⟩
      andThenWrite disk (disk.write directory place.toString map.toUTF8) fun disk =>
        writeSheet directory output disk (withMapLine css name)

/-- Writes the result where the arguments ask for it. -/
def write (host : Host) (output : Option String) (wantsMap : Bool) (result : MergeResult) :
    Written :=
  match output.filter (· ≠ "") with
  | none =>
    ⟨host.disk, do
      if wantsMap then Run.log .warning "cli" "--source-map needs --output; skipping map"
      Run.emit (.printed result.css)⟩
  | some text =>
    let path := Path.ofString text
    andThenWrite host.disk (host.disk.makeDirectories host.directory path.parent) fun disk =>
      match wantsMap, result.sourceMap.filter (· ≠ "") with
      | true, some map => writeMapped host.directory path disk result.css map
      | _, _ => writeSheet host.directory path disk result.css

/-- The listing of what a result depends on, if it is asked for. -/
def listing (a : Arguments) (result : MergeResult) : List Event :=
  if a.listDependencies then
    (dependencyPaths result.dependencyPaths).map fun p => .noted (p ++ "\n")
  else []

/-! ## The program -/

def tell (events : List Event) (disk : Disk) (status : Nat) (message : String) : Report :=
  ⟨events ++ [.noted message], disk, .status status⟩

def execute (m : Machine) (a : Arguments) (p : Plan) : Report :=
  let compiled := (workshop m p).compileScoped p.text p.entries (some p.source)
  match compiled.outcome with
  | .error f =>
    match failureMessage? f with
    | some message => tell compiled.events m.host.disk 1 message
    | none => ⟨compiled.events, m.host.disk, .fault f⟩
  | .ok result =>
    let written := write m.host a.output p.settings.options.sourceMap result
    match written.run.outcome with
    | .error f => ⟨compiled.events ++ written.run.events, written.disk, .fault f⟩
    | .ok _ =>
      ⟨compiled.events ++ written.run.events ++ listing a result, written.disk, .status 0⟩

def compile (m : Machine) (a : Arguments) : Report :=
  match plan m a with
  | .ok p => execute m a p
  | .error (.message text) => tell [] m.host.disk 1 text
  | .error (.fault f) => ⟨[], m.host.disk, .fault f⟩

def console (a : Arguments) : Log.Sinks :=
  Log.Sinks.ofRequest "/" { verbose := a.verbose, quiet := a.quiet }

/-- What a run writes to the output. -/
def Report.output (r : Report) : String :=
  String.join (r.events.map fun e => match e with
    | .printed text => text
    | _ => "")

/-- What a run writes to the console: records that reach it, and messages. -/
def Report.console (r : Report) (sinks : Log.Sinks) : String :=
  String.join (r.events.map fun e => match e with
    | .logged record _ => sinks.shown record
    | .noted text => text
    | _ => "")

/-- What the program leaves: its report, its output and its console. -/
structure Result where
  report : Report
  output : String
  console : String

def run (m : Machine) (line : List String) : Result :=
  match Arguments.read m.edition line with
  | .ok a =>
    let report := compile m a
    ⟨report, report.output, report.console (console a)⟩
  | .error (.help page) => ⟨⟨[.printed page], m.host.disk, .status 0⟩, page, ""⟩
  | .error (.misuse program usage message) =>
    let text := usage ++ program ++ ": error: " ++ message ++ "\n"
    ⟨⟨[.noted text], m.host.disk, .status 2⟩, "", text⟩

end ThemedSheets.Command
