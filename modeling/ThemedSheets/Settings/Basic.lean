import ThemedSheets.Host
import ThemedSheets.Fault
import ThemedSheets.Scope.Validation
import ThemedSheets.Settings.Scalar
/- The settings of a project, as its settings document gives them. Paths are taken from the
   directory of the settings file. Scopes keep the values that the document has for them, so that
   validation and not reading decides which of them take part. Of several faults the first one in
   the order scopes, compiler, merging, workers is told. -/
namespace ThemedSheets
open ThemedSheets.Yaml

/-- The settings of a project. -/
structure Settings where
  root : Path
  scopes : Option (List ScopeEntry) := none
  options : CompileOptions := {}
  verify : Bool := true
  maxWorkers : Option Int := none
  deriving Repr

namespace Settings

def optionsFor (s : Settings) (sourcePath : Option String) : CompileOptions :=
  s.options.withSource sourcePath

/-! ## Paths -/

/-- A path of the settings, taken from their root. -/
def placePath (host : Host) (root : Path) (text : String) : Except Fault String :=
  match host.expand (Path.ofString text) with
  | .ok p => .ok (root.append p).toString
  | .error e => .error (.file e)

/-- A value of the settings that may be a path: a text that is not empty is taken from the root,
all else stays as it is. -/
def placeValue (host : Host) (root : Path) (v : Value) : Except Fault Value :=
  match v.shape with
  | .str s => if s = "" then .ok v else (placePath host root s).map .ofText
  | _ => .ok v

def placeValues (host : Host) (root : Path) : List Value → Except Fault (List Value)
  | [] => .ok []
  | v :: vs => do
    let v ← placeValue host root v
    let vs ← placeValues host root vs
    pure (v :: vs)

/-- Paths of the settings, taken from their root. -/
def placePaths (host : Host) (root : Path) : List String → Except Fault (List String)
  | [] => .ok []
  | p :: ps => do
    let p ← placePath host root p
    let ps ← placePaths host root ps
    pure (p :: ps)

/-! ## Sections -/

def placeRequested (host : Host) (root : Path) : RequestedPath → Except Fault RequestedPath
  | .one v => (placeValue host root v).map .one
  | .many items => (placeValues host root items).map .many

/-- One scope. What is no mapping becomes a scope without name and path, for validation to tell. -/
def readScope (host : Host) (root : Path) (v : Value) : Except Fault ScopeEntry :=
  let entry := ScopeEntry.ofValue v
  (placeRequested host root entry.path).map fun path => { entry with path }

def readScopes (host : Host) (root : Path) : List Value → Except Fault (List ScopeEntry)
  | [] => .ok []
  | v :: vs => do
    let s ← readScope host root v
    let ss ← readScopes host root vs
    pure (s :: ss)

/-- The scopes that a document names under either of two names. -/
def scopesSection (host : Host) (root : Path) (document : List (Value × Value)) :
    Except Fault (Option (List ScopeEntry)) :=
  let listed := match Value.field? document "scopes" with
    | some v => v
    | none => field document "multipleScopeVars"
  match listed.shape with
  | .null => .ok none
  | .list items => (readScopes host root items).map some
  | _ => .error (.settings .scopesNotList)

/-- A text setting, or the fault of one whose number is too long. -/
def readText (v : Value) : Except Fault (Option String) :=
  match textOf v with
  | some text => .ok text
  | none => .error .unwritableNumber

def readStyle : Option String → Except Fault OutputStyle
  | none => .ok .expanded
  | some name =>
    match OutputStyle.ofName? name with
    | some style => .ok style
    | none => .error (.settings (.unknownStyle name))

def compilerSection (host : Host) (root : Path) (v : Value) : Except Fault CompileOptions := do
  let settings := v.entries
  let outputStyle ← readStyle (← readText (field settings "output_style"))
  let includeTexts ← match textsOf (field settings "include_paths") with
    | some texts => .ok texts
    | none => .error .unwritableNumber
  let includePaths ← placePaths host root includeTexts
  let additionalData ← readText (field settings "additional_data")
  pure {
    outputStyle, includePaths, additionalData
    precision := wholeOf (field settings "precision")
    sourceMap := (truthOf (field settings "source_map")).getD false
    indented := truthOf (field settings "indented") }

def readWorkers (v : Value) : Except Fault (Option Int) :=
  match wholeOf v with
  | some n => if n < 1 then .error (.settings .workersNotPositive) else .ok (some n)
  | none => .ok none

/-- The settings that a document holds. An empty document holds the defaults. -/
def ofValue (host : Host) (root : Path) (v : Value) : Except Fault Settings :=
  match v.shape with
  | .null => .ok { root }
  | .mapping document => do
    let scopes ← scopesSection host root document
    let options ← compilerSection host root (field document "compiler")
    let merging := (field document "merge").entries
    let verify := (truthOf (field merging "verify_structure")).getD true
    let maxWorkers ← readWorkers (field document "max_workers")
    pure { root, scopes, options, verify, maxWorkers }
  | _ => .error (.settings .rootNotMapping)

end Settings

end ThemedSheets
