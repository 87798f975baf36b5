import ThemedSheets.Run
import ThemedSheets.Host
import ThemedSheets.Yaml.Value
/- Which requested scopes take part. Every entry is looked at on its own: it either gives one scope
   or is left out with a diagnostic for each thing that is wrong with it. A scope needs a name, and
   its path must be a file, or a list of files. Where no entry gives a scope, the stylesheet is
   compiled once without scoping. -/
namespace ThemedSheets
open ThemedSheets.Yaml

/-- The path that an entry asks for: one value, or a row of them. -/
inductive RequestedPath where
  | one (v : Value)
  | many (items : List Value)
  deriving Repr

namespace RequestedPath

/-- A value as a path: a row of values is a path of many. -/
def ofValue (v : Value) : RequestedPath :=
  match v.items? with
  | some items => .many items
  | none => .one v

/-- The path of a scope as a request. -/
def ofPath : ScopePath → RequestedPath
  | .one p => .one (.ofText p)
  | .many ps => .many (ps.map .ofText)

end RequestedPath

/-- An entry of a request: what it gives for the name and the path of a scope. -/
structure ScopeEntry where
  name : Value
  path : RequestedPath
  deriving Repr

namespace ScopeEntry

def nothing : ScopeEntry := ⟨.nothing, .one .nothing⟩

def ofScope (s : Scope) : ScopeEntry := ⟨.ofText s.name, .ofPath s.path⟩

/-- The name that a mapping gives. It has two spellings, of which the first one present counts. -/
def nameOf (entries : List (Value × Value)) : Value :=
  match Value.field? entries "scope_name" with
  | some name => name
  | none => (Value.field? entries "scopeName").getD .nothing

/-- A value as an entry. What is no mapping says nothing. -/
def ofValue (v : Value) : ScopeEntry :=
  match v.shape with
  | .mapping entries =>
    ⟨nameOf entries, .ofValue ((Value.field? entries "path").getD .nothing)⟩
  | _ => nothing

end ScopeEntry

/-- What validation found: the scopes that take part, and why others do not. -/
structure ValidationReport where
  scopes : List Scope
  diagnostics : List Diagnostic
  deriving DecidableEq, Repr

namespace ValidationReport

def isFallback (r : ValidationReport) : Bool :=
  match r.scopes with
  | [s] => s.name == ""
  | _ => false

end ValidationReport

namespace Validation

def channel : String := "scopes.validator"

def shown (v : Value) : Except Fault String :=
  match v.text? with
  | some text => .ok text
  | none => .error .unwritableNumber

/-- The diagnostic for a path that leads to no file. The path is named where the value has one. -/
def missing (scope : String) (v : Value) (named : Value → Except Fault (Option String)) :
    Except Fault Diagnostic := do
  let text ← shown v
  pure ⟨scope, "Not found path: " ++ text ++ " in scope spec", ← named v⟩

/-- The path that a diagnostic names for an item of a list: the item's text. -/
def itemPath (v : Value) : Except Fault (Option String) :=
  match v.shape with
  | .null => .ok none
  | _ => (shown v).map some

/-- The path that a diagnostic names for a single value: the value itself if it is a text. -/
def singlePath (v : Value) : Except Fault (Option String) :=
  match v.shape with
  | .str s => .ok (some s)
  | _ => .ok none

/-- The path that a value gives, if it is a text that leads to a file. -/
def filePath? (files : FileSystem) (v : Value) : Except Fault (Option String) :=
  match v.shape with
  | .str p =>
    if p = "" then .ok none
    else match files.hasFile p with
      | .ok found => .ok (if found then some p else none)
      | .error e => .error (.file e)
  | _ => .ok none

/-- The paths of a list: those that lead to files, and a diagnostic for each other item. -/
def checkItems (files : FileSystem) (scope : String) :
    List Value → Except Fault (List String × List Diagnostic)
  | [] => .ok ([], [])
  | v :: vs =>
    match filePath? files v with
    | .error e => .error e
    | .ok (some p) => (checkItems files scope vs).map fun (ps, ds) => (p :: ps, ds)
    | .ok none =>
      match missing scope v itemPath with
      | .error e => .error e
      | .ok d => (checkItems files scope vs).map fun (ps, ds) => (ps, d :: ds)

/-- The scope that an entry gives, or what is wrong with it. -/
def check (files : FileSystem) (entry : ScopeEntry) :
    Except Fault (Option Scope × List Diagnostic) :=
  match entry.name.shape with
  | .str name =>
    if name = "" then unnamed
    else match entry.path with
      | .many items =>
        match checkItems files name items with
        | .error e => .error e
        | .ok (ps, []) => .ok (some ⟨name, .many ps⟩, [])
        | .ok (_, ds) => .ok (none, ds)
      | .one v =>
        match filePath? files v with
        | .error e => .error e
        | .ok (some p) => .ok (some ⟨name, .one p⟩, [])
        | .ok none => (missing name v singlePath).map fun d => (none, [d])
  | _ => unnamed
where
  unnamed : Except Fault (Option Scope × List Diagnostic) :=
    .ok (none, [⟨"", "Not found scopeName in scope spec", none⟩])

/-- The scopes and the diagnostics of entries, with a warning for each name that is met again. -/
def checkAll (files : FileSystem) (seen : List String) :
    List ScopeEntry → Run (List Scope × List Diagnostic)
  | [] => pure ([], [])
  | entry :: rest => do
    let (found, problems) ← Run.ofExcept (check files entry)
    match found with
    | none =>
      let (scopes, diagnostics) ← checkAll files seen rest
      pure (scopes, problems ++ diagnostics)
    | some scope =>
      if seen.contains scope.name then
        Run.log .warning channel ("Scope name " ++ scope.name ++ " is configured more than once")
      let (scopes, diagnostics) ← checkAll files (scope.name :: seen) rest
      pure (scope :: scopes, problems ++ diagnostics)

/-- The report on requested entries; without a row of entries there is nothing to report. -/
def validate (files : FileSystem) (entries : Option (List ScopeEntry)) : Run ValidationReport :=
  match entries with
  | none => pure ⟨[Scope.unscoped], []⟩
  | some entries => do
    let (scopes, diagnostics) ← checkAll files [] entries
    if scopes.isEmpty then
      Run.log .debug channel "No valid scopes remain; compiling without scoping"
      pure ⟨[Scope.unscoped], diagnostics⟩
    else pure ⟨scopes, diagnostics⟩

end Validation

/-- The log records that tell which scopes were left out. -/
def logDiagnostics (channel : String) : List Diagnostic → Run Unit
  | [] => pure ()
  | d :: ds => do
    let label := if d.scope = "" then "<unnamed>" else d.scope
    Run.log .warning channel ("Dropped scope " ++ label ++ ": " ++ d.message)
    logDiagnostics channel ds

end ThemedSheets
