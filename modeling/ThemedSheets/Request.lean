import ThemedSheets.Compile.FanOut
import ThemedSheets.Scope.Validation
/- A request from end to end: validate the scopes that are asked for, compile the stylesheet for
   those that remain, and merge what the compiler made of them. Scopes that are left out are logged
   and reported before anything is compiled, and the result carries them too. -/
namespace ThemedSheets

/-- What stays the same from request to request. -/
structure Workshop where
  compiler : Compiler
  files : FileSystem
  options : CompileOptions := {}
  verify : Bool := true
  maxWorkers : Option Int := none

namespace Workshop

def channel : String := "pipeline"

/-- The reports on scopes that are left out. -/
def report : List Diagnostic → Run Unit
  | [] => pure ()
  | d :: ds => do
    Run.emit (.reported d)
    report ds

/-- The options for a source: its path is put in if it has one. -/
def optionsFor (w : Workshop) (sourcePath : Option String) : CompileOptions :=
  match sourcePath with
  | some p => if p = "" then w.options else w.options.withSource (some p)
  | none => w.options

def announcement (sourcePath : Option String) (r : ValidationReport) : String :=
  let label := match sourcePath with
    | some p => if p = "" then "<string>" else p
    | none => "<string>"
  if r.isFallback then "Compiling " ++ label ++ " without scopes"
  else "Compiling " ++ label ++ " for scopes: " ++ String.intercalate ", " (r.scopes.map (·.name))

/-- The merged stylesheet for the scopes that are asked for. -/
def compileScoped (w : Workshop) (source : String) (entries : Option (List ScopeEntry))
    (sourcePath : Option String) : Run MergeResult := do
  let validated ← Validation.validate w.files entries
  logDiagnostics channel validated.diagnostics
  report validated.diagnostics
  Run.log .info channel (announcement sourcePath validated)
  let results ← FanOut.compileAll w.compiler w.files (w.optionsFor sourcePath) w.maxWorkers source
    validated.scopes
  let merged ← Merge.merge results (some validated.scopes) w.verify
  pure { merged with diagnostics := validated.diagnostics }

end Workshop

end ThemedSheets
