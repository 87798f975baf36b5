import ThemedSheets.Compile.Input
import ThemedSheets.Merge
/- Compiling one stylesheet for all scopes at once. Every scope is a task of its own; the tasks may
   finish in any order, and each puts its outcome into its own place on a board. Only when the board
   is full is it read, in the order of the scopes: results if all compiled, else the first failure
   that is none of the compiler's refusals, else all refusals together. -/
namespace ThemedSheets

/-- A compiler: what it does with a text under given options. -/
abbrev Compiler := String → CompileOptions → Run CompileOutput

/-- A loader: the overrides of a scope's files, or why there are none. -/
abbrev Loader := ScopePath → Except Fault String

/-- The loader that reads the files of a file system. -/
def Loader.ofFiles (files : FileSystem) : Loader := fun path =>
  (Overrides.load files path).mapError Fault.file

namespace FanOut

def channel : String := "compiler.scoped"

/-- The task of one scope: load its overrides, compile, and move a refusal to where it belongs. -/
def task (compiler : Compiler) (load : Loader) (options : CompileOptions) (source : String)
    (scope : Scope) : Run CompiledScope := do
  let input ← Run.ofExcept (ScopeInput.buildFrom load options source scope)
  Run.log .debug channel
    ("Compiling scope " ++ scope.label ++ " (" ++ Text.countText input.leadingLines
      ++ " override lines)")
  let output ← (compiler input.text options).recover fun outcome =>
    match outcome with
    | .error fault =>
      match fault.refusal? with
      | some e => .error (.compile (input.relocate options e))
      | none => .error fault
    | .ok output => .ok output
  Run.log .debug channel ("Scope " ++ scope.label ++ " compiled")
  pure {
    scope
    css := output.css
    sourceMap := output.sourceMap
    dependencyPaths := output.includedFiles
    errors := output.errors }

/-- The events so far and the outcomes so far, one place per task. -/
structure Board (α : Type) where
  events : List Event
  places : List (Option (Except Fault α))

namespace Board
variable {α : Type}

def blank (tasks : List (Run α)) : Board α := ⟨[], tasks.map fun _ => none⟩

/-- The board after the task at a place has finished. -/
def finish (tasks : List (Run α)) (board : Board α) (place : Nat) : Board α :=
  match tasks[place]? with
  | none => board
  | some t =>
    ⟨board.events ++ t.events.map Event.ofWorker, board.places.set place (some t.outcome)⟩

def finishAll (tasks : List (Run α)) (order : List Nat) : Board α :=
  order.foldl (finish tasks) (blank tasks)

def outcomes (board : Board α) : List (Except Fault α) := board.places.filterMap id

end Board

def values {α : Type} : List (Except Fault α) → List α
  | [] => []
  | .ok a :: rest => a :: values rest
  | .error _ :: rest => values rest

/-- The compiler's refusals among outcomes. -/
def refusals {α : Type} : List (Except Fault α) → List CompileFailure
  | [] => []
  | .error (.compile e) :: rest => e :: refusals rest
  | _ :: rest => refusals rest

/-- The first fault among outcomes that is no refusal. -/
def firstOther {α : Type} : List (Except Fault α) → Option Fault
  | [] => none
  | .error (.compile _) :: rest => firstOther rest
  | .error fault :: _ => some fault
  | .ok _ :: rest => firstOther rest

/-- What the outcomes of all tasks come to. -/
def settle {α : Type} (outcomes : List (Except Fault α)) : Except Fault (List α) :=
  match firstOther outcomes, ScopeFailures.ofList? (refusals outcomes) with
  | some fault, some failures => .error (.because fault failures)
  | some fault, none => .error fault
  | none, some failures => .error (.scopes failures)
  | none, none => .ok (values outcomes)

/-- The log records that tell which scopes were refused. -/
def logRefusals {α : Type} : List (Scope × Except Fault α) → Run Unit
  | [] => pure ()
  | (scope, .error (.compile e)) :: rest => do
    Run.log .debug channel ("Scope " ++ scope.label ++ " failed: " ++ e.message)
    logRefusals rest
  | _ :: rest => logRefusals rest

/-- How many workers there are: as many as scopes unless a number is given; none is no number. -/
def workers (maxWorkers : Option Int) (scopes : Nat) : Int :=
  match maxWorkers with
  | some n => if n = 0 then scopes else n
  | none => scopes

/-- Compiles a stylesheet for all scopes, the tasks finishing in the given order. -/
def compileIn (order : List Nat) (compiler : Compiler) (load : Loader)
    (options : CompileOptions) (maxWorkers : Option Int) (source : String)
    (scopes : List Scope) : Run (List CompiledScope) :=
  if scopes.isEmpty then pure []
  else if workers maxWorkers scopes.length ≤ 0 then Run.fail .workerCount
  else do
    let tasks := scopes.map (task compiler load options source)
    let board := Board.finishAll tasks order
    let outcomes ← (⟨board.events, .ok board.outcomes⟩ : Run _)
    logRefusals (scopes.zip outcomes)
    Run.ofExcept (settle outcomes)

/-- Compiles a stylesheet for all scopes, whose overrides are in files. -/
def compileAll (compiler : Compiler) (files : FileSystem) (options : CompileOptions)
    (maxWorkers : Option Int) (source : String) (scopes : List Scope) :
    Run (List CompiledScope) :=
  compileIn (List.range scopes.length) compiler (Loader.ofFiles files) options maxWorkers source
    scopes

end FanOut

end ThemedSheets
