import ThemedSheets.Scope.Overrides
import ThemedSheets.Compile.Failure
import ThemedSheets.Compile.Options
/- The text that the compiler gets for one scope: the scope's overrides, the additional data if
   there are any, and the source, each on lines of its own. A failure that the compiler reports on a
   line of that text is moved to where the line came from. -/
namespace ThemedSheets
open ThemedSheets.Text

/-- The text for one scope, and how many lines stand before the source. -/
structure ScopeInput where
  scope : Scope
  text : String
  leadingLines : Nat
  deriving DecidableEq, Repr

namespace ScopeInput

/-- What stands before the source: the overrides, and the additional data unless they are empty. -/
def leading (overrides : String) (additional : Option String) : String :=
  match additional with
  | some data => if data = "" then overrides else overrides ++ "\n" ++ data
  | none => overrides

def lineFeeds (text : String) : Nat := text.toList.count '\n'

def ofOverrides (options : CompileOptions) (source : String) (scope : Scope) (overrides : String) :
    ScopeInput :=
  let before := leading overrides options.additionalData
  ⟨scope, before ++ "\n" ++ source, lineFeeds before + 1⟩

/-- The input of a scope whose overrides are loaded in a given way. -/
def buildFrom {ε : Type} (load : ScopePath → Except ε String) (options : CompileOptions)
    (source : String) (scope : Scope) : Except ε ScopeInput :=
  (load scope.path).map (ofOverrides options source scope)

def build (files : FileSystem) (options : CompileOptions) (source : String) (scope : Scope) :
    Except FileFailure ScopeInput :=
  buildFrom (Overrides.load files) options source scope

/-- A failure on a line of the input, moved to where the line came from. One that names a file
stays. On a line of the source it is counted from the source's start; on a line before that it is
in the scope's first file; without a line it is somewhere in the source. -/
def relocate (input : ScopeInput) (options : CompileOptions) (e : CompileFailure) :
    CompileFailure :=
  let e := e.forScope input.scope.name
  match e.file, e.line with
  | some _, _ => e
  | none, some l =>
    if (input.leadingLines : Int) < l then
      { e with line := some (l - input.leadingLines), file := options.sourcePath }
    else { e with file := input.scope.paths.head? }
  | none, none => { e with file := options.sourcePath }

end ScopeInput

end ThemedSheets
