import ThemedSheets.Text.Basic
/- Scopes: a name and the files that hold the values of its variables. The scope without a name
   stands for one compilation without scoping. -/
namespace ThemedSheets

/-- The files of a scope: one, or a list that is put together. -/
inductive ScopePath where
  | one (path : String)
  | many (paths : List String)
  deriving DecidableEq, Repr

/-- A named set of variable files. -/
structure Scope where
  name : String
  path : ScopePath := .one ""
  deriving DecidableEq, Repr

namespace Scope

def paths (s : Scope) : List String :=
  match s.path with
  | .one p => if p = "" then [] else [p]
  | .many ps => ps.filter (· ≠ "")

/-- The scope that stands for no scoping. -/
def unscoped : Scope := ⟨"", .one ""⟩

/-- The name by which log records call a scope. -/
def label (s : Scope) : String := if s.name = "" then "<unscoped>" else s.name

end Scope

/-- A requested scope that is left out, and why. -/
structure Diagnostic where
  scope : String
  message : String
  path : Option String := none
  deriving DecidableEq, Repr

end ThemedSheets
