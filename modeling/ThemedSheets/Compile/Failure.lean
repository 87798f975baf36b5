import ThemedSheets.Text.Digit
/- Why a stylesheet does not compile, and where. -/
namespace ThemedSheets
open ThemedSheets.Text

/-- A compiler's refusal: what is wrong, and where as far as it is known. -/
structure CompileFailure where
  message : String
  file : Option String := none
  line : Option Int := none
  column : Option Int := none
  scope : Option String := none
  deriving DecidableEq, Repr

namespace CompileFailure

def forScope (e : CompileFailure) (scope : String) : CompileFailure :=
  { e with scope := some scope }

def colonNumber (i : Int) : String := ":" ++ String.ofList (intText i)

/-- The failure in one line: scope, place and message. A column is told only with its line. -/
def describe (e : CompileFailure) : String :=
  let file := match e.file with
    | some f => if f = "" then "<source>" else f
    | none => "<source>"
  let place := match e.line, e.column with
    | some l, some c => file ++ colonNumber l ++ colonNumber c
    | some l, none => file ++ colonNumber l
    | none, _ => file
  let scope := match e.scope with
    | some s => if s = "" then "" else "[" ++ s ++ "] "
    | none => ""
  scope ++ place ++ ": " ++ e.message

end CompileFailure

/-- The failures of all scopes that did not compile, in the order of the scopes. -/
structure ScopeFailures where
  first : CompileFailure
  others : List CompileFailure := []
  deriving DecidableEq, Repr

namespace ScopeFailures

def toList (f : ScopeFailures) : List CompileFailure := f.first :: f.others

def ofList? : List CompileFailure → Option ScopeFailures
  | [] => none
  | e :: es => some ⟨e, es⟩

theorem ofList?_eq_some_iff {es : List CompileFailure} {f : ScopeFailures} :
    ofList? es = some f ↔ es = f.toList := by
  cases es with
  | nil => simp [ofList?, toList]
  | cons e es => cases f; simp [ofList?, toList]

def scopeNames (f : ScopeFailures) : List String := f.toList.map fun e => e.scope.getD ""

end ScopeFailures

end ThemedSheets
