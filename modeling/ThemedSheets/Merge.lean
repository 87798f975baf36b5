import ThemedSheets.Sheet.Selector
import ThemedSheets.Run
import ThemedSheets.Text.Quoted
/- Merging the compiled copies of one stylesheet. The first scope's rules are the skeleton: in its
   CSS the k-th rule is replaced by the k-th rules of all scopes, each under its scope's class, on
   lines of their own. The text between the rules, the source map and the compiler's dependencies
   are the first scope's. Scopes are expected to have the same rules in the same order; the check
   for that compares their selector lists and names the first place where they part. -/
namespace ThemedSheets
open ThemedSheets.Text

/-- What the compiler made of one scope. -/
structure CompiledScope where
  scope : Scope
  css : String
  sourceMap : Option String := none
  dependencyPaths : List String := []
  errors : List String := []
  deriving DecidableEq, Repr

/-- The merged stylesheet and what goes with it. -/
structure MergeResult where
  css : String := ""
  sourceMap : Option String := none
  dependencyPaths : List String := []
  errors : List String := []
  diagnostics : List Diagnostic := []
  deriving DecidableEq, Repr

namespace Merge

def channel : String := "merge"

/-! ## Alignment -/

/-- How two lists of selectors part. -/
inductive Parting where
  | selector (actual expected : List Char)
  | count (actual expected : Nat)
  deriving DecidableEq, Repr

def Parting.message : Parting → String
  | .selector actual expected =>
    "selector " ++ String.ofList (quoted actual) ++ " != " ++ String.ofList (quoted expected)
  | .count actual expected =>
    countText actual ++ " fragments, expected " ++ countText expected

/-- The selector list of a rule without the blanks around it. -/
def selectorOf (rule : List Char) : List Char := trim (Fragment.cutSelector rule).1

/-- The first position at which two lists of selectors differ, and how. -/
def partingFrom (position : Nat) (total : Nat × Nat) :
    List (List Char) → List (List Char) → Option (Nat × Parting)
  | [], [] => none
  | e :: es, a :: as =>
    if e = a then partingFrom (position + 1) total es as else some (position, .selector a e)
  | _, _ => some (position, .count total.2 total.1)

/-- The first position at which a list of selectors leaves the expected one, and how. -/
def parting? (expected actual : List (List Char)) : Option (Nat × Parting) :=
  partingFrom 0 (expected.length, actual.length) expected actual

/-- The first scope whose selectors leave the expected ones. -/
def mismatch? (expected : List (List Char)) :
    List (String × List (List Char)) → Option Mismatch
  | [] => none
  | (scope, actual) :: rest =>
    match parting? expected actual with
    | some (position, how) => some ⟨scope, position, how.message⟩
    | none => mismatch? expected rest

/-! ## Splicing -/

/-- The k-th texts of all lists that are long enough, one per line. -/
def copiesAt (copies : List (List (List Char))) (k : Nat) : List Char :=
  join ['\n'] (copies.filterMap (·[k]?))

/-- The outline with the copies of all scopes in the place of its rules. -/
def splice (skeleton : Outline) (copies : List (List (List Char))) : Outline :=
  skeleton.replaceRules ((List.range skeleton.rules.length).map (copiesAt copies))

/-- The rules of a stylesheet, each under a scope's class. -/
def scopedTexts (exemptions : List Exemption) (name : String) (outline : Outline) :
    List (List Char) :=
  outline.texts.map (Selector.scopeRule exemptions name.toList)

/-- The merged text of stylesheets, each with the name of its scope; the first is the skeleton. -/
def mergedText (exemptions : List Exemption) (skeleton : Outline)
    (sheets : List (String × Outline)) : List Char :=
  (splice skeleton (sheets.map fun (name, o) => scopedTexts exemptions name o)).flatten

/-! ## Merging -/

/-- Merges compiled scopes. Unless `scopes` are given, each result counts for its own scope. -/
def merge (results : List CompiledScope) (scopes : Option (List Scope)) (verify : Bool) :
    Run MergeResult :=
  match results with
  | [] => pure {}
  | base :: others => do
    let scopes := scopes.getD (results.map (·.scope))
    if scopes.length ≠ results.length then
      Run.fail (.resultCount results.length scopes.length)
    else
      let skeleton := Outline.ofText base.css.toList
      let names := scopes.map (·.name)
      let outlines := skeleton :: others.map fun r => Outline.ofText r.css.toList
      let sheets := names.zip outlines
      let selectors := sheets.map fun (name, o) => (name, o.texts.map selectorOf)
      match if verify then mismatch? (skeleton.texts.map selectorOf) selectors.tail else none with
      | some m => Run.fail (.mismatch m)
      | none =>
        let css := String.ofList (mergedText Exemption.defaults skeleton sheets)
        Run.log .debug channel
          ("Merged " ++ countText skeleton.rules.length ++ " fragments across "
            ++ countText results.length ++ " scopes")
        pure {
          css
          sourceMap := base.sourceMap
          dependencyPaths := scopes.flatMap (·.paths) ++ base.dependencyPaths
          errors := results.flatMap (·.errors) }

end Merge

end ThemedSheets
