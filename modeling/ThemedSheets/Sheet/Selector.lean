import ThemedSheets.Sheet.Fragment
import ThemedSheets.Text.Blank
import ThemedSheets.Text.CaseMap
/- Putting a rule under a scope class. Every selector of the rule's list gets the class in front,
   after its own leading blanks; blank selectors and exempt ones stay. By default a selector is
   exempt that begins with `html`, which names the document's root, or with an at sign, which
   begins an at-rule. -/
namespace ThemedSheets
open ThemedSheets.Text

/-- A start of selectors that are left as they are. -/
structure Exemption where
  literal : String
  ignoreCase : Bool := false
  deriving DecidableEq, Repr

namespace Exemption

def startsWith (same : Char → Char → Bool) : List Char → List Char → Bool
  | [], _ => true
  | _ :: _, [] => false
  | p :: ps, c :: cs => same p c && startsWith same ps cs

/-- Whether a selector is exempt. -/
def covers (e : Exemption) (selector : List Char) : Bool :=
  startsWith (if e.ignoreCase then sameLetter else (· == ·)) e.literal.toList selector

/-- The exemptions that hold unless others are given. -/
def defaults : List Exemption := [⟨"html", true⟩, ⟨"@", false⟩]

end Exemption

namespace Selector

/-- One selector of a list under the scope class. -/
def scopeOne (exemptions : List Exemption) (name segment : List Char) : List Char :=
  let body := trimLeft segment
  if body = [] ∨ exemptions.any (·.covers body) then segment
  else segment.takeWhile isBlank ++ '.' :: name ++ ' ' :: body

/-- A selector list under the scope class. -/
def scopeList (exemptions : List Exemption) (name selectors : List Char) : List Char :=
  join [','] ((split ',' selectors).map (scopeOne exemptions name))

/-- The text of a rule under the scope class. The empty name stands for no scope. -/
def scopeRule (exemptions : List Exemption) (name rule : List Char) : List Char :=
  if name = [] then rule
  else
    let (selectors, block) := Fragment.cutSelector rule
    scopeList exemptions name selectors ++ block

end Selector

/-- The text of a rule under a scope class. -/
def Fragment.underScope (exemptions : List Exemption) (f : Fragment) (name : String) : String :=
  String.ofList (Selector.scopeRule exemptions name.toList f.text.toList)

end ThemedSheets
