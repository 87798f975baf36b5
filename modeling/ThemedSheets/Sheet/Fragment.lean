import ThemedSheets.Sheet.Outline
/- Rules as spans of a stylesheet: the text of a rule with the positions, in characters, where it
   begins and ends. -/
namespace ThemedSheets
open ThemedSheets.Text

/-- One rule of a stylesheet: its text, where it begins and where it ends. -/
structure Fragment where
  text : String
  start : Nat
  stop : Nat
  deriving DecidableEq, Repr

namespace Fragment

/-- The text of a rule cut at its first opening brace. -/
def cutSelector (text : List Char) : List Char × List Char :=
  (text.takeWhile (· != '{'), text.dropWhile (· != '{'))

/-- The selector list of a rule, as it is written. -/
def selector (f : Fragment) : String := String.ofList (cutSelector f.text.toList).1

/-- The block of a rule, from its opening brace. -/
def block (f : Fragment) : String := String.ofList (cutSelector f.text.toList).2

/-- The fragments of an outline whose text begins at a position. -/
def spans (pos : Nat) : List (List Char × List Char) → List Fragment
  | [] => []
  | (gap, rule) :: rest =>
    let start := pos + gap.length
    ⟨String.ofList rule, start, start + rule.length⟩ :: spans (start + rule.length) rest

/-- The rules of a stylesheet in their order. -/
def segment (css : String) : List Fragment := spans 0 (Outline.ofText css.toList).rules

theorem map_text_spans (pos : Nat) (rules : List (List Char × List Char)) :
    (spans pos rules).map (·.text.toList) = rules.map (·.2) := by
  induction rules generalizing pos with
  | nil => rfl
  | cons r rules ih => simp [spans, ih]

theorem map_text_segment (css : String) :
    (segment css).map (·.text.toList) = (Outline.ofText css.toList).texts :=
  map_text_spans 0 _

end Fragment

end ThemedSheets
