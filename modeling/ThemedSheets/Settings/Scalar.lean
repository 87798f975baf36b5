import ThemedSheets.Yaml.Value
/- Reading single settings. A value of another type than the one asked for counts as absent, except
   that numbers may stand for texts, and texts for numbers and truth values. Only a number of too
   many digits is refused. -/
namespace ThemedSheets.Settings
open ThemedSheets.Text ThemedSheets.Number ThemedSheets.Yaml

/-- The value of a field, null where it is absent. -/
def field (entries : List (Value × Value)) (name : String) : Value :=
  (Value.field? entries name).getD .nothing

/-- A text, or a number written as one. The outer option is none for a number that has no text. -/
def textOf (v : Value) : Option (Option String) :=
  match v.shape with
  | .str s => some (some s)
  | .int _ | .float _ => v.text?.map some
  | _ => some none

def wholeOf (v : Value) : Option Int :=
  match v.shape with
  | .int i => some i
  | .str s => readInt? 10 s.toList
  | _ => none

def truthOf (v : Value) : Option Bool :=
  match v.shape with
  | .bool b => some b
  | .str s =>
    let word := String.ofList (lowerAscii (trim s.toList))
    if ["true", "yes", "1"].contains word then some true
    else if ["false", "no", "0"].contains word then some false
    else none
  | _ => none

/-- The text of an item of a list, if it counts: texts, numbers and truth values do. -/
def itemText (v : Value) : Option (Option String) :=
  match v.shape with
  | .bool _ => v.text?.map some
  | _ => textOf v

/-- The texts of the items that count. -/
def itemTexts : List Value → Option (List String)
  | [] => some []
  | v :: vs => do
    let text ← itemText v
    let texts ← itemTexts vs
    pure (text.toList ++ texts)

/-- A list of texts. A text on its own is a list of one, and bytes are a list of numbers. -/
def textsOf (v : Value) : Option (List String) :=
  match v.shape with
  | .str s => some [s]
  | .bytes bs => some (bs.map fun b => countText b.toNat)
  | _ =>
    match v.items? with
    | some items => itemTexts items
    | none => some []

end ThemedSheets.Settings
