import ThemedSheets.Fault
import ThemedSheets.Number.Integer
import ThemedSheets.Path.Basic
import ThemedSheets.Sass.Import
import ThemedSheets.Text.Blank
/- Reading the text in which an engine refuses a source: its first line is the message, and the
   first place of the form `on line L:C of FILE` tells where, the column being optional. The file
   name ends before a blank or a comma. A file with the stem of the source itself is not named. -/
namespace ThemedSheets.Sass
open ThemedSheets.Text ThemedSheets.Number

/-- A place as it is written: the digits of the line and the column, and the file. -/
structure WrittenPlace where
  line : List Char
  column : Option (List Char)
  file : List Char
  deriving DecidableEq, Repr

def isDigit (c : Char) : Bool := (digitValue? c).isSome

/-- The digits at the start of a text, if there are any, and what follows them. -/
def digitRun? (cs : List Char) : Option (List Char × List Char) :=
  match cs.takeWhile isDigit with
  | [] => none
  | ds => some (ds, cs.dropWhile isDigit)

/-- The column after a colon, if there is one, and what follows. -/
def columnPart (cs : List Char) : Option (List Char) × List Char :=
  match cs with
  | ':' :: rest =>
    match digitRun? rest with
    | some (ds, rest) => (some ds, rest)
    | none => (none, cs)
  | _ => (none, cs)

def endsName (c : Char) : Bool := isBlank c || c == ','

/-- The place that is written at the start of a text. -/
def placeAtStart? (cs : List Char) : Option WrittenPlace := do
  let (line, rest) ← (afterStart? "on line ".toList cs).bind digitRun?
  let (column, rest) := columnPart rest
  let rest ← afterStart? " of ".toList rest
  match rest.takeWhile (!endsName ·) with
  | [] => none
  | file => some ⟨line, column, file⟩

/-- The first place that is written in a text. -/
def place? : List Char → Option WrittenPlace
  | [] => none
  | c :: cs => (placeAtStart? (c :: cs)).or (place? cs)

/-- The message of a refusal: its first line without the word that announces it. -/
def refusalMessage (text : List Char) : List Char :=
  if text = [] then "Sass compilation failed".toList
  else
    let line := firstLine text
    (afterStart? "Error: ".toList line).getD line

/-- The file of a place, unless it stands for the source. -/
def namedFile? (file : List Char) : Option String :=
  let file := String.ofList file
  if (Path.ofString file).stem = ownStem then none else some file

/-- The number that digits spell, of which there may not be too many. -/
def readNumber (ds : List Char) : Except Fault Int :=
  match readInt? 10 ds with
  | some n => .ok n
  | none => .error (.unreadableNumber ds.length)

/-- The failure that an engine's refusal tells of. A place whose line or column has too many digits
is a fault. -/
def failureOf (text : String) : Except Fault CompileFailure := do
  let text := trim text.toList
  let message := String.ofList (refusalMessage text)
  match place? text with
  | none => pure { message }
  | some place =>
    let line ← readNumber place.line
    let column ← match place.column with
      | some ds => (readNumber ds).map some
      | none => pure none
    pure { message, line := some line, column, file := namedFile? place.file }

end ThemedSheets.Sass
