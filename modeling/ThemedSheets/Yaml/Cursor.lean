import ThemedSheets.Text.Basic
/- A place in a document's text: what is left of it, with the position reached. Columns count
   characters, save byte order marks; a carriage return before a line feed does not end a line of
   its own. The functions below name the classes of characters that the language tells apart. -/
namespace ThemedSheets.Yaml
open ThemedSheets.Text

/-- Why a text gives no value. -/
inductive Failure where
  /-- The text breaks the rules of the language. -/
  | malformed
  /-- A number, a date or a code point is spelled as one, but there is none like it. -/
  | noSuchValue
  /-- A number is larger than its kind can hold: a code point than 31 bits, the weight of a part
  in base sixty than a float. -/
  | tooLarge
  /-- A text that is tagged as a truth value is none. -/
  | unknownTruth
  /-- A text that is tagged as a number is empty. -/
  | emptyNumber
  /-- A text that is tagged as a moment is none. -/
  | notAMoment
  /-- A mapping is tagged as a moment. -/
  | mappingAsMoment
  /-- Too many nodes stand inside each other, or a scalar stands for itself. -/
  | tooDeep
  /-- A code point that is half of a pair is spelled. There may be such a text, but not here. -/
  | halfCharacter
  deriving DecidableEq, Repr

/-- What is left of a text and where it begins. -/
structure Cursor where
  rest : List Char
  index : Nat
  line : Nat
  column : Nat
  deriving Repr

def isLineBreak (c : Char) : Bool :=
  c == '\n' || c == '\r' || c == '\u0085' || c == '\u2028' || c == '\u2029'

/-- Whether a character is a space, a tab or a line break. -/
def isGap (c : Char) : Bool := c == ' ' || c == '\t' || isLineBreak c

/-- Whether nothing follows on the line. -/
def atLineEnd (c : Option Char) : Bool := c.all isLineBreak

/-- Whether nothing or a space follows. -/
def atSpace (c : Option Char) : Bool := c.all fun c => c == ' ' || isLineBreak c

/-- Whether nothing, a space or a tab follows. -/
def atGap (c : Option Char) : Bool := c.all isGap

/-- Whether a character may stand in an anchor, a directive or the handle of a tag. -/
def isWordChar (c : Char) : Bool := c.isAlphanum || c == '-' || c == '_'

namespace Cursor

def ofText (text : List Char) : Cursor := ⟨text, 0, 0, 0⟩

def peek (c : Cursor) : Option Char := c.rest.head?

def peekAt (c : Cursor) (n : Nat) : Option Char := (c.rest.drop n).head?

/-- Whether the next character is the given one. -/
def sees (c : Cursor) (ch : Char) : Bool := c.peek == some ch

def next (c : Cursor) : Cursor :=
  match c.rest with
  | [] => c
  | ch :: rest =>
    if isLineBreak ch && !(ch == '\r' && rest.head? == some '\n') then
      ⟨rest, c.index + 1, c.line + 1, 0⟩
    else ⟨rest, c.index + 1, c.line, if ch == '\ufeff' then c.column else c.column + 1⟩

def advance : Nat → Cursor → Cursor
  | 0, c => c
  | n + 1, c => advance n c.next

/-- The characters at the cursor that pass a test. -/
def taking (c : Cursor) (p : Char → Bool) : List Char := c.rest.takeWhile p

def skip (c : Cursor) (p : Char → Bool) : Cursor := c.advance (c.taking p).length

def skipSpaces (c : Cursor) : Cursor := c.skip (· == ' ')

/-- The cursor after spaces up to a column. -/
def skipSpacesTo (c : Cursor) (column : Nat) : Cursor :=
  c.advance (min (column - c.column) (c.taking (· == ' ')).length)

def skipComment (c : Cursor) : Cursor :=
  if c.sees '#' then c.skip fun ch => !isLineBreak ch else c

/-- A line break, if one comes next, as the text it stands for: the two separators of Unicode stand
for themselves and all other breaks for a line feed. -/
def lineBreak? (c : Cursor) : Option (Char × Cursor) :=
  match c.rest with
  | '\r' :: '\n' :: _ => some ('\n', c.advance 2)
  | ch :: _ =>
    if ch = '\u2028' ∨ ch = '\u2029' then some (ch, c.next)
    else if isLineBreak ch then some ('\n', c.next)
    else none
  | [] => none

def skipLineBreak (c : Cursor) : Cursor := (c.lineBreak?.map (·.2)).getD c

/-- Whether three dashes or three dots stand here as a word of their own. -/
def seesMarker (c : Cursor) (ch : Char) : Bool :=
  c.rest.take 3 == [ch, ch, ch] && atGap (c.peekAt 3)

/-- Whether a mark between documents stands here. -/
def seesSeparator (c : Cursor) : Bool := c.seesMarker '-' || c.seesMarker '.'

/-- The cursor at the end of a line on which only a comment may follow, after its line break. -/
def finishLine (c : Cursor) : Except Failure Cursor :=
  let c := c.skipSpaces.skipComment
  if atLineEnd c.peek then .ok c.skipLineBreak else .error .malformed

end Cursor

end ThemedSheets.Yaml
