import ThemedSheets.Yaml.Cursor
import ThemedSheets.Text.Digit
/- The texts of scalars. A plain scalar runs to the first character that could end it, over lines
   that are indented far enough; a quoted one to its quote; a block scalar over all lines that have
   its indentation. Between lines a single break is folded into a space and further breaks are
   kept, but a block written with a bar keeps every break. Each loop spends fuel, of which there is
   as much as text. -/
namespace ThemedSheets.Yaml
open ThemedSheets.Text

/-- A scalar's text and where it ends. -/
abbrev Scanned := Except Failure (List Char × Cursor)

/-! ## Plain scalars -/

/-- How many characters of a plain scalar stand here in one word. A colon ends it where a gap
follows; inside brackets so do the characters that brackets give a meaning. -/
def plainLength (flow : Bool) : List Char → Nat
  | [] => 0
  | c :: rest =>
    let colonEnds := c == ':' &&
      (atGap rest.head? || (flow && rest.head?.any (",[]\x7b\x7d".toList.contains ·)))
    if isGap c || colonEnds || (flow && ",?[]\x7b\x7d".toList.contains c) then 0
    else plainLength flow rest + 1

/-- The further line breaks after a first one, spaces between them passed over; none when a mark
between documents comes. -/
def plainBreaks : Nat → Cursor → Option (List Char × Cursor)
  | 0, c => some ([], c)
  | n + 1, c =>
    let c := c.skipSpaces
    match c.lineBreak? with
    | none => some ([], c)
    | some (b, c) =>
      if c.seesSeparator then none
      else (plainBreaks n c).map fun (bs, c) => (b :: bs, c)

/-- How lines are joined: a single line feed is a space, further breaks stand for themselves. -/
def foldBreaks (first : Char) (others : List Char) : List Char :=
  if first ≠ '\n' then first :: others else if others = [] then [' '] else others

/-- What stands between two words of a plain scalar. -/
structure PlainGap where
  text : List Char
  cursor : Cursor
  newLine : Bool

/-- The gap after a word of a plain scalar; without text when the scalar ends here. -/
def plainGap (c : Cursor) : PlainGap :=
  let spaces := c.taking (· == ' ')
  let after := c.skipSpaces
  match after.lineBreak? with
  | none => ⟨spaces, after, false⟩
  | some (b, after) =>
    if after.seesSeparator then ⟨[], after, true⟩
    else match plainBreaks after.rest.length after with
      | none => ⟨[], (after.skip fun ch => ch == ' ' || isLineBreak ch), true⟩
      | some (bs, after) => ⟨foldBreaks b bs, after, true⟩

/-- A plain scalar: its text, where it ends, and whether it ends at the start of a line. -/
def plainScalar (flow : Bool) (indent : Int) : Nat → Cursor → List Char × Cursor × Bool
  | 0, c => ([], c, false)
  | n + 1, c =>
    let size := plainLength flow c.rest
    if c.sees '#' || size == 0 then ([], c, false)
    else
      let word := c.rest.take size
      let gap := plainGap (c.advance size)
      let stops := gap.text.isEmpty || gap.cursor.sees '#' ||
        (!flow && (gap.cursor.column : Int) < indent) ||
        plainLength flow gap.cursor.rest == 0
      if stops then (word, gap.cursor, gap.newLine)
      else
        let (more, c, newLine) := plainScalar flow indent n gap.cursor
        (word ++ gap.text ++ more, c, newLine)

/-! ## Quoted scalars -/

/-- The characters that a letter after a backslash stands for. -/
def escapes : List (Char × Char) :=
  [('0', '\x00'), ('a', '\x07'), ('b', '\x08'), ('t', '\t'), ('\t', '\t'), ('n', '\n'),
   ('v', '\x0b'), ('f', '\x0c'), ('r', '\r'), ('e', '\x1b'), (' ', ' '), ('"', '"'),
   ('\\', '\\'), ('/', '/'), ('N', '\u0085'), ('_', '\u00a0'), ('L', '\u2028'), ('P', '\u2029')]

/-- How many hexadecimal digits follow a letter after a backslash. -/
def escapeWidth? (c : Char) : Option Nat :=
  if c = 'x' then some 2 else if c = 'u' then some 4 else if c = 'U' then some 8 else none

/-- The character with a code point. A surrogate has none. -/
def charOfCode (n : Nat) : Except Failure Char :=
  if 0x7fffffff < n then .error .tooLarge
  else if 0x10ffff < n then .error .noSuchValue
  else if 0xd800 ≤ n ∧ n < 0xe000 then .error .halfCharacter
  else .ok (Char.ofNat n)

/-- The character written by hexadecimal digits at the cursor. -/
def hexChar (width : Nat) (c : Cursor) : Except Failure (Char × Cursor) :=
  match (c.rest.take width).mapM hexDigit? with
  | none => .error .malformed
  | some ds =>
    if ds.length < width then .error .malformed
    else (charOfCode (ds.foldl (fun n d => n * 16 + d) 0)).map fun ch => (ch, c.advance width)

/-- The line breaks inside a quoted scalar, blanks between them passed over. -/
def quotedBreaks : Nat → Cursor → Scanned
  | 0, c => .ok ([], c)
  | n + 1, c =>
    if c.seesSeparator then .error .malformed
    else
      let c := c.skip fun ch => ch == ' ' || ch == '\t'
      match c.lineBreak? with
      | none => .ok ([], c)
      | some (b, c) => (quotedBreaks n c).map fun (bs, c) => (b :: bs, c)

/-- What stands at the cursor inside a quoted scalar and is no quote: an escape, a gap, or a
character that stands for itself. -/
def quotedPiece (double : Bool) (c : Cursor) : Scanned :=
  match c.peek with
  | none => .error .malformed
  | some ch =>
    if double && ch == '\\' then
      let c := c.next
      match c.peek with
      | none => .error .malformed
      | some e =>
        match escapes.find? (·.1 == e), escapeWidth? e with
        | some (_, ch), _ => .ok ([ch], c.next)
        | none, some width => (hexChar width c.next).map fun (ch, c) => ([ch], c)
        | none, none =>
          match c.lineBreak? with
          | none => .error .malformed
          | some (_, c) => quotedBreaks (c.rest.length + 1) c
    else if isGap ch then
      let spaces := c.taking fun ch => ch == ' ' || ch == '\t'
      let c := c.advance spaces.length
      match c.peek, c.lineBreak? with
      | none, _ => .error .malformed
      | some _, none => .ok (spaces, c)
      | some _, some (b, c) =>
        (quotedBreaks (c.rest.length + 1) c).map fun (bs, c) => (foldBreaks b bs, c)
    else .ok ([ch], c.next)

/-- A quoted scalar after its opening quote. In single quotes a quote is written twice. -/
def quotedScalar (double : Bool) : Nat → Cursor → Scanned
  | 0, _ => .error .malformed
  | n + 1, c =>
    if c.sees (if double then '"' else '\'') then
      if !double && c.peekAt 1 == some '\'' then
        (quotedScalar double n (c.advance 2)).map fun (t, c) => ('\'' :: t, c)
      else .ok ([], c.next)
    else do
      let (piece, c) ← quotedPiece double c
      let (more, c) ← quotedScalar double n c
      pure (piece ++ more, c)

/-! ## Block scalars -/

/-- What becomes of the line breaks at the end of a block scalar. -/
inductive Chomping where
  | strip | clip | keep
  deriving DecidableEq, Repr

/-- The sign of a block scalar's header, if one comes next. -/
def chomping? (c : Cursor) : Option Chomping :=
  if c.sees '+' then some .keep else if c.sees '-' then some .strip else none

def indentDigit? (c : Cursor) : Option Nat := c.peek.bind asciiDigit?

/-- The header of a block scalar: a sign and a digit in either order, both optional. -/
def blockHeader (c : Cursor) : Except Failure (Chomping × Option Nat × Cursor) :=
  let found : Option Chomping × Option Nat × Cursor :=
    match chomping? c, indentDigit? c with
    | some ch, _ =>
      match indentDigit? c.next with
      | some d => (some ch, some d, c.advance 2)
      | none => (some ch, none, c.next)
    | none, some d =>
      match chomping? c.next with
      | some ch => (some ch, some d, c.advance 2)
      | none => (none, some d, c.next)
    | none, none => (none, none, c)
  let (ch, d, c) := found
  if d = some 0 ∨ ¬ atSpace c.peek then .error .malformed
  else (c.finishLine).map fun c => (ch.getD .clip, d, c)

/-- The blank lines at the start of a block scalar and the widest column that spaces reach. -/
def leadingLines : Nat → Nat → Cursor → List Char × Nat × Cursor
  | 0, widest, c => ([], widest, c)
  | n + 1, widest, c =>
    let c := c.skipSpaces
    let widest := max widest c.column
    match c.lineBreak? with
    | none => ([], widest, c)
    | some (b, c) =>
      let (bs, widest, c) := leadingLines n widest c
      (b :: bs, widest, c)

/-- The line breaks between lines of a block scalar with an indentation. -/
def blockBreaks (indent : Nat) : Nat → Cursor → List Char × Cursor
  | 0, c => ([], c)
  | n + 1, c =>
    let c := c.skipSpacesTo indent
    match c.lineBreak? with
    | none => ([], c)
    | some (b, c) =>
      let (bs, c) := blockBreaks indent n c
      (b :: bs, c)

/-- Whether a line of a block begins with a blank of its own. -/
def beginsBlank (c : Cursor) : Bool := c.sees ' ' || c.sees '\t'

/-- The lines of a block scalar, from a cursor at the indentation. -/
def blockLines (folded : Bool) (chomping : Chomping) (indent : Nat) :
    Nat → Cursor → List Char × Cursor
  | 0, c => ([], c)
  | n + 1, c =>
    let line := c.taking fun ch => !isLineBreak ch
    let after := c.advance line.length
    let first := (after.lineBreak?.map (·.1)).toList
    let (bs, next) := blockBreaks indent (after.rest.length + 1) after.skipLineBreak
    if next.column = indent ∧ next.peek.isSome then
      let joint :=
        if folded && first == ['\n'] && !beginsBlank c && !beginsBlank next then
          (if bs.isEmpty then [' '] else [])
        else first
      let (more, c) := blockLines folded chomping indent n next
      (line ++ joint ++ bs ++ more, c)
    else
      let tail := match chomping with
        | .strip => []
        | .clip => first
        | .keep => first ++ bs
      (line ++ tail, next)

/-- A block scalar after its bar or its angle, below a block indented by `parent`. -/
def blockScalar (folded : Bool) (parent : Int) (c : Cursor) : Scanned := do
  let (chomping, increment, c) ← blockHeader c
  let least := max 1 (parent + 1).toNat
  let fuel := c.rest.length + 1
  let (bs, indent, c) := match increment with
    | none =>
      let (bs, widest, c) := leadingLines fuel 0 c
      (bs, max least widest, c)
    | some d =>
      let indent := least + d - 1
      let (bs, c) := blockBreaks indent fuel c
      (bs, indent, c)
  if c.column = indent ∧ c.peek.isSome then
    let (text, c) := blockLines folded chomping indent fuel c
    pure (bs ++ text, c)
  else pure (if chomping = .keep then bs else [], c)

end ThemedSheets.Yaml
