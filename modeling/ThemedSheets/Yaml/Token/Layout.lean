import ThemedSheets.Yaml.Token.Basic
/- The tokens of a text. Outside brackets the column of a line decides where blocks begin and end.
   A token may turn out to be the key of an entry only when a colon follows it on its line, within
   1024 characters; until then its place among the tokens is remembered, one place for each depth
   of brackets, and the colon puts the marks of the key there. Where a text breaks the rules, the
   tokens before that place still stand, but none from a remembered place on. -/
namespace ThemedSheets.Yaml
open ThemedSheets.Text

/-- A place where a key may have begun. -/
structure KeyPlace where
  depth : Nat
  tokensBefore : Nat
  required : Bool
  index : Nat
  line : Nat
  column : Nat

/-- A text read so far. The tokens stand in reverse, with their number. -/
structure Layout where
  cursor : Cursor
  tokens : List Token
  count : Nat
  depth : Nat
  indent : Int
  outer : List Int
  keyAllowed : Bool
  keys : List KeyPlace

/-- The tokens of a text, and the failure that waits behind them where the text breaks the rules.
It only shows when a further token is asked for. -/
structure TokenRun where
  tokens : List Token
  stop : Option Failure
  deriving Repr

namespace Layout

def start (text : List Char) : Layout := ⟨Cursor.ofText text, [], 0, 0, -1, [], true, []⟩

/-- The most characters from the start of a key to its colon. -/
def maxKeyLength : Nat := 1024

def inFlow (s : Layout) : Bool := s.depth != 0

def emit (s : Layout) (t : Token) : Layout :=
  { s with tokens := t :: s.tokens, count := s.count + 1 }

/-- One more token, which the layout produces before a token that was remembered. -/
def insert (s : Layout) (tokensBefore : Nat) (t : Token) : Layout :=
  let after := s.count - tokensBefore
  { s with
    tokens := s.tokens.take after ++ t :: s.tokens.drop after
    count := s.count + 1 }

/-- The cursor moved over the blanks, the comments and the line breaks before the next token. A
line break outside brackets allows a key again. -/
def toNextToken : Nat → Layout → Layout
  | 0, s => s
  | n + 1, s =>
    let c := s.cursor.skipSpaces.skipComment
    match c.lineBreak? with
    | none => { s with cursor := c }
    | some (_, c) => toNextToken n { s with cursor := c, keyAllowed := s.keyAllowed || !s.inFlow }

/-- Whether a place can no longer be a key. -/
def isStale (s : Layout) (k : KeyPlace) : Bool :=
  k.line != s.cursor.line || k.index + maxKeyLength < s.cursor.index

/-- The layout without the places that can no longer be keys. One that had to be a key is an
error. -/
def dropStaleKeys (s : Layout) : Except Failure Layout :=
  if s.keys.any fun k => s.isStale k && k.required then .error .malformed
  else .ok { s with keys := s.keys.filter fun k => !s.isStale k }

/-- The tokens that nothing further in the text can part: those before the first place that may
still turn out to be a key. -/
def settled (s : Layout) : List Token :=
  let tokens := s.tokens.reverse
  match ((s.keys.filter fun k => !s.isStale k).map (·.tokensBefore)).min? with
  | some n => tokens.take n
  | none => tokens

/-- The layout without the place remembered at this depth. -/
def dropKey (s : Layout) : Except Failure Layout :=
  if s.keys.any fun k => k.depth == s.depth && k.required then .error .malformed
  else .ok { s with keys := s.keys.filter fun k => k.depth != s.depth }

/-- The layout with the cursor's place remembered, if a key is allowed here. A token that stands at
the indentation of a block has to be a key. -/
def saveKey (s : Layout) : Except Failure Layout :=
  if s.keyAllowed then do
    let s ← s.dropKey
    let place : KeyPlace :=
      ⟨s.depth, s.count, !s.inFlow && s.indent == s.cursor.column, s.cursor.index,
        s.cursor.line, s.cursor.column⟩
    pure { s with keys := place :: s.keys }
  else .ok s

/-- The blocks closed that are indented further than a column. Inside brackets none is. -/
def closeBlocks (s : Layout) (column : Int) : Layout :=
  if s.inFlow then s else go s.outer.length s
where
  go : Nat → Layout → Layout
    | n, s =>
      if s.indent ≤ column then s
      else match s.outer, n with
        | [], _ => s
        | o :: os, 0 => { s with indent := o, outer := os }.emit .blockEnd
        | o :: os, n + 1 => go n ({ s with indent := o, outer := os }.emit .blockEnd)

/-- The layout with a block opened at a column, and whether one had to be. -/
def openBlock (s : Layout) (column : Int) : Layout × Bool :=
  if s.indent < column then ({ s with indent := column, outer := s.indent :: s.outer }, true)
  else (s, false)

def mark (s : Layout) (width : Nat) (t : Token) : Layout :=
  { s with cursor := s.cursor.advance width }.emit t

/-- A token that ends the text of the line's block: a directive or a mark between documents. -/
def betweenDocuments (s : Layout) : Except Failure Layout := do
  let s ← (s.closeBlocks (-1)).dropKey
  pure { s with keyAllowed := false }

def openFlow (s : Layout) (t : Token) : Except Failure Layout := do
  let s ← s.saveKey
  pure ({ s with depth := s.depth + 1, keyAllowed := true }.mark 1 t)

/-- A closing bracket, of which there must have been an opening one. -/
def closeFlow (s : Layout) (t : Token) : Except Failure Layout := do
  if !s.inFlow then throw .malformed
  let s ← s.dropKey
  pure ({ s with depth := s.depth - 1, keyAllowed := false }.mark 1 t)

/-- A block opened by a mark at the cursor, where a mark is allowed. -/
def openAtMark (s : Layout) (t : Token) : Except Failure Layout :=
  if s.inFlow then .ok s
  else if !s.keyAllowed then .error .malformed
  else
    let (s, opened) := s.openBlock s.cursor.column
    .ok (if opened then s.emit t else s)

/-- The dash of a sequence. -/
def entry (s : Layout) : Except Failure Layout := do
  let s ← s.openAtMark .blockSequenceStart
  let s ← { s with keyAllowed := true }.dropKey
  pure (s.mark 1 .blockEntry)

/-- The question mark of a key. -/
def explicitKey (s : Layout) : Except Failure Layout := do
  let s ← s.openAtMark .blockMappingStart
  let s ← { s with keyAllowed := !s.inFlow }.dropKey
  pure (s.mark 1 .key)

/-- The colon of a value: what was remembered at this depth becomes its key. -/
def value (s : Layout) : Except Failure Layout :=
  match s.keys.find? (·.depth == s.depth) with
  | some k =>
    let s := { s with keys := s.keys.filter fun k => k.depth != s.depth, keyAllowed := false }
    let s := s.insert k.tokensBefore .key
    let (s, opened) := if s.inFlow then (s, false) else s.openBlock k.column
    let s := if opened then s.insert k.tokensBefore .blockMappingStart else s
    .ok (s.mark 1 .value)
  | none => do
    let s ← s.openAtMark .blockMappingStart
    let s ← { s with keyAllowed := !s.inFlow }.dropKey
    pure (s.mark 1 .value)

/-- The layout with a token that may be a key and was read to a cursor. -/
def keyLike (s : Layout) (scan : Cursor → Except Failure (Token × Cursor)) :
    Except Failure Layout := do
  let s ← s.saveKey
  let (t, c) ← scan s.cursor
  pure { s.emit t with cursor := c, keyAllowed := false }

/-- A plain scalar. One that ends at the start of a line allows a key there. -/
def plain (s : Layout) : Except Failure Layout := do
  let s ← s.saveKey
  let (text, c, newLine) := plainScalar s.inFlow (s.indent + 1) (s.cursor.rest.length + 1) s.cursor
  pure { s.emit (.scalar (String.ofList text) true) with cursor := c, keyAllowed := newLine }

/-- A block scalar. A key may follow it. -/
def block (s : Layout) (folded : Bool) : Except Failure Layout := do
  let s ← { s with keyAllowed := true }.dropKey
  let (text, c) ← blockScalar folded s.indent s.cursor.next
  pure { s.emit (.scalar (String.ofList text) false) with cursor := c }

def quoted (s : Layout) (double : Bool) : Except Failure Layout :=
  s.keyLike fun c => (quotedScalar double (c.rest.length + 1) c.next).map fun (text, c) =>
    (.scalar (String.ofList text) false, c)

/-- Whether a plain scalar may begin with the characters at the cursor. -/
def beginsPlain (s : Layout) (ch : Char) : Bool :=
  !(isGap ch || "-?:,[]\x7b\x7d#&*!|>'\"%@\x60".toList.contains ch) ||
    (!atGap (s.cursor.peekAt 1) && (ch == '-' || (!s.inFlow && (ch == '?' || ch == ':'))))

def token (s : Layout) (ch : Char) : Except Failure Layout :=
  let gapFollows := atGap (s.cursor.peekAt 1)
  let atMargin := s.cursor.column == 0
  if ch = '%' ∧ atMargin then do
    let s ← s.betweenDocuments
    let (t, c) ← scanDirective s.cursor
    pure { s.emit t with cursor := c }
  else if atMargin ∧ s.cursor.seesMarker '-' then
    s.betweenDocuments.map (·.mark 3 .documentStart)
  else if atMargin ∧ s.cursor.seesMarker '.' then
    s.betweenDocuments.map (·.mark 3 .documentEnd)
  else if ch = '[' then s.openFlow .flowSequenceStart
  else if ch = '\x7b' then s.openFlow .flowMappingStart
  else if ch = ']' then s.closeFlow .flowSequenceEnd
  else if ch = '\x7d' then s.closeFlow .flowMappingEnd
  else if ch = ',' then do
    let s ← { s with keyAllowed := true }.dropKey
    pure (s.mark 1 .flowEntry)
  else if ch = '-' ∧ gapFollows then s.entry
  else if ch = '?' ∧ (s.inFlow ∨ gapFollows) then s.explicitKey
  else if ch = ':' ∧ (s.inFlow ∨ gapFollows) then s.value
  else if ch = '*' then
    s.keyLike fun c => (scanAnchor c.next).map fun (name, c) => (.alias name, c)
  else if ch = '&' then
    s.keyLike fun c => (scanAnchor c.next).map fun (name, c) => (.anchor name, c)
  else if ch = '!' then s.keyLike fun c => (scanTag c).map fun (t, c) => (.tag t, c)
  else if ch = '|' ∧ ¬ s.inFlow then s.block false
  else if ch = '>' ∧ ¬ s.inFlow then s.block true
  else if ch = '\'' then s.quoted false
  else if ch = '"' then s.quoted true
  else if s.beginsPlain ch then s.plain
  else .error .malformed

/-- The layout after the next token, or after the end of the text, and which of both it is. -/
def step (s : Layout) : Except Failure (Layout × Bool) := do
  let s := toNextToken (s.cursor.rest.length + 1) s
  let s ← s.dropStaleKeys
  let s := s.closeBlocks s.cursor.column
  match s.cursor.peek with
  | none => (s.closeBlocks (-1)).dropKey.map (·, true)
  | some ch => (s.token ch).map (·, false)

/-- The tokens to the end of the text; every token takes at least one character. -/
def run : Nat → Layout → TokenRun
  | 0, s => ⟨s.settled, some .malformed⟩
  | n + 1, s =>
    match s.step with
    | .error f => ⟨s.settled, some f⟩
    | .ok (s, true) => ⟨s.tokens.reverse, none⟩
    | .ok (s, false) => run n s

end Layout

/-- Whether a character may stand in a document at all. -/
def isDocumentChar (c : Char) : Bool :=
  inRanges [(0x09, 0x0a), (0x0d, 0x0d), (0x20, 0x7e), (0x85, 0x85), (0xa0, 0xd7ff),
    (0xe000, 0xfffd), (0x10000, 0x10ffff)] c.toNat

/-- The tokens of a text. A byte order mark may come first. -/
def tokens (text : String) : TokenRun :=
  let cs := text.toList
  if cs.all isDocumentChar then
    let start := Layout.start cs
    let start := if start.cursor.sees '\ufeff' then { start with cursor := start.cursor.next }
      else start
    start.run (cs.length + 1)
  else ⟨[], some .malformed⟩

end ThemedSheets.Yaml
