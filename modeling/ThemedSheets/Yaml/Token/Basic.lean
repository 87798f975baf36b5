import ThemedSheets.Yaml.Token.Scalar
import ThemedSheets.Number.Integer
/- The tokens of a document. Besides the marks that stand in the text there are tokens that the
   layout alone produces: where a block begins and ends, and where the key of an entry begins. -/
namespace ThemedSheets.Yaml
open ThemedSheets.Text

/-- A tag as it is written: a handle that a directive explains, if it has one, and the rest. -/
structure WrittenTag where
  handle : Option String
  suffix : String
  deriving DecidableEq, Repr

inductive Token where
  | versionDirective (major : Nat)
  | tagDirective (handle leading : String)
  | otherDirective
  | documentStart
  | documentEnd
  | blockSequenceStart
  | blockMappingStart
  | blockEnd
  | flowSequenceStart
  | flowSequenceEnd
  | flowMappingStart
  | flowMappingEnd
  | blockEntry
  | flowEntry
  | key
  | value
  | alias (name : String)
  | anchor (name : String)
  | tag (tag : WrittenTag)
  | scalar (text : String) (plain : Bool)
  deriving DecidableEq, Repr

/-! ## Tags, anchors and directives -/

/-- A name of letters, digits, dashes and underscores. -/
def scanWord (c : Cursor) : Except Failure (String × Cursor) :=
  let word := c.taking isWordChar
  if word.isEmpty then .error .malformed else .ok (String.ofList word, c.advance word.length)

/-- The name of an anchor or an alias, after its sign. -/
def scanAnchor (c : Cursor) : Except Failure (String × Cursor) := do
  let (name, c) ← scanWord c
  if c.peek.all fun ch => isGap ch || "?:,]\x7d%@\x60".toList.contains ch then pure (name, c)
  else throw .malformed

/-- Whether a character may stand in the rest of a tag. -/
def isTagChar (c : Char) : Bool := c.isAlphanum || "-;/?:@&=+$,_.!~*'()[]%".toList.contains c

/-- The bytes written by percent signs with two hexadecimal digits each. -/
def percentBytes : List Char → Except Failure (List UInt8 × Nat)
  | '%' :: a :: b :: rest =>
    match hexDigit? a, hexDigit? b with
    | some x, some y => (percentBytes rest).map fun (bs, n) => ((x * 16 + y).toUInt8 :: bs, n + 3)
    | _, _ => .error .malformed
  | '%' :: _ => .error .malformed
  | _ => .ok ([], 0)

/-- The rest of a tag: characters that stand for themselves and bytes written by percent signs. -/
def tagChars : Nat → Cursor → Except Failure (List Char × Cursor)
  | 0, c => .ok ([], c)
  | n + 1, c =>
    match c.peek with
    | some '%' => do
      let (bytes, width) ← percentBytes c.rest
      match String.fromUTF8? (ByteArray.mk bytes.toArray) with
      | none => throw .malformed
      | some text =>
        let (more, c) ← tagChars n (c.advance width)
        pure (text.toList ++ more, c)
    | some ch =>
      if isTagChar ch then (tagChars n c.next).map fun (more, c) => (ch :: more, c)
      else .ok ([], c)
    | none => .ok ([], c)

/-- The rest of a tag, of which there must be some. -/
def scanTagSuffix (c : Cursor) : Except Failure (String × Cursor) := do
  let (text, after) ← tagChars (c.rest.length + 1) c
  if after.index = c.index then throw .malformed else pure (String.ofList text, after)

/-- The handle of a tag: an exclamation mark, or a word between two of them. -/
def scanTagHandle (c : Cursor) : Except Failure (String × Cursor) :=
  if !c.sees '!' then .error .malformed
  else
    let word := c.next.taking isWordChar
    let after := c.next.advance word.length
    if c.peekAt 1 == some ' ' then .ok ("!", c.next)
    else if after.sees '!' then .ok (String.ofList ('!' :: word ++ ['!']), after.next)
    else .error .malformed

/-- A tag: in angle brackets, alone, or with a handle. -/
def scanTag (c : Cursor) : Except Failure (WrittenTag × Cursor) := do
  let (tag, c) ←
    if c.peekAt 1 == some '<' then do
      let (suffix, c) ← scanTagSuffix (c.advance 2)
      if c.sees '>' then pure (⟨none, suffix⟩, c.next) else throw .malformed
    else if atGap (c.peekAt 1) then pure (⟨none, "!"⟩, c.next)
    else do
      let rest := (c.next.taking fun ch => ch != ' ' && !isLineBreak ch)
      let (handle, c) ← if rest.contains '!' then scanTagHandle c else pure ("!", c.next)
      let (suffix, c) ← scanTagSuffix c
      pure (⟨some handle, suffix⟩, c)
  if atSpace c.peek then pure (tag, c) else throw .malformed

/-- A decimal number of ASCII digits, of which there may not be too many. -/
def scanNumber (c : Cursor) : Except Failure (Nat × Cursor) :=
  let ds := c.taking Char.isDigit
  if ds.isEmpty then .error .malformed
  else if Number.maxDecimalDigits < ds.length then .error .noSuchValue
  else .ok (ds.foldl (fun n d => n * 10 + (d.toNat - '0'.toNat)) 0, c.advance ds.length)

/-- A directive, from its percent sign to the end of its line. -/
def scanDirective (c : Cursor) : Except Failure (Token × Cursor) := do
  let (name, c) ← scanWord c.next
  if !atSpace c.peek then throw .malformed
  let (token, c) ←
    if name = "YAML" then do
      let (major, c) ← scanNumber c.skipSpaces
      if !c.sees '.' then throw .malformed
      let (_, c) ← scanNumber c.next
      if atSpace c.peek then pure (Token.versionDirective major, c) else throw .malformed
    else if name = "TAG" then do
      let (handle, c) ← scanTagHandle c.skipSpaces
      if !c.sees ' ' then throw .malformed
      let (leading, c) ← scanTagSuffix c.skipSpaces
      if atSpace c.peek then pure (Token.tagDirective handle leading, c) else throw .malformed
    else pure (Token.otherDirective, c.skip fun ch => !isLineBreak ch)
  let c ← c.finishLine
  pure (token, c)

end ThemedSheets.Yaml
