import ThemedSheets.Yaml.Node
import ThemedSheets.Yaml.Token.Layout
/- Reading nodes from tokens. An alias is the place of the node that bears its anchor, also inside
   that node itself. The reading is a recursive descent whose fuel is bounded by the number of
   tokens. It asks for a token only when it needs it, so that a fault among the nodes is told before
   a fault in the text behind them. -/
namespace ThemedSheets.Yaml

/-- The handles that need no directive. -/
def defaultHandles : List (String × String) := [("!", "!"), ("!!", coreTag "")]

/-- The tag of a collection: its own, unless it is missing or the bare exclamation mark. -/
def collectionTag (tag : Option String) (default : String) : String :=
  match tag with
  | none => coreTag default
  | some t => if t = "!" then coreTag default else t

/-- The tag of a scalar. A missing tag, and the bare exclamation mark, leave it to the form of the
text; a text in quotes without a tag is just text. -/
def scalarTag (tag : Option String) (plain : Bool) (text : String) : String :=
  match tag with
  | none => if plain then plainTag text else coreTag "str"
  | some t => if t = "!" then plainTag text else t

/-- Whether a token cannot begin the contents of a document. -/
def Token.isBoundary : Token → Bool
  | .versionDirective _ | .tagDirective .. | .otherDirective | .documentStart => true
  | _ => false

/-- How many collections may stand inside each other: a bound of the reader, not of the language. -/
def maxDepth : Nat := 490

/-- What is left of the tokens, with the handles and the anchors that are known, the nodes that were
met so far, and how many collections are open. -/
structure Source where
  tokens : List Token
  stop : Option Failure
  handles : List (String × String)
  anchors : List (String × Nat)
  nodes : Array Node
  depth : Nat

namespace Source

/-- The next token; where the text breaks the rules there is none, but its failure. -/
def peek (s : Source) : Except Failure (Option Token) :=
  match s.tokens, s.stop with
  | [], some f => .error f
  | ts, _ => .ok ts.head?

def next (s : Source) : Source := { s with tokens := s.tokens.tail }

/-- Whether the next token is one of the given ones. -/
def sees (s : Source) (ts : List Token) : Except Failure Bool :=
  s.peek.map fun t => t.any ts.contains

/-- The full tag that a written one stands for. -/
def fullTag (s : Source) (t : WrittenTag) : Except Failure String :=
  match t.handle with
  | none => .ok t.suffix
  | some h =>
    match s.handles.find? (·.1 == h) with
    | some (_, start) => .ok (start ++ t.suffix)
    | none => .error .malformed

/-- An anchor and a tag in either order, both optional. -/
def properties (s : Source) : Except Failure (Option String × Option String × Source) := do
  match ← s.peek with
  | some (.anchor a) =>
    match ← s.next.peek with
    | some (.tag t) => pure (some a, some (← s.fullTag t), s.next.next)
    | _ => pure (some a, none, s.next)
  | some (.tag t) =>
    match ← s.next.peek with
    | some (.anchor a) => pure (some a, some (← s.fullTag t), s.next.next)
    | _ => pure (none, some (← s.fullTag t), s.next)
  | _ => pure (none, none, s)

/-- A new node, and its place. Its anchor may not be taken. -/
def place (s : Source) (anchor : Option String) (node : Node) : Except Failure (Nat × Source) :=
  let place := s.nodes.size
  match anchor with
  | none => .ok (place, { s with nodes := s.nodes.push node })
  | some a =>
    if s.anchors.any (·.1 == a) then .error .malformed
    else .ok (place, { s with nodes := s.nodes.push node, anchors := (a, place) :: s.anchors })

/-- The source after the comma that parts items in brackets. -/
def afterComma (s : Source) : Except Failure Source := do
  if ← s.sees [.flowEntry] then pure s.next else throw .malformed

/-- A new collection without content, and its place. -/
def enter (s : Source) (anchor : Option String) (node : Node) : Except Failure (Nat × Source) := do
  let (place, s) ← s.place anchor node
  if maxDepth ≤ s.depth then throw .tooDeep
  pure (place, { s with depth := s.depth + 1 })

/-- The source after a collection, which has its content now. -/
def leave (s : Source) (place : Nat) (content : Content) : Source :=
  { s with
    nodes := s.nodes.modify place fun node => { node with content }
    depth := s.depth - 1 }

/-- A sequence: its node has a place before its items are read. -/
def sequence (s : Source) (anchor tag : Option String)
    (items : Source → Except Failure (List Nat × Source)) : Except Failure (Nat × Source) := do
  let (place, s) ← s.enter anchor ⟨collectionTag tag "seq", .sequence []⟩
  let (found, s) ← items s
  pure (place, s.leave place (.sequence found))

/-- A mapping: its node has a place before its entries are read. -/
def mapping (s : Source) (anchor tag : Option String)
    (entries : Source → Except Failure (List (Nat × Nat) × Source)) :
    Except Failure (Nat × Source) := do
  let (place, s) ← s.enter anchor ⟨collectionTag tag "map", .mapping []⟩
  let (found, s) ← entries s
  pure (place, s.leave place (.mapping found))

def scalar (s : Source) (anchor tag : Option String) (plain : Bool) (text : String) :
    Except Failure (Nat × Source) :=
  s.place anchor ⟨scalarTag tag plain text, .scalar text⟩

/-- An empty scalar, which only an anchor or a tag can announce. -/
def announced (s : Source) (anchor tag : Option String) : Except Failure (Nat × Source) :=
  if anchor.isSome || tag.isSome then s.scalar anchor tag true "" else .error .malformed

mutual

/-- A node. In a block it may be a block collection, and after a key also a sequence that is not
indented. -/
def node (fuel : Nat) (block unindented : Bool) (s : Source) : Except Failure (Nat × Source) :=
  match fuel with
  | 0 => .error .malformed
  | n + 1 => do
    match ← s.peek with
    | some (.alias a) =>
      match s.anchors.find? (·.1 == a) with
      | some (_, place) => pure (place, s.next)
      | none => throw .malformed
    | _ =>
      let (anchor, tag, s) ← s.properties
      match ← s.peek with
      | some .blockEntry =>
        if unindented then s.sequence anchor tag (unindentedItems n) else s.announced anchor tag
      | some (.scalar text plain) => s.next.scalar anchor tag plain text
      | some .flowSequenceStart => s.next.sequence anchor tag (flowItems n true)
      | some .flowMappingStart => s.next.mapping anchor tag (flowEntries n true)
      | some .blockSequenceStart =>
        if block then s.next.sequence anchor tag (blockItems n) else s.announced anchor tag
      | some .blockMappingStart =>
        if block then s.next.mapping anchor tag (blockEntries n) else s.announced anchor tag
      | _ => s.announced anchor tag

/-- A node, unless one of the given tokens shows that nothing is written. -/
def nodeUnless (fuel : Nat) (stops : List Token) (block unindented : Bool) (s : Source) :
    Except Failure (Nat × Source) :=
  match fuel with
  | 0 => .error .malformed
  | n + 1 => do
    if ← s.sees stops then s.place none .nothing else node n block unindented s

/-- The value of an entry, if its mark comes next; else nothing is written. -/
def valueUnless (fuel : Nat) (stops : List Token) (block : Bool) (s : Source) :
    Except Failure (Nat × Source) :=
  match fuel with
  | 0 => .error .malformed
  | n + 1 => do
    if ← s.sees [.value] then nodeUnless n stops block block s.next else s.place none .nothing

/-- The items of an indented sequence. -/
def blockItems (fuel : Nat) (s : Source) : Except Failure (List Nat × Source) :=
  match fuel with
  | 0 => .error .malformed
  | n + 1 => do
    match ← s.peek with
    | some .blockEntry =>
      let (v, s) ← nodeUnless n [.blockEntry, .blockEnd] true false s.next
      let (vs, s) ← blockItems n s
      pure (v :: vs, s)
    | some .blockEnd => pure ([], s.next)
    | _ => throw .malformed

/-- The items of a sequence that stands at the indentation of its key. -/
def unindentedItems (fuel : Nat) (s : Source) : Except Failure (List Nat × Source) :=
  match fuel with
  | 0 => .error .malformed
  | n + 1 => do
    match ← s.peek with
    | some .blockEntry =>
      let (v, s) ← nodeUnless n [.blockEntry, .key, .value, .blockEnd] true false s.next
      let (vs, s) ← unindentedItems n s
      pure (v :: vs, s)
    | _ => pure ([], s)

def blockEntries (fuel : Nat) (s : Source) : Except Failure (List (Nat × Nat) × Source) :=
  match fuel with
  | 0 => .error .malformed
  | n + 1 => do
    match ← s.peek with
    | some .key =>
      let stops := [.key, .value, .blockEnd]
      let (k, s) ← nodeUnless n stops true true s.next
      let (v, s) ← valueUnless n stops true s
      let (es, s) ← blockEntries n s
      pure ((k, v) :: es, s)
    | some .blockEnd => pure ([], s.next)
    | _ => throw .malformed

/-- The items of a sequence in brackets; a single entry of a mapping may be one. -/
def flowItems (fuel : Nat) (first : Bool) (s : Source) : Except Failure (List Nat × Source) :=
  match fuel with
  | 0 => .error .malformed
  | n + 1 => do
    if ← s.sees [.flowSequenceEnd] then pure ([], s.next)
    else
      let s ← if first then pure s else s.afterComma
      if ← s.sees [.key] then
        let (v, s) ← s.mapping none none (flowEntry n .flowSequenceEnd)
        let (vs, s) ← flowItems n false s
        pure (v :: vs, s)
      else if ← s.sees [.flowSequenceEnd] then pure ([], s.next)
      else
        let (v, s) ← node n false false s
        let (vs, s) ← flowItems n false s
        pure (v :: vs, s)

/-- One entry of a mapping in brackets, after the mark of its key. -/
def flowEntry (fuel : Nat) (ending : Token) (s : Source) :
    Except Failure (List (Nat × Nat) × Source) :=
  match fuel with
  | 0 => .error .malformed
  | n + 1 => do
    let (k, s) ← nodeUnless n [.value, .flowEntry, ending] false false s.next
    let (v, s) ← valueUnless n [.flowEntry, ending] false s
    pure ([(k, v)], s)

def flowEntries (fuel : Nat) (first : Bool) (s : Source) :
    Except Failure (List (Nat × Nat) × Source) :=
  match fuel with
  | 0 => .error .malformed
  | n + 1 => do
    if ← s.sees [.flowMappingEnd] then pure ([], s.next)
    else
      let s ← if first then pure s else s.afterComma
      if ← s.sees [.key] then
        let (e, s) ← flowEntry n .flowMappingEnd s
        let (es, s) ← flowEntries n false s
        pure (e ++ es, s)
      else if ← s.sees [.flowMappingEnd] then pure ([], s.next)
      else
        let (k, s) ← node n false false s
        let (v, s) ← s.place none .nothing
        let (es, s) ← flowEntries n false s
        pure ((k, v) :: es, s)

end

/-- The directives at the start of a document: at most one version, which must be a first one, and
no handle twice. -/
def directives (versionSeen : Bool) (handles : List (String × String)) :
    List Token → Except Failure (List (String × String) × List Token)
  | .versionDirective major :: rest =>
    if versionSeen || major != 1 then .error .malformed else directives true handles rest
  | .tagDirective handle leading :: rest =>
    if handles.any (·.1 == handle) then .error .malformed
    else directives versionSeen ((handle, leading) :: handles) rest
  | .otherDirective :: rest => directives versionSeen handles rest
  | rest => .ok (handles, rest)

def afterDirectives (s : Source) : Except Failure Source := do
  let (handles, tokens) ← directives false [] s.tokens
  pure { s with tokens, handles := handles ++ defaultHandles }

/-- The end of the only document: marks of its end may follow, and no further document. -/
def finish (s : Source) : Except Failure Unit := do
  let s : Source := { s with tokens := s.tokens.dropWhile (· == .documentEnd) }
  match ← s.peek with
  | none => pure ()
  | some _ =>
    let _ ← (← s.afterDirectives).peek
    throw .malformed

/-- The outermost node of a document after the mark of its start; nothing may be written there. -/
def contents (fuel : Nat) (s : Source) : Except Failure (Nat × Source) := do
  match ← s.peek with
  | some t =>
    if t.isBoundary || t == .documentEnd then s.place none .nothing
    else s.node fuel true false
  | none => s.place none .nothing

/-- The outermost node of a document. Directives ask for the mark of the document's start. -/
def document (fuel : Nat) (t : Token) (s : Source) : Except Failure (Nat × Source) := do
  if t.isBoundary then
    let s ← s.afterDirectives
    if ← s.sees [.documentStart] then s.next.contents fuel else throw .malformed
  else s.node fuel true false

end Source

/-- The nodes of the only document among the tokens; there may be no document at all. -/
def Graph.ofTokens (run : TokenRun) : Except Failure (Option Graph) := do
  let start : Source := ⟨run.tokens, run.stop, defaultHandles, [], #[], 0⟩
  match ← start.peek with
  | none => pure none
  | some t =>
    let (root, s) ← start.document (4 * run.tokens.length + 4) t
    s.finish
    pure (some ⟨s.nodes, root⟩)

end ThemedSheets.Yaml
