import ThemedSheets.Fault
import ThemedSheets.Json.Reader
import ThemedSheets.Json.Printer
import ThemedSheets.Text.CaseMap
import ThemedSheets.Yaml.Value
/- Source maps as records of fields. A source is a URL or a path of one of four kinds; only those
   that are relative paths depend on where the map stands. `normalize` makes these absolute below a
   root and drops what tells where the map came from, so that a second pass finds nothing to do. -/
namespace ThemedSheets.SourceMap
open ThemedSheets.Text ThemedSheets.Path

/-! ## Kinds of sources -/

/-- What a source is relative to. -/
inductive Kind where
  | schemeRelative | pathAbsolute | absolute | pathRelative
  deriving DecidableEq, Repr

def Kind.name : Kind → String
  | .schemeRelative => "scheme-relative"
  | .pathAbsolute => "path-absolute"
  | .absolute => "absolute"
  | .pathRelative => "path-relative"

/-- Whether a character is a drive letter: a letter of ASCII, or one that differs from such a
letter in case only. -/
def isDriveLetter (c : Char) : Bool := "abcdefghijklmnopqrstuvwxyz".toList.any (sameLetter · c)

/-- Whether a character may stand in the name of a scheme. -/
def isSchemeChar (c : Char) : Bool := c.isAlphanum || c == '+' || c == '-' || c == '.'

/-- Whether a source is an absolute path with a drive or a server. -/
def startsAtDrive : List Char → Bool
  | '\\' :: '\\' :: _ => true
  | d :: ':' :: s :: _ => isDriveLetter d && (s == '/' || s == '\\')
  | _ => false

/-- Whether a source begins with a scheme and a colon. -/
def startsWithScheme (cs : List Char) : Bool :=
  match cs.takeWhile isSchemeChar, cs.dropWhile isSchemeChar with
  | _ :: _, ':' :: _ => true
  | _, _ => false

def kindOfText (cs : List Char) : Kind :=
  if ['/', '/'].isPrefixOf cs then .schemeRelative
  else if isAbsoluteText cs || startsAtDrive cs then .pathAbsolute
  else if startsWithScheme cs then .absolute
  else .pathRelative

def kindOf (source : String) : Kind := kindOfText source.toList

/-! ## Fields -/

/-- The row of sources that a value holds: the items of a list, the characters of a text, the
names of a record. -/
def items : Json → Except SourceMapFault (List Json)
  | .array vs => .ok vs
  | .str s => .ok (s.toList.map fun c => .str (String.singleton c))
  | .object fields => .ok (fields.map fun f => .str f.1)
  | _ => .error .sourcesNotRow

def sourceItems (fields : Fields Json) : Except SourceMapFault (List Json) :=
  match fields.get? "sources" with
  | some v => items v
  | none => .ok []

def readValue (text : String) : Except SourceMapFault Json :=
  match Json.read text with
  | .ok v => .ok v
  | .error .malformed => .error .unreadable
  | .error .numberTooLong => .error .numberTooLong
  | .error .tooDeep => .error .tooDeep
  | .error .halfCharacter => .error .halfCharacter

/-! ## Normal form -/

/-- A source made absolute below a root if it is a relative path. -/
def placeSource (root source : String) : String :=
  match kindOf source with
  | .pathRelative => Path.normalize (joined root source)
  | _ => source

def placeSources (root : String) : List Json → Except SourceMapFault (List Json)
  | [] => .ok []
  | .str s :: rest => (placeSources root rest).map (.str (placeSource root s) :: ·)
  | _ :: _ => .error .sourceNotText

/-- The normal form of a map's fields: no file, an empty source root, and no relative source. -/
def normalizeFields (root : String) (fields : Fields Json) :
    Except SourceMapFault (Fields Json) := do
  let fields := (fields.erase "file").put "sourceRoot" (.str "")
  let sources ← placeSources root (← sourceItems fields)
  pure (fields.put "sources" (.array sources))

/-! ## Maps from texts and values -/

def fieldsOfText (text : String) : Except SourceMapFault (Fields Json) := do
  match ← readValue text with
  | .object fields => pure fields
  | .array _ => throw .noRecord
  | _ => throw .noFields

/-- The two members of an entry of a list of pairs, which is told by its place. -/
def pairOf (place : Nat) (v : Json) : Except SourceMapFault (Json × Json) :=
  match items v with
  | .ok [a, b] => .ok (a, b)
  | .ok members => .error (.noPair place members.length)
  | .error _ => .error .noRecord

/-- The name under which a key is written; collections are no keys. -/
def keyName? : Json → Option String
  | .str s => some s
  | .array _ | .object _ => none
  | v => some v.render

/-- Whether two keys are one. Numbers are if they are equal, and so is what is no number. -/
def sameKey : Json → Json → Bool
  | .float .nan, .float .nan => true
  | a, b => (Yaml.Value.ofJson a).shape.sameKey (Yaml.Value.ofJson b).shape

/-- The entries with one set: in its place if the key is there, else at the end. -/
def putEntry (key : Json) (name : String) (value : Json) :
    List (Json × String × Json) → List (Json × String × Json)
  | [] => [(key, name, value)]
  | (k, n, v) :: rest =>
    if sameKey k key then (k, n, value) :: rest else (k, n, v) :: putEntry key name value rest

/-- The entries of a list of pairs, of which `place` came before. Of two entries of one key the
first gives the place and the last the value. -/
def entriesOf (place : Nat) (entries : List (Json × String × Json)) :
    List Json → Except SourceMapFault (List (Json × String × Json))
  | [] => .ok entries
  | v :: rest => do
    let (key, value) ← pairOf place v
    match keyName? key with
    | none => throw .noRecord
    | some name => entriesOf (place + 1) (putEntry key name value entries) rest

/-- The fields of a map that is given as a value: a record, or a list of pairs. -/
def fieldsOfValue : Json → Except SourceMapFault (Fields Json)
  | .object fields => .ok fields
  | .array vs => (entriesOf 0 [] vs).map fun entries => entries.map (·.2)
  | _ => .error .noRecord

/-- The normal form of a map. A text stands for the value that it spells. -/
def normalize (root : Path) : Json → Except SourceMapFault (Fields Json)
  | .str text => do normalizeFields root.toString (← fieldsOfText text)
  | v => do normalizeFields root.toString (← fieldsOfValue v)

example : kindOf "webpack://pkg/x.scss" = .absolute := by decide +kernel
example : kindOf "C:\\x" = .pathAbsolute := by decide +kernel
example : kindOf "x/y:z" = .pathRelative := by decide +kernel

end ThemedSheets.SourceMap
