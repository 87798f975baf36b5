import ThemedSheets.Json.Basic
import ThemedSheets.Number.Integer
/- Reading JSON text. Beside the standard's grammar the words NaN, Infinity and -Infinity are
   numbers. Of two fields of one name the first gives the place and the last the value. The reading
   is a recursive descent whose fuel is bounded by the length of the text. -/
namespace ThemedSheets.Json
open ThemedSheets.Text ThemedSheets.Number

/-- Why a text is no JSON value. -/
inductive ReadError where
  | malformed
  | numberTooLong
  | tooDeep
  /-- A surrogate is escaped alone: it is no character. -/
  | halfCharacter
  deriving DecidableEq, Repr

/-- How many arrays and objects may stand inside each other: a bound of the reader, not of JSON. -/
def maxDepth : Nat := 990

def isJsonBlank (c : Char) : Bool := c == ' ' || c == '\t' || c == '\n' || c == '\r'

def skipBlanks (cs : List Char) : List Char := cs.dropWhile isJsonBlank

def hexUnit? (a b c d : Char) : Option Nat := do
  let a ← hexDigit? a
  let b ← hexDigit? b
  let c ← hexDigit? c
  let d ← hexDigit? d
  pure (((a * 16 + b) * 16 + c) * 16 + d)

/-- The character that a letter after a backslash stands for. -/
def escaped? (c : Char) : Option Char :=
  if c = '"' ∨ c = '\\' ∨ c = '/' then some c
  else if c = 'b' then some '\x08'
  else if c = 'f' then some '\x0c'
  else if c = 'n' then some '\n'
  else if c = 'r' then some '\r'
  else if c = 't' then some '\t'
  else none

/-- The units of a string up to its closing quote, and what follows the quote. -/
def stringUnits : List Char → Except ReadError (List Nat × List Char)
  | [] => .error .malformed
  | '"' :: rest => .ok ([], rest)
  | '\\' :: 'u' :: a :: b :: c :: d :: rest =>
    match hexUnit? a b c d with
    | none => .error .malformed
    | some u => (stringUnits rest).map fun (us, rest) => (u :: us, rest)
  | '\\' :: c :: rest =>
    match escaped? c with
    | none => .error .malformed
    | some e => (stringUnits rest).map fun (us, rest) => (e.toNat :: us, rest)
  | c :: rest =>
    if c.toNat < 0x20 ∨ c = '\\' then .error .malformed
    else (stringUnits rest).map fun (us, rest) => (c.toNat :: us, rest)

/-- The character that a unit is by itself. -/
def unitChar (u : Nat) : Except ReadError Char :=
  if 0xd800 ≤ u ∧ u < 0xe000 then .error .halfCharacter else .ok (Char.ofNat u)

/-- The characters of a row of units. A high and a low surrogate in sequence are one character. -/
def ofUnits : List Nat → Except ReadError (List Char)
  | [] => .ok []
  | [u] => (unitChar u).map ([·])
  | u :: v :: us =>
    if 0xd800 ≤ u ∧ u < 0xdc00 ∧ 0xdc00 ≤ v ∧ v < 0xe000 then
      (ofUnits us).map (Char.ofNat (0x10000 + (u - 0xd800) * 0x400 + (v - 0xdc00)) :: ·)
    else do
      let c ← unitChar u
      let cs ← ofUnits (v :: us)
      pure (c :: cs)

/-- A string whose opening quote has been read. -/
def string (cs : List Char) : Except ReadError (String × List Char) := do
  let (us, rest) ← stringUnits cs
  let text ← ofUnits us
  pure (String.ofList text, rest)

def takeDigits (cs : List Char) : List Char × List Char :=
  (cs.takeWhile Char.isDigit, cs.dropWhile Char.isDigit)

/-- The digits after a point, if a point with digits comes first. -/
def takeFraction (cs : List Char) : Option (List Char) × List Char :=
  match cs with
  | '.' :: rest =>
    let (ds, after) := takeDigits rest
    if ds.isEmpty then (none, cs) else (some ds, after)
  | _ => (none, cs)

/-- The exponent, if the letter e with digits comes first. -/
def takeExponent (cs : List Char) : Option Int × List Char :=
  match cs with
  | c :: rest =>
    if c = 'e' ∨ c = 'E' then
      let (negative, rest) := takeSign rest
      let (ds, after) := takeDigits rest
      if ds.isEmpty then (none, cs)
      else
        let n : Int := Binary64.decimalValue ds
        (some (if negative then -n else n), after)
    else (none, cs)
  | [] => (none, cs)

/-- A number without its minus: a whole number, unless a fraction or an exponent follows. -/
def unsignedNumber (negative : Bool) (cs : List Char) : Except ReadError (Json × List Char) :=
  let (ds, rest) := match cs with
    | '0' :: rest => (['0'], rest)
    | _ => takeDigits cs
  if ds.isEmpty then .error .malformed
  else
    let (fraction, rest) := takeFraction rest
    let (exponent, rest) := takeExponent rest
    match fraction, exponent with
    | none, none =>
      if maxDecimalDigits < ds.length then .error .numberTooLong
      else
        let n : Int := Binary64.decimalValue ds
        .ok (.int (if negative then -n else n), rest)
    | f, e =>
      let part := f.getD []
      .ok (.float (Binary64.ofDecimal negative (Binary64.decimalValue (ds ++ part))
        (e.getD 0 - part.length)), rest)

/-- The words that are values. -/
def words : List (String × Json) :=
  [("null", .null), ("true", .bool true), ("false", .bool false), ("NaN", .float .nan),
   ("Infinity", .float (.infinite false)), ("-Infinity", .float (.infinite true))]

def scalar (cs : List Char) : Except ReadError (Json × List Char) :=
  match words.findSome? fun (w, v) => (afterStart? w.toList cs).map (v, ·) with
  | some part => .ok part
  | none =>
    match cs with
    | '-' :: rest => unsignedNumber true rest
    | _ => unsignedNumber false cs

def fieldName (cs : List Char) : Except ReadError (String × List Char) :=
  match cs with
  | '"' :: rest => do
    let (name, rest) ← string rest
    match skipBlanks rest with
    | ':' :: rest => .ok (name, skipBlanks rest)
    | _ => .error .malformed
  | _ => .error .malformed

mutual

def value (fuel depth : Nat) (cs : List Char) : Except ReadError (Json × List Char) :=
  match fuel with
  | 0 => .error .malformed
  | n + 1 =>
    match cs with
    | '"' :: rest => (string rest).map fun (s, rest) => (.str s, rest)
    | '[' :: rest =>
      if maxDepth ≤ depth then .error .tooDeep
      else match skipBlanks rest with
        | ']' :: rest => .ok (.array [], rest)
        | rest => (items n (depth + 1) rest).map fun (vs, rest) => (.array vs, rest)
    | '{' :: rest =>
      if maxDepth ≤ depth then .error .tooDeep
      else match skipBlanks rest with
        | '}' :: rest => .ok (.object [], rest)
        | rest => (fields n (depth + 1) [] rest).map fun (fs, rest) => (.object fs, rest)
    | _ => scalar cs

/-- The items of an array up to the closing bracket. -/
def items (fuel depth : Nat) (cs : List Char) : Except ReadError (List Json × List Char) :=
  match fuel with
  | 0 => .error .malformed
  | n + 1 => do
    let (v, rest) ← value n depth cs
    match skipBlanks rest with
    | ']' :: rest => .ok ([v], rest)
    | ',' :: rest => (items n depth (skipBlanks rest)).map fun (vs, rest) => (v :: vs, rest)
    | _ => .error .malformed

/-- The fields of an object up to the closing brace, added to those before them. -/
def fields (fuel depth : Nat) (before : Fields Json) (cs : List Char) :
    Except ReadError (Fields Json × List Char) :=
  match fuel with
  | 0 => .error .malformed
  | n + 1 => do
    let (name, rest) ← fieldName cs
    let (v, rest) ← value n depth rest
    match skipBlanks rest with
    | '}' :: rest => .ok (before.put name v, rest)
    | ',' :: rest => fields n depth (before.put name v) (skipBlanks rest)
    | _ => .error .malformed

end

/-- The value that a text spells: blanks may stand around it, and nothing else may. -/
def read (text : String) : Except ReadError Json := do
  let (v, rest) ← value (2 * text.length + 2) 0 (skipBlanks text.toList)
  if (skipBlanks rest).isEmpty then pure v else throw .malformed

end ThemedSheets.Json
