import ThemedSheets.Json.Basic
/- JSON text. The text is ASCII: any other character is escaped by its UTF-16 units. A comma and a
   colon are each followed by one space, and fields keep their order. -/
namespace ThemedSheets.Json
open ThemedSheets.Text ThemedSheets.Number

/-- The UTF-16 units of a code point. -/
def utf16Units (n : Nat) : List Nat :=
  if n < 0x10000 then [n]
  else [0xd800 + (n - 0x10000) / 0x400, 0xdc00 + (n - 0x10000) % 0x400]

def escapeChar (c : Char) : List Char :=
  if c = '"' then ['\\', '"']
  else if c = '\\' then ['\\', '\\']
  else if c = '\n' then ['\\', 'n']
  else if c = '\r' then ['\\', 'r']
  else if c = '\t' then ['\\', 't']
  else if c = '\x0c' then ['\\', 'f']
  else if c = '\x08' then ['\\', 'b']
  else if ' ' ≤ c ∧ c ≤ '~' then [c]
  else (utf16Units c.toNat).flatMap fun u => '\\' :: 'u' :: paddedDigits 16 4 u

def stringText (s : String) : List Char := '"' :: s.toList.flatMap escapeChar ++ ['"']

/-- The words for the numbers that have no digits, as JSON text spells them. -/
def jsonWords : Binary64.Words := ⟨"NaN", "Infinity"⟩

mutual

def text : Json → List Char
  | .null => "null".toList
  | .bool true => "true".toList
  | .bool false => "false".toList
  | .int i => intText i
  | .float x => x.text jsonWords
  | .str s => stringText s
  | .array [] => ['[', ']']
  | .array (v :: vs) => '[' :: text v ++ itemsText vs
  | .object [] => ['{', '}']
  | .object ((k, v) :: fs) => '{' :: stringText k ++ ':' :: ' ' :: text v ++ fieldsText fs

/-- The items after the first one, with the closing bracket. -/
def itemsText : List Json → List Char
  | [] => [']']
  | v :: vs => ',' :: ' ' :: text v ++ itemsText vs

/-- The fields after the first one, with the closing brace. -/
def fieldsText : List (String × Json) → List Char
  | [] => ['}']
  | (k, v) :: fs => ',' :: ' ' :: stringText k ++ ':' :: ' ' :: text v ++ fieldsText fs

end

def render (v : Json) : String := String.ofList v.text

end ThemedSheets.Json
