import ThemedSheets.Text.Digit
import ThemedSheets.Text.Printable
/- Quoted texts as messages show them: single quotes, unless the text holds a single quote and no
   double one; inside, the quote and the backslash are escaped, and so is every character that is
   not shown as it is. -/
namespace ThemedSheets.Text

/-- The quote a text is written in. -/
def quoteFor (cs : List Char) : Char :=
  if cs.contains '\'' && !cs.contains '"' then '"' else '\''

/-- A code point as the shortest of the three hexadecimal escapes that holds it. -/
def hexEscape (n : Nat) : List Char :=
  if n < 0x100 then '\\' :: 'x' :: paddedDigits 16 2 n
  else if n < 0x10000 then '\\' :: 'u' :: paddedDigits 16 4 n
  else '\\' :: 'U' :: paddedDigits 16 8 n

/-- One character inside a quoted text. -/
def quoteChar (shown : Char → Bool) (quote c : Char) : List Char :=
  if c = quote || c = '\\' then ['\\', c]
  else if c = '\n' then ['\\', 'n']
  else if c = '\r' then ['\\', 'r']
  else if c = '\t' then ['\\', 't']
  else if shown c then [c]
  else hexEscape c.toNat

def quoted (cs : List Char) : List Char :=
  let quote := quoteFor cs
  quote :: cs.flatMap (quoteChar isPrintable quote) ++ [quote]

def quotedBytes (bytes : List UInt8) : List Char :=
  let cs := bytes.map fun b => Char.ofNat b.toNat
  let quote := quoteFor cs
  'b' :: quote :: cs.flatMap (quoteChar (fun c => ' ' ≤ c && c ≤ '~') quote) ++ [quote]

end ThemedSheets.Text
