import ThemedSheets.Text.Blank
/- Bytes as text. UTF-8 is strict: an ill-formed sequence makes the whole text unreadable, and a
   byte order mark is kept as a character. -/
namespace ThemedSheets.Text

/-- The encodings a file may be read in. -/
inductive Encoding where
  | utf8 | latin1 | ascii
  deriving DecidableEq, Repr

/-- The text that the bytes stand for, if they stand for one. -/
def Encoding.decode? : Encoding → ByteArray → Option String
  | .utf8, bytes => String.fromUTF8? bytes
  | .latin1, bytes => some (String.ofList (bytes.toList.map fun b => Char.ofNat b.toNat))
  | .ascii, bytes =>
    if bytes.toList.all (· < 0x80) then
      some (String.ofList (bytes.toList.map fun b => Char.ofNat b.toNat))
    else none

end ThemedSheets.Text
