import ThemedSheets.Text.Basic
/- Blank characters, trimming and lines. A character is blank when Unicode gives it the property
   White_Space or when it is one of the four ASCII information separators; the set is the same for
   trimming, for the blanks of a pattern and for the digits of a number. -/
namespace ThemedSheets.Text

def blankRanges : List (Nat × Nat) :=
  [(0x09, 0x0d), (0x1c, 0x20), (0x85, 0x85), (0xa0, 0xa0), (0x1680, 0x1680), (0x2000, 0x200a),
   (0x2028, 0x2029), (0x202f, 0x202f), (0x205f, 0x205f), (0x3000, 0x3000)]

def isBlank (c : Char) : Bool := inRanges blankRanges c.toNat

def trimLeft (cs : List Char) : List Char := cs.dropWhile isBlank

def trimRight (cs : List Char) : List Char := (cs.reverse.dropWhile isBlank).reverse

def trim (cs : List Char) : List Char := trimRight (trimLeft cs)

/-- The characters that end a line of a message: the line feed and its relatives, among them the
vertical tab, the form feed, three of the information separators and the two separators of
Unicode. -/
def isLineEnd (c : Char) : Bool :=
  inRanges [(0x0a, 0x0d), (0x1c, 0x1e), (0x85, 0x85), (0x2028, 0x2029)] c.toNat

def firstLine (cs : List Char) : List Char := cs.takeWhile fun c => !isLineEnd c

/-- Carriage returns, alone or before a line feed, read as line feeds. -/
def unifyNewlines : List Char → List Char
  | [] => []
  | '\r' :: '\n' :: cs => '\n' :: unifyNewlines cs
  | c :: cs => (if c = '\r' then '\n' else c) :: unifyNewlines cs

end ThemedSheets.Text
