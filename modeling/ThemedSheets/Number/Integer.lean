import ThemedSheets.Text.Blank
import ThemedSheets.Text.Digit
/- Whole numbers read from text. Blanks around the number are passed over, a sign may come first,
   digits of every script count, and single underscores may part the digits. Decimal texts have at
   most 4300 digits in either direction, so that no short request can ask for endless work. -/
namespace ThemedSheets.Number
open ThemedSheets.Text

/-- The most digits that a whole number is read from or written with in base ten. -/
def maxDecimalDigits : Nat := 4300

/-- The blanks that may stand around a number: all but the information separators. -/
def isNumberBlank (c : Char) : Bool := isBlank c && !(0x1c ≤ c.toNat && c.toNat ≤ 0x1f)

/-- The text without the blanks that may stand around a number. -/
def trimNumber (cs : List Char) : List Char :=
  ((cs.dropWhile isNumberBlank).reverse.dropWhile isNumberBlank).reverse

def digitIn? (base : Nat) (c : Char) : Option Nat :=
  ((digitValue? c).or (hexDigit? c)).filter (· < base)

/-- Digits parted by single underscores, the first and the last being digits. -/
def groupedDigits? (base : Nat) : List Char → Option (List Nat)
  | [] => none
  | [c] => (digitIn? base c).map ([·])
  | c :: '_' :: cs => do
    let d ← digitIn? base c
    let ds ← groupedDigits? base cs
    pure (d :: ds)
  | c :: cs => do
    let d ← digitIn? base c
    let ds ← groupedDigits? base cs
    pure (d :: ds)

def ofDigits (base : Nat) (ds : List Nat) : Nat := ds.foldl (fun n d => n * base + d) 0

/-- The letter that may follow a leading zero to name the base. -/
def baseMark (base : Nat) (c : Char) : Bool :=
  (base == 16 && (c == 'x' || c == 'X')) || (base == 8 && (c == 'o' || c == 'O')) ||
    (base == 2 && (c == 'b' || c == 'B'))

/-- The text after a leading zero with the letter of its base; one underscore may follow. -/
def dropBaseMark (base : Nat) : List Char → List Char
  | '0' :: c :: cs =>
    if baseMark base c then (match cs with | '_' :: rest => rest | _ => cs) else '0' :: c :: cs
  | cs => cs

def takeSign : List Char → Bool × List Char
  | '-' :: cs => (true, cs)
  | '+' :: cs => (false, cs)
  | cs => (false, cs)

/-- The whole number that a text spells in a base. -/
def readInt? (base : Nat) (text : List Char) : Option Int := do
  let (negative, rest) := takeSign (trimNumber text)
  let ds ← groupedDigits? base (dropBaseMark base rest)
  if base = 10 ∧ maxDecimalDigits < ds.length then none
  else
    let n : Int := ofDigits base ds
    pure (if negative then -n else n)

/-- The decimal text of a whole number, unless it has too many digits. -/
def decimalText? (i : Int) : Option (List Char) :=
  let text := intText i
  if maxDecimalDigits < text.length - (if i < 0 then 1 else 0) then none else some text

example : readInt? 10 " +1_000 ".toList = some 1000 := by decide
example : readInt? 10 "1__0".toList = none := by decide
example : readInt? 16 "0x_1F".toList = some 31 := by decide

end ThemedSheets.Number
