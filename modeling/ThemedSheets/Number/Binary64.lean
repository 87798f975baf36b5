import ThemedSheets.Text.Digit
/- Floating-point numbers of 64 bits as exact values. A finite number is a sign and a mantissa at a
   power of two; reading, adding and multiplying compute the exact rational and round it once, to
   the nearest number and in a tie to the even mantissa. Nothing here depends on the machine's own
   arithmetic, so every result can be computed in a proof. -/
namespace ThemedSheets.Number
open ThemedSheets.Text

/-- A number of the 64-bit format. A finite one is `mantissa * 2 ^ exponent`, where the mantissa is
below `2 ^ 53`, and below `2 ^ 52` only at the least exponent `-1074`. -/
inductive Binary64 where
  | nan
  | infinite (negative : Bool)
  | finite (negative : Bool) (mantissa : Nat) (exponent : Int)
  deriving DecidableEq, Repr

namespace Binary64

def zero (negative : Bool) : Binary64 := .finite negative 0 (-1074)

/-- The quotient `num / den` in units of `2 ^ e`, as a fraction. -/
def inUnits (num den : Nat) (e : Int) : Nat × Nat :=
  if 0 ≤ e then (num, den * Nat.pow 2 e.toNat) else (num * Nat.pow 2 (-e).toNat, den)

/-- The whole number nearest to a fraction; of two, the even one. -/
def nearest (num den : Nat) : Nat :=
  let q := num / den
  let r := num % den
  if 2 * r < den then q else if den < 2 * r then q + 1 else if q % 2 = 0 then q else q + 1

/-- The least exponent at which `num / den` has a mantissa below `2 ^ 53`, but `-1074` at least. -/
def exponentFor (num den : Nat) : Int :=
  let e : Int := max ((num.log2 : Int) - den.log2 - 53) (-1074)
  let (n, d) := inUnits num den e
  if n / d < Nat.pow 2 53 then e else e + 1

/-- The number nearest to the positive fraction `num / den`. -/
def ofRatio (negative : Bool) (num den : Nat) : Binary64 :=
  if num = 0 then zero negative
  else
    let e := exponentFor num den
    let (n, d) := inUnits num den e
    let m := nearest n d
    let (m, e) := if m = Nat.pow 2 53 then (Nat.pow 2 52, e + 1) else (m, e)
    if 971 < e then .infinite negative else .finite negative m e

/-- The number nearest to `digits * 10 ^ exp`. Texts far outside the range of the format are
decided by their length. -/
def ofDecimal (negative : Bool) (digits : Nat) (exp : Int) : Binary64 :=
  if digits = 0 then zero negative
  else
    let size : Int := (digitsOf 10 digits).length + exp
    if 310 < size then .infinite negative
    else if size < -330 then zero negative
    else if 0 ≤ exp then ofRatio negative (digits * Nat.pow 10 exp.toNat) 1
    else ofRatio negative digits (Nat.pow 10 (-exp).toNat)

/-- A finite number as a signed fraction with a power of two below. -/
def fraction (negative : Bool) (m : Nat) (e : Int) : Int × Nat :=
  let n : Int := if 0 ≤ e then m * Nat.pow 2 e.toNat else m
  (if negative then -n else n, if 0 ≤ e then 1 else Nat.pow 2 (-e).toNat)

/-- The number nearest to a signed fraction; `negativeZero` is the sign of a zero. -/
def ofFraction (num : Int) (den : Nat) (negativeZero : Bool) : Binary64 :=
  if num = 0 then zero negativeZero else ofRatio (num < 0) num.natAbs den

def ofInt (i : Int) : Binary64 := ofFraction i 1 false

/-- The sum, rounded once. -/
def add : Binary64 → Binary64 → Binary64
  | .nan, _ => .nan
  | _, .nan => .nan
  | .infinite a, .infinite b => if a = b then .infinite a else .nan
  | .infinite a, _ => .infinite a
  | _, .infinite b => .infinite b
  | .finite a m e, .finite b n f =>
    let (x, d) := fraction a m e
    let (y, g) := fraction b n f
    ofFraction (x * g + y * d) (d * g) (a && b)

/-- The product, rounded once. -/
def mul : Binary64 → Binary64 → Binary64
  | .nan, _ => .nan
  | _, .nan => .nan
  | .infinite a, .infinite b => .infinite (a != b)
  | .infinite a, .finite b n _ => if n = 0 then .nan else .infinite (a != b)
  | .finite a m _, .infinite b => if m = 0 then .nan else .infinite (a != b)
  | .finite a m e, .finite b n f =>
    let (x, d) := fraction a m e
    let (y, g) := fraction b n f
    ofFraction (x * y) (d * g) (a != b)

def neg : Binary64 → Binary64
  | .nan => .nan
  | .infinite a => .infinite (!a)
  | .finite a m e => .finite (!a) m e

/-- The whole number that the float is, if it is one. -/
def toInt? : Binary64 → Option Int
  | .finite a m e =>
    let (n, d) := fraction a m e
    if n % d = 0 then some (n / d) else none
  | _ => none

/-- Whether two numbers compare as equal: zeros of either sign do, and no NaN does. -/
def same : Binary64 → Binary64 → Bool
  | .finite a m e, .finite b n f => (m == 0 && n == 0) || (a == b && m == n && e == f)
  | .infinite a, .infinite b => a == b
  | _, _ => false

/-- The digits at the start of a text, and what follows them. -/
def takeDigits (cs : List Char) : List Char × List Char :=
  (cs.takeWhile fun c => (digitValue? c).isSome, cs.dropWhile fun c => (digitValue? c).isSome)

/-- The number written by decimal digits of any script. -/
def decimalValue (cs : List Char) : Nat :=
  cs.foldl (fun n c => n * 10 + (digitValue? c).getD 0) 0

/-- The exponent that ends a number: nothing, or the letter e, a sign and digits. -/
def readExponent? : List Char → Option Int
  | [] => some 0
  | c :: cs =>
    if c = 'e' || c = 'E' then
      let (negative, ds) := match cs with
        | '-' :: rest => (true, rest)
        | '+' :: rest => (false, rest)
        | rest => (false, rest)
      let (digits, rest) := takeDigits ds
      if digits.isEmpty || !rest.isEmpty then none
      else some (if negative then -(decimalValue digits : Int) else decimalValue digits)
    else none

/-- The number that a text without sign spells: digits with at most one point among them, an
exponent, or one of the words for infinity and for no number. -/
def readUnsigned? (negative : Bool) (cs : List Char) : Option Binary64 :=
  let word := String.ofList (lowerAscii cs)
  if word = "inf" || word = "infinity" then some (.infinite negative)
  else if word = "nan" then some .nan
  else
    let (whole, rest) := takeDigits cs
    let (part, rest) := match rest with
      | '.' :: after => takeDigits after
      | _ => ([], rest)
    if whole.isEmpty && part.isEmpty then none
    else (readExponent? rest).map fun exp =>
      ofDecimal negative (decimalValue (whole ++ part)) (exp - part.length)

example : readUnsigned? false "0.1".toList
    = some (.finite false 7205759403792794 (-56)) := by decide +kernel
example : ofDecimal false 1 999 = .infinite false := by decide +kernel

end Binary64

end ThemedSheets.Number
