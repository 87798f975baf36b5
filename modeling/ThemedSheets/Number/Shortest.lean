import ThemedSheets.Number.Binary64
/- The shortest decimal text of a floating-point number. Every finite number owns an interval of
   reals that read back as it. For 1, 2, … 17 digits the number has two neighbours on the decimal
   grid; the first grid with a neighbour inside the interval gives the digits, of two such
   neighbours the nearer, and the even one in a tie. All comparisons are between whole numbers. -/
namespace ThemedSheets.Number
open ThemedSheets.Text

namespace Binary64

/-- The power of ten at the first digit of the positive fraction `num / den`. -/
def leadingPower (num den : Nat) : Int :=
  if den ≤ num then ((digitsOf 10 (num / den)).length : Int) - 1
  else -((digitsOf 10 ((den - 1) / num)).length : Int)

/-- Four times the mantissa, and four times the two ends of the interval that reads back as it: the
ends are half a unit away, below a power of two a quarter. -/
def interval (m : Nat) (e : Int) : Nat × Nat × Nat :=
  (4 * m, 4 * m - (if m = Nat.pow 2 52 ∧ -1074 < e then 1 else 2), 4 * m + 2)

/-- Whether `c * 10 ^ k` reads back as `m * 2 ^ e`. The ends belong to an even mantissa. -/
def readsBack (m : Nat) (e : Int) (c : Nat) (k : Int) : Bool :=
  let (_, low, high) := interval m e
  let (unitNum, unitDen) :=
    if 0 ≤ e then (Nat.pow 2 e.toNat, 1) else (1, Nat.pow 2 (-e).toNat)
  let (gridNum, gridDen) :=
    if 0 ≤ k then (c * Nat.pow 10 k.toNat, 1) else (c, Nat.pow 10 (-k).toNat)
  let x := 4 * gridNum * unitDen
  let lo := low * unitNum * gridDen
  let hi := high * unitNum * gridDen
  if m % 2 = 0 then lo ≤ x && x ≤ hi else lo < x && x < hi

/-- The digits of the grid with `n` digits, if a neighbour of the number on it reads back: the
neighbour and its power of ten. -/
def onGrid? (m : Nat) (e : Int) (num den n : Nat) : Option (Nat × Int) :=
  let k := leadingPower num den - (n - 1)
  let (x, y) :=
    if 0 ≤ k then (num, den * Nat.pow 10 k.toNat) else (num * Nat.pow 10 (-k).toNat, den)
  let below := x / y
  let above := below + 1
  match readsBack m e below k, readsBack m e above k with
  | true, true => some (nearest x y, k)
  | true, false => some (below, k)
  | false, true => some (above, k)
  | false, false => none

/-- The shortest digits of `m * 2 ^ e`, as a whole number and a power of ten. -/
def shortest (m : Nat) (e : Int) : Nat × Int :=
  let (num, den) := if 0 ≤ e then (m * Nat.pow 2 e.toNat, 1) else (m, Nat.pow 2 (-e).toNat)
  ((List.range 17).findSome? fun i => onGrid? m e num den (i + 1)).getD (m, e)

/-- Digits without the zeros at their end; every zero dropped moves the power of ten. -/
def trimZeros (ds : List Char) : List Char := (ds.reverse.dropWhile (· == '0')).reverse

/-- Digits laid out as a decimal text, the point standing after `point` digits. Positional while
the number is at least a ten-thousandth and below `10 ^ 16`, else one digit before the point and an
exponent of at least two digits; a positional text has at least one digit on each side. -/
def layout (ds : List Char) (point : Int) : List Char :=
  if -4 < point ∧ point ≤ 16 then
    if point ≤ 0 then '0' :: '.' :: List.replicate (-point).toNat '0' ++ ds
    else
      let n := point.toNat
      if ds.length ≤ n then ds ++ List.replicate (n - ds.length) '0' ++ ['.', '0']
      else ds.take n ++ '.' :: ds.drop n
  else
    let exp := point - 1
    let body := match ds with
      | [d] => [d]
      | d :: rest => d :: '.' :: rest
      | [] => ['0']
    body ++ 'e' :: (if exp < 0 then '-' else '+') :: paddedDigits 10 2 exp.natAbs

/-- The spelling of the numbers that have no digits. -/
structure Words where
  nan : String
  infinity : String

def plainWords : Words := ⟨"nan", "inf"⟩

def text (words : Words) : Binary64 → List Char
  | .nan => words.nan.toList
  | .infinite negative => (if negative then ['-'] else []) ++ words.infinity.toList
  | .finite negative m e =>
    let sign := if negative then ['-'] else []
    if m = 0 then sign ++ "0.0".toList
    else
      let (c, k) := shortest m e
      let ds := trimZeros (digitsOf 10 c)
      sign ++ layout ds ((digitsOf 10 c).length + k)

end Binary64

end ThemedSheets.Number
