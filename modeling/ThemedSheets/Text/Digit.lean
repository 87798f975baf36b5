import ThemedSheets.Text.Basic
/- Decimal digits of every script: Unicode lays them out in rows of ten, so the table holds the
   zeros only and a digit's value is its distance from the zero of its row. -/
namespace ThemedSheets.Text

/-- The zeros of the rows of decimal digits of Unicode 14. -/
def digitZeros : List Nat :=
  [0x30, 0x660, 0x6f0, 0x7c0, 0x966, 0x9e6, 0xa66, 0xae6, 0xb66, 0xbe6, 0xc66, 0xce6, 0xd66,
   0xde6, 0xe50, 0xed0, 0xf20, 0x1040, 0x1090, 0x17e0, 0x1810, 0x1946, 0x19d0, 0x1a80, 0x1a90,
   0x1b50, 0x1bb0, 0x1c40, 0x1c50, 0xa620, 0xa8d0, 0xa900, 0xa9d0, 0xa9f0, 0xaa50, 0xabf0,
   0xff10, 0x104a0, 0x10d30, 0x11066, 0x110f0, 0x11136, 0x111d0, 0x112f0, 0x11450, 0x114d0,
   0x11650, 0x116c0, 0x11730, 0x118e0, 0x11950, 0x11c50, 0x11d50, 0x11da0, 0x16a60, 0x16ac0,
   0x16b50, 0x1d7ce, 0x1d7d8, 0x1d7e2, 0x1d7ec, 0x1d7f6, 0x1e140, 0x1e2f0, 0x1e950, 0x1fbf0]

/-- The value of a decimal digit of any script. -/
def digitValue? (c : Char) : Option Nat :=
  (digitZeros.find? fun z => z ≤ c.toNat && c.toNat ≤ z + 9).map (c.toNat - ·)

def asciiDigit? (c : Char) : Option Nat :=
  if '0' ≤ c ∧ c ≤ '9' then some (c.toNat - '0'.toNat) else none

def hexDigit? (c : Char) : Option Nat :=
  if '0' ≤ c ∧ c ≤ '9' then some (c.toNat - '0'.toNat)
  else if 'a' ≤ c ∧ c ≤ 'f' then some (c.toNat - 'a'.toNat + 10)
  else if 'A' ≤ c ∧ c ≤ 'F' then some (c.toNat - 'A'.toNat + 10)
  else none

/-- The digits of a number in a base up to sixteen, most significant first. -/
def digitsOf (base n : Nat) : List Char := Nat.toDigits base n

def countText (n : Nat) : String := String.ofList (digitsOf 10 n)

/-- The digits of a number in a base, with zeros in front up to a width. -/
def paddedDigits (base width n : Nat) : List Char :=
  let ds := digitsOf base n
  List.replicate (width - ds.length) '0' ++ ds

def intText (i : Int) : List Char :=
  if i < 0 then '-' :: digitsOf 10 i.natAbs else digitsOf 10 i.natAbs

example : digitValue? '7' = some 7 := by decide
example : digitValue? '７' = some 7 := by decide
example : digitValue? '²' = none := by decide

end ThemedSheets.Text
