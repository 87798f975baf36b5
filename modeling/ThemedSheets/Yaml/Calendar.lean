import ThemedSheets.Text.Digit
/- Dates and moments of the proleptic Gregorian calendar, years 1 to 9999, as documents spell them.
   A moment may carry its distance from universal time in minutes; two such moments are the same
   when they are the same instant. -/
namespace ThemedSheets.Yaml
open ThemedSheets.Text

structure Date where
  year : Nat
  month : Nat
  day : Nat
  deriving DecidableEq, Repr

/-- A time of a day, with its distance from universal time in minutes where it is known. -/
structure Moment where
  date : Date
  hour : Nat
  minute : Nat
  second : Nat
  micro : Nat
  offset : Option Int
  deriving DecidableEq, Repr

def isLeapYear (y : Nat) : Bool := y % 4 == 0 && (y % 100 != 0 || y % 400 == 0)

def daysInMonth (y m : Nat) : Nat :=
  if m = 2 then (if isLeapYear y then 29 else 28)
  else if m = 4 ∨ m = 6 ∨ m = 9 ∨ m = 11 then 30
  else 31

def Date.isValid (d : Date) : Bool :=
  1 ≤ d.year && d.year ≤ 9999 && 1 ≤ d.month && d.month ≤ 12 && 1 ≤ d.day &&
    d.day ≤ daysInMonth d.year d.month

/-- Whether a moment is on the clock: its distance from universal time is less than a day. -/
def Moment.isValid (m : Moment) : Bool :=
  m.date.isValid && m.hour < 24 && m.minute < 60 && m.second < 60 &&
    (match m.offset with
     | none => true
     | some o => -1440 < o && o < 1440)

/-- The days before a date since the first of January of year 1. -/
def Date.ordinal (d : Date) : Nat :=
  let y := d.year - 1
  y * 365 + y / 4 - y / 100 + y / 400
    + (List.range (d.month - 1)).foldl (fun days i => days + daysInMonth d.year (i + 1)) 0 + d.day

/-- The minutes of a moment in universal time, if its distance from it is known. -/
def Moment.universal? (m : Moment) : Option Int :=
  m.offset.map fun o => (m.date.ordinal * 1440 + m.hour * 60 + m.minute : Nat) - o

/-- Whether two moments are the same instant. -/
def Moment.same (a b : Moment) : Bool :=
  match a.universal?, b.universal? with
  | some x, some y => x == y && a.second == b.second && a.micro == b.micro
  | none, none => a == b
  | _, _ => false

/-- A date as `2001-12-14`. -/
def Date.text (d : Date) : List Char :=
  paddedDigits 10 4 d.year ++ '-' :: paddedDigits 10 2 d.month ++ '-' :: paddedDigits 10 2 d.day

/-- A distance from universal time as `+01:00`. -/
def offsetText (o : Int) : List Char :=
  (if o < 0 then '-' else '+') :: paddedDigits 10 2 (o.natAbs / 60)
    ++ ':' :: paddedDigits 10 2 (o.natAbs % 60)

/-- A moment as `2001-12-14 21:59:43.100000+01:00`; a fraction of zero is left out. -/
def Moment.text (m : Moment) : List Char :=
  m.date.text ++ ' ' :: paddedDigits 10 2 m.hour ++ ':' :: paddedDigits 10 2 m.minute
    ++ ':' :: paddedDigits 10 2 m.second
    ++ (if m.micro = 0 then [] else '.' :: paddedDigits 10 6 m.micro)
    ++ (m.offset.map offsetText).getD []

/-- Whole numbers as the arguments of a call. -/
def argumentsText (ns : List Nat) : List Char :=
  join [',', ' '] (ns.map (digitsOf 10))

def Date.shown (d : Date) : List Char :=
  "datetime.date(".toList ++ argumentsText [d.year, d.month, d.day] ++ [')']

/-- A distance from universal time as it is shown inside another value: in days and seconds, the
seconds never negative. -/
def offsetShown (o : Int) : List Char :=
  if o = 0 then "datetime.timezone.utc".toList
  else
    let arguments := if 0 ≤ o then "seconds=".toList ++ intText (o * 60)
      else "days=-1, seconds=".toList ++ intText (o * 60 + 86400)
    "datetime.timezone(datetime.timedelta(".toList ++ arguments ++ [')', ')']

/-- A moment as it is shown inside another value: seconds that are zero are left out unless a
fraction follows. -/
def Moment.shown (m : Moment) : List Char :=
  let clock := [m.date.year, m.date.month, m.date.day, m.hour, m.minute]
  let fields := if m.micro ≠ 0 then clock ++ [m.second, m.micro]
    else if m.second ≠ 0 then clock ++ [m.second] else clock
  "datetime.datetime(".toList ++ argumentsText fields
    ++ (match m.offset with
        | none => []
        | some o => ", tzinfo=".toList ++ offsetShown o)
    ++ [')']

end ThemedSheets.Yaml
