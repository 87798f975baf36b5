import ThemedSheets.Yaml.Calendar
import ThemedSheets.Yaml.Cursor
import ThemedSheets.Number.Integer
import ThemedSheets.Number.Shortest
/- What plain scalars mean. The first form that a text fits decides its tag; a text that fits none
   is just text. Whole numbers may be binary, octal with a leading zero, hexadecimal or in base
   sixty, and underscores may stand between digits; a float needs a point. One line feed may follow
   a form at the very end of the text. -/
namespace ThemedSheets.Yaml
open ThemedSheets.Text ThemedSheets.Number

/-- The start of the tags of the language's own types. -/
def coreTag (name : String) : String := "tag:yaml.org,2002:" ++ name

/-! ## Forms -/

/-- Whether a text is one or more of the given characters. -/
def isRunOf (p : Char → Bool) (cs : List Char) : Bool := !cs.isEmpty && cs.all p

def oneOf (chars : String) (c : Char) : Bool := chars.toList.contains c

/-- A text without one sign at its start. -/
def dropSign (cs : List Char) : List Char := (takeSign cs).2

/-- Whether a text is a digit of the given ones and then digits or underscores. -/
def isDigitRun (first : String) (cs : List Char) : Bool :=
  match cs with
  | c :: rest => oneOf first c && rest.all (oneOf "0123456789_")
  | [] => false

def isSixtieth (cs : List Char) : Bool :=
  match cs with
  | [a] => a.isDigit
  | [a, b] => oneOf "012345" a && b.isDigit
  | _ => false

def isWholeForm (text : List Char) : Bool :=
  let cs := dropSign text
  match cs with
  | '0' :: 'b' :: ds => isRunOf (oneOf "01_") ds
  | '0' :: 'x' :: ds => isRunOf (fun c => (hexDigit? c).isSome || c == '_') ds
  | ['0'] => true
  | '0' :: ds => isRunOf (oneOf "01234567_") ds
  | _ =>
    match split ':' cs with
    | [ds] => isDigitRun "123456789" ds
    | ds :: parts => isDigitRun "123456789" ds && parts.all isSixtieth
    | [] => false

/-- Whether a text is nothing or an exponent with a sign. -/
def isExponent (cs : List Char) : Bool :=
  match cs with
  | [] => true
  | e :: s :: ds => oneOf "eE" e && oneOf "+-" s && isRunOf Char.isDigit ds
  | _ => false

/-- Whether a text is digits with one point behind or among them, and maybe an exponent. -/
def isPointForm (cs : List Char) : Bool :=
  isDigitRun "0123456789" (cs.takeWhile (· != '.')) &&
    (match cs.dropWhile (· != '.') with
     | '.' :: rest => isExponent (rest.dropWhile (oneOf "0123456789_"))
     | _ => false)

/-- Whether a text is a number in base sixty with a point in its last part. -/
def isSixtiesForm (cs : List Char) : Bool :=
  match split ':' cs with
  | ds :: part :: parts =>
    match Text.unsnoc? (part :: parts) with
    | some (middle, last) =>
      isDigitRun "0123456789" ds && middle.all isSixtieth &&
        isSixtieth (last.takeWhile (· != '.')) &&
        (match last.dropWhile (· != '.') with
         | '.' :: rest => rest.all (oneOf "0123456789_")
         | _ => false)
    | none => false
  | _ => false

/-- Whether a text is a number with a point, or a word for infinity or for no number. -/
def isFloatForm (text : List Char) : Bool :=
  let cs := dropSign text
  isPointForm cs || isSixtiesForm cs ||
    [".inf", ".Inf", ".INF"].contains (String.ofList cs) ||
    [".nan", ".NaN", ".NAN"].contains (String.ofList text) ||
    (match text with
     | '.' :: rest =>
       isDigitRun "0123456789" (rest.takeWhile (oneOf "0123456789_")) &&
         isExponent (rest.dropWhile (oneOf "0123456789_"))
     | _ => false)

/-- The parts of a moment as they are written. -/
structure MomentForm where
  year : List Char
  month : List Char
  day : List Char
  clock : Option (List Char × List Char × List Char)
  fraction : List Char
  zone : Option (Char × List Char × List Char)

/-- Some digits, at least one and at most so many, and what follows them. -/
def takeDigits? (least most : Nat) (cs : List Char) : Option (List Char × List Char) :=
  let ds := (cs.takeWhile Char.isDigit).take most
  if ds.length < least then none else some (ds, cs.drop ds.length)

/-- The zone that ends a moment: nothing, the letter Z, or a distance with a sign. -/
def zone? (cs : List Char) : Option (Option (Char × List Char × List Char)) :=
  match cs.dropWhile (oneOf " \t") with
  | [] => if cs.isEmpty then some none else none
  | ['Z'] => some (some ('Z', [], []))
  | s :: rest =>
    if oneOf "+-" s then do
      let (hours, rest) ← takeDigits? 1 2 rest
      match rest with
      | [] => some (some (s, hours, []))
      | ':' :: rest =>
        let (minutes, rest) ← takeDigits? 2 2 rest
        if rest.isEmpty then some (some (s, hours, minutes)) else none
      | _ => none
    else none

/-- The time of day of a moment, its fraction and its zone. -/
def clock? (date : MomentForm) (cs : List Char) : Option MomentForm := do
  let (hour, rest) ← takeDigits? 1 2 cs
  let rest ← afterStart? [':'] rest
  let (minute, rest) ← takeDigits? 2 2 rest
  let rest ← afterStart? [':'] rest
  let (second, rest) ← takeDigits? 2 2 rest
  let (fraction, rest) := match rest with
    | '.' :: after => (after.takeWhile Char.isDigit, after.dropWhile Char.isDigit)
    | _ => ([], rest)
  let zone ← zone? rest
  pure { date with clock := some (hour, minute, second), fraction, zone }

/-- The parts of a date or a moment. -/
def momentForm? (cs : List Char) : Option MomentForm := do
  let (year, rest) ← takeDigits? 4 4 cs
  let rest ← afterStart? ['-'] rest
  let (month, rest) ← takeDigits? 1 2 rest
  let rest ← afterStart? ['-'] rest
  let (day, rest) ← takeDigits? 1 2 rest
  let date : MomentForm := ⟨year, month, day, none, [], none⟩
  match rest with
  | [] => some date
  | c :: after =>
    if c = 'T' ∨ c = 't' then clock? date after
    else if oneOf " \t" c then clock? date (after.dropWhile (oneOf " \t"))
    else none

/-- Whether a plain text is a date or a moment: a date alone has two digits in month and day. -/
def isMomentForm (cs : List Char) : Bool :=
  match momentForm? cs with
  | none => false
  | some form => form.clock.isSome || (form.month.length == 2 && form.day.length == 2)

def truthWords : List String :=
  ["yes", "Yes", "YES", "no", "No", "NO", "true", "True", "TRUE", "false", "False", "FALSE",
   "on", "On", "ON", "off", "Off", "OFF"]

def nullWords : List String := ["~", "null", "Null", "NULL", ""]

/-- The marks of the language itself, for which there is no value. -/
def markWords : List String := ["!", "&", "*"]

/-- A text without the line feed that ends it; a line feed alone stays. -/
def dropFinalBreak (cs : List Char) : List Char :=
  match cs.reverse with
  | '\n' :: c :: rest => (c :: rest).reverse
  | _ => cs

/-- The tag of the form that a text has. -/
def formTag (cs : List Char) : String :=
  let text := String.ofList cs
  if truthWords.contains text then coreTag "bool"
  else if isFloatForm cs then coreTag "float"
  else if isWholeForm cs then coreTag "int"
  else if text = "<<" then coreTag "merge"
  else if nullWords.contains text then coreTag "null"
  else if isMomentForm cs then coreTag "timestamp"
  else if text = "=" then coreTag "value"
  else if markWords.contains text then coreTag "yaml"
  else coreTag "str"

def plainTag (text : String) : String := formTag (dropFinalBreak text.toList)

/-! ## Values -/

/-- Whole parts in base sixty, the last one counting single. -/
def sixties (parts : List Int) : Int := parts.foldl (fun n p => n * 60 + p) 0

def wholeValue (text : String) : Except Failure Int := do
  let cs := text.toList.filter (· != '_')
  if cs.isEmpty then throw .emptyNumber
  let (negative, cs) := takeSign cs
  let n ← match cs with
    | ['0'] => pure 0
    | '0' :: 'b' :: ds => orNone (readInt? 2 ds)
    | '0' :: 'x' :: ds => orNone (readInt? 16 ds)
    | '0' :: _ => orNone (readInt? 8 cs)
    | [] => throw .emptyNumber
    | _ =>
      if cs.contains ':' then (orNone ((split ':' cs).mapM (readInt? 10))).map sixties
      else orNone (readInt? 10 cs)
  pure (if negative then -n else n)
where
  orNone {α : Type} : Option α → Except Failure α
    | some a => .ok a
    | none => .error .noSuchValue

/-- Parts in base sixty as a float, the last one counting single: the sum is formed from the last
part on, each step rounded. The weight of every part has to fit into a float. -/
def floatSixties (parts : List Binary64) : Except Failure Binary64 := do
  let (sum, _) ← parts.reverse.foldlM
    (fun (sum, weight) part => do
      match Binary64.ofInt weight with
      | .infinite _ => throw .tooLarge
      | w => pure (Binary64.add sum (Binary64.mul part w), weight * 60))
    (Binary64.zero false, (1 : Int))
  pure sum

/-- The float that a text spells, with blanks around it and a sign. -/
def readFloat? (cs : List Char) : Option Binary64 :=
  let (negative, rest) := takeSign (trimNumber cs)
  Binary64.readUnsigned? negative rest

/-- A float's sign and the text behind it, in small letters and without the underscores. -/
def floatParts (text : String) : Bool × List Char :=
  takeSign (lowerAscii (text.toList.filter (· != '_')))

def isNoNumber (text : String) : Bool := (floatParts text).2 == ".nan".toList

def floatValue (text : String) : Except Failure Binary64 := do
  if text.toList.all (· == '_') then throw .emptyNumber
  let (negative, cs) := floatParts text
  let signed (x : Binary64) := if negative then x.neg else x
  if cs = ".inf".toList then pure (.infinite negative)
  else if isNoNumber text then pure .nan
  else if cs.contains ':' then
    match (split ':' cs).mapM readFloat? with
    | some parts => (floatSixties parts).map signed
    | none => throw .noSuchValue
  else match readFloat? cs with
    | some x => pure (signed x)
    | none => throw .noSuchValue

/-- The truth value that a word stands for. -/
def truthValue (text : String) : Except Failure Bool :=
  let word := String.ofList (lowerAscii text.toList)
  if ["yes", "true", "on"].contains word then .ok true
  else if ["no", "false", "off"].contains word then .ok false
  else .error .unknownTruth

def digitsValue (ds : List Char) : Nat := Binary64.decimalValue ds

/-- The date or the moment that a scalar stands for. -/
def momentValue (text : String) : Except Failure (Date ⊕ Moment) :=
  match momentForm? (dropFinalBreak text.toList) with
  | none => .error .notAMoment
  | some form =>
    let date : Date := ⟨digitsValue form.year, digitsValue form.month, digitsValue form.day⟩
    match form.clock with
    | none => if date.isValid then .ok (.inl date) else .error .noSuchValue
    | some (hour, minute, second) =>
      let micro := digitsValue ((form.fraction ++ List.replicate 6 '0').take 6)
      let offset : Option Int := form.zone.map fun (s, hours, minutes) =>
        let o : Int := digitsValue hours * 60 + digitsValue minutes
        if s = '-' then -o else o
      let m : Moment :=
        ⟨date, digitsValue hour, digitsValue minute, digitsValue second, micro, offset⟩
      if m.isValid then .ok (.inr m) else .error .noSuchValue

def base64Digit? (c : Char) : Option Nat :=
  if 'A' ≤ c ∧ c ≤ 'Z' then some (c.toNat - 'A'.toNat)
  else if 'a' ≤ c ∧ c ≤ 'z' then some (c.toNat - 'a'.toNat + 26)
  else if '0' ≤ c ∧ c ≤ '9' then some (c.toNat - '0'.toNat + 52)
  else if c = '+' then some 62
  else if c = '/' then some 63
  else none

/-- The bytes of a base 64 text, of which `place` letters of a group of four are read and leave
`left` over. Characters of another kind are passed over, and a filled group ends the text. -/
def base64Bytes (place left filled : Nat) : List Char → Option (List UInt8)
  | [] => if place = 0 then some [] else none
  | c :: cs =>
    if c = '=' then
      if 2 ≤ place ∧ 4 ≤ place + filled + 1 then some []
      else base64Bytes place left (if 2 ≤ place then filled + 1 else filled) cs
    else match base64Digit? c with
      | none => base64Bytes place left filled cs
      | some d =>
        match place with
        | 0 => base64Bytes 1 d 0 cs
        | 1 => (base64Bytes 2 (d % 16) 0 cs).map (((left * 4 + d / 16).toUInt8) :: ·)
        | 2 => (base64Bytes 3 (d % 4) 0 cs).map (((left * 16 + d / 4).toUInt8) :: ·)
        | _ => (base64Bytes 0 0 0 cs).map (((left * 64 + d).toUInt8) :: ·)

def binaryValue (text : String) : Except Failure (List UInt8) :=
  let cs := text.toList
  if cs.all (·.toNat < 0x80) then
    match base64Bytes 0 0 0 cs with
    | some bytes => .ok bytes
    | none => .error .malformed
  else .error .malformed

example : plainTag "0b1_0" = coreTag "int" := by decide +kernel
example : plainTag "08" = coreTag "str" := by decide +kernel
example : plainTag "1e3" = coreTag "str" := by decide +kernel
example : plainTag "yes\n" = coreTag "bool" := by decide +kernel
example : plainTag "\n" = coreTag "str" := by decide +kernel
example : plainTag "2001-12-14t21:59:43.10-05:00" = coreTag "timestamp" := by decide +kernel

end ThemedSheets.Yaml
