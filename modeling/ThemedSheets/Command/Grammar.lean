import ThemedSheets.Text.Basic
import ThemedSheets.Text.Quoted
/- Reading the words of a command line. A grammar has options and one operand. A long option may be
   cut short as long as it stays unambiguous, and may carry its value after an equals sign; short
   options may be written together, the last one with its value. All words after a double dash are
   operands. Words that nothing takes are kept, so that whoever reads the whole line can refuse them;
   of several faults the first one in the order of the words is told, an ambiguous option before all
   others. What is attached to a short option is read by one of two editions of the rules. -/
namespace ThemedSheets.Command
open ThemedSheets.Text

inductive Stop where
  /-- The help page is asked for. -/
  | help (page : String)
  /-- The line is no call of the program. -/
  | misuse (program usage message : String)
  deriving DecidableEq, Repr

/-- What an option needs beside its name. -/
inductive Need where
  | nothing
  | value
  | oneOf (choices : List String)
  | help
  deriving DecidableEq, Repr

/-- An option: what it stands for, its names, and what it needs. -/
structure Rule (κ : Type) where
  kind : κ
  names : List String
  need : Need

/-- The operand: one word, or a word of some choices with all the words after it. -/
structure Operand where
  name : String
  choices : Option (List String) := none

/-- The grammar of a command line. -/
structure Grammar (κ : Type) where
  program : String
  usage : String
  page : String
  rules : List (Rule κ)
  operand : Operand

/-- The editions of the rules for what is attached to options. -/
inductive Edition where
  /-- An attached double dash is no value, and all letters that are attached to an option that stands
  alone have to be options. -/
  | earlier
  /-- An attached double dash is a value. The letter of an option that stands alone has nothing after
  an equals sign attached to it, and that of one with a value may have its value there. From a letter
  on that is no option, nothing takes the word. -/
  | later
  deriving DecidableEq, Repr

/-- A text that is attached to the name of an option, after an equals sign or directly. -/
structure Attached where
  afterEquals : Bool
  text : List Char

/-- What a word is. -/
inductive Role (κ : Type) where
  | operand
  | separator
  | unknown
  | option (rule : Rule κ) (name : String) (attached : Option Attached)

/-- A word of a line and what it is. -/
structure Word (κ : Type) where
  text : String
  role : Role κ

def Word.isSeparator {κ : Type} (w : Word κ) : Bool :=
  match w.role with
  | .separator => true
  | _ => false

/-- Whether a text is a negative number. A line feed may follow it. -/
def isNegativeNumber (cs : List Char) : Bool :=
  match cs with
  | '-' :: rest =>
    let rest := if rest.getLast? = some '\n' then rest.dropLast else rest
    match rest.takeWhile isDigit, rest.dropWhile isDigit with
    | whole, [] => !whole.isEmpty
    | _, '.' :: part => !part.isEmpty && part.all isDigit
    | _, _ => false
  | _ => false
where
  isDigit (c : Char) : Bool := (digitValue? c).isSome

/-- A text cut at its first equals sign, if it has one. -/
def cutEquals? (cs : List Char) : Option (List Char × List Char) :=
  match cs.dropWhile (· != '=') with
  | [] => none
  | _ :: after => some (cs.takeWhile (· != '='), after)

namespace Grammar
variable {κ : Type}

/-! ## Faults -/

/-- A fault in the use of the program. -/
def misuse (g : Grammar κ) (message : String) : Stop := .misuse g.program g.usage message

/-- A fault in the use of an argument. -/
def argumentMisuse (g : Grammar κ) (name message : String) : Stop :=
  g.misuse ("argument " ++ name ++ ": " ++ message)

def optionMisuse (g : Grammar κ) (rule : Rule κ) (message : String) : Stop :=
  g.argumentMisuse (String.intercalate "/" rule.names) message

def quote (text : String) : String := String.ofList (quoted text.toList)

def invalidChoice (value : String) (choices : List String) : String :=
  "invalid choice: " ++ quote value ++ " (choose from "
    ++ String.intercalate ", " (choices.map quote) ++ ")"

/-! ## Words -/

def names (g : Grammar κ) : List (String × Rule κ) :=
  g.rules.flatMap fun rule => rule.names.map fun name => (name, rule)

def rule? (g : Grammar κ) (name : List Char) : Option (Rule κ) :=
  (g.names.find? (·.1.toList == name)).map (·.2)

/-- What a word with a double dash may be short for. -/
def longReadings (g : Grammar κ) (cs : List Char) : List (String × Role κ) :=
  let (start, attached) : List Char × Option Attached := match cutEquals? cs with
    | some (start, after) => (start, some ⟨true, after⟩)
    | none => (cs, none)
  (g.names.filter fun (name, _) => start.isPrefixOf name.toList).map fun (name, rule) =>
    (name, .option rule name attached)

/-- What a word with a single dash may be: a short option with what is attached to it, or a name
cut short. -/
def shortReadings (g : Grammar κ) (cs : List Char) : List (String × Role κ) :=
  g.names.filterMap fun (name, rule) =>
    if name.toList = cs.take 2 then some (name, .option rule name (some ⟨false, cs.drop 2⟩))
    else if cs.isPrefixOf name.toList then some (name, .option rule name none)
    else none

/-- The readings of a word that is no option as it stands. -/
def readings (g : Grammar κ) (cs : List Char) : List (String × Role κ) :=
  match cs with
  | '-' :: '-' :: _ => g.longReadings cs
  | _ => g.shortReadings cs

/-- The option that a word is, by its whole name or by what stands before its equals sign. -/
def named? (g : Grammar κ) (text : String) : Option (Role κ) :=
  match g.rule? text.toList with
  | some rule => some (.option rule text none)
  | none => do
    let (name, after) ← cutEquals? text.toList
    let rule ← g.rule? name
    pure (.option rule (String.ofList name) (some ⟨true, after⟩))

/-- What a word before the double dash is. -/
def classify (g : Grammar κ) (text : String) : Except Stop (Role κ) :=
  let cs := text.toList
  if cs.head? ≠ some '-' ∨ cs = ['-'] then .ok .operand
  else match g.named? text, g.readings cs with
    | some role, _ => .ok role
    | none, [(_, role)] => .ok role
    | none, [] => .ok (if isNegativeNumber cs || cs.contains ' ' then .operand else .unknown)
    | none, many => .error (g.misuse ("ambiguous option: " ++ text ++ " could match "
        ++ String.intercalate ", " (many.map (·.1))))

def classifyAll (g : Grammar κ) : List String → Except Stop (List (Word κ))
  | [] => .ok []
  | text :: rest =>
    if text = "--" then .ok (⟨text, .separator⟩ :: rest.map (⟨·, .operand⟩))
    else do
      let role ← g.classify text
      let words ← classifyAll g rest
      pure (⟨text, role⟩ :: words)

/-! ## Options and their values -/

/-- What one word comes to: options in order with their values, the words that are left, and what of
the word nothing takes. -/
structure Taken (κ : Type) where
  given : List (Rule κ × Option String)
  rest : List (Word κ)
  extras : List String := []

def standsAlone (rule : Rule κ) : Bool :=
  match rule.need with
  | .nothing | .help => true
  | _ => false

/-- An option without anything attached: its value is the next word. -/
def takeNext (g : Grammar κ) (rule : Rule κ) (rest : List (Word κ)) : Except Stop (Taken κ) :=
  if standsAlone rule then .ok { given := [(rule, none)], rest }
  else match rest with
    | ⟨value, .operand⟩ :: rest => .ok { given := [(rule, some value)], rest }
    | _ => .error (g.optionMisuse rule "expected one argument")

/-- The value that an attached text is. -/
def attachedValue : Edition → List Char → Option String
  | .earlier, ['-', '-'] => none
  | _, text => some (String.ofList text)

/-- The fault of a text that an option has no use for. -/
def ignored (g : Grammar κ) (rule : Rule κ) (text : List Char) : Stop :=
  g.optionMisuse rule ("ignored explicit argument " ++ quote (String.ofList text))

/-- A letter that is no option, with the letters after it, attached to an option that stands alone. -/
def takeUnknown (g : Grammar κ) (edition : Edition) (rule : Rule κ) (rest : List (Word κ))
    (text : List Char) : Except Stop (Taken κ) :=
  match edition with
  | .earlier => .error (g.ignored rule text)
  | .later => .ok { given := [(rule, none)], rest, extras := [String.ofList ('-' :: text)] }

/-- An option with a text attached: its value, or more short options. -/
def takeAttached (g : Grammar κ) (edition : Edition) (rule : Rule κ) (rest : List (Word κ))
    (afterEquals : Bool) (text : List Char) : Except Stop (Taken κ) :=
  if !standsAlone rule then .ok { given := [(rule, attachedValue edition text)], rest }
  else match text with
    | [] => .error (g.ignored rule text)
    | c :: cs =>
      if edition = .later ∧ (afterEquals ∨ c = '-') then .error (g.ignored rule text)
      else match g.rule? ['-', c] with
        | none => g.takeUnknown edition rule rest text
        | some more => do
          let taken ← match edition, cs with
            | _, [] => g.takeNext more rest
            | .later, '=' :: value => takeAttached g edition more rest true value
            | _, cs => takeAttached g edition more rest false cs
          pure { taken with given := (rule, none) :: taken.given }

def isLong (name : String) : Bool := ['-', '-'].isPrefixOf name.toList

/-- An option with all that belongs to it. -/
def takeOption (g : Grammar κ) (edition : Edition) (rule : Rule κ) (name : String)
    (attached : Option Attached) (rest : List (Word κ)) : Except Stop (Taken κ) :=
  match attached with
  | none => g.takeNext rule rest
  | some ⟨afterEquals, text⟩ =>
    if standsAlone rule && isLong name then .error (g.ignored rule text)
    else g.takeAttached edition rule rest afterEquals text

def accept (g : Grammar κ) (rule : Rule κ) (value : Option String) :
    Except Stop (κ × Option String) :=
  match rule.need, value with
  | .help, _ => .error (.help g.page)
  | .oneOf choices, some value =>
    if choices.contains value then .ok (rule.kind, some value)
    else .error (g.optionMisuse rule (invalidChoice value choices))
  | _, value => .ok (rule.kind, value)

def acceptAll (g : Grammar κ) :
    List (Rule κ × Option String) → Except Stop (List (κ × Option String))
  | [] => .ok []
  | (rule, value) :: more => do
    let one ← g.accept rule value
    let others ← acceptAll g more
    pure (one :: others)

/-! ## Whole lines -/

/-- What a line was read as: the options in order, the words of the operand if it is there, and the
words that nothing takes. -/
structure Reading (κ : Type) where
  given : List (κ × Option String) := []
  operand : Option (List String) := none
  extras : List String := []

/-- The operand at the start of the words, and the words after it. A double dash on either side
belongs to it; an operand with choices takes everything, a double dash before it included. -/
def takeOperand? (g : Grammar κ) (words : List (Word κ)) :
    Option (List String × List (Word κ)) :=
  match words.dropWhile (·.isSeparator) with
  | ⟨text, .operand⟩ :: rest =>
    match g.operand.choices with
    | some _ => some (words.map (·.text), [])
    | none => some ([text], rest.dropWhile (·.isSeparator))
  | _ => none

def acceptOperand (g : Grammar κ) (texts : List String) : Except Stop (List String) :=
  match g.operand.choices, texts with
  | some choices, text :: _ =>
    if choices.contains text then .ok texts
    else .error (g.argumentMisuse g.operand.name (invalidChoice text choices))
  | _, _ => .ok texts

/-- Passes over a word that nothing takes, and goes on. -/
def skip (next : Reading κ → List (Word κ) → Except Stop (Reading κ)) (before : Reading κ) :
    List (Word κ) → Except Stop (Reading κ)
  | [] => .ok before
  | w :: rest => next { before with extras := before.extras ++ [w.text] } rest

/-- Reads words that have been classified, after what was read before them. Each round takes at
least one word. -/
def readWords (g : Grammar κ) (edition : Edition) :
    Nat → Reading κ → List (Word κ) → Except Stop (Reading κ)
  | 0, before, words => .ok { before with extras := before.extras ++ words.map (·.text) }
  | n + 1, before, words =>
    match before.operand, words with
    | _, [] => .ok before
    | _, ⟨text, .unknown⟩ :: rest =>
      readWords g edition n { before with extras := before.extras ++ [text] } rest
    | _, ⟨_, .option rule name attached⟩ :: rest => do
      let taken ← g.takeOption edition rule name attached rest
      let given ← g.acceptAll taken.given
      readWords g edition n { before with
        given := before.given ++ given
        extras := before.extras ++ taken.extras } taken.rest
    | none, words =>
      match g.takeOperand? words with
      | some (texts, rest) => do
        let operand ← g.acceptOperand texts
        readWords g edition n { before with operand := some operand } rest
      | none => skip (readWords g edition n) before words
    | some _, words => skip (readWords g edition n) before words

/-- Reads a line. The operand must be there. -/
def read (g : Grammar κ) (edition : Edition) (line : List String) : Except Stop (Reading κ) := do
  let words ← g.classifyAll line
  let reading ← g.readWords edition words.length {} words
  if reading.operand.isNone then
    throw (g.misuse ("the following arguments are required: " ++ g.operand.name))
  pure reading

end Grammar

end ThemedSheets.Command
