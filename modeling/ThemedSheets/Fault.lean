import ThemedSheets.Disk
import ThemedSheets.Compile.Failure
import ThemedSheets.Compile.Options
import ThemedSheets.Number.Integer
import ThemedSheets.Yaml.Cursor
/- Everything that can end a run. Each fault is its cause; `message` gives the words for those that
   have words of their own. -/
namespace ThemedSheets
open ThemedSheets.Text

/-- Where the rules of two scopes part. -/
structure Mismatch where
  scope : String
  position : Int
  detail : String
  deriving DecidableEq, Repr

/-- The divergence in words. -/
def Mismatch.message (m : Mismatch) : String :=
  "Scope '" ++ m.scope ++ "' diverges from the first scope at fragment "
    ++ String.ofList (intText m.position) ++ ": " ++ m.detail

/-- What is wrong with a source map. -/
inductive SourceMapFault where
  /-- The text is no JSON value. -/
  | unreadable
  /-- A whole number in the text has too many digits. -/
  | numberTooLong
  /-- Too many values stand inside each other. -/
  | tooDeep
  /-- Half of a character is spelled in the text. -/
  | halfCharacter
  /-- The value is a scalar or a list where fields are asked for. -/
  | noFields
  /-- The value is no record and no list of pairs. -/
  | noRecord
  /-- An entry of a list of pairs, told by its place, has not two members. -/
  | noPair (place members : Nat)
  /-- The sources are no row of values. -/
  | sourcesNotRow
  /-- A source is no text where its form is asked for. -/
  | sourceNotText
  /-- A source is no text where a path is made of it. -/
  | sourceNotPath
  deriving DecidableEq, Repr

inductive SettingsFault where
  /-- The file is no document. -/
  | unparsable (file : String)
  /-- The document is no mapping. -/
  | rootNotMapping
  /-- The scopes are no list. -/
  | scopesNotList
  /-- There is no such output style. -/
  | unknownStyle (style : String)
  /-- The number of workers is not positive. -/
  | workersNotPositive
  deriving DecidableEq, Repr

/-- The name of a settings file where no other is given. -/
def settingsFileName : String := ".scopedsass.yml"

def SettingsFault.message : SettingsFault → String
  | .unparsable file => "Failed to parse " ++ file
  | .rootNotMapping => settingsFileName ++ " must contain a mapping at the root"
  | .scopesNotList => "'scopes' must be a list of \x7bscope_name, path\x7d entries"
  | .unknownStyle style => "Unknown compiler.output_style '" ++ style ++ "'"
  | .workersNotPositive => "max_workers must be a positive integer"

/-- The ways in which a compiler breaks down without refusing its source. -/
inductive Breakdown where
  | system | value | runtime
  deriving DecidableEq, Repr

inductive RepeatedOption where
  | scope | includePath
  deriving DecidableEq, Repr

inductive Fault where
  | file (f : FileFailure)
  /-- A whole number has too many digits to be written. -/
  | unwritableNumber
  /-- A whole number is written with too many digits. -/
  | unreadableNumber (digits : Nat)
  | document (f : Yaml.Failure)
  | settings (f : SettingsFault)
  | scopeArgument (text : String)
  /-- An option is given without a value. -/
  | missingValue (option : RepeatedOption)
  | unknownStyle (style : String)
  | compile (e : CompileFailure)
  | scopes (failures : ScopeFailures)
  | noFailure
  | mismatch (m : Mismatch)
  | resultCount (results scopes : Nat)
  | workerCount
  | sourceMap (f : SourceMapFault)
  | outputName (path : String)
  | breakdown (kind : Breakdown) (message : String)
  | because (fault : Fault) (failures : ScopeFailures)
  deriving Repr

/-- The fault of a source map in words; only a pair that is none has words of its own. -/
def SourceMapFault.message : SourceMapFault → String
  | .noPair place members =>
    "dictionary update sequence element #" ++ countText place ++ " has length "
      ++ countText members ++ "; 2 is required"
  | _ => ""

namespace Fault

/-- The words for a whole number of too many digits; `detail` tells of the number at hand. -/
def digitsMessage (detail : String) : String :=
  "Exceeds the limit (" ++ countText Number.maxDecimalDigits
    ++ " digits) for integer string conversion" ++ detail
    ++ "; use sys.set_int_max_str_digits() to increase the limit"

/-- The fault in words; faults that carry none have the empty text. -/
def message : Fault → String
  | .unwritableNumber => digitsMessage ""
  | .unreadableNumber n => digitsMessage (": value has " ++ countText n ++ " digits")
  | .sourceMap f => f.message
  | .settings f => f.message
  | .scopeArgument text => "Expected NAME=PATH, got '" ++ text ++ "'"
  | .unknownStyle style =>
    "Unknown output style '" ++ style ++ "'; expected one of "
      ++ String.intercalate ", " (OutputStyle.all.map OutputStyle.name)
  | .compile e => e.message
  | .scopes failures => failures.first.message
  | .noFailure => "ScopeCompileError requires at least one failure"
  | .mismatch m => m.message
  | .resultCount m n =>
    "Got " ++ countText m ++ " compiled results for " ++ countText n ++ " scopes"
  | .breakdown _ message => message
  | .because fault _ => message fault
  | _ => ""

/-- The compiler's refusal that a fault is, or the first of those it is; a cause changes nothing. -/
def refusal? : Fault → Option CompileFailure
  | .compile e => some e
  | .scopes failures => some failures.first
  | .because fault _ => refusal? fault
  | _ => none

end Fault

end ThemedSheets
