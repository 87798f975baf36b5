import ThemedSheets.Path.Basic
/- What a compiler is asked to do with every text it gets, and what it answers. -/
namespace ThemedSheets

/-- The layouts of the CSS that a compiler writes. -/
inductive OutputStyle where
  | nested | expanded | compact | compressed
  deriving DecidableEq, Repr

namespace OutputStyle

/-- All styles, in the order in which messages list them. -/
def all : List OutputStyle := [.nested, .expanded, .compact, .compressed]

def name : OutputStyle → String
  | .nested => "nested"
  | .expanded => "expanded"
  | .compact => "compact"
  | .compressed => "compressed"

def ofName? (name : String) : Option OutputStyle := all.find? (·.name == name)

theorem ofName?_name (s : OutputStyle) : ofName? s.name = some s := by cases s <;> decide

end OutputStyle

/-- The options of a compilation, the same for every scope. -/
structure CompileOptions where
  outputStyle : OutputStyle := .expanded
  includePaths : List String := []
  precision : Option Int := none
  sourceMap : Bool := false
  indented : Option Bool := none
  additionalData : Option String := none
  sourcePath : Option String := none
  deriving DecidableEq, Repr

namespace CompileOptions

/-- Whether the source is in the indented syntax: as the options say, else by its name. -/
def usesIndentedSyntax (o : CompileOptions) : Bool :=
  match o.indented, o.sourcePath with
  | some b, _ => b
  | none, some p =>
    p ≠ "" && Text.lowerAscii (Path.ofString p).suffix.toList == ".sass".toList
  | none, none => false

def withSource (o : CompileOptions) (path : Option String) : CompileOptions :=
  { o with sourcePath := path }

end CompileOptions

/-- What a compiler answers for one text. -/
structure CompileOutput where
  css : String
  sourceMap : Option String := none
  includedFiles : List String := []
  errors : List String := []
  deriving DecidableEq, Repr

end ThemedSheets
