import ThemedSheets.Compile.Options
/- One call of a Sass engine: what it is asked, what it may ask in turn, and what it answers. An
   engine is a function to a dialogue: it asks for imports one after another, each question
   depending on the answers before it, and ends with its result. -/
namespace ThemedSheets.Sass

/-- How the source reaches the engine: as a text, or in a file next to which a source map is
named. -/
inductive Entry where
  | text (indented : Bool)
  | file (path sourceMap : String)
  deriving DecidableEq, Repr

/-- What an engine is told beside the source. -/
structure Arguments where
  outputStyle : OutputStyle
  includePaths : List String
  precision : Option Int
  entry : Entry
  deriving DecidableEq, Repr

/-- A file that was found for an import: its path and its text. -/
structure Imported where
  path : String
  text : String
  deriving DecidableEq, Repr

/-- What an engine does with a source. -/
inductive Dialogue where
  /-- Asks for an import on behalf of a file. -/
  | ask (request importer : String) (next : Option Imported → Dialogue)
  /-- Ends with CSS and, for a source in a file, a source map. -/
  | answer (css sourceMap : String)
  /-- Ends with a refusal of the source. -/
  | refuse (text : String)
  /-- Ends with a failure of the engine itself. -/
  | breakDown (message : String)

/-- An engine: what it does with a source text under given arguments. -/
abbrev Engine := String → Arguments → Dialogue

structure Call where
  text : String
  arguments : Arguments
  imported : List (Option Imported)
  deriving DecidableEq, Repr

end ThemedSheets.Sass
