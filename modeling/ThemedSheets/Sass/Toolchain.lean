import ThemedSheets.Compile.FanOut
import ThemedSheets.Sass.Refusal
import ThemedSheets.SourceMap.Anchor
/- Compiling with a Sass engine. The engine is asked once per text; while it works, its imports are
   answered from the host's files and kept in order. Where a source map is wanted the source goes
   through a file in a work directory, since an engine maps files only, and the map is anchored
   afterwards so that nothing in it tells of that directory's place. -/
namespace ThemedSheets.Sass
open ThemedSheets.Path

/-- What compiling needs beside a text and its options. -/
structure Toolchain where
  host : Host
  engine : Engine
  workDirectory : String
  useSassPath : Bool := true

/-- What an engine ended with. -/
inductive Ending where
  | css (text sourceMap : String)
  | refusal (text : String)
  | failure (message : String)
  deriving DecidableEq, Repr

/-- A dialogue carried through: the answers that the engine got, the files found for it, and its
end, unless a file that was found could not be read. -/
structure Exchange where
  imported : List (Option Imported)
  found : List String
  ending : Except FileFailure Ending

/-- Carries a dialogue through, after the given answers and files. -/
def converse (imp : Importer) (imported : List (Option Imported)) (found : List String) :
    Dialogue → Exchange
  | .ask request importing next =>
    match imp.step found request importing with
    | (found, .ok answer) => converse imp (imported ++ [answer]) found (next answer)
    | (found, .error e) => ⟨imported, found, .error e⟩
  | .answer css sourceMap => ⟨imported, found, .ok (.css css sourceMap)⟩
  | .refuse text => ⟨imported, found, .ok (.refusal text)⟩
  | .breakDown message => ⟨imported, found, .ok (.failure message)⟩

namespace Toolchain

def channel : String := "compiler.libsass"

/-- The directory of the source, if it has a path. -/
def baseDirectory (host : Host) (sourcePath : Option String) : Option String :=
  match sourcePath with
  | some p => if p = "" then none else some (dirName (absolute host.directory p))
  | none => none

/-- The directories of the search path. -/
def sassPathParts (sassPath : Option String) : List String :=
  ((Text.split ':' (sassPath.getD "").toList).map String.ofList).filter (· ≠ "")

/-- The directories that imports are searched in: the source's, the current one, those of the
options, and those of the search path. -/
def includePaths (t : Toolchain) (options : CompileOptions) : List String :=
  Text.distinct <|
    (baseDirectory t.host options.sourcePath).toList
      ++ t.host.directory :: options.includePaths.map (fun p =>
          if isAbsolute p then p else joined t.host.directory p)
      ++ (if t.useSassPath then sassPathParts t.host.sassPath else [])

def importer (t : Toolchain) (options : CompileOptions) : Importer :=
  ⟨t.host, baseDirectory t.host options.sourcePath, t.includePaths options⟩

/-- The file in the work directory that the source goes through. -/
def entryFile (t : Toolchain) (options : CompileOptions) : String :=
  joined t.workDirectory
    (ownStem ++ if options.usesIndentedSyntax then ".sass" else ".scss")

/-- How the source reaches the engine. -/
def entry (t : Toolchain) (options : CompileOptions) : Entry :=
  if options.sourceMap then
    .file (t.entryFile options) (joined t.workDirectory "style.css.map")
  else .text options.usesIndentedSyntax

def arguments (t : Toolchain) (options : CompileOptions) : Arguments :=
  ⟨options.outputStyle, t.includePaths options, options.precision, t.entry options⟩

/-- The output of a compilation that ended with CSS. -/
def output (t : Toolchain) (options : CompileOptions) (found : List String)
    (css sourceMap : String) : Except Fault CompileOutput :=
  if options.sourceMap then
    match SourceMap.anchor t.workDirectory (t.entryFile options)
        (SourceMap.entryName t.host.directory options.sourcePath) sourceMap with
    | .ok map => .ok { css, sourceMap := some map, includedFiles := found }
    | .error e => .error (.sourceMap e)
  else .ok { css, includedFiles := found }

/-- What the end of an engine's work comes to. -/
def conclude (t : Toolchain) (options : CompileOptions) (found : List String) :
    Ending → Except Fault CompileOutput
  | .css text sourceMap => t.output options found text sourceMap
  | .refusal text =>
    match failureOf text with
    | .ok e => .error (.compile e)
    | .error f => .error f
  | .failure message => .error (.breakdown .system message)

/-- Compiles a text. The call is told of once the engine has ended its work. -/
def compile (t : Toolchain) : Compiler := fun text options => do
  let arguments := t.arguments options
  let exchange := converse (t.importer options) [] [] (t.engine text arguments)
  let ending ← Run.ofFile exchange.ending
  Run.emit (.called ⟨text, arguments, exchange.imported⟩)
  let output ← Run.ofExcept (t.conclude options exchange.found ending)
  Run.log .debug channel
    ("libsass produced " ++ Text.countText output.css.length ++ " bytes, "
      ++ Text.countText output.includedFiles.length ++ " imported files")
  pure output

end Toolchain

end ThemedSheets.Sass
