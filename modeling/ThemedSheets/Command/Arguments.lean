import ThemedSheets.Command.Grammar
import ThemedSheets.Compile.Options
/- The arguments of the program. A line has options of its own, the command, and the command's
   options and source. The words of the command are read only when all words before it are
   accepted, and words that nothing takes are refused last. -/
namespace ThemedSheets.Command

def lines (ls : List String) : String := String.join (ls.map (· ++ "\n"))

/-! ## Pages -/

def programUsage : String :=
  lines [
    "usage: scopedsass [-h] [-v] [-q] \x7bcompile\x7d ..."]

/-- What the program does, and its options. -/
def programHelp : String :=
  lines [
    "",
    "Compile a Sass stylesheet once per theme scope and merge the scoped copies.",
    "",
    "positional arguments:",
    "  \x7bcompile\x7d",
    "    compile      Compile a stylesheet for every configured scope.",
    "",
    "options:",
    "  -h, --help     show this help message and exit",
    "  -v, --verbose  Increase log verbosity for troubleshooting.",
    "  -q, --quiet    Only report warnings and errors."]

def compileUsage : String :=
  lines [
    "usage: scopedsass compile [-h] [-o OUTPUT] [--config CONFIG]",
    "                          [--scope NAME=PATH[,PATH...]]",
    "                          [--output-style \x7bnested,expanded,compact,compressed\x7d]",
    "                          [--include-path INCLUDE_PATH] [--source-map]",
    "                          [--no-verify-structure] [--list-dependencies]",
    "                          source"]

/-- The options of the command. -/
def compileHelp : String :=
  lines [
    "",
    "positional arguments:",
    "  source                Path to the .scss or .sass entry file.",
    "",
    "options:",
    "  -h, --help            show this help message and exit",
    "  -o OUTPUT, --output OUTPUT",
    "                        Write CSS to this file instead of stdout.",
    "  --config CONFIG       Path to .scopedsass.yml or its directory (defaults to",
    "                        the source directory).",
    "  --scope NAME=PATH[,PATH...]",
    "                        Scope name and variable file(s); replaces configured",
    "                        scopes. Repeatable.",
    "  --output-style \x7bnested,expanded,compact,compressed\x7d",
    "                        libsass output style (default from config, else",
    "                        expanded).",
    "  --include-path INCLUDE_PATH",
    "                        Additional directory searched for imports. Repeatable.",
    "  --source-map          Write a source map next to the output file.",
    "  --no-verify-structure",
    "                        Merge scopes even when their compiled rules do not",
    "                        line up.",
    "  --list-dependencies   Print every file the result depends on to stderr."]

/-! ## Grammars -/

inductive ProgramOption where
  | help | verbose | quiet
  deriving DecidableEq, Repr

inductive CompileOption where
  | help | output | config | scope | outputStyle | includePath | sourceMap | noVerify | dependencies
  deriving DecidableEq, Repr

def programGrammar : Grammar ProgramOption where
  program := "scopedsass"
  usage := programUsage
  page := programUsage ++ programHelp
  rules := [
    ⟨.help, ["-h", "--help"], .help⟩,
    ⟨.verbose, ["-v", "--verbose"], .nothing⟩,
    ⟨.quiet, ["-q", "--quiet"], .nothing⟩]
  operand := ⟨"command", some ["compile"]⟩

/-- The grammar of the words after the command. -/
def compileGrammar : Grammar CompileOption where
  program := "scopedsass compile"
  usage := compileUsage
  page := compileUsage ++ compileHelp
  rules := [
    ⟨.help, ["-h", "--help"], .help⟩,
    ⟨.output, ["-o", "--output"], .value⟩,
    ⟨.config, ["--config"], .value⟩,
    ⟨.scope, ["--scope"], .value⟩,
    ⟨.outputStyle, ["--output-style"], .oneOf (OutputStyle.all.map OutputStyle.name)⟩,
    ⟨.includePath, ["--include-path"], .value⟩,
    ⟨.sourceMap, ["--source-map"], .nothing⟩,
    ⟨.noVerify, ["--no-verify-structure"], .nothing⟩,
    ⟨.dependencies, ["--list-dependencies"], .nothing⟩]
  operand := ⟨"source", none⟩

/-! ## Arguments -/

/-- What a command line asks for. A scope or a directory may be named without saying which. -/
structure Arguments where
  verbose : Bool := false
  quiet : Bool := false
  source : String
  output : Option String := none
  config : Option String := none
  scopes : List (Option String) := []
  outputStyle : Option OutputStyle := none
  includePaths : List (Option String) := []
  sourceMap : Bool := false
  noVerify : Bool := false
  listDependencies : Bool := false
  deriving DecidableEq, Repr

namespace Arguments

def take (a : Arguments) : CompileOption × Option String → Arguments
  | (.help, _) => a
  | (.output, value) => { a with output := value }
  | (.config, value) => { a with config := value }
  | (.scope, value) => { a with scopes := a.scopes ++ [value] }
  | (.outputStyle, value) => { a with outputStyle := value.bind OutputStyle.ofName? }
  | (.includePath, value) => { a with includePaths := a.includePaths ++ [value] }
  | (.sourceMap, _) => { a with sourceMap := true }
  | (.noVerify, _) => { a with noVerify := true }
  | (.dependencies, _) => { a with listDependencies := true }

def read (edition : Edition) (line : List String) : Except Stop Arguments := do
  let outer ← programGrammar.read edition line
  let inner ← compileGrammar.read edition ((outer.operand.getD []).drop 1)
  let extras := outer.extras ++ inner.extras
  if extras ≠ [] then
    throw (programGrammar.misuse
      ("unrecognized arguments: " ++ String.intercalate " " extras))
  let kinds := outer.given.map (·.1)
  let start : Arguments := {
    source := ((inner.operand.getD []).head?).getD ""
    verbose := kinds.contains .verbose
    quiet := kinds.contains .quiet }
  pure (inner.given.foldl take start)

end Arguments

end ThemedSheets.Command
