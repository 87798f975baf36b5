import ThemedSheets.Settings.Basic
/- Scopes and dependencies as the command line spells them: `NAME=PATH,PATH` asks for a scope, and
   the paths that a result depends on are listed in normal form, absolute ones only, each once. -/
namespace ThemedSheets.Command
open ThemedSheets.Text

/-- The files that a text lists between commas, without the blanks around them. -/
def fileList (cs : List Char) : List String :=
  (((split ',' cs).map trim).filter (· ≠ [])).map String.ofList

/-- The path of a scope with the listed files: a single file stands for itself. -/
def pathOfFiles : List String → ScopePath
  | [file] => .one file
  | files => .many files

/-- The scope that an argument spells: a name, an equals sign, and files. -/
def readScope (text : String) : Except Fault Scope :=
  let cs := text.toList
  match cs.dropWhile (· != '=') with
  | [] => .error (.scopeArgument text)
  | _ :: files =>
    .ok ⟨String.ofList (trim (cs.takeWhile (· != '='))), pathOfFiles (fileList files)⟩

def readScopes : List (Option String) → Except Fault (List Scope)
  | [] => .ok []
  | none :: _ => .error (.missingValue .scope)
  | some text :: rest => do
    let scope ← readScope text
    let scopes ← readScopes rest
    pure (scope :: scopes)

def readDirectories (current : String) : List (Option String) → Except Fault (List String)
  | [] => .ok []
  | none :: _ => .error (.missingValue .includePath)
  | some text :: rest =>
    (readDirectories current rest).map (Path.absolute current text :: ·)

/-- The normal forms of the absolute ones among paths, each where it first occurs. -/
def dependencyPaths (paths : List String) : List String :=
  distinct ((paths.map Path.normalize).filter Path.isAbsolute)

end ThemedSheets.Command
