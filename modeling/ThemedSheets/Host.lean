import ThemedSheets.Disk
/- What a run finds around it: the file tree, the directory it runs in, the home directories and
   the search path for imports. The files that validation and loading ask for are reached through
   `FileSystem`, which the host's own files are one instance of. -/
namespace ThemedSheets

/-- The surroundings of a run. -/
structure Host where
  disk : Disk
  directory : String
  home : String
  accounts : List (String × String) := []
  sassPath : Option String := none

/-- The files that themes are read from: whether a path leads to a file, and the file's text. -/
structure FileSystem where
  hasFile : String → Except FileFailure Bool
  readText : String → Except FileFailure String

namespace Host
open ThemedSheets.Text

/-- The directory that a first component `~` or `~account` stands for. -/
def homeOf (host : Host) (part : String) : Except FileFailure String :=
  let account := String.ofList (part.toList.drop 1)
  if account.toList.contains '\x00' then .error .embeddedNull
  else
    let found := if account = "" then some host.home
      else (host.accounts.find? (·.1 == account)).map (·.2)
    match found with
    | none => .error .noHome
    | some dir =>
      let kept := (dir.toList.reverse.dropWhile (· == '/')).reverse
      let dir := if kept = [] then "/" else String.ofList kept
      if dir.toList.head? = some '~' then .error .noHome else .ok dir

/-- The path with a leading `~` or `~account` component replaced by that home directory. -/
def expand (host : Host) (path : Path) : Except FileFailure Path :=
  match path.slashes, path.parts with
  | 0, part :: parts =>
    if part.toList.head? = some '~' then
      (host.homeOf part).map fun dir =>
        let home := Path.ofString dir
        { home with parts := home.parts ++ parts }
    else .ok path
  | _, _ => .ok path

/-- The path with every `..` carried out from the host's directory. -/
def resolve (host : Host) (path : Path) : Except FileFailure Path :=
  if path.parts.any fun p => p.toList.contains '\x00' then .error .embeddedNull
  else .ok (Path.resolve (Path.ofString host.directory) path)

def test (host : Host) (path : Path) (passes : Entry → Bool) : Except FileFailure Bool :=
  host.disk.test host.directory path.toString passes

def readText (host : Host) (encoding : Encoding) (path : Path) : Except FileFailure String :=
  host.disk.readText host.directory encoding path.toString

/-- The host's own files, with home directories expanded. The empty path leads to no file. -/
def files (host : Host) (encoding : Encoding) : FileSystem where
  hasFile path :=
    if path = "" then .ok false
    else match host.expand (Path.ofString path) with
      | .error e => .error e
      | .ok p => host.test p Entry.isFile
  readText path :=
    match host.expand (Path.ofString path) with
    | .error e => .error e
    | .ok p => host.readText encoding p

end Host

end ThemedSheets
