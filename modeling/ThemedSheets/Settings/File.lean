import ThemedSheets.Settings.Basic
/- The settings file. A directory stands for the file of the usual name in it, and a file that is
   not there for the default settings. What value the text of a file holds is for a reader of
   documents to say, and any reader will do. -/
namespace ThemedSheets.Settings
open ThemedSheets.Text

/-- A reader of documents: the value of a text, or why it has none. -/
abbrev Reader := String → Except Yaml.Failure Yaml.Value

/-- An operation on files as one that may have any fault. -/
def ofFile {α : Type} (x : Except FileFailure α) : Except Fault α := x.mapError Fault.file

/-- The settings file that a path means. -/
def locate (host : Host) (path : String) : Except FileFailure Path := do
  let path ← host.expand (Path.ofString path)
  let isDirectory ← host.test path Entry.isDirectory
  host.resolve (if isDirectory then path.append (Path.ofString settingsFileName) else path)

/-- The value that the text of a settings file holds; a blank text holds nothing. -/
def readDocument (reader : Reader) (file text : String) : Except Fault Yaml.Value :=
  if trim text.toList = [] then .ok .nothing
  else match reader text with
    | .ok v => .ok v
    | .error .malformed => .error (.settings (.unparsable file))
    | .error e => .error (.document e)

/-- The settings in the file that a path means. -/
def load (reader : Reader) (host : Host) (path : String) : Except Fault Settings := do
  let file ← ofFile (locate host path)
  let root := file.parent
  if ← ofFile (host.test file fun _ => true) then
    let text ← ofFile (host.readText .utf8 file)
    ofValue host root (← readDocument reader file.name text)
  else pure { root }

end ThemedSheets.Settings
