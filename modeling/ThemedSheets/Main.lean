import ThemedSheets.Command.Execution
import ThemedSheets.Yaml.Document
/- The program. It takes the files below the current directory into memory, runs the command on
   them as a function, and writes out what the command leaves. No engine is part of this build, so
   every source that reaches the compiler is refused; a build with an engine passes its own. -/
namespace ThemedSheets.Program
open ThemedSheets.Command

/-- How many directories deep files are looked for. -/
def maxDepth : Nat := 32

/-- The file tree with the children of a directory added, and all that lies below them. -/
def gather : Nat → List String → Array IO.FS.DirEntry → Disk → IO Disk
  | 0, _, _, disk => pure disk
  | depth + 1, location, children, disk => do
    let mut disk := disk
    for child in children do
      let here := location ++ [child.fileName]
      if ← child.path.isDir then
        disk ← gather depth here (← child.path.readDir) (disk.put here .directory)
      else
        try
          disk := disk.put here (.file (← IO.FS.readBinFile child.path))
        catch _ => pure ()
    pure disk

/-- What a run finds around it. -/
def surroundings : IO Host := do
  let directory ← IO.currentDir
  let location := (Path.ofString directory.toString).parts
  let above := Disk.empty.withDirectories location
  let disk ← gather maxDepth location (← directory.readDir) above
  pure {
    disk := disk
    directory := directory.toString
    home := (← IO.getEnv "HOME").getD "/"
    sassPath := ← IO.getEnv "SASS_PATH" }

def isOld (before : Disk) (location : List String) (entry : Entry) : Bool :=
  match before.lookup location, entry with
  | some (.file old), .file new => old == new
  | some .directory, .directory => true
  | _, _ => false

def store (before after : Disk) : IO Unit := do
  for (location, entry) in after.entries do
    unless isOld before location entry do
      let path := (Path.mk 1 location).toString
      match entry with
      | .directory => IO.FS.createDirAll path
      | .file content => IO.FS.writeBinFile path content

def engine : Sass.Engine := fun _ _ => .refuse "Error: no Sass engine is part of this build"

def run (line : List String) : IO UInt32 := do
  let host ← surroundings
  let machine : Machine := {
    host, engine
    documents := Yaml.read
    edition := .later
    workDirectory := Path.joined host.directory "scopedsass-work" }
  let result := Command.run machine line
  (← IO.getStdout).putStr result.output
  (← IO.getStderr).putStr result.console
  store host.disk result.report.disk
  match result.report.ending with
  | .status code => pure (UInt32.ofNat code)
  | .fault f => do
    (← IO.getStderr).putStrLn ("scopedsass stopped: " ++ f.message)
    pure 1

end ThemedSheets.Program

def main (line : List String) : IO UInt32 := ThemedSheets.Program.run line
