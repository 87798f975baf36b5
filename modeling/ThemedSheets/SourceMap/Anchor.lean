import ThemedSheets.SourceMap.Basic
/- Anchoring the map of a compilation that ran in a work directory. Sources are written from the
   directory of the map, so each is made absolute from there; the one that is the entry file itself
   is named for the source that was compiled, or by the stem of sources without a path. -/
namespace ThemedSheets.SourceMap
open ThemedSheets.Path

/-- The name of a source that has no path. -/
def namelessSource : String := "stdin"

/-- The name under which the entry file appears. -/
def entryName (directory : String) (sourcePath : Option String) : String :=
  match sourcePath with
  | some p => if p = "" then namelessSource else absolute directory p
  | none => namelessSource

/-- One source anchored: absolute from the work directory, or the name of the entry. -/
def anchorSource (workDirectory entry name source : String) : String :=
  let place := Path.normalize (joined workDirectory source)
  if place = Path.normalize entry then name else place

def anchorSources (workDirectory entry name : String) :
    List Json → Except SourceMapFault (List Json)
  | [] => .ok []
  | .str s :: rest =>
    (anchorSources workDirectory entry name rest).map
      (.str (anchorSource workDirectory entry name s) :: ·)
  | _ :: _ => .error .sourceNotPath

def anchorFields (workDirectory entry name : String) (fields : Fields Json) :
    Except SourceMapFault (Fields Json) := do
  let sources ← anchorSources workDirectory entry name (← sourceItems fields)
  pure (fields.put "sources" (.array sources))

def anchor (workDirectory entry name text : String) : Except SourceMapFault String := do
  match ← readValue text with
  | .object fields => do
    let fields ← anchorFields workDirectory entry name fields
    pure (Json.object fields).render
  | _ => throw .noFields

end ThemedSheets.SourceMap
