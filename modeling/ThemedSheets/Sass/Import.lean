import ThemedSheets.Host
import ThemedSheets.Sass.Call
/- Finding the file that an import means. A request has a list of candidate names, an importing
   file has a list of root directories, and the first pair that is a file wins: roots first, within
   a root the candidates in order. What is found is kept in a list, with repetitions, which a run
   only ever extends (`Importer.step`). -/
namespace ThemedSheets.Sass
open ThemedSheets.Text ThemedSheets.Path

/-- The stem of the file that stands for the source itself. -/
def ownStem : String := "stdin"

/-! ## Candidates -/

/-- The starts of requests that are left to the browser. -/
def browserStarts : List (List Char) := ["http://", "https://", "//", "url("].map String.toList

/-- The extensions that a request may leave out, in the order in which they are tried. -/
def sheetExtensions : List (List Char) := [".scss", ".sass", ".css"].map String.toList

/-- The files that stand for a directory. -/
def indexNames : List (List Char) :=
  ["_index.scss", "_index.sass", "index.scss", "index.sass"].map String.toList

/-- The file names for the last component of a request. A name with the extension of a source is
complete; any other may lack its extension or name a directory. A leading underscore goes first. -/
def candidateNames (ext base : List Char) : List (List Char) :=
  if ext = ".scss".toList ∨ ext = ".sass".toList then ['_' :: base, base]
  else
    sheetExtensions.flatMap (fun e => ['_' :: base ++ e, base ++ e])
      ++ indexNames.map (joinText base)

/-- The names that an import request may mean, in the order in which they are tried. There are
none for plain CSS and for what the browser loads. -/
def candidateTexts (request : List Char) : List (List Char) :=
  if browserStarts.any (·.isPrefixOf request) then []
  else
    let ext := lowerAscii (extensionText request)
    if ext = ".css".toList then []
    else
      let dir := dirNameText request
      (candidateNames ext (baseNameText request)).map fun name =>
        if dir = [] then name else joinText dir name

def candidates (request : String) : List String :=
  (candidateTexts request.toList).map String.ofList

/-! ## Roots and hits -/

/-- What an importer searches: the directory of the source, and the include paths after it. -/
structure Importer where
  host : Host
  base : Option String
  includePaths : List String

namespace Importer

/-- Whether a file that imports stands for itself. An absolute path does, unless its stem is the
one that stands for the source. -/
def isOwnPlace (path : String) : Bool :=
  path ≠ "" && isAbsolute path && (Path.ofString path).stem ≠ ownStem

/-- The directories that are searched for a file that imports. -/
def roots (imp : Importer) (importing : String) : List String :=
  if isOwnPlace importing then dirName importing :: imp.includePaths
  else match imp.base with
    | some dir => if dir = "" then imp.includePaths else dir :: imp.includePaths
    | none => imp.includePaths

/-- Whether a path leads to a file; where that cannot be told it does not. -/
def leadsToFile (host : Host) (path : String) : Bool :=
  match host.disk.test host.directory path Entry.isFile with
  | .ok found => found
  | .error _ => false

/-- The paths that are tried for a request, in order. -/
def places (imp : Importer) (request importing : String) : List String :=
  (imp.roots importing).flatMap fun root =>
    (candidates request).map fun name => normalize (joined root name)

def find? (imp : Importer) (request importing : String) : Option String :=
  (imp.places request importing).find? (leadsToFile imp.host)

/-- The answer to a request: the file that it means, with its text. -/
def answer (imp : Importer) (request importing : String) :
    Except FileFailure (Option Imported) :=
  match imp.find? request importing with
  | none => .ok none
  | some path =>
    (imp.host.disk.readText imp.host.directory .utf8 path).map fun text => some ⟨path, text⟩

/-- A request answered, and the list of files found so far with this one at its end. A file that
cannot be read counts as found. -/
def step (imp : Importer) (found : List String) (request importing : String) :
    List String × Except FileFailure (Option Imported) :=
  (found ++ (imp.find? request importing).toList, imp.answer request importing)

end Importer

example : candidates "a/b.SASS" = ["a/_b.SASS", "a/b.SASS"] := by decide +kernel
example : candidates "x.css" = [] := by decide +kernel

end ThemedSheets.Sass
