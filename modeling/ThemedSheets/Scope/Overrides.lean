import ThemedSheets.Host
import ThemedSheets.Scope.Basic
import ThemedSheets.Text.CaseMap
/- The variable files of a scope as overrides. A declaration that would only hold while a variable
   is unset is made unconditional, and in files of the dialect that writes variables with an at sign
   every at sign becomes a dollar. Both are done to the text as it stands, also inside comments and
   strings. -/
namespace ThemedSheets
open ThemedSheets.Text

namespace Overrides

/-- The mark of a declaration that holds only while its variable is unset. -/
def unsetMark : List Char := "!default".toList

/-- A variable file's text with every declaration unconditional. -/
def normalizeText (foreign : Bool) (text : List Char) : List Char :=
  let text := if foreign then replaceAll ['@'] ['$'] text else text
  replaceAll unsetMark [] text

def normalize (foreign : Bool) (text : String) : String :=
  String.ofList (normalizeText foreign text.toList)

/-- Whether a path ends in the extension of the other dialect, in any case; a line feed may follow
it. -/
def isForeign (path : String) : Bool :=
  let cs := path.toList.reverse
  let cs := match cs with
    | '\n' :: rest => if endsInMark rest then rest else cs
    | _ => cs
  endsInMark cs
where
  endsInMark (cs : List Char) : Bool :=
    let mark := ".less".toList.reverse
    cs.length ≥ mark.length && (cs.zip mark).all fun (c, m) => sameLetter m c

def loadFile (files : FileSystem) (path : String) : Except FileFailure String :=
  (files.readText path).map (normalize (isForeign path))

def loadFiles (files : FileSystem) : List String → Except FileFailure (List String)
  | [] => .ok []
  | p :: ps =>
    match loadFile files p with
    | .error e => .error e
    | .ok text => (loadFiles files ps).map (text :: ·)

/-- The overrides of a scope's files, a line feed between files. -/
def load (files : FileSystem) (path : ScopePath) : Except FileFailure String :=
  match path with
  | .one p => if p = "" then .ok "" else loadFile files p
  | .many ps =>
    (loadFiles files (ps.filter (· ≠ ""))).map fun texts =>
      String.ofList (join ['\n'] (texts.map String.toList))

end Overrides

end ThemedSheets
