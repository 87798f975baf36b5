import ThemedSheets.Text.Basic
/- Paths as texts: the operations that look at the letters only and never at the disk. A path may
   begin with one slash or with exactly two, which are kept apart; three or more count as one.
   `normalize` removes empty and dot components and lets `..` cancel the component before it, except
   at the start of a relative path. -/
namespace ThemedSheets.Path
open ThemedSheets.Text

/-- How many slashes the normal form of a path begins with. -/
def rootSlashes : List Char → Nat
  | '/' :: '/' :: '/' :: _ => 1
  | '/' :: '/' :: _ => 2
  | '/' :: _ => 1
  | _ => 0

def isAbsoluteText (cs : List Char) : Bool := cs.head? == some '/'

/-- One more component after those done, which stand in reverse. -/
def pushComponent (rooted : Bool) (done : List (List Char)) (comp : List Char) : List (List Char) :=
  if comp = [] ∨ comp = ['.'] then done
  else if comp ≠ ['.', '.'] then comp :: done
  else if (¬ rooted ∧ done = []) ∨ done.head? = some ['.', '.'] then comp :: done
  else done.tail

/-- The components of a path's normal form. -/
def normalComponents (cs : List Char) : List (List Char) :=
  ((split '/' cs).foldl (pushComponent (rootSlashes cs != 0)) []).reverse

/-- The path with so many slashes in front of its components; the empty one is a dot. -/
def assemble (slashes : Nat) (comps : List (List Char)) : List Char :=
  match List.replicate slashes '/' ++ join ['/'] comps with
  | [] => ['.']
  | cs => cs

def normalizeText (cs : List Char) : List Char := assemble (rootSlashes cs) (normalComponents cs)

def joinText (dir path : List Char) : List Char :=
  if isAbsoluteText path then path
  else if dir = [] ∨ dir.getLast? = some '/' then dir ++ path
  else dir ++ '/' :: path

/-- The path up to its last slash, and what follows the slash. -/
def cutLast (cs : List Char) : List Char × List Char :=
  let tail := (cs.reverse.takeWhile (· != '/')).reverse
  (cs.take (cs.length - tail.length), tail)

def dirNameText (cs : List Char) : List Char :=
  let head := (cutLast cs).1
  let kept := (head.reverse.dropWhile (· == '/')).reverse
  if kept = [] then head else kept

/-- The last component of a path. -/
def baseNameText (cs : List Char) : List Char := (cutLast cs).2

/-- A name cut before its last dot. Dots at the start of a name belong to it. -/
def cutExtension (name : List Char) : List Char × List Char :=
  let suffix := (name.reverse.takeWhile (· != '.')).reverse
  let stem := name.take (name.length - suffix.length - 1)
  if suffix.length < name.length ∧ stem.any (· != '.') then (stem, '.' :: suffix) else (name, [])

def extensionText (cs : List Char) : List Char := (cutExtension (baseNameText cs)).2

def normalize (path : String) : String := String.ofList (normalizeText path.toList)

def joined (dir path : String) : String := String.ofList (joinText dir.toList path.toList)

def isAbsolute (path : String) : Bool := isAbsoluteText path.toList

def dirName (path : String) : String := String.ofList (dirNameText path.toList)

/-- The normal form of a path taken from the current directory. -/
def absolute (directory path : String) : String :=
  normalize (if isAbsolute path then path else joined directory path)

example : normalize "a/../../b//./c/" = "../b/c" := by decide +kernel
example : normalize "//x/../.." = "//" := by decide +kernel
example : normalize "" = "." := by decide +kernel
example : extensionText "a.d/..b.SCSS".toList = ".SCSS".toList := by decide
example : extensionText "a.d/..scss".toList = [] := by decide

end ThemedSheets.Path
