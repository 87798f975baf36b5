import ThemedSheets.Path.Lexical
/- Paths as components. Reading a path drops empty and dot components and keeps `..`, so that
   writing it gives its tidy form: `a//b/./` is `a/b`, and the path without components is a dot. -/
namespace ThemedSheets
open ThemedSheets.Text

/-- A path: the slashes it begins with (none, one or two) and its components. -/
structure Path where
  slashes : Nat
  parts : List String
  deriving DecidableEq, Repr

namespace Path

def ofString (text : String) : Path :=
  ⟨rootSlashes text.toList,
    ((split '/' text.toList).filter fun p => p ≠ [] && p ≠ ['.']).map String.ofList⟩

def toString (p : Path) : String := String.ofList (assemble p.slashes (p.parts.map String.toList))

def isRooted (p : Path) : Bool := p.slashes != 0

/-- A path taken from another: a rooted one stands for itself. -/
def append (p q : Path) : Path := if q.isRooted then q else ⟨p.slashes, p.parts ++ q.parts⟩

def parent (p : Path) : Path := { p with parts := p.parts.dropLast }

/-- The last component; empty where there is none. -/
def name (p : Path) : String := p.parts.getLast?.getD ""

/-- The last component cut before its last dot, unless the dot begins or ends it. -/
def cutName (p : Path) : List Char × List Char :=
  let cs := p.name.toList
  let ending := (cs.reverse.takeWhile (· != '.')).reverse
  let stem := cs.take (cs.length - ending.length - 1)
  if ending ≠ [] ∧ stem ≠ [] ∧ ending.length < cs.length then (stem, '.' :: ending)
  else (cs, [])

def stem (p : Path) : String := String.ofList p.cutName.1

def suffix (p : Path) : String := String.ofList p.cutName.2

/-- The components of a rooted path with every `..` carried out. -/
def climb (parts : List String) : List String :=
  (parts.foldl (fun done part => if part = ".." then done.tail else part :: done) []).reverse

def resolve (directory p : Path) : Path :=
  ⟨1, climb (if p.isRooted then p.parts else directory.parts ++ p.parts)⟩

/-- The part of a path below a directory, if it lies there. -/
def below? (directory p : Path) : Option Path :=
  if p.slashes = directory.slashes ∧ directory.parts.isPrefixOf p.parts then
    some ⟨0, p.parts.drop directory.parts.length⟩
  else none

example : (ofString "a//b/./").toString = "a/b" := by decide +kernel
example : (ofString "///x/..").toString = "/x/.." := by decide +kernel

end Path

end ThemedSheets
