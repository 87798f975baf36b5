import ThemedSheets.Path.Basic
import ThemedSheets.Text.Encoding
/- A file tree as a value. Entries are kept by their components from the root; a path is followed
   one component at a time, so `missing/../x` is not `x`: every component that is passed must be a
   directory. Reading and writing fail with the cause that a file system gives. -/
namespace ThemedSheets
open ThemedSheets.Text

/-- Why an operation on files failed. -/
inductive FileFailure where
  | notFound
  | isDirectory
  | notDirectory
  | alreadyThere
  | undecodable
  | embeddedNull
  | nameTooLong
  | noHome
  deriving DecidableEq, Repr

/-- What stands at a place of the tree. -/
inductive Entry where
  | directory
  | file (content : ByteArray)

def Entry.isFile : Entry → Bool
  | .file _ => true
  | .directory => false

def Entry.isDirectory : Entry → Bool
  | .file _ => false
  | .directory => true

/-- A file tree: the entries below the root, each place at most once. -/
structure Disk where
  entries : List (List String × Entry)

structure Place where
  location : List String
  entry : Option Entry

namespace Disk

def empty : Disk := ⟨[]⟩

/-- What stands at a place; the root is a directory. -/
def lookup (disk : Disk) (location : List String) : Option Entry :=
  if location = [] then some .directory
  else (disk.entries.find? (·.1 == location)).map (·.2)

def put (disk : Disk) (location : List String) (entry : Entry) : Disk :=
  ⟨(disk.entries.filter (·.1 != location)) ++ [(location, entry)]⟩

/-- The tree without a place and all below it. -/
def remove (disk : Disk) (location : List String) : Disk :=
  ⟨disk.entries.filter fun e => !location.isPrefixOf e.1⟩

/-- The tree with every place above and at a location a directory, unless something is there. -/
def withDirectories (disk : Disk) (location : List String) : Disk :=
  (List.range location.length).foldl
    (fun d i =>
      let here := location.take (i + 1)
      if (d.lookup here).isSome then d else d.put here .directory) disk

def maxNameBytes : Nat := 255

def maxPathBytes : Nat := 4095

/-- One component further. -/
def step (disk : Disk) (place : Place) (name : String) : Except FileFailure Place :=
  match place.entry with
  | none => .error .notFound
  | some (.file _) => .error .notDirectory
  | some .directory =>
    if name = "" ∨ name = "." then .ok place
    else if name = ".." then
      let up := place.location.dropLast
      .ok ⟨up, disk.lookup up⟩
    else if maxNameBytes < name.utf8ByteSize then .error .nameTooLong
    else
      let down := place.location ++ [name]
      .ok ⟨down, disk.lookup down⟩

def components (path : String) : List String := (split '/' path.toList).map String.ofList

/-- The place that a path leads to from the current directory. Nothing need stand there. -/
def follow (disk : Disk) (directory path : String) : Except FileFailure Place :=
  if path = "" then .error .notFound
  else if path.toList.contains '\x00' then .error .embeddedNull
  else if maxPathBytes < path.utf8ByteSize then .error .nameTooLong
  else
    let names := if Path.isAbsolute path then components path
      else components directory ++ components path
    names.foldlM (step disk) ⟨[], some .directory⟩

def stat (disk : Disk) (directory path : String) : Except FileFailure Entry :=
  match disk.follow directory path with
  | .error e => .error e
  | .ok ⟨_, none⟩ => .error .notFound
  | .ok ⟨_, some entry⟩ => .ok entry

/-- Whether a question about a path that leads nowhere is answered with no. -/
def isAbsence : FileFailure → Bool
  | .notFound | .notDirectory | .embeddedNull => true
  | _ => false

/-- Whether a path leads to something that passes the test. Only a name that is too long is a
failure; a path that leads nowhere passes no test. -/
def test (disk : Disk) (directory path : String) (passes : Entry → Bool) :
    Except FileFailure Bool :=
  match disk.stat directory path with
  | .ok entry => .ok (passes entry)
  | .error e => if isAbsence e then .ok false else .error e

def readBytes (disk : Disk) (directory path : String) : Except FileFailure ByteArray :=
  match disk.stat directory path with
  | .ok (.file content) => .ok content
  | .ok .directory => .error .isDirectory
  | .error e => .error e

def readText (disk : Disk) (directory : String) (encoding : Encoding) (path : String) :
    Except FileFailure String :=
  match disk.readBytes directory path with
  | .error e => .error e
  | .ok bytes =>
    match encoding.decode? bytes with
    | none => .error .undecodable
    | some text => .ok (String.ofList (unifyNewlines text.toList))

/-- The tree after the file at a path was given the bytes. -/
def write (disk : Disk) (directory path : String) (content : ByteArray) :
    Except FileFailure Disk :=
  match disk.follow directory path with
  | .error e => .error e
  | .ok ⟨_, some .directory⟩ => .error .isDirectory
  | .ok ⟨location, _⟩ => .ok (disk.put location (.file content))

/-- The tree after bytes were added to the end of the file at a path. A file that is not there is
made. -/
def append (disk : Disk) (directory path : String) (more : ByteArray) : Except FileFailure Disk :=
  match disk.follow directory path with
  | .error e => .error e
  | .ok ⟨_, some .directory⟩ => .error .isDirectory
  | .ok ⟨location, some (.file content)⟩ => .ok (disk.put location (.file (content ++ more)))
  | .ok ⟨location, none⟩ => .ok (disk.put location (.file more))

def makeDirectory (disk : Disk) (directory path : String) : Except FileFailure Disk :=
  match disk.follow directory path with
  | .error e => .error e
  | .ok ⟨_, some _⟩ => .error .alreadyThere
  | .ok ⟨location, none⟩ => .ok (disk.put location .directory)

/-- The tree with a directory and the missing ones above it. A directory that is there is left as
it is. -/
def makeDirectories (disk : Disk) (directory : String) (path : Path) : Except FileFailure Disk :=
  go path.parts.length path
where
  go : Nat → Path → Except FileFailure Disk
    | n, path =>
      match disk.makeDirectory directory path.toString with
      | .ok d => .ok d
      | .error .notFound =>
        match n with
        | 0 => .error .notFound
        | n + 1 =>
          match go n path.parent with
          | .error e => .error e
          | .ok d => keep d (d.makeDirectory directory path.toString) path
      | .error e => keep disk (.error e) path
  keep (before : Disk) (made : Except FileFailure Disk) (path : Path) :
      Except FileFailure Disk :=
    match made with
    | .ok d => .ok d
    | .error e =>
      if e = .embeddedNull then .error e
      else match before.test directory path.toString Entry.isDirectory with
        | .ok true => .ok before
        | .ok false => .error e
        | .error e => .error e

end Disk

end ThemedSheets
