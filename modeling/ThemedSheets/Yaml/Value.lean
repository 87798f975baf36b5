import ThemedSheets.Yaml.Calendar
import ThemedSheets.Number.Integer
import ThemedSheets.Number.Shortest
import ThemedSheets.Text.Quoted
import ThemedSheets.Json.Basic
/- The values that a settings document holds, and their texts in messages. A value may be part of
   several others and even of itself, so values are cells of a table that know their parts by place;
   `Value.shape` shows one level of a value, and readers go down level by level. A text on its own
   is written as it is; inside a list or a mapping it is quoted, and a collection that is met again
   inside itself is written as dots. A whole number of too many digits has no text, and neither has
   a value that holds one. -/
namespace ThemedSheets.Yaml
open ThemedSheets.Text ThemedSheets.Number

/-- One level of a value: a scalar, or a collection of parts. -/
inductive Shape (α : Type) where
  | null
  | bool (b : Bool)
  | int (i : Int)
  | float (x : Binary64)
  | str (s : String)
  | bytes (bs : List UInt8)
  | date (d : Date)
  | moment (m : Moment)
  | list (items : List α)
  | pair (first second : α)
  | set (members : List α)
  | mapping (entries : List (α × α))
  deriving Repr

namespace Shape

def map {α β : Type} (f : α → β) : Shape α → Shape β
  | null => .null
  | bool b => .bool b
  | int i => .int i
  | float x => .float x
  | str s => .str s
  | bytes bs => .bytes bs
  | date d => .date d
  | moment m => .moment m
  | list items => .list (items.map f)
  | pair a b => .pair (f a) (f b)
  | set members => .set (members.map f)
  | mapping entries => .mapping (entries.map fun (k, v) => (f k, f v))

def isScalar {α : Type} : Shape α → Bool
  | list _ | pair _ _ | set _ | mapping _ => false
  | _ => true

/-- The whole number that a number or a truth value equals. -/
def whole? {α : Type} : Shape α → Option Int
  | bool b => some (if b then 1 else 0)
  | int i => some i
  | float x => x.toInt?
  | _ => none

/-- Whether two scalars are one key. Numbers of every kind compare by value, and truth values count
as one and zero; what is no number equals nothing. -/
def sameKey {α : Type} : Shape α → Shape α → Bool
  | null, null => true
  | str a, str b => a == b
  | bytes a, bytes b => a == b
  | date a, date b => a == b
  | moment a, moment b => a.same b
  | float a, float b => a.same b
  | a, b =>
    match a.whole?, b.whole? with
    | some m, some n => m == n
    | _, _ => false

end Shape

/-- A value: a cell of a table whose cells know their parts by place. -/
structure Value where
  cells : Array (Shape Nat)
  place : Nat
  deriving Repr

namespace Value

def shape (v : Value) : Shape Value :=
  ((v.cells[v.place]?).getD .null).map fun place => ⟨v.cells, place⟩

def ofText (s : String) : Value := ⟨#[.str s], 0⟩

def nothing : Value := ⟨#[.null], 0⟩

@[simp] theorem shape_ofText (s : String) : (ofText s).shape = .str s := rfl

@[simp] theorem shape_nothing : nothing.shape = .null := rfl

/-- The entries of a mapping; any other value has none. -/
def entries (v : Value) : List (Value × Value) :=
  match v.shape with
  | .mapping entries => entries
  | _ => []

/-- The value under a text key. -/
def field? (entries : List (Value × Value)) (name : String) : Option Value :=
  match entries with
  | [] => none
  | (k, v) :: rest =>
    match k.shape with
    | .str key => if key = name then some v else field? rest name
    | _ => field? rest name

/-- The items of a value that is a row of values. Texts and bytes are not. -/
def items? (v : Value) : Option (List Value) :=
  match v.shape with
  | .list items => some items
  | .pair a b => some [a, b]
  | _ => none

/-! ## Texts -/

/-- The dots that stand for a collection inside itself. -/
def dots {α : Type} : Shape α → List Char
  | .list _ => "[...]".toList
  | .pair _ _ => "(...)".toList
  | .set _ => "set(...)".toList
  | _ => "\x7b...\x7d".toList

/-- The text of a value inside the collections at some places. The fuel bounds how many more
collections may stand inside each other. -/
def shownInside : Nat → List Nat → Value → Option (List Char)
  | 0, _, _ => some []
  | n + 1, outer, v =>
    let shown := shownInside n (v.place :: outer)
    let level := v.shape
    if !level.isScalar && outer.contains v.place then some (dots level)
    else match level with
      | .null => some "None".toList
      | .bool true => some "True".toList
      | .bool false => some "False".toList
      | .int i => decimalText? i
      | .float x => some (x.text Binary64.plainWords)
      | .str s => some (quoted s.toList)
      | .bytes bs => some (quotedBytes bs)
      | .date d => some d.shown
      | .moment m => some m.shown
      | .list items => (items.mapM shown).map fun ps => '[' :: join [',', ' '] ps ++ [']']
      | .pair a b => ([a, b].mapM shown).map fun ps => '(' :: join [',', ' '] ps ++ [')']
      | .set [] => some "set()".toList
      | .set members =>
        (members.mapM shown).map fun ps => '{' :: join [',', ' '] ps ++ ['}']
      | .mapping entries => do
        let ps ← entries.mapM fun (k, v) => do
          let key ← shown k
          let value ← shown v
          pure (key ++ ':' :: ' ' :: value)
        pure ('{' :: join [',', ' '] ps ++ ['}'])

/-- The text of a value inside another one. Along a way down each collection stands once, so the
way is no longer than the table. -/
def shown? (v : Value) : Option (List Char) := shownInside (v.cells.size + 1) [] v

/-- The text of a value on its own. -/
def text? (v : Value) : Option String :=
  match v.shape with
  | .str s => some s
  | .date d => some (String.ofList d.text)
  | .moment m => some (String.ofList m.text)
  | _ => v.shown?.map String.ofList

/-! ## Values of another notation -/

mutual

/-- The cells with those of a JSON value added, and its place. -/
def addJson (cells : Array (Shape Nat)) : Json → Array (Shape Nat) × Nat
  | .null => (cells.push .null, cells.size)
  | .bool b => (cells.push (.bool b), cells.size)
  | .int i => (cells.push (.int i), cells.size)
  | .float x => (cells.push (.float x), cells.size)
  | .str s => (cells.push (.str s), cells.size)
  | .array items =>
    let (cells, places) := addItems cells items
    (cells.push (.list places), cells.size)
  | .object fields =>
    let (cells, places) := addFields cells fields
    (cells.push (.mapping places), cells.size)

/-- The cells with those of JSON items added, and their places. -/
def addItems (cells : Array (Shape Nat)) : List Json → Array (Shape Nat) × List Nat
  | [] => (cells, [])
  | v :: vs =>
    let (cells, place) := addJson cells v
    let (cells, places) := addItems cells vs
    (cells, place :: places)

/-- The cells with those of JSON fields added, and the places of their names and values. -/
def addFields (cells : Array (Shape Nat)) :
    List (String × Json) → Array (Shape Nat) × List (Nat × Nat)
  | [] => (cells, [])
  | (k, v) :: rest =>
    let name := cells.size
    let (cells, place) := addJson (cells.push (.str k)) v
    let (cells, places) := addFields cells rest
    (cells, (name, place) :: places)

end

/-- A JSON value as a value of a document. -/
def ofJson (v : Json) : Value :=
  let (cells, place) := addJson #[] v
  ⟨cells, place⟩

end Value

end ThemedSheets.Yaml
