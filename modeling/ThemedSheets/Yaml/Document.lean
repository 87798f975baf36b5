import ThemedSheets.Yaml.Source
import ThemedSheets.Yaml.Value
/- The value of a document. Each node becomes one value, however often it is met. Collections are
   filled in the order in which they are met, so that of two faults the one nearer to the root is
   told, and on one level the earlier one. -/
namespace ThemedSheets.Yaml

/-! ## Kinds of nodes -/

/-- What the tag of a node asks for. -/
inductive Kind where
  | null | bool | int | float | binary | timestamp | str
  | seq | map | set | pairs
  deriving DecidableEq, Repr

namespace Kind

def named : List (String × Kind) :=
  [("null", .null), ("bool", .bool), ("int", .int), ("float", .float), ("binary", .binary),
   ("timestamp", .timestamp), ("str", .str), ("seq", .seq), ("map", .map), ("set", .set),
   ("omap", .pairs), ("pairs", .pairs)]

/-- The kind that a tag asks for, unless it is not one of the language's own. -/
def ofTag? (tag : String) : Option Kind :=
  (named.find? fun (name, _) => coreTag name == tag).map (·.2)

/-- The empty collection of a kind; scalars have none. -/
def empty? : Kind → Option (Shape Nat)
  | .seq | .pairs => some (.list [])
  | .map => some (.mapping [])
  | .set => some (.set [])
  | _ => none

def read (kind : Kind) (text : String) : Except Failure (Shape Nat) :=
  match kind with
  | .null => .ok .null
  | .bool => (truthValue text).map .bool
  | .int => (wholeValue text).map .int
  | .float => (floatValue text).map .float
  | .binary => (binaryValue text).map .bytes
  | .timestamp => (momentValue text).map fun found =>
    match found with
    | .inl d => .date d
    | .inr m => .moment m
  | .str => .ok (.str text)
  | .seq | .map | .set | .pairs => .error .malformed

end Kind

/-! ## Values of nodes -/

/-- A document whose value is being built: its graph, how many entries of it ask for the entries of
other mappings, the cells of values, the cell of each node that was met, the collections that wait
to be filled, the last one first, and the cell that all words for no number share. -/
structure Building where
  graph : Graph
  merges : Nat
  cells : Array (Shape Nat)
  met : Array (Option Nat)
  waiting : List (Nat × Nat)
  noNumber : Option Nat

namespace Building

/-- The building before any node is met. -/
def start (g : Graph) : Building :=
  ⟨g, g.mergeCount, #[], Array.replicate g.nodes.size none, [], none⟩

def cellOf? (b : Building) (place : Nat) : Option Nat := (b.met[place]?).join

def level (b : Building) (cell : Nat) : Shape Nat := (b.cells[cell]?).getD .null

def add (b : Building) (level : Shape Nat) : Nat × Building :=
  (b.cells.size, { b with cells := b.cells.push level })

def assign (b : Building) (place cell : Nat) : Building :=
  { b with met := b.met.setIfInBounds place (some cell) }

/-- The cell of a scalar that was not met before. -/
def scalar (b : Building) (place : Nat) (kind : Kind) : Except Failure (Nat × Building) := do
  let text ← b.graph.scalarText (b.graph.nodes.size + 1) place
  if kind = .timestamp && b.graph.isMapping place then throw .mappingAsMoment
  let level ← kind.read text
  let isWord := kind = .float && isNoNumber text
  match b.noNumber.filter fun _ => isWord with
  | some cell => pure (cell, b.assign place cell)
  | none =>
    let (cell, b) := b.add level
    let b := if isWord then { b with noNumber := some cell } else b
    pure (cell, b.assign place cell)

/-- The cell of a node. A collection is empty until its turn to be filled comes. -/
def meet (b : Building) (place : Nat) : Except Failure (Nat × Building) :=
  match b.cellOf? place with
  | some cell => .ok (cell, b)
  | none =>
    match Kind.ofTag? (b.graph.node place).tag with
    | none => .error .malformed
    | some kind =>
      match kind.empty? with
      | none => b.scalar place kind
      | some level =>
        let (cell, b) := b.add level
        .ok (cell, { b.assign place cell with waiting := (place, cell) :: b.waiting })

def meetAll (b : Building) : List Nat → Except Failure (List Nat × Building)
  | [] => .ok ([], b)
  | place :: places => do
    let (cell, b) ← b.meet place
    let (cells, b) ← b.meetAll places
    pure (cell :: cells, b)

/-- The cells of entries. A key has to be a scalar. -/
def meetEntries (b : Building) :
    List (Nat × Nat) → Except Failure (List (Nat × Nat) × Building)
  | [] => .ok ([], b)
  | (k, v) :: rest => do
    let (key, b) ← b.meet k
    if !(b.level key).isScalar then throw .malformed
    let (value, b) ← b.meet v
    let (cells, b) ← b.meetEntries rest
    pure ((key, value) :: cells, b)

/-- The cells of pairs, each of which is written as a mapping with one entry. -/
def meetPairs (b : Building) : List Nat → Except Failure (List Nat × Building)
  | [] => .ok ([], b)
  | place :: places => do
    match b.graph.entries place with
    | [(k, v)] =>
      let (first, b) ← b.meet k
      let (second, b) ← b.meet v
      let (cell, b) := b.add (.pair first second)
      let (cells, b) ← b.meetPairs places
      pure (cell :: cells, b)
    | _ => throw .malformed

/-- The entries with one set: in its place if the key is there, else at the end. -/
def putEntry (b : Building) (key value : Nat) : List (Nat × Nat) → List (Nat × Nat)
  | [] => [(key, value)]
  | (k, v) :: rest =>
    if k == key || (b.level k).sameKey (b.level key) then (k, value) :: rest
    else (k, v) :: b.putEntry key value rest

/-- The level of a collection, whose parts are met now. -/
def contents (b : Building) (place : Nat) : Except Failure (Shape Nat × Building) :=
  match Kind.ofTag? (b.graph.node place).tag, (b.graph.node place).content with
  | some .seq, .sequence items => do
    let (cells, b) ← b.meetAll items
    pure (.list cells, b)
  | some .pairs, .sequence items => do
    let (cells, b) ← b.meetPairs items
    pure (.list cells, b)
  | some kind, .mapping _ => do
    if kind ≠ .map ∧ kind ≠ .set then throw .malformed
    let graph ← Graph.takeOver place [] (b.merges + 1) b.graph
    let (found, b) ← { b with graph }.meetEntries (graph.entries place)
    let entries := found.foldl (fun es (k, v) => b.putEntry k v es) []
    pure (if kind = .set then .set (entries.map (·.1)) else .mapping entries, b)
  | _, _ => .error .malformed

/-- The building with one collection filled. -/
def fill (b : Building) (waiting : Nat × Nat) : Except Failure Building := do
  let (level, b) ← b.contents waiting.1
  pure { b with cells := b.cells.setIfInBounds waiting.2 level }

/-- The building with all collections filled, those that wait now before those that they hold.
Every round fills a node that was not filled before. -/
def finish : Nat → Building → Except Failure Building
  | 0, b => .ok b
  | n + 1, b =>
    if b.waiting.isEmpty then .ok b
    else do
      let b ← b.waiting.reverse.foldlM fill { b with waiting := [] }
      b.finish n

end Building

def Graph.value (g : Graph) : Except Failure Value := do
  let (place, b) ← (Building.start g).meet g.root
  let b ← b.finish (g.nodes.size + 1)
  pure ⟨b.cells, place⟩

/-- The value of a text: that of its only document, and null where there is none. -/
def read (text : String) : Except Failure Value := do
  match ← Graph.ofTokens (tokens text) with
  | none => pure .nothing
  | some graph => graph.value

end ThemedSheets.Yaml
