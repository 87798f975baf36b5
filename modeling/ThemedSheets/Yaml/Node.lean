import ThemedSheets.Yaml.Scalar
/- The nodes of a document: scalars, sequences and mappings with their tags. They form a graph: a
   node is told by its place in a table, so that it may be part of several others and even of
   itself. A mapping may take over entries of others under the key `<<`: they come first, so that
   its own entries win, and among several the first one wins. -/
namespace ThemedSheets.Yaml

/-- What a node holds: a text, or other nodes. -/
inductive Content where
  | scalar (text : String)
  | sequence (items : List Nat)
  | mapping (entries : List (Nat × Nat))
  deriving Repr

structure Node where
  tag : String
  content : Content
  deriving Repr

/-- The node of a place where nothing is written. -/
def Node.nothing : Node := ⟨coreTag "null", .scalar ""⟩

/-- The nodes of a document, and the place of the outermost one. -/
structure Graph where
  nodes : Array Node
  root : Nat
  deriving Repr

namespace Graph

/-! ## Nodes by place -/

def node (g : Graph) (place : Nat) : Node := (g.nodes[place]?).getD .nothing

/-- The graph with other contents at a place. -/
def setContent (g : Graph) (place : Nat) (content : Content) : Graph :=
  { g with nodes := g.nodes.modify place fun node => { node with content } }

def setTag (g : Graph) (place : Nat) (tag : String) : Graph :=
  { g with nodes := g.nodes.modify place fun node => { node with tag } }

def entries (g : Graph) (place : Nat) : List (Nat × Nat) :=
  match (g.node place).content with
  | .mapping entries => entries
  | _ => []

def isMapping (g : Graph) (place : Nat) : Bool :=
  match (g.node place).content with
  | .mapping _ => true
  | _ => false

def hasTag (g : Graph) (name : String) (place : Nat) : Bool :=
  (g.node place).tag == coreTag name

/-- Whether an entry asks for the entries of other mappings. -/
def isMerge (g : Graph) (entry : Nat × Nat) : Bool := g.hasTag "merge" entry.1

/-- Whether an entry holds the scalar that its mapping may stand for. -/
def isValue (g : Graph) (entry : Nat × Nat) : Bool := g.hasTag "value" entry.1

/-- The text of a scalar. A mapping stands for the scalar under its value key; one that stands for
itself in this way has no text. -/
def scalarText (g : Graph) : Nat → Nat → Except Failure String
  | 0, _ => .error .tooDeep
  | n + 1, place =>
    match (g.node place).content with
    | .scalar text => .ok text
    | .sequence _ => .error .malformed
    | .mapping entries =>
      match entries.find? g.isValue with
      | some (_, v) => scalarText g n v
      | none => .error .malformed

/-! ## Entries of other mappings -/

/-- How many entries of all mappings ask for the entries of others. -/
def mergeCount (g : Graph) : Nat :=
  ((List.range g.nodes.size).flatMap fun place => (g.entries place).filter g.isMerge).length

/-- The mappings whose entries are taken over from a place: the one there, or those of the sequence
there. -/
def lenders (g : Graph) (place : Nat) : Except Failure (List Nat) :=
  match (g.node place).content with
  | .mapping _ => .ok [place]
  | .sequence items => if items.all g.isMapping then .ok items else .error .malformed
  | .scalar _ => .error .malformed

/-- The graph in which the value keys of a mapping are texts. -/
def valueKeysAsText (g : Graph) (entries : List (Nat × Nat)) : Graph :=
  (entries.filter g.isValue).foldl (fun g entry => g.setTag entry.1 (coreTag "str")) g

/-- The graph in which the mapping at a place holds the entries that it takes over, `taken` being
those already found, and its value key is a text. Each step strikes out one entry that asks for
others, so no more steps are needed than there are such entries. A mapping that takes over from
itself finds the entries that are left then. -/
def takeOver (place : Nat) (taken : List (Nat × Nat)) : Nat → Graph → Except Failure Graph
  | 0, g => .ok g
  | n + 1, g =>
    let own := g.entries place
    match own.find? g.isMerge with
    | none =>
      let g := g.valueKeysAsText own
      .ok (if taken.isEmpty then g else g.setContent place (.mapping (taken ++ own)))
    | some (_, v) => do
      let lenders ← g.lenders v
      let g := g.setContent place (.mapping (own.eraseP g.isMerge))
      let g ← lenders.foldlM (fun g lender => takeOver lender [] n g) g
      takeOver place (taken ++ lenders.reverse.flatMap g.entries) n g

end Graph

end ThemedSheets.Yaml
