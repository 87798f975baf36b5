import ThemedSheets.Number.Shortest
/- JSON values as source maps hold them. Whole numbers keep every digit, other numbers are 64-bit
   floats, and an object keeps its fields in the order in which their names first came. -/
namespace ThemedSheets

inductive Json where
  | null
  | bool (b : Bool)
  | int (i : Int)
  | float (x : Number.Binary64)
  | str (s : String)
  | array (items : List Json)
  | object (fields : List (String × Json))
  deriving Repr, Inhabited

/-- An ordered record: fields by name, each name once. -/
abbrev Fields (α : Type) := List (String × α)

namespace Fields
variable {α : Type}

def get? (fields : Fields α) (name : String) : Option α :=
  (fields.find? (·.1 == name)).map (·.2)

/-- The record with a field set: in its place if the name is there, else at the end. -/
def put (fields : Fields α) (name : String) (value : α) : Fields α :=
  match fields with
  | [] => [(name, value)]
  | (n, v) :: rest => if n == name then (n, value) :: rest else (n, v) :: put rest name value

def erase (fields : Fields α) (name : String) : Fields α := fields.filter (·.1 != name)

theorem get?_put (fields : Fields α) (name : String) (value : α) :
    (fields.put name value).get? name = some value := by
  induction fields with
  | nil => simp [put, get?]
  | cons f rest ih =>
    obtain ⟨n, v⟩ := f
    by_cases h : n = name
    · simp [put, get?, h]
    · simp [put, get?, h] at ih ⊢
      exact ih

theorem map_fst_put (fields : Fields α) (name : String) (value : α) :
    (fields.put name value).map (·.1)
      = if name ∈ fields.map (·.1) then fields.map (·.1) else fields.map (·.1) ++ [name] := by
  induction fields with
  | nil => simp [put]
  | cons f rest ih =>
    obtain ⟨n, v⟩ := f
    by_cases h : n = name
    · simp [put, h]
    · have h' : ¬ name = n := fun e => h e.symm
      simp only [put, beq_iff_eq, h, if_false, List.map_cons, ih, List.mem_cons, h', false_or]
      split <;> simp

end Fields

end ThemedSheets
