import ThemedSheets.SourceMap.Basic
/- Maps that others hold as well. A record of fields is held by its number, and a field that is dropped
   or set in it is dropped or set for all who hold it. So a record that is given is copied first, and
   the copy is brought into normal form step by step; `normalizeAmong_eq` says that the copy comes to
   what `normalize` gives. -/
namespace ThemedSheets.SourceMap

/-- Records of fields, each held by its number. -/
structure Records where
  all : List (Fields Json) := []

namespace Records

def get? (records : Records) (held : Nat) : Option (Fields Json) := records.all[held]?

/-- A record of its own with given fields, and its number. -/
def add (records : Records) (fields : Fields Json) : Records × Nat :=
  (⟨records.all ++ [fields]⟩, records.all.length)

/-- The records with one of them changed. -/
def change (records : Records) (held : Nat) (f : Fields Json → Fields Json) : Records :=
  ⟨records.all.modify held f⟩

end Records

/-- What is given as a map: a record that is held, or any other value. -/
inductive Given where
  | record (held : Nat)
  | value (v : Json)

def Given.fields (records : Records) : Given → Except SourceMapFault (Fields Json)
  | .record held =>
    match records.get? held with
    | some fields => .ok fields
    | none => .error .noRecord
  | .value (.str text) => fieldsOfText text
  | .value v => fieldsOfValue v

/-- Brings what is given into normal form, in a record of its own. A fault leaves that record as far as
it was brought. -/
def normalizeAmong (root : Path) (records : Records) (given : Given) :
    Records × Except SourceMapFault Nat :=
  match given.fields records with
  | .error e => (records, .error e)
  | .ok fields =>
    let (records, own) := records.add fields
    let records := records.change own (·.erase "file")
    let records := records.change own (·.put "sourceRoot" (.str ""))
    match sourceItems ((records.get? own).getD []) >>= placeSources root.toString with
    | .error e => (records, .error e)
    | .ok sources => (records.change own (·.put "sources" (.array sources)), .ok own)

namespace Records
variable (records : Records) (fields : Fields Json)

theorem change_add (f : Fields Json → Fields Json) :
    (records.add fields).1.change records.all.length f = (records.add (f fields)).1 := by
  obtain ⟨all⟩ := records
  simp only [add, change, mk.injEq]
  induction all with
  | nil => rfl
  | cons record all ih => exact congrArg (record :: ·) ih

theorem get?_add : (records.add fields).1.get? records.all.length = some fields :=
  List.getElem?_concat_length

theorem get?_add_of_some {held : Nat} {record : Fields Json} (h : records.get? held = some record) :
    (records.add fields).1.get? held = some record := by
  obtain ⟨hheld, -⟩ := List.getElem?_eq_some_iff.1 h
  rw [get?, add, List.getElem?_append_left hheld]
  exact h

theorem ne_of_get? {records : Records} {held : Nat} {record : Fields Json}
    (h : records.get? held = some record) : held ≠ records.all.length :=
  Nat.ne_of_lt (List.getElem?_eq_some_iff.1 h).1

end Records

theorem normalize_eq (root : Path) (records : Records) (v : Json) :
    normalize root v = (Given.value v).fields records >>= normalizeFields root.toString := by
  cases v <;> rfl

/-- The record that is made is the normal form of the fields that are given. -/
theorem normalizeAmong_eq (root : Path) {records : Records} {given : Given} {fields : Fields Json}
    (h : given.fields records = .ok fields) :
    normalizeAmong root records given =
      match normalizeFields root.toString fields with
      | .error e => ((records.add ((fields.erase "file").put "sourceRoot" (.str ""))).1, .error e)
      | .ok written => ((records.add written).1, .ok records.all.length) := by
  have hnumber : (records.add fields).2 = records.all.length := rfl
  unfold normalizeAmong normalizeFields
  rw [h]
  simp only [hnumber, Records.change_add, Records.get?_add, Option.getD_some]
  cases sourceItems ((fields.erase "file").put "sourceRoot" (.str "")) with
  | error e => rfl
  | ok items =>
    dsimp only [bind, Except.bind]
    cases placeSources root.toString items with
    | error e => rfl
    | ok sources => rfl

end ThemedSheets.SourceMap
