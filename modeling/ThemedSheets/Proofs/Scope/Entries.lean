import Mathlib.Data.List.Forall2
import ThemedSheets.Proofs.Outcome
import ThemedSheets.Scope.Validation
/- What an entry comes to. It comes to a scope without a diagnostic, or to diagnostics without a scope,
   by rules that say which (`ScopeEntry.ComesTo`), and that is what the check of it returns
   (`check_eq_ok_iff`). The rules ask of a value whether it is a path to a file, or leads nowhere; a
   row of values is parted by that question (`checkItems_eq_ok_iff`). A scope that an entry comes to
   has a name, and files at all texts of its path; so it comes to itself (`comesTo_ofScope`). -/
namespace ThemedSheets
open ThemedSheets.Yaml

/-! ## Rules -/

def RequestedPath.values : RequestedPath → List Value
  | .one v => [v]
  | .many items => items

/-- The entry has the name, which is not empty. -/
def ScopeEntry.IsNamed (entry : ScopeEntry) (name : String) : Prop :=
  entry.name.shape = .str name ∧ name ≠ ""

namespace Validation

def IsFilePath (files : FileSystem) (v : Value) (p : String) : Prop :=
  v.shape = .str p ∧ p ≠ "" ∧ files.hasFile p = .ok true

/-- The value is no path to a file: it is no text, or empty, or there is no file. -/
def leadsNowhere (files : FileSystem) (v : Value) : Bool :=
  match v.shape with
  | .str p => p = "" ∨ (files.hasFile p).toOption = some false
  | _ => true

/-- The value is a path to a file, or leads nowhere and can be written. Else the file system has no
answer about it, or its text is too long. -/
def IsDecided (files : FileSystem) (v : Value) : Prop :=
  (∃ p, IsFilePath files v p) ∨ (leadsNowhere files v = true ∧ ∃ text, v.text? = some text)

/-- The diagnostic tells of a value in the path of a scope. -/
def TellsOf (scope : String) (path : Value → Option String) (v : Value) (d : Diagnostic) : Prop :=
  ∃ text, v.text? = some text ∧
    d = ⟨scope, "Not found path: " ++ text ++ " in scope spec", path v⟩

/-- The path that is told of an item: its text, unless it is null. -/
def toldItem (v : Value) : Option String :=
  match v.shape with
  | .null => none
  | _ => v.text?

/-- The path that is told of a single value: the value if it is a text. -/
def toldSingle (v : Value) : Option String :=
  match v.shape with
  | .str s => some s
  | _ => none

end Validation

/-- An entry is decided if it has no name, or if every value that it names for a path is. -/
def ScopeEntry.IsDecided (files : FileSystem) (entry : ScopeEntry) : Prop :=
  ∀ name, entry.IsNamed name → ∀ v ∈ entry.path.values, Validation.IsDecided files v

/-- What an entry comes to: a scope, or what is wrong with it. -/
inductive ScopeEntry.ComesTo (files : FileSystem) (entry : ScopeEntry) :
    Option Scope → List Diagnostic → Prop where
  /-- Of an entry without a name that alone is told, whatever its path. -/
  | unnamed (hname : ∀ name, ¬ entry.IsNamed name) :
    entry.ComesTo files none [⟨"", "Not found scopeName in scope spec", none⟩]
  | file {name : String} {v : Value} {p : String} (hname : entry.IsNamed name)
    (hpath : entry.path = .one v) (hfile : Validation.IsFilePath files v p) :
    entry.ComesTo files (some ⟨name, .one p⟩) []
  | noFile {name : String} {v : Value} {d : Diagnostic} (hname : entry.IsNamed name)
    (hpath : entry.path = .one v) (hnowhere : Validation.leadsNowhere files v = true)
    (htold : Validation.TellsOf name Validation.toldSingle v d) : entry.ComesTo files none [d]
  | files {name : String} {items : List Value} {ps : List String} (hname : entry.IsNamed name)
    (hpath : entry.path = .many items)
    (hfiles : List.Forall₂ (Validation.IsFilePath files) items ps) :
    entry.ComesTo files (some ⟨name, .many ps⟩) []
  /-- Each item that leads nowhere is told of once, in order; every other is a path to a file. -/
  | noFiles {name : String} {items : List Value} {d : Diagnostic} {ds : List Diagnostic}
    (hname : entry.IsNamed name) (hpath : entry.path = .many items)
    (hrest : ∀ v ∈ items, Validation.leadsNowhere files v = false →
      ∃ p, Validation.IsFilePath files v p)
    (htold : List.Forall₂ (Validation.TellsOf name Validation.toldItem)
      (items.filter (Validation.leadsNowhere files)) (d :: ds)) :
    entry.ComesTo files none (d :: ds)

namespace Validation
variable {files : FileSystem}

/-! ## Values -/

theorem filePath?_eq_some_iff {v : Value} {p : String} :
    filePath? files v = .ok (some p) ↔ IsFilePath files v p := by
  unfold filePath? IsFilePath
  split
  · next q hq =>
    rw [hq]
    by_cases hempty : q = ""
    · simp only [hempty, if_true, Shape.str.injEq]
      constructor
      · intro h; simp at h
      · rintro ⟨rfl, hne, -⟩
        exact absurd rfl hne
    · rw [if_neg hempty]
      cases hfound : files.hasFile q with
      | error e =>
        simp only [Shape.str.injEq, reduceCtorEq, false_iff]
        rintro ⟨rfl, -, h⟩
        simp [hfound] at h
      | ok found =>
        cases found <;> simp only [Shape.str.injEq, Bool.false_eq_true, if_false, if_true,
          Except.ok.injEq, reduceCtorEq, false_iff, Option.some.injEq]
        · rintro ⟨rfl, -, h⟩
          simp [hfound] at h
        · constructor
          · rintro rfl
            exact ⟨rfl, hempty, hfound⟩
          · exact fun h => h.1
  · next hno =>
    simp only [Except.ok.injEq, reduceCtorEq, false_iff]
    exact fun h => hno p h.1

theorem filePath?_eq_none_iff {v : Value} :
    filePath? files v = .ok none ↔ leadsNowhere files v = true := by
  unfold filePath? leadsNowhere
  cases v.shape with
  | str q =>
    by_cases hempty : q = ""
    · simp [hempty]
    · cases hfound : files.hasFile q with
      | error e => simp [hempty, hfound, Except.toOption]
      | ok found => cases found <;> simp [hempty, hfound, Except.toOption]
  | _ => simp

theorem leadsNowhere_eq_false {v : Value} {p : String} (h : IsFilePath files v p) :
    leadsNowhere files v = false := by
  rw [← Bool.not_eq_true, ← filePath?_eq_none_iff, filePath?_eq_some_iff.2 h]
  simp

theorem leadsNowhere_of_blank {v : Value} (h : ∀ p, v.shape = .str p → p = "") :
    leadsNowhere files v = true := by
  unfold leadsNowhere
  split
  · next p hp => simp [h p hp]
  · rfl

theorem missing_eq_ok_iff {scope : String} {v : Value}
    {named : Value → Except Fault (Option String)} {path : Value → Option String} {d : Diagnostic}
    (hnamed : ∀ text, v.text? = some text → named v = .ok (path v)) :
    missing scope v named = .ok d ↔ TellsOf scope path v d := by
  unfold missing TellsOf shown
  cases htext : v.text? with
  | none => simp [bind, Except.bind]
  | some text =>
    rw [hnamed text htext]
    simp [bind, Except.bind, pure, Except.pure, eq_comm]

theorem singlePath_eq (v : Value) : singlePath v = .ok (toldSingle v) := by
  unfold singlePath toldSingle
  cases v.shape <;> rfl

theorem missing_single_iff {scope : String} {v : Value} {d : Diagnostic} :
    missing scope v singlePath = .ok d ↔ TellsOf scope toldSingle v d :=
  missing_eq_ok_iff fun _ _ => singlePath_eq v

theorem missing_item_iff {scope : String} {v : Value} {d : Diagnostic} :
    missing scope v itemPath = .ok d ↔ TellsOf scope toldItem v d := by
  refine missing_eq_ok_iff fun text htext => ?_
  unfold itemPath toldItem shown
  rw [htext]
  cases v.shape <;> rfl

/-- The check of a row parts its items: those that are paths to files are kept, those that lead nowhere
are told of, and there are no others. -/
theorem checkItems_eq_ok_iff {scope : String} {items : List Value} {ps : List String}
    {ds : List Diagnostic} :
    checkItems files scope items = .ok (ps, ds) ↔
      List.Forall₂ (IsFilePath files) (items.filter (!leadsNowhere files ·)) ps ∧
        List.Forall₂ (TellsOf scope toldItem) (items.filter (leadsNowhere files)) ds := by
  induction items generalizing ps ds with
  | nil =>
    rw [checkItems, Except.ok.injEq, Prod.mk.injEq, List.filter_nil, List.filter_nil,
      List.forall₂_nil_left_iff, List.forall₂_nil_left_iff, eq_comm, @eq_comm _ [] ds]
  | cons v items ih =>
    rw [checkItems]
    cases hpath : filePath? files v with
    | error e =>
      -- the value is neither kept nor told of
      have hnot : leadsNowhere files v = false := by
        rw [← Bool.not_eq_true, ← filePath?_eq_none_iff, hpath]
        simp
      have hno : ∀ p, ¬ IsFilePath files v p := by
        intro p h
        rw [filePath?_eq_some_iff.2 h] at hpath
        cases hpath
      simp [hnot, hno, List.forall₂_cons_left_iff]
    | ok path =>
      cases path with
      | some p =>
        have hfile := filePath?_eq_some_iff.1 hpath
        have hnot := leadsNowhere_eq_false hfile
        rw [List.filter_cons_of_pos (by simp [hnot]), List.filter_cons_of_neg (by simp [hnot])]
        dsimp only
        rw [Outcome.map_eq_ok]
        constructor
        · rintro ⟨⟨ps', ds'⟩, hrest, hsame⟩
          obtain ⟨rfl, rfl⟩ := Prod.mk.inj hsame
          exact ⟨.cons hfile (ih.1 hrest).1, (ih.1 hrest).2⟩
        · rintro ⟨hkept, htold⟩
          obtain ⟨q, ps', hq, hrest, rfl⟩ := List.forall₂_cons_left_iff.1 hkept
          obtain rfl : p = q := Shape.str.inj (hfile.1.symm.trans hq.1)
          exact ⟨(ps', ds), ih.2 ⟨hrest, htold⟩, rfl⟩
      | none =>
        have hnowhere := filePath?_eq_none_iff.1 hpath
        rw [List.filter_cons_of_neg (by simp [hnowhere]), List.filter_cons_of_pos hnowhere]
        dsimp only
        constructor
        · intro h
          split at h
          · cases h
          · next d hd =>
            obtain ⟨⟨ps', ds'⟩, hrest, hsame⟩ := Outcome.map_eq_ok.1 h
            obtain ⟨rfl, rfl⟩ := Prod.mk.inj hsame
            exact ⟨(ih.1 hrest).1, .cons (missing_item_iff.1 hd) (ih.1 hrest).2⟩
        · rintro ⟨hkept, htold⟩
          obtain ⟨d, ds', hd, hrest, rfl⟩ := List.forall₂_cons_left_iff.1 htold
          rw [missing_item_iff.2 hd]
          exact Outcome.map_eq_ok.2 ⟨(ps, ds'), ih.2 ⟨hkept, hrest⟩, rfl⟩

/-! ## One entry -/

theorem check_of_unnamed {entry : ScopeEntry} (h : ∀ name, ¬ entry.IsNamed name) :
    check files entry = .ok (none, [⟨"", "Not found scopeName in scope spec", none⟩]) := by
  unfold check
  split
  · next name hname =>
    have hempty : name = "" := by
      by_contra hne
      exact h name ⟨hname, hne⟩
    rw [if_pos hempty]
    rfl
  · rfl

theorem check_of_one {entry : ScopeEntry} {name : String} {v : Value} (h : entry.IsNamed name)
    (hpath : entry.path = .one v) :
    check files entry = match filePath? files v with
      | .error e => .error e
      | .ok (some p) => .ok (some ⟨name, .one p⟩, [])
      | .ok none => (missing name v singlePath).map fun d => (none, [d]) := by
  unfold check
  rw [h.1, hpath]
  exact if_neg h.2

theorem check_of_many {entry : ScopeEntry} {name : String} {items : List Value}
    (h : entry.IsNamed name) (hpath : entry.path = .many items) :
    check files entry = match checkItems files name items with
      | .error e => .error e
      | .ok (ps, []) => .ok (some ⟨name, .many ps⟩, [])
      | .ok (_, ds) => .ok (none, ds) := by
  unfold check
  rw [h.1, hpath]
  exact if_neg h.2

theorem forall₂_isFilePath_iff {items : List Value} {ps : List String} :
    List.Forall₂ (IsFilePath files) items ps ↔
      List.Forall₂ (IsFilePath files) (items.filter (!leadsNowhere files ·)) ps ∧
        items.filter (leadsNowhere files) = [] := by
  have hself : items.filter (leadsNowhere files) = [] →
      items.filter (!leadsNowhere files ·) = items := fun h =>
    List.filter_eq_self.2 fun v hv => by simpa using List.filter_eq_nil_iff.1 h v hv
  constructor
  · intro h
    have hnone : items.filter (leadsNowhere files) = [] := by
      refine List.filter_eq_nil_iff.2 fun v hv => ?_
      obtain ⟨p, hp⟩ := Outcome.exists_forall₂_iff.1 ⟨ps, h⟩ v hv
      simp [leadsNowhere_eq_false hp]
    rw [hself hnone]
    exact ⟨h, hnone⟩
  · rintro ⟨h, hnone⟩
    rwa [hself hnone] at h

theorem exists_kept_iff {items : List Value} :
    (∃ ps, List.Forall₂ (IsFilePath files) (items.filter (!leadsNowhere files ·)) ps) ↔
      ∀ v ∈ items, leadsNowhere files v = false → ∃ p, IsFilePath files v p := by
  rw [Outcome.exists_forall₂_iff]
  simp only [List.mem_filter, Bool.not_eq_true', and_imp]

/-- What the check of an entry returns is what the entry comes to. -/
theorem check_eq_ok_iff {entry : ScopeEntry} {found : Option Scope} {ds : List Diagnostic} :
    check files entry = .ok (found, ds) ↔ entry.ComesTo files found ds := by
  constructor
  · intro h
    by_cases hnamed : ∃ name, entry.IsNamed name
    · obtain ⟨name, hname⟩ := hnamed
      cases hpath : entry.path with
      | one v =>
        rw [check_of_one hname hpath] at h
        split at h
        · cases h
        · next p hp =>
          obtain ⟨rfl, rfl⟩ := Prod.mk.inj (Except.ok.inj h)
          exact .file hname hpath (filePath?_eq_some_iff.1 hp)
        · next hnone =>
          obtain ⟨d, hd, hsame⟩ := Outcome.map_eq_ok.1 h
          obtain ⟨rfl, rfl⟩ := Prod.mk.inj hsame
          exact .noFile hname hpath (filePath?_eq_none_iff.1 hnone) (missing_single_iff.1 hd)
      | many items =>
        rw [check_of_many hname hpath] at h
        split at h
        · cases h
        · next ps hitems =>
          obtain ⟨rfl, rfl⟩ := Prod.mk.inj (Except.ok.inj h)
          obtain ⟨hkept, htold⟩ := checkItems_eq_ok_iff.1 hitems
          have hnone := List.forall₂_nil_right_iff.1 htold
          exact .files hname hpath (forall₂_isFilePath_iff.2 ⟨hkept, hnone⟩)
        · next ps ds' hne hitems =>
          obtain ⟨rfl, rfl⟩ := Prod.mk.inj (Except.ok.inj h)
          obtain ⟨hkept, htold⟩ := checkItems_eq_ok_iff.1 hitems
          obtain ⟨d, ds, rfl⟩ := List.exists_cons_of_ne_nil hne
          exact .noFiles hname hpath (exists_kept_iff.1 ⟨ps, hkept⟩) htold
    · have hno := not_exists.1 hnamed
      rw [check_of_unnamed hno] at h
      obtain ⟨rfl, rfl⟩ := Prod.mk.inj (Except.ok.inj h)
      exact .unnamed hno
  · intro h
    cases h with
    | unnamed hname => exact check_of_unnamed hname
    | file hname hpath hfile => rw [check_of_one hname hpath, filePath?_eq_some_iff.2 hfile]
    | noFile hname hpath hnowhere htold =>
      rw [check_of_one hname hpath, filePath?_eq_none_iff.2 hnowhere]
      exact Outcome.map_eq_ok.2 ⟨_, missing_single_iff.2 htold, rfl⟩
    | files hname hpath hfiles =>
      obtain ⟨hkept, hnone⟩ := forall₂_isFilePath_iff.1 hfiles
      rw [check_of_many hname hpath,
        checkItems_eq_ok_iff.2 ⟨hkept, List.forall₂_nil_right_iff.2 hnone⟩]
    | noFiles hname hpath hrest htold =>
      obtain ⟨ps, hkept⟩ := exists_kept_iff.2 hrest
      rw [check_of_many hname hpath, checkItems_eq_ok_iff.2 ⟨hkept, htold⟩]

end Validation

/-! ## Scopes -/

def ScopePath.texts : ScopePath → List String
  | .one p => [p]
  | .many ps => ps

/-- The scope has a name, and every text of its path is that of a file. -/
def Scope.IsChecked (files : FileSystem) (s : Scope) : Prop :=
  s.name ≠ "" ∧ ∀ p ∈ s.path.texts, p ≠ "" ∧ files.hasFile p = .ok true

theorem Scope.IsChecked.paths_eq {files : FileSystem} {s : Scope} (h : s.IsChecked files) :
    s.paths = s.path.texts := by
  obtain ⟨name, path⟩ := s
  have htexts : ∀ p ∈ path.texts, p ≠ "" := fun p hp => (h.2 p hp).1
  cases path with
  | one p => exact if_neg (htexts p List.mem_cons_self)
  | many ps => exact List.filter_eq_self.2 fun p hp => decide_eq_true (htexts p hp)

/-- An entry comes to a checked scope without a diagnostic, or to diagnostics without a scope. -/
theorem ScopeEntry.ComesTo.either {files : FileSystem} {entry : ScopeEntry} {found : Option Scope}
    {ds : List Diagnostic} (h : entry.ComesTo files found ds) :
    (∃ s, s.IsChecked files ∧ found = some s ∧ ds = []) ∨ (found = none ∧ ds ≠ []) := by
  cases h with
  | unnamed _ => exact .inr ⟨rfl, List.cons_ne_nil _ _⟩
  | file hname _ hfile =>
    refine .inl ⟨_, ⟨hname.2, fun q hq => ?_⟩, rfl, rfl⟩
    obtain rfl := List.mem_singleton.1 hq
    exact hfile.2
  | noFile _ _ _ _ => exact .inr ⟨rfl, List.cons_ne_nil _ _⟩
  | files hname _ hfiles =>
    refine .inl ⟨_, ⟨hname.2, fun p hp => ?_⟩, rfl, rfl⟩
    obtain ⟨v, hv⟩ := Outcome.exists_forall₂_iff.1 ⟨_, List.Forall₂.flip hfiles⟩ p hp
    exact hv.2
  | noFiles _ _ _ _ => exact .inr ⟨rfl, List.cons_ne_nil _ _⟩

theorem Validation.comesTo_ofScope {files : FileSystem} {s : Scope} (h : s.IsChecked files) :
    (ScopeEntry.ofScope s).ComesTo files (some s) [] := by
  obtain ⟨name, path⟩ := s
  have hname : (ScopeEntry.ofScope ⟨name, path⟩).IsNamed name := ⟨rfl, h.1⟩
  cases path with
  | one p => exact .file hname rfl ⟨rfl, h.2 p List.mem_cons_self⟩
  | many ps =>
    refine .files hname rfl ?_
    rw [List.forall₂_map_left_iff, List.forall₂_same]
    exact fun p hp => ⟨rfl, h.2 p hp⟩

end ThemedSheets
