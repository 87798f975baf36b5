import ThemedSheets.Proofs.Scope.Checking
import ThemedSheets.Proofs.Yaml.Texts
import ThemedSheets.Scope.Overrides
/- What validation promises about files. The check of an entry comes to an end if the file system
   answers about the paths that the entry names, and if the values that it would have to tell can be
   written (`checkable_of_answered`). Then validation ends with scopes whose paths lead to files
   (`validate_ends`), so where files can be read their overrides can be loaded
   (`Overrides.load_of_hasFile`). -/
namespace ThemedSheets
open ThemedSheets.Yaml

def ScopeEntry.IsAnswered (files : FileSystem) (entry : ScopeEntry) : Prop :=
  ∀ v ∈ entry.path.values, ∀ p, v.shape = .str p → p ≠ "" → ∃ found, files.hasFile p = .ok found

def ScopeEntry.IsWritable (entry : ScopeEntry) : Prop :=
  ∀ v ∈ entry.path.values, v.HasShortNumbers

namespace Validation
variable {files : FileSystem}

/-! ## Checks that come to an end -/

theorem exists_filePath? {v : Value}
    (h : ∀ p, v.shape = .str p → p ≠ "" → ∃ found, files.hasFile p = .ok found) :
    ∃ path, filePath? files v = .ok path := by
  unfold filePath?
  split
  · next p hp =>
    split
    · exact ⟨none, rfl⟩
    · next hne =>
      obtain ⟨found, hfound⟩ := h p hp hne
      exact ⟨if found then some p else none, by rw [hfound]⟩
  · exact ⟨none, rfl⟩

/-- The check of an entry comes to an end where the file system answers, unless there is something to
tell that cannot be written. -/
theorem checkable_of_answered {entry : ScopeEntry} (hanswered : entry.IsAnswered files)
    (hwritable : entry.IsWritable) : Checkable files entry := by
  refine checkable_iff.2 fun name _ v hv => ?_
  obtain ⟨path, hpath⟩ := exists_filePath? (hanswered v hv)
  cases path with
  | some p => exact .inl ⟨p, filePath?_eq_some_iff.1 hpath⟩
  | none => exact .inr ⟨filePath?_eq_none_iff.1 hpath, Value.exists_text? (hwritable v hv)⟩

/-! ## The files of scopes that remain -/

theorem hasFile_of_unscoped : ∀ p ∈ Scope.unscoped.paths, files.hasFile p = .ok true := by
  simp [Scope.paths, Scope.unscoped]

theorem validate_ends {entries : Option (List ScopeEntry)}
    (hanswered : ∀ entry ∈ entries.getD [], entry.IsAnswered files)
    (hwritable : ∀ entry ∈ entries.getD [], entry.IsWritable) :
    ∃ validated, (validate files entries).outcome = .ok validated ∧ validated.scopes ≠ [] ∧
      ∀ s ∈ validated.scopes, ∀ p ∈ s.paths, files.hasFile p = .ok true := by
  cases entries with
  | none =>
    exact ⟨⟨[Scope.unscoped], []⟩, rfl, List.cons_ne_nil _ _,
      List.forall_mem_singleton.2 hasFile_of_unscoped⟩
  | some entries =>
    have hchecks : ∀ entry ∈ entries, Checkable files entry := fun entry h =>
      checkable_of_answered (hanswered entry h) (hwritable entry h)
    refine ⟨reportOf files entries, outcome_validate hchecks, ?_⟩
    simp only [reportOf]
    split
    · exact ⟨List.cons_ne_nil _ _, List.forall_mem_singleton.2 hasFile_of_unscoped⟩
    · next hne =>
      refine ⟨hne, fun s hs p hp => ?_⟩
      have hchecked := isChecked_of_mem s hs
      rw [hchecked.paths_eq] at hp
      exact (hchecked.2 p hp).2

end Validation

namespace Overrides
variable {files : FileSystem} (hread : ∀ p, files.hasFile p = .ok true →
  ∃ text, files.readText p = .ok text)
include hread

theorem loadFiles_of_hasFile {paths : List String}
    (h : ∀ p ∈ paths, files.hasFile p = .ok true) : ∃ texts, loadFiles files paths = .ok texts := by
  induction paths with
  | nil => exact ⟨[], rfl⟩
  | cons p paths ih =>
    rw [List.forall_mem_cons] at h
    obtain ⟨text, htext⟩ := hread p h.1
    obtain ⟨texts, htexts⟩ := ih h.2
    exact ⟨_, by rw [loadFiles, loadFile, htext, htexts]; rfl⟩

theorem load_of_hasFile {s : Scope} (h : ∀ p ∈ s.paths, files.hasFile p = .ok true) :
    ∃ overrides, load files s.path = .ok overrides := by
  obtain ⟨name, path⟩ := s
  cases path with
  | one p =>
    by_cases hp : p = ""
    · exact ⟨"", by rw [load, if_pos hp]⟩
    · obtain ⟨text, htext⟩ := hread p (h p (by simp [Scope.paths, hp]))
      exact ⟨_, by rw [load, if_neg hp, loadFile, htext]; rfl⟩
  | many ps =>
    have hpaths : ∀ p ∈ ps.filter (· ≠ ""), files.hasFile p = .ok true := h
    obtain ⟨texts, htexts⟩ := loadFiles_of_hasFile hread hpaths
    exact ⟨_, by rw [load, htexts]; rfl⟩

end Overrides

end ThemedSheets
