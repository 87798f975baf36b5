import Mathlib.Data.List.Basic
import ThemedSheets.Proofs.Run
import ThemedSheets.Proofs.Scope.Entries
/- What validation makes of a list of entries. The check of an entry comes to an end exactly where the
   entry is decided (`checkable_iff`). Every entry is looked at on its own: where all checks come to an
   end, the report has the scopes and the diagnostics of the entries one after another
   (`outcome_checkAll`), and an entry that gives a scope has no diagnostic (`problems_eq_nil`). On
   the way only log records are left (`leaves_validate`). -/
namespace ThemedSheets
namespace Validation

/-! ## One entry -/

/-- The check of the entry comes to an end: the file system answers, and every value that a
diagnostic tells has a text. -/
def Checkable (files : FileSystem) (entry : ScopeEntry) : Prop :=
  ∃ result, check files entry = .ok result

def scope? (files : FileSystem) (entry : ScopeEntry) : Option Scope :=
  match check files entry with
  | .ok (found, _) => found
  | .error _ => none

def problems (files : FileSystem) (entry : ScopeEntry) : List Diagnostic :=
  match check files entry with
  | .ok (_, problems) => problems
  | .error _ => []

theorem check_eq {files : FileSystem} {entry : ScopeEntry} (h : Checkable files entry) :
    check files entry = .ok (scope? files entry, problems files entry) := by
  obtain ⟨⟨found, ds⟩, h⟩ := h
  simp only [scope?, problems, h]

theorem checkable_of_scope? {files : FileSystem} {entry : ScopeEntry} {s : Scope}
    (h : scope? files entry = some s) : Checkable files entry := by
  unfold scope? at h
  split at h
  · next found ds hcheck => exact ⟨_, hcheck⟩
  · simp at h

/-- The check of an entry ends exactly where the entry is decided. -/
theorem checkable_iff {files : FileSystem} {entry : ScopeEntry} :
    Checkable files entry ↔ entry.IsDecided files := by
  constructor
  · rintro ⟨⟨found, ds⟩, hcheck⟩ name hname
    cases check_eq_ok_iff.1 hcheck with
    | unnamed hno => exact absurd hname (hno name)
    | file _ hpath hfile =>
      rw [hpath]
      exact List.forall_mem_singleton.2 (.inl ⟨_, hfile⟩)
    | noFile _ hpath hnowhere htold =>
      obtain ⟨text, htext, -⟩ := htold
      rw [hpath]
      exact List.forall_mem_singleton.2 (.inr ⟨hnowhere, text, htext⟩)
    | files _ hpath hfiles =>
      rw [hpath]
      exact fun v hv => .inl (Outcome.exists_forall₂_iff.1 ⟨_, hfiles⟩ v hv)
    | noFiles _ hpath hrest htold =>
      rw [hpath]
      intro v hv
      cases hnowhere : leadsNowhere files v with
      | false => exact .inl (hrest v hv hnowhere)
      | true =>
        obtain ⟨d, text, htext, -⟩ :=
          Outcome.exists_forall₂_iff.1 ⟨_, htold⟩ v (List.mem_filter.2 ⟨hv, hnowhere⟩)
        exact .inr ⟨hnowhere, text, htext⟩
  · intro h
    by_cases hnamed : ∃ name, entry.IsNamed name
    · obtain ⟨name, hname⟩ := hnamed
      cases hpath : entry.path with
      | one v =>
        have hv : IsDecided files v := h name hname v (by rw [hpath]; exact List.mem_cons_self)
        rcases hv with ⟨p, hfile⟩ | ⟨hnowhere, text, htext⟩
        · exact ⟨_, check_eq_ok_iff.2 (.file hname hpath hfile)⟩
        · exact ⟨_, check_eq_ok_iff.2 (.noFile hname hpath hnowhere ⟨text, htext, rfl⟩)⟩
      | many items =>
        have hitems : ∀ v ∈ items, IsDecided files v := fun v hv =>
          h name hname v (by rw [hpath]; exact hv)
        have hrest : ∀ v ∈ items, leadsNowhere files v = false → ∃ p, IsFilePath files v p :=
          fun v hv hnot => (hitems v hv).resolve_right fun hnowhere => by simp [hnot] at hnowhere
        obtain ⟨ds, htold⟩ : ∃ ds, List.Forall₂ (TellsOf name toldItem)
            (items.filter (leadsNowhere files)) ds := by
          refine Outcome.exists_forall₂_iff.2 fun v hv => ?_
          obtain ⟨hmem, hnowhere⟩ := List.mem_filter.1 hv
          rcases hitems v hmem with ⟨p, hfile⟩ | ⟨-, text, htext⟩
          · simp [leadsNowhere_eq_false hfile] at hnowhere
          · exact ⟨_, text, htext, rfl⟩
        cases ds with
        | nil =>
          obtain ⟨ps, hkept⟩ := exists_kept_iff.2 hrest
          have hfiles := forall₂_isFilePath_iff.2 ⟨hkept, List.forall₂_nil_right_iff.1 htold⟩
          exact ⟨_, check_eq_ok_iff.2 (.files hname hpath hfiles)⟩
        | cons d ds => exact ⟨_, check_eq_ok_iff.2 (.noFiles hname hpath hrest htold)⟩
    · exact ⟨_, check_of_unnamed (not_exists.1 hnamed)⟩

theorem comesTo_scope? {files : FileSystem} {entry : ScopeEntry} (h : Checkable files entry) :
    entry.ComesTo files (scope? files entry) (problems files entry) :=
  check_eq_ok_iff.1 (check_eq h)

theorem scope?_of_comesTo {files : FileSystem} {entry : ScopeEntry} {found : Option Scope}
    {ds : List Diagnostic} (h : entry.ComesTo files found ds) :
    scope? files entry = found ∧ problems files entry = ds := by
  simp only [scope?, problems, check_eq_ok_iff.2 h, and_self]

theorem problems_eq_nil {files : FileSystem} {entry : ScopeEntry} {s : Scope}
    (h : scope? files entry = some s) : problems files entry = [] := by
  rcases (comesTo_scope? (checkable_of_scope? h)).either with ⟨_, -, -, hnil⟩ | ⟨hnone, -⟩
  · exact hnil
  · simp [h] at hnone

theorem comesTo_of_scope? {files : FileSystem} {entry : ScopeEntry} {s : Scope}
    (h : scope? files entry = some s) : entry.ComesTo files (some s) [] := by
  rw [← h, ← problems_eq_nil h]
  exact comesTo_scope? (checkable_of_scope? h)

theorem isChecked_of_scope? {files : FileSystem} {entry : ScopeEntry} {s : Scope}
    (h : scope? files entry = some s) : s.IsChecked files := by
  rcases (comesTo_of_scope? h).either with ⟨t, ht, hsame, -⟩ | ⟨hnone, -⟩
  · rwa [Option.some.inj hsame]
  · cases hnone

/-! ## All entries -/

theorem isChecked_of_mem {files : FileSystem} {entries : List ScopeEntry} :
    ∀ s ∈ entries.filterMap (scope? files), s.IsChecked files := by
  intro s hs
  obtain ⟨entry, -, hscope⟩ := List.mem_filterMap.1 hs
  exact isChecked_of_scope? hscope

def kept (files : FileSystem) (entries : List ScopeEntry) : List ScopeEntry :=
  entries.filter fun entry => (scope? files entry).isSome

/-- What is told about entries: the scopes that they give, or the one that stands for no scoping,
and what is wrong with them. -/
def reportOf (files : FileSystem) (entries : List ScopeEntry) : ValidationReport :=
  let scopes := entries.filterMap (scope? files)
  ⟨if scopes = [] then [Scope.unscoped] else scopes, entries.flatMap (problems files)⟩

theorem outcome_checkAll {files : FileSystem} {entries : List ScopeEntry}
    (h : ∀ entry ∈ entries, Checkable files entry) (seen : List String) :
    (checkAll files seen entries).outcome
      = .ok (entries.filterMap (scope? files), entries.flatMap (problems files)) := by
  induction entries generalizing seen with
  | nil => rfl
  | cons entry entries ih =>
    rw [List.forall_mem_cons] at h
    have ih := ih h.2
    have hcheck : Run.ofExcept (check files entry)
        = pure (scope? files entry, problems files entry) := by
      rw [check_eq h.1]
      rfl
    rw [checkAll, hcheck, pure_bind, List.flatMap_cons]
    cases hscope : scope? files entry with
    | none =>
      rw [List.filterMap_cons_none hscope]
      dsimp only
      rw [Run.bind_pure_map, ih]
      rfl
    | some s =>
      have hrest : ∀ seen, (checkAll files seen entries >>= fun rest =>
            pure (s :: rest.1, problems files entry ++ rest.2)).outcome
          = .ok (s :: entries.filterMap (scope? files),
              problems files entry ++ entries.flatMap (problems files)) := by
        intro seen
        rw [Run.bind_pure_map, ih]
        rfl
      rw [List.filterMap_cons_some hscope]
      -- a name that is met again is only logged
      dsimp only
      split
      · rw [Run.bind_of_ok rfl]
        exact hrest _
      · exact hrest _

theorem outcome_validate {files : FileSystem} {entries : List ScopeEntry}
    (h : ∀ entry ∈ entries, Checkable files entry) :
    (validate files (some entries)).outcome = .ok (reportOf files entries) := by
  rw [validate, Run.bind_of_ok (outcome_checkAll h [])]
  by_cases hnone : entries.filterMap (scope? files) = []
  · simp only [reportOf, hnone, List.isEmpty_nil, if_true]
    rfl
  · simp only [reportOf, List.isEmpty_iff, hnone, if_false]
    rfl

/-- Entries that give no scope are told of, and all else that is told comes from the others. -/
theorem reportOf_kept (files : FileSystem) (entries : List ScopeEntry) :
    reportOf files (kept files entries) = ⟨(reportOf files entries).scopes, []⟩ := by
  have hscopes : (kept files entries).filterMap (scope? files)
      = entries.filterMap (scope? files) := by
    rw [kept, List.filterMap_filter]
    refine List.filterMap_congr fun entry _ => ?_
    cases scope? files entry <;> rfl
  have hproblems : (kept files entries).flatMap (problems files) = [] := by
    rw [List.flatMap_eq_nil_iff]
    intro entry hentry
    obtain ⟨s, hs⟩ := Option.isSome_iff_exists.1 (List.mem_filter.1 hentry).2
    exact problems_eq_nil hs
  rw [reportOf, hscopes, hproblems]
  rfl

/-! ## What is left behind -/

section
variable {P : Event → Prop} (hlog : ∀ record, P (.logged record false))
include hlog

theorem leaves_checkAll (files : FileSystem) (seen : List String) (entries : List ScopeEntry) :
    (checkAll files seen entries).Leaves P := by
  induction entries generalizing seen with
  | nil => exact .pure _
  | cons entry entries ih =>
    refine .bind (.ofExcept _) fun (found, ds) => ?_
    cases found with
    | none => exact .bind (ih seen) fun _ => .pure _
    | some s =>
      have hrest : (checkAll files (s.name :: seen) entries >>= fun rest =>
          pure (s :: rest.1, ds ++ rest.2)).Leaves P := .bind (ih _) fun _ => .pure _
      dsimp only
      split
      · exact .bind (.log hlog _ _ _) fun _ => hrest
      · exact hrest

theorem leaves_validate (files : FileSystem) (entries : Option (List ScopeEntry)) :
    (validate files entries).Leaves P := by
  cases entries with
  | none => exact .pure _
  | some entries =>
    refine .bind (leaves_checkAll hlog files [] entries) fun (scopes, ds) => ?_
    dsimp only
    split
    · exact .bind (.log hlog _ _ _) fun _ => .pure _
    · exact .pure _

end

end Validation

theorem leaves_logDiagnostics {P : Event → Prop}
    (hlog : ∀ record, P (.logged record false)) (channel : String)
    (ds : List Diagnostic) : (logDiagnostics channel ds).Leaves P := by
  induction ds with
  | nil => exact .pure ()
  | cons d ds ih => exact .bind (.log hlog _ _ _) fun _ => ih

end ThemedSheets
