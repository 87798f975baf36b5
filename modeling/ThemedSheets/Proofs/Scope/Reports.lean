import ThemedSheets.Proofs.Scope.Checking
/- Reports on lists of entries. Validation puts the scopes and the diagnostics of the entries one behind
   the other, so lists of entries do not touch each other (`validate_entry_by_entry`), and the scopes
   that it returns are validated to themselves (`validate_checked`). It returns unless the check of an
   entry does not end (`validate_returns_iff`), which is where the file system has no answer or a value
   cannot be written. -/
namespace ThemedSheets
namespace Validation
variable {files : FileSystem}

/-! ## All entries -/

theorem isDecided_of_checkAll {entries : List ScopeEntry} {seen : List String}
    {result : List Scope × List Diagnostic}
    (h : (checkAll files seen entries).outcome = .ok result) :
    ∀ entry ∈ entries, entry.IsDecided files := by
  induction entries generalizing seen result with
  | nil => simp
  | cons entry entries ih =>
    rw [checkAll] at h
    obtain ⟨⟨found, ds⟩, hcheck, h⟩ := Run.exists_of_bind_ok h
    have hentry : entry.IsDecided files := checkable_iff.1 ⟨_, hcheck⟩
    refine List.forall_mem_cons.2 ⟨hentry, ?_⟩
    cases found with
    | none =>
      obtain ⟨rest, hrest, -⟩ := Run.exists_of_bind_ok h
      exact ih hrest
    | some s =>
      dsimp only at h
      -- a name that is met again is only logged
      split at h
      · obtain ⟨_, -, h⟩ := Run.exists_of_bind_ok h
        obtain ⟨rest, hrest, -⟩ := Run.exists_of_bind_ok h
        exact ih hrest
      · obtain ⟨rest, hrest, -⟩ := Run.exists_of_bind_ok h
        exact ih hrest

/-- Validation returns exactly where every entry is decided. -/
theorem validate_returns_iff {entries : List ScopeEntry} :
    (∃ r, (validate files (some entries)).outcome = .ok r)
      ↔ ∀ entry ∈ entries, entry.IsDecided files := by
  constructor
  · rintro ⟨r, h⟩
    obtain ⟨result, hall, -⟩ := Run.exists_of_bind_ok h
    exact isDecided_of_checkAll hall
  · exact fun h => ⟨_, outcome_validate fun entry hentry => checkable_iff.2 (h entry hentry)⟩

end Validation

/-- The report on scopes that were found and on what is wrong with entries. Where there are no scopes
there is the one that stands for no scoping. -/
def ValidationReport.ofFound (scopes : List Scope) (diagnostics : List Diagnostic) :
    ValidationReport :=
  ⟨if scopes = [] then [Scope.unscoped] else scopes, diagnostics⟩

theorem ValidationReport.isFallback_ofFound {scopes : List Scope}
    (h : ∀ s ∈ scopes, s.name ≠ "") (diagnostics : List Diagnostic) :
    (ofFound scopes diagnostics).isFallback = true ↔ scopes = [] := by
  match scopes with
  | [] => exact iff_of_true rfl rfl
  | [s] => simpa [ofFound, isFallback] using h
  | s :: t :: rest => simp [ofFound, isFallback]

namespace Validation

theorem eq_ofFound_of_validate {entries : List ScopeEntry} {r : ValidationReport}
    (h : (validate files (some entries)).outcome = .ok r) :
    r = .ofFound (entries.filterMap (scope? files)) (entries.flatMap (problems files)) := by
  have hdecided := validate_returns_iff.1 ⟨r, h⟩
  rw [outcome_validate fun entry hentry => checkable_iff.2 (hdecided entry hentry)] at h
  exact (Except.ok.inj h).symm

theorem mem_scopes_iff {entries : List ScopeEntry} {r : ValidationReport}
    (h : (validate files (some entries)).outcome = .ok r) {s : Scope} :
    r.isFallback = false ∧ s ∈ r.scopes ↔ ∃ entry ∈ entries, entry.ComesTo files (some s) [] := by
  have hscope : (∃ entry ∈ entries, entry.ComesTo files (some s) [])
      ↔ s ∈ entries.filterMap (scope? files) := by
    rw [List.mem_filterMap]
    exact exists_congr fun entry => and_congr_right fun _ =>
      ⟨fun hs => (scope?_of_comesTo hs).1, comesTo_of_scope?⟩
  have hnames : ∀ t ∈ entries.filterMap (scope? files), t.name ≠ "" := fun t ht =>
    (isChecked_of_mem t ht).1
  rw [hscope, eq_ofFound_of_validate h, ← Bool.not_eq_true,
    ValidationReport.isFallback_ofFound hnames]
  constructor
  · rintro ⟨hne, hs⟩
    rwa [ValidationReport.ofFound, if_neg hne] at hs
  · intro hs
    have hne := List.ne_nil_of_mem hs
    exact ⟨hne, by rwa [ValidationReport.ofFound, if_neg hne]⟩

theorem validate_checked {scopes : List Scope} (hne : scopes ≠ [])
    (h : ∀ s ∈ scopes, s.IsChecked files) :
    (validate files (some (scopes.map ScopeEntry.ofScope))).outcome = .ok ⟨scopes, []⟩ := by
  have hcomes : ∀ s ∈ scopes, (ScopeEntry.ofScope s).ComesTo files (some s) [] :=
    fun s hs => comesTo_ofScope (h s hs)
  have hscopes : (scopes.map ScopeEntry.ofScope).filterMap (scope? files) = scopes := by
    rw [List.filterMap_map, List.filterMap_congr (g := some), List.filterMap_some]
    exact fun s hs => (scope?_of_comesTo (hcomes s hs)).1
  have hproblems : (scopes.map ScopeEntry.ofScope).flatMap (problems files) = [] := by
    rw [List.flatMap_map, List.flatMap_eq_nil_iff]
    exact fun s hs => (scope?_of_comesTo (hcomes s hs)).2
  rw [outcome_validate, reportOf, hscopes, hproblems, if_neg hne]
  exact List.forall_mem_map.2 fun s hs => ⟨_, check_eq_ok_iff.2 (hcomes s hs)⟩

/-- **Entries are validated on their own, and nothing is lost.** Validation returns exactly where every
entry is decided. Then the scopes that it finds among two lists of entries, put one behind the other,
are those that it finds among the first and those among the second, and so are the diagnostics. Every
entry contributes what it comes to: a scope and no diagnostic, or at least one diagnostic and no scope,
of which there is one for a bad name or a single bad path, and else one for each bad item, in order.
Each scope has a name and a path all of whose texts are those of files. The report falls back to no
scoping exactly where no scope is found, and where it does not, its scopes validated again are the same
scopes, without diagnostics. -/
theorem validate_entry_by_entry (files : FileSystem) (xs ys : List ScopeEntry) :
    ((∃ r, (validate files (some (xs ++ ys))).outcome = .ok r)
      ↔ ∀ entry ∈ xs ++ ys, entry.IsDecided files) ∧
    ∀ r, (validate files (some (xs ++ ys))).outcome = .ok r →
      ∃ (sx sy : List Scope) (dx dy : List Diagnostic)
        (parts : List (Option Scope × List Diagnostic)),
        (checkAll files [] xs).outcome = .ok (sx, dx) ∧
        (checkAll files [] ys).outcome = .ok (sy, dy) ∧
        (validate files (some xs)).outcome = .ok (.ofFound sx dx) ∧
        (validate files (some ys)).outcome = .ok (.ofFound sy dy) ∧
        r = .ofFound (sx ++ sy) (dx ++ dy) ∧
        List.Forall₂ (fun entry part => entry.ComesTo files part.1 part.2) (xs ++ ys) parts ∧
        sx ++ sy = parts.filterMap Prod.fst ∧ dx ++ dy = parts.flatMap Prod.snd ∧
        (∀ part ∈ parts, (∃ s, part = (some s, [])) ∨ (part.1 = none ∧ part.2 ≠ [])) ∧
        (∀ s ∈ sx ++ sy, s.IsChecked files) ∧
        (r.isFallback = true ↔ sx ++ sy = []) ∧
        (r.isFallback = false →
          (validate files (some (r.scopes.map ScopeEntry.ofScope))).outcome
            = .ok ⟨r.scopes, []⟩) := by
  refine ⟨validate_returns_iff, fun r hr => ?_⟩
  have hdecided := validate_returns_iff.1 ⟨r, hr⟩
  have hcheckable : ∀ entry ∈ xs ++ ys, Checkable files entry :=
    fun entry hentry => checkable_iff.2 (hdecided entry hentry)
  obtain ⟨hxs, hys⟩ := List.forall_mem_append.1 hcheckable
  have hr := eq_ofFound_of_validate hr
  rw [List.filterMap_append, List.flatMap_append] at hr
  have hchecked : ∀ s ∈ xs.filterMap (scope? files) ++ ys.filterMap (scope? files),
      s.IsChecked files := by
    rw [← List.filterMap_append]
    exact isChecked_of_mem
  have hfallback := ValidationReport.isFallback_ofFound (fun s hs => (hchecked s hs).1)
    (xs.flatMap (problems files) ++ ys.flatMap (problems files))
  refine ⟨_, _, _, _, (xs ++ ys).map fun entry => (scope? files entry, problems files entry),
    outcome_checkAll hxs [], outcome_checkAll hys [], outcome_validate hxs, outcome_validate hys,
    hr, ?_, ?_, ?_, ?_, hchecked, by rwa [hr], ?_⟩
  · rw [List.forall₂_map_right_iff, List.forall₂_same]
    exact fun entry hentry => comesTo_scope? (hcheckable entry hentry)
  · rw [List.filterMap_map, ← List.filterMap_append]
    rfl
  · rw [List.flatMap_map, ← List.flatMap_append]
  · refine List.forall_mem_map.2 fun entry hentry => ?_
    rcases (comesTo_scope? (hcheckable entry hentry)).either with
      ⟨s, -, hscope, hproblems⟩ | hnone
    · exact .inl ⟨s, by rw [hscope, hproblems]⟩
    · exact .inr hnone
  · intro hnot
    have hne := mt hfallback.2 (by rw [← hr, hnot]; exact Bool.false_ne_true)
    rw [hr]
    simp only [ValidationReport.ofFound, if_neg hne]
    exact validate_checked hne hchecked

/-- Three entries and two: a scope, one without a name, one with two bad items of three, and then a
scope of two files and one whose path leads to no file. -/
theorem validate_entry_by_entry_of_five :
    let files : FileSystem := ⟨fun p => .ok (p == "a.scss" || p == "b.scss"), fun _ => .ok ""⟩
    let xs : List ScopeEntry := [⟨.ofText "a", .one (.ofText "a.scss")⟩, .nothing,
      ⟨.ofText "c", .many [.ofText "", .ofText "b.scss", .nothing]⟩]
    let ys : List ScopeEntry := [⟨.ofText "d", .many [.ofText "a.scss", .ofText "b.scss"]⟩,
      ⟨.ofText "e", .one (.ofText "themes")⟩]
    let scopes : List Scope := [⟨"a", .one "a.scss"⟩, ⟨"d", .many ["a.scss", "b.scss"]⟩]
    let report : ValidationReport := ⟨scopes, [
      ⟨"", "Not found scopeName in scope spec", none⟩,
      ⟨"c", "Not found path:  in scope spec", some ""⟩,
      ⟨"c", "Not found path: None in scope spec", none⟩,
      ⟨"e", "Not found path: themes in scope spec", some "themes"⟩]⟩
    (∀ entry ∈ xs ++ ys, entry.IsDecided files) ∧
      (validate files (some (xs ++ ys))).outcome = .ok report ∧
      (∃ dx dy, report.diagnostics = dx ++ dy ∧
        (checkAll files [] xs).outcome = .ok ([⟨"a", .one "a.scss"⟩], dx) ∧ dx.length = 3) ∧
      (validate files (some (scopes.map ScopeEntry.ofScope))).outcome = .ok ⟨scopes, []⟩ := by
  intro files xs ys scopes report
  have hreport : (validate files (some (xs ++ ys))).outcome = .ok report :=
    Run.outcome_eq_ok (by decide +kernel)
  obtain ⟨hdecided, hparts⟩ := validate_entry_by_entry files xs ys
  obtain ⟨sx, sy, dx, dy, parts, hxs, -, -, -, hfound, -, -, -, -, -, -, hagain⟩ :=
    hparts report hreport
  have hfirst : (checkAll files [] xs).outcome
      = .ok ([⟨"a", .one "a.scss"⟩], report.diagnostics.take 3) :=
    Run.outcome_eq_ok (by decide +kernel)
  obtain ⟨rfl, rfl⟩ := Prod.mk.inj (Except.ok.inj (hxs.symm.trans hfirst))
  exact ⟨hdecided.1 ⟨_, hreport⟩, hreport,
    ⟨_, dy, congrArg ValidationReport.diagnostics hfound, hfirst, rfl⟩, hagain rfl⟩

/-- Every entry has to be decided. A path under the home of an unknown account is not, so that its entry
is not told of, and the scope of the other entry is lost with it. -/
theorem validate_loses_scope :
    let host : Host := {
      disk := ⟨[(["b.scss"], .file ⟨#[]⟩)]⟩, directory := "/", home := "/root" }
    let files := host.files .utf8
    let unknown : ScopeEntry := ⟨.ofText "a", .one (.ofText "~gone/a.scss")⟩
    let known : ScopeEntry := ⟨.ofText "b", .one (.ofText "b.scss")⟩
    (validate files (some [known])).outcome = .ok ⟨[⟨"b", .one "b.scss"⟩], []⟩ ∧
      (∀ found ds, ¬ unknown.ComesTo files found ds) ∧
      (validate files (some [unknown, known])).outcome = .error (.file .noHome) := by
  intro host files unknown known
  refine ⟨Run.outcome_eq_ok (by decide +kernel), fun found ds h => ?_, rfl⟩
  have hcheck : check files unknown = .error (.file .noHome) := rfl
  rw [check_eq_ok_iff.2 h] at hcheck
  cases hcheck

end Validation

end ThemedSheets
