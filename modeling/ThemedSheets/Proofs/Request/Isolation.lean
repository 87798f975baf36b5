import ThemedSheets.Proofs.Merge.Isolation
import ThemedSheets.Proofs.Request.Stages
/- Two requests for the same scopes, on files that differ in one scope's texts. Validation asks of
   files only whether they are there (`Validation.scope?_congr`), and the overrides of a scope are
   read from its own files (`Overrides.load_congr`). So the results differ in that scope alone
   (`getElem?_results_congr`), and what merging makes of the others is the same
   (`compileScoped_isolated`). -/
namespace ThemedSheets

/-! ## What is asked of files -/

section
variable {files files' : FileSystem}

namespace Validation

theorem filePath?_congr (h : ∀ p, files.hasFile p = files'.hasFile p) (v : Yaml.Value) :
    filePath? files v = filePath? files' v := by
  simp only [filePath?, h]

theorem checkItems_congr (h : ∀ p, files.hasFile p = files'.hasFile p) (scope : String)
    (items : List Yaml.Value) : checkItems files scope items = checkItems files' scope items := by
  induction items with
  | nil => rfl
  | cons v items ih => simp only [checkItems, filePath?_congr h, ih]

theorem scope?_congr (h : ∀ p, files.hasFile p = files'.hasFile p) :
    scope? files = scope? files' := by
  funext entry
  simp only [scope?, check, filePath?_congr h, checkItems_congr h]

end Validation

namespace Overrides

theorem loadFiles_congr {paths : List String}
    (h : ∀ p ∈ paths, files.readText p = files'.readText p) :
    loadFiles files paths = loadFiles files' paths := by
  induction paths with
  | nil => rfl
  | cons p paths ih =>
    rw [List.forall_mem_cons] at h
    simp only [loadFiles, loadFile, h.1, ih h.2]

theorem load_congr {scope : Scope}
    (h : ∀ p ∈ scope.paths, files.readText p = files'.readText p) :
    load files scope.path = load files' scope.path := by
  obtain ⟨name, path⟩ := scope
  cases path with
  | one p =>
    by_cases hp : p = ""
    · simp only [load, hp, if_true]
    · have hread : files.readText p = files'.readText p := h p (by simp [Scope.paths, hp])
      simp only [load, loadFile, hread]
  | many ps =>
    have hread : ∀ p ∈ ps.filter (· ≠ ""), files.readText p = files'.readText p := h
    simp only [load, loadFiles_congr hread]

end Overrides

end

namespace FanOut

theorem length_results {compiler : Compiler} {files : FileSystem} {options : CompileOptions}
    {maxWorkers : Option Int} {source : String} {scopes : List Scope}
    {results : List CompiledScope}
    (h : (compileAll compiler files options maxWorkers source scopes).outcome = .ok results) :
    scopes.length = results.length := by
  simpa using congrArg List.length (tasks_of_compileIn (.refl _) h)

theorem getElem?_results_congr {compiler : Compiler} {files files' : FileSystem}
    {options : CompileOptions} {maxWorkers : Option Int} {source : String} {scopes : List Scope}
    {results results' : List CompiledScope}
    (h : (compileAll compiler files options maxWorkers source scopes).outcome = .ok results)
    (h' : (compileAll compiler files' options maxWorkers source scopes).outcome = .ok results')
    {i : Nat} (hread : ∀ s, scopes[i]? = some s → ∀ p ∈ s.paths,
      files.readText p = files'.readText p) : results[i]? = results'[i]? := by
  have htasks := congrArg (·[i]?) (tasks_of_compileIn (.refl _) h)
  have htasks' := congrArg (·[i]?) (tasks_of_compileIn (.refl _) h')
  have hsame : (scopes[i]?.map fun s => (task compiler (.ofFiles files) options source s).outcome)
      = scopes[i]?.map fun s => (task compiler (.ofFiles files') options source s).outcome := by
    cases hs : scopes[i]? with
    | none => rfl
    | some s =>
      have hload : Loader.ofFiles files s.path = Loader.ofFiles files' s.path := by
        rw [Loader.ofFiles, Loader.ofFiles, Overrides.load_congr (hread s hs)]
      simp only [Option.map_some, task_congr compiler hload]
  simp only [List.getElem?_map, hsame] at htasks htasks'
  exact Option.map_injective (fun _ _ => Except.ok.inj) (htasks.symm.trans htasks')

end FanOut

namespace Workshop

/-! ## Requests -/

theorem results_of_compileScoped {w : Workshop} {source : String} {entries : List ScopeEntry}
    {sourcePath : Option String} {scopes : List Scope} {merged : MergeResult}
    (hscopes : entries.map (Validation.scope? w.files) = scopes.map some) (hne : scopes ≠ [])
    (hrun : (w.compileScoped source (some entries) sourcePath).outcome = .ok merged) :
    ∃ results served diagnostics,
      (FanOut.compileAll w.compiler w.files (w.optionsFor sourcePath) w.maxWorkers source
        scopes).outcome = .ok results ∧
      (Merge.merge results (some scopes) w.verify).outcome = .ok served ∧
      merged = { served with diagnostics } := by
  have hfound : entries.filterMap (Validation.scope? w.files) = scopes := by
    simpa [List.filterMap_map] using congrArg (List.filterMap id) hscopes
  have hchecks : ∀ entry ∈ entries, Validation.Checkable w.files entry := by
    intro entry hentry
    have hmem := List.mem_map_of_mem (f := Validation.scope? w.files) hentry
    rw [hscopes] at hmem
    obtain ⟨s, _, hs⟩ := List.mem_map.1 hmem
    exact Validation.checkable_of_scope? hs.symm
  have hvalidated := Validation.outcome_validate hchecks
  simp only [Validation.reportOf, hfound, hne, if_false] at hvalidated
  rw [compileScoped_of_validated hvalidated] at hrun
  cases hserved : (w.serve source sourcePath scopes).outcome with
  | error fault => simp [hserved, Except.map] at hrun
  | ok served =>
    simp only [hserved, Except.map, Except.ok.injEq] at hrun
    obtain ⟨_, _, hrest⟩ := Run.exists_of_bind_ok hserved
    obtain ⟨results, hresults, hmerge⟩ := Run.exists_of_bind_ok hrest
    exact ⟨results, served, _, hresults, hmerge, hrun.symm⟩

/-- **Scopes do not interfere.** Two verified requests have the same entries, each of which gives a
scope, at least two in all, and the same files are there for both; the files of every scope but the
one at `j` read the same. If both return, then they are made of as many groups of copies, each with
one copy for every scope, and the copies of every scope but the one at `j` are the same texts. Unless
that is the first, so are the texts outside the groups, the source map and the dependencies. -/
theorem compileScoped_isolated (w : Workshop) (hverify : w.verify = true) (files' : FileSystem)
    (source : String) (entries : List ScopeEntry) (sourcePath : Option String)
    (scopes : List Scope) (j : Nat)
    (hscopes : entries.map (Validation.scope? w.files) = scopes.map some)
    (htwo : 2 ≤ scopes.length)
    (hexists : ∀ p, w.files.hasFile p = files'.hasFile p)
    (hread : ∀ i s, i ≠ j → scopes[i]? = some s → ∀ p ∈ s.paths,
      w.files.readText p = files'.readText p)
    (merged merged' : MergeResult)
    (hrun : (w.compileScoped source (some entries) sourcePath).outcome = .ok merged)
    (hrun' : ({ w with files := files' }.compileScoped source (some entries) sourcePath).outcome
      = .ok merged') :
    let compile := fun files => (FanOut.compileAll w.compiler files (w.optionsFor sourcePath)
      w.maxWorkers source scopes).outcome
    ∃ results results', compile w.files = .ok results ∧ compile files' = .ok results' ∧
      let groups := Merge.places scopes results
      let groups' := Merge.places scopes results'
      merged.css.toList
        = Outline.weave (Merge.gaps results) (groups.map (Text.join ['\n'])) ∧
      merged'.css.toList
        = Outline.weave (Merge.gaps results') (groups'.map (Text.join ['\n'])) ∧
      (∀ group ∈ groups ++ groups', group.length = scopes.length) ∧
      groups.length = groups'.length ∧
      (∀ k i, i ≠ j → Merge.copy? groups k i = Merge.copy? groups' k i) ∧
      (j ≠ 0 → Merge.gaps results = Merge.gaps results' ∧
        merged.sourceMap = merged'.sourceMap ∧
        merged.dependencyPaths = merged'.dependencyPaths) := by
  intro compile
  have hne : scopes ≠ [] := by
    rintro rfl
    simp at htwo
  -- the second request has the same scopes, for the same files are there
  have hscopes' := hscopes
  rw [Validation.scope?_congr hexists] at hscopes'
  obtain ⟨results, served, _, hresults, hmerge, rfl⟩ := results_of_compileScoped hscopes hne hrun
  obtain ⟨results', served', _, hresults', hmerge', rfl⟩ :=
    results_of_compileScoped hscopes' hne hrun'
  have hlen := FanOut.length_results hresults
  have hlen' := FanOut.length_results hresults'
  have hsame : ∀ i, i ≠ j → results[i]? = results'[i]? := fun i hij =>
    FanOut.getElem?_results_congr hresults hresults' fun s => hread i s hij
  obtain ⟨base, others, rfl⟩ := List.length_pos_iff_exists_cons.1 (show 0 < results.length by omega)
  obtain ⟨base', others', rfl⟩ :=
    List.length_pos_iff_exists_cons.1 (show 0 < results'.length by omega)
  rw [hverify] at hmerge hmerge'
  have hlayout := Merge.layout_of_merge hlen hmerge
  have hlayout' := Merge.layout_of_merge hlen' hmerge'
  obtain ⟨hcount, hcopies, hfirst⟩ := Merge.isolated_of_merge hlen hlen' hmerge hmerge' htwo hsame
  exact ⟨_, _, hresults, hresults', hlayout.1, hlayout'.1,
    List.forall_mem_append.2 ⟨hlayout.2, hlayout'.2⟩, hcount, hcopies, hfirst⟩

/-- Two scopes, of which the second has another file's text in the second request. -/
theorem compileScoped_isolated_of_second_file :
    let w : Workshop := {
      compiler := FanOut.answering fun text _ => .ok {
        css := "p \x7b\x7d;.x\x7b" ++ text ++ "\x7d", includedFiles := [text] }
      files := ⟨fun _ => .ok true, fun p => .ok (if p = "a.scss" then "red" else "tan")⟩ }
    let files' : FileSystem :=
      ⟨fun _ => .ok true, fun p => .ok (if p = "a.scss" then "red" else "sky")⟩
    let entries : List ScopeEntry := [
      ⟨.ofText "a", .one (.ofText "a.scss")⟩, ⟨.ofText "b", .many [.ofText "b.scss"]⟩]
    let scopes : List Scope := [⟨"a", .one "a.scss"⟩, ⟨"b", .many ["b.scss"]⟩]
    let run := w.compileScoped "" (some entries) none
    let run' := { w with files := files' }.compileScoped "" (some entries) none
    let compile := fun files => (FanOut.compileAll w.compiler files (w.optionsFor none)
      w.maxWorkers "" scopes).outcome
    w.verify = true ∧ entries.map (Validation.scope? w.files) = scopes.map some ∧
      2 ≤ scopes.length ∧ (∀ p, w.files.hasFile p = files'.hasFile p) ∧
      (∀ i s, i ≠ 1 → scopes[i]? = some s → ∀ p ∈ s.paths,
        w.files.readText p = files'.readText p) ∧
      run.outcome = .ok {
        css := ".a p \x7b\x7d\n.b p \x7b\x7d;.a .x\x7bred\n\x7d\n.b .x\x7btan\n\x7d"
        dependencyPaths := ["a.scss", "b.scss", "red\n"] } ∧
      run'.outcome = .ok {
        css := ".a p \x7b\x7d\n.b p \x7b\x7d;.a .x\x7bred\n\x7d\n.b .x\x7bsky\n\x7d"
        dependencyPaths := ["a.scss", "b.scss", "red\n"] } ∧
      ∃ results results', compile w.files = .ok results ∧ compile files' = .ok results' ∧
        Merge.gaps results = Merge.gaps results' ∧
        (Merge.places scopes results).length = (Merge.places scopes results').length ∧
        Merge.copy? (Merge.places scopes results) 1 0
          = Merge.copy? (Merge.places scopes results') 1 0 := by
  intro w files' entries scopes run run' compile
  have hscopes : entries.map (Validation.scope? w.files) = scopes.map some := by decide +kernel
  have hread : ∀ i s, i ≠ 1 → scopes[i]? = some s → ∀ p ∈ s.paths,
      w.files.readText p = files'.readText p := by
    intro i s hi hs p hp
    match i with
    | 0 =>
      obtain rfl := Option.some.inj hs
      obtain rfl : p = "a.scss" := by simpa [Scope.paths] using hp
      rfl
    | 1 => exact absurd rfl hi
    | i + 2 => simp [scopes] at hs
  have hrun : run.outcome = .ok {
      css := ".a p \x7b\x7d\n.b p \x7b\x7d;.a .x\x7bred\n\x7d\n.b .x\x7btan\n\x7d"
      dependencyPaths := ["a.scss", "b.scss", "red\n"] } :=
    Run.outcome_eq_ok (by decide +kernel)
  have hrun' : run'.outcome = .ok {
      css := ".a p \x7b\x7d\n.b p \x7b\x7d;.a .x\x7bred\n\x7d\n.b .x\x7bsky\n\x7d"
      dependencyPaths := ["a.scss", "b.scss", "red\n"] } :=
    Run.outcome_eq_ok (by decide +kernel)
  obtain ⟨results, results', hresults, hresults', _, _, _, hcount, hcopies, hfirst⟩ :=
    compileScoped_isolated w rfl files' "" entries none scopes 1 hscopes (by decide)
      (fun _ => rfl) hread _ _ hrun hrun'
  exact ⟨rfl, hscopes, by decide, fun _ => rfl, hread, hrun, hrun', results, results',
    hresults, hresults', (hfirst (by decide)).1, hcount, hcopies 1 0 (by decide)⟩

end Workshop

end ThemedSheets
