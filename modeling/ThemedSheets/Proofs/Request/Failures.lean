import ThemedSheets.Proofs.Disk
import ThemedSheets.Proofs.Request.Stages
import ThemedSheets.Proofs.Scope.Files
/- What can end a request. Where files that are there can be read, validation leaves scopes whose
   overrides can be loaded, so the tasks of these scopes fail only as the compiler does; and where all
   are compiled, merging gets one result for every scope and can find no fault but a mismatch
   (`compileScoped_ends`). The file system has to answer about every path that an entry names: a local
   one does not answer about the home of an unknown account. -/
namespace ThemedSheets
open ThemedSheets.Yaml

namespace FanOut

/-- A compiler that does nothing worse than refuse a text. -/
def OnlyRefuses (compiler : Compiler) : Prop :=
  ∀ text options fault, (compiler text options).outcome = .error fault → fault.refusal? ≠ none

/-- The compiler fails on the text for a scope. -/
def FailsFor (compiler : Compiler) (files : FileSystem) (options : CompileOptions)
    (source : String) (s : Scope) : Prop :=
  ∃ input fault, ScopeInput.build files options source s = .ok input ∧
    (compiler input.text options).outcome = .error fault

section
variable {compiler : Compiler} (hcompiler : OnlyRefuses compiler) {files : FileSystem}
  (options : CompileOptions) (source : String)
include hcompiler

/-- The task of a scope whose overrides can be loaded ends with a refusal if the compiler fails for
the scope, and else with a result. -/
theorem task_ends {s : Scope} (hload : ∃ overrides, Overrides.load files s.path = .ok overrides) :
    let outcome := (task compiler (.ofFiles files) options source s).outcome
    (FailsFor compiler files options source s ∧ ∃ e, outcome = .error (.compile e)) ∨
      (¬ FailsFor compiler files options source s ∧ ∃ result, outcome = .ok result) := by
  intro outcome
  obtain ⟨overrides, hoverrides⟩ := hload
  let input := ScopeInput.ofOverrides options source s overrides
  have hbuild : ScopeInput.build files options source s = .ok input := by
    rw [ScopeInput.build, ScopeInput.buildFrom, hoverrides]
    rfl
  have hinput : ScopeInput.buildFrom (Loader.ofFiles files) options source s = .ok input := by
    rw [ScopeInput.buildFrom, Loader.ofFiles, hoverrides]
    rfl
  cases hasked : (compiler input.text options).outcome with
  | error fault =>
    obtain ⟨e, he⟩ := Option.ne_none_iff_exists'.1 (hcompiler _ _ _ hasked)
    exact Or.inl ⟨⟨input, fault, hbuild, hasked⟩, _, outcome_task_of_refused hinput hasked he⟩
  | ok output =>
    refine Or.inr ⟨?_, _, outcome_task_of_compiled hinput hasked⟩
    rintro ⟨input', fault, hbuild', hfault⟩
    obtain rfl : input = input' := Except.ok.inj (hbuild.symm.trans hbuild')
    rw [hasked] at hfault
    cases hfault

/-- Compiling for scopes whose overrides can be loaded ends with refusals if the compiler fails for a
scope, and else with a result for every scope. -/
theorem compileAll_ends {maxWorkers : Option Int} (hworkers : ∀ n, maxWorkers = some n → 0 ≤ n)
    {scopes : List Scope} (hne : scopes ≠ [])
    (hload : ∀ s ∈ scopes, ∃ overrides, Overrides.load files s.path = .ok overrides) :
    let outcome := (compileAll compiler files options maxWorkers source scopes).outcome
    ((∃ s ∈ scopes, FailsFor compiler files options source s) ∧
        ∃ failures, outcome = .error (.scopes failures)) ∨
      ((∀ s ∈ scopes, ¬ FailsFor compiler files options source s) ∧
        ∃ results, outcome = .ok results ∧ results.length = scopes.length) := by
  intro outcome
  let outcomes := (scopes.map (task compiler (.ofFiles files) options source)).map (·.outcome)
  have hsettled : outcome = settle outcomes :=
    congrArg Run.outcome
      (compileIn_eq compiler hne (workers_pos hworkers (List.length_pos_iff.2 hne)) (.refl _))
  have hmem : ∀ fault, .error fault ∈ outcomes ↔ ∃ s ∈ scopes,
      (task compiler (.ofFiles files) options source s).outcome = .error fault := by
    simp [outcomes]
  -- a task fails where the compiler does, and then with a refusal
  have hfailed : ∀ fault, .error fault ∈ outcomes →
      (∃ s ∈ scopes, FailsFor compiler files options source s) ∧ ∃ e, fault = .compile e := by
    intro fault h
    obtain ⟨s, hs, hfault⟩ := (hmem fault).1 h
    rcases task_ends hcompiler options source (hload s hs) with
      ⟨hfails, e, he⟩ | ⟨-, result, hresult⟩
    · exact ⟨⟨s, hs, hfails⟩, e, Except.error.inj (hfault.symm.trans he)⟩
    · cases hfault.symm.trans hresult
  rw [hsettled]
  rcases settle_of_refusals fun fault h => (hfailed fault h).2 with
    ⟨⟨fault, h⟩, hfailures⟩ | ⟨hnone, results, hok, hall⟩
  · exact Or.inl ⟨(hfailed fault h).1, hfailures⟩
  · refine Or.inr ⟨fun s hs hfails => ?_, results, hok, ?_⟩
    · rcases task_ends hcompiler options source (hload s hs) with ⟨-, e, he⟩ | ⟨hnot, -⟩
      · exact hnone _ ((hmem _).2 ⟨s, hs, he⟩)
      · exact hnot hfails
    · simpa [outcomes] using (congrArg List.length hall).symm

end

end FanOut

theorem Merge.merge_ends {results : List CompiledScope} {scopes : List Scope}
    (hne : results ≠ []) (hlen : results.length = scopes.length) (verify : Bool) :
    (∃ merged, (merge results (some scopes) verify).outcome = .ok merged) ∨
      (verify = true ∧ ∃ m, (merge results (some scopes) verify).outcome = .error (.mismatch m)) := by
  obtain ⟨base, others, rfl⟩ := List.exists_cons_of_ne_nil hne
  have houtcome := outcome_merge base others (some scopes) verify hlen.symm
  cases hfound : (if verify then mismatch? (selectors base.css)
      (rivals ((scopesOf (base :: others) (some scopes)).zip (base :: others))) else none) with
  | none =>
    simp only [hfound] at houtcome
    exact Or.inl ⟨_, houtcome⟩
  | some m =>
    simp only [hfound] at houtcome
    refine Or.inr ⟨?_, m, houtcome⟩
    cases verify with
    | false => simp at hfound
    | true => rfl

namespace Workshop

/-- **Only the compiler and the check for a mismatch can end a request early.** Let every file that is
there be readable, let the compiler do nothing worse than refuse a text, let no negative number of
workers be asked for, and let the file system answer about the paths that entries name, and the other
values named for paths be writable. Then validation leaves at least one scope, and the overrides of all
of them can be loaded. If the compiler fails for one of them, the request ends with the failures of
scopes. Else merging gets a result for every scope, and the request returns, unless it is to be
verified and there is a mismatch. -/
theorem compileScoped_ends (w : Workshop) (source : String) (entries : Option (List ScopeEntry))
    (sourcePath : Option String)
    (hread : ∀ p, w.files.hasFile p = .ok true → ∃ text, w.files.readText p = .ok text)
    (hcompiler : FanOut.OnlyRefuses w.compiler)
    (hworkers : ∀ n, w.maxWorkers = some n → 0 ≤ n)
    (hanswered : ∀ entry ∈ entries.getD [], entry.IsAnswered w.files)
    (hwritable : ∀ entry ∈ entries.getD [], entry.IsWritable) :
    let outcome := (w.compileScoped source entries sourcePath).outcome
    let options := w.optionsFor sourcePath
    ∃ validated, (Validation.validate w.files entries).outcome = .ok validated ∧
      validated.scopes ≠ [] ∧
      (∀ s ∈ validated.scopes, ∃ overrides, Overrides.load w.files s.path = .ok overrides) ∧
      (((∃ s ∈ validated.scopes, FanOut.FailsFor w.compiler w.files options source s) ∧
          ∃ failures, outcome = .error (.scopes failures)) ∨
        ((∀ s ∈ validated.scopes, ¬ FanOut.FailsFor w.compiler w.files options source s) ∧
          (∃ results, (FanOut.compileAll w.compiler w.files options w.maxWorkers source
              validated.scopes).outcome = .ok results ∧
            results ≠ [] ∧ results.length = validated.scopes.length) ∧
          ((∃ merged, outcome = .ok merged) ∨
            (w.verify = true ∧ ∃ m, outcome = .error (.mismatch m))))) := by
  intro outcome options
  obtain ⟨validated, hvalidated, hne, hfiles⟩ := Validation.validate_ends hanswered hwritable
  have hload : ∀ s ∈ validated.scopes,
      ∃ overrides, Overrides.load w.files s.path = .ok overrides := fun s hs =>
    Overrides.load_of_hasFile hread (hfiles s hs)
  refine ⟨validated, hvalidated, hne, hload, ?_⟩
  have houtcome : outcome = (w.serve source sourcePath validated.scopes).outcome.map fun merged =>
      { merged with diagnostics := validated.diagnostics } :=
    congrArg Run.outcome (compileScoped_of_validated hvalidated source sourcePath)
  have hserve : w.serve source sourcePath validated.scopes = _ := Run.bind_of_ok rfl _
  rcases FanOut.compileAll_ends hcompiler options source hworkers hne hload with
    ⟨hfails, failures, hfailed⟩ | ⟨hcompiles, results, hresults, hlen⟩
  · refine Or.inl ⟨hfails, failures, ?_⟩
    rw [houtcome, hserve, Run.bind_of_error hfailed]
    rfl
  · have hresultsNe : results ≠ [] := by
      rintro rfl
      exact hne (List.length_eq_zero_iff.1 hlen.symm)
    refine Or.inr ⟨hcompiles, ⟨results, hresults, hresultsNe, hlen⟩, ?_⟩
    rw [houtcome, hserve, Run.bind_of_ok hresults]
    rcases Merge.merge_ends hresultsNe hlen w.verify with ⟨merged, hmerged⟩ | ⟨hverify, m, hmismatch⟩
    · exact Or.inl ⟨_, by rw [hmerged]; rfl⟩
    · exact Or.inr ⟨hverify, m, by rw [hmismatch]; rfl⟩

/-- Of three entries one has a mapping with a whole number for a path and is left out. The compiler
refuses one of the two texts for the first source, and none for the second. -/
theorem compileScoped_ends_of_two_scopes :
    let answer : String → CompileOptions → Except Fault CompileOutput := fun text _ =>
      if text = "tan\n.x" then .error (.compile { message := "no mixin" })
      else .ok { css := ".z\x7b" ++ text ++ "\x7d" }
    let w : Workshop := {
      compiler := FanOut.answering answer
      files := ⟨fun p => .ok (p != ""), fun p => .ok (if p = "a.scss" then "red" else "tan")⟩
      maxWorkers := some 1 }
    let entries : List ScopeEntry := [
      ⟨.ofText "a", .one (.ofText "a.scss")⟩, ⟨.ofText "b", .many [.ofText "b.scss"]⟩,
      ⟨.ofText "c", .many [⟨#[.mapping [(1, 2)], .str "k", .int (-7)], 0⟩]⟩]
    let run := w.compileScoped ".x" (some entries) none
    let run' := w.compileScoped ".y" (some entries) none
    (∀ p, w.files.hasFile p = .ok true → ∃ text, w.files.readText p = .ok text) ∧
      FanOut.OnlyRefuses w.compiler ∧ (∀ n, w.maxWorkers = some n → 0 ≤ n) ∧
      (∀ entry ∈ entries, entry.IsAnswered w.files) ∧ (∀ entry ∈ entries, entry.IsWritable) ∧
      run.outcome = .error (.scopes ⟨{ message := "no mixin", scope := some "b" }, []⟩) ∧
      (∃ s, FanOut.FailsFor w.compiler w.files (w.optionsFor none) ".x" s) ∧
      run'.outcome.toOption.map (·.css) = some ".a .z\x7bred\n.y\x7d\n.b .z\x7btan\n.y\x7d" := by
  intro answer w entries run run'
  have hread : ∀ p, w.files.hasFile p = .ok true → ∃ text, w.files.readText p = .ok text :=
    fun p _ => ⟨_, rfl⟩
  have hcompiler : FanOut.OnlyRefuses w.compiler := by
    intro text options fault h
    simp only [w, FanOut.answering, answer] at h
    split at h
    · obtain rfl := Except.error.inj h
      simp [Fault.refusal?]
    · cases h
  have hworkers : ∀ n, w.maxWorkers = some n → 0 ≤ n := by
    intro n h
    obtain rfl := Option.some.inj h
    decide
  have hanswered : ∀ entry ∈ entries, entry.IsAnswered w.files :=
    fun _ _ _ _ _ _ _ => ⟨_, rfl⟩
  have hwritable : ∀ entry ∈ entries, entry.IsWritable := by
    intro entry hentry v hv
    simp only [entries, List.mem_cons, List.not_mem_nil, or_false] at hentry
    rcases hentry with rfl | rfl | rfl <;> obtain rfl := List.mem_singleton.1 hv
    · exact Value.hasShortNumbers_ofText _
    · exact Value.hasShortNumbers_ofText _
    · refine Value.hasShortNumbers_of_cells fun level hlevel i hi => ?_
      obtain rfl : i = -7 := by simp_all
      decide
  have hrefused : run.outcome
      = .error (.scopes ⟨{ message := "no mixin", scope := some "b" }, []⟩) := rfl
  obtain ⟨validated, -, -, -, hends⟩ :=
    compileScoped_ends w ".x" (some entries) none hread hcompiler hworkers hanswered hwritable
  refine ⟨hread, hcompiler, hworkers, hanswered, hwritable, hrefused, ?_, by decide +kernel⟩
  rcases hends with ⟨⟨s, -, hfails⟩, -⟩ | ⟨-, -, ⟨merged, hmerged⟩ | ⟨-, m, hmismatch⟩⟩
  · exact ⟨s, hfails⟩
  · rw [hrefused] at hmerged
    cases hmerged
  · rw [hrefused] at hmismatch
    cases hmismatch

/-- The file system has to answer: a list of files of which one begins with an unknown account ends the
request with a fault of its own, though every file that is there can be read and the compiler never
fails. -/
theorem compileScoped_ends_of_unknown_account :
    let host : Host := {
      disk := ⟨[(["b.scss"], .file ⟨#[]⟩)]⟩, directory := "/", home := "/root" }
    let w : Workshop := {
      compiler := FanOut.answering fun text _ => .ok { css := text }
      files := host.files .utf8 }
    let entry : ScopeEntry :=
      ⟨.ofText "a", .many [.ofText "~gone/a.scss", .ofText "b.scss"]⟩
    (∀ p, w.files.hasFile p = .ok true → ∃ text, w.files.readText p = .ok text) ∧
      FanOut.OnlyRefuses w.compiler ∧ (∀ n, w.maxWorkers = some n → 0 ≤ n) ∧ entry.IsWritable ∧
      (w.compileScoped ".x\x7b\x7d" (some [entry]) none).outcome = .error (.file .noHome) := by
  intro host w entry
  refine ⟨fun p h => Host.readText_of_hasFile ?_ h, ?_, ?_, ?_, rfl⟩
  · intro location content hmem
    obtain ⟨-, rfl⟩ : location = ["b.scss"] ∧ content = ⟨#[]⟩ := by simpa [host] using hmem
    decide +kernel
  · intro text options fault h
    cases h
  · intro n h
    cases h
  · intro v hv
    obtain rfl | rfl : v = .ofText "~gone/a.scss" ∨ v = .ofText "b.scss" := by
      simpa [entry, RequestedPath.values] using hv
    · exact Value.hasShortNumbers_ofText _
    · exact Value.hasShortNumbers_ofText _

end Workshop

end ThemedSheets
