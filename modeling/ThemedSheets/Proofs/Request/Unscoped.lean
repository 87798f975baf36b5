import ThemedSheets.Proofs.Merge.Alignment
import ThemedSheets.Proofs.Request.Stages
/- Requests without scopes. Where no entry gives a scope, or no entries are given at all, one text is
   compiled: the source, with nothing before it but the additional data. The answer still goes
   through merging, which cuts it into rules and puts it together again. That gives it back
   unchanged, whatever text it is, because the gaps and the rules of a text are the whole text
   (`interleaved_unnamed`). -/
namespace ThemedSheets

namespace Merge

/-! ## Merging one stylesheet without a scope -/

theorem groups_unnamed {s : Scope} (h : s.name = "") (r : CompiledScope) :
    (groups [(s, r)] (Fragment.segment r.css).length).map (Text.join ['\n'])
      = (Outline.ofText r.css.toList).texts := by
  rw [← Fragment.map_text_segment]
  refine List.ext_getElem (by simp [groups]) fun k hk _ => ?_
  have hk : k < (Fragment.segment r.css).length := by simpa [groups] using hk
  have hcopies : copies [(s, r)] k = [(Fragment.segment r.css)[k].text.toList] := by
    simp [copies, hk, Fragment.underScope, Selector.scopeRule, h]
  simp [groups, hcopies, Text.join]

theorem interleaved_unnamed {s : Scope} (h : s.name = "") (r : CompiledScope) :
    interleaved r [(s, r)] = r.css.toList := by
  -- the rules are put back between the gaps they were cut from
  rw [interleaved, groups_unnamed h, Fragment.outside_segment,
    ← Outline.flatten_replaceRules (Outline.length_texts _), Outline.replaceRules_texts,
    Outline.flatten_ofText]

theorem outcome_merge_unscoped (r : CompiledScope) (verify : Bool) :
    (merge [r] (some [Scope.unscoped]) verify).outcome = .ok {
      css := r.css
      sourceMap := r.sourceMap
      dependencyPaths := r.dependencyPaths
      errors := r.errors } := by
  have hnone : (if verify then mismatch? (selectors r.css) (rivals [(Scope.unscoped, r)])
      else none) = none := by
    cases verify <;> rfl
  have hcss := interleaved_unnamed (s := Scope.unscoped) rfl r
  rw [outcome_merge r [] (some [Scope.unscoped]) verify rfl]
  simp only [scopesOf, Option.getD_some, List.zip_cons_cons, List.zip_nil_left, hnone, hcss,
    String.ofList_toList, List.flatMap_singleton]
  rfl

end Merge

namespace FanOut

/-! ## Compiling without a scope -/

/-- The text that is compiled without a scope: the additional data, if there are any, and the
source, each behind a line feed. -/
def plainText (options : CompileOptions) (source : String) : String :=
  match options.additionalData with
  | some data => if data = "" then "\n" ++ source else "\n" ++ data ++ "\n" ++ source
  | none => "\n" ++ source

theorem buildFrom_unscoped (files : FileSystem) (options : CompileOptions) (source : String) :
    ∃ n, ScopeInput.buildFrom (Loader.ofFiles files) options source Scope.unscoped
      = .ok ⟨Scope.unscoped, plainText options source, n⟩ := by
  have htext : ScopeInput.leading "" options.additionalData ++ "\n" ++ source
      = plainText options source := by
    unfold ScopeInput.leading plainText
    cases options.additionalData with
    | none => simp
    | some data =>
      by_cases hdata : data = ""
      · simp [hdata]
      · simp [hdata]
  exact ⟨_, by rw [← htext]; rfl⟩

def resultOf (scope : Scope) (output : CompileOutput) : CompiledScope := {
  scope
  css := output.css
  sourceMap := output.sourceMap
  dependencyPaths := output.includedFiles
  errors := output.errors }

/-- Where the compiler answers the text of a request without scopes, it is asked for that text alone,
and the one result is its answer. -/
theorem compileAll_unscoped {answer : String → CompileOptions → Except Fault CompileOutput}
    {options : CompileOptions} {maxWorkers : Option Int} {source : String} {output : CompileOutput}
    (files : FileSystem) (hworkers : ∀ n, maxWorkers = some n → 0 ≤ n)
    (hanswer : answer (plainText options source) options = .ok output) :
    let run := compileAll (answering answer) files options maxWorkers source [Scope.unscoped]
    run.outcome = .ok [resultOf Scope.unscoped output] ∧
      asked run.events = [(plainText options source, options)] := by
  intro run
  obtain ⟨n, hinput⟩ := buildFrom_unscoped files options source
  obtain ⟨houtcome, hasked⟩ := @compileIn_answering answer (Loader.ofFiles files) options source
    [Scope.unscoped] maxWorkers _ hworkers (.refl _)
  have hfate : fate answer (Loader.ofFiles files) options source Scope.unscoped
      = .compiled (resultOf Scope.unscoped output) := by
    simp only [fate, hinput, hanswer, resultOf]
  have hcall : call? (Loader.ofFiles files) options source Scope.unscoped
      = some (plainText options source, options) := by
    simp only [call?, hinput]
  constructor
  · rw [List.map_singleton, hfate] at houtcome
    exact houtcome.trans (settle_of_compiled [_])
  · rw [List.filterMap_cons_some hcall] at hasked
    exact List.perm_singleton.1 hasked

end FanOut

namespace Workshop

/-! ## Requests without scopes -/

variable {w : Workshop}

theorem validate_unscoped {files : FileSystem} {entries : Option (List ScopeEntry)}
    (hnone : ∀ es, entries = some es → ∀ entry ∈ es,
      Validation.Checkable files entry ∧ Validation.scope? files entry = none) :
    ∃ validated, (Validation.validate files entries).outcome = .ok validated ∧
      validated.scopes = [Scope.unscoped] := by
  cases entries with
  | none => exact ⟨_, rfl, rfl⟩
  | some es =>
    have hscopes : es.filterMap (Validation.scope? files) = [] :=
      List.filterMap_eq_nil_iff.2 fun entry h => (hnone es rfl entry h).2
    refine ⟨_, Validation.outcome_validate fun entry h => (hnone es rfl entry h).1, ?_⟩
    simp only [Validation.reportOf, hscopes, if_true]

theorem serve_unscoped {answer : String → CompileOptions → Except Fault CompileOutput}
    (hcompiler : w.compiler = FanOut.answering answer)
    (hworkers : ∀ n, w.maxWorkers = some n → 0 ≤ n) {source : String} {sourcePath : Option String}
    {output : CompileOutput}
    (hanswer : answer (FanOut.plainText (w.optionsFor sourcePath) source) (w.optionsFor sourcePath)
      = .ok output) :
    (w.serve source sourcePath [Scope.unscoped]).outcome = .ok {
        css := output.css
        sourceMap := output.sourceMap
        dependencyPaths := output.includedFiles
        errors := output.errors } ∧
      FanOut.asked (w.serve source sourcePath [Scope.unscoped]).events
        = [(FanOut.plainText (w.optionsFor sourcePath) source, w.optionsFor sourcePath)] := by
  obtain ⟨houtcome, hasked⟩ := FanOut.compileAll_unscoped w.files hworkers hanswer
  -- the announcement before and the merge behind ask nothing
  have hmerge := asked_of_preliminary (Merge.leaves_merge isPreliminary_logged
    [FanOut.resultOf Scope.unscoped output] (some [Scope.unscoped]) w.verify)
  rw [serve, hcompiler, Run.bind_of_ok rfl, Run.bind_of_ok houtcome]
  refine ⟨Merge.outcome_merge_unscoped _ _, ?_⟩
  rw [FanOut.asked_append, FanOut.asked_append, hasked, hmerge]
  rfl

/-- **Without scopes, a request is the compiler.** If there are no entries, or every check of an
entry comes to an end and none gives a scope, then the compiler is asked once, for the source behind
a line feed or behind the additional data. If it answers, whatever CSS that may be, the request
returns, and what it returns is the answer. -/
theorem compileScoped_unscoped (w : Workshop)
    (answer : String → CompileOptions → Except Fault CompileOutput)
    (hcompiler : w.compiler = FanOut.answering answer) (source : String)
    (entries : Option (List ScopeEntry)) (sourcePath : Option String) (output : CompileOutput)
    (hnone : ∀ es, entries = some es → ∀ entry ∈ es,
      Validation.Checkable w.files entry ∧ Validation.scope? w.files entry = none)
    (hworkers : ∀ n, w.maxWorkers = some n → 0 ≤ n)
    (hanswer : answer (FanOut.plainText (w.optionsFor sourcePath) source) (w.optionsFor sourcePath)
      = .ok output) :
    let run := w.compileScoped source entries sourcePath
    FanOut.asked run.events
        = [(FanOut.plainText (w.optionsFor sourcePath) source, w.optionsFor sourcePath)] ∧
      ∃ merged, run.outcome = .ok merged ∧ merged.css = output.css ∧
        merged.sourceMap = output.sourceMap ∧ merged.dependencyPaths = output.includedFiles ∧
        merged.errors = output.errors := by
  obtain ⟨validated, hvalidated, hscopes⟩ := validate_unscoped hnone
  obtain ⟨houtcome, hasked⟩ := serve_unscoped hcompiler hworkers hanswer
  rw [compileScoped_of_validated hvalidated, hscopes, houtcome]
  refine ⟨?_, _, rfl, rfl, rfl, rfl, rfl⟩
  rw [FanOut.asked_append, asked_of_preliminary (leaves_front w entries), hasked]
  rfl

/-- Two entries of which one has no name and the other no file, additional data, and an answer with a
rule between stray braces. -/
theorem compileScoped_unscoped_of_stray_braces :
    let answer : String → CompileOptions → Except Fault CompileOutput := fun text _ =>
      if text = "\n$a: 1;\n.x" then
        .ok { css := "\x7d .x\x7btop:0\x7d q\x7b", includedFiles := ["base.scss"], errors := ["late"] }
      else .error (.compile { message := "no such text" })
    let w : Workshop := {
      compiler := FanOut.answering answer
      files := ⟨fun _ => .ok false, fun _ => .error .notFound⟩
      options := { additionalData := some "$a: 1;" }
      maxWorkers := some 2 }
    let entries : List ScopeEntry :=
      [.nothing, ⟨.ofText "a", .one (.ofText "a.scss")⟩]
    let run := w.compileScoped ".x" (some entries) none
    w.compiler = FanOut.answering answer ∧
      (∀ es, some entries = some es → ∀ entry ∈ es,
        Validation.Checkable w.files entry ∧ Validation.scope? w.files entry = none) ∧
      (∀ n, w.maxWorkers = some n → 0 ≤ n) ∧
      FanOut.asked run.events = [("\n$a: 1;\n.x", w.options)] ∧
      ∃ merged, run.outcome = .ok merged ∧ merged.css = "\x7d .x\x7btop:0\x7d q\x7b" ∧
        merged.dependencyPaths = ["base.scss"] ∧ merged.errors = ["late"] := by
  intro answer w entries run
  have hnone : ∀ es, some entries = some es → ∀ entry ∈ es,
      Validation.Checkable w.files entry ∧ Validation.scope? w.files entry = none := by
    rintro es ⟨⟩ entry hentry
    simp only [entries, List.mem_cons, List.not_mem_nil, or_false] at hentry
    rcases hentry with rfl | rfl
    · exact ⟨⟨_, rfl⟩, rfl⟩
    · exact ⟨⟨_, rfl⟩, rfl⟩
  have hworkers : ∀ n, w.maxWorkers = some n → 0 ≤ n := by
    rintro n ⟨⟩
    decide
  obtain ⟨hasked, merged, hmerged, hcss, _, hpaths, herrors⟩ :=
    compileScoped_unscoped w answer rfl ".x" (some entries) none _ hnone hworkers rfl
  exact ⟨rfl, hnone, hworkers, hasked, merged, hmerged, hcss, hpaths, herrors⟩

/-- The check of an entry has to come to an end: one whose path begins with an unknown account gives
no scope, but it ends the request, and the compiler that would answer is not asked. -/
theorem compileScoped_of_unknown_account :
    let answer : String → CompileOptions → Except Fault CompileOutput := fun text _ =>
      .ok { css := text }
    let host : Host := { disk := .empty, directory := "/", home := "/root" }
    let w : Workshop := { compiler := FanOut.answering answer, files := host.files .utf8 }
    let entries : List ScopeEntry := [⟨.ofText "a", .one (.ofText "~gone/a.scss")⟩]
    let run := w.compileScoped ".x\x7b\x7d" (some entries) none
    (∀ entry ∈ entries, Validation.scope? w.files entry = none) ∧
      (∀ text options, ∃ output, answer text options = .ok output) ∧
      run.outcome = .error (.file .noHome) ∧ FanOut.asked run.events = [] := by
  intro answer host w entries run
  have hcheck : Validation.check w.files ⟨.ofText "a", .one (.ofText "~gone/a.scss")⟩
      = .error (.file .noHome) := by
    rfl
  refine ⟨?_, fun text _ => ⟨_, rfl⟩, ?_, ?_⟩
  · simp only [entries, List.mem_singleton]
    rintro entry rfl
    simp only [Validation.scope?, hcheck]
  · rfl
  · rfl

end Workshop

end ThemedSheets
