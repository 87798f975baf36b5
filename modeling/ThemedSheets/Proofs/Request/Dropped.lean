import ThemedSheets.Proofs.Request.Stages
/- Entries that are left out. An entry that gives no scope is told of before anything is compiled,
   and that is all it does: from there on a request goes as it would without the entry, also where
   it fails (`compileScoped_kept`). The reason is that both reports have the same scopes
   (`reportOf_kept`), and serving sees the scopes alone. -/
namespace ThemedSheets
namespace Workshop

theorem checkable_of_mem_kept (files : FileSystem) (entries : List ScopeEntry) :
    ∀ entry ∈ Validation.kept files entries, Validation.Checkable files entry := by
  intro entry h
  obtain ⟨s, hs⟩ := Option.isSome_iff_exists.1 (List.mem_filter.1 h).2
  exact Validation.checkable_of_scope? hs

/-- **Entries that give no scope change nothing but what is told.** If every check of an entry comes
to an end, a request with all entries and one with those that give scopes do the same after their
preliminaries, and so the compiler is asked the same. They end with the same fault, or with results
that differ in the diagnostics alone: these are what is wrong with the entries, in their order, and
without the entries that give no scope there are none. The same diagnostics are reported, each once,
in the preliminaries. -/
theorem compileScoped_kept (w : Workshop)
    (hcompiler : ∀ text options, (w.compiler text options).Leaves fun e => ∀ d, e ≠ .reported d)
    (source : String) (entries : List ScopeEntry) (sourcePath : Option String)
    (hentries : ∀ entry ∈ entries, Validation.Checkable w.files entry) :
    let whole := w.compileScoped source (some entries) sourcePath
    let alone := w.compileScoped source (some (Validation.kept w.files entries)) sourcePath
    let diagnostics := entries.flatMap (Validation.problems w.files)
    (∃ before beforeAlone served,
      whole.events = before ++ served ∧ alone.events = beforeAlone ++ served ∧
        (∀ e ∈ before, e.IsPreliminary) ∧ (∀ e ∈ beforeAlone, e.IsPreliminary) ∧
        reported before = diagnostics ∧ reported beforeAlone = [] ∧ reported served = []) ∧
      FanOut.asked whole.events = FanOut.asked alone.events ∧
      whole.outcome = alone.outcome.map (fun merged => { merged with diagnostics }) ∧
      ∀ merged, alone.outcome = .ok merged → merged.diagnostics = [] := by
  intro whole alone diagnostics
  -- both reports have the same scopes, so the same is served
  let report := Validation.reportOf w.files entries
  let served := w.serve source sourcePath report.scopes
  have hvalidated := Validation.outcome_validate hentries
  have hvalidatedAlone := Validation.outcome_validate (checkable_of_mem_kept w.files entries)
  rw [Validation.reportOf_kept] at hvalidatedAlone
  have hwhole : whole = _ := compileScoped_of_validated hvalidated source sourcePath
  have halone : alone = _ := compileScoped_of_validated hvalidatedAlone source sourcePath
  have hasked := fun entries => asked_of_preliminary (leaves_front w entries)
  refine ⟨⟨_, _, served.events, congrArg Run.events hwhole, congrArg Run.events halone,
    leaves_front w _, leaves_front w _, (front_spec hvalidated).2, (front_spec hvalidatedAlone).2,
    reported_eq_nil (leaves_serve (by simp) hcompiler _ _ _)⟩, ?_, ?_, ?_⟩
  · rw [hwhole, halone, FanOut.asked_append, FanOut.asked_append, hasked, hasked]
  · rw [hwhole, halone]
    cases served.outcome <;> rfl
  · intro merged hmerged
    rw [halone] at hmerged
    cases hserved : (w.serve source sourcePath report.scopes).outcome with
    | error fault => simp [report, hserved, Except.map] at hmerged
    | ok result =>
      simp only [report, hserved, Except.map, Except.ok.injEq] at hmerged
      rw [← hmerged]

/-- Four entries, of which the second gives a scope; the first has no file, the third no name, and
the last has two wrong items. The compiler refuses the one text. -/
theorem compileScoped_kept_of_refused :
    let answer : String → CompileOptions → Except Fault CompileOutput := fun _ _ =>
      .error (.compile { message := "no mixin" })
    let w : Workshop := {
      compiler := FanOut.answering answer
      files := ⟨fun p => .ok (p == "b.scss"), fun _ => .ok "$x: 1;"⟩ }
    let entries : List ScopeEntry := [
      ⟨.ofText "a", .one (.ofText "a.scss")⟩, ⟨.ofText "b", .one (.ofText "b.scss")⟩, .nothing,
      ⟨.ofText "c", .many [.ofText "b.scss", .ofText "", .nothing]⟩]
    let whole := w.compileScoped ".x" (some entries) none
    let alone := w.compileScoped ".x" (some (Validation.kept w.files entries)) none
    (∀ text options, (w.compiler text options).Leaves fun e => ∀ d, e ≠ .reported d) ∧
      (∀ entry ∈ entries, Validation.Checkable w.files entry) ∧
      (reported whole.events).map (fun d => (d.scope, d.path))
        = [("a", some "a.scss"), ("", none), ("c", some ""), ("c", none)] ∧
      FanOut.asked whole.events = [("$x: 1;\n.x", {})] ∧
      FanOut.asked alone.events = [("$x: 1;\n.x", {})] ∧
      whole.outcome = .error (.scopes ⟨{ message := "no mixin", scope := some "b" }, []⟩) ∧
      alone.outcome = .error (.scopes ⟨{ message := "no mixin", scope := some "b" }, []⟩) := by
  intro answer w entries whole alone
  have hcompiler : ∀ text options,
      (w.compiler text options).Leaves fun e => ∀ d, e ≠ .reported d := by
    intro text options
    simp [w, FanOut.answering, Run.Leaves]
  have hentries : ∀ entry ∈ entries, Validation.Checkable w.files entry := by
    intro entry hentry
    simp only [entries, List.mem_cons, List.not_mem_nil, or_false] at hentry
    rcases hentry with rfl | rfl | rfl | rfl <;> exact ⟨_, rfl⟩
  obtain ⟨⟨before, beforeAlone, served, hwhole, _, _, _, hreported, _, hserved⟩, hasked, houtcome,
    _⟩ := compileScoped_kept w hcompiler ".x" entries none hentries
  have hcalls : FanOut.asked alone.events = [("$x: 1;\n.x", {})] := by decide +kernel
  have hrefused : alone.outcome
      = .error (.scopes ⟨{ message := "no mixin", scope := some "b" }, []⟩) := by
    rfl
  refine ⟨hcompiler, hentries, ?_, hasked.trans hcalls, hcalls, ?_, hrefused⟩
  · rw [hwhole, reported_append, hreported, hserved]
    decide +kernel
  · rw [houtcome, hrefused]
    rfl

/-- The check of an entry has to come to an end: one whose path begins with an unknown account ends
the request for the other entry too, and nothing is reported. -/
theorem compileScoped_kept_of_unknown_account :
    let host : Host := {
      disk := ⟨[(["b.scss"], .file ⟨#[]⟩)]⟩, directory := "/", home := "/root" }
    let w : Workshop := {
      compiler := FanOut.answering fun text _ => .ok { css := text }
      files := host.files .utf8 }
    let entries : List ScopeEntry := [
      ⟨.ofText "a", .one (.ofText "~gone/a.scss")⟩, ⟨.ofText "b", .one (.ofText "b.scss")⟩]
    let whole := w.compileScoped ".x\x7b\x7d" (some entries) none
    let alone := w.compileScoped ".x\x7b\x7d" (some (Validation.kept w.files entries)) none
    (Validation.kept w.files entries).length = 1 ∧
      whole.outcome = .error (.file .noHome) ∧ reported whole.events = [] ∧
      FanOut.asked whole.events = [] ∧
      alone.outcome = .ok { css := "\n.b .x\x7b\x7d", dependencyPaths := ["b.scss"] } := by
  intro host w entries whole alone
  exact ⟨by decide +kernel, rfl, rfl, rfl, Run.outcome_eq_ok (by decide +kernel)⟩

end Workshop

end ThemedSheets
