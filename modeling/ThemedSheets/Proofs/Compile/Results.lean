import ThemedSheets.Proofs.Compile.FanOut
/- What compiling for all scopes leaves and answers, for every compiler. It leaves log records and
   what the compiler leaves (`leaves_compileIn`). Where it returns, the result at each place is what
   the task of the scope there ends with (`tasks_of_compileIn`), and a task looks at the files of its
   own scope only (`task_congr`). Of a compiler that does nothing worse than refuse, the refusals are
   all that can keep the results away (`settle_of_refusals`). -/
namespace ThemedSheets
namespace FanOut

/-! ## What is left behind -/

section
variable {P : Event → Prop} (hlog : ∀ record byWorker, P (.logged record byWorker))
  {compiler : Compiler} (hcompiler : ∀ text options, (compiler text options).Leaves P)
  {load : Loader} {options : CompileOptions} {source : String}
include hlog

theorem ofWorker_of_records {e : Event} (h : P e) : P e.ofWorker := by
  cases e with
  | logged record byWorker => exact hlog record true
  | _ => exact h

theorem leaves_logRefusals {α : Type} (outcomes : List (Scope × Except Fault α)) :
    (logRefusals outcomes).Leaves P := by
  induction outcomes with
  | nil => exact .pure ()
  | cons o outcomes ih =>
    unfold logRefusals
    split
    · exact .pure ()
    · next scope e rest h =>
      obtain rfl : outcomes = rest := (List.cons.inj h).2
      exact (Run.Leaves.log (hlog · false) _ _ _).bind fun _ => ih
    · next rest h hrest =>
      obtain rfl : outcomes = rest := (List.cons.inj hrest).2
      exact ih

include hcompiler

theorem leaves_task (scope : Scope) : (task compiler load options source scope).Leaves P := by
  refine .bind (.ofExcept _) fun input => .bind (.log (hlog · false) _ _ _) fun _ => .bind ?_ fun _ =>
    .bind (.log (hlog · false) _ _ _) fun _ => .pure _
  exact hcompiler input.text options

theorem leaves_compileIn {maxWorkers : Option Int} {scopes : List Scope} {order : List Nat}
    (horder : order.Perm (List.range scopes.length)) :
    (compileIn order compiler load options maxWorkers source scopes).Leaves P := by
  by_cases hempty : scopes = []
  · subst hempty
    exact .pure []
  · by_cases hworkers : 0 < workers maxWorkers scopes.length
    · rw [compileIn_eq compiler hempty hworkers horder]
      refine List.forall_mem_append.2 ⟨?_, leaves_logRefusals hlog _⟩
      intro e he
      -- an event on the board is one of some task
      rw [(Board.perm_events_finishAll (by simpa using horder)).mem_iff, List.mem_flatMap] at he
      obtain ⟨t, ht, he⟩ := he
      obtain ⟨s, _, rfl⟩ := List.mem_map.1 ht
      obtain ⟨made, hmade, rfl⟩ := List.mem_map.1 he
      exact ofWorker_of_records hlog (leaves_task hlog hcompiler s made hmade)
    · simp [compileIn, hempty, Int.not_lt.1 hworkers, Run.Leaves, Run.fail]

end

/-! ## What is answered -/

theorem eq_map_ok {α : Type} {outcomes : List (Except Fault α)} (hother : firstOther outcomes = none)
    (hrefusals : refusals outcomes = []) : outcomes = (values outcomes).map .ok := by
  induction outcomes with
  | nil => rfl
  | cons o outcomes ih =>
    cases o with
    | ok a => exact congrArg (.ok a :: ·) (ih hother hrefusals)
    | error fault => cases fault <;> simp [firstOther, refusals] at hother hrefusals

theorem eq_map_ok_of_settle {α : Type} {outcomes : List (Except Fault α)} {results : List α}
    (h : settle outcomes = .ok results) : outcomes = results.map .ok := by
  unfold settle at h
  split at h
  · simp at h
  · simp at h
  · simp at h
  · next hother hrefusals =>
    have hnil : refusals outcomes = [] := by
      cases hr : refusals outcomes with
      | nil => rfl
      | cons e es => simp [hr, ScopeFailures.ofList?] at hrefusals
    obtain rfl := Except.ok.inj h
    exact eq_map_ok hother hnil

/-- The results stand in the order of the scopes, each the value of its scope's task. -/
theorem tasks_of_compileIn {compiler : Compiler} {load : Loader} {options : CompileOptions}
    {maxWorkers : Option Int} {source : String} {scopes : List Scope} {order : List Nat}
    {results : List CompiledScope} (horder : order.Perm (List.range scopes.length))
    (h : (compileIn order compiler load options maxWorkers source scopes).outcome = .ok results) :
    scopes.map (fun s => (task compiler load options source s).outcome) = results.map .ok := by
  by_cases hempty : scopes = []
  · subst hempty
    obtain rfl := Except.ok.inj h
    rfl
  · by_cases hworkers : 0 < workers maxWorkers scopes.length
    · rw [compileIn_eq compiler hempty hworkers horder, List.map_map] at h
      exact eq_map_ok_of_settle h
    · simp [compileIn, hempty, Int.not_lt.1 hworkers, Run.fail] at h

theorem task_congr (compiler : Compiler) {load load' : Loader} {scope : Scope}
    (h : load scope.path = load' scope.path) (options : CompileOptions) (source : String) :
    task compiler load options source scope = task compiler load' options source scope := by
  simp only [task, ScopeInput.buildFrom, h]

/-! ## Compilers that do nothing worse than refuse -/

theorem mem_refusals_iff {α : Type} {outcomes : List (Except Fault α)} {e : CompileFailure} :
    e ∈ refusals outcomes ↔ .error (.compile e) ∈ outcomes := by
  induction outcomes with
  | nil => simp [refusals]
  | cons o outcomes ih =>
    cases o with
    | ok a => simp [refusals, ih]
    | error fault => cases fault <;> simp [refusals, ih]

theorem firstOther_eq_none {α : Type} {outcomes : List (Except Fault α)}
    (h : ∀ fault, .error fault ∈ outcomes → ∃ e, fault = .compile e) :
    firstOther outcomes = none := by
  induction outcomes with
  | nil => rfl
  | cons o outcomes ih =>
    have ih := ih fun fault hmem => h fault (List.mem_cons_of_mem _ hmem)
    cases o with
    | ok a => exact ih
    | error fault =>
      obtain ⟨e, rfl⟩ := h fault List.mem_cons_self
      exact ih

theorem settle_of_refusals {α : Type} {outcomes : List (Except Fault α)}
    (h : ∀ fault, .error fault ∈ outcomes → ∃ e, fault = .compile e) :
    ((∃ fault, .error fault ∈ outcomes) ∧ ∃ failures, settle outcomes = .error (.scopes failures)) ∨
      ((∀ fault, .error fault ∉ outcomes) ∧
        ∃ results, settle outcomes = .ok results ∧ outcomes = results.map .ok) := by
  have hother := firstOther_eq_none h
  cases hrefusals : refusals outcomes with
  | nil =>
    refine Or.inr ⟨fun fault hmem => ?_, values outcomes, ?_, eq_map_ok hother hrefusals⟩
    · obtain ⟨e, rfl⟩ := h fault hmem
      rw [← mem_refusals_iff, hrefusals] at hmem
      exact absurd hmem List.not_mem_nil
    · rw [settle, hother, hrefusals]
      rfl
  | cons e es =>
    have hmem : e ∈ refusals outcomes := by
      rw [hrefusals]
      exact List.mem_cons_self
    refine Or.inl ⟨⟨_, mem_refusals_iff.1 hmem⟩, ⟨e, es⟩, ?_⟩
    rw [settle, hother, hrefusals]
    rfl

section
variable {compiler : Compiler} {load : Loader} {options : CompileOptions} {source : String}
  {scope : Scope} {input : ScopeInput}
  (hinput : ScopeInput.buildFrom load options source scope = .ok input)
include hinput

theorem outcome_task_of_compiled {output : CompileOutput}
    (h : (compiler input.text options).outcome = .ok output) :
    (task compiler load options source scope).outcome = .ok {
      scope
      css := output.css
      sourceMap := output.sourceMap
      dependencyPaths := output.includedFiles
      errors := output.errors } := by
  rw [task, hinput, Run.bind_of_ok rfl, Run.bind_of_ok rfl, Run.recover, h]
  rfl

theorem outcome_task_of_refused {fault : Fault} {e : CompileFailure}
    (h : (compiler input.text options).outcome = .error fault) (he : fault.refusal? = some e) :
    (task compiler load options source scope).outcome
      = .error (.compile (input.relocate options e)) := by
  rw [task, hinput, Run.bind_of_ok rfl, Run.bind_of_ok rfl, Run.recover, h]
  simp only [he]
  rfl

end

end FanOut
end ThemedSheets
