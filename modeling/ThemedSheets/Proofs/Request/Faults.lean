import ThemedSheets.Proofs.Outcome
import ThemedSheets.Proofs.Request.Stages
import ThemedSheets.Proofs.Scope.Files
/- The faults that a request can end with. Checking its entries ends early only for what the file
   system says or for a number that cannot be written; a task ends early where the overrides cannot be
   read or the compiler fails; and merging one result for every scope finds a mismatch or returns. So
   where the number of workers is not negative, every fault of a request is one of these
   (`canEndIn_of_compileScoped`). -/
namespace ThemedSheets
open ThemedSheets.Yaml

namespace Run
variable {α β : Type}

theorem outcome_bind (x : Run α) (f : α → Run β) :
    (x >>= f).outcome = x.outcome >>= fun a => (f a).outcome := by
  cases h : x.outcome with
  | error e => rw [bind_of_error h]; rfl
  | ok a => rw [bind_of_ok h]; rfl

end Run

/-! ## Checking entries -/

namespace Validation
variable {files : FileSystem}

/-- A fault that the check of an entry can end with. -/
def IsOfCheck (fault : Fault) : Prop := (∃ f, fault = .file f) ∨ fault = .unwritableNumber

theorem isOfCheck_shown {v : Value} {fault : Fault} (h : shown v = .error fault) :
    IsOfCheck fault := by
  unfold shown at h
  split at h
  · cases h
  · exact Or.inr (Except.error.inj h).symm

theorem isOfCheck_itemPath {v : Value} {fault : Fault} (h : itemPath v = .error fault) :
    IsOfCheck fault := by
  unfold itemPath at h
  split at h
  · cases h
  · exact isOfCheck_shown (Outcome.map_eq_error.1 h)

theorem isOfCheck_missing {scope : String} {v : Value}
    {named : Value → Except Fault (Option String)} {fault : Fault}
    (hnamed : ∀ fault, named v = .error fault → IsOfCheck fault)
    (h : missing scope v named = .error fault) : IsOfCheck fault := by
  rcases Outcome.bind_eq_error.1 h with hshown | ⟨text, -, h⟩
  · exact isOfCheck_shown hshown
  rcases Outcome.bind_eq_error.1 h with hpath | ⟨path, -, h⟩
  · exact hnamed _ hpath
  · cases h

theorem isOfCheck_filePath? {v : Value} {fault : Fault} (h : filePath? files v = .error fault) :
    IsOfCheck fault := by
  unfold filePath? at h
  split at h
  · split at h
    · cases h
    · split at h
      · cases h
      · exact Or.inl ⟨_, (Except.error.inj h).symm⟩
  · cases h

theorem isOfCheck_checkItems {scope : String} {items : List Value} {fault : Fault}
    (h : checkItems files scope items = .error fault) : IsOfCheck fault := by
  induction items with
  | nil => cases h
  | cons v items ih =>
    unfold checkItems at h
    split at h
    · next e he =>
      obtain rfl := Except.error.inj h
      exact isOfCheck_filePath? he
    · exact ih (Outcome.map_eq_error.1 h)
    · split at h
      · next e he =>
        obtain rfl := Except.error.inj h
        exact isOfCheck_missing (fun _ => isOfCheck_itemPath) he
      · exact ih (Outcome.map_eq_error.1 h)

theorem isOfCheck_check {entry : ScopeEntry} {fault : Fault} (h : check files entry = .error fault) :
    IsOfCheck fault := by
  by_cases hnamed : ∃ name, entry.IsNamed name
  · obtain ⟨name, hname⟩ := hnamed
    cases hpath : entry.path with
    | one v =>
      rw [check_of_one hname hpath] at h
      split at h
      · next e he =>
        obtain rfl := Except.error.inj h
        exact isOfCheck_filePath? he
      · cases h
      · refine isOfCheck_missing (fun fault hsingle => ?_) (Outcome.map_eq_error.1 h)
        rw [singlePath_eq] at hsingle
        cases hsingle
    | many items =>
      rw [check_of_many hname hpath] at h
      split at h
      · next e he =>
        obtain rfl := Except.error.inj h
        exact isOfCheck_checkItems he
      · cases h
      · cases h
  · rw [check_of_unnamed (not_exists.1 hnamed)] at h
    cases h

theorem isOfCheck_checkAll {seen : List String} {entries : List ScopeEntry} {fault : Fault}
    (h : (checkAll files seen entries).outcome = .error fault) : IsOfCheck fault := by
  induction entries generalizing seen with
  | nil => cases h
  | cons entry entries ih =>
    rw [checkAll, Run.outcome_bind] at h
    rcases Outcome.bind_eq_error.1 h with hcheck | ⟨⟨found, problems⟩, -, h⟩
    · exact isOfCheck_check hcheck
    have hrest : ∀ (seen : List String) (g : List Scope × List Diagnostic →
          List Scope × List Diagnostic),
        (checkAll files seen entries >>= fun rest => pure (g rest)).outcome = .error fault →
          IsOfCheck fault := fun seen g hg =>
      ih (Outcome.map_eq_error.1 ((congrArg Run.outcome (Run.bind_pure_map _ g)).symm.trans hg))
    cases found with
    | none => exact hrest _ _ h
    | some scope =>
      dsimp only at h
      -- a name that is met again is only logged
      split at h
      · rw [Run.bind_of_ok rfl] at h
        exact hrest _ _ h
      · exact hrest _ _ h

theorem isOfCheck_validate {entries : Option (List ScopeEntry)} {fault : Fault}
    (h : (validate files entries).outcome = .error fault) : IsOfCheck fault := by
  cases entries with
  | none => cases h
  | some entries =>
    rw [validate, Run.outcome_bind] at h
    rcases Outcome.bind_eq_error.1 h with hall | ⟨⟨scopes, diagnostics⟩, -, h⟩
    · exact isOfCheck_checkAll hall
    · dsimp only at h
      split at h <;> cases h

end Validation

/-! ## Serving scopes -/

namespace Workshop

/-- The faults that a request can end with where there are workers for it. -/
inductive CanEndIn (w : Workshop) : Fault → Prop where
  | check {fault : Fault} (h : Validation.IsOfCheck fault) : CanEndIn w fault
  | compiler {text : String} {options : CompileOptions} {fault : Fault}
    (h : (w.compiler text options).outcome = .error fault) : CanEndIn w fault
  | refusal (e : CompileFailure) : CanEndIn w (.compile e)
  | refusals (failures : ScopeFailures) : CanEndIn w (.scopes failures)
  | because {fault : Fault} (h : CanEndIn w fault) (failures : ScopeFailures) :
    CanEndIn w (.because fault failures)
  | mismatch (m : Mismatch) : CanEndIn w (.mismatch m)

variable {w : Workshop} {source : String} {fault : Fault}

theorem canEndIn_of_task {options : CompileOptions} {scope : Scope}
    (h : (FanOut.task w.compiler (.ofFiles w.files) options source scope).outcome
      = .error fault) : w.CanEndIn fault := by
  rw [FanOut.task, Run.outcome_bind] at h
  rcases Outcome.bind_eq_error.1 h with hinput | ⟨input, -, h⟩
  · -- the overrides could not be read
    have hload := Outcome.map_eq_error.1 hinput
    refine .check (Or.inl ?_)
    unfold Loader.ofFiles at hload
    cases hfiles : Overrides.load w.files scope.path with
    | ok text =>
      rw [hfiles] at hload
      cases hload
    | error f =>
      rw [hfiles] at hload
      exact ⟨f, (Except.error.inj hload).symm⟩
  rw [Run.bind_of_ok rfl, Run.outcome_bind] at h
  rcases Outcome.bind_eq_error.1 h with houtput | ⟨output, -, h⟩
  · dsimp only [Run.recover] at houtput
    split at houtput
    · next e he =>
      split at houtput
      · obtain rfl := Except.error.inj houtput
        exact .refusal _
      · obtain rfl := Except.error.inj houtput
        exact .compiler he
    · cases houtput
  · cases h

end Workshop

namespace FanOut

theorem mem_of_firstOther {α : Type} {outcomes : List (Except Fault α)} {fault : Fault}
    (h : firstOther outcomes = some fault) : .error fault ∈ outcomes := by
  induction outcomes with
  | nil => cases h
  | cons o outcomes ih =>
    unfold firstOther at h
    split at h
    · cases h
    · next e rest hcons =>
      obtain ⟨-, rfl⟩ := List.cons.inj hcons
      exact List.mem_cons_of_mem _ (ih h)
    · next other rest _ hcons =>
      obtain ⟨rfl, -⟩ := List.cons.inj hcons
      obtain rfl := Option.some.inj h
      exact List.mem_cons_self
    · next a rest hcons =>
      obtain ⟨-, rfl⟩ := List.cons.inj hcons
      exact List.mem_cons_of_mem _ (ih h)

end FanOut

namespace Workshop
variable {w : Workshop} {source : String} {fault : Fault}

theorem canEndIn_of_settle {α : Type} {outcomes : List (Except Fault α)}
    (hall : ∀ fault, .error fault ∈ outcomes → w.CanEndIn fault)
    (h : FanOut.settle outcomes = .error fault) : w.CanEndIn fault := by
  unfold FanOut.settle at h
  split at h
  · next other failures hother _ =>
    obtain rfl := Except.error.inj h
    exact .because (hall _ (FanOut.mem_of_firstOther hother)) failures
  · next other hother _ =>
    obtain rfl := Except.error.inj h
    exact hall _ (FanOut.mem_of_firstOther hother)
  · obtain rfl := Except.error.inj h
    exact .refusals _
  · cases h

theorem canEndIn_of_compileAll (hworkers : ∀ n, w.maxWorkers = some n → 0 ≤ n)
    {options : CompileOptions} {scopes : List Scope}
    (h : (FanOut.compileAll w.compiler w.files options w.maxWorkers source scopes).outcome
      = .error fault) : w.CanEndIn fault := by
  by_cases hempty : scopes = []
  · subst hempty
    cases h
  · rw [FanOut.compileAll, FanOut.compileIn_eq w.compiler hempty
      (FanOut.workers_pos hworkers (List.length_pos_iff.2 hempty)) (.refl _)] at h
    refine canEndIn_of_settle (fun fault hmem => ?_) h
    obtain ⟨task, htask, hfault⟩ := List.mem_map.1 hmem
    obtain ⟨scope, -, rfl⟩ := List.mem_map.1 htask
    exact canEndIn_of_task hfault

theorem mismatch_of_merge {results : List CompiledScope} {scopes : List Scope} {verify : Bool}
    (hlen : results.length = scopes.length)
    (h : (Merge.merge results (some scopes) verify).outcome = .error fault) :
    ∃ m, fault = .mismatch m := by
  cases results with
  | nil => cases h
  | cons base others =>
    rw [Merge.outcome_merge base others (some scopes) verify hlen.symm] at h
    dsimp only at h
    split at h
    · exact ⟨_, (Except.error.inj h).symm⟩
    · cases h

/-- Every fault of a request for which there are workers is told by its entries' checks, the overrides,
the compiler or the comparison of the sheets. -/
theorem canEndIn_of_compileScoped (hworkers : ∀ n, w.maxWorkers = some n → 0 ≤ n)
    {entries : Option (List ScopeEntry)} {sourcePath : Option String}
    (h : (w.compileScoped source entries sourcePath).outcome = .error fault) :
    w.CanEndIn fault := by
  rw [compileScoped_eq, Run.outcome_bind] at h
  rcases Outcome.bind_eq_error.1 h with hfront | ⟨validated, -, h⟩
  · rw [front, Run.outcome_bind] at hfront
    rcases Outcome.bind_eq_error.1 hfront with hvalidate | ⟨validated, -, hrest⟩
    · exact .check (Validation.isOfCheck_validate hvalidate)
    · rw [Run.bind_of_ok (outcome_logDiagnostics _ _), report_eq] at hrest
      cases hrest
  rw [Run.bind_pure_map] at h
  have hserve := Outcome.map_eq_error.1 h
  rw [serve, Run.bind_of_ok rfl, Run.outcome_bind] at hserve
  rcases Outcome.bind_eq_error.1 hserve with hcompile | ⟨results, hresults, hmerge⟩
  · exact canEndIn_of_compileAll hworkers hcompile
  · have hlen : results.length = validated.scopes.length := by
      simpa using (congrArg List.length (FanOut.tasks_of_compileIn (.refl _) hresults)).symm
    obtain ⟨m, rfl⟩ := mismatch_of_merge hlen hmerge
    exact .mismatch m

end Workshop

end ThemedSheets
