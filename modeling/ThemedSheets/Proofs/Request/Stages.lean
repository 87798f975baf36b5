import ThemedSheets.Proofs.Compile.Results
import ThemedSheets.Proofs.Merge.Outcome
import ThemedSheets.Proofs.Scope.Checking
import ThemedSheets.Request
/- The two stages of a request. First the entries are validated, and what was left out is logged and
   reported; then the scopes that remain are served, which is compiling and merging. The second
   stage knows nothing of the entries but the scopes they gave (`compileScoped_eq`), so what entries
   have in common in their scopes they have in common in their results. -/
namespace ThemedSheets

/-- The diagnostics that are told to whoever asked. -/
def reported (events : List Event) : List Diagnostic :=
  events.filterMap fun e =>
    match e with
    | .reported d => some d
    | _ => none

theorem reported_append (xs ys : List Event) : reported (xs ++ ys) = reported xs ++ reported ys :=
  List.filterMap_append

theorem reported_eq_nil {events : List Event} (h : ∀ e ∈ events, ∀ d, e ≠ .reported d) :
    reported events = [] := by
  rw [reported, List.filterMap_eq_nil_iff]
  intro e he
  cases e with
  | reported d => exact absurd rfl (h _ he d)
  | _ => rfl

/-- An event of a request before its compilation: a log record made outside of all workers, or a
report. -/
def Event.IsPreliminary (e : Event) : Prop :=
  (∃ record, e = .logged record false) ∨ ∃ d, e = .reported d

theorem isPreliminary_logged (record : Log.Record) : Event.IsPreliminary (.logged record false) :=
  Or.inl ⟨record, rfl⟩

theorem asked_of_preliminary {events : List Event} (h : ∀ e ∈ events, e.IsPreliminary) :
    FanOut.asked events = [] := by
  rw [FanOut.asked, List.filterMap_eq_nil_iff]
  intro e he
  rcases h e he with ⟨record, rfl⟩ | ⟨d, rfl⟩ <;> rfl

namespace Workshop

/-! ## The two stages -/

/-- A request whose entries are validated and told of. -/
def front (w : Workshop) (entries : Option (List ScopeEntry)) : Run ValidationReport := do
  let validated ← Validation.validate w.files entries
  logDiagnostics channel validated.diagnostics
  report validated.diagnostics
  pure validated

/-- What is done for the scopes that remain: their sheets are compiled and merged. -/
def serve (w : Workshop) (source : String) (sourcePath : Option String) (scopes : List Scope) :
    Run MergeResult := do
  Run.log .info channel (announcement sourcePath ⟨scopes, []⟩)
  let results ← FanOut.compileAll w.compiler w.files (w.optionsFor sourcePath) w.maxWorkers source
    scopes
  Merge.merge results (some scopes) w.verify

/-- A request is its front, and then the scopes of the report are served. -/
theorem compileScoped_eq (w : Workshop) (source : String) (entries : Option (List ScopeEntry))
    (sourcePath : Option String) :
    w.compileScoped source entries sourcePath = (w.front entries >>= fun validated =>
      w.serve source sourcePath validated.scopes >>= fun merged =>
        pure { merged with diagnostics := validated.diagnostics }) := by
  simp only [compileScoped, front, serve, bind_assoc, pure_bind]
  rfl

variable {w : Workshop}

/-! ## The front -/

theorem report_eq (ds : List Diagnostic) : report ds = ⟨ds.map .reported, .ok ()⟩ := by
  induction ds with
  | nil => rfl
  | cons d ds ih => rw [report, ih, Run.bind_of_ok rfl]; rfl

theorem outcome_logDiagnostics (channel : String) (ds : List Diagnostic) :
    (logDiagnostics channel ds).outcome = .ok () := by
  induction ds with
  | nil => rfl
  | cons d ds ih => rw [logDiagnostics, Run.bind_of_ok rfl]; exact ih

theorem leaves_front (w : Workshop) (entries : Option (List ScopeEntry)) :
    (w.front entries).Leaves Event.IsPreliminary := by
  refine .bind (Validation.leaves_validate isPreliminary_logged _ _) fun validated =>
    .bind (leaves_logDiagnostics isPreliminary_logged _ _) fun _ => .bind ?_ fun _ => .pure _
  rw [report_eq]
  exact List.forall_mem_map.2 fun d _ => Or.inr ⟨d, rfl⟩

/-- Where validation comes to a report, the front tells every diagnostic of it once, in order. -/
theorem front_spec {entries : Option (List ScopeEntry)} {validated : ValidationReport}
    (h : (Validation.validate w.files entries).outcome = .ok validated) :
    (w.front entries).outcome = .ok validated ∧
      reported (w.front entries).events = validated.diagnostics := by
  have hsilent : ∀ record, ∀ d, Event.logged record false ≠ .reported d := by simp
  have hvalidate := reported_eq_nil (Validation.leaves_validate hsilent w.files entries)
  have hlog := reported_eq_nil (leaves_logDiagnostics hsilent channel validated.diagnostics)
  have hreport : reported (validated.diagnostics.map Event.reported) = validated.diagnostics := by
    simp [reported]
  rw [front, Run.bind_of_ok h, Run.bind_of_ok (outcome_logDiagnostics _ _), report_eq,
    Run.bind_of_ok rfl]
  refine ⟨rfl, ?_⟩
  rw [reported_append, hvalidate, reported_append, hlog, reported_append, hreport]
  exact List.append_nil _

/-! ## Requests -/

theorem compileScoped_of_validated {entries : Option (List ScopeEntry)}
    {validated : ValidationReport}
    (h : (Validation.validate w.files entries).outcome = .ok validated) (source : String)
    (sourcePath : Option String) :
    w.compileScoped source entries sourcePath =
      ⟨(w.front entries).events ++ (w.serve source sourcePath validated.scopes).events,
        (w.serve source sourcePath validated.scopes).outcome.map fun merged =>
          { merged with diagnostics := validated.diagnostics }⟩ := by
  rw [compileScoped_eq, Run.bind_of_ok (front_spec h).1, Run.bind_pure_map]

theorem leaves_serve {P : Event → Prop} (hlog : ∀ record byWorker, P (.logged record byWorker))
    (hcompiler : ∀ text options, (w.compiler text options).Leaves P) (source : String)
    (sourcePath : Option String) (scopes : List Scope) :
    (w.serve source sourcePath scopes).Leaves P :=
  .bind (.log (hlog · false) _ _ _) fun _ =>
    .bind (FanOut.leaves_compileIn hlog hcompiler (.refl _)) fun _ =>
      Merge.leaves_merge (hlog · false) _ _ _

end Workshop

end ThemedSheets
