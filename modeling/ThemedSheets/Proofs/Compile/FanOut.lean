import Mathlib.Data.List.Basic
import ThemedSheets.Compile.FanOut
import ThemedSheets.Proofs.Run
/- What compiling for all scopes at once comes to, whatever the order in which the tasks finish. The
   board is followed task by task: one that finishes fills its own place (`getElem?_places_finish`),
   so that after all of them the outcomes stand in the order of the scopes and the events are those
   of every task once (`outcomes_finishAll`, `perm_events_finishAll`). What one task does is the
   fate of its scope, which depends on no other scope (`task_answering`), and what is read off the
   full board is a verdict over these fates (`compileIn_verdict`). -/
namespace ThemedSheets

/-! ## The board -/

namespace FanOut
namespace Board
variable {α : Type}

theorem length_places_finish (tasks : List (Run α)) (board : Board α) (place : Nat) :
    (finish tasks board place).places.length = board.places.length := by
  unfold finish
  split
  · rfl
  · exact List.length_set

/-- A task that finishes fills its own place and leaves all others. -/
theorem getElem?_places_finish (tasks : List (Run α)) (board : Board α) (place i : Nat)
    (hlen : board.places.length = tasks.length) :
    (finish tasks board place).places[i]? =
      if i = place then tasks[i]?.map fun t => some t.outcome else board.places[i]? := by
  unfold finish
  split
  · next hnone =>
    -- no task has this place, and neither has the board
    split
    · next heq =>
      have hout := List.getElem?_eq_none_iff.1 hnone
      rw [heq, hnone, List.getElem?_eq_none_iff.2 (by omega)]
      rfl
    · rfl
  · next t hsome =>
    have hplace : place < board.places.length := by
      rw [hlen]
      exact (List.getElem?_eq_some_iff.1 hsome).1
    split
    · next heq => rw [heq, hsome, List.getElem?_set_self hplace]; rfl
    · next hne => exact List.getElem?_set_ne fun h => hne h.symm

/-- After some tasks have finished, in any order, their places are filled and no others. -/
theorem getElem?_places_foldl (tasks : List (Run α)) (order : List Nat) (board : Board α) (i : Nat)
    (hlen : board.places.length = tasks.length) :
    (order.foldl (finish tasks) board).places[i]? =
      if i ∈ order then tasks[i]?.map fun t => some t.outcome else board.places[i]? := by
  induction order generalizing board with
  | nil => simp
  | cons place order ih =>
    rw [List.foldl_cons, ih _ ((length_places_finish tasks board place).trans hlen),
      getElem?_places_finish tasks board place i hlen]
    by_cases hi : i ∈ order
    · rw [if_pos hi, if_pos (List.mem_cons_of_mem _ hi)]
    · by_cases heq : i = place
      · rw [if_neg hi, if_pos heq, if_pos (by simp [heq])]
      · rw [if_neg hi, if_neg heq, if_neg (by simp [heq, hi])]

def eventsAt (tasks : List (Run α)) (place : Nat) : List Event :=
  tasks[place]?.elim [] fun t => t.events.map Event.ofWorker

theorem events_foldl (tasks : List (Run α)) (order : List Nat) (board : Board α) :
    (order.foldl (finish tasks) board).events
      = board.events ++ order.flatMap (eventsAt tasks) := by
  induction order generalizing board with
  | nil => simp
  | cons place order ih =>
    have hone : (finish tasks board place).events = board.events ++ eventsAt tasks place := by
      unfold finish eventsAt
      cases tasks[place]? with
      | none => exact (List.append_nil _).symm
      | some t => rfl
    rw [List.foldl_cons, ih, hone, List.flatMap_cons, List.append_assoc]

theorem flatMap_range_elim {α β : Type} (l : List α) (f : α → List β) :
    ((List.range l.length).flatMap fun i => l[i]?.elim [] f) = l.flatMap f := by
  induction l with
  | nil => rfl
  | cons a l ih =>
    rw [List.length_cons, List.range_succ_eq_map, List.flatMap_cons, List.flatMap_map,
      List.flatMap_cons, ← ih]
    rfl

section
variable {tasks : List (Run α)} {order : List Nat} (h : order.Perm (List.range tasks.length))
include h

theorem outcomes_finishAll : (finishAll tasks order).outcomes = tasks.map (·.outcome) := by
  have hplaces : (finishAll tasks order).places = tasks.map fun t => some t.outcome := by
    apply List.ext_getElem?
    intro i
    rw [finishAll, getElem?_places_foldl tasks order _ i (by simp [blank]), List.getElem?_map]
    split
    · rfl
    · next hi =>
      have hout : tasks.length ≤ i :=
        Nat.le_of_not_lt fun hlt => hi (h.mem_iff.2 (List.mem_range.2 hlt))
      simp [blank, hout]
  rw [outcomes, hplaces, List.filterMap_map]
  exact congrFun List.filterMap_eq_map tasks

theorem perm_events_finishAll :
    (finishAll tasks order).events.Perm
      (tasks.flatMap fun t => t.events.map Event.ofWorker) := by
  -- going through the places in another order permutes what is collected
  rw [finishAll, events_foldl, ← flatMap_range_elim tasks]
  exact h.flatMap_right (eventsAt tasks)

end

end Board

/-! ## Fates -/

/-- The texts that the compiler is given, with the options. -/
def asked (events : List Event) : List (String × CompileOptions) :=
  events.filterMap fun e =>
    match e with
    | .asked text options => some (text, options)
    | _ => none

/-- A compiler that answers as a function does and leaves behind what it is asked. -/
def answering (answer : String → CompileOptions → Except Fault CompileOutput) : Compiler :=
  fun text options => ⟨[.asked text options], answer text options⟩

/-- What becomes of one scope. -/
inductive Fate where
  /-- The compiler answered its text. -/
  | compiled (result : CompiledScope)
  /-- The compiler refused its text; the failure is moved to where it belongs. -/
  | refused (e : CompileFailure)
  /-- Its overrides cannot be loaded, or the compiler broke down. -/
  | broken (fault : Fault)

namespace Fate

def refusal? : Fate → Option CompileFailure
  | .refused e => some e
  | _ => none

def fault? : Fate → Option Fault
  | .broken fault => some fault
  | _ => none

/-- How the task of a scope ends. -/
def outcome : Fate → Except Fault CompiledScope
  | .compiled result => .ok result
  | .refused e => .error (.compile e)
  | .broken fault => .error fault

theorem findSome?_eq_none {fates : List Fate} (h : ∀ g, Fate.broken g ∉ fates) :
    fates.findSome? fault? = none := by
  rw [List.findSome?_eq_none_iff]
  intro f hf
  cases f with
  | compiled result => rfl
  | refused e => rfl
  | broken g => exact absurd hf (h g)

theorem exists_results {fates : List Fate} (h : ∀ f ∈ fates, ∃ result, f = .compiled result) :
    ∃ results : List CompiledScope, fates = results.map compiled := by
  induction fates with
  | nil => exact ⟨[], rfl⟩
  | cons f fates ih =>
    obtain ⟨⟨result, rfl⟩, hrest⟩ := List.forall_mem_cons.1 h
    obtain ⟨results, rfl⟩ := ih hrest
    exact ⟨result :: results, rfl⟩

end Fate

section
variable (answer : String → CompileOptions → Except Fault CompileOutput) (load : Loader)
  (options : CompileOptions) (source : String)

/-- The fate of a scope. It depends on nothing but this scope's text and the compiler's answer. -/
def fate (scope : Scope) : Fate :=
  match ScopeInput.buildFrom load options source scope with
  | .error fault => .broken fault
  | .ok input =>
    match answer input.text options with
    | .ok output => .compiled {
        scope
        css := output.css
        sourceMap := output.sourceMap
        dependencyPaths := output.includedFiles
        errors := output.errors }
    | .error fault =>
      match fault.refusal? with
      | some e => .refused (input.relocate options e)
      | none => .broken fault

/-- What the compiler is asked for a scope, if the overrides of the scope can be loaded. -/
def call? (scope : Scope) : Option (String × CompileOptions) :=
  match ScopeInput.buildFrom load options source scope with
  | .ok input => some (input.text, options)
  | .error _ => none

/-- The task of a scope ends as its fate says, and asks the compiler once if it asks at all. -/
theorem task_answering (scope : Scope) :
    (task (answering answer) load options source scope).outcome
        = (fate answer load options source scope).outcome ∧
      asked (task (answering answer) load options source scope).events
        = (call? load options source scope).toList := by
  unfold task fate call?
  cases ScopeInput.buildFrom load options source scope with
  | error fault => exact ⟨rfl, rfl⟩
  | ok input =>
    rw [Run.bind_of_ok (a := input) rfl]
    simp only [answering, Run.recover]
    cases hanswer : answer input.text options with
    | ok output => exact ⟨rfl, rfl⟩
    | error fault =>
      cases hrefusal : fault.refusal? with
      | none => simp only [hrefusal]; exact ⟨rfl, rfl⟩
      | some e => simp only [hrefusal]; exact ⟨rfl, rfl⟩

end

/-! ## The verdict -/

theorem asked_map_ofWorker (events : List Event) :
    asked (events.map Event.ofWorker) = asked events := by
  rw [asked, List.filterMap_map]
  refine congrArg (fun g => events.filterMap g) (funext fun e => ?_)
  cases e <;> rfl

theorem asked_append (xs ys : List Event) : asked (xs ++ ys) = asked xs ++ asked ys :=
  List.filterMap_append

theorem perm_asked_finishAll {α : Type} {tasks : List (Run α)} {order : List Nat}
    (h : order.Perm (List.range tasks.length)) :
    (asked (Board.finishAll tasks order).events).Perm
      (tasks.flatMap fun t => asked t.events) := by
  refine ((Board.perm_events_finishAll h).filterMap _).trans (.of_eq ?_)
  rw [List.filterMap_flatMap]
  exact List.flatMap_congr fun t _ => asked_map_ofWorker t.events

theorem logRefusals_spec {α : Type} (outcomes : List (Scope × Except Fault α)) :
    (logRefusals outcomes).outcome = .ok () ∧ asked (logRefusals outcomes).events = [] := by
  induction outcomes with
  | nil => exact ⟨rfl, rfl⟩
  | cons o outcomes ih =>
    unfold logRefusals
    split
    · next h => simp at h
    · next scope e rest h =>
      obtain rfl : outcomes = rest := (List.cons.inj h).2
      refine ⟨ih.1, ?_⟩
      exact ih.2
    · next rest h hrest =>
      obtain rfl : outcomes = rest := (List.cons.inj hrest).2
      exact ih

-- the two functions tell refusals by their constructor, so all constructors are gone through
theorem firstOther_cons_error {α : Type} {fault : Fault} (h : fault.refusal? = none)
    (rest : List (Except Fault α)) : firstOther (.error fault :: rest) = some fault := by
  cases fault <;> first | rfl | simp [Fault.refusal?] at h

theorem refusals_cons_error {α : Type} {fault : Fault} (h : fault.refusal? = none)
    (rest : List (Except Fault α)) : refusals (.error fault :: rest) = refusals rest := by
  cases fault <;> first | rfl | simp [Fault.refusal?] at h

theorem values_map_ok {α : Type} (results : List α) :
    values (results.map (Except.ok (ε := Fault))) = results := by
  induction results with
  | nil => rfl
  | cons r results ih => exact congrArg (r :: ·) ih

section
variable {fates : List Fate} (h : ∀ fault, Fate.broken fault ∈ fates → fault.refusal? = none)
include h

theorem refusals_map_outcome :
    refusals (fates.map Fate.outcome) = fates.filterMap Fate.refusal? := by
  induction fates with
  | nil => rfl
  | cons f fates ih =>
    have ih := ih fun fault hf => h fault (List.mem_cons_of_mem _ hf)
    cases f with
    | compiled result => exact ih
    | refused e => exact congrArg (e :: ·) ih
    | broken fault => exact (refusals_cons_error (h fault (List.mem_cons_self ..)) _).trans ih

theorem firstOther_map_outcome :
    firstOther (fates.map Fate.outcome) = fates.findSome? Fate.fault? := by
  induction fates with
  | nil => rfl
  | cons f fates ih =>
    have ih := ih fun fault hf => h fault (List.mem_cons_of_mem _ hf)
    cases f with
    | compiled result => exact ih
    | refused e => exact ih
    | broken fault => exact firstOther_cons_error (h fault (List.mem_cons_self ..)) _

theorem settle_of_broken {before after : List Fate} {fault : Fault}
    (hsplit : fates = before ++ .broken fault :: after) (hfirst : ∀ g, Fate.broken g ∉ before) :
    settle (fates.map Fate.outcome) = .error (match fates.filterMap Fate.refusal? with
      | [] => fault
      | e :: es => .because fault ⟨e, es⟩) := by
  have hfound : fates.findSome? Fate.fault? = some fault := by
    rw [hsplit, List.findSome?_append, Fate.findSome?_eq_none hfirst]
    rfl
  rw [settle, firstOther_map_outcome h, refusals_map_outcome h, hfound]
  cases fates.filterMap Fate.refusal? with
  | nil => rfl
  | cons e es => rfl

end

theorem settle_of_refused {fates : List Fate} {e : CompileFailure} {es : List CompileFailure}
    (hnone : ∀ g, Fate.broken g ∉ fates) (hsome : fates.filterMap Fate.refusal? = e :: es) :
    settle (fates.map Fate.outcome) = .error (.scopes ⟨e, es⟩) := by
  have h : ∀ fault, Fate.broken fault ∈ fates → fault.refusal? = none :=
    fun g hg => absurd hg (hnone g)
  rw [settle, firstOther_map_outcome h, refusals_map_outcome h, hsome,
    Fate.findSome?_eq_none hnone]
  rfl

theorem settle_of_compiled (results : List CompiledScope) :
    settle ((results.map Fate.compiled).map Fate.outcome) = .ok results := by
  have hnone : ∀ g, Fate.broken g ∉ results.map Fate.compiled := by simp
  have h : ∀ fault, Fate.broken fault ∈ results.map Fate.compiled → fault.refusal? = none :=
    fun g hg => absurd hg (hnone g)
  have hrefusals : (results.map Fate.compiled).filterMap Fate.refusal? = [] := by
    simp [Fate.refusal?]
  rw [settle, firstOther_map_outcome h, refusals_map_outcome h, hrefusals,
    Fate.findSome?_eq_none hnone, List.map_map]
  exact congrArg Except.ok (values_map_ok results)

/-! ## Compiling for all scopes -/

section
variable {answer : String → CompileOptions → Except Fault CompileOutput} {load : Loader}
  {options : CompileOptions} {source : String} {scopes : List Scope}

/-- A fault that breaks a scope is no refusal: a refusal of the compiler is moved, not passed on. -/
theorem refusal?_of_broken_mem
    (hload : ∀ s ∈ scopes, ∀ fault, load s.path = .error fault → fault.refusal? = none) :
    ∀ fault, Fate.broken fault ∈ scopes.map (fate answer load options source) →
      fault.refusal? = none := by
  intro fault hmem
  obtain ⟨s, hs, hfate⟩ := List.mem_map.1 hmem
  unfold fate at hfate
  split at hfate
  · next f hinput =>
    obtain rfl : f = fault := by simpa using hfate
    refine hload s hs f ?_
    unfold ScopeInput.buildFrom at hinput
    cases hpath : load s.path with
    | ok text => rw [hpath] at hinput; simp [Except.map] at hinput
    | error g =>
      rw [hpath] at hinput
      exact congrArg Except.error (by simpa [Except.map] using hinput)
  · split at hfate
    · simp at hfate
    · next f _ =>
      split at hfate
      · simp at hfate
      · next hrefusal =>
        obtain rfl : f = fault := by simpa using hfate
        exact hrefusal

theorem workers_pos {maxWorkers : Option Int} (hworkers : ∀ n, maxWorkers = some n → 0 ≤ n)
    {scopes : Nat} (hscopes : 0 < scopes) : 0 < workers maxWorkers scopes := by
  unfold workers
  cases maxWorkers with
  | none => exact Int.natCast_pos.2 hscopes
  | some n =>
    have := hworkers n rfl
    dsimp only
    split <;> omega

/-- The tasks of all scopes leave their events on the board, the refused ones are told, and the
board is read. This holds of every compiler. -/
theorem compileIn_eq (compiler : Compiler) {maxWorkers : Option Int} {order : List Nat}
    (hne : scopes ≠ []) (hworkers : 0 < workers maxWorkers scopes.length)
    (horder : order.Perm (List.range scopes.length)) :
    let tasks := scopes.map (task compiler load options source)
    compileIn order compiler load options maxWorkers source scopes =
      ⟨(Board.finishAll tasks order).events
          ++ (logRefusals (scopes.zip (tasks.map (·.outcome)))).events,
        settle (tasks.map (·.outcome))⟩ := by
  intro tasks
  have houtcomes : (Board.finishAll tasks order).outcomes = tasks.map (·.outcome) :=
    Board.outcomes_finishAll (by simpa [tasks] using horder)
  have hlog := (logRefusals_spec (scopes.zip (tasks.map (·.outcome)))).1
  simp only [compileIn, List.isEmpty_iff, hne, Int.not_le.2 hworkers, if_false]
  rw [Run.bind_of_ok rfl, houtcomes, Run.bind_of_ok hlog]
  simp [tasks, Run.ofExcept]

/-- However the tasks finish, the run ends as the fates of the scopes come to, and asks the compiler
for every scope once. -/
theorem compileIn_answering {maxWorkers : Option Int} {order : List Nat}
    (hworkers : ∀ n, maxWorkers = some n → 0 ≤ n)
    (horder : order.Perm (List.range scopes.length)) :
    let run := compileIn order (answering answer) load options maxWorkers source scopes
    run.outcome = settle ((scopes.map (fate answer load options source)).map Fate.outcome) ∧
      (asked run.events).Perm (scopes.filterMap (call? load options source)) := by
  intro run
  -- without scopes no worker is started, so the number of workers is not even looked at
  by_cases hempty : scopes = []
  · subst hempty
    exact ⟨rfl, .refl _⟩
  let tasks := scopes.map (task (answering answer) load options source)
  have hrun : run = _ := compileIn_eq (answering answer) hempty
    (workers_pos hworkers (List.length_pos_iff.2 hempty)) horder
  have houtcomes : tasks.map (·.outcome)
      = (scopes.map (fate answer load options source)).map Fate.outcome := by
    rw [List.map_map, List.map_map]
    exact List.map_congr_left fun s _ => (task_answering answer load options source s).1
  constructor
  · rw [hrun, ← houtcomes]
  · have hasked : asked run.events = asked (Board.finishAll tasks order).events := by
      rw [hrun, asked_append, (logRefusals_spec _).2, List.append_nil]
    have hcalls : (tasks.flatMap fun t => asked t.events)
        = scopes.filterMap (call? load options source) := by
      rw [List.filterMap_eq_flatMap_toList, List.flatMap_map]
      exact List.flatMap_congr fun s _ => (task_answering answer load options source s).2
    rw [hasked, ← hcalls]
    exact perm_asked_finishAll (by simpa [tasks] using horder)

end

/-- **One verdict for every mix of fates and every order of finishing.** The compiler is asked once
for every scope whose overrides can be loaded. If all scopes compile, the results stand in scope
order. Else, if scopes are broken, the fault of the first of them in scope order ends the run, with
all refusals as its cause if there are any. Else the refusals do, in scope order. -/
theorem compileIn_verdict (answer : String → CompileOptions → Except Fault CompileOutput)
    (load : Loader) (options : CompileOptions) (maxWorkers : Option Int) (source : String)
    (scopes : List Scope) (order : List Nat)
    (hload : ∀ s ∈ scopes, ∀ fault, load s.path = .error fault → fault.refusal? = none)
    (hworkers : ∀ n, maxWorkers = some n → 0 ≤ n)
    (horder : order.Perm (List.range scopes.length)) :
    let run := compileIn order (answering answer) load options maxWorkers source scopes
    let fates := scopes.map (fate answer load options source)
    (asked run.events).Perm (scopes.filterMap (call? load options source)) ∧
      ((∀ f ∈ fates, ∃ result, f = .compiled result) →
        ∃ results, run.outcome = .ok results ∧ fates = results.map Fate.compiled) ∧
      (∀ before fault after, fates = before ++ .broken fault :: after →
        (∀ g, .broken g ∉ before) →
        run.outcome = .error (match fates.filterMap Fate.refusal? with
          | [] => fault
          | e :: es => .because fault ⟨e, es⟩)) ∧
      (∀ e es, (∀ g, .broken g ∉ fates) → fates.filterMap Fate.refusal? = e :: es →
        run.outcome = .error (.scopes ⟨e, es⟩)) := by
  intro run fates
  obtain ⟨houtcome, hasked⟩ :=
    @compileIn_answering answer load options source scopes maxWorkers order hworkers horder
  have hclean := @refusal?_of_broken_mem answer load options source scopes hload
  refine ⟨hasked, ?_, ?_, ?_⟩
  · intro hall
    obtain ⟨results, hresults⟩ := Fate.exists_results hall
    have hsettle := settle_of_compiled results
    rw [← hresults] at hsettle
    exact ⟨results, houtcome.trans hsettle, hresults⟩
  · intro before fault after hsplit hfirst
    exact houtcome.trans (settle_of_broken hclean hsplit hfirst)
  · intro e es hnone hsome
    exact houtcome.trans (settle_of_refused hnone hsome)

/-- Five scopes, of which the first compiles and the third has no overrides. The second and the last
are refused, and the compiler breaks down on the fourth; the tasks finish in another order. -/
theorem compileIn_verdict_of_five_fates :
    let answer : String → CompileOptions → Except Fault CompileOutput := fun text _ =>
      if text = "plum\n.x" then .error (.compile { message := "no mixin", line := some 2 })
      else if text = "rose\n.x" then .error (.compile { message := "no function" })
      else if text = "sand\n.x" then .error (.breakdown .value "bad value")
      else .ok { css := text }
    let load : Loader := fun path =>
      match path with
      | .one p => if p = "lost" then .error (.breakdown .system "no file") else .ok p
      | .many _ => .ok ""
    let scopes : List Scope :=
      [⟨"a", .one "lime"⟩, ⟨"b", .one "plum"⟩, ⟨"c", .one "lost"⟩, ⟨"d", .one "sand"⟩,
        ⟨"e", .one "rose"⟩]
    let run := compileIn [3, 0, 4, 2, 1] (answering answer) load {} (some 2) ".x" scopes
    (∀ s ∈ scopes, ∀ fault, load s.path = .error fault → fault.refusal? = none) ∧
      (∀ n, some 2 = some n → (0 : Int) ≤ n) ∧
      [3, 0, 4, 2, 1].Perm (List.range scopes.length) ∧
      (asked run.events).Perm
        [("lime\n.x", {}), ("plum\n.x", {}), ("sand\n.x", {}), ("rose\n.x", {})] ∧
      run.outcome = .error (.because (.breakdown .system "no file")
        ⟨{ message := "no mixin", line := some 1, scope := some "b" },
          [{ message := "no function", scope := some "e" }]⟩) := by
  intro answer load scopes run
  have hload : ∀ s ∈ scopes, ∀ fault, load s.path = .error fault → fault.refusal? = none := by
    intro s hs fault hfault
    simp only [scopes, List.mem_cons, List.not_mem_nil, or_false] at hs
    rcases hs with rfl | rfl | rfl | rfl | rfl <;> cases hfault
    rfl
  have hworkers : ∀ n, some 2 = some n → (0 : Int) ≤ n := by
    rintro n ⟨⟩
    decide
  have horder : [3, 0, 4, 2, 1].Perm (List.range scopes.length) := by decide
  obtain ⟨hasked, _, hbroken, _⟩ :=
    compileIn_verdict answer load {} (some 2) ".x" scopes _ hload hworkers horder
  refine ⟨hload, hworkers, horder, hasked, ?_⟩
  have hsplit : scopes.map (fate answer load {} ".x") = [
      .compiled { scope := ⟨"a", .one "lime"⟩, css := "lime\n.x" },
      .refused { message := "no mixin", line := some 1, scope := some "b" }]
      ++ .broken (.breakdown .system "no file") :: [
      .broken (.breakdown .value "bad value"),
      .refused { message := "no function", scope := some "e" }] := by
    rfl
  exact hbroken _ _ _ hsplit (by simp)

end FanOut

end ThemedSheets
