import ThemedSheets.Proofs.Command.Dependencies
import ThemedSheets.Proofs.Run
import ThemedSheets.Sass.Toolchain
/- The files that a compilation imports. What an importer finds is the normal form of a name taken
   from one of its roots, and a file is there (`find?_spec`). A dialogue adds to the files found one
   for every import that is answered, in order (`imported_converse`), so what holds of all that an
   importer finds holds of all files that are told. Roots come from the source, from the current
   directory, from the options and from the search path; all are absolute but those of the search
   path, which are taken as they are given (`includedFiles_of_relative_search`). -/
namespace ThemedSheets.Sass
open ThemedSheets.Path

/-! ## What is found -/

namespace Importer
variable {imp : Importer} {request importing : String}

theorem find?_spec {p : String} (h : imp.find? request importing = some p) :
    imp.host.disk.test imp.host.directory p Entry.isFile = .ok true ∧
      ∃ root ∈ imp.roots importing, ∃ name, p = normalize (joined root name) := by
  constructor
  · have hleads := List.find?_some h
    unfold leadsToFile at hleads
    split at hleads
    · next found htest => rw [htest, hleads]
    · simp at hleads
  · have hplace := List.mem_of_find?_eq_some h
    simp only [places, List.mem_flatMap, List.mem_map] at hplace
    obtain ⟨root, hroot, name, -, rfl⟩ := hplace
    exact ⟨root, hroot, name, rfl⟩

def foundIn (imp : Importer) (request root : String) : Option String :=
  ((candidates request).map fun name => normalize (joined root name)).find?
    (leadsToFile imp.host)

/-- The roots are searched one after the other. -/
theorem find?_eq_findSome? (imp : Importer) (request importing : String) :
    imp.find? request importing = (imp.roots importing).findSome? (imp.foundIn request) := by
  rw [find?, places, List.find?_flatMap]
  rfl

theorem isAbsolute_of_mem_roots (hbase : ∀ dir, imp.base = some dir → isAbsolute dir = true)
    (hinclude : ∀ dir ∈ imp.includePaths, isAbsolute dir = true) {root : String}
    (h : root ∈ imp.roots importing) : isAbsolute root = true := by
  unfold roots at h
  split at h
  · next hown =>
    have habsolute : isAbsolute importing = true := by
      simp only [isOwnPlace, Bool.and_eq_true] at hown
      exact hown.1.2
    rcases List.mem_cons.1 h with rfl | h
    · exact isAbsolute_dirName habsolute
    · exact hinclude root h
  · split at h
    · next dir hdir =>
      split at h
      · exact hinclude root h
      · rcases List.mem_cons.1 h with rfl | h
        · exact hbase root hdir
        · exact hinclude root h
    · exact hinclude root h

theorem path_of_answer {found : Option Imported} (h : imp.answer request importing = .ok found) :
    found.map Imported.path = imp.find? request importing := by
  unfold answer at h
  split at h
  · next hnone => rw [hnone, ← Except.ok.inj h]; rfl
  · next p hsome =>
    cases hread : imp.host.disk.readText imp.host.directory .utf8 p with
    | error e => simp [hread, Except.map] at h
    | ok text =>
      rw [hread] at h
      rw [hsome, ← Except.ok.inj h]
      rfl

end Importer

/-- The files that were handed out for imports. -/
def pathsOf (answers : List (Option Imported)) : List String :=
  answers.filterMap (·.map Imported.path)

section
variable {imp : Importer} {P : String → Prop}
  (hfind : ∀ request importing p, imp.find? request importing = some p → P p)
include hfind

theorem forall_found_converse (d : Dialogue) {imported : List (Option Imported)}
    {found : List String} (h : ∀ p ∈ found, P p) :
    ∀ p ∈ (converse imp imported found d).found, P p := by
  induction d generalizing imported found with
  | ask request importing next ih =>
    have hstep : ∀ p ∈ found ++ (imp.find? request importing).toList, P p := by
      refine List.forall_mem_append.2 ⟨h, fun p hp => hfind request importing p ?_⟩
      simpa using hp
    cases hanswer : imp.answer request importing with
    | error e => simpa only [converse, Importer.step, hanswer] using hstep
    | ok answer => simpa only [converse, Importer.step, hanswer] using ih answer hstep
  | answer css sourceMap => exact h
  | refuse text => exact h
  | breakDown message => exact h

end

theorem imported_converse (imp : Importer) (d : Dialogue) {imported : List (Option Imported)}
    {found : List String} (h : pathsOf imported = found) {ending : Ending}
    (hending : (converse imp imported found d).ending = .ok ending) :
    pathsOf (converse imp imported found d).imported = (converse imp imported found d).found := by
  induction d generalizing imported found with
  | ask request importing next ih =>
    cases hanswer : imp.answer request importing with
    | error e => simp [converse, Importer.step, hanswer] at hending
    | ok answer =>
      simp only [converse, Importer.step, hanswer] at hending ⊢
      refine ih answer ?_ hending
      rw [pathsOf, List.filterMap_append, ← pathsOf, h, ← Importer.path_of_answer hanswer]
      cases answer <;> rfl
  | answer css sourceMap => exact h
  | refuse text => exact h
  | breakDown message => exact h

/-! ## Compilations -/

namespace Toolchain
variable {t : Toolchain} {options : CompileOptions}

def exchange (t : Toolchain) (text : String) (options : CompileOptions) : Exchange :=
  converse (t.importer options) [] [] (t.engine text (t.arguments options))

theorem includedFiles_conclude {found : List String} {ending : Ending} {output : CompileOutput}
    (h : t.conclude options found ending = .ok output) : output.includedFiles = found := by
  cases ending with
  | css text sourceMap =>
    simp only [conclude, Toolchain.output] at h
    split at h
    · split at h
      · rw [← Except.ok.inj h]
      · simp at h
    · rw [← Except.ok.inj h]
  | refusal text =>
    simp only [conclude] at h
    split at h <;> simp at h
  | failure message => simp [conclude] at h

def call (t : Toolchain) (text : String) (options : CompileOptions) : Call :=
  ⟨text, t.arguments options, (t.exchange text options).imported⟩

theorem compile_of_unread {text : String} {e : FileFailure}
    (h : (t.exchange text options).ending = .error e) :
    t.compile text options = ⟨[], .error (.file e)⟩ := by
  have hread : Run.ofFile (t.exchange text options).ending = ⟨[], .error (.file e)⟩ := by
    rw [h]
    rfl
  show Run.ofFile (t.exchange text options).ending >>= _ = _
  rw [hread, Run.bind_of_error rfl]

theorem compile_of_ended {text : String} {ending : Ending}
    (h : (t.exchange text options).ending = .ok ending) :
    let concluded := t.conclude options (t.exchange text options).found ending
    (t.compile text options).outcome = concluded ∧
      ∃ more, (t.compile text options).events = .called (t.call text options) :: more ∧
        ∀ e ∈ more, ∃ record, e = .logged record false := by
  intro concluded
  have hread : Run.ofFile (t.exchange text options).ending = pure ending := by
    rw [h]
    rfl
  have hrun : t.compile text options = (Run.ofFile (t.exchange text options).ending >>=
      fun ending => Run.emit (.called (t.call text options)) >>= fun _ =>
        Run.ofExcept (t.conclude options (t.exchange text options).found ending) >>=
          fun output => Run.log .debug channel
              ("libsass produced " ++ Text.countText output.css.length ++ " bytes, "
                ++ Text.countText output.includedFiles.length ++ " imported files") >>=
            fun _ => pure output) := rfl
  rw [hrun, hread, Run.pure_bind, Run.bind_of_ok rfl]
  cases hconcluded : t.conclude options (t.exchange text options).found ending with
  | error fault =>
    rw [Run.bind_of_error rfl]
    exact ⟨hconcluded.symm, [], rfl, by simp⟩
  | ok output =>
    rw [Run.bind_of_ok rfl]
    exact ⟨hconcluded.symm, [.logged _ false], rfl, by simp⟩

/-! ## Directories -/

theorem isAbsolute_baseDirectory {host : Host} (hdirectory : isAbsolute host.directory = true)
    {sourcePath : Option String} {dir : String} (h : baseDirectory host sourcePath = some dir) :
    isAbsolute dir = true := by
  unfold baseDirectory at h
  split at h
  · split at h
    · simp at h
    · rw [← Option.some.inj h]
      exact isAbsolute_dirName (isAbsolute_absolute hdirectory _)
  · simp at h

/-- Directories that imports are searched in are absolute if those of the search path are. -/
theorem isAbsolute_of_mem_includePaths (hdirectory : isAbsolute t.host.directory = true)
    (hsearch : t.useSassPath = true → ∀ dir ∈ sassPathParts t.host.sassPath, isAbsolute dir = true)
    {dir : String} (h : dir ∈ t.includePaths options) : isAbsolute dir = true := by
  rw [includePaths, Text.mem_distinct, List.mem_append, List.mem_append, List.mem_cons,
    List.mem_map] at h
  rcases h with (hbase | rfl | ⟨p, -, rfl⟩) | hpart
  · exact isAbsolute_baseDirectory hdirectory (by simpa using hbase)
  · exact hdirectory
  · split
    · assumption
    · exact isAbsolute_joined hdirectory p
  · split at hpart
    · next huse => exact hsearch huse dir hpart
    · simp at hpart

/-- **Every import is told of by an absolute path.** If the current directory is absolute, and every
directory of a search path that is used, then whatever an engine asks for, each file that a
compilation tells of is told by an absolute path in normal form at which there is a file, and is
listed wherever dependencies are. None is missing: they are the files that the engine was given, in
that order. -/
theorem includedFiles_of_compile (t : Toolchain) (text : String) (options : CompileOptions)
    (output : CompileOutput) (hdirectory : isAbsolute t.host.directory = true)
    (hsearch : t.useSassPath = true → ∀ dir ∈ sassPathParts t.host.sassPath, isAbsolute dir = true)
    (h : (t.compile text options).outcome = .ok output) :
    (∀ p ∈ output.includedFiles,
      isAbsolute p = true ∧ normalize p = p ∧
        t.host.disk.test t.host.directory p Entry.isFile = .ok true ∧
        ∀ paths, p ∈ paths → p ∈ Command.dependencyPaths paths) ∧
      ∃ call more, (t.compile text options).events = .called call :: more ∧
        (∀ e ∈ more, ∃ record, e = .logged record false) ∧
        pathsOf call.imported = output.includedFiles := by
  obtain ⟨ending, hending⟩ : ∃ ending, (t.exchange text options).ending = .ok ending := by
    cases hx : (t.exchange text options).ending with
    | error e => simp [compile_of_unread hx] at h
    | ok ending => exact ⟨ending, rfl⟩
  obtain ⟨houtcome, more, hevents, hmore⟩ := compile_of_ended hending
  have hfound := includedFiles_conclude (houtcome.symm.trans h)
  constructor
  · rw [hfound]
    refine forall_found_converse (fun request importing p hp => ?_) _ (by simp)
    obtain ⟨hfile, root, hroot, name, rfl⟩ := Importer.find?_spec hp
    have habsolute : isAbsolute (normalize (joined root name)) = true := by
      rw [isAbsolute_normalize]
      exact isAbsolute_joined (Importer.isAbsolute_of_mem_roots
        (fun dir => isAbsolute_baseDirectory hdirectory)
        (fun dir => isAbsolute_of_mem_includePaths hdirectory hsearch) hroot) name
    exact ⟨habsolute, normalize_normalize _, hfile, fun paths hmem =>
      Command.mem_dependencyPaths_of_normal hmem habsolute (normalize_normalize _)⟩
  · refine ⟨t.call text options, more, hevents, hmore, ?_⟩
    rw [hfound]
    exact imported_converse (t.importer options) _ rfl hending

/-- A partial is found beside the source, and what it imports by an absolute directory of the search
path, behind an empty part of it. -/
theorem includedFiles_of_nested_import :
    let host : Host := {
      disk := ⟨[(["w"], .directory), (["w", "_a.scss"], .file ⟨#[]⟩), (["l"], .directory),
        (["l", "b.scss"], .file ⟨#[]⟩)]⟩
      directory := "/w", home := "/root", sassPath := some ":/l/../l" }
    let engine : Engine := fun _ _ =>
      .ask "a" "stdin" fun _ => .ask "b" "/w/_a.scss" fun _ => .answer ".x{}" ""
    let t : Toolchain := { host, engine, workDirectory := "/tmp/work" }
    let output : CompileOutput := {
      css := ".x{}", includedFiles := ["/w/_a.scss", "/l/b.scss"] }
    isAbsolute t.host.directory = true ∧
      (t.useSassPath = true →
        ∀ dir ∈ sassPathParts t.host.sassPath, isAbsolute dir = true) ∧
      (t.compile "@import 'a';" { sourcePath := some "site.scss" }).outcome = .ok output ∧
      Command.dependencyPaths ("themes/a.scss" :: output.includedFiles) = output.includedFiles ∧
      "/l/b.scss" ∈ Command.dependencyPaths ["b.scss", "/l/b.scss"] := by
  intro host engine t output
  have hdirectory : isAbsolute t.host.directory = true := by decide
  have hsearch : t.useSassPath = true →
      ∀ dir ∈ sassPathParts t.host.sassPath, isAbsolute dir = true := by
    intro _
    decide +kernel
  have houtcome : (t.compile "@import 'a';" { sourcePath := some "site.scss" }).outcome
      = .ok output := Run.outcome_eq_ok (by decide +kernel)
  obtain ⟨hfiles, -⟩ := includedFiles_of_compile t _ _ output hdirectory hsearch houtcome
  refine ⟨hdirectory, hsearch, houtcome, by decide +kernel, ?_⟩
  exact (hfiles "/l/b.scss" (by simp [output])).2.2.2 _ (by simp)

/-- The directories of the search path have to be absolute: what is found in a relative one is told by
a relative path, and is not listed as a dependency. -/
theorem includedFiles_of_relative_search :
    let host : Host := {
      disk := ⟨[(["w"], .directory), (["w", "lib"], .directory),
        (["w", "lib", "_a.scss"], .file ⟨#[]⟩)]⟩
      directory := "/w", home := "/root", sassPath := some "lib" }
    let engine : Engine := fun _ _ => .ask "a" "stdin" fun _ => .answer ".x{}" ""
    let t : Toolchain := { host, engine, workDirectory := "/tmp/work" }
    let output : CompileOutput := { css := ".x{}", includedFiles := ["lib/_a.scss"] }
    isAbsolute t.host.directory = true ∧
      (t.compile "@import 'a';" {}).outcome = .ok output ∧
      isAbsolute "lib/_a.scss" = false ∧
      Command.dependencyPaths output.includedFiles = [] := by
  intro host engine t output
  exact ⟨by decide, Run.outcome_eq_ok (by decide +kernel), by decide, by decide +kernel⟩

end Toolchain

end ThemedSheets.Sass
