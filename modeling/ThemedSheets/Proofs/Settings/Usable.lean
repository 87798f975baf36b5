import ThemedSheets.Proofs.Request.Faults
import ThemedSheets.Proofs.Settings.Loading
/- Settings that are read can be used. Whatever values a document has for them, the settings that are
   made of it hold an output style that there is, a positive number of workers if any, and paths that
   are absolute and stay as they are when they are taken from the root again (`load_isUsable`). A
   request made with such settings is not refused for its output style or its number of workers. -/
namespace ThemedSheets
open ThemedSheets.Yaml

def Workshop.ofSettings (s : Settings) (compiler : Compiler) (files : FileSystem) : Workshop where
  compiler := compiler
  files := files
  options := s.optionsFor none
  verify := s.verify
  maxWorkers := s.maxWorkers

/-- The fault, or what the fault of a request comes from, is that there is no such output style or that
no worker may be started. -/
def Fault.BlamesSettings : Fault → Prop
  | .unknownStyle _ => True
  | .workerCount => True
  | .because fault _ => BlamesSettings fault
  | _ => False

/-- A request for which there are workers blames the settings only as its compiler does. -/
theorem Workshop.not_blamesSettings {w : Workshop} {fault : Fault}
    (hcompiler : ∀ text options fault, (w.compiler text options).outcome = .error fault →
      ¬ fault.BlamesSettings) (h : w.CanEndIn fault) : ¬ fault.BlamesSettings := by
  induction h with
  | check hcheck =>
    rcases hcheck with ⟨f, rfl⟩ | rfl
    · exact id
    · exact id
  | compiler hfault => exact hcompiler _ _ _ hfault
  | refusal e => exact id
  | refusals failures => exact id
  | because _ failures ih => exact ih
  | mismatch m => exact id

namespace Settings
variable {host : Host} {root : Path}

/-- What makes settings usable on a host. That the output style is one of those that there are is part
of what options are. -/
structure IsUsable (host : Host) (s : Settings) : Prop where
  isRooted : s.root.isRooted
  style : ∀ p, (s.optionsFor p).outputStyle ∈ OutputStyle.all
  workers : ∀ n, s.maxWorkers = some n → 1 ≤ n
  includePaths : ∀ p ∈ s.options.includePaths, IsPlaced host s.root p
  scopePaths : ∀ entries, s.scopes = some entries →
    ∀ entry ∈ entries, ∀ v ∈ entry.path.values, HoldsPlaced host s.root v

/-- The output style that a document asks for, if there is one of this name: expanded where it names
none. -/
def askedStyle? (document : List (Value × Value)) : Option OutputStyle :=
  match textOf (field (compilerEntries document) "output_style") with
  | some (some name) => OutputStyle.ofName? name
  | some none => some .expanded
  | none => none

theorem mem_all (style : OutputStyle) : style ∈ OutputStyle.all := by
  cases style <;> decide

theorem one_le_of_readWorkers {v : Value} {n : Int} (h : readWorkers v = .ok (some n)) : 1 ≤ n := by
  unfold readWorkers at h
  split at h
  · split at h
    · cases h
    · next hpos =>
      obtain rfl := Option.some.inj (Except.ok.inj h)
      exact Int.not_lt.1 hpos
  · cases Except.ok.inj h

theorem askedStyle?_of_compilerSection {document : List (Value × Value)} {o : CompileOptions}
    (h : compilerSection host root (field document "compiler") = .ok o) :
    askedStyle? document = some o.outputStyle ∧
      ∃ texts, placePaths host root texts = .ok o.includePaths := by
  rw [compilerSection_eq] at h
  obtain ⟨name, hname, h⟩ := Outcome.bind_eq_ok.1 h
  obtain ⟨style, hstyle, h⟩ := Outcome.bind_eq_ok.1 h
  obtain ⟨texts, -, h⟩ := Outcome.bind_eq_ok.1 h
  obtain ⟨paths, hpaths, h⟩ := Outcome.bind_eq_ok.1 h
  obtain ⟨data, -, h⟩ := Outcome.bind_eq_ok.1 h
  obtain rfl := Except.ok.inj h
  refine ⟨?_, texts, hpaths⟩
  show askedStyle? document = some style
  have hasked : textOf (field (compilerEntries document) "output_style") = some name := by
    unfold readText at hname
    split at hname
    · next hsome => exact hsome.trans (congrArg some (Except.ok.inj hname))
    · cases hname
  unfold askedStyle?
  rw [hasked]
  unfold readStyle at hstyle
  split at hstyle
  · exact congrArg some (Except.ok.inj hstyle)
  · split at hstyle
    · next hsome => exact hsome.trans (congrArg some (Except.ok.inj hstyle))
    · cases hstyle

theorem isUsable_default (hrooted : root.isRooted) : IsUsable host { root } where
  isRooted := hrooted
  style _ := mem_all _
  workers := by simp
  includePaths := by simp
  scopePaths := by simp

/-- The settings that a value holds are usable, and their output style is the one that is asked for. -/
theorem isUsable_ofValue (hroot : root.IsTidy) (hrooted : root.isRooted) {v : Value} {s : Settings}
    (h : ofValue host root v = .ok s) :
    IsUsable host s ∧ s.root = root ∧
      ∀ document, v.shape = .mapping document → askedStyle? document = some s.options.outputStyle := by
  unfold ofValue at h
  split at h
  · next hnull =>
    obtain rfl := Except.ok.inj h
    refine ⟨isUsable_default hrooted, rfl, fun document hdocument => ?_⟩
    cases hnull.symm.trans hdocument
  · next document hdocument =>
    obtain ⟨scopes, hscopes, h⟩ := Outcome.bind_eq_ok.1 h
    obtain ⟨options, hoptions, h⟩ := Outcome.bind_eq_ok.1 h
    obtain ⟨workers, hworkers, h⟩ := Outcome.bind_eq_ok.1 h
    obtain rfl := Except.ok.inj h
    obtain ⟨hstyle, texts, hpaths⟩ := askedStyle?_of_compilerSection hoptions
    refine ⟨⟨hrooted, fun _ => mem_all _, ?_, isPlaced_placePaths hroot hrooted hpaths, ?_⟩, rfl,
      fun document' hdocument' => ?_⟩
    · rintro n rfl
      exact one_le_of_readWorkers hworkers
    · rintro entries rfl
      exact holdsPlaced_scopesSection hroot hrooted hscopes
    · obtain rfl := Shape.mapping.inj (hdocument.symm.trans hdocument')
      exact hstyle
  · cases h

/-- **Settings that load can be used.** Whatever the file that a path means holds, and whatever reads
documents, settings that are loaded from it are usable: any number of workers is positive, and every
path to search for imports and every path of a scope is absolute and does not change when it is placed
again. The same is true of what is made of any value, from a tidy root, and the output style of the
options is then the one that the value asks for, which is to say that there is one of that name. A
request made with usable settings fails neither for its output style nor for its number of workers,
unless the compiler itself fails for such a reason. -/
theorem load_isUsable (host : Host) :
    (∀ reader path s, load reader host path = .ok s → IsUsable host s) ∧
      (∀ root v s, root.IsTidy → root.isRooted → ofValue host root v = .ok s →
        IsUsable host s ∧ s.root = root ∧ ∀ document, v.shape = .mapping document →
          askedStyle? document = some s.options.outputStyle) ∧
      ∀ s, IsUsable host s → ∀ compiler files source entries sourcePath fault,
        (∀ text options fault, (compiler text options).outcome = .error fault →
          ¬ fault.BlamesSettings) →
        ((Workshop.ofSettings s compiler files).compileScoped source entries sourcePath).outcome
          = .error fault → ¬ fault.BlamesSettings := by
  refine ⟨?_, ?_, ?_⟩
  · intro reader path s h
    obtain ⟨root, v, hroot, hrooted, hvalue⟩ := exists_ofValue_of_load h
    exact (isUsable_ofValue hroot hrooted hvalue).1
  · intro root v s hroot hrooted h
    exact isUsable_ofValue hroot hrooted h
  · intro s hs compiler files source entries sourcePath fault hcompiler h
    have hworkers : ∀ n, (Workshop.ofSettings s compiler files).maxWorkers = some n → 0 ≤ n :=
      fun n hn => Int.le_trans (by decide) (hs.workers n hn)
    exact Workshop.not_blamesSettings hcompiler (Workshop.canEndIn_of_compileScoped hworkers h)

def firstPath? (s : Settings) : Option String :=
  match s.scopes with
  | some (⟨_, .one v⟩ :: _) => (match v.shape with | .str text => some text | _ => none)
  | _ => none

theorem scopes_of_firstPath? {s : Settings} {text : String} (h : firstPath? s = some text) :
    ∃ name v rest, s.scopes = some (⟨name, .one v⟩ :: rest) ∧ v.shape = .str text := by
  unfold firstPath? at h
  split at h
  · next name v rest hscopes =>
    split at h
    · next hv => exact ⟨name, v, rest, hscopes, Option.some.inj h ▸ hv⟩
    · cases h
  · cases h

/-- A document whose number of workers is a quoted text and whose only scope has no name, but a path in
the home directory. The compiler breaks down. -/
theorem load_isUsable_of_quoted_workers :
    let host : Host := {
      disk := ⟨[([".scopedsass.yml"],
        .file "scopes: [path: ~/a]\nmax_workers: '2'".toByteArray)]⟩
      directory := "/", home := "/h" }
    let compiler : Compiler := fun _ _ => Run.fail (.breakdown .value "no memory")
    ∃ s, load Yaml.read host "/" = .ok s ∧ s.maxWorkers = some 2 ∧
      (∃ entries, s.scopes = some entries ∧ ∃ entry ∈ entries, ∃ v ∈ entry.path.values,
        v.shape = .str "/h/a" ∧ IsPlaced host s.root "/h/a") ∧
      ∃ fault, ((Workshop.ofSettings s compiler (host.files .utf8)).compileScoped ".x" s.scopes
        none).outcome = .error fault ∧ ¬ fault.BlamesSettings := by
  intro host compiler
  let run (s : Settings) :=
    (Workshop.ofSettings s compiler (host.files .utf8)).compileScoped ".x" s.scopes none
  obtain ⟨s, hload, hchecks⟩ := Outcome.exists_of_any (x := load Yaml.read host "/") (p := fun s =>
    s.maxWorkers == some 2 && firstPath? s == some "/h/a"
      && (Outcome.fault? (run s).outcome).isSome) (by decide +kernel)
  simp only [Bool.and_eq_true, beq_iff_eq] at hchecks
  obtain ⟨⟨hworkers, hpath⟩, hfails⟩ := hchecks
  obtain ⟨fault, hfails⟩ := Option.isSome_iff_exists.1 hfails
  have hfault : (run s).outcome = .error fault := Outcome.eq_error hfails
  obtain ⟨husable, -, hrequest⟩ := load_isUsable host
  have hs := husable Yaml.read "/" s hload
  refine ⟨s, hload, hworkers, ?_, fault, hfault, hrequest s hs compiler _ _ _ _ _ ?_ hfault⟩
  · obtain ⟨name, v, rest, hscopes, hv⟩ := scopes_of_firstPath? hpath
    have hplaced : HoldsPlaced host s.root v :=
      hs.scopePaths _ hscopes _ List.mem_cons_self v List.mem_cons_self
    exact ⟨_, hscopes, _, List.mem_cons_self, v, List.mem_cons_self, hv,
      hplaced _ hv (by decide)⟩
  · intro text options fault hfault
    obtain rfl := Except.error.inj hfault
    exact id

end Settings

end ThemedSheets
