import ThemedSheets.Proofs.Disk
import ThemedSheets.Proofs.Path.Normal
import ThemedSheets.Proofs.Sass.Imports
import ThemedSheets.Proofs.Sass.Refusal
import ThemedSheets.Proofs.SourceMap.Anchor
/- Compiling with a source map and without one. For a map the source goes through a file, else it is
   handed over as a text; an engine that goes by the text, its syntax and the answers to its imports
   (`Engine.IsUniform`) only has another name for the source then. Neither name is the place of a
   file that imports, so both dialogues are answered alike (`converse_script`), and a refusal that
   tells of a place tells of the same failure under both. So the two ways of compiling differ in the
   map (`compile_with_and_without_map`). -/
namespace ThemedSheets.Sass
open ThemedSheets.Path ThemedSheets.Number

/-! ## Engines that do not look at how the source reaches them -/

/-- The name that an engine has for the source. -/
def Entry.name : Entry → String
  | .text _ => ownStem
  | .file path _ => path

/-- Whether an engine takes the source for the indented syntax: it goes by the suffix of a file. -/
def Entry.indented : Entry → Bool
  | .text indented => indented
  | .file path _ => (Path.ofString path).suffix == ".sass"

/-- What an engine ends with. A map is that of a file, and its sources are texts; a refusal may call
the source by its name. -/
inductive Verdict where
  | answer (css : String) (sourceMap : Entry → String)
      (h : ∀ path place, SourceMap.HasTextSources (sourceMap (.file path place)))
  | refuse (text : String)
  | refuseAt (refusal : PlacedRefusal)
  | breakDown (message : String)

def Verdict.ending (entry : Entry) : Verdict → Ending
  | .answer css sourceMap _ => .css css (sourceMap entry)
  | .refuse text => .refusal text
  | .refuseAt refusal => .refusal (String.ofList (refusal.text entry.name.toList))
  | .breakDown message => .failure message

def Verdict.dialogue (entry : Entry) : Verdict → Dialogue
  | .answer css sourceMap _ => .answer css (sourceMap entry)
  | .refuse text => .refuse text
  | .refuseAt refusal => .refuse (String.ofList (refusal.text entry.name.toList))
  | .breakDown message => .breakDown message

/-- What an engine does whatever the name of the source is. It asks on behalf of a file, or of the
source. -/
inductive Script where
  | ask (request : String) (importing : Option String) (next : Option Imported → Script)
  | stop (verdict : Verdict)

def Script.dialogue (entry : Entry) : Script → Dialogue
  | .ask request importing next =>
    .ask request (importing.getD entry.name) fun answer => (next answer).dialogue entry
  | .stop verdict => verdict.dialogue entry

/-- An engine that goes by the text, the options, the syntax and the answers only. -/
def Engine.IsUniform (engine : Engine) : Prop :=
  ∃ script : String → OutputStyle → List String → Option Int → Bool → Script,
    ∀ text style includePaths precision entry,
      engine text ⟨style, includePaths, precision, entry⟩
        = (script text style includePaths precision entry.indented).dialogue entry

theorem converse_verdict (imp : Importer) (imported : List (Option Imported))
    (found : List String) (entry : Entry) (verdict : Verdict) :
    converse imp imported found (verdict.dialogue entry)
      = ⟨imported, found, .ok (verdict.ending entry)⟩ := by
  cases verdict <;> rfl

theorem Importer.isOwnPlace_ownStem : isOwnPlace ownStem = false := by decide

/-- An importer does not tell names of the source apart that are no places of their own. -/
theorem Importer.roots_own (imp : Importer) {name : String} (h : isOwnPlace name = false) :
    imp.roots name = imp.roots ownStem := by
  rw [roots, roots, h, isOwnPlace_ownStem, if_neg Bool.false_ne_true, if_neg Bool.false_ne_true]

theorem Importer.step_own (imp : Importer) {name : String} (h : isOwnPlace name = false)
    (found : List String) (request : String) :
    imp.step found request name = imp.step found request ownStem := by
  simp only [step, answer, find?, places, imp.roots_own h]

/-- **The name of the source does not show in the answers.** Under all names that are no places of
their own an engine gets the same answers, and comes to the same end. -/
theorem converse_script (imp : Importer) (script : Script) (imported : List (Option Imported))
    (found : List String) :
    ∃ imported' found' stop, ∀ entry : Entry, Importer.isOwnPlace entry.name = false →
      converse imp imported found (script.dialogue entry)
        = ⟨imported', found', Except.map (Verdict.ending entry) stop⟩ := by
  induction script generalizing imported found with
  | ask request importing next ih =>
    have hstep : ∀ entry : Entry, Importer.isOwnPlace entry.name = false →
        imp.step found request (importing.getD entry.name)
          = imp.step found request (importing.getD ownStem) := by
      intro entry hentry
      cases importing with
      | none => exact imp.step_own hentry found request
      | some file => rfl
    cases hreal : imp.step found request (importing.getD ownStem) with
    | mk found' result =>
      cases result with
      | error e =>
        refine ⟨imported, found', .error e, fun entry hentry => ?_⟩
        simp only [Script.dialogue, converse, hstep entry hentry, hreal]
        rfl
      | ok answer =>
        obtain ⟨imported', found'', stop, hall⟩ := ih answer (imported ++ [answer]) found'
        refine ⟨imported', found'', stop, fun entry hentry => ?_⟩
        simp only [Script.dialogue, converse, hstep entry hentry, hreal]
        exact hall entry hentry
  | stop verdict =>
    exact ⟨imported, found, .ok verdict, fun entry _ => converse_verdict imp _ _ entry verdict⟩

/-! ## Engines that come to an end -/

/-- A dialogue in which no refusal tells of an overlong number, and the engine does not break down. -/
def Dialogue.IsOrderly : Dialogue → Prop
  | .ask _ _ next => ∀ answer, (next answer).IsOrderly
  | .answer _ _ => True
  | .refuse text => HasShortNumbers text.toList
  | .breakDown _ => False

def Ending.IsOrderly : Ending → Prop
  | .css _ _ => True
  | .refusal text => HasShortNumbers text.toList
  | .failure _ => False

/-- Files that can be read wherever imports find them. -/
def IsReadable (host : Host) : Prop :=
  ∀ path, Importer.leadsToFile host path = true →
    ∃ text, host.disk.readText host.directory .utf8 path = .ok text

theorem isReadable_of_decodable {host : Host}
    (h : ∀ location content, (location, .file content) ∈ host.disk.entries →
      (Text.Encoding.utf8.decode? content).isSome = true) : IsReadable host := by
  intro path hpath
  refine Disk.exists_readText h ?_
  unfold Importer.leadsToFile at hpath
  split at hpath
  · next found htest => rw [htest, hpath]
  · simp at hpath

theorem Importer.exists_answer {imp : Importer} (h : IsReadable imp.host)
    (request importing : String) : ∃ found, imp.answer request importing = .ok found := by
  unfold answer
  split
  · exact ⟨none, rfl⟩
  · next path hfind =>
    obtain ⟨text, htext⟩ := h path (List.find?_some hfind)
    exact ⟨some ⟨path, text⟩, by rw [htext]; rfl⟩

theorem exists_ending_converse {imp : Importer} (hfiles : IsReadable imp.host) {d : Dialogue}
    (h : d.IsOrderly) (imported : List (Option Imported)) (found : List String) :
    ∃ ending, (converse imp imported found d).ending = .ok ending ∧ ending.IsOrderly := by
  induction d generalizing imported found with
  | ask request importing next ih =>
    obtain ⟨answer, hanswer⟩ := Importer.exists_answer hfiles request importing
    simp only [converse, Importer.step, hanswer]
    exact ih answer (h answer) _ _
  | answer css sourceMap => exact ⟨.css css sourceMap, rfl, trivial⟩
  | refuse text => exact ⟨.refusal text, rfl, h⟩
  | breakDown message => exact h.elim

namespace Toolchain
variable {t : Toolchain} {options : CompileOptions}

theorem output_without_map (hmap : options.sourceMap = false) (found : List String)
    (css sourceMap : String) :
    t.output options found css sourceMap = .ok { css, includedFiles := found } := by
  simp [output, hmap]

theorem output_with_map (t : Toolchain) (hmap : options.sourceMap = true) (found : List String)
    (css : String) {sourceMap : String} (h : SourceMap.HasTextSources sourceMap) :
    ∃ map, t.output options found css sourceMap
      = .ok { css, sourceMap := some map, includedFiles := found } := by
  obtain ⟨map, hanchor⟩ := SourceMap.anchor_of_hasTextSources h t.workDirectory
    (t.entryFile options) (SourceMap.entryName t.host.directory options.sourcePath)
  exact ⟨map, by simp [output, hmap, hanchor]⟩

theorem compile_of_refusal {text refusal : String}
    (h : (t.exchange text options).ending = .ok (.refusal refusal)) {e : CompileFailure}
    (he : failureOf refusal = .ok e) : (t.compile text options).outcome = .error (.compile e) := by
  rw [(compile_of_ended h).1, conclude, he]

theorem compile_of_orderly {text : String} (hfiles : IsReadable t.host)
    (hmap : options.sourceMap = false) (h : (t.engine text (t.arguments options)).IsOrderly) :
    (∃ output, (t.compile text options).outcome = .ok output) ∨
      ∃ e, (t.compile text options).outcome = .error (.compile e) := by
  have himporter : IsReadable (t.importer options).host := hfiles
  obtain ⟨ending, hending, horderly⟩ := exists_ending_converse himporter h [] []
  cases ending with
  | css text sourceMap =>
    exact Or.inl ⟨_, (compile_of_ended hending).1.trans (output_without_map hmap _ text sourceMap)⟩
  | refusal text =>
    obtain ⟨e, he⟩ := failureOf_of_short horderly
    exact Or.inr ⟨e, compile_of_refusal hending he⟩
  | failure message => exact horderly.elim

/-! ## The names of the source -/

theorem unended_of_all {name : List Char} (h : name.all (!endsName ·) = true) :
    ∀ c ∈ name, endsName c = false := by
  simpa using h

theorem isOwnName_ownStem : IsOwnName ownStem.toList :=
  ⟨by decide, unended_of_all (by decide), by decide +kernel⟩

theorem isComponent_ownFile (indented : Bool) :
    IsComponent (ownStem ++ if indented then ".sass" else ".scss").toList := by
  unfold IsComponent
  cases indented <;> decide

theorem name_entryFile (t : Toolchain) (options : CompileOptions) :
    (Path.ofString (t.entryFile options)).name
      = ownStem ++ if options.usesIndentedSyntax then ".sass" else ".scss" :=
  name_joined (isComponent_ownFile _) _

theorem stem_entryFile (t : Toolchain) (options : CompileOptions) :
    (Path.ofString (t.entryFile options)).stem = ownStem := by
  rw [Path.stem, Path.cutName, t.name_entryFile options]
  split <;> decide +kernel

theorem suffix_entryFile (t : Toolchain) (options : CompileOptions) :
    (Path.ofString (t.entryFile options)).suffix
      = if options.usesIndentedSyntax then ".sass" else ".scss" := by
  rw [Path.suffix, Path.cutName, t.name_entryFile options]
  split <;> decide +kernel

theorem indented_entry (t : Toolchain) (options : CompileOptions) :
    (t.entry options).indented = options.usesIndentedSyntax := by
  unfold entry
  split
  · rw [Entry.indented, t.suffix_entryFile options]
    cases options.usesIndentedSyntax <;> decide
  · rfl

/-- The path of the entry file is read as one name, if that of the work directory has no blank and no
comma in it. -/
theorem isOwnName_entryFile (hwork : ∀ c ∈ t.workDirectory.toList, endsName c = false)
    (options : CompileOptions) : IsOwnName (t.entryFile options).toList := by
  refine ⟨?_, ?_, ?_⟩
  · rw [entryFile, joined, String.toList_ofList]
    rcases joinText_component (isComponent_ownFile options.usesIndentedSyntax)
      t.workDirectory.toList with hjoin | ⟨before, hjoin⟩
    · rw [hjoin]
      exact (isComponent_ownFile _).1
    · rw [hjoin]
      exact List.append_ne_nil_of_right_ne_nil _ (List.cons_ne_nil _ _)
  · have hfile : ∀ c ∈ (ownStem ++ if options.usesIndentedSyntax then ".sass" else ".scss").toList,
        endsName c = false := by
      cases options.usesIndentedSyntax <;> exact unended_of_all (by decide)
    intro c hc
    rw [entryFile, joined, String.toList_ofList] at hc
    rcases mem_joinText hc with hc | rfl | hc
    · exact hwork c hc
    · decide
    · exact hfile c hc
  · rw [String.ofList_toList]
    exact t.stem_entryFile options

theorem isOwnName_entry (hwork : ∀ c ∈ t.workDirectory.toList, endsName c = false)
    (options : CompileOptions) : IsOwnName (t.entry options).name.toList := by
  unfold entry
  split
  · exact isOwnName_entryFile hwork options
  · exact isOwnName_ownStem

theorem isOwnPlace_entry (t : Toolchain) (options : CompileOptions) :
    Importer.isOwnPlace (t.entry options).name = false := by
  unfold entry
  split
  · rw [Entry.name, Importer.isOwnPlace, t.stem_entryFile options]
    simp
  · exact Importer.isOwnPlace_ownStem

/-! ## The two ways of compiling -/

/-- Outcomes of compiling a text without a map and with one that are alike but for the map. -/
inductive DiffersInMap : Except Fault CompileOutput → Except Fault CompileOutput → Prop where
  | compiled (output : CompileOutput) (map : String) (h : output.sourceMap = none) :
    DiffersInMap (.ok output) (.ok { output with sourceMap := some map })
  | failed (fault : Fault) : DiffersInMap (.error fault) (.error fault)

theorem DiffersInMap.of_ok {plain mapped : Except Fault CompileOutput}
    (h : DiffersInMap plain mapped) {output : CompileOutput} (hplain : plain = .ok output) :
    output.sourceMap = none ∧ ∃ map, mapped = .ok { output with sourceMap := some map } := by
  cases h with
  | compiled output' map hnone =>
    obtain rfl : output' = output := Except.ok.inj hplain
    exact ⟨hnone, map, rfl⟩
  | failed fault => cases hplain

theorem DiffersInMap.of_error {plain mapped : Except Fault CompileOutput}
    (h : DiffersInMap plain mapped) {fault : Fault} (hplain : plain = .error fault) :
    mapped = .error fault := by
  cases h with
  | compiled output map hnone => cases hplain
  | failed fault' => exact hplain

theorem conclude_verdict {plain mapped : CompileOptions} (hplain : plain.sourceMap = false)
    (hmapped : mapped.sourceMap = true)
    (hwork : ∀ c ∈ t.workDirectory.toList, endsName c = false) (found : List String)
    (verdict : Verdict) :
    DiffersInMap (t.conclude plain found (verdict.ending (t.entry plain)))
      (t.conclude mapped found (verdict.ending (t.entry mapped))) := by
  cases verdict with
  | answer css sourceMap h =>
    have hentry : t.entry mapped
        = .file (t.entryFile mapped) (joined t.workDirectory "style.css.map") := by
      rw [entry, hmapped, if_pos rfl]
    have htext : SourceMap.HasTextSources (sourceMap (t.entry mapped)) := hentry ▸ h _ _
    obtain ⟨map, hmap⟩ := t.output_with_map hmapped found css htext
    simp only [Verdict.ending, conclude, output_without_map hplain, hmap]
    exact .compiled { css, includedFiles := found } map rfl
  | refuse text =>
    simp only [Verdict.ending, conclude]
    cases failureOf text <;> exact .failed _
  | refuseAt refusal =>
    have hsame := refusal.failureOf_text (isOwnName_entry hwork plain) (isOwnName_entry hwork mapped)
    simp only [Verdict.ending, conclude, hsame]
    cases failureOf (String.ofList (refusal.text (t.entry mapped).name.toList)) <;>
      exact .failed _
  | breakDown message => exact .failed _

/-- With a map or without one, the dialogue goes the same way and comes to the same verdict. -/
theorem exists_stop (hengine : t.engine.IsUniform) (text : String) (options : CompileOptions) :
    ∃ imported found stop, ∀ sourceMap : Bool,
      t.exchange text { options with sourceMap }
        = ⟨imported, found,
            Except.map (Verdict.ending (t.entry { options with sourceMap })) stop⟩ := by
  obtain ⟨script, hscript⟩ := hengine
  obtain ⟨imported, found, stop, hall⟩ := converse_script (t.importer options)
    (script text options.outputStyle (t.includePaths options) options.precision
      options.usesIndentedSyntax) [] []
  refine ⟨imported, found, stop, fun sourceMap => ?_⟩
  have hdialogue : t.engine text (t.arguments { options with sourceMap })
      = (script text options.outputStyle (t.includePaths options) options.precision
          options.usesIndentedSyntax).dialogue (t.entry { options with sourceMap }) := by
    rw [arguments, hscript, indented_entry]
    rfl
  rw [exchange, hdialogue]
  exact hall _ (t.isOwnPlace_entry _)

/-- **Compiling with a source map agrees with compiling without one.** Let an engine go by the text,
the options, the syntax and the answers to its imports, and let the path of the work directory have
no blank and no comma in it. Then both ways of compiling a text end alike: with the same CSS and the
same files in the same order, or with the same fault, and the one has a map and the other has none.
If every file that imports find can be read, and the engine neither breaks down nor tells of overlong
numbers, a fault is a refusal of the text. -/
theorem compile_with_and_without_map (t : Toolchain) (text : String) (options : CompileOptions)
    (hengine : t.engine.IsUniform) (hwork : ∀ c ∈ t.workDirectory.toList, endsName c = false) :
    let plain := { options with sourceMap := false }
    let mapped := { options with sourceMap := true }
    DiffersInMap (t.compile text plain).outcome (t.compile text mapped).outcome ∧
      (IsReadable t.host → (t.engine text (t.arguments plain)).IsOrderly →
        (∃ output, (t.compile text plain).outcome = .ok output) ∨
          ∃ e, (t.compile text plain).outcome = .error (.compile e)) := by
  intro plain mapped
  refine ⟨?_, fun hfiles horderly => compile_of_orderly hfiles rfl horderly⟩
  obtain ⟨imported, found, stop, hall⟩ := exists_stop hengine text options
  have hplain : t.exchange text plain = _ := hall false
  have hmapped : t.exchange text mapped = _ := hall true
  cases stop with
  | error e =>
    rw [compile_of_unread (congrArg Exchange.ending hplain),
      compile_of_unread (congrArg Exchange.ending hmapped)]
    exact .failed _
  | ok verdict =>
    obtain ⟨houtcome, -⟩ := compile_of_ended (congrArg Exchange.ending hplain)
    obtain ⟨houtcome', -⟩ := compile_of_ended (congrArg Exchange.ending hmapped)
    rw [houtcome, houtcome', hplain, hmapped]
    exact conclude_verdict rfl rfl hwork found verdict

def undefinedVariable : PlacedRefusal where
  message := "Error: Undefined variable.".toList
  indent := "        ".toList
  line := ['2']
  column := some ['5']
  file := none
  rest name := '\n' :: '>' :: '>' :: ' ' :: name
  message_shown := ⟨'E', by decide, by decide⟩
  line_digits := ⟨by decide, List.forall_mem_singleton.2 (by decide)⟩
  column_digits ds hds := by
    obtain rfl : ['5'] = ds := Option.some.inj hds
    exact ⟨by decide, List.forall_mem_singleton.2 (by decide)⟩
  file_unended := by simp
  rest_ended := by
    intro name c hc
    obtain rfl : '\n' = c := Option.some.inj hc
    decide

def ownMap : String := "\x7b\"sources\": [\"stdin.scss\"]\x7d"

theorem hasTextSources_ownMap : SourceMap.HasTextSources ownMap := by
  refine ⟨[("sources", .array [.str "stdin.scss"])], ["stdin.scss"], ?_, rfl⟩
  simp only [ownMap, SourceMap.readValue, Json.read, String.reduceToList]
  rfl

/-- What an engine does that compiles one import and refuses all else. -/
def importOnly (text : String) : Script :=
  if text = "@import 'a';" then
    .ask "a" none fun _ =>
      .stop (.answer ".x\x7b\x7d" (fun _ => ownMap) fun _ _ => hasTextSources_ownMap)
  else .stop (.refuseAt undefinedVariable)

/-- An import is found both ways, and an undefined variable is refused in the same words and at the
same place both ways. -/
theorem compile_with_and_without_map_of_import :
    let host : Host := {
      disk := ⟨[(["w"], .directory), (["w", "_a.scss"], .file ⟨#[]⟩)]⟩
      directory := "/w", home := "/root" }
    let engine : Engine := fun text arguments => (importOnly text).dialogue arguments.entry
    let t : Toolchain := { host, engine, workDirectory := "/tmp/work" }
    let plain : CompileOptions := { sourcePath := some "themes/site.sass" }
    let mapped : CompileOptions := { plain with sourceMap := true }
    t.engine.IsUniform ∧ (∀ c ∈ t.workDirectory.toList, endsName c = false) ∧ IsReadable t.host ∧
      (t.engine "@import 'a';" (t.arguments plain)).IsOrderly ∧
      (∃ map, (t.compile "@import 'a';" mapped).outcome = .ok {
        css := ".x\x7b\x7d", sourceMap := some map, includedFiles := ["/w/_a.scss"] }) ∧
      (t.compile "a" mapped).outcome = .error (.compile {
        message := "Undefined variable.", line := some 2, column := some 5 }) := by
  intro host engine t plain mapped
  have hengine : t.engine.IsUniform :=
    ⟨fun text _ _ _ _ => importOnly text, fun _ _ _ _ _ => rfl⟩
  have hwork : ∀ c ∈ t.workDirectory.toList, endsName c = false :=
    unended_of_all (by decide)
  have hfiles : IsReadable t.host := by
    refine isReadable_of_decodable fun location content hmem => ?_
    obtain ⟨-, rfl⟩ : location = ["w", "_a.scss"] ∧ content = ⟨#[]⟩ := by
      simpa [t, host] using hmem
    decide +kernel
  have horderly : (t.engine "@import 'a';" (t.arguments plain)).IsOrderly := fun _ => trivial
  have hfound : (t.compile "@import 'a';" plain).outcome
      = .ok { css := ".x\x7b\x7d", includedFiles := ["/w/_a.scss"] } :=
    Run.outcome_eq_ok (by decide +kernel)
  have hfailure : (Run.ofExcept (failureOf (String.ofList
      (undefinedVariable.text ownStem.toList)))).outcome
        = .ok { message := "Undefined variable.", line := some 2, column := some 5 } :=
    Run.outcome_eq_ok (by decide +kernel)
  have hending : (t.exchange "a" plain).ending
      = .ok (.refusal (String.ofList (undefinedVariable.text ownStem.toList))) := by
    have hscript : importOnly "a" = .stop (.refuseAt undefinedVariable) := if_neg (by decide)
    show (converse _ [] [] ((importOnly "a").dialogue (t.entry plain))).ending = _
    rw [hscript]
    rfl
  obtain ⟨hmap, -⟩ := compile_with_and_without_map t "@import 'a';" plain hengine hwork
  obtain ⟨hmap', -⟩ := compile_with_and_without_map t "a" plain hengine hwork
  exact ⟨hengine, hwork, hfiles, horderly, (hmap.of_ok hfound).2,
    hmap'.of_error (compile_of_refusal hending hfailure)⟩

end Toolchain

end ThemedSheets.Sass
