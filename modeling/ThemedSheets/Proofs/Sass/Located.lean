import ThemedSheets.Proofs.Compile.Lines
import ThemedSheets.Proofs.Compile.Results
import ThemedSheets.Proofs.Sass.Mapped
/- Files that are named by their path. An importing file stands for itself, and a refusal at a place in
   a file is a failure in that file, unless the stem of the file is the one that stands for the source:
   then both take the file for the source. Nothing else of the path counts
   (`Toolchain.file_counts_unless_own_stem`). -/
namespace ThemedSheets.Sass
open ThemedSheets.Text ThemedSheets.Path ThemedSheets.Number

/-! ## Importing files -/

namespace Importer
variable (imp : Importer) {file : String} (hfile : isAbsolute file = true)
include hfile

theorem isOwnPlace_of_isAbsolute :
    isOwnPlace file = true ↔ (Path.ofString file).stem ≠ ownStem := by
  have hne : file ≠ "" := by
    rintro rfl
    cases hfile
  simp [isOwnPlace, hne, hfile]

theorem find?_of_stem_ne (hstem : (Path.ofString file).stem ≠ ownStem) (request : String) :
    imp.find? request file = (imp.foundIn request (dirName file)).or
      (imp.includePaths.findSome? (imp.foundIn request)) := by
  rw [find?_eq_findSome?, roots, if_pos ((isOwnPlace_of_isAbsolute hfile).2 hstem),
    List.findSome?_cons]
  cases imp.foundIn request (dirName file) <;> rfl

theorem find?_of_stem_eq (hstem : (Path.ofString file).stem = ownStem) (request : String) :
    imp.find? request file = imp.find? request ownStem := by
  have hown : isOwnPlace file = false :=
    Bool.eq_false_iff.2 fun h => (isOwnPlace_of_isAbsolute hfile).1 h hstem
  rw [find?_eq_findSome?, find?_eq_findSome?, imp.roots_own hown]

end Importer

/-! ## Refusals at a place -/

theorem readNumber_digitsOf {n : Nat} (h : (digitsOf 10 n).length ≤ maxDecimalDigits) :
    readNumber (digitsOf 10 n) = .ok (n : Int) := by
  rw [readNumber, readInt?_digitsOf h]

/-- A place as it is written with a line, a column and a file. -/
def placeOf (line column : Nat) (file : String) : WrittenPlace :=
  ⟨digitsOf 10 line, some (digitsOf 10 column), file.toList⟩

def messageOf (refusal : String) : String := String.ofList (refusalMessage (trim refusal.toList))

/-- The failure that a refusal tells of at a line and a column, in no file that is known. -/
def failureAt (refusal : String) (line column : Nat) : CompileFailure :=
  { message := messageOf refusal, line := some line, column := some column }

section
variable {refusal file : String} {line column : Nat}
  (hplace : (placeOf line column file).IsFirstIn refusal.toList)
  (hline : (digitsOf 10 line).length ≤ maxDecimalDigits)
  (hcolumn : (digitsOf 10 column).length ≤ maxDecimalDigits)
include hplace hline hcolumn

theorem failureOf_placeOf :
    failureOf refusal = .ok
      { failureAt refusal line column with file := namedFile? file.toList } := by
  have hread : place? (trim refusal.toList) = some (placeOf line column file) := by
    rw [place?_trim, place?_eq_some_iff.2 hplace]
  unfold failureOf
  simp only [hread, placeOf, readNumber_digitsOf hline, readNumber_digitsOf hcolumn]
  rfl

theorem failureOf_of_stem_ne (hstem : (Path.ofString file).stem ≠ ownStem) :
    failureOf refusal = .ok { failureAt refusal line column with file := some file } := by
  rw [failureOf_placeOf hplace hline hcolumn, namedFile?, String.ofList_toList, if_neg hstem]

theorem failureOf_of_stem_eq (hstem : (Path.ofString file).stem = ownStem) :
    failureOf refusal = .ok (failureAt refusal line column) := by
  rw [failureOf_placeOf hplace hline hcolumn, namedFile?, String.ofList_toList, if_pos hstem]
  rfl

end

theorem relocate_of_file (input : ScopeInput) (options : CompileOptions) (e : CompileFailure)
    (file : String) :
    input.relocate options { e with file := some file }
      = { e with file := some file, scope := some input.scope.name } := rfl

/-! ## Files and the source -/

namespace Toolchain

/-- **A file counts as itself unless its stem is the one that stands for the source.** Imports of a
file that is named by an absolute path are searched in its directory first, and then on the include
paths; a refusal whose first place is at a line and a column of it is a failure there, and a scope
whose text is refused so fails there, the line as it was. If the stem is the source's, then, wherever
the file is, its imports are searched as those of the source, and the failure is one of the combined
text, moved to where that line came from. -/
theorem file_counts_unless_own_stem (t : Toolchain) (options : CompileOptions) {file : String}
    (hfile : isAbsolute file = true) :
    let imp := t.importer options
    let isSource : Prop := (Path.ofString file).stem = ownStem
    (∀ request, imp.find? request file =
      if isSource then imp.find? request ownStem
      else (imp.foundIn request (dirName file)).or
        ((t.includePaths options).findSome? (imp.foundIn request))) ∧
    ∀ (refusal : String) (line column : Nat),
      (placeOf line column file).IsFirstIn refusal.toList →
      (digitsOf 10 line).length ≤ maxDecimalDigits →
      (digitsOf 10 column).length ≤ maxDecimalDigits →
      failureOf refusal = .ok { failureAt refusal line column with
        file := if isSource then none else some file } ∧
      ∀ (load : Loader) (source : String) (scope : Scope) (input : ScopeInput),
        ScopeInput.buildFrom load options source scope = .ok input →
        (t.exchange input.text options).ending = .ok (.refusal refusal) →
        (FanOut.task t.compile load options source scope).outcome = .error (.compile
          (if isSource then input.relocate options (failureAt refusal line column)
          else { failureAt refusal line column with
            file := some file, scope := some scope.name })) := by
  intro imp isSource
  by_cases hstem : (Path.ofString file).stem = ownStem
  · simp only [isSource, if_pos hstem]
    refine ⟨imp.find?_of_stem_eq hfile hstem, fun refusal line column hplace hline hcolumn => ?_⟩
    have hfailure := failureOf_of_stem_eq hplace hline hcolumn hstem
    exact ⟨hfailure, fun load source scope input hinput hending =>
      FanOut.outcome_task_of_refused hinput (compile_of_refusal hending hfailure) rfl⟩
  · simp only [isSource, if_neg hstem]
    refine ⟨imp.find?_of_stem_ne hfile hstem, fun refusal line column hplace hline hcolumn => ?_⟩
    have hfailure := failureOf_of_stem_ne hplace hline hcolumn hstem
    refine ⟨hfailure, fun load source scope input hinput hending => ?_⟩
    rw [FanOut.outcome_task_of_refused hinput (compile_of_refusal hending hfailure) rfl,
      relocate_of_file, ScopeInput.scope_build hinput]

def libHost : Host where
  disk := ⟨[(["w"], .directory), (["lib"], .directory), (["lib", "_b.scss"], .file ⟨#[]⟩)]⟩
  directory := "/w"
  home := "/root"

/-- A refusal at the fifth column of the third line of a file. -/
def refusalAt (file : String) : String :=
  "Error: Undefined variable.\n        on line 3:5 of " ++ file

/-- A toolchain whose engine refuses every text because of a file. -/
def refusing (file : String) : Toolchain :=
  { host := libHost, engine := fun _ _ => .refuse (refusalAt file), workDirectory := "/tmp/work" }

def noOverrides : Loader := fun _ => .ok ""

/-- The import of a file finds what is beside it, and the failure in the file is told as it is. -/
theorem file_counts_unless_own_stem_of_sheet :
    isAbsolute "/lib/a.scss" = true ∧
      ((refusing "/lib/a.scss").importer {}).find? "b" "/lib/a.scss" = some "/lib/_b.scss" ∧
      (placeOf 3 5 "/lib/a.scss").IsFirstIn (refusalAt "/lib/a.scss").toList ∧
      (digitsOf 10 3).length ≤ maxDecimalDigits ∧ (digitsOf 10 5).length ≤ maxDecimalDigits ∧
      ∃ input, ScopeInput.buildFrom noOverrides {} ".x" ⟨"dark", .one "d.scss"⟩ = .ok input ∧
        ((refusing "/lib/a.scss").exchange input.text {}).ending
          = .ok (.refusal (refusalAt "/lib/a.scss")) ∧
        (FanOut.task (refusing "/lib/a.scss").compile noOverrides {} ".x"
          ⟨"dark", .one "d.scss"⟩).outcome = .error (.compile {
            message := "Undefined variable.", line := some 3, column := some 5,
            file := some "/lib/a.scss", scope := some "dark" }) := by
  have hfile : isAbsolute "/lib/a.scss" = true := by decide
  have hstem : (Path.ofString "/lib/a.scss").stem ≠ ownStem := by decide +kernel
  have hplace : (placeOf 3 5 "/lib/a.scss").IsFirstIn (refusalAt "/lib/a.scss").toList :=
    place?_eq_some_iff.1 (by decide +kernel)
  have hline : (digitsOf 10 3).length ≤ maxDecimalDigits := by decide
  have hcolumn : (digitsOf 10 5).length ≤ maxDecimalDigits := by decide
  have hmessage : messageOf (refusalAt "/lib/a.scss") = "Undefined variable." := by decide +kernel
  have hbeside : ((refusing "/lib/a.scss").importer {}).foundIn "b" (dirName "/lib/a.scss")
      = some "/lib/_b.scss" := by decide +kernel
  obtain ⟨himport, hfailure⟩ := file_counts_unless_own_stem (refusing "/lib/a.scss") {} hfile
  obtain ⟨-, htask⟩ := hfailure _ 3 5 hplace hline hcolumn
  have hreported := htask noOverrides ".x" ⟨"dark", .one "d.scss"⟩ _ rfl rfl
  refine ⟨hfile, ?_, hplace, hline, hcolumn, _, rfl, rfl, ?_⟩
  · rw [himport, if_neg hstem, hbeside, Option.some_or]
  · rw [hreported, if_neg hstem, failureAt, hmessage]
    rfl

/-- A sheet with the stem of the source is mistaken for it, though it is not the file that the source
goes through: the sheet beside it is not found, and the failure in it is told as one in the source,
its line counted from there. -/
theorem file_of_own_stem_does_not_count :
    isAbsolute "/lib/stdin.scss" = true ∧
      "/lib/stdin.scss" ≠ (refusing "/lib/stdin.scss").entryFile {} ∧
      ((refusing "/lib/stdin.scss").importer {}).foundIn "b" (dirName "/lib/stdin.scss")
        = some "/lib/_b.scss" ∧
      ((refusing "/lib/stdin.scss").importer {}).find? "b" "/lib/stdin.scss" = none ∧
      (placeOf 3 5 "/lib/stdin.scss").IsFirstIn (refusalAt "/lib/stdin.scss").toList ∧
      failureOf (refusalAt "/lib/stdin.scss") = .ok {
        message := "Undefined variable.", line := some 3, column := some 5, file := none } ∧
      (FanOut.task (refusing "/lib/stdin.scss").compile noOverrides {} ".x"
        ⟨"dark", .one "d.scss"⟩).outcome = .error (.compile {
          message := "Undefined variable.", line := some 2, column := some 5, file := none,
          scope := some "dark" }) := by
  have hplace : (placeOf 3 5 "/lib/stdin.scss").IsFirstIn (refusalAt "/lib/stdin.scss").toList :=
    place?_eq_some_iff.1 (by decide +kernel)
  have hmessage : messageOf (refusalAt "/lib/stdin.scss") = "Undefined variable." := by
    decide +kernel
  have hfailure := failureOf_of_stem_eq hplace (by decide) (by decide) (by decide +kernel)
  rw [failureAt, hmessage] at hfailure
  refine ⟨by decide, by decide +kernel, by decide +kernel, by decide +kernel, hplace, hfailure, ?_⟩
  have hinput : ScopeInput.buildFrom noOverrides {} ".x" ⟨"dark", .one "d.scss"⟩
      = .ok ⟨⟨"dark", .one "d.scss"⟩, "\n.x", 1⟩ := rfl
  exact FanOut.outcome_task_of_refused hinput (compile_of_refusal rfl hfailure) rfl

end Toolchain

end ThemedSheets.Sass
