import ThemedSheets.Proofs.Compile.Origins
import ThemedSheets.Proofs.Scope.Marks
/- Overrides as one text. Making declarations unconditional works line by line (`normalizeText_join`),
   so it can be done to each of several files or to the text that they make together. The overrides of a
   scope with files of one dialect are therefore those of one text, the contents of its files with a line
   feed between neighbours, and the lines that stand before a source can be counted in the files
   (`normalize_by_lines`). -/
namespace ThemedSheets
open ThemedSheets.Text

namespace Overrides

/-- Texts one after another, a line feed between neighbours. -/
def joined (texts : List String) : String := String.ofList (join ['\n'] (texts.map String.toList))

/-- Overrides whose dialect is changed last, when the marks are removed already. -/
def normalizeMarksFirst (foreign : Bool) (text : String) : String :=
  let unmarked := replaceAll unsetMark [] text.toList
  String.ofList (if foreign then replaceAll ['@'] ['$'] unmarked else unmarked)

/-! ## Line by line -/

theorem normalizeText_join (foreign : Bool) (ps : List (List Char)) :
    normalizeText foreign (join ['\n'] ps) = join ['\n'] (ps.map (normalizeText foreign)) := by
  cases foreign with
  | false => exact replaceAll_join (by decide) (by decide)
  | true =>
    show replaceAll unsetMark [] (replaceAll ['@'] ['$'] (join ['\n'] ps)) = _
    rw [replaceAll_join (by decide) (by decide), replaceAll_join (by decide) (by decide),
      List.map_map]
    rfl

theorem normalize_joined (foreign : Bool) (texts : List String) :
    normalize foreign (joined texts) = joined (texts.map (normalize foreign)) := by
  rw [normalize, joined, String.toList_ofList, normalizeText_join, joined, List.map_map,
    List.map_map]
  simp only [Function.comp_def, normalize, String.toList_ofList]

theorem joined_lines (text : String) : joined ((lines text).map String.ofList) = text := by
  have hlines : ((lines text).map String.ofList).map String.toList = lines text := by
    rw [List.map_map]
    exact List.map_id'' (fun _ => String.toList_ofList) _
  rw [joined, hlines, lines, join_split, String.ofList_toList]

theorem lineFeeds_normalize (foreign : Bool) (text : String) :
    ScopeInput.lineFeeds (normalize foreign text) = ScopeInput.lineFeeds text := by
  have hlength := congrArg List.length (lines_normalize foreign text)
  rw [List.length_map, length_lines, length_lines] at hlength
  exact Nat.succ.inj hlength

/-- The dialects write marks alike, so it does not matter when the dialect is changed. -/
theorem normalizeMarksFirst_eq (foreign : Bool) (text : String) :
    normalizeMarksFirst foreign text = normalize foreign text := by
  refine congrArg String.ofList ?_
  calc (if foreign then replaceAll ['@'] ['$'] (remove unsetMark text.toList)
        else remove unsetMark text.toList)
      = (remove unsetMark text.toList).map (native foreign) := ite_replaceAll_eq foreign _
    _ = remove unsetMark (text.toList.map (native foreign)) :=
        map_remove (native_of_mem_unsetMark foreign) (native_of_native_mem foreign) _
    _ = normalizeText foreign text.toList := (normalizeText_eq foreign _).symm

/-! ## Files of one dialect -/

section
variable {files : FileSystem} {foreign : Bool} {content : String → String}

theorem loadFile_of_content {path : String}
    (h : files.readText path = .ok (content path) ∧ isForeign path = foreign) :
    loadFile files path = .ok (normalize foreign (content path)) := by
  rw [loadFile, h.1, h.2]
  rfl

theorem loadFiles_of_content {paths : List String}
    (h : ∀ p ∈ paths, files.readText p = .ok (content p) ∧ isForeign p = foreign) :
    loadFiles files paths = .ok (paths.map fun p => normalize foreign (content p)) := by
  induction paths with
  | nil => rfl
  | cons p paths ih =>
    rw [List.forall_mem_cons] at h
    rw [loadFiles, loadFile_of_content h.1, ih h.2]
    rfl

theorem load_of_content {scope : Scope}
    (h : ∀ p ∈ scope.paths, files.readText p = .ok (content p) ∧ isForeign p = foreign) :
    load files scope.path = .ok (normalize foreign (joined (scope.paths.map content))) := by
  obtain ⟨name, path⟩ := scope
  cases path with
  | one p =>
    by_cases hp : p = ""
    · have hpaths : (Scope.mk name (.one p)).paths = [] := if_pos hp
      rw [load, if_pos hp, hpaths, normalize_joined]
      rfl
    · have hpaths : (Scope.mk name (.one p)).paths = [p] := if_neg hp
      rw [hpaths] at h ⊢
      have hjoined : joined [normalize foreign (content p)] = normalize foreign (content p) :=
        String.ofList_toList
      rw [load, if_neg hp, loadFile_of_content (h p List.mem_cons_self), normalize_joined]
      exact congrArg Except.ok hjoined.symm
  | many ps =>
    have hloaded : loadFiles files (ps.filter (· ≠ ""))
        = .ok ((ps.filter (· ≠ "")).map fun p => normalize foreign (content p)) :=
      loadFiles_of_content h
    rw [load, hloaded, normalize_joined, List.map_map]
    rfl

end

/-! ## What stands before the source -/

/-- The line feeds that additional data bring: one between the overrides and them, and their own. -/
def addedLineFeeds (additional : Option String) : Nat :=
  match additional with
  | some data => if data = "" then 0 else ScopeInput.lineFeeds data + 1
  | none => 0

theorem lineFeeds_leading (overrides : String) (additional : Option String) :
    ScopeInput.lineFeeds (ScopeInput.leading overrides additional)
      = ScopeInput.lineFeeds overrides + addedLineFeeds additional := by
  cases additional with
  | none => rfl
  | some data =>
    by_cases hdata : data = ""
    · simp only [ScopeInput.leading, addedLineFeeds, if_pos hdata, Nat.add_zero]
    · have hlength := congrArg List.length (lines_append overrides data)
      rw [List.length_append, length_lines, length_lines, length_lines] at hlength
      simp only [ScopeInput.leading, addedLineFeeds, if_neg hdata]
      omega

/-- **Overrides are made line by line, and of files as of their joined text.** A text is made
unconditional by doing so to each of its lines, which are as many afterwards, and its dialect may be
changed before that or after. So the overrides of a scope whose files can be read and are of one
dialect are those of their contents joined, and what is counted before the source are the line feeds of
the contents joined, those of additional data, and one more. -/
theorem normalize_by_lines (foreign : Bool) :
    (∀ text : String,
      normalize foreign text
        = joined ((lines text).map fun line => normalize foreign (String.ofList line)) ∧
      (lines (normalize foreign text)).length = (lines text).length ∧
      normalizeMarksFirst foreign text = normalize foreign text) ∧
    ∀ (files : FileSystem) (scope : Scope) (content : String → String),
      (∀ p ∈ scope.paths, files.readText p = .ok (content p) ∧ isForeign p = foreign) →
      let contents := joined (scope.paths.map content)
      load files scope.path = .ok (normalize foreign contents) ∧
      ∀ (options : CompileOptions) (source : String),
        ScopeInput.build files options source scope = .ok {
          scope
          text := ScopeInput.leading (normalize foreign contents) options.additionalData
            ++ "\n" ++ source
          leadingLines := ScopeInput.lineFeeds contents
            + addedLineFeeds options.additionalData + 1 } := by
  refine ⟨fun text => ⟨?_, ?_, normalizeMarksFirst_eq foreign text⟩,
    fun files scope content h => ?_⟩
  · have hjoin := normalize_joined foreign ((lines text).map String.ofList)
    rwa [joined_lines, List.map_map] at hjoin
  · rw [length_lines, length_lines, lineFeeds_normalize]
  · intro contents
    have hload := load_of_content h
    refine ⟨hload, fun options source => ?_⟩
    rw [ScopeInput.build, ScopeInput.buildFrom, hload]
    show Except.ok (ScopeInput.ofOverrides options source scope (normalize foreign contents)) = _
    rw [ScopeInput.ofOverrides, lineFeeds_leading, lineFeeds_normalize]

/-- Two files of the other dialect, with the pieces of a mark at the end of the first and at the start of
the second: they stay apart. -/
theorem normalize_by_lines_of_cut_mark :
    let content : String → String := fun p =>
      if p = "a.less" then "@x: 1 !def" else "ault;\n@y: 2 !default;"
    let files : FileSystem := {
      hasFile := fun _ => .ok true
      readText := fun p => .ok (content p) }
    let scope : Scope := ⟨"a", .many ["a.less", "", "b.LESS"]⟩
    let options : CompileOptions := { additionalData := some "$z: 3;" }
    (∀ p ∈ scope.paths, files.readText p = .ok (content p) ∧ isForeign p = true) ∧
      load files scope.path = .ok "$x: 1 !def\nault;\n$y: 2 ;" ∧
      ScopeInput.build files options ".x" scope = .ok {
        scope
        text := "$x: 1 !def\nault;\n$y: 2 ;\n$z: 3;\n.x"
        leadingLines := 4 } := by
  intro content files scope options
  have hpaths : scope.paths = ["a.less", "b.LESS"] := by decide
  have hfiles : ∀ p ∈ scope.paths, files.readText p = .ok (content p) ∧ isForeign p = true := by
    have hforeign : ∀ p ∈ ["a.less", "b.LESS"], isForeign p = true := by decide +kernel
    intro p hp
    exact ⟨rfl, hforeign p (hpaths ▸ hp)⟩
  obtain ⟨-, hjoined⟩ := normalize_by_lines true
  obtain ⟨hload, hbuild⟩ := hjoined files scope content hfiles
  have hcontents : joined (scope.paths.map content) = "@x: 1 !def\nault;\n@y: 2 !default;" := by
    decide +kernel
  have hoverrides : normalize true "@x: 1 !def\nault;\n@y: 2 !default;"
      = "$x: 1 !def\nault;\n$y: 2 ;" := by decide +kernel
  rw [hcontents, hoverrides] at hload
  have hinput := hbuild options ".x"
  rw [hcontents, hoverrides] at hinput
  refine ⟨hfiles, hload, hinput.trans ?_⟩
  exact congrArg Except.ok (by decide +kernel)

end Overrides
end ThemedSheets
