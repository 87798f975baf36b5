import ThemedSheets.Compile.Input
import ThemedSheets.Proofs.Text.Split
/- Where a refused text is told to be wrong. The text for a scope is the lines before the source and
   then the lines of the source (`lines_build`), and as many lines are counted as stand before it, so
   that the counted lines are passed over and no other (`drop_lines_build`). Moving a failure back by
   that count therefore keeps the line it is about (`relocate_lines`). -/
namespace ThemedSheets
open ThemedSheets.Text

/-- The lines of a text: what stands between its line feeds. -/
def lines (text : String) : List (List Char) := split '\n' text.toList

theorem length_lines (text : String) : (lines text).length = ScopeInput.lineFeeds text + 1 :=
  length_split '\n' text.toList

theorem lines_append (before after : String) :
    lines (before ++ "\n" ++ after) = lines before ++ lines after := by
  rw [lines, String.toList_append, String.toList_append, List.append_assoc]
  exact split_append '\n' before.toList after.toList

namespace ScopeInput

section
variable {ε : Type} {load : ScopePath → Except ε String} {options : CompileOptions}
  {source : String} {scope : Scope} {input : ScopeInput}
  (h : buildFrom load options source scope = .ok input)
include h

theorem scope_build : input.scope = scope := by
  unfold buildFrom at h
  cases hload : load scope.path with
  | error e => simp [hload, Except.map] at h
  | ok overrides =>
    rw [hload] at h
    rw [← Except.ok.inj h]
    rfl

theorem lines_build :
    ∃ before, lines input.text = before ++ lines source ∧ before.length = input.leadingLines := by
  unfold buildFrom at h
  cases hload : load scope.path with
  | error e => simp [hload, Except.map] at h
  | ok overrides =>
    rw [hload] at h
    rw [← Except.ok.inj h]
    exact ⟨lines (leading overrides options.additionalData), lines_append _ source,
      length_lines _⟩

theorem drop_lines_build : (lines input.text).drop input.leadingLines = lines source := by
  obtain ⟨before, hlines, hlength⟩ := lines_build h
  rw [hlines, ← hlength, List.drop_left]

theorem getElem?_lines_build {n : Nat} (hn : input.leadingLines < n) :
    (lines source)[n - input.leadingLines - 1]? = (lines input.text)[n - 1]? := by
  rw [← drop_lines_build h, List.getElem?_drop]
  congr 1
  omega

end

/-- **Failures are moved to the line they are about.** Behind the counted lines the text for a scope
has the lines of the source and no others. A failure without a file on such a line is told of the
source, in the line whose text the compiler was at, and of the scope; a failure that names a file is
told of the scope and stays as it is. -/
theorem relocate_lines {ε : Type} (load : ScopePath → Except ε String) (options : CompileOptions)
    (source : String) (scope : Scope) (input : ScopeInput)
    (h : buildFrom load options source scope = .ok input) :
    (lines input.text).drop input.leadingLines = lines source ∧
      (∀ (e : CompileFailure) (n : Nat), e.file = none → e.line = some (n : Int) →
        input.leadingLines < n → n ≤ (lines input.text).length →
        let moved := n - input.leadingLines
        input.relocate options e = {
            message := e.message
            file := options.sourcePath
            line := some (moved : Int)
            column := e.column
            scope := some scope.name } ∧
          1 ≤ moved ∧
          ∃ line, (lines input.text)[n - 1]? = some line ∧
            (lines source)[moved - 1]? = some line) ∧
      ∀ (e : CompileFailure) (file : String), e.file = some file →
        input.relocate options e = { e with scope := some scope.name } := by
  refine ⟨drop_lines_build h, ?_, ?_⟩
  · intro e n hfile hline hn hlast moved
    have hmoved : (n : Int) - input.leadingLines = (moved : Int) := by omega
    have hfound : n - 1 < (lines input.text).length := by omega
    refine ⟨?_, by omega, (lines input.text)[n - 1], List.getElem?_eq_getElem hfound, ?_⟩
    · simp only [relocate, CompileFailure.forScope, hfile, hline, Int.ofNat_lt.2 hn, if_true,
        hmoved, scope_build h]
    · rw [getElem?_lines_build h hn]
      exact List.getElem?_eq_getElem hfound
  · intro e file hfile
    simp only [relocate, CompileFailure.forScope, hfile, scope_build h]

/-- Two variable files, of which the first ends its only line, and two lines of additional data stand
before the source. The failure is in the last line of the input, which is the third of the source. -/
theorem relocate_lines_of_two_files :
    let files : FileSystem := {
      hasFile := fun _ => .ok true
      readText := fun p => .ok (if p = "a.less" then "@x: 1 !default;\n" else "$y: 2;") }
    let options : CompileOptions := {
      additionalData := some "$z: 3;\n$w: 4;", sourcePath := some "site.scss" }
    let scope : Scope := ⟨"a", .many ["a.less", "", "b.scss"]⟩
    let source := ".x\x7b\n  top: $x;\n\x7d"
    let input : ScopeInput := {
      scope
      text := "$x: 1 ;\n\n$y: 2;\n$z: 3;\n$w: 4;\n.x\x7b\n  top: $x;\n\x7d"
      leadingLines := 5 }
    buildFrom (Overrides.load files) options source scope = .ok input ∧
      (lines input.text).drop 5 = [".x\x7b".toList, "  top: $x;".toList, "\x7d".toList] ∧
      input.relocate options { message := "no unit", line := some 8, column := some 3 } = {
        message := "no unit", file := some "site.scss", line := some 3, column := some 3,
        scope := some "a" } ∧
      input.relocate options { message := "no unit", file := some "_m.scss", line := some 8 } = {
        message := "no unit", file := some "_m.scss", line := some 8, scope := some "a" } := by
  intro files options scope source input
  have hinput : buildFrom (Overrides.load files) options source scope = .ok input := by
    show Except.ok (ofOverrides options source scope (String.ofList (join ['\n'] (List.map
      String.toList [Overrides.normalize (Overrides.isForeign "a.less") "@x: 1 !default;\n",
        Overrides.normalize (Overrides.isForeign "b.scss") "$y: 2;"])))) = .ok input
    exact congrArg Except.ok (by decide +kernel)
  obtain ⟨hdrop, hmoved, hkept⟩ := relocate_lines _ options source scope input hinput
  obtain ⟨hlast, -⟩ := hmoved { message := "no unit", line := some 8, column := some 3 } 8 rfl rfl
    (by decide) (by decide +kernel)
  refine ⟨hinput, hdrop.trans ?_, hlast, hkept _ "_m.scss" rfl⟩
  decide +kernel

end ScopeInput

end ThemedSheets
