import ThemedSheets.Proofs.Compile.Lines
import ThemedSheets.Proofs.Outcome
import ThemedSheets.Proofs.Text.Replace
/- Where the lines of the overrides come from. Making declarations unconditional keeps the lines of a
   file (`lines_normalize`), and between files there is a line feed; so the overrides of a scope are
   the lines of its files one after another, and each has a file and a number in it (`origins`). A
   failure on such a line is told of the first file, under the number that the line has among all of
   them (`relocate_origins`), which is where it is from if and only if the first file holds it. -/
namespace ThemedSheets
open ThemedSheets.Text
variable {files : FileSystem}

namespace Overrides

/-! ## Lines of files -/

theorem lines_normalize (foreign : Bool) (text : String) :
    lines (normalize foreign text) = (lines text).map (normalizeText foreign) := by
  rw [lines, normalize, String.toList_ofList]
  cases foreign with
  | false => exact split_replaceAll (by decide) (by decide) (by decide) text.toList
  | true =>
    show split '\n' (replaceAll unsetMark [] (replaceAll ['@'] ['$'] text.toList)) = _
    rw [split_replaceAll (by decide) (by decide) (by decide),
      split_replaceAll (by decide) (by decide) (by decide), List.map_map]
    rfl

theorem lines_join {texts : List String} (hne : texts ≠ []) :
    lines (String.ofList (join ['\n'] (texts.map String.toList))) = texts.flatMap lines := by
  rw [lines, String.toList_ofList]
  induction texts with
  | nil => exact absurd rfl hne
  | cons text texts ih =>
    by_cases htexts : texts = []
    · subst htexts
      simp [lines, join]
    · have hmap : texts.map String.toList ≠ [] := fun h => htexts (List.map_eq_nil_iff.1 h)
      rw [List.map_cons, join_cons ['\n'] _ hmap, List.append_assoc, List.singleton_append,
        split_append, ih htexts]
      rfl

/-- The lines of a file, each by the file's path and its number there. -/
def originsOf (files : FileSystem) (path : String) : List (String × Nat) :=
  match files.readText path with
  | .ok text => (List.range (lines text).length).map fun i => (path, i + 1)
  | .error _ => []

/-- The lines of several files, one file after another. -/
def origins (files : FileSystem) (paths : List String) : List (String × Nat) :=
  paths.flatMap (originsOf files)

def lineAt? (files : FileSystem) (path : String) (number : Nat) : Option (List Char) :=
  match files.readText path with
  | .ok text => (lines text)[number - 1]?
  | .error _ => none

/-- A line of a file as it stands among the overrides. -/
def overriding? (files : FileSystem) (origin : String × Nat) : Option (List Char) :=
  (lineAt? files origin.1 origin.2).map (normalizeText (isForeign origin.1))

theorem overriding?_eq {path text : String} (h : files.readText path = .ok text) (i : Nat) :
    overriding? files (path, i + 1) = ((lines text)[i]?).map (normalizeText (isForeign path)) := by
  simp only [overriding?, lineAt?, h, Nat.add_sub_cancel]

theorem map_overriding?_originsOf {path text : String} (h : files.readText path = .ok text) :
    (originsOf files path).map (overriding? files)
      = (lines (normalize (isForeign path) text)).map some := by
  rw [lines_normalize, originsOf, h]
  apply List.ext_getElem
  · simp
  · intro i hi hi'
    have hline : i < (lines text).length := by simpa using hi
    simp only [List.getElem_map, List.getElem_range, overriding?_eq h,
      List.getElem?_eq_getElem hline, Option.map_some]

theorem map_overriding?_origins {paths texts : List String}
    (h : loadFiles files paths = .ok texts) :
    (origins files paths).map (overriding? files) = (texts.flatMap lines).map some := by
  induction paths generalizing texts with
  | nil =>
    obtain rfl : [] = texts := Except.ok.inj h
    rfl
  | cons path paths ih =>
    unfold loadFiles loadFile at h
    cases hread : files.readText path with
    | error e =>
      rw [hread] at h
      cases h
    | ok text =>
      rw [hread] at h
      obtain ⟨rest, hrest, rfl⟩ := Outcome.map_eq_ok.1 h
      simp only [origins, List.flatMap_cons, List.map_append]
      rw [map_overriding?_originsOf hread]
      exact congrArg _ (ih hrest)

theorem lines_load {scope : Scope} {overrides : String} (hne : scope.paths ≠ [])
    (h : load files scope.path = .ok overrides) :
    (origins files scope.paths).map (overriding? files) = (lines overrides).map some := by
  obtain ⟨name, path⟩ := scope
  cases path with
  | one p =>
    by_cases hp : p = ""
    · exact absurd (by simp [Scope.paths, hp]) hne
    · rw [load, if_neg hp, loadFile] at h
      obtain ⟨text, hread, rfl⟩ := Outcome.map_eq_ok.1 h
      have hpaths : (Scope.mk name (.one p)).paths = [p] := by simp [Scope.paths, hp]
      rw [hpaths, origins, List.flatMap_singleton]
      exact map_overriding?_originsOf hread
  | many ps =>
    obtain ⟨texts, htexts, rfl⟩ := Outcome.map_eq_ok.1 h
    have hsome : texts ≠ [] := by
      rintro rfl
      -- no texts are loaded only where there are no paths
      refine hne ?_
      show ps.filter (· ≠ "") = []
      cases hps : ps.filter (· ≠ "") with
      | nil => rfl
      | cons p rest =>
        rw [hps, loadFiles] at htexts
        split at htexts
        · cases htexts
        · obtain ⟨rest, -, hcons⟩ := Outcome.map_eq_ok.1 htexts
          cases hcons
    rw [lines_join hsome]
    exact map_overriding?_origins htexts

/-! ## Where an origin stands -/

theorem getElem?_originsOf {path path' : String} {k m : Nat}
    (h : (originsOf files path)[k]? = some (path', m)) : path' = path ∧ m = k + 1 := by
  unfold originsOf at h
  split at h
  · rw [List.getElem?_map] at h
    obtain ⟨i, hi, horigin⟩ := Option.map_eq_some_iff.1 h
    obtain ⟨hk, rfl⟩ := List.getElem?_eq_some_iff.1 hi
    rw [List.getElem_range] at horigin
    exact ⟨(Prod.mk.inj horigin).1.symm, (Prod.mk.inj horigin).2.symm⟩
  · cases h

theorem le_length_of_mem_origins {paths : List String} {path : String} {m : Nat}
    (h : (path, m) ∈ origins files paths) : m ≤ (originsOf files path).length := by
  obtain ⟨p, -, hmem⟩ := List.mem_flatMap.1 h
  obtain ⟨i, hi⟩ := List.mem_iff_getElem?.1 hmem
  obtain ⟨rfl, rfl⟩ := getElem?_originsOf hi
  exact (List.getElem?_eq_some_iff.1 hi).1

/-- The number of a line among all is its number in the first file, if and only if it is of that
file's lines. -/
theorem first_iff {first path : String} {rest : List String} {k m : Nat}
    (h : (origins files (first :: rest))[k]? = some (path, m)) :
    first = path ∧ k + 1 = m ↔ k < (originsOf files first).length := by
  constructor
  · rintro ⟨rfl, rfl⟩
    exact le_length_of_mem_origins (List.mem_of_getElem? h)
  · intro hk
    rw [origins, List.flatMap_cons, List.getElem?_append_left hk] at h
    obtain ⟨rfl, rfl⟩ := getElem?_originsOf h
    exact ⟨rfl, rfl⟩

end Overrides

namespace ScopeInput
open Overrides

theorem exists_overrides {options : CompileOptions} {source : String} {scope : Scope}
    {input : ScopeInput} (h : buildFrom (load files) options source scope = .ok input) :
    ∃ overrides more, load files scope.path = .ok overrides ∧
      lines input.text = lines overrides ++ more ∧
      (lines overrides).length ≤ input.leadingLines := by
  obtain ⟨overrides, hload, rfl⟩ := Outcome.map_eq_ok.1 h
  have hleading : ∃ more, lines (leading overrides options.additionalData)
      = lines overrides ++ more := by
    unfold leading
    split
    · split
      · exact ⟨[], (List.append_nil _).symm⟩
      · exact ⟨_, lines_append _ _⟩
    · exact ⟨[], (List.append_nil _).symm⟩
  obtain ⟨more, hmore⟩ := hleading
  refine ⟨overrides, more ++ lines source, hload, ?_, ?_⟩
  · rw [ofOverrides, lines_append, hmore, List.append_assoc]
  · have hlength := congrArg List.length hmore
    rw [List.length_append, length_lines] at hlength
    show (lines overrides).length ≤ lineFeeds (leading overrides options.additionalData) + 1
    omega

/-- **Failures in overrides are told of the first file.** Every line of the overrides is a line of one
of the scope's files, made unconditional. A failure without a file on such a line is told of the first
file, under the number that the line has in the text for the scope; this is the file and the number
that the line is from if and only if it is a line of the first file. -/
theorem relocate_origins (files : FileSystem) (options : CompileOptions) (source : String)
    (scope : Scope) (input : ScopeInput) (first : String) (rest : List String)
    (hpaths : scope.paths = first :: rest)
    (h : buildFrom (load files) options source scope = .ok input) :
    ∀ (k : Nat) (path : String) (m : Nat), (origins files scope.paths)[k]? = some (path, m) →
      (∃ line, lineAt? files path m = some line ∧
        (lines input.text)[k]? = some (normalizeText (isForeign path) line)) ∧
      ∀ e : CompileFailure, e.file = none → e.line = some ((k : Int) + 1) →
        let moved := input.relocate options e
        moved = { e with file := some first, scope := some scope.name } ∧
          (moved.file = some path ∧ moved.line = some (m : Int) ↔
            k < (originsOf files first).length) := by
  intro k path m horigin
  obtain ⟨overrides, more, hload, hlines, hcounted⟩ := exists_overrides h
  have hne : scope.paths ≠ [] := by simp [hpaths]
  have hall := lines_load hne hload
  have hk : k < (lines overrides).length := by
    have hlength := congrArg List.length hall
    rw [List.length_map, List.length_map] at hlength
    rw [← hlength]
    exact (List.getElem?_eq_some_iff.1 horigin).1
  refine ⟨?_, ?_⟩
  · have hat := congrArg (·[k]?) hall
    simp only [List.getElem?_map, horigin, Option.map_some, List.getElem?_eq_getElem hk,
      Option.some.injEq] at hat
    obtain ⟨line, hline, hnormal⟩ := Option.map_eq_some_iff.1 hat
    refine ⟨line, hline, ?_⟩
    rw [hlines, List.getElem?_append_left hk, List.getElem?_eq_getElem hk]
    exact congrArg some hnormal.symm
  · intro e hfile hline moved
    have hbefore : ¬ (input.leadingLines : Int) < (k : Int) + 1 := by omega
    have hmoved : moved = { e with file := some first, scope := some scope.name } := by
      simp only [moved, relocate, CompileFailure.forScope, hfile, hline, if_neg hbefore,
        scope_build h, hpaths, List.head?_cons]
    refine ⟨hmoved, ?_⟩
    rw [hpaths] at horigin
    rw [← first_iff horigin, hmoved]
    simp only [hline, Option.some.injEq]
    refine and_congr_right fun _ => ?_
    omega

/-- Two lines of a first file, the second of them empty, and one line of a second file. The second
line of the text is told where it is from; the third is told as a third line of the first file. -/
theorem relocate_origins_of_two_files :
    let files : FileSystem := {
      hasFile := fun _ => .ok true
      readText := fun p => .ok (if p = "a.less" then "@x: 1 !default;\n" else "@y: 2;") }
    let scope : Scope := ⟨"a", .many ["a.less", "", "b.scss"]⟩
    let input : ScopeInput := { scope, text := "$x: 1 ;\n\n@y: 2;\n.x", leadingLines := 3 }
    let options : CompileOptions := { sourcePath := some "site.scss" }
    scope.paths = ["a.less", "b.scss"] ∧ buildFrom (load files) options ".x" scope = .ok input ∧
      (origins files scope.paths)[1]? = some ("a.less", 2) ∧
      input.relocate options { message := "no unit", line := some 2 } = {
        message := "no unit", file := some "a.less", line := some 2, scope := some "a" } ∧
      (origins files scope.paths)[2]? = some ("b.scss", 1) ∧
      input.relocate options { message := "no unit", line := some 3 } = {
        message := "no unit", file := some "a.less", line := some 3, scope := some "a" } := by
  intro files scope input options
  have hinput : buildFrom (load files) options ".x" scope = .ok input := by
    show Except.ok (ofOverrides options ".x" scope (String.ofList (join ['\n'] (List.map
      String.toList [normalize (isForeign "a.less") "@x: 1 !default;\n",
        normalize (isForeign "b.scss") "@y: 2;"])))) = .ok input
    exact congrArg Except.ok (by decide +kernel)
  have hsecond : (origins files scope.paths)[1]? = some ("a.less", 2) := by decide +kernel
  have hthird : (origins files scope.paths)[2]? = some ("b.scss", 1) := by decide +kernel
  have hpaths : scope.paths = ["a.less", "b.scss"] := by decide
  have htold := relocate_origins files options ".x" scope input "a.less" ["b.scss"] hpaths hinput
  exact ⟨hpaths, hinput, hsecond, ((htold 1 "a.less" 2 hsecond).2 _ rfl rfl).1, hthird,
    ((htold 2 "b.scss" 1 hthird).2 _ rfl rfl).1⟩

/-- A failure on the only line of a second file is told of the first file, in a line that it does not
have. -/
theorem relocate_blames_first_file :
    let files : FileSystem := {
      hasFile := fun _ => .ok true
      readText := fun p => .ok (if p = "a.scss" then "$a: 1;" else "$b: 2px") }
    let scope : Scope := ⟨"s", .many ["a.scss", "b.scss"]⟩
    let input : ScopeInput := { scope, text := "$a: 1;\n$b: 2px\n.x", leadingLines := 2 }
    buildFrom (load files) {} ".x" scope = .ok input ∧
      (lines input.text)[1]? = some "$b: 2px".toList ∧
      lineAt? files "b.scss" 1 = some "$b: 2px".toList ∧
      input.relocate {} { message := "expected ;", line := some 2 } = {
        message := "expected ;", file := some "a.scss", line := some 2, scope := some "s" } ∧
      lineAt? files "a.scss" 2 = none := by
  intro files scope input
  have hinput : buildFrom (load files) {} ".x" scope = .ok input := by
    show Except.ok (ofOverrides {} ".x" scope (String.ofList (join ['\n'] (List.map
      String.toList [normalize (isForeign "a.scss") "$a: 1;",
        normalize (isForeign "b.scss") "$b: 2px"])))) = .ok input
    exact congrArg Except.ok (by decide +kernel)
  exact ⟨hinput, by decide +kernel, by decide +kernel, rfl, by decide +kernel⟩

end ScopeInput
end ThemedSheets
