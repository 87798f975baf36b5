import ThemedSheets.Proofs.Outcome
import ThemedSheets.Proofs.Text.Removal
import ThemedSheets.Scope.Basic
import ThemedSheets.Scope.Overrides
/- Marks that are left among overrides. The marks of a variable file are removed in one pass, and what
   stood around them comes together; where that was the pieces of a mark, the overrides hold one. They
   do in no other case, whichever dialect the file is in, and a second pass finds something in that case
   only (`normalize_marks`). Between files there is a line feed, over which no mark goes. -/
namespace ThemedSheets
open ThemedSheets.Text

namespace Overrides

/-- Whether a variable file has the pieces of a mark with whole marks between them. -/
def NestsMark (text : String) : Prop := Nests unsetMark text.toList

/-- A character as the dialect of the overrides writes it. -/
def native (foreign : Bool) (c : Char) : Char := if foreign ∧ c = '@' then '$' else c

theorem ite_replaceAll_eq (foreign : Bool) (text : List Char) :
    (if foreign then replaceAll ['@'] ['$'] text else text) = text.map (native foreign) := by
  cases foreign with
  | false => exact (List.map_id'' (fun c => by simp [native]) text).symm
  | true =>
    have hnative : native true = fun c => if c = '@' then '$' else c := by
      funext c
      simp [native]
    rw [hnative, ← replaceAll_singleton]
    rfl

theorem normalizeText_eq (foreign : Bool) (text : List Char) :
    normalizeText foreign text = remove unsetMark (text.map (native foreign)) := by
  rw [← ite_replaceAll_eq]
  rfl

theorem native_native (foreign : Bool) (c : Char) :
    native foreign (native foreign c) = native foreign c := by
  unfold native
  split <;> simp

theorem native_of_mem_unsetMark (foreign : Bool) : ∀ c ∈ unsetMark, native foreign c = c := by
  have hsign : '@' ∉ unsetMark := by decide
  refine fun c hc => if_neg ?_
  rintro ⟨-, rfl⟩
  exact hsign hc

theorem native_of_native_mem (foreign : Bool) (c : Char) (h : native foreign c ∈ unsetMark) :
    native foreign c = c := by
  have hsign : '$' ∉ unsetMark := by decide
  unfold native at h ⊢
  split at h
  · exact absurd h hsign
  · next hother => exact if_neg hother

theorem nests_map_native (foreign : Bool) (text : List Char) :
    Nests unsetMark (text.map (native foreign)) ↔ Nests unsetMark text :=
  nests_map_iff (native_of_mem_unsetMark foreign) (native_of_native_mem foreign) text

theorem map_native_normalizeText (foreign : Bool) (text : List Char) :
    (normalizeText foreign text).map (native foreign) = normalizeText foreign text := by
  refine (List.map_congr_left fun c hc => ?_).trans (List.map_id _)
  rw [normalizeText_eq, remove, replaceAll] at hc
  rcases mem_replaceFrom hc with hnone | hmem
  · exact absurd hnone List.not_mem_nil
  · obtain ⟨d, -, rfl⟩ := List.mem_map.1 hmem
    exact native_native foreign d

/-- Overrides hold a mark if and only if one is nested in the file. -/
theorem unsetMark_infix_normalize_iff (foreign : Bool) (text : String) :
    unsetMark <:+: (normalize foreign text).toList ↔ NestsMark text := by
  rw [normalize, String.toList_ofList, normalizeText_eq, NestsMark, ← nests_map_native foreign]
  exact mark_infix_remove_iff (by decide) _

theorem normalize_normalize_iff (foreign : Bool) (text : String) :
    normalize foreign (normalize foreign text) = normalize foreign text ↔ ¬ NestsMark text := by
  have hagain : normalizeText foreign (normalizeText foreign text.toList)
      = remove unsetMark (remove unsetMark (text.toList.map (native foreign))) := by
    rw [normalizeText_eq, map_native_normalizeText, normalizeText_eq]
  rw [normalize, normalize, String.toList_ofList, String.ofList_inj, hagain, normalizeText_eq,
    NestsMark, ← nests_map_native foreign]
  exact remove_remove_iff (by decide) _

/-! ## Several files -/

section
variable {files : FileSystem}

theorem unsetMark_infix_loadFile_iff {path overrides : String}
    (h : loadFile files path = .ok overrides) :
    unsetMark <:+: overrides.toList ↔
      ∃ text, files.readText path = .ok text ∧ NestsMark text := by
  obtain ⟨text, hread, rfl⟩ := Outcome.map_eq_ok.1 h
  rw [unsetMark_infix_normalize_iff, hread]
  simp

theorem unsetMark_infix_loadFiles_iff {paths texts : List String}
    (h : loadFiles files paths = .ok texts) :
    (∃ t ∈ texts.map String.toList, unsetMark <:+: t) ↔
      ∃ p ∈ paths, ∃ text, files.readText p = .ok text ∧ NestsMark text := by
  induction paths generalizing texts with
  | nil =>
    obtain rfl : [] = texts := Except.ok.inj h
    simp
  | cons path paths ih =>
    unfold loadFiles at h
    split at h
    · cases h
    · next overrides hload =>
      obtain ⟨rest, hrest, rfl⟩ := Outcome.map_eq_ok.1 h
      simp only [List.map_cons, List.mem_cons, exists_eq_or_imp,
        unsetMark_infix_loadFile_iff hload, ih hrest]

end

/-- **Marks are left among overrides exactly where they are nested.** The overrides of a file hold a
mark if and only if the file has the pieces of one with whole marks between them, and then only would a
second pass change them. So do the overrides of a scope if and only if one of its files does. -/
theorem normalize_marks (foreign : Bool) (text : String) (files : FileSystem) (scope : Scope) :
    (unsetMark <:+: (normalize foreign text).toList ↔ NestsMark text) ∧
    (normalize foreign (normalize foreign text) = normalize foreign text ↔ ¬ NestsMark text) ∧
    ∀ overrides, load files scope.path = .ok overrides →
      (unsetMark <:+: overrides.toList ↔
        ∃ p ∈ scope.paths, ∃ content, files.readText p = .ok content ∧ NestsMark content) := by
  refine ⟨unsetMark_infix_normalize_iff foreign text, normalize_normalize_iff foreign text,
    fun overrides h => ?_⟩
  obtain ⟨name, path⟩ := scope
  cases path with
  | one p =>
    by_cases hp : p = ""
    · rw [load, if_pos hp] at h
      obtain rfl := Except.ok.inj h
      have hpaths : (Scope.mk name (.one p)).paths = [] := if_pos hp
      have hnone : ¬ unsetMark <:+: "".toList := by decide
      simp only [hpaths, List.not_mem_nil, false_and, exists_false, hnone]
    · rw [load, if_neg hp] at h
      have hpaths : (Scope.mk name (.one p)).paths = [p] := if_neg hp
      simp only [hpaths, List.mem_singleton, exists_eq_left, unsetMark_infix_loadFile_iff h]
  | many ps =>
    obtain ⟨texts, htexts, rfl⟩ := Outcome.map_eq_ok.1 h
    rw [String.toList_ofList, infix_join_iff (by decide) (by decide)]
    exact unsetMark_infix_loadFiles_iff htexts

/-- Of two files the second nests a mark, with two marks between the pieces. -/
theorem normalize_marks_of_two_files :
    let nested := "@x: 1 !de!default!defaultfault;"
    let files : FileSystem := {
      hasFile := fun _ => .ok true
      readText := fun p => .ok (if p = "a.less" then nested else "$y: 2 !default;") }
    let scope : Scope := ⟨"a", .many ["b.scss", "a.less"]⟩
    load files scope.path = .ok "$y: 2 ;\n$x: 1 !default;" ∧
      (∃ p ∈ scope.paths, ∃ text, files.readText p = .ok text ∧ NestsMark text) ∧
      NestsMark nested ∧ normalize true (normalize true nested) ≠ normalize true nested := by
  intro nested files scope
  have hload : load files scope.path = .ok "$y: 2 ;\n$x: 1 !default;" := by
    show Except.ok (String.ofList (join ['\n'] (List.map String.toList
      [normalize (isForeign "b.scss") "$y: 2 !default;", normalize (isForeign "a.less") nested])))
        = Except.ok _
    exact congrArg Except.ok (by decide +kernel)
  have hleft : unsetMark <:+: "$y: 2 ;\n$x: 1 !default;".toList :=
    ⟨"$y: 2 ;\n$x: 1 ".toList, [';'], by decide +kernel⟩
  have hnested : NestsMark nested :=
    ⟨"@x: 1 ".toList, ["!de".toList, [], "fault".toList], [';'], by decide +kernel,
      by decide +kernel, by decide +kernel⟩
  obtain ⟨-, hagain, hscope⟩ := normalize_marks true nested files scope
  exact ⟨hload, (hscope _ hload).1 hleft, hnested, fun hsame => hagain.1 hsame hnested⟩

/-- A mark inside a mark: the overrides hold one, and a second pass changes them. -/
theorem normalize_keeps_nested_mark :
    normalize false "$a: 1 !def!defaultault;" = "$a: 1 !default;" ∧
      unsetMark <:+: "$a: 1 !default;".toList ∧
      normalize false "$a: 1 !default;" = "$a: 1 ;" :=
  ⟨by decide +kernel, ⟨"$a: 1 ".toList, [';'], by decide +kernel⟩, by decide +kernel⟩

end Overrides
end ThemedSheets
