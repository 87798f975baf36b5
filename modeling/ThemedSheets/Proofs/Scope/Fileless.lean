import ThemedSheets.Command.ScopeArgument
import ThemedSheets.Proofs.Scope.Reports
import ThemedSheets.Proofs.Text.Ends
import ThemedSheets.Proofs.Text.Split
import ThemedSheets.Request
/- Scopes without files. An entry that has nothing for a path, or the empty text, is told of and gives
   no scope. The empty list is the one way to name no file that passes: no item of it leads nowhere, so
   it comes to a scope, whose overrides are empty, and nothing else does (`scope_without_files_iff`).
   An argument that lists nothing after its name asks for that list, so its name is put on rules for
   which nothing was overridden (`scope_without_files_is_emitted`). -/
namespace ThemedSheets
open ThemedSheets.Yaml

/-! ## Arguments that list nothing -/

namespace Command
open ThemedSheets.Text

theorem fileList_eq_nil_iff {cs : List Char} :
    fileList cs = [] ↔ ∀ c ∈ cs, c = ',' ∨ isBlank c = true := by
  have hpieces : fileList cs = [] ↔ ∀ p ∈ split ',' cs, ∀ c ∈ p, isBlank c = true := by
    simp only [fileList, List.map_eq_nil_iff, List.filter_eq_nil_iff, List.forall_mem_map,
      decide_eq_true_eq, not_not, trim_eq_nil_iff]
  rw [hpieces]
  constructor
  · intro h c hc
    rcases eq_or_mem_of_mem ',' c hc with rfl | ⟨p, hp, hmem⟩
    · exact .inl rfl
    · exact .inr (h p hp c hmem)
  · intro h p hp c hc
    refine (h c (mem_of_mem_split hp hc)).resolve_left ?_
    rintro rfl
    exact not_mem_of_mem_split hp hc

theorem pathOfFiles_eq_nil_iff {files : List String} : pathOfFiles files = .many [] ↔ files = [] := by
  match files with
  | [] => simp [pathOfFiles]
  | [file] => simp [pathOfFiles]
  | file :: file' :: rest => simp [pathOfFiles]

theorem readScope_append {name : List Char} (hname : '=' ∉ name) (rest : List Char) :
    readScope (String.ofList (name ++ '=' :: rest))
      = .ok ⟨String.ofList (trim name), pathOfFiles (fileList rest)⟩ := by
  have hrun := bne_of_not_mem hname
  have hend : ∀ c ∈ ('=' :: rest).head?, (c != '=') = false := by simp
  simp only [readScope, String.toList_ofList, dropWhile_append_of_ended hrun hend,
    takeWhile_append_of_ended hrun hend]

end Command

/-! ## Entries without files -/

def ScopeEntry.IsBlank (entry : ScopeEntry) : Prop :=
  ∃ v, entry.path = .one v ∧ (v.shape = .null ∨ v.shape = .str "")

theorem ScopeEntry.isBlank_ofValue {v : Value} {entries : List (Value × Value)}
    (hv : v.shape = .mapping entries) (hpath : Value.field? entries "path" = none) :
    (ofValue v).IsBlank := by
  refine ⟨.nothing, ?_, .inl rfl⟩
  simp only [ofValue, hv, hpath]
  rfl

namespace Validation
variable {files : FileSystem}

theorem comesTo_of_isBlank {entry : ScopeEntry} (h : entry.IsBlank) :
    ∃ d, entry.ComesTo files none [d] := by
  obtain ⟨v, hpath, hblank⟩ := h
  by_cases hnamed : ∃ name, entry.IsNamed name
  · obtain ⟨name, hname⟩ := hnamed
    have hnowhere : leadsNowhere files v = true := leadsNowhere_of_blank fun p hp => by
      rcases hblank with hnull | hempty
      · rw [hnull] at hp
        cases hp
      · exact Shape.str.inj (hp.symm.trans hempty)
    have htext : ∃ text, v.text? = some text := by
      rcases hblank with hnull | hempty
      · exact ⟨"None",
          by simp [Value.text?, Value.shown?, Value.shownInside, hnull, Shape.isScalar]⟩
      · exact ⟨"", by simp [Value.text?, hempty]⟩
    obtain ⟨text, htext⟩ := htext
    exact ⟨_, .noFile hname hpath hnowhere ⟨text, htext, rfl⟩⟩
  · exact ⟨_, .unnamed (not_exists.1 hnamed)⟩

/-- A checked scope has files unless its path is the empty list. -/
theorem paths_eq_nil_iff {s : Scope} (h : s.IsChecked files) :
    s.paths = [] ↔ s.path = .many [] := by
  rw [h.paths_eq]
  cases s.path <;> simp [ScopePath.texts]

theorem comesTo_fileless_iff {entry : ScopeEntry} {s : Scope} (hpath : s.path = .many []) :
    entry.ComesTo files (some s) [] ↔ entry.IsNamed s.name ∧ entry.path = .many [] := by
  obtain ⟨name, path⟩ := s
  obtain rfl : path = .many [] := hpath
  constructor
  · intro h
    cases h with
    | files hname hpath hfiles =>
      rw [List.forall₂_nil_right_iff] at hfiles
      exact ⟨hname, hfiles ▸ hpath⟩
  · rintro ⟨hname, hpath⟩
    exact .files hname hpath .nil

/-- **The scopes without files are the empty lists.** In a report, every entry that has nothing for a
path, or the empty text, is told of and comes to no scope. Of the scopes in a report that does not fall
back, those without files are those of the entries with a name and the empty list, all of them; nothing
is overridden for them. Every other scope has files, and they are there. From the command line the empty
list is asked for by the arguments that have nothing but commas and blanks behind the name. -/
theorem scope_without_files_iff (files : FileSystem) (entries : List ScopeEntry)
    (r : ValidationReport) (h : (validate files (some entries)).outcome = .ok r) :
    (∀ entry ∈ entries, entry.IsBlank →
      ∃ d ∈ r.diagnostics, ∀ found ds, entry.ComesTo files found ds ↔ found = none ∧ ds = [d]) ∧
    (∀ s, (r.isFallback = false ∧ s ∈ r.scopes) ∧ s.paths = [] ↔
      s.path = .many [] ∧ ∃ entry ∈ entries, entry.IsNamed s.name ∧ entry.path = .many []) ∧
    (r.isFallback = false → ∀ s ∈ r.scopes,
      (s.paths = [] → Overrides.load files s.path = .ok "") ∧
        ∀ p ∈ s.paths, files.hasFile p = .ok true) ∧
    ∀ name rest, '=' ∉ name → ∃ s, Command.readScope (String.ofList (name ++ '=' :: rest)) = .ok s ∧
      s.name = String.ofList (Text.trim name) ∧
      (s.path = .many [] ↔ ∀ c ∈ rest, c = ',' ∨ Text.isBlank c = true) := by
  have hchecked : ∀ s, r.isFallback = false ∧ s ∈ r.scopes → s.IsChecked files := fun s hs => by
    obtain ⟨entry, -, hcomes⟩ := (mem_scopes_iff h).1 hs
    exact isChecked_of_scope? (scope?_of_comesTo hcomes).1
  refine ⟨fun entry hentry hblank => ?_, fun s => ?_, fun hnot s hs => ?_, fun name rest hname => ?_⟩
  · obtain ⟨d, hd⟩ := comesTo_of_isBlank hblank
    refine ⟨d, ?_, fun found ds => ⟨fun hcomes => ?_, ?_⟩⟩
    · have hproblems : problems files entry = [d] := (scope?_of_comesTo hd).2
      rw [eq_ofFound_of_validate h]
      exact List.mem_flatMap.2 ⟨entry, hentry, hproblems ▸ List.mem_singleton_self d⟩
    · have hsame := (check_eq_ok_iff.2 hcomes).symm.trans (check_eq_ok_iff.2 hd)
      exact Prod.mk.inj (Except.ok.inj hsame)
    · rintro ⟨rfl, rfl⟩
      exact hd
  · constructor
    · rintro ⟨hs, hpaths⟩
      have hpath := (paths_eq_nil_iff (hchecked s hs)).1 hpaths
      obtain ⟨entry, hentry, hcomes⟩ := (mem_scopes_iff h).1 hs
      exact ⟨hpath, entry, hentry, (comesTo_fileless_iff hpath).1 hcomes⟩
    · rintro ⟨hpath, entry, hentry, hasks⟩
      have hs := (mem_scopes_iff h).2 ⟨entry, hentry, (comesTo_fileless_iff hpath).2 hasks⟩
      exact ⟨hs, (paths_eq_nil_iff (hchecked s hs)).2 hpath⟩
  · have hs := hchecked s ⟨hnot, hs⟩
    refine ⟨fun hpaths => ?_, fun p hp => (hs.2 p (hs.paths_eq ▸ hp)).2⟩
    rw [(paths_eq_nil_iff hs).1 hpaths]
    rfl
  · refine ⟨_, Command.readScope_append hname rest, rfl, ?_⟩
    rw [Command.pathOfFiles_eq_nil_iff, Command.fileList_eq_nil_iff]

/-- Four entries with a name: a mapping that does not speak of a path, one with the empty text, one with
the empty list, and one with a list of one file. -/
theorem scope_without_files_iff_of_four :
    let files : FileSystem := ⟨fun p => .ok (p == "d.scss"), fun _ => .ok "$d: 1;"⟩
    let fileless : ScopeEntry := ⟨.ofText "c", .many []⟩
    let entries : List ScopeEntry := [.ofValue (.ofJson (.object [("scope_name", .str "a")])),
      ⟨.ofText "b", .one (.ofText "")⟩, fileless, ⟨.ofText "d", .many [.ofText "d.scss"]⟩]
    let report : ValidationReport := ⟨[⟨"c", .many []⟩, ⟨"d", .many ["d.scss"]⟩], [
      ⟨"a", "Not found path: None in scope spec", none⟩,
      ⟨"b", "Not found path:  in scope spec", some ""⟩]⟩
    (validate files (some entries)).outcome = .ok report ∧
      (∀ entry ∈ entries.take 2, entry.IsBlank ∧ ∃ d ∈ report.diagnostics,
        entry.ComesTo files none [d]) ∧
      (∀ s, (report.isFallback = false ∧ s ∈ report.scopes) ∧ s.paths = [] ↔
        s.path = .many [] ∧ ∃ entry ∈ entries, entry.IsNamed s.name ∧ entry.path = .many []) ∧
      fileless.IsNamed "c" ∧ files.hasFile "d.scss" = .ok true := by
  intro files fileless entries report
  have hreport : (validate files (some entries)).outcome = .ok report :=
    Run.outcome_eq_ok (by decide +kernel)
  have hblank : ∀ entry ∈ entries.take 2, entry.IsBlank := by
    simp only [entries, List.take_succ_cons, List.take_zero, List.mem_cons, List.not_mem_nil,
      or_false]
    rintro entry (rfl | rfl)
    · exact ScopeEntry.isBlank_ofValue rfl rfl
    · exact ⟨_, rfl, .inr rfl⟩
  obtain ⟨htold, hfileless, hfiles, -⟩ := scope_without_files_iff files entries report hreport
  refine ⟨hreport, fun entry hentry => ⟨hblank entry hentry, ?_⟩, hfileless, ⟨rfl, by decide⟩, ?_⟩
  · obtain ⟨d, hd, hcomes⟩ := htold entry (List.mem_of_mem_take hentry) (hblank entry hentry)
    exact ⟨d, hd, (hcomes none [d]).2 ⟨rfl, rfl⟩⟩
  · exact (hfiles rfl ⟨"d", .many ["d.scss"]⟩ (by decide)).2 "d.scss" (by decide)

/-- A scope that names no file is emitted. The argument lists nothing but a comma and blanks, its scope
passes validation without a diagnostic, and the rules of a source that was compiled without overrides get
its class. -/
theorem scope_without_files_is_emitted :
    let w : Workshop := {
      compiler := fun text options => ⟨[.asked text options], .ok { css := text }⟩
      files := ⟨fun _ => .ok false, fun _ => .error .notFound⟩ }
    let s : Scope := ⟨"a", .many []⟩
    let run := w.compileScoped ".x\x7b\x7d" (some [.ofScope s]) none
    Command.readScope "a= , " = .ok s ∧ s.paths = [] ∧
      (validate w.files (some [.ofScope s])).outcome = .ok ⟨[s], []⟩ ∧
      ValidationReport.isFallback ⟨[s], []⟩ = false ∧
      Event.asked "\n.x\x7b\x7d" {} ∈ run.events ∧
      run.outcome = .ok { css := "\n.a .x\x7b\x7d" } := by
  intro w s run
  exact ⟨rfl, rfl, Run.outcome_eq_ok (by decide +kernel), rfl, by decide +kernel,
    Run.outcome_eq_ok (by decide +kernel)⟩

end Validation
end ThemedSheets
