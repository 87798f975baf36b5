import ThemedSheets.Proofs.Sass.Mapped
/- Which file an import means where several could be meant, and what an importer keeps of it. A pair
   of a root and a candidate name leads to a file or not (`LeadsTo`); of the pairs that do, the one
   that stands first counts, roots before names (`exists_leadsTo_of_find?`). An importer that answers
   one request after another (`run`) keeps the files it handed out and nothing else: a step adds what
   is found to the list (`step_eq`), so after each request the list is that of the answers so far. -/
namespace ThemedSheets.Sass
open ThemedSheets.Path ThemedSheets.Text

theorem Importer.leadsToFile_iff {host : Host} {path : String} :
    leadsToFile host path = true
      ↔ ∃ content, host.disk.stat host.directory path = .ok (.file content) := by
  unfold leadsToFile
  constructor
  · intro h
    split at h
    · next found htest => exact Disk.exists_stat_of_test (by rw [htest, h])
    · simp at h
  · rintro ⟨content, hstat⟩
    simp only [Disk.test, hstat, Entry.isFile]

namespace Importer
variable {imp : Importer} {request importing : String}

/-! ## The first pair -/

/-- The pair of a root and a candidate name, each told by its place, leads to a file. -/
def LeadsTo (imp : Importer) (request importing : String) (i j : Nat) (path : String)
    (content : ByteArray) : Prop :=
  ∃ root name, (imp.roots importing)[i]? = some root ∧ (candidates request)[j]? = some name ∧
    path = normalize (joined root name) ∧
    imp.host.disk.stat imp.host.directory path = .ok (.file content)

/-- Every pair that leads to a file has a later root, or the same root and no earlier name. -/
def IsFirst (imp : Importer) (request importing : String) (i j : Nat) : Prop :=
  ∀ i' j' path content, imp.LeadsTo request importing i' j' path content →
    i < i' ∨ (i = i' ∧ j ≤ j')

theorem LeadsTo.stat {i j : Nat} {path : String} {content : ByteArray}
    (h : imp.LeadsTo request importing i j path content) :
    imp.host.disk.stat imp.host.directory path = .ok (.file content) := by
  obtain ⟨_, _, _, _, _, hcontent⟩ := h
  exact hcontent

/-- The directories that are searched: that of the file that imports if it is a place of its own, else
that of the source if there is one, and the include paths. -/
theorem roots_eq (imp : Importer) (importing : String) :
    imp.roots importing
      = (if isAbsolute importing ∧ (Path.ofString importing).stem ≠ ownStem then [dirName importing]
          else (imp.base.filter (· ≠ "")).toList) ++ imp.includePaths := by
  have hown : isOwnPlace importing = true
      ↔ isAbsolute importing = true ∧ (Path.ofString importing).stem ≠ ownStem := by
    unfold isOwnPlace
    by_cases hempty : importing = ""
    · subst hempty
      simp [show isAbsolute "" = false by decide]
    · simp [hempty]
  unfold roots
  by_cases h : isOwnPlace importing = true
  · rw [if_pos h, if_pos (hown.1 h), List.singleton_append]
  · rw [if_neg h, if_neg (mt hown.2 h)]
    cases imp.base with
    | none => rfl
    | some dir => by_cases hdir : dir = "" <;> simp [hdir, Option.filter]

theorem foundIn_eq_some {root p : String} (h : imp.foundIn request root = some p) :
    ∃ (j : Nat) (name : String), (candidates request)[j]? = some name ∧
      p = normalize (joined root name) ∧ leadsToFile imp.host p = true ∧
      ∀ (j' : Nat) (name' : String), (candidates request)[j']? = some name' →
        leadsToFile imp.host (normalize (joined root name')) = true → j ≤ j' := by
  obtain ⟨hp, before, after, hsplit, hbefore⟩ := List.find?_eq_some_iff_append.1 h
  have hplace : ((candidates request).map fun name => normalize (joined root name))[before.length]?
      = some p := by
    rw [hsplit, List.getElem?_append_right (Nat.le_refl _)]
    simp
  obtain ⟨name, hname, rfl⟩ := Option.map_eq_some_iff.1 ((List.getElem?_map ..).symm.trans hplace)
  refine ⟨before.length, name, hname, rfl, hp, fun j' name' hname' hleads => ?_⟩
  refine Nat.le_of_not_lt fun hlt => ?_
  have hearlier : before[j']? = some (normalize (joined root name')) := by
    rw [← List.getElem?_append_left hlt, ← hsplit, List.getElem?_map, hname']
    rfl
  simpa [hleads] using hbefore _ (List.mem_of_getElem? hearlier)

/-- **The first pair counts.** What is found is the file of the first pair that leads to one. -/
theorem exists_leadsTo_of_find? {p : String} (h : imp.find? request importing = some p) :
    ∃ i j content, imp.LeadsTo request importing i j p content
      ∧ imp.IsFirst request importing i j := by
  rw [find?_eq_findSome?, List.findSome?_eq_some_iff] at h
  obtain ⟨before, root, after, hsplit, hfound, hbefore⟩ := h
  obtain ⟨j, name, hname, rfl, hleads, hfirst⟩ := foundIn_eq_some hfound
  obtain ⟨content, hcontent⟩ := leadsToFile_iff.1 hleads
  have hroot : (imp.roots importing)[before.length]? = some root := by
    rw [hsplit, List.getElem?_append_right (Nat.le_refl _)]
    simp
  refine ⟨before.length, j, content, ⟨root, name, hroot, hname, rfl, hcontent⟩, ?_⟩
  rintro i' j' path content' ⟨root', name', hroot', hname', rfl, hcontent'⟩
  have hleads' := leadsToFile_iff.2 ⟨content', hcontent'⟩
  rcases Nat.lt_trichotomy before.length i' with hlt | rfl | hgt
  · exact Or.inl hlt
  · obtain rfl : root = root' := Option.some.inj (hroot.symm.trans hroot')
    exact Or.inr ⟨rfl, hfirst j' name' hname' hleads'⟩
  · -- in an earlier root nothing is found, so none of its names leads to a file
    have hearlier : before[i']? = some root' := by
      rw [← List.getElem?_append_left hgt, ← hsplit]
      exact hroot'
    have hnone := hbefore root' (List.mem_of_getElem? hearlier)
    rw [foundIn, List.find?_eq_none] at hnone
    exact absurd hleads' (hnone _ (List.mem_map_of_mem (List.mem_of_getElem? hname')))

theorem find?_eq_none_iff :
    imp.find? request importing = none
      ↔ ∀ i j path content, ¬ imp.LeadsTo request importing i j path content := by
  constructor
  · rintro hnone i j path content ⟨root, name, hroot, hname, rfl, hcontent⟩
    rw [find?, List.find?_eq_none] at hnone
    refine hnone _ ?_ (leadsToFile_iff.2 ⟨content, hcontent⟩)
    exact List.mem_flatMap.2 ⟨root, List.mem_of_getElem? hroot,
      List.mem_map_of_mem (List.mem_of_getElem? hname)⟩
  · intro hno
    cases h : imp.find? request importing with
    | none => rfl
    | some p =>
      obtain ⟨i, j, content, hleads, -⟩ := exists_leadsTo_of_find? h
      exact absurd hleads (hno i j p content)

/-! ## One request after another -/

def run (imp : Importer) (found : List String) :
    List (String × String) → List String × List (Except FileFailure (Option Imported))
  | [] => (found, [])
  | (request, importing) :: rest =>
    let (found, result) := imp.step found request importing
    let (found, results) := imp.run found rest
    (found, result :: results)

/-- What is handed out for a request; nothing where the file that is found cannot be read. -/
def handedOut (imp : Importer) (asked : String × String) : Option Imported :=
  match imp.answer asked.1 asked.2 with
  | .ok answer => answer
  | .error _ => none

section
variable (hfiles : IsReadable imp.host)
include hfiles

theorem answer_eq (asked : String × String) :
    imp.answer asked.1 asked.2 = .ok (imp.handedOut asked) := by
  obtain ⟨answer, hanswer⟩ := exists_answer hfiles asked.1 asked.2
  rw [handedOut, hanswer]

theorem find?_eq_handedOut (asked : String × String) :
    imp.find? asked.1 asked.2 = (imp.handedOut asked).map Imported.path :=
  (path_of_answer (answer_eq hfiles asked)).symm

/-- A step hands out one answer, and keeps the path of that answer behind those that it has. -/
theorem step_eq (found : List String) (asked : String × String) :
    imp.step found asked.1 asked.2
      = (found ++ ((imp.handedOut asked).map Imported.path).toList, .ok (imp.handedOut asked)) := by
  rw [step, answer_eq hfiles, find?_eq_handedOut hfiles]

theorem run_eq (found : List String) (requests : List (String × String)) :
    imp.run found requests
      = (found ++ pathsOf (requests.map imp.handedOut),
          (requests.map imp.handedOut).map Except.ok) := by
  induction requests generalizing found with
  | nil => simp [run, pathsOf]
  | cons asked rest ih =>
    have hstep := step_eq hfiles found asked
    simp only [run, hstep, ih, List.map_cons, pathsOf, List.filterMap_cons]
    cases (imp.handedOut asked).map Imported.path <;> simp

end

theorem text_of_handedOut {asked : String × String} {file : Imported} {content : ByteArray}
    (h : imp.handedOut asked = some file)
    (hcontent : imp.host.disk.stat imp.host.directory file.path = .ok (.file content)) :
    ∃ text, Encoding.utf8.decode? content = some text
      ∧ file.text = String.ofList (unifyNewlines text.toList) := by
  unfold handedOut at h
  split at h
  · next answer hanswer =>
    subst h
    unfold answer at hanswer
    split at hanswer
    · cases hanswer
    · next p hp =>
      obtain ⟨text, htext, hfile⟩ := Outcome.map_eq_ok.1 hanswer
      obtain rfl := Option.some.inj hfile
      rw [Disk.readText, Disk.readBytes, hcontent] at htext
      dsimp only at htext
      split at htext
      · cases htext
      · next raw hraw => exact ⟨raw, hraw, (Except.ok.inj htext).symm⟩
  · cases h

/-- **Imports are answered by the first pair, and the list of files found is that of the answers.** Let
every file of the tree stand for a text. Then every request of a run is answered: with nothing exactly
where it has no candidate names or no pair of a root and a name leads to a file, else with the path
and the text of the file of the first such pair, roots before names. The roots are the directory of
the file that imports if its path is absolute and its stem is not that of the source, else the
directory of the source if there is one, and behind it the include paths. After each request the list
of files found is what it was before, with the path of the answer behind it if there is one; so after
any number of requests it lists the paths of the answers so far, in order and with repetitions. -/
theorem run_of_requests (imp : Importer)
    (hfiles : ∀ location content, (location, .file content) ∈ imp.host.disk.entries →
      (Encoding.utf8.decode? content).isSome = true)
    (requests : List (String × String)) :
    ∃ answers : List (Option Imported), answers.length = requests.length ∧
      (∀ n, imp.run [] (requests.take n)
        = (pathsOf (answers.take n), (answers.take n).map Except.ok)) ∧
      ∀ (n : Nat) request importing answer, requests[n]? = some (request, importing) →
        answers[n]? = some answer →
        (imp.run [] (requests.take (n + 1))).1
          = (imp.run [] (requests.take n)).1 ++ (answer.map Imported.path).toList ∧
        imp.roots importing
          = (if isAbsolute importing ∧ (Path.ofString importing).stem ≠ "stdin" then
              [dirName importing]
            else (imp.base.filter (· ≠ "")).toList) ++ imp.includePaths ∧
        (answer = none ↔ candidates request = [] ∨
          ∀ i j path content, ¬ imp.LeadsTo request importing i j path content) ∧
        ∀ file, answer = some file → ∃ i j content text,
          imp.LeadsTo request importing i j file.path content ∧
            imp.IsFirst request importing i j ∧
            Encoding.utf8.decode? content = some text ∧
            file.text = String.ofList (unifyNewlines text.toList) := by
  have hreadable : IsReadable imp.host := isReadable_of_decodable hfiles
  have hrun : ∀ n, imp.run [] (requests.take n)
      = (pathsOf ((requests.map imp.handedOut).take n),
          ((requests.map imp.handedOut).take n).map Except.ok) := by
    intro n
    rw [run_eq hreadable, List.nil_append, List.map_take]
  refine ⟨requests.map imp.handedOut, List.length_map _, hrun, ?_⟩
  intro n request importing answer hasked hanswer
  obtain rfl : imp.handedOut (request, importing) = answer := by
    simpa [hasked] using hanswer
  have hfind := find?_eq_handedOut hreadable (request, importing)
  refine ⟨?_, imp.roots_eq importing, ?_, ?_⟩
  · rw [hrun, hrun, List.take_add_one, hanswer, pathsOf, List.filterMap_append]
    cases imp.handedOut (request, importing) <;> rfl
  · constructor
    · intro hnone
      rw [hnone] at hfind
      exact Or.inr (find?_eq_none_iff.1 hfind)
    · intro hno
      have hpairs : ∀ i j path content, ¬ imp.LeadsTo request importing i j path content := by
        rcases hno with hempty | hno
        · rintro i j path content ⟨_, _, _, hname, _⟩
          simp [hempty] at hname
        · exact hno
      simpa using hfind.symm.trans (find?_eq_none_iff.2 hpairs)
  · intro file hfile
    rw [hfile] at hfind
    obtain ⟨i, j, content, hleads, hfirst⟩ := exists_leadsTo_of_find? hfind
    obtain ⟨text, htext⟩ := text_of_handedOut hfile hleads.stat
    exact ⟨i, j, content, text, hleads, hfirst, htext⟩

/-- Five requests to one importer. The first finds the partial beside the source though there are other
files of the name, the second the one beside the file that imports, the third is plain CSS, the fourth
is nowhere, and the fifth repeats the first. -/
theorem run_of_repeated_requests :
    let host : Host := {
      disk := ⟨[(["w"], .directory), (["w", "a.scss"], .file ⟨#[]⟩),
        (["w", "_a.scss"], .file ⟨#[97]⟩), (["l"], .directory), (["l", "a.css"], .file ⟨#[]⟩),
        (["l", "_a.sass"], .file ⟨#[98]⟩), (["l", "x.scss"], .file ⟨#[]⟩)]⟩
      directory := "/w", home := "/root" }
    let imp : Importer := ⟨host, some "/w", ["/l"]⟩
    let requests := [("a", "stdin"), ("a", "/l/x.scss"), ("a.css", "stdin"), ("b", "stdin"),
      ("a", "stdin")]
    (∀ location content, (location, .file content) ∈ imp.host.disk.entries →
      (Encoding.utf8.decode? content).isSome = true) ∧
      (imp.run [] requests).1 = ["/w/_a.scss", "/l/_a.sass", "/w/_a.scss"] ∧
      (∃ i j content, imp.LeadsTo "a" "/l/x.scss" i j "/l/_a.sass" content
        ∧ imp.IsFirst "a" "/l/x.scss" i j) ∧
      ∀ i j path content, ¬ imp.LeadsTo "b" "stdin" i j path content := by
  intro host imp requests
  have hfiles : ∀ location content, (location, .file content) ∈ imp.host.disk.entries →
      (Encoding.utf8.decode? content).isSome = true := by
    have hall : imp.host.disk.entries.all (fun
        | (_, .file content) => (Encoding.utf8.decode? content).isSome
        | (_, .directory) => true) = true := by decide +kernel
    exact fun location content hmem => List.all_eq_true.1 hall _ hmem
  obtain ⟨answers, hlength, hrun, hspec⟩ := run_of_requests imp hfiles requests
  have hanswers : answers = [some ⟨"/w/_a.scss", "a"⟩, some ⟨"/l/_a.sass", "b"⟩, none, none,
      some ⟨"/w/_a.scss", "a"⟩] := by
    have hresults : (imp.run [] requests).2.map Except.toOption
        = [some (some ⟨"/w/_a.scss", "a"⟩), some (some ⟨"/l/_a.sass", "b"⟩), some none, some none,
            some (some ⟨"/w/_a.scss", "a"⟩)] := by decide +kernel
    have hwhole : answers.take 5 = answers := List.take_of_length_le (Nat.le_of_eq hlength)
    have hlast : imp.run [] requests = (pathsOf answers, answers.map Except.ok) := by
      rw [← hwhole]
      exact hrun 5
    rw [hlast, List.map_map] at hresults
    exact (List.map_inj_right fun _ _ => Option.some.inj).1 hresults
  subst hanswers
  obtain ⟨-, -, -, hsecond⟩ := hspec 1 "a" "/l/x.scss" _ rfl rfl
  obtain ⟨-, -, hfourth, -⟩ := hspec 3 "b" "stdin" _ rfl rfl
  obtain ⟨i, j, content, _, hleads, hfirst, _⟩ := hsecond ⟨"/l/_a.sass", "b"⟩ rfl
  refine ⟨hfiles, congrArg Prod.fst (hrun 5), ⟨i, j, content, hleads, hfirst⟩, ?_⟩
  rcases hfourth.1 rfl with hempty | hno
  · exact absurd hempty (by decide +kernel)
  · exact hno

end Importer

end ThemedSheets.Sass
