import ThemedSheets.Proofs.Scope.Fileless
/- Arguments as spellings of scopes. An argument has the name of a scope, an equals sign, and items
   between commas. Blanks may stand around the name, and an item is blank or the name of a file with
   blanks around it (`NameFiles`, `Spells`). Every argument with an equals sign spells something, and it
   is read as the scope that it spells (`readScope_eq_ok_iff_spells`): the name ends at the first equals
   sign, and no blank is a comma. Where the files are there, validation keeps that scope and has nothing
   to tell (`readScope_of_spelling`). -/
namespace ThemedSheets
open ThemedSheets.Text

namespace Command

/-! ## Spellings -/

/-- A name that can be spelled in front of a mark: it is not empty, and has neither the mark in it nor
blanks around it. -/
structure IsSpellable (mark : Char) (name : String) : Prop where
  ne_empty : name ≠ ""
  no_mark : mark ∉ name.toList
  trimmed : IsTrimmed name.toList

/-- The items name the files in their order: an item is blank, or the next file with blanks around it. -/
inductive NameFiles : List (List Char) → List String → Prop where
  | done : NameFiles [] []
  | blank {item : List Char} {items : List (List Char)} {files : List String}
    (hitem : ∀ c ∈ item, isBlank c = true) (hrest : NameFiles items files) :
    NameFiles (item :: items) files
  | file {before after : List Char} {file : String} {items : List (List Char)}
    {files : List String} (hbefore : ∀ c ∈ before, isBlank c = true)
    (hafter : ∀ c ∈ after, isBlank c = true) (hrest : NameFiles items files) :
    NameFiles ((before ++ file.toList ++ after) :: items) (file :: files)

/-- The text spells a scope: its name, with blanks around it, an equals sign, and items that name its
files. -/
def Spells (text name : String) (files : List String) : Prop :=
  ∃ (before after : List Char) (items : List (List Char)),
    (∀ c ∈ before, isBlank c = true) ∧ (∀ c ∈ after, isBlank c = true) ∧
      items ≠ [] ∧ NameFiles items files ∧
      text = String.ofList (before ++ name.toList ++ after ++ '=' :: join [','] items)

/-! ## Items -/

theorem not_mem_of_blank {c : Char} (hc : isBlank c = false) {cs : List Char}
    (h : ∀ b ∈ cs, isBlank b = true) : c ∉ cs := by
  intro hmem
  rw [h c hmem] at hc
  cases hc

theorem NameFiles.no_comma {items : List (List Char)} {files : List String}
    (h : NameFiles items files) (hfiles : ∀ file ∈ files, ',' ∉ file.toList) :
    ∀ item ∈ items, ',' ∉ item := by
  have hcomma : isBlank ',' = false := by decide
  induction h with
  | done => simp
  | blank hitem _ ih =>
    rw [List.forall_mem_cons]
    exact ⟨not_mem_of_blank hcomma hitem, ih hfiles⟩
  | file hbefore hafter _ ih =>
    rw [List.forall_mem_cons] at hfiles ⊢
    refine ⟨?_, ih hfiles.2⟩
    simp only [List.mem_append, not_or]
    exact ⟨⟨not_mem_of_blank hcomma hbefore, hfiles.1⟩, not_mem_of_blank hcomma hafter⟩

theorem NameFiles.eq_files {items : List (List Char)} {files : List String}
    (h : NameFiles items files) (hfiles : ∀ file ∈ files, IsSpellable ',' file) :
    ((items.map trim).filter (· ≠ [])).map String.ofList = files := by
  induction h with
  | done => rfl
  | @blank item items files hitem _ ih =>
    have hnil : trim item = [] := trim_eq_nil_iff.2 hitem
    rw [List.map_cons, hnil, List.filter_cons_of_neg (by simp)]
    exact ih hfiles
  | @file before after file items files hbefore hafter _ ih =>
    rw [List.forall_mem_cons] at hfiles
    have hfile : trim (before ++ file.toList ++ after) = file.toList := by
      rw [trim_append_blanks hbefore hafter, trim_of_isTrimmed hfiles.1.trimmed]
    have hne : file.toList ≠ [] := fun hnil =>
      hfiles.1.ne_empty (String.toList_eq_nil_iff.1 hnil)
    rw [List.map_cons, hfile, List.filter_cons_of_pos (by simpa using hne), List.map_cons,
      String.ofList_toList, ih hfiles.2]

theorem nameFiles_items (items : List (List Char)) :
    NameFiles items (((items.map trim).filter (· ≠ [])).map String.ofList) := by
  induction items with
  | nil => exact .done
  | cons item items ih =>
    rw [List.map_cons]
    by_cases hnil : trim item = []
    · rw [List.filter_cons_of_neg (by simpa using hnil)]
      exact .blank (trim_eq_nil_iff.1 hnil) ih
    · rw [List.filter_cons_of_pos (by simpa using hnil), List.map_cons]
      obtain ⟨before, after, hitem, hbefore, hafter⟩ := exists_blanks_trim item
      have hfile : NameFiles ((before ++ (String.ofList (trim item)).toList ++ after) :: items)
          (String.ofList (trim item) :: ((items.map trim).filter (· ≠ [])).map String.ofList) :=
        .file hbefore hafter ih
      rwa [String.toList_ofList, ← hitem] at hfile

theorem nameFiles_split (cs : List Char) : NameFiles (split ',' cs) (fileList cs) :=
  nameFiles_items (split ',' cs)

theorem fileList_join {items : List (List Char)} {files : List String} (hne : items ≠ [])
    (h : NameFiles items files) (hfiles : ∀ file ∈ files, IsSpellable ',' file) :
    fileList (join [','] items) = files := by
  have hcommas : ∀ item ∈ items, ',' ∉ item :=
    h.no_comma fun file hfile => (hfiles file hfile).no_mark
  rw [fileList, split_join hne hcommas, h.eq_files hfiles]

theorem texts_pathOfFiles (files : List String) : (pathOfFiles files).texts = files := by
  match files with
  | [] => rfl
  | [file] => rfl
  | file :: file' :: rest => rfl

/-! ## Arguments -/

/-- What an argument is read as, and only that. -/
theorem readScope_eq_ok_iff {text : String} {s : Scope} :
    readScope text = .ok s ↔ ∃ name rest, '=' ∉ name ∧ text = String.ofList (name ++ '=' :: rest) ∧
      s = ⟨String.ofList (trim name), pathOfFiles (fileList rest)⟩ := by
  constructor
  · intro h
    have hcut := List.takeWhile_append_dropWhile (p := (· != '=')) (l := text.toList)
    have hname := not_mem_takeWhile_bne '=' text.toList
    have hend := head?_dropWhile (p := (· != '=')) text.toList
    simp only [readScope] at h
    split at h
    · cases h
    · next c rest hrest =>
      rw [hrest] at hend
      have hc : c = '=' := by simpa using hend c rfl
      rw [hrest, hc] at hcut
      refine ⟨_, rest, hname, ?_, (Except.ok.inj h).symm⟩
      rw [hcut, String.ofList_toList]
  · rintro ⟨name, rest, hname, rfl, rfl⟩
    exact readScope_append hname rest

theorem readScope_eq_ok_iff_spells {text name : String} {files : List String}
    (hname : IsSpellable '=' name) (hfiles : ∀ file ∈ files, IsSpellable ',' file) :
    readScope text = .ok ⟨name, pathOfFiles files⟩ ↔ Spells text name files := by
  constructor
  · intro h
    obtain ⟨written, rest, -, htext, hscope⟩ := readScope_eq_ok_iff.1 h
    obtain ⟨hread, hpath⟩ := Scope.mk.inj hscope
    have htrim : name.toList = trim written := by rw [hread, String.toList_ofList]
    have hlist : files = fileList rest := by
      rw [← texts_pathOfFiles files, hpath, texts_pathOfFiles]
    obtain ⟨before, after, hcut, hbefore, hafter⟩ := exists_blanks_trim written
    refine ⟨before, after, split ',' rest, hbefore, hafter, split_ne_nil ',' rest, ?_, ?_⟩
    · rw [hlist]
      exact nameFiles_split rest
    · rw [htrim, ← hcut, join_split, htext]
  · rintro ⟨before, after, items, hbefore, hafter, hne, hitems, rfl⟩
    have hequals : isBlank '=' = false := by decide
    have hwritten : '=' ∉ before ++ name.toList ++ after := by
      simp only [List.mem_append, not_or]
      exact ⟨⟨not_mem_of_blank hequals hbefore, hname.no_mark⟩, not_mem_of_blank hequals hafter⟩
    rw [readScope_append hwritten, trim_append_blanks hbefore hafter,
      trim_of_isTrimmed hname.trimmed, String.ofList_toList, fileList_join hne hitems hfiles]

/-- **An argument means the scope that it spells.** An argument is read as the scope of a name and some
files exactly where it spells them, however many files there are, whatever blanks stand around the
names and wherever items are blank. If the files are there, validation of this one scope reports it and
no diagnostic, and its files are those that were spelled, in order. -/
theorem readScope_of_spelling (files : FileSystem) {name : String} {paths : List String}
    (hname : IsSpellable '=' name) (hpaths : ∀ p ∈ paths, IsSpellable ',' p) (text : String) :
    (readScope text = .ok ⟨name, pathOfFiles paths⟩ ↔ Spells text name paths) ∧
    (Spells text name paths → (∀ p ∈ paths, files.hasFile p = .ok true) →
      ∃ s, readScope text = .ok s ∧
        (Validation.validate files (some [.ofScope s])).outcome = .ok ⟨[s], []⟩ ∧
        s.name = name ∧ s.paths = paths) := by
  have hread : readScope text = .ok ⟨name, pathOfFiles paths⟩ ↔ Spells text name paths :=
    readScope_eq_ok_iff_spells hname hpaths
  refine ⟨hread, fun hspells hfound => ?_⟩
  let s : Scope := ⟨name, pathOfFiles paths⟩
  have hchecked : s.IsChecked files := by
    refine ⟨hname.ne_empty, fun p hp => ?_⟩
    have hmem : p ∈ paths := texts_pathOfFiles paths ▸ hp
    exact ⟨(hpaths p hmem).ne_empty, hfound p hmem⟩
  have hvalid := Validation.validate_checked (List.cons_ne_nil s []) fun t ht =>
    List.mem_singleton.1 ht ▸ hchecked
  refine ⟨s, hread.2 hspells, hvalid, rfl, ?_⟩
  rw [hchecked.paths_eq]
  exact texts_pathOfFiles paths

/-- Two files, the first with an equals sign in its name, between blank items and blanks of several
kinds, not all of them of ASCII. -/
theorem readScope_of_spelling_of_two_files :
    let files : FileSystem := ⟨fun p => .ok (p == "a=b.scss" || p == "c d.less"), fun _ => .ok ""⟩
    let paths := ["a=b.scss", "c d.less"]
    let text := "\u2003t,u \t=,a=b.scss\u00a0, ,\n c d.less,"
    let s : Scope := ⟨"t,u", .many paths⟩
    IsSpellable '=' "t,u" ∧ (∀ p ∈ paths, IsSpellable ',' p) ∧ Spells text "t,u" paths ∧
      (∀ p ∈ paths, files.hasFile p = .ok true) ∧ readScope text = .ok s ∧
      (Validation.validate files (some [.ofScope s])).outcome = .ok ⟨[s], []⟩ ∧ s.paths = paths := by
  intro files paths text s
  have hname : IsSpellable '=' "t,u" := ⟨by decide, by decide, by decide⟩
  have hpaths : ∀ p ∈ paths, IsSpellable ',' p := by
    have hall : ∀ p ∈ paths, p ≠ "" ∧ ',' ∉ p.toList ∧ IsTrimmed p.toList := by decide
    intro p hp
    obtain ⟨hne, hcomma, htrimmed⟩ := hall p hp
    exact ⟨hne, hcomma, htrimmed⟩
  have hfound : ∀ p ∈ paths, files.hasFile p = .ok true := by
    intro p hp
    rcases List.mem_cons.1 hp with rfl | hp
    · rfl
    · rw [List.mem_singleton.1 hp]
      rfl
  have hblank : ∀ {cs : List Char}, cs.all isBlank = true → ∀ c ∈ cs, isBlank c = true :=
    List.all_eq_true.1
  have hitems : NameFiles [[], [] ++ "a=b.scss".toList ++ ['\u00a0'], [' '],
      ['\n', ' '] ++ "c d.less".toList ++ [], []] paths :=
    .blank (hblank rfl) <| .file (hblank rfl) (hblank rfl) <| .blank (hblank rfl) <|
      .file (hblank rfl) (hblank rfl) <| .blank (hblank rfl) .done
  have hspells : Spells text "t,u" paths :=
    ⟨['\u2003'], [' ', '\t'], _, hblank rfl, hblank rfl, List.cons_ne_nil _ _, hitems, by decide⟩
  obtain ⟨hread, hmeans⟩ := readScope_of_spelling files hname hpaths text
  obtain ⟨t, ht, hvalid, -, hlist⟩ := hmeans hspells hfound
  obtain rfl : s = t := Except.ok.inj ((hread.2 hspells).symm.trans ht)
  exact ⟨hname, hpaths, hspells, hfound, ht, hvalid, hlist⟩

end Command

end ThemedSheets
