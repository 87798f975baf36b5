import ThemedSheets.Proofs.Outcome
import ThemedSheets.Proofs.Path.Tidy
import ThemedSheets.Proofs.Scope.Files
import ThemedSheets.Settings.Basic
/- What the sections of a settings document come to, section by section: what is in a section that is
   read, and what a section that is not read is refused for. A path that is placed is absolute and
   stays as it is when it is placed again. Apart from the faults of settings themselves, only two
   things end the reading of a document: a path that names no home directory, and a whole number of
   too many digits where a text is asked for. -/
namespace ThemedSheets
open ThemedSheets.Yaml

/-- A whole number that has too many digits to be written. -/
def Yaml.Value.IsOverlong (v : Value) : Prop :=
  ∃ i, v.shape = .int i ∧ Number.maxDecimalDigits < (Text.digitsOf 10 i.natAbs).length

namespace Settings
variable {host : Host} {root : Path}

/-! ## Lists as such -/

theorem placeValues_eq_mapM (vs : List Value) :
    placeValues host root vs = vs.mapM (placeValue host root) := by
  induction vs with
  | nil => rfl
  | cons v vs ih => rw [placeValues, ih, List.mapM_cons]

theorem placePaths_eq_mapM (ps : List String) :
    placePaths host root ps = ps.mapM (placePath host root) := by
  induction ps with
  | nil => rfl
  | cons p ps ih => rw [placePaths, ih, List.mapM_cons]

theorem readScopes_eq_mapM (vs : List Value) :
    readScopes host root vs = vs.mapM (readScope host root) := by
  induction vs with
  | nil => rfl
  | cons v vs ih => rw [readScopes, ih, List.mapM_cons]

/-! ## Paths -/

/-- A path as settings should hold it: it is absolute, and taken from their root it stays as it is. -/
def IsPlaced (host : Host) (root : Path) (text : String) : Prop :=
  Path.isAbsolute text = true ∧ placePath host root text = .ok text

/-- A value which, if it is a text that may be a path, is a path as settings should hold it. -/
def HoldsPlaced (host : Host) (root : Path) (v : Value) : Prop :=
  ∀ text, v.shape = .str text → text ≠ "" → IsPlaced host root text

theorem placePath_eq_error {text : String} {e : Fault} (h : placePath host root text = .error e) :
    ∃ f, host.expand (Path.ofString text) = .error f ∧ e = .file f := by
  unfold placePath at h
  split at h
  · cases h
  · next f hf => exact ⟨f, hf, (Except.error.inj h).symm⟩

theorem isPlaced_toString {p : Path} (hp : p.IsTidy) (hrooted : p.isRooted) :
    IsPlaced host root p.toString := by
  refine ⟨(Path.isAbsolute_toString hp).trans hrooted, ?_⟩
  rw [placePath, Path.ofString_toString hp, Host.expand_of_isRooted hrooted]
  simp only [Path.append, hrooted, if_true]

section
variable (hroot : root.IsTidy) (hrooted : root.isRooted)
include hroot hrooted

theorem isPlaced_placePath {text placed : String} (h : placePath host root text = .ok placed) :
    IsPlaced host root placed := by
  unfold placePath at h
  split at h
  · next p hp =>
    obtain rfl := Except.ok.inj h
    have hexpanded := Host.isTidy_expand (Path.isTidy_ofString text) hp
    refine isPlaced_toString (hroot.append hexpanded) ?_
    unfold Path.append
    split
    · assumption
    · exact hrooted
  · cases h

theorem holdsPlaced_placeValue {v placed : Value} (h : placeValue host root v = .ok placed) :
    HoldsPlaced host root placed := by
  intro text htext hne
  unfold placeValue at h
  split at h
  · next s hs =>
    split at h
    · next hempty =>
      obtain rfl := Except.ok.inj h
      exact absurd (Shape.str.inj (htext.symm.trans hs) ▸ hempty) hne
    · obtain ⟨path, hpath, rfl⟩ := Outcome.map_eq_ok.1 h
      obtain rfl := Shape.str.inj htext
      exact isPlaced_placePath hroot hrooted hpath
  · next hnoText =>
    obtain rfl := Except.ok.inj h
    exact absurd htext (hnoText text)

theorem holdsPlaced_placeRequested {path placed : RequestedPath}
    (h : placeRequested host root path = .ok placed) :
    ∀ v ∈ placed.values, HoldsPlaced host root v := by
  cases path with
  | one v =>
    obtain ⟨w, hw, rfl⟩ := Outcome.map_eq_ok.1 h
    simpa [RequestedPath.values] using holdsPlaced_placeValue hroot hrooted hw
  | many items =>
    obtain ⟨ws, hws, rfl⟩ := Outcome.map_eq_ok.1 h
    rw [placeValues_eq_mapM] at hws
    intro w hw
    obtain ⟨v, -, hv⟩ := Outcome.exists_of_mem_mapM hws w hw
    exact holdsPlaced_placeValue hroot hrooted hv

theorem holdsPlaced_readScopes {vs : List Value} {entries : List ScopeEntry}
    (h : readScopes host root vs = .ok entries) :
    ∀ entry ∈ entries, ∀ v ∈ entry.path.values, HoldsPlaced host root v := by
  rw [readScopes_eq_mapM] at h
  intro entry hentry
  obtain ⟨v, -, hv⟩ := Outcome.exists_of_mem_mapM h entry hentry
  obtain ⟨path, hpath, rfl⟩ := Outcome.map_eq_ok.1 hv
  exact holdsPlaced_placeRequested hroot hrooted hpath

theorem holdsPlaced_scopesSection {document : List (Value × Value)} {entries : List ScopeEntry}
    (h : scopesSection host root document = .ok (some entries)) :
    ∀ entry ∈ entries, ∀ v ∈ entry.path.values, HoldsPlaced host root v := by
  unfold scopesSection at h
  dsimp only at h
  split at h
  · cases h
  · obtain ⟨read, hread, hsome⟩ := Outcome.map_eq_ok.1 h
    obtain rfl := Option.some.inj hsome
    exact holdsPlaced_readScopes hroot hrooted hread
  · cases h

theorem isPlaced_placePaths {texts placed : List String}
    (h : placePaths host root texts = .ok placed) : ∀ p ∈ placed, IsPlaced host root p := by
  rw [placePaths_eq_mapM] at h
  intro p hp
  obtain ⟨text, -, htext⟩ := Outcome.exists_of_mem_mapM h p hp
  exact isPlaced_placePath hroot hrooted htext

end

/-! ## What ends the reading of a section -/

/-- The value that a document has for its scopes, under the first of two names that is there. -/
def listedScopes (document : List (Value × Value)) : Value :=
  match Value.field? document "scopes" with
  | some v => v
  | none => field document "multipleScopeVars"

def compilerEntries (document : List (Value × Value)) : List (Value × Value) :=
  (field document "compiler").entries

/-- The document names the text as a path of a scope. -/
def NamesScopePath (document : List (Value × Value)) (text : String) : Prop :=
  ∃ items item, (listedScopes document).shape = .list items ∧ item ∈ items ∧
    ∃ v ∈ (ScopeEntry.ofValue item).path.values, v.shape = .str text

/-- The document names the text as a path to search for imports. -/
def NamesIncludePath (document : List (Value × Value)) (text : String) : Prop :=
  ∃ texts, textsOf (field (compilerEntries document) "include_paths") = some texts ∧ text ∈ texts

/-- The values of a document for which texts are asked. -/
def textValues (document : List (Value × Value)) : List Value :=
  let entries := compilerEntries document
  [field entries "output_style", field entries "additional_data"]
    ++ (field entries "include_paths").items?.getD []

/-- The faults, other than those of settings, that a document can be refused for. -/
inductive Escapes (host : Host) (document : List (Value × Value)) : Fault → Prop where
  | path {text : String} {f : FileFailure}
    (hnamed : NamesScopePath document text ∨ NamesIncludePath document text)
    (hexpand : host.expand (Path.ofString text) = .error f) : Escapes host document (.file f)
  | number {v : Value} (hmem : v ∈ textValues document) (hlong : v.IsOverlong) :
    Escapes host document .unwritableNumber

theorem isOverlong_of_text?_eq_none {v : Value} {i : Int} (h : v.shape = .int i)
    (htext : v.text? = none) : v.IsOverlong := by
  refine ⟨i, h, Nat.lt_of_not_le fun hshort => ?_⟩
  obtain ⟨text, hi⟩ := Value.exists_decimalText? hshort
  simp [Value.text?, Value.shown?, Value.shownInside, h, hi, Shape.isScalar] at htext

theorem isOverlong_of_itemText_eq_none {v : Value} (h : itemText v = none) : v.IsOverlong := by
  unfold itemText textOf at h
  split at h
  · next b hb =>
    cases b <;> simp [Value.text?, Value.shown?, Value.shownInside, hb, Shape.isScalar] at h
  · split at h
    · cases h
    · next i hi => exact isOverlong_of_text?_eq_none hi (Option.map_eq_none_iff.1 h)
    · next x hx =>
      simp [Value.text?, Value.shown?, Value.shownInside, hx, Shape.isScalar] at h
    · cases h

theorem isOverlong_of_textOf_eq_none {v : Value} (h : textOf v = none) : v.IsOverlong := by
  refine isOverlong_of_itemText_eq_none ?_
  unfold itemText
  split
  · next b hb => simp [textOf, hb] at h
  · exact h

theorem isOverlong_of_itemTexts_eq_none {vs : List Value} (h : itemTexts vs = none) :
    ∃ v ∈ vs, v.IsOverlong := by
  induction vs with
  | nil => cases h
  | cons v vs ih =>
    rw [List.exists_mem_cons_iff]
    cases hv : itemText v with
    | none => exact Or.inl (isOverlong_of_itemText_eq_none hv)
    | some text =>
      cases hvs : itemTexts vs with
      | none => exact Or.inr (ih hvs)
      | some texts => simp [itemTexts, hv, hvs] at h

theorem isOverlong_of_textsOf_eq_none {v : Value} (h : textsOf v = none) :
    ∃ u ∈ v.items?.getD [], u.IsOverlong := by
  unfold textsOf at h
  split at h
  · cases h
  · cases h
  · split at h
    · next items hitems =>
      rw [hitems]
      exact isOverlong_of_itemTexts_eq_none h
    · cases h

theorem placeValue_eq_error {v : Value} {e : Fault} (h : placeValue host root v = .error e) :
    ∃ text f, v.shape = .str text ∧ host.expand (Path.ofString text) = .error f ∧ e = .file f := by
  unfold placeValue at h
  split at h
  · next text htext =>
    split at h
    · cases h
    · obtain ⟨f, hf, he⟩ := placePath_eq_error (Outcome.map_eq_error.1 h)
      exact ⟨text, f, htext, hf, he⟩
  · cases h

theorem readScope_eq_error {item : Value} {e : Fault} (h : readScope host root item = .error e) :
    ∃ v ∈ (ScopeEntry.ofValue item).path.values, placeValue host root v = .error e := by
  have hpath := Outcome.map_eq_error.1 h
  generalize (ScopeEntry.ofValue item).path = path at hpath ⊢
  cases path with
  | one v => exact ⟨v, List.mem_singleton.2 rfl, Outcome.map_eq_error.1 hpath⟩
  | many items =>
    have hitems := Outcome.map_eq_error.1 hpath
    rw [placeValues_eq_mapM] at hitems
    exact Outcome.exists_of_mapM_eq_error hitems

def readListed (host : Host) (root : Path) : Shape Value → Except Fault (Option (List ScopeEntry))
  | .null => .ok none
  | .list items => (readScopes host root items).map some
  | _ => .error (.settings .scopesNotList)

theorem scopesSection_eq (host : Host) (root : Path) (document : List (Value × Value)) :
    scopesSection host root document = readListed host root (listedScopes document).shape := rfl

theorem scopesSection_eq_error {document : List (Value × Value)} {e : Fault}
    (h : scopesSection host root document = .error e) :
    (∃ f, e = .settings f) ∨ Escapes host document e := by
  rw [scopesSection_eq] at h
  unfold readListed at h
  split at h
  · cases h
  · next items hitems =>
    have hscopes := Outcome.map_eq_error.1 h
    rw [readScopes_eq_mapM] at hscopes
    obtain ⟨item, hitem, hread⟩ := Outcome.exists_of_mapM_eq_error hscopes
    obtain ⟨v, hv, hplace⟩ := readScope_eq_error hread
    obtain ⟨text, f, htext, hexpand, rfl⟩ := placeValue_eq_error hplace
    exact Or.inr (.path (Or.inl ⟨items, item, hitems, hitem, v, hv, htext⟩) hexpand)
  · exact Or.inl ⟨_, (Except.error.inj h).symm⟩

theorem readText_eq_error {v : Value} {e : Fault} (h : readText v = .error e) :
    v.IsOverlong ∧ e = .unwritableNumber := by
  unfold readText at h
  split at h
  · cases h
  · next hnone => exact ⟨isOverlong_of_textOf_eq_none hnone, (Except.error.inj h).symm⟩

theorem readStyle_eq_error {name : Option String} {e : Fault} (h : readStyle name = .error e) :
    ∃ f, e = .settings f := by
  unfold readStyle at h
  split at h
  · cases h
  · split at h
    · cases h
    · exact ⟨_, (Except.error.inj h).symm⟩

theorem readWorkers_eq_error {v : Value} {e : Fault} (h : readWorkers v = .error e) :
    ∃ f, e = .settings f := by
  unfold readWorkers at h
  split at h
  · split at h
    · exact ⟨_, (Except.error.inj h).symm⟩
    · cases h
  · cases h

/-! ## The section of the compiler -/

/-- The texts of a list, or the fault of one with a number that is too long. -/
def readTexts (v : Value) : Except Fault (List String) :=
  match textsOf v with
  | some texts => .ok texts
  | none => .error .unwritableNumber

/-- The section of the compiler as steps one after another. -/
theorem compilerSection_eq (v : Value) :
    compilerSection host root v = (do
      let name ← readText (field v.entries "output_style")
      let outputStyle ← readStyle name
      let includeTexts ← readTexts (field v.entries "include_paths")
      let includePaths ← placePaths host root includeTexts
      let additionalData ← readText (field v.entries "additional_data")
      pure {
        outputStyle, includePaths, additionalData
        precision := wholeOf (field v.entries "precision")
        sourceMap := (truthOf (field v.entries "source_map")).getD false
        indented := truthOf (field v.entries "indented") }) := by
  unfold compilerSection readTexts
  dsimp only
  cases textsOf (field v.entries "include_paths") <;> rfl

theorem compilerSection_eq_error {document : List (Value × Value)} {e : Fault}
    (h : compilerSection host root (field document "compiler") = .error e) :
    (∃ f, e = .settings f) ∨ Escapes host document e := by
  rw [compilerSection_eq] at h
  rcases Outcome.bind_eq_error.1 h with hname | ⟨name, -, h⟩
  · obtain ⟨hlong, rfl⟩ := readText_eq_error hname
    exact Or.inr (.number (by simp [textValues, compilerEntries]) hlong)
  rcases Outcome.bind_eq_error.1 h with hstyle | ⟨style, -, h⟩
  · exact Or.inl (readStyle_eq_error hstyle)
  rcases Outcome.bind_eq_error.1 h with htexts | ⟨texts, htexts, h⟩
  · unfold readTexts at htexts
    split at htexts
    · cases htexts
    · next hnone =>
      obtain rfl := Except.error.inj htexts
      obtain ⟨u, hu, hlong⟩ := isOverlong_of_textsOf_eq_none hnone
      exact Or.inr (.number (List.mem_append_right _ hu) hlong)
  rcases Outcome.bind_eq_error.1 h with hpaths | ⟨paths, -, h⟩
  · rw [placePaths_eq_mapM] at hpaths
    obtain ⟨text, htext, hplace⟩ := Outcome.exists_of_mapM_eq_error hpaths
    obtain ⟨f, hexpand, rfl⟩ := placePath_eq_error hplace
    refine Or.inr (.path (Or.inr ⟨texts, ?_, htext⟩) hexpand)
    unfold readTexts at htexts
    split at htexts
    · next hsome => exact hsome.trans (congrArg some (Except.ok.inj htexts))
    · cases htexts
  rcases Outcome.bind_eq_error.1 h with hdata | ⟨data, -, h⟩
  · obtain ⟨hlong, rfl⟩ := readText_eq_error hdata
    exact Or.inr (.number (by simp [textValues, compilerEntries]) hlong)
  · cases h

/-- A document that is refused is refused for a fault of settings, or for a path without a home or a
number of too many digits in it. -/
theorem ofValue_eq_error {v : Value} {e : Fault} (h : ofValue host root v = .error e) :
    (∃ f, e = .settings f) ∨ ∃ document, v.shape = .mapping document ∧ Escapes host document e := by
  unfold ofValue at h
  split at h
  · cases h
  · next document hdocument =>
    suffices hsections : (∃ f, e = .settings f) ∨ Escapes host document e from
      hsections.imp_right fun hescapes => ⟨document, hdocument, hescapes⟩
    rcases Outcome.bind_eq_error.1 h with hscopes | ⟨scopes, -, h⟩
    · exact scopesSection_eq_error hscopes
    rcases Outcome.bind_eq_error.1 h with hoptions | ⟨options, -, h⟩
    · exact compilerSection_eq_error hoptions
    rcases Outcome.bind_eq_error.1 h with hworkers | ⟨workers, -, h⟩
    · exact Or.inl (readWorkers_eq_error hworkers)
    · cases h
  · exact Or.inl ⟨_, (Except.error.inj h).symm⟩

end Settings

end ThemedSheets
