import ThemedSheets.Proofs.Settings.Sections
import ThemedSheets.Settings.File
import ThemedSheets.Yaml.Document
/- How loading a settings file ends, with any reader of documents. The file is found at a tidy rooted
   path, so what its document holds is placed in a tidy rooted directory. Where the file can be read,
   loading returns settings or ends with a fault of settings, but for three things: the reader does not
   only find the text malformed, a path names no home directory, or a text is asked for where a number
   has too many digits. -/
namespace ThemedSheets
open ThemedSheets.Text ThemedSheets.Yaml

namespace Settings
variable {reader : Reader} {host : Host} {path : String} {file : Path}

theorem ofFile_eq_ok {α : Type} {x : Except FileFailure α} {a : α} (h : ofFile x = .ok a) :
    x = .ok a := by
  cases x with
  | error e => cases h
  | ok b => exact congrArg _ (Except.ok.inj h)

theorem isTidy_locate (h : locate host path = .ok file) : file.IsTidy ∧ file.isRooted := by
  obtain ⟨p, hp, h⟩ := Outcome.bind_eq_ok.1 h
  obtain ⟨isDirectory, -, h⟩ := Outcome.bind_eq_ok.1 h
  have hexpanded := Host.isTidy_expand (Path.isTidy_ofString path) hp
  refine Host.isTidy_resolve ?_ h
  split
  · exact hexpanded.append (Path.isTidy_ofString settingsFileName)
  · exact hexpanded

theorem exists_ofValue_of_load {s : Settings} (h : load reader host path = .ok s) :
    ∃ root v, root.IsTidy ∧ root.isRooted ∧ ofValue host root v = .ok s := by
  obtain ⟨file, hfile, h⟩ := Outcome.bind_eq_ok.1 h
  obtain ⟨htidy, hrooted⟩ := isTidy_locate (ofFile_eq_ok hfile)
  obtain ⟨isThere, -, h⟩ := Outcome.bind_eq_ok.1 h
  cases isThere with
  | false => exact ⟨file.parent, .nothing, htidy.parent, hrooted, h⟩
  | true =>
    obtain ⟨text, -, h⟩ := Outcome.bind_eq_ok.1 h
    obtain ⟨v, -, h⟩ := Outcome.bind_eq_ok.1 h
    exact ⟨file.parent, v, htidy.parent, hrooted, h⟩

/-! ## Files that can be read -/

section
variable {text : String} (hfile : locate host path = .ok file)
  (hthere : host.test file (fun _ => true) = .ok true)
  (htext : host.readText .utf8 file = .ok text)
include hfile hthere htext

theorem load_of_readable :
    load reader host path = readDocument reader file.name text >>= ofValue host file.parent := by
  unfold load
  rw [hfile]
  change (ofFile (host.test file fun _ => true) >>= _) = _
  rw [hthere]
  change (ofFile (host.readText .utf8 file) >>= _) = _
  rw [htext]
  rfl

variable (reader) in
theorem load_cases :
    (∃ s, load reader host path = .ok s) ∨ (∃ f, load reader host path = .error (.settings f)) ∨
      (∃ e, reader text = .error e ∧ e ≠ .malformed ∧
        load reader host path = .error (.document e)) ∨
      ∃ v document fault, reader text = .ok v ∧ v.shape = .mapping document ∧
        Escapes host document fault ∧ load reader host path = .error fault := by
  rw [load_of_readable hfile hthere htext]
  cases hread : readDocument reader file.name text with
  | error e =>
    unfold readDocument at hread
    split at hread
    · cases hread
    · split at hread
      · cases hread
      · exact Or.inr (Or.inl ⟨_, congrArg _ (Except.error.inj hread).symm⟩)
      · next e hne he =>
        exact Or.inr (Or.inr (Or.inl ⟨e, he, hne, congrArg _ (Except.error.inj hread).symm⟩))
  | ok v =>
    cases hvalue : ofValue host file.parent v with
    | ok s => exact Or.inl ⟨s, hvalue⟩
    | error e =>
      rcases ofValue_eq_error hvalue with ⟨f, rfl⟩ | ⟨document, hdocument, hescapes⟩
      · exact Or.inr (Or.inl ⟨f, hvalue⟩)
      · unfold readDocument at hread
        split at hread
        · -- an empty text holds no mapping
          obtain rfl := Except.ok.inj hread
          cases hdocument
        · split at hread
          · next w hw =>
            obtain rfl := Except.ok.inj hread
            exact Or.inr (Or.inr (Or.inr ⟨w, document, e, hw, hdocument, hescapes, hvalue⟩))
          · cases hread
          · cases hread

end

/-- A reader that gives up on a text only as malformed, or for a value that is spelled and that there
is not. -/
def Reader.FailsAsKnown (reader : Reader) (text : String) : Prop :=
  ∀ e, reader text = .error e → e = .malformed ∨ e = .noSuchValue

/-- **What can keep a settings file from being loaded.** Whatever reads documents, a settings file
whose bytes are the UTF-8 of a text gives settings, or is refused with a fault of settings. What else
can end the loading comes from its document: the reader gives up for another reason than a malformed
text, or a mapping is read in which a path begins with a home directory that is not known, or in which
a number of too many digits stands where a text is asked for. With a reader that fails as known, every
text in which no such value is spelled is loaded or refused with a fault of settings, unless its
mapping has such a path or number. -/
theorem load_ends {text : String} (hfile : locate host path = .ok file)
    (hthere : host.test file (fun _ => true) = .ok true)
    (htext : host.readText .utf8 file = .ok text) (reader : Reader) :
    ((∃ s, load reader host path = .ok s) ∨ (∃ f, load reader host path = .error (.settings f)) ∨
      (∃ e, reader text = .error e ∧ e ≠ .malformed ∧
        load reader host path = .error (.document e)) ∨
      ∃ v document fault, reader text = .ok v ∧ v.shape = .mapping document ∧
        Escapes host document fault ∧ load reader host path = .error fault) ∧
    (reader.FailsAsKnown text → reader text ≠ .error .noSuchValue →
      (∀ v document fault, reader text = .ok v → v.shape = .mapping document →
        ¬ Escapes host document fault) →
      (∃ s, load reader host path = .ok s) ∨
        ∃ f, load reader host path = .error (.settings f)) := by
  have hcases := load_cases reader hfile hthere htext
  refine ⟨hcases, fun hknown hvalue hescapes => ?_⟩
  rcases hcases with hok | hsettings | ⟨e, he, hne, -⟩ | ⟨v, document, fault, hv, hdocument, hbad, -⟩
  · exact Or.inl hok
  · exact Or.inr hsettings
  · rcases hknown e he with rfl | rfl
    · exact absurd rfl hne
    · exact absurd he hvalue
  · exact absurd hbad (hescapes v document fault hv hdocument)

theorem not_escapes {document : List (Value × Value)} {fault : Fault}
    (hscopes : Value.field? document "scopes" = none)
    (hvars : Value.field? document "multipleScopeVars" = none)
    (hcompiler : Value.field? document "compiler" = none) : ¬ Escapes host document fault := by
  have hlisted : listedScopes document = .nothing := by
    rw [listedScopes, hscopes, field, hvars]
    rfl
  have hentries : compilerEntries document = [] := by
    rw [compilerEntries, field, hcompiler]
    rfl
  rintro (⟨hscope | hinclude, -⟩ | ⟨hmem, i, hi, -⟩)
  · obtain ⟨items, item, hitems, -⟩ := hscope
    rw [hlisted] at hitems
    cases hitems
  · obtain ⟨texts, htexts, hmem⟩ := hinclude
    rw [hentries] at htexts
    obtain rfl := Option.some.inj htexts
    cases hmem
  · have hnothing : textValues document = [.nothing, .nothing] := by
      rw [textValues, hentries]
      rfl
    rw [hnothing] at hmem
    rcases List.mem_pair.1 hmem with rfl | rfl
    · cases hi
    · cases hi

/-- A date in a month that has no such day, and a number of workers. -/
theorem load_ends_of_no_such_date :
    let host (text : String) : Host := {
      disk := ⟨[([".scopedsass.yml"], .file text.toByteArray)]⟩, directory := "/", home := "/h" }
    let file : Path := ⟨1, [".scopedsass.yml"]⟩
    let date := "a: 2001-02-30"
    let workers := "max_workers: 2"
    (∀ text ∈ [date, workers], locate (host text) "/" = .ok file ∧
      (host text).test file (fun _ => true) = .ok true ∧
      (host text).readText .utf8 file = .ok text) ∧
    load Yaml.read (host date) "/" = .error (.document .noSuchValue) ∧
    Reader.FailsAsKnown Yaml.read workers ∧ Yaml.read workers ≠ .error .noSuchValue ∧
    (∀ v document fault, Yaml.read workers = .ok v → v.shape = .mapping document →
      ¬ Escapes (host workers) document fault) ∧
    ∃ s, load Yaml.read (host workers) "/" = .ok s ∧ s.maxWorkers = some 2 := by
  intro host file date workers
  have hfiles : ∀ text ∈ [date, workers], locate (host text) "/" = .ok file ∧
      (host text).test file (fun _ => true) = .ok true ∧
      (host text).readText .utf8 file = .ok text := by
    decide +kernel
  obtain ⟨hfile, hthere, htext⟩ := hfiles date List.mem_cons_self
  obtain ⟨hfile', hthere', htext'⟩ := hfiles workers (List.mem_cons_of_mem _ List.mem_cons_self)
  have hblank : trim date.toList ≠ [] := by decide +kernel
  have hread : Yaml.read date = .error .noSuchValue := Outcome.eq_error (by decide +kernel)
  have hdate : load Yaml.read (host date) "/" = .error (.document .noSuchValue) := by
    rw [load_of_readable hfile hthere htext, readDocument, if_neg hblank, hread]
    rfl
  obtain ⟨v, hv, hfields⟩ := Outcome.exists_of_any (x := Yaml.read workers)
    (p := fun v => ["scopes", "multipleScopeVars", "compiler"].all fun name =>
      (Value.field? v.entries name).isNone) (by decide +kernel)
  have hknown : Reader.FailsAsKnown Yaml.read workers := by
    intro e he
    cases hv.symm.trans he
  have hvalue : Yaml.read workers ≠ .error .noSuchValue := by
    intro he
    cases hv.symm.trans he
  have hnone : ∀ w document fault, Yaml.read workers = .ok w → w.shape = .mapping document →
      ¬ Escapes (host workers) document fault := by
    intro w document fault hw hdocument
    obtain rfl := Except.ok.inj (hv.symm.trans hw)
    have hentries : v.entries = document := by rw [Value.entries, hdocument]
    simp only [hentries, List.all_cons, List.all_nil, Bool.and_true, Bool.and_eq_true,
      Option.isNone_iff_eq_none] at hfields
    exact not_escapes hfields.1 hfields.2.1 hfields.2.2
  have hloaded : (load Yaml.read (host workers) "/").toOption.map (·.maxWorkers)
      = some (some 2) := by decide +kernel
  refine ⟨hfiles, hdate, hknown, hvalue, hnone, ?_⟩
  rcases (load_ends hfile' hthere' htext' Yaml.read).2 hknown hvalue hnone with ⟨s, h⟩ | ⟨f, h⟩
  · rw [h] at hloaded
    exact ⟨s, h, Option.some.inj hloaded⟩
  · rw [h] at hloaded
    cases hloaded

def fileFailure? : Fault → Option FileFailure
  | .file f => some f
  | _ => none

/-- Settings that name a path of a scope below the home directory of an unknown account are neither
loaded nor refused with a fault of settings. -/
theorem load_ends_in_no_home :
    let host : Host := {
      disk := ⟨[([".scopedsass.yml"], .file "scopes: [path: ~x/a]".toByteArray)]⟩
      directory := "/", home := "/h" }
    let file : Path := ⟨1, [".scopedsass.yml"]⟩
    locate host "/" = .ok file ∧ host.test file (fun _ => true) = .ok true ∧
      host.readText .utf8 file = .ok "scopes: [path: ~x/a]" ∧
      ¬ ((∃ s, load Yaml.read host "/" = .ok s) ∨
        ∃ f, load Yaml.read host "/" = .error (.settings f)) := by
  intro host file
  have hfile : locate host "/" = .ok file := by decide +kernel
  have hthere : host.test file (fun _ => true) = .ok true := by decide +kernel
  have htext : host.readText .utf8 file = .ok "scopes: [path: ~x/a]" := by decide +kernel
  have hends : (Outcome.fault? (load Yaml.read host "/")).bind fileFailure? = some .noHome := by
    decide +kernel
  refine ⟨hfile, hthere, htext, ?_⟩
  rintro (⟨s, h⟩ | ⟨f, h⟩)
  · rw [h] at hends
    cases hends
  · rw [h] at hends
    cases hends

end Settings

end ThemedSheets
