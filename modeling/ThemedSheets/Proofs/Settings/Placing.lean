import ThemedSheets.Proofs.Scope.Reports
import ThemedSheets.Proofs.Settings.Sections
/- Placing and validation. Settings take the paths of scopes from their root before validation sees
   them. That changes no verdict: seen through a file system that has a path exactly where the files
   have the placed one, the entries of a document are kept and dropped as the placed ones are
   (`check_alike`), and so on through a whole run of validation (`validate_alike`). The reason is that
   placing leaves every value that is no path as it is, and that a placed path is never empty. -/
namespace ThemedSheets

theorem Path.toString_ne_empty (p : Path) : p.toString ≠ "" := by
  rw [Path.toString, ne_eq, String.ofList_eq_empty_iff]
  unfold Path.assemble
  split
  · exact List.cons_ne_nil _ _
  · assumption

namespace Settings
open ThemedSheets.Yaml ThemedSheets.Validation
variable {host : Host} {root : Path}

/-! ## Placed values -/

theorem placePath_ne_empty {p q : String} (h : placePath host root p = .ok q) : q ≠ "" := by
  unfold placePath at h
  split at h
  · obtain rfl := Except.ok.inj h
    exact Path.toString_ne_empty _
  · cases h

theorem exists_placePath_iff {p : String} :
    (∃ q, placePath host root p = .ok q) ↔ ∃ q, host.expand (Path.ofString p) = .ok q := by
  unfold placePath
  cases host.expand (Path.ofString p) <;> simp

theorem placeValue_eq_ok {v w : Value} (h : placeValue host root v = .ok w) :
    (w = v ∧ ∀ p, v.shape = .str p → p = "") ∨
      ∃ p q, v.shape = .str p ∧ p ≠ "" ∧ placePath host root p = .ok q ∧ w = .ofText q := by
  unfold placeValue at h
  split at h
  · next p hp =>
    split at h
    · next hempty =>
      obtain rfl := Except.ok.inj h
      refine .inl ⟨rfl, fun q hq => ?_⟩
      rwa [← Shape.str.inj (hp.symm.trans hq)]
    · next hne =>
      obtain ⟨q, hq, rfl⟩ := Outcome.map_eq_ok.1 h
      exact .inr ⟨p, q, hp, hne, hq, rfl⟩
  · next hno =>
    obtain rfl := Except.ok.inj h
    exact .inl ⟨rfl, fun p hp => absurd hp (hno p)⟩

/-- Entries can be placed exactly where the homes of all their paths are known. -/
theorem exists_readScopes_iff {vs : List Value} :
    (∃ placed, readScopes host root vs = .ok placed) ↔
      ∀ v ∈ vs, ∀ w ∈ (ScopeEntry.ofValue v).path.values, ∀ p, w.shape = .str p →
        ∃ q, host.expand (Path.ofString p) = .ok q := by
  constructor
  · rintro ⟨placed, h⟩ v hv w hw p hp
    rw [readScopes_eq_mapM, Outcome.mapM_eq_ok_iff] at h
    obtain ⟨entry, hentry⟩ := Outcome.exists_forall₂_iff.1 ⟨placed, h⟩ v hv
    obtain ⟨path, hpath, -⟩ := Outcome.map_eq_ok.1 hentry
    have hplaced : ∃ w', placeValue host root w = .ok w' := by
      generalize (ScopeEntry.ofValue v).path = asked at hw hpath
      cases asked with
      | one u =>
        obtain rfl := List.mem_singleton.1 hw
        obtain ⟨w', hw', -⟩ := Outcome.map_eq_ok.1 hpath
        exact ⟨w', hw'⟩
      | many items =>
        obtain ⟨ws, hws, -⟩ := Outcome.map_eq_ok.1 hpath
        rw [placeValues_eq_mapM, Outcome.mapM_eq_ok_iff] at hws
        exact Outcome.exists_forall₂_iff.1 ⟨ws, hws⟩ w hw
    obtain ⟨w', hw'⟩ := hplaced
    rcases placeValue_eq_ok hw' with ⟨-, hempty⟩ | ⟨p', q, hp', -, hq, -⟩
    · -- the empty text is not placed, and has no home to be known
      rw [hempty p hp]
      exact ⟨_, rfl⟩
    · obtain rfl := Shape.str.inj (hp.symm.trans hp')
      exact exists_placePath_iff.1 ⟨q, hq⟩
  · intro h
    cases hread : readScopes host root vs with
    | ok placed => exact ⟨placed, rfl⟩
    | error e =>
      rw [readScopes_eq_mapM] at hread
      obtain ⟨v, hv, hentry⟩ := Outcome.exists_of_mapM_eq_error hread
      obtain ⟨w, hw, hvalue⟩ := readScope_eq_error hentry
      obtain ⟨p, f, hp, hexpand, -⟩ := placeValue_eq_error hvalue
      obtain ⟨q, hq⟩ := h v hv w hw p hp
      rw [hexpand] at hq
      cases hq

/-- The second path is the first, which is not empty, taken from the root. -/
def PlacesTo (host : Host) (root : Path) (p q : String) : Prop :=
  p ≠ "" ∧ placePath host root p = .ok q

/-! ## Verdicts -/

def placeScopePath (host : Host) (root : Path) : ScopePath → Except Fault ScopePath
  | .one p => (placePath host root p).map .one
  | .many ps => (placePaths host root ps).map .many

/-- The second scope has the name of the first, and its path and files taken from the root. -/
structure IsPlacedScope (host : Host) (root : Path) (s t : Scope) : Prop where
  named : s.name ≠ ""
  name : t.name = s.name
  path : placeScopePath host root s.path = .ok t.path
  paths : placePaths host root s.paths = .ok t.paths

/-- Two diagnostics tell of entries of one name. -/
def TellsSameName (d d' : Diagnostic) : Prop := d'.scope = d.scope

/-- The same verdict on an entry and on the placed one: both give a scope, the second that of the
first placed, or both are told of, as many times and under the same name. -/
inductive SameVerdict (host : Host) (root : Path) :
    Option Scope × List Diagnostic → Option Scope × List Diagnostic → Prop where
  | kept {s t : Scope} (h : IsPlacedScope host root s t) :
    SameVerdict host root (some s, []) (some t, [])
  | dropped {ds ds' : List Diagnostic} (hne : ds ≠ [])
    (h : List.Forall₂ TellsSameName ds ds') : SameVerdict host root (none, ds) (none, ds')

theorem isPlacedScope_one {name p q : String} (hname : name ≠ "") (h : PlacesTo host root p q) :
    IsPlacedScope host root ⟨name, .one p⟩ ⟨name, .one q⟩ where
  named := hname
  name := rfl
  path := Outcome.map_eq_ok.2 ⟨q, h.2, rfl⟩
  paths := by
    simp only [Scope.paths, if_neg h.1, if_neg (placePath_ne_empty h.2)]
    rw [placePaths_eq_mapM, Outcome.mapM_eq_ok_iff]
    exact .cons h.2 .nil

theorem isPlacedScope_many {name : String} {ps qs : List String} (hname : name ≠ "")
    (h : List.Forall₂ (PlacesTo host root) ps qs) :
    IsPlacedScope host root ⟨name, .many ps⟩ ⟨name, .many qs⟩ := by
  have hplaced : placePaths host root ps = .ok qs := by
    rw [placePaths_eq_mapM, Outcome.mapM_eq_ok_iff]
    exact h.imp fun _ _ hpq => hpq.2
  have hps : ps.filter (· ≠ "") = ps := List.filter_eq_self.2 fun p hp => by
    obtain ⟨q, hq⟩ := Outcome.exists_forall₂_iff.1 ⟨qs, h⟩ p hp
    exact decide_eq_true hq.1
  have hqs : qs.filter (· ≠ "") = qs := List.filter_eq_self.2 fun q hq => by
    obtain ⟨p, hp⟩ := Outcome.exists_forall₂_iff.1 ⟨ps, h.flip⟩ q hq
    exact decide_eq_true (placePath_ne_empty hp.2)
  refine ⟨hname, rfl, Outcome.map_eq_ok.2 ⟨qs, hplaced, rfl⟩, ?_⟩
  simpa only [Scope.paths, hps, hqs] using hplaced

/-- The scopes and the diagnostics that are found among entries and among the placed ones: each scope of
the second is the one of the first placed, and each diagnostic tells of the same name. -/
def SameFound (host : Host) (root : Path) (r r' : List Scope × List Diagnostic) : Prop :=
  List.Forall₂ (IsPlacedScope host root) r.1 r'.1 ∧ List.Forall₂ TellsSameName r.2 r'.2

/-- Two reports, one on entries and one on the placed ones: both fall back, or the scopes of the second
are those of the first, placed; and as many diagnostics tell of the same names. -/
structure SameReport (host : Host) (root : Path) (r r' : ValidationReport) : Prop where
  fallback : r'.isFallback = r.isFallback
  unscoped : r.isFallback = true → r'.scopes = r.scopes
  scopes : r.isFallback = false → List.Forall₂ (IsPlacedScope host root) r.scopes r'.scopes
  told : List.Forall₂ TellsSameName r.diagnostics r'.diagnostics

/-- Two lists of entries of which the second has the paths of the first placed. -/
def ArePlaced (host : Host) (root : Path) : List ScopeEntry → List ScopeEntry → Prop :=
  List.Forall₂ fun entry placed =>
    ∃ path, placeRequested host root entry.path = .ok path ∧ placed = { entry with path }

theorem sameReport_ofFound {scopes placed : List Scope} {ds ds' : List Diagnostic}
    (hscopes : List.Forall₂ (IsPlacedScope host root) scopes placed)
    (htold : List.Forall₂ TellsSameName ds ds') :
    SameReport host root (.ofFound scopes ds) (.ofFound placed ds') := by
  cases hscopes with
  | nil => exact ⟨rfl, fun _ => rfl, (by rintro ⟨⟩), htold⟩
  | @cons s t rest rest' hst hrest =>
    have hnames : ∀ u ∈ s :: rest, u.name ≠ "" := fun u hu => by
      obtain ⟨v, huv⟩ := Outcome.exists_forall₂_iff.1 ⟨_, List.Forall₂.cons hst hrest⟩ u hu
      exact huv.named
    have hnames' : ∀ v ∈ t :: rest', v.name ≠ "" := fun v hv => by
      obtain ⟨u, huv⟩ := Outcome.exists_forall₂_iff.1 ⟨_, (List.Forall₂.cons hst hrest).flip⟩ v hv
      rw [huv.name]
      exact huv.named
    have hraw : (ValidationReport.ofFound (s :: rest) ds).isFallback = false := by
      simpa using ValidationReport.isFallback_ofFound hnames ds
    have hplaced : (ValidationReport.ofFound (t :: rest') ds').isFallback = false := by
      simpa using ValidationReport.isFallback_ofFound hnames' ds'
    refine ⟨hplaced.trans hraw.symm, fun h => ?_, fun _ => .cons hst hrest, htold⟩
    rw [hraw] at h
    cases h

section
variable {before files : FileSystem}
  (hbefore : ∀ p q, p ≠ "" → placePath host root p = .ok q → before.hasFile p = files.hasFile q)
include hbefore

/-! ## One value -/

theorem filePath?_alike {v w : Value} (h : placeValue host root v = .ok w) :
    Outcome.Alike (Option.Rel (PlacesTo host root)) (filePath? before v) (filePath? files w) := by
  rcases placeValue_eq_ok h with ⟨rfl, hempty⟩ | ⟨p, q, hp, hne, hq, rfl⟩
  · have hnone : ∀ files : FileSystem, filePath? files w = .ok none := fun files =>
      filePath?_eq_none_iff.2 (leadsNowhere_of_blank hempty)
    rw [hnone, hnone]
    exact .value .none
  · simp only [filePath?, hp, Value.shape_ofText, if_neg hne, if_neg (placePath_ne_empty hq),
      hbefore p q hne hq]
    cases files.hasFile q with
    | error e => exact .fault _
    | ok found =>
      cases found with
      | false => exact .value .none
      | true => exact .value (.some ⟨hne, hq⟩)

omit hbefore in
/-- Of a value and of the placed one a diagnostic can be told under the same conditions. -/
theorem missing_alike {v w : Value} (h : placeValue host root v = .ok w) (scope : String)
    (named : Value → Except Fault (Option String))
    (hnamed : ∀ (v : Value) p, v.shape = .str p → ∃ path, named v = .ok path) :
    Outcome.Alike TellsSameName (missing scope v named) (missing scope w named) := by
  rcases placeValue_eq_ok h with ⟨rfl, -⟩ | ⟨p, q, hp, -, -, rfl⟩
  · exact .refl (R := TellsSameName) (fun _ => rfl) _
  · have htext : ∀ (v : Value) p, v.shape = .str p → ∃ d, missing scope v named = .ok d ∧
        d.scope = scope := fun v p hp => by
      obtain ⟨path, hpath⟩ := hnamed v p hp
      exact ⟨_, by rw [missing, shown, Value.text?, hp, hpath]; rfl, rfl⟩
    obtain ⟨d, hd, hscope⟩ := htext v p hp
    obtain ⟨d', hd', hscope'⟩ := htext (.ofText q) q rfl
    rw [hd, hd']
    exact .value (hscope'.trans hscope.symm)

/-! ## One entry -/

theorem checkItems_alike (scope : String) {items placed : List Value}
    (h : List.Forall₂ (fun v w => placeValue host root v = .ok w) items placed) :
    Outcome.Alike (fun r r' => List.Forall₂ (PlacesTo host root) r.1 r'.1 ∧
        List.Forall₂ TellsSameName r.2 r'.2)
      (checkItems before scope items) (checkItems files scope placed) := by
  induction h with
  | nil => exact .value ⟨.nil, .nil⟩
  | @cons v w items placed hv _ ih =>
    have hpath := filePath?_alike hbefore hv
    have hmissing := missing_alike hv scope itemPath fun v p hp =>
      ⟨some p, by simp only [itemPath, shown, Value.text?, hp]; rfl⟩
    rw [checkItems, checkItems]
    -- the answers about a value and the placed one are alike, so both checks take one branch
    generalize filePath? before v = found at hpath ⊢
    generalize filePath? files w = found' at hpath ⊢
    cases hpath with
    | fault e => exact .fault e
    | value hfound =>
      cases hfound with
      | some hpq => exact ih.map fun r r' hr => ⟨.cons hpq hr.1, hr.2⟩
      | none =>
        generalize missing scope v itemPath = told at hmissing ⊢
        generalize missing scope w itemPath = told' at hmissing ⊢
        cases hmissing with
        | fault e => exact .fault e
        | value hd => exact ih.map fun r r' hr => ⟨hr.1, .cons hd hr.2⟩

/-- Placing the path of an entry does not change the verdict on it. -/
theorem check_alike {entry : ScopeEntry} {path : RequestedPath}
    (h : placeRequested host root entry.path = .ok path) :
    Outcome.Alike (SameVerdict host root) (check before entry)
      (check files { entry with path }) := by
  by_cases hnamed : ∃ name, entry.IsNamed name
  · obtain ⟨name, hname⟩ := hnamed
    have hname' : ScopeEntry.IsNamed { entry with path } name := hname
    cases hasked : entry.path with
    | one v =>
      rw [hasked] at h
      obtain ⟨w, hw, rfl⟩ := Outcome.map_eq_ok.1 h
      have hpath := filePath?_alike hbefore hw
      have hmissing := missing_alike hw name singlePath fun v _ _ => ⟨_, singlePath_eq v⟩
      rw [check_of_one hname hasked, check_of_one hname' rfl]
      generalize filePath? before v = found at hpath ⊢
      generalize filePath? files w = found' at hpath ⊢
      cases hpath with
      | fault e => exact .fault e
      | value hfound =>
        cases hfound with
        | some hpq => exact .value (.kept (isPlacedScope_one hname.2 hpq))
        | none =>
          exact hmissing.map fun d d' hd => .dropped (List.cons_ne_nil _ _) (.cons hd .nil)
    | many items =>
      rw [hasked] at h
      obtain ⟨placed, hplaced, rfl⟩ := Outcome.map_eq_ok.1 h
      rw [placeValues_eq_mapM, Outcome.mapM_eq_ok_iff] at hplaced
      have hitems := checkItems_alike hbefore name hplaced
      rw [check_of_many hname hasked, check_of_many hname' rfl]
      generalize checkItems before name items = result at hitems ⊢
      generalize checkItems files name placed = result' at hitems ⊢
      cases hitems with
      | fault e => exact .fault e
      | @value r r' hr =>
        obtain ⟨ps, ds⟩ := r
        obtain ⟨qs, ds'⟩ := r'
        obtain ⟨hpaths, htold⟩ := hr
        cases htold with
        | nil => exact .value (.kept (isPlacedScope_many hname.2 hpaths))
        | cons hd hrest => exact .value (.dropped (List.cons_ne_nil _ _) (.cons hd hrest))
  · have hno := not_exists.1 hnamed
    have hno' : ∀ name, ¬ ScopeEntry.IsNamed { entry with path } name := hno
    rw [check_of_unnamed hno, check_of_unnamed hno']
    exact .value (.dropped (List.cons_ne_nil _ _) (.cons rfl .nil))

/-! ## All entries -/

theorem checkAll_alike {entries placed : List ScopeEntry} (h : ArePlaced host root entries placed)
    (seen : List String) :
    Run.Alike (SameFound host root) (checkAll before seen entries) (checkAll files seen placed) := by
  induction h generalizing seen with
  | nil => exact .pure ⟨.nil, .nil⟩
  | @cons entry _ entries placed hentry _ ih =>
    obtain ⟨path, hpath, rfl⟩ := hentry
    rw [checkAll, checkAll]
    refine .bind (.ofExcept (check_alike hbefore hpath)) fun verdict verdict' hverdict => ?_
    cases hverdict with
    | dropped _ htold =>
      exact .bind (ih seen) fun r r' hr => .pure ⟨hr.1, List.rel_append htold hr.2⟩
    | @kept s t hst =>
      have hrest : ∀ seen, Run.Alike (SameFound host root)
          (checkAll before seen entries >>= fun r => pure (s :: r.1, [] ++ r.2))
          (checkAll files seen placed >>= fun r => pure (t :: r.1, [] ++ r.2)) := fun seen =>
        .bind (ih seen) fun r r' hr => .pure ⟨.cons hst hr.1, hr.2⟩
      dsimp only
      rw [hst.name]
      -- a name that is met again is logged in both runs
      split
      · exact .after _ fun _ => hrest _
      · exact hrest _

theorem validate_alike {entries placed : List ScopeEntry} (h : ArePlaced host root entries placed) :
    Run.Alike (SameReport host root) (validate before (some entries))
      (validate files (some placed)) := by
  refine .bind (checkAll_alike hbefore h []) fun r r' hr => ?_
  obtain ⟨scopes, ds⟩ := r
  obtain ⟨scopes', ds'⟩ := r'
  obtain ⟨hscopes, htold⟩ := hr
  have hreport := sameReport_ofFound hscopes htold
  cases hscopes with
  -- nothing is found, which both runs log
  | nil => exact .after _ fun _ => .pure hreport
  | cons _ _ => exact .pure hreport

end

/-- **Placing paths commutes with validation.** The entries of a document can be placed exactly where the
homes of all the paths in them are known. Let a file system have every path that is not empty exactly
where the files have the placed path. Then each entry, checked against that file system, ends as the
placed entry does against the files: both give a scope of one name, whose path and files are those of the
raw one placed, in order, or both are told of, as many times and under one name. So the two runs of
validation leave the same log behind and end alike, falling back both or with their scopes one after
another the same but for placing. -/
theorem validate_placed (host : Host) (root : Path) (files before : FileSystem) (vs : List Value)
    (hbefore : ∀ p q, p ≠ "" → placePath host root p = .ok q → before.hasFile p = files.hasFile q) :
    ((∃ placed, readScopes host root vs = .ok placed) ↔
      ∀ v ∈ vs, ∀ w ∈ (ScopeEntry.ofValue v).path.values, ∀ p, w.shape = .str p →
        ∃ q, host.expand (Path.ofString p) = .ok q) ∧
    ∀ placed, readScopes host root vs = .ok placed →
      List.Forall₂ (fun v entry => Outcome.Alike (SameVerdict host root)
        (check before (.ofValue v)) (check files entry)) vs placed ∧
      Run.Alike (SameReport host root) (validate before (some (vs.map .ofValue)))
        (validate files (some placed)) := by
  refine ⟨exists_readScopes_iff, fun placed hplaced => ?_⟩
  rw [readScopes_eq_mapM, Outcome.mapM_eq_ok_iff] at hplaced
  constructor
  · refine hplaced.imp fun v entry hentry => ?_
    obtain ⟨path, hpath, rfl⟩ := Outcome.map_eq_ok.1 hentry
    exact check_alike hbefore hpath
  · refine validate_alike hbefore ?_
    rw [ArePlaced, List.forall₂_map_left_iff]
    refine hplaced.imp fun v entry hentry => ?_
    obtain ⟨path, hpath, rfl⟩ := Outcome.map_eq_ok.1 hentry
    exact ⟨path, hpath, rfl⟩

/-- Four entries: one file below the root, under the other spelling of the name's key; two files in a
list, one of them in the home directory; a list of the empty text, of a file that is not there and of a
number; and an entry that is a text. -/
theorem validate_placed_of_four :
    let host : Host := { disk := .empty, directory := "/", home := "/home/u" }
    let root : Path := ⟨1, ["cfg"]⟩
    let files : FileSystem :=
      ⟨fun p => .ok (p == "/cfg/a.scss" || p == "/home/u/b.scss"), fun _ => .ok ""⟩
    let before : FileSystem :=
      ⟨fun p => match placePath host root p with
        | .ok q => files.hasFile q
        | .error _ => .ok false, fun _ => .ok ""⟩
    let vs : List Value := [
      .ofJson (.object [("scopeName", .str "a"), ("path", .str "a.scss")]),
      .ofJson (.object [("scope_name", .str "b"),
        ("path", .array [.str "~/b.scss", .str "/cfg/a.scss"])]),
      .ofJson (.object [("scope_name", .str "c"), ("path", .array [.str "", .str "gone", .int 7])]),
      .ofJson (.str "d")]
    let raw : List Scope := [⟨"a", .one "a.scss"⟩, ⟨"b", .many ["~/b.scss", "/cfg/a.scss"]⟩]
    let scopes : List Scope :=
      [⟨"a", .one "/cfg/a.scss"⟩, ⟨"b", .many ["/home/u/b.scss", "/cfg/a.scss"]⟩]
    let told : String → List Diagnostic := fun gone => [
      ⟨"c", "Not found path:  in scope spec", some ""⟩,
      ⟨"c", "Not found path: " ++ gone ++ " in scope spec", some gone⟩,
      ⟨"c", "Not found path: 7 in scope spec", some "7"⟩,
      ⟨"", "Not found scopeName in scope spec", none⟩]
    (∀ p q, p ≠ "" → placePath host root p = .ok q → before.hasFile p = files.hasFile q) ∧
      ∃ placed, readScopes host root vs = .ok placed ∧
        (validate before (some (vs.map .ofValue))).outcome = .ok ⟨raw, told "gone"⟩ ∧
        (validate files (some placed)).outcome = .ok ⟨scopes, told "/cfg/gone"⟩ ∧
        List.Forall₂ (IsPlacedScope host root) raw scopes := by
  intro host root files before vs raw scopes told
  have hbefore : ∀ p q, p ≠ "" → placePath host root p = .ok q →
      before.hasFile p = files.hasFile q := fun p q _ hq => by simp only [before, hq]
  have hraw : (validate before (some (vs.map .ofValue))).outcome = .ok ⟨raw, told "gone"⟩ :=
    Run.outcome_eq_ok (by decide +kernel)
  have hrun : ((readScopes host root vs).toOption.bind fun placed =>
      (validate files (some placed)).outcome.toOption) = some ⟨scopes, told "/cfg/gone"⟩ := by
    decide +kernel
  cases hplaced : readScopes host root vs with
  | error e =>
    rw [hplaced] at hrun
    cases hrun
  | ok placed =>
    rw [hplaced] at hrun
    have hscopes := Run.outcome_eq_ok hrun
    have halike := ((validate_placed host root files before vs hbefore).2 placed hplaced).2.outcome
    rw [hraw, hscopes] at halike
    cases halike with
    | value h => exact ⟨hbefore, placed, rfl, hraw, hscopes, h.scopes rfl⟩

end Settings

end ThemedSheets
