import Mathlib.Data.List.Basic
import ThemedSheets.SourceMap.Held
import ThemedSheets.Proofs.Json.Fields
import ThemedSheets.Proofs.Path.Normal
/- Maps in normal form. Such a map names no file, has an empty root of its sources, and no source of
   it is a relative path (`IsNormal`). A relative source that is taken from an absolute root begins
   with a slash, so it is none afterwards; from then on nothing in the map depends on a root, and a
   map in normal form is its own normal form below every root (`normalizeFields_of_isNormal`). The main
   result puts this together for maps that are texts, values or records that others hold
   (`normalizeAmong_of_sources`). -/
namespace ThemedSheets.SourceMap
open ThemedSheets.Text ThemedSheets.Path

/-! ## Sources -/

theorem kindOf_ne_pathRelative {source : String} (h : isAbsolute source = true) :
    kindOf source ≠ .pathRelative := by
  rw [isAbsolute] at h
  unfold kindOf kindOfText
  split
  · decide
  · rw [h]
    simp

theorem placeSource_of_relative {source : String} (h : kindOf source = .pathRelative)
    (root : String) : placeSource root source = Path.normalize (joined root source) := by
  rw [placeSource, h]

theorem placeSource_of_ne {source : String} (h : kindOf source ≠ .pathRelative) (root : String) :
    placeSource root source = source := by
  unfold placeSource
  split
  · next hkind => exact absurd hkind h
  · rfl

theorem map_placeSource_of_ne {sources : List String}
    (h : ∀ source ∈ sources, kindOf source ≠ .pathRelative) (root : String) :
    sources.map (placeSource root) = sources :=
  (List.map_congr_left fun source hsource => placeSource_of_ne (h source hsource) root).trans
    (List.map_id sources)

/-- No source is a relative path once it has its place. -/
theorem kindOf_placeSource {root : String} (h : isAbsolute root = true) (source : String) :
    kindOf (placeSource root source) ≠ .pathRelative := by
  by_cases hkind : kindOf source = .pathRelative
  · rw [placeSource_of_relative hkind]
    refine kindOf_ne_pathRelative ?_
    rw [isAbsolute_normalize]
    exact isAbsolute_joined h source
  · rwa [placeSource_of_ne hkind]

theorem placeSources_texts (root : String) (sources : List String) :
    placeSources root (sources.map Json.str)
      = .ok ((sources.map (placeSource root)).map Json.str) := by
  induction sources with
  | nil => rfl
  | cons source sources ih =>
    rw [List.map_cons, placeSources, ih]
    rfl

theorem isAbsolute_toString {root : Path} (h : root.isRooted = true) :
    isAbsolute root.toString = true := by
  obtain ⟨slashes, parts⟩ := root
  cases slashes with
  | zero => cases h
  | succ slashes =>
    rw [isAbsolute, Path.toString, String.toList_ofList, assemble, List.replicate_succ]
    rfl

/-! ## Fields -/

theorem sourceItems_of_get? {fields : Fields Json} {items : List Json}
    (h : fields.get? "sources" = some (.array items)) : sourceItems fields = .ok items := by
  rw [sourceItems, h]
  rfl

theorem sourceItems_congr {fields fields' : Fields Json}
    (h : fields.get? "sources" = fields'.get? "sources") :
    sourceItems fields = sourceItems fields' := by
  rw [sourceItems, sourceItems, h]

/-- The normal form of a map whose sources are texts. -/
theorem normalizeFields_of_sources {fields : Fields Json} {sources : List String}
    (h : sourceItems fields = .ok (sources.map Json.str)) (root : String) :
    normalizeFields root fields
      = .ok (((fields.erase "file").put "sourceRoot" (.str "")).put "sources"
          (.array ((sources.map (placeSource root)).map Json.str))) := by
  have hitems : sourceItems ((fields.erase "file").put "sourceRoot" (.str ""))
      = .ok (sources.map Json.str) := by
    rw [← h]
    refine sourceItems_congr ?_
    rw [Fields.get?_put_of_ne (by decide), Fields.get?_erase_of_ne (by decide)]
  unfold normalizeFields
  dsimp only
  rw [hitems]
  show placeSources root (sources.map Json.str) >>= _ = _
  rw [placeSources_texts]
  rfl

/-- A map in which nothing is relative to where it stands. -/
structure IsNormal (fields : Fields Json) (sources : List String) : Prop where
  file : "file" ∉ fields.map (·.1)
  sourceRoot : fields.get? "sourceRoot" = some (.str "")
  row : fields.get? "sources" = some (.array (sources.map Json.str))
  placed : ∀ source ∈ sources, kindOf source ≠ .pathRelative

theorem normalizeFields_of_isNormal {fields : Fields Json} {sources : List String}
    (h : IsNormal fields sources) (root : String) : normalizeFields root fields = .ok fields := by
  rw [normalizeFields_of_sources (sourceItems_of_get? h.row), map_placeSource_of_ne h.placed,
    Fields.erase_of_not_mem h.file, Fields.put_of_get? h.sourceRoot, Fields.put_of_get? h.row]

theorem isNormal_of_absolute {root : String} (h : isAbsolute root = true) (fields : Fields Json)
    (sources : List String) :
    IsNormal (((fields.erase "file").put "sourceRoot" (.str "")).put "sources"
      (.array ((sources.map (placeSource root)).map Json.str))) (sources.map (placeSource root)) where
  file := by
    simp only [Fields.mem_names_put, not_or]
    exact ⟨⟨Fields.not_mem_names_erase fields "file", by decide⟩, by decide⟩
  sourceRoot := by rw [Fields.get?_put_of_ne (by decide), Fields.get?_put]
  row := Fields.get?_put _ _ _
  placed := List.forall_mem_map.2 fun source _ => kindOf_placeSource h source

/-- Whether the normal form leaves a field to what it is. -/
def isOther (name : String) : Bool := name != "file" && name != "sourceRoot" && name != "sources"

/-! ## Maps that others hold -/

theorem normalizeAmong_of_isNormal {fields : Fields Json} {sources : List String}
    (h : IsNormal fields sources) (root : Path) {records : Records} {given : Given}
    (hfields : given.fields records = .ok fields) :
    normalizeAmong root records given = ((records.add fields).1, .ok records.all.length) := by
  rw [normalizeAmong_eq root hfields, normalizeFields_of_isNormal h]

/-- **The normal form of a map keeps all but what depends on where the map stands, and is reached in
one pass.** Let a map be given as a text, a value or a record that others hold, and let its sources
be texts of any form, or missing. Below an absolute root its normal form is a record of its own: none
of those that were there is that one, and none has changed. It names no file, its source root is
empty, and it has as many sources, in their order: the relative paths stand at their normal form from
the root, the others as they were. All other fields keep value and order. Giving the normal form
again, in any way and for any root, makes the same. -/
theorem normalizeAmong_of_sources {root : Path} {records : Records} {given : Given}
    {fields : Fields Json} {sources : List String} (hroot : root.isRooted = true)
    (hfields : given.fields records = .ok fields)
    (hsources : sourceItems fields = .ok (sources.map Json.str)) :
    ∃ (after : Records) (own : Nat) (written : Fields Json) (placed : List String),
      normalizeAmong root records given = (after, .ok own) ∧
      after.get? own = some written ∧
      (∀ (held : Nat) (record : Fields Json), records.get? held = some record →
        held ≠ own ∧ after.get? held = some record) ∧
      IsNormal written placed ∧
      placed.length = sources.length ∧
      (∀ (j : Nat) (source : String), sources[j]? = some source → placed[j]? = some
        (if kindOf source = .pathRelative then Path.normalize (joined root.toString source)
        else source)) ∧
      written.filter (isOther ·.1) = fields.filter (isOther ·.1) ∧
      ∀ (root' : Path) (given' : Given), given'.fields after = .ok written →
        ∃ (after' : Records) (own' : Nat),
          normalizeAmong root' after given' = (after', .ok own') ∧
          after'.get? own' = some written ∧
          ∀ (held : Nat) (record : Fields Json), after.get? held = some record →
            held ≠ own' ∧ after'.get? held = some record := by
  have hnormal := isNormal_of_absolute (isAbsolute_toString hroot) fields sources
  have hrun := normalizeAmong_eq root hfields
  rw [normalizeFields_of_sources hsources] at hrun
  refine ⟨_, _, _, _, hrun, Records.get?_add records _, fun held record h =>
    ⟨Records.ne_of_get? h, Records.get?_add_of_some records _ h⟩, hnormal,
    List.length_map _, fun j source hsource => ?_, ?_, fun root' given' hgiven => ?_⟩
  · rw [List.getElem?_map, hsource, Option.map_some]
    split
    · next hkind => rw [placeSource_of_relative hkind]
    · next hkind => rw [placeSource_of_ne hkind]
  · rw [Fields.filter_put (by decide), Fields.filter_put (by decide),
      Fields.filter_erase (by decide)]
  · exact ⟨_, _, normalizeAmong_of_isNormal hnormal root' hgiven, Records.get?_add _ _,
      fun held record h => ⟨Records.ne_of_get? h, Records.get?_add_of_some _ _ h⟩⟩

/-- The fields of a map with a source on a drive, one beside the map and an empty one. -/
def drivenFields : Fields Json :=
  [("version", .int 3), ("sources", .array (["C:\\a.scss", "../b//_m.scss", ""].map Json.str)),
    ("file", .str "a.css"), ("mappings", .str "AAAA")]

/-- The source on a drive stays where it is, and so does the record that was given. -/
theorem normalizeAmong_of_drive :
    (Path.mk 1 ["srv", "site"]).isRooted = true ∧
      (Given.record 0).fields ⟨[drivenFields]⟩ = .ok drivenFields ∧
      sourceItems drivenFields = .ok (["C:\\a.scss", "../b//_m.scss", ""].map Json.str) ∧
      ∃ (after : Records) (own : Nat) (written : Fields Json),
        normalizeAmong ⟨1, ["srv", "site"]⟩ ⟨[drivenFields]⟩ (.record 0) = (after, .ok own) ∧
        own ≠ 0 ∧ after.get? 0 = some drivenFields ∧ after.get? own = some written ∧
        written.get? "sources"
          = some (.array (["C:\\a.scss", "/srv/b/_m.scss", "/srv/site"].map Json.str)) ∧
        written.filter (isOther ·.1) = [("version", .int 3), ("mappings", .str "AAAA")] := by
  have hroot : (Path.mk 1 ["srv", "site"]).isRooted = true := rfl
  have hfields : (Given.record 0).fields ⟨[drivenFields]⟩ = .ok drivenFields := rfl
  have hsources : sourceItems drivenFields
      = .ok (["C:\\a.scss", "../b//_m.scss", ""].map Json.str) := rfl
  refine ⟨hroot, hfields, hsources, ?_⟩
  obtain ⟨after, own, written, placed, hrun, hown, hothers, hnormal, hlength, hplaced, hkept, -⟩ :=
    normalizeAmong_of_sources hroot hfields hsources
  obtain ⟨hne, hgiven⟩ := hothers 0 drivenFields rfl
  have hdrive : placed[0]? = some "C:\\a.scss" :=
    (hplaced 0 "C:\\a.scss" rfl).trans (congrArg some (by decide +kernel))
  have hbeside : placed[1]? = some "/srv/b/_m.scss" :=
    (hplaced 1 "../b//_m.scss" rfl).trans (congrArg some (by decide +kernel))
  have hempty : placed[2]? = some "/srv/site" :=
    (hplaced 2 "" rfl).trans (congrArg some (by decide +kernel))
  obtain ⟨a, b, c, rfl⟩ : ∃ a b c, placed = [a, b, c] := List.length_eq_three.1 hlength
  obtain rfl := Option.some.inj hdrive
  obtain rfl := Option.some.inj hbeside
  obtain rfl := Option.some.inj hempty
  exact ⟨after, own, written, hrun, hne.symm, hgiven, hown, hnormal.row, hkept⟩

end ThemedSheets.SourceMap
