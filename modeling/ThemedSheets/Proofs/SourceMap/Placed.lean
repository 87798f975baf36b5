import ThemedSheets.Proofs.Json.RoundTrip
import ThemedSheets.Proofs.SourceMap.Anchor
import ThemedSheets.Proofs.SourceMap.Normal
/- The sources of a map that is anchored and then brought into normal form. Anchored sources are
   absolute, and the normal form leaves absolute sources where they are; between the two the map is a
   text, which is read as the fields that were written. So every source keeps its place in the row
   and stands at its absolute path, and the other fields keep their values
   (`normalize_of_anchor`). -/
namespace ThemedSheets.SourceMap
open ThemedSheets.Text ThemedSheets.Path

/-! ## Texts of maps -/

theorem readValue_eq_ok {text : String} {v : Json} :
    readValue text = .ok v ↔ Json.read text = .ok v := by
  unfold readValue
  split <;> simp [*]

theorem readValue_render {v : Json} (h : Json.Readable 0 v) : readValue v.render = .ok v :=
  readValue_eq_ok.2 (Json.read_render h)

theorem readable_texts (sources : List String) : Json.Readable 1 (.array (sources.map Json.str)) := by
  refine .array (by decide) fun v hv => ?_
  obtain ⟨source, -, rfl⟩ := List.mem_map.1 hv
  exact .str source

theorem normalizeFields_of_isAbsolute {fields : Fields Json} {sources : List String}
    (hsources : fields.get? "sources" = some (.array (sources.map Json.str)))
    (habsolute : ∀ source ∈ sources, isAbsolute source = true) (root : String) :
    normalizeFields root fields
      = .ok (((fields.erase "file").put "sourceRoot" (.str "")).put "sources"
          (.array (sources.map Json.str))) := by
  rw [normalizeFields_of_sources (sourceItems_of_get? hsources),
    map_placeSource_of_ne fun source hsource => kindOf_ne_pathRelative (habsolute source hsource)]

/-! ## Anchoring and the normal form -/

theorem readable_put_sources {fields : Fields Json} (h : Json.ReadableFields 1 fields)
    (sources : List String) :
    Json.Readable 0 (.object (fields.put "sources" (.array (sources.map Json.str)))) :=
  Json.readable_object_iff.2 ⟨by decide, h.put "sources" (readable_texts sources)⟩

theorem isAbsolute_anchorSource {workDirectory name : String}
    (hwork : isAbsolute workDirectory = true) (hname : isAbsolute name = true)
    (entry source : String) : isAbsolute (anchorSource workDirectory entry name source) = true := by
  unfold anchorSource
  dsimp only
  split
  · exact hname
  · rw [isAbsolute_normalize]
    exact isAbsolute_joined hwork source

theorem entryName_some {sourcePath : String} (h : sourcePath ≠ "") (directory : String) :
    entryName directory (some sourcePath) = absolute directory sourcePath := if_neg h

/-- **A map that is anchored and brought into normal form keeps every source in its place.** The
anchored map is a text that spells fields, and so is the one that is written. Both have as many
sources as the map had, all of them absolute: the source that is the entry stands at the path that was
compiled, every other one at its normal form from the work directory. Of the other fields only the
file and the root of the sources change. -/
theorem normalize_of_anchor {text : String} {fields : Fields Json} {sources : List String}
    {directory workDirectory sourcePath : String} (hread : readValue text = .ok (.object fields))
    (hsources : fields.get? "sources" = some (.array (sources.map Json.str)))
    (hdirectory : isAbsolute directory = true) (hwork : isAbsolute workDirectory = true)
    (hpath : sourcePath ≠ "") (entry : String) (root : Path) :
    ∃ (map : String) (anchored written : Fields Json) (placed : List String),
      anchor workDirectory entry (entryName directory (some sourcePath)) text = .ok map ∧
      readValue map = .ok (.object anchored) ∧
      normalize root (.str map) = .ok written ∧
      readValue (Json.object written).render = .ok (.object written) ∧
      anchored.get? "sources" = some (.array (placed.map Json.str)) ∧
      written.get? "sources" = some (.array (placed.map Json.str)) ∧
      placed.length = sources.length ∧
      (∀ (j : Nat) (source : String), sources[j]? = some source → placed[j]? = some
        (if Path.normalize (joined workDirectory source) = Path.normalize entry then
          absolute directory sourcePath
        else Path.normalize (joined workDirectory source))) ∧
      (∀ source ∈ placed, isAbsolute source = true) ∧
      written.get? "file" = none ∧ written.get? "sourceRoot" = some (.str "") ∧
      ∀ key, key ≠ "sources" → key ≠ "file" → key ≠ "sourceRoot" →
        written.get? key = fields.get? key := by
  have hname := entryName_some hpath directory
  set name := entryName directory (some sourcePath)
  let placed := sources.map (anchorSource workDirectory entry name)
  let anchored := fields.put "sources" (.array (placed.map Json.str))
  have habsolute : ∀ source ∈ placed, isAbsolute source = true :=
    List.forall_mem_map.2 fun source _ =>
      isAbsolute_anchorSource hwork (hname ▸ isAbsolute_absolute hdirectory sourcePath) entry source
  have hfields : Json.ReadableFields 1 fields :=
    (Json.readable_object_iff.1 (Json.readable_of_read (readValue_eq_ok.1 hread))).2
  have hmap : anchor workDirectory entry name text = .ok (Json.object anchored).render := by
    have h := anchor_of_sources hread (sourceItems_of_get? hsources) workDirectory entry name
    rwa [← Function.comp_def, ← List.map_map] at h
  have hanchored : readValue (Json.object anchored).render = .ok (.object anchored) :=
    readValue_render (readable_put_sources hfields placed)
  have hplaced : anchored.get? "sources" = some (.array (placed.map Json.str)) :=
    Fields.get?_put _ _ _
  let written := ((anchored.erase "file").put "sourceRoot" (.str "")).put "sources"
    (.array (placed.map Json.str))
  have hnormal : normalize root (.str (Json.object anchored).render) = .ok written := by
    show fieldsOfText _ >>= _ = _
    unfold fieldsOfText
    rw [hanchored]
    exact normalizeFields_of_isAbsolute hplaced habsolute root.toString
  have hwritten : readValue (Json.object written).render = .ok (.object written) := by
    have hkept := (hfields.put "sources" (readable_texts placed)).erase "file"
    exact readValue_render (readable_put_sources (hkept.put "sourceRoot" (.str "")) placed)
  refine ⟨_, anchored, written, placed, hmap, hanchored, hnormal, hwritten, hplaced,
    Fields.get?_put _ _ _, List.length_map _, fun j source hsource => ?_, habsolute, ?_, ?_,
    fun key hsources hfile hroot => ?_⟩
  · rw [List.getElem?_map, hsource, Option.map_some, anchorSource, hname]
  · rw [Fields.get?_put_of_ne (by decide), Fields.get?_put_of_ne (by decide), Fields.get?_erase]
  · rw [Fields.get?_put_of_ne (by decide), Fields.get?_put]
  · rw [Fields.get?_put_of_ne hsources, Fields.get?_put_of_ne hroot, Fields.get?_erase_of_ne hfile,
      Fields.get?_put_of_ne hsources]

/-- A map of a source and of one that it imports from a directory beside its own. -/
def importedMap : String :=
  "\x7b\"file\": \"a.css\", \"sources\": [\"./stdin.scss\", \"../b//_m.scss\"], \"scale\": 0.1\x7d"

def importedFields : Fields Json :=
  [("file", .str "a.css"), ("sources", .array (["./stdin.scss", "../b//_m.scss"].map Json.str)),
    ("scale", .float (.finite false 7205759403792794 (-56)))]

theorem readValue_importedMap : readValue importedMap = .ok (.object importedFields) := by
  simp only [importedMap, readValue, Json.read, String.reduceToList]
  rfl

/-- The source that was compiled stands at its own path, and the import at its normal form. -/
theorem normalize_of_anchor_of_import :
    isAbsolute "/home" = true ∧ isAbsolute "/tmp/work" = true ∧ "site/a.scss" ≠ "" ∧
      ∃ (map : String) (written : Fields Json),
        anchor "/tmp/work" "/tmp/work/stdin.scss" (entryName "/home" (some "site/a.scss")) importedMap
          = .ok map ∧
        normalize ⟨1, ["home"]⟩ (.str map) = .ok written ∧
        written.get? "sources"
          = some (.array (["/home/site/a.scss", "/tmp/b/_m.scss"].map Json.str)) ∧
        written.get? "file" = none ∧
        written.get? "scale" = some (.float (.finite false 7205759403792794 (-56))) := by
  have hdirectory : isAbsolute "/home" = true := by decide
  have hwork : isAbsolute "/tmp/work" = true := by decide
  have hpath : "site/a.scss" ≠ "" := by decide
  refine ⟨hdirectory, hwork, hpath, ?_⟩
  obtain ⟨map, -, written, placed, hmap, -, hnormal, -, -, hsources, hlength, hplaced, -, hfile, -,
    hothers⟩ := normalize_of_anchor readValue_importedMap rfl hdirectory hwork hpath
    "/tmp/work/stdin.scss" ⟨1, ["home"]⟩
  have hentry : placed[0]? = some "/home/site/a.scss" :=
    (hplaced 0 "./stdin.scss" rfl).trans (congrArg some (by decide +kernel))
  have himport : placed[1]? = some "/tmp/b/_m.scss" :=
    (hplaced 1 "../b//_m.scss" rfl).trans (congrArg some (by decide +kernel))
  obtain ⟨a, b, rfl⟩ : ∃ a b, placed = [a, b] := List.length_eq_two.1 hlength
  obtain rfl := Option.some.inj hentry
  obtain rfl := Option.some.inj himport
  refine ⟨map, written, hmap, hnormal, hsources, hfile, ?_⟩
  rw [hothers "scale" (by decide) (by decide) (by decide)]
  rfl

end ThemedSheets.SourceMap
