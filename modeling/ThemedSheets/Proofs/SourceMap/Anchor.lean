import ThemedSheets.SourceMap.Anchor
/- Maps that can be anchored. A map that is a record of fields whose sources are texts is anchored
   without a fault, wherever the work directory is (`anchor_of_hasTextSources`). -/
namespace ThemedSheets.SourceMap

/-- A text that spells a record of fields, among them sources that are texts, or none. -/
def HasTextSources (text : String) : Prop :=
  ∃ (fields : Fields Json) (sources : List String), readValue text = .ok (.object fields) ∧
    sourceItems fields = .ok (sources.map Json.str)

theorem anchorSources_texts (workDirectory entry name : String) (sources : List String) :
    anchorSources workDirectory entry name (sources.map Json.str)
      = .ok (sources.map fun source => .str (anchorSource workDirectory entry name source)) := by
  induction sources with
  | nil => rfl
  | cons source sources ih =>
    rw [List.map_cons, anchorSources, ih]
    rfl

theorem anchor_of_sources {text : String} {fields : Fields Json} {sources : List String}
    (hread : readValue text = .ok (.object fields))
    (hitems : sourceItems fields = .ok (sources.map Json.str))
    (workDirectory entry name : String) :
    anchor workDirectory entry name text = .ok (Json.object (fields.put "sources" (.array
      (sources.map fun source => .str (anchorSource workDirectory entry name source))))).render := by
  have hfields : anchorFields workDirectory entry name fields
      = .ok (fields.put "sources" (.array
          (sources.map fun source => .str (anchorSource workDirectory entry name source)))) := by
    unfold anchorFields
    rw [hitems]
    show anchorSources workDirectory entry name (sources.map Json.str) >>= _ = _
    rw [anchorSources_texts]
    rfl
  unfold anchor
  rw [hread]
  show anchorFields workDirectory entry name fields >>= _ = _
  rw [hfields]
  rfl

theorem anchor_of_hasTextSources {text : String} (h : HasTextSources text)
    (workDirectory entry name : String) : ∃ map, anchor workDirectory entry name text = .ok map := by
  obtain ⟨fields, sources, hread, hitems⟩ := h
  exact ⟨_, anchor_of_sources hread hitems workDirectory entry name⟩

end ThemedSheets.SourceMap
