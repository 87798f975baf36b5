import ThemedSheets.Proofs.Json.Fields
import ThemedSheets.Proofs.Json.Numbers
import ThemedSheets.Proofs.Json.Strings
import ThemedSheets.Proofs.Outcome
/- Texts of JSON values are read back. A value is readable if its numbers are of the format, its
   objects name every field once and it is not too deep (`Readable`). Whatever is read is readable,
   and the text of a readable value is read as that value. So a value that was read, is written and
   is read again is the same (`read_render_of_read`). -/
namespace ThemedSheets.Json
open ThemedSheets.Text

/-- The value can be read inside some arrays and objects. -/
inductive Readable : Nat → Json → Prop
  | scalar {depth : Nat} {v : Json} (h : IsScalar v) : Readable depth v
  | str {depth : Nat} (s : String) : Readable depth (.str s)
  | array {depth : Nat} {items : List Json} (hdepth : depth < maxDepth)
      (hitems : ∀ v ∈ items, Readable (depth + 1) v) : Readable depth (.array items)
  | object {depth : Nat} {fields : Fields Json} (hdepth : depth < maxDepth)
      (hnames : (fields.map (·.1)).Nodup) (hfields : ∀ f ∈ fields, Readable (depth + 1) f.2) :
      Readable depth (.object fields)

/-- Fields of which each is named once, and with readable values. -/
structure ReadableFields (depth : Nat) (fields : Fields Json) : Prop where
  names : (fields.map (·.1)).Nodup
  values : ∀ f ∈ fields, Readable depth f.2

theorem ReadableFields.put {depth : Nat} {fields : Fields Json} (h : ReadableFields depth fields)
    (name : String) {v : Json} (hv : Readable depth v) : ReadableFields depth (fields.put name v) where
  names := Fields.nodup_put h.names name v
  values := fun f hf => (Fields.mem_put hf).elim (fun heq => heq ▸ hv) (h.values f)

theorem ReadableFields.erase {depth : Nat} {fields : Fields Json} (h : ReadableFields depth fields)
    (name : String) : ReadableFields depth (fields.erase name) where
  names := (List.filter_sublist.map _).nodup h.names
  values := fun f hf => h.values f (List.mem_of_mem_filter hf)

theorem readable_object_iff {depth : Nat} {fields : Fields Json} :
    Readable depth (.object fields) ↔ depth < maxDepth ∧ ReadableFields (depth + 1) fields := by
  constructor
  · rintro (h | _ | _ | ⟨hdepth, hnames, hfields⟩)
    · cases h
    · exact ⟨hdepth, hnames, hfields⟩
  · exact fun ⟨hdepth, h⟩ => .object hdepth h.names h.values

/-! ## What is read -/

/-- With some fuel, whatever is read is readable. -/
structure ReadsReadable (fuel : Nat) : Prop where
  value : ∀ {depth cs v rest}, value fuel depth cs = .ok (v, rest) → Readable depth v
  items : ∀ {depth cs vs rest}, items fuel depth cs = .ok (vs, rest) → ∀ v ∈ vs, Readable depth v
  fields : ∀ {depth before cs fs rest}, fields fuel depth before cs = .ok (fs, rest) →
    ReadableFields depth before → ReadableFields depth fs

section
variable {n depth : Nat} (ih : ReadsReadable n)
include ih

theorem readable_of_value {cs rest : List Char} {v : Json}
    (h : value (n + 1) depth cs = .ok (v, rest)) : Readable depth v := by
  unfold value at h
  split at h
  · obtain ⟨⟨s, _⟩, -, hv⟩ := Outcome.map_eq_ok.1 h
    obtain ⟨rfl, -⟩ := Prod.mk.inj hv
    exact .str s
  · split at h
    · cases h
    next hdepth =>
    split at h
    · obtain ⟨rfl, -⟩ := Prod.mk.inj (Except.ok.inj h)
      exact .array (Nat.lt_of_not_le hdepth) (by simp)
    · obtain ⟨⟨vs, _⟩, hvs, hv⟩ := Outcome.map_eq_ok.1 h
      obtain ⟨rfl, -⟩ := Prod.mk.inj hv
      exact .array (Nat.lt_of_not_le hdepth) (ih.items hvs)
  · split at h
    · cases h
    next hdepth =>
    split at h
    · obtain ⟨rfl, -⟩ := Prod.mk.inj (Except.ok.inj h)
      exact .object (Nat.lt_of_not_le hdepth) (by simp) (by simp)
    · obtain ⟨⟨fs, _⟩, hfs, hv⟩ := Outcome.map_eq_ok.1 h
      obtain ⟨rfl, -⟩ := Prod.mk.inj hv
      have hall := ih.fields hfs ⟨by simp, by simp⟩
      exact .object (Nat.lt_of_not_le hdepth) hall.names hall.values
  · exact .scalar (isScalar_of_scalar h)

theorem readable_of_items {cs rest : List Char} {vs : List Json}
    (h : items (n + 1) depth cs = .ok (vs, rest)) : ∀ v ∈ vs, Readable depth v := by
  rw [items] at h
  obtain ⟨⟨v, after⟩, hv, h⟩ := Outcome.bind_eq_ok.1 h
  have hfirst := ih.value hv
  dsimp only at h
  split at h
  · obtain ⟨rfl, -⟩ := Prod.mk.inj (Except.ok.inj h)
    simpa using hfirst
  · obtain ⟨⟨ws, _⟩, hws, heq⟩ := Outcome.map_eq_ok.1 h
    obtain ⟨rfl, -⟩ := Prod.mk.inj heq
    exact List.forall_mem_cons.2 ⟨hfirst, ih.items hws⟩
  · cases h

theorem readable_of_fields {before fs : Fields Json} {cs rest : List Char}
    (h : fields (n + 1) depth before cs = .ok (fs, rest)) (hbefore : ReadableFields depth before) :
    ReadableFields depth fs := by
  rw [fields] at h
  obtain ⟨⟨name, _⟩, -, h⟩ := Outcome.bind_eq_ok.1 h
  obtain ⟨⟨v, after⟩, hv, h⟩ := Outcome.bind_eq_ok.1 h
  have hput := hbefore.put name (ih.value hv)
  dsimp only at h
  split at h
  · obtain ⟨rfl, -⟩ := Prod.mk.inj (Except.ok.inj h)
    exact hput
  · exact ih.fields h hput
  · cases h

end

theorem readsReadable (fuel : Nat) : ReadsReadable fuel := by
  induction fuel with
  | zero =>
    -- without fuel nothing is read
    refine ⟨fun h => ?_, fun h => ?_, fun h => ?_⟩
    · cases h
    · cases h
    · cases h
  | succ n ih => exact ⟨readable_of_value ih, readable_of_items ih, readable_of_fields ih⟩

/-- **Whatever is read from a text is readable.** -/
theorem readable_of_read {source : String} {v : Json} (h : read source = .ok v) : Readable 0 v := by
  obtain ⟨⟨w, rest⟩, hw, h⟩ := Outcome.bind_eq_ok.1 h
  dsimp only at h
  split at h
  · obtain rfl := Except.ok.inj h
    exact (readsReadable _).value hw
  · cases h

/-! ## What is written -/

theorem skipBlanks_cons {c : Char} (h : isJsonBlank c = false) (cs : List Char) :
    skipBlanks (c :: cs) = c :: cs := by
  simp [skipBlanks, h]

theorem Readable.exists_cons {depth : Nat} {v : Json} (h : Readable depth v) :
    ∃ c cs, v.text = c :: cs ∧ isJsonBlank c = false ∧ c ≠ ']' := by
  cases h with
  | scalar h =>
    obtain ⟨c, cs, hcs, hmark⟩ := exists_cons_of_scalar (h.scalar_text endsNumber_nil)
    rw [List.append_nil] at hcs
    refine ⟨c, cs, hcs, ?_, ?_⟩
    · simp only [List.mem_cons, List.not_mem_nil, or_false, not_or] at hmark
      simp [isJsonBlank, hmark]
    · rintro rfl
      exact hmark (by decide)
  | str s => exact ⟨'"', _, by rw [text, stringText]; rfl, by decide, by decide⟩
  | @array _ items _ _ =>
    cases items with
    | nil => exact ⟨'[', _, by rw [text], by decide, by decide⟩
    | cons v vs => exact ⟨'[', _, by rw [text]; rfl, by decide, by decide⟩
  | @object _ fields _ _ _ =>
    cases fields with
    | nil => exact ⟨'{', _, by rw [text], by decide, by decide⟩
    | cons f fs => exact ⟨'{', _, by rw [text]; rfl, by decide, by decide⟩

theorem Readable.skipBlanks_text {depth : Nat} {v : Json} (h : Readable depth v) (cs : List Char) :
    skipBlanks (v.text ++ cs) = v.text ++ cs := by
  obtain ⟨c, rest, hcs, hblank, -⟩ := h.exists_cons
  rw [hcs]
  exact skipBlanks_cons hblank _

/-- With some fuel, texts of no more characters are read back. -/
structure ReadsBack (fuel : Nat) : Prop where
  value : ∀ {depth v rest}, Readable depth v → v.text.length ≤ fuel → EndsNumber rest →
    value fuel depth (v.text ++ rest) = .ok (v, rest)
  items : ∀ {depth v vs rest}, (∀ w ∈ v :: vs, Readable depth w) →
    v.text.length + (itemsText vs).length ≤ fuel →
    items fuel depth (v.text ++ (itemsText vs ++ rest)) = .ok (v :: vs, rest)
  fields : ∀ {depth k v fs} before rest, ReadableFields depth (before ++ (k, v) :: fs) →
    v.text.length + (fieldsText fs).length ≤ fuel →
    fields fuel depth before (stringText k ++ ':' :: ' ' :: (v.text ++ (fieldsText fs ++ rest)))
      = .ok (before ++ (k, v) :: fs, rest)

theorem stringText_append (s : String) (rest : List Char) :
    stringText s ++ rest = '"' :: (s.toList.flatMap escapeChar ++ '"' :: rest) := by
  simp [stringText]

theorem value_of_scalar {cs : List Char} {r : Json × List Char} (h : scalar cs = .ok r)
    (n depth : Nat) : value (n + 1) depth cs = .ok r := by
  obtain ⟨c, tail, rfl, hmark⟩ := exists_cons_of_scalar h
  simp only [List.mem_cons, List.not_mem_nil, or_false, not_or] at hmark
  obtain ⟨hquote, hbracket, -, hbrace, -⟩ := hmark
  unfold value
  split
  · exact absurd (List.cons.inj ‹_›).1 hquote
  · exact absurd (List.cons.inj ‹_›).1 hbracket
  · exact absurd (List.cons.inj ‹_›).1 hbrace
  · exact h

theorem fieldName_text (k : String) (rest : List Char) :
    fieldName (stringText k ++ ':' :: rest) = .ok (k, skipBlanks rest) := by
  rw [stringText_append, fieldName, string_text]
  rfl

theorem endsNumber_itemsText (vs : List Json) (rest : List Char) :
    EndsNumber (itemsText vs ++ rest) := by
  cases vs with
  | nil => exact endsNumber_cons (by decide) _
  | cons v vs => exact endsNumber_cons (by decide) _

theorem endsNumber_fieldsText (fs : Fields Json) (rest : List Char) :
    EndsNumber (fieldsText fs ++ rest) := by
  cases fs with
  | nil => exact endsNumber_cons (by decide) _
  | cons f fs => exact endsNumber_cons (by decide) _

theorem value_array {depth : Nat} (hdepth : depth < maxDepth) (n : Nat) {cs : List Char}
    (hblank : skipBlanks cs = cs) (hclose : cs.head? ≠ some ']') :
    value (n + 1) depth ('[' :: cs)
      = (items n (depth + 1) cs).map fun (vs, rest) => (.array vs, rest) := by
  rw [value, if_neg (Nat.not_le.2 hdepth), hblank]
  split
  · exact absurd rfl hclose
  · rfl

theorem value_object {depth : Nat} (hdepth : depth < maxDepth) (n : Nat) (cs : List Char) :
    value (n + 1) depth ('{' :: '"' :: cs)
      = (fields n (depth + 1) [] ('"' :: cs)).map fun (fs, rest) => (.object fs, rest) := by
  rw [value, if_neg (Nat.not_le.2 hdepth), skipBlanks_cons (by decide)]
  rfl

section
variable {n depth : Nat} (ih : ReadsBack n)
include ih

theorem value_text {v : Json} {rest : List Char} (h : Readable depth v)
    (hfuel : v.text.length ≤ n + 1) (hrest : EndsNumber rest) :
    value (n + 1) depth (v.text ++ rest) = .ok (v, rest) := by
  cases h with
  | scalar h => exact value_of_scalar (h.scalar_text hrest) n depth
  | str s =>
    rw [text, stringText_append, value, string_text]
    rfl
  | @array _ items hdepth hitems =>
    cases items with
    | nil =>
      rw [text]
      show value (n + 1) depth ('[' :: ']' :: rest) = _
      rw [value, if_neg (Nat.not_le.2 hdepth)]
      rfl
    | cons v vs =>
      have hv := hitems v List.mem_cons_self
      have hclose : (v.text ++ (itemsText vs ++ rest)).head? ≠ some ']' := by
        obtain ⟨c, cs, hcs, -, hc⟩ := hv.exists_cons
        simpa [hcs] using hc
      rw [text] at hfuel ⊢
      simp only [List.length_cons, List.length_append, List.cons_append] at hfuel
      rw [List.cons_append, List.cons_append, List.append_assoc,
        value_array hdepth n (hv.skipBlanks_text _) hclose, ih.items hitems (by omega)]
      rfl
  | @object _ fields hdepth hnames hfields =>
    cases fields with
    | nil =>
      rw [text]
      show value (n + 1) depth ('{' :: '}' :: rest) = _
      rw [value, if_neg (Nat.not_le.2 hdepth)]
      rfl
    | cons f fs =>
      obtain ⟨k, v⟩ := f
      have hread := ih.fields [] rest ⟨hnames, hfields⟩
      rw [text] at hfuel ⊢
      simp only [List.length_cons, List.length_append, List.cons_append] at hfuel
      rw [stringText_append] at hread
      simp only [List.cons_append, List.append_assoc, stringText_append]
      rw [value_object hdepth, hread (by omega)]
      rfl

theorem items_text {v : Json} {vs : List Json} {rest : List Char}
    (h : ∀ w ∈ v :: vs, Readable depth w)
    (hfuel : v.text.length + (itemsText vs).length ≤ n + 1) :
    items (n + 1) depth (v.text ++ (itemsText vs ++ rest)) = .ok (v :: vs, rest) := by
  rw [List.forall_mem_cons] at h
  have hread : value n depth (v.text ++ (itemsText vs ++ rest)) = .ok (v, itemsText vs ++ rest) := by
    refine ih.value h.1 ?_ (endsNumber_itemsText vs rest)
    have hpos : 0 < (itemsText vs).length := by cases vs <;> simp [itemsText]
    omega
  rw [items, hread]
  cases vs with
  | nil => rfl
  | cons w ws =>
    have hblank : skipBlanks (' ' :: (w.text ++ (itemsText ws ++ rest)))
        = w.text ++ (itemsText ws ++ rest) := (h.2 w List.mem_cons_self).skipBlanks_text _
    have hfuel' : w.text.length + (itemsText ws).length ≤ n := by
      simp only [itemsText, List.length_cons, List.length_append, List.cons_append] at hfuel
      omega
    rw [itemsText]
    simp only [List.cons_append, List.append_assoc]
    show (items n depth (skipBlanks (' ' :: (w.text ++ (itemsText ws ++ rest))))).map _ = _
    rw [hblank, ih.items h.2 hfuel']
    rfl

theorem fields_text {fs : Fields Json} {k : String} {v : Json} (before : Fields Json)
    (rest : List Char) (h : ReadableFields depth (before ++ (k, v) :: fs))
    (hfuel : v.text.length + (fieldsText fs).length ≤ n + 1) :
    fields (n + 1) depth before
        (stringText k ++ ':' :: ' ' :: (v.text ++ (fieldsText fs ++ rest)))
      = .ok (before ++ (k, v) :: fs, rest) := by
  have hv : Readable depth v := h.values (k, v) (by simp)
  have hread : value n depth (v.text ++ (fieldsText fs ++ rest)) = .ok (v, fieldsText fs ++ rest) := by
    refine ih.value hv ?_ (endsNumber_fieldsText fs rest)
    have hpos : 0 < (fieldsText fs).length := by
      cases fs <;> simp [fieldsText]
    omega
  have hnew : k ∉ before.map (·.1) := by
    intro hk
    have hnames := h.names
    rw [List.map_append, List.nodup_append] at hnames
    exact hnames.2.2 k hk k (by simp) rfl
  have hblank : skipBlanks (' ' :: (v.text ++ (fieldsText fs ++ rest)))
      = v.text ++ (fieldsText fs ++ rest) := hv.skipBlanks_text _
  rw [fields, fieldName_text, hblank]
  show (value n depth _ >>= _) = _
  rw [hread]
  cases fs with
  | nil =>
    show Except.ok (before.put k v, rest) = _
    rw [Fields.put_of_not_mem hnew]
  | cons f fs =>
    obtain ⟨l, w⟩ := f
    have hput : before.put k v ++ (l, w) :: fs = before ++ (k, v) :: (l, w) :: fs := by
      rw [Fields.put_of_not_mem hnew, List.append_assoc, List.singleton_append]
    have hfuel' : w.text.length + (fieldsText fs).length ≤ n := by
      simp only [fieldsText, List.length_cons, List.length_append, List.cons_append] at hfuel
      omega
    have hnext := ih.fields (before.put k v) rest (hput ▸ h) hfuel'
    have hskip : skipBlanks (' ' :: (stringText l ++ ':' :: ' ' :: (w.text ++ (fieldsText fs ++ rest))))
        = stringText l ++ ':' :: ' ' :: (w.text ++ (fieldsText fs ++ rest)) := by
      rw [stringText_append]
      rfl
    rw [fieldsText]
    simp only [List.cons_append, List.append_assoc]
    show fields n depth (before.put k v) (skipBlanks (' ' :: (stringText l ++ _))) = _
    rw [hskip, hnext, hput]

end

theorem readsBack (fuel : Nat) : ReadsBack fuel := by
  induction fuel with
  | zero =>
    -- no text is empty
    have hpos : ∀ {depth v}, Readable depth v → 0 < v.text.length := fun h => by
      obtain ⟨c, cs, hcs, -⟩ := h.exists_cons
      simp [hcs]
    refine ⟨fun h hfuel _ => ?_, fun h hfuel => ?_, fun _ _ h hfuel => ?_⟩
    · exact absurd (hpos h) (by omega)
    · exact absurd (hpos (h _ List.mem_cons_self)) (by omega)
    · have hfirst := hpos (h.values _ (List.mem_append_right _ List.mem_cons_self))
      dsimp only at hfirst
      omega
  | succ n ih => exact ⟨value_text ih, items_text ih, fields_text ih⟩

/-- **A readable value is read from its text.** -/
theorem read_render {v : Json} (h : Readable 0 v) : read v.render = .ok v := by
  have htext : (render v).toList = v.text := String.toList_ofList
  have hlength : (render v).length = v.text.length := by rw [← htext, String.length_toList]
  have hskip : skipBlanks v.text = v.text := by simpa using h.skipBlanks_text []
  have hvalue : value (2 * v.text.length + 2) 0 v.text = .ok (v, []) := by
    simpa using (readsBack (2 * v.text.length + 2)).value h (by omega) endsNumber_nil
  rw [read, htext, hlength, hskip, hvalue]
  rfl

/-- **What was read is read again from its text.** -/
theorem read_render_of_read {source : String} {v : Json} (h : read source = .ok v) :
    read v.render = .ok v :=
  read_render (readable_of_read h)

end ThemedSheets.Json
