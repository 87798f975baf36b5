import ThemedSheets.Json.Basic
/- Records of fields. Setting a field changes no other one and keeps every name once; a name that is
   new comes last. Fields that are neither set nor dropped keep their order, and setting a field to the
   value that it has changes nothing. -/
namespace ThemedSheets.Fields
variable {α : Type}

theorem get?_put_of_ne {key name : String} (h : key ≠ name) (fields : Fields α) (value : α) :
    (fields.put name value).get? key = fields.get? key := by
  induction fields with
  | nil => simp [put, get?, h.symm]
  | cons f rest ih =>
    obtain ⟨n, v⟩ := f
    by_cases hn : n = name
    · simp [put, get?, hn, h.symm]
    · simp only [put, beq_iff_eq, hn, if_false, get?, List.find?_cons]
      simp only [get?] at ih
      split
      · rfl
      · exact ih

theorem get?_erase_of_ne {key name : String} (h : key ≠ name) (fields : Fields α) :
    (fields.erase name).get? key = fields.get? key := by
  rw [get?, get?, erase, List.find?_filter]
  congr 2
  funext f
  by_cases hf : f.1 = key
  · simp [hf, h]
  · simp [hf]

theorem get?_erase (fields : Fields α) (name : String) : (fields.erase name).get? name = none := by
  rw [get?, erase, List.find?_filter, Option.map_eq_none_iff, List.find?_eq_none]
  intro f _
  by_cases hf : f.1 = name <;> simp [hf]

theorem nodup_put {fields : Fields α} (h : (fields.map (·.1)).Nodup) (name : String) (value : α) :
    ((fields.put name value).map (·.1)).Nodup := by
  rw [map_fst_put]
  split
  · exact h
  · next hnew =>
    refine List.nodup_append.2 ⟨h, by simp, fun n hn m hm => ?_⟩
    rintro rfl
    exact hnew ((List.mem_singleton.1 hm) ▸ hn)

theorem mem_put {fields : Fields α} {name : String} {value : α} {f : String × α}
    (h : f ∈ fields.put name value) : f = (name, value) ∨ f ∈ fields := by
  induction fields with
  | nil => exact Or.inl (List.mem_singleton.1 h)
  | cons g rest ih =>
    obtain ⟨n, v⟩ := g
    by_cases hn : n = name
    · simp only [put, beq_iff_eq, hn, if_true, List.mem_cons] at h
      rcases h with rfl | h
      · exact Or.inl rfl
      · exact Or.inr (List.mem_cons_of_mem _ h)
    · simp only [put, beq_iff_eq, hn, if_false, List.mem_cons] at h
      rcases h with rfl | h
      · exact Or.inr List.mem_cons_self
      · exact (ih h).imp_right (List.mem_cons_of_mem _)

theorem put_of_not_mem {fields : Fields α} {name : String} (h : name ∉ fields.map (·.1))
    (value : α) : fields.put name value = fields ++ [(name, value)] := by
  induction fields with
  | nil => rfl
  | cons f rest ih =>
    obtain ⟨n, v⟩ := f
    rw [List.map_cons, List.mem_cons, not_or] at h
    have hn : ¬ n = name := fun hn => h.1 hn.symm
    simp only [put, beq_iff_eq, hn, if_false, ih h.2, List.cons_append]

/-! ## Fields that stay -/

theorem filter_put {keep : String → Bool} {name : String} (h : keep name = false)
    (fields : Fields α) (value : α) :
    (fields.put name value).filter (keep ·.1) = fields.filter (keep ·.1) := by
  induction fields with
  | nil => simp [put, h]
  | cons f rest ih =>
    obtain ⟨n, v⟩ := f
    by_cases hn : n = name
    · subst hn
      simp [put, h]
    · simp only [put, beq_iff_eq, hn, if_false, List.filter_cons, ih]

theorem filter_erase {keep : String → Bool} {name : String} (h : keep name = false)
    (fields : Fields α) :
    (fields.erase name).filter (keep ·.1) = fields.filter (keep ·.1) := by
  rw [erase, List.filter_filter]
  refine List.filter_congr fun f _ => ?_
  by_cases hf : f.1 = name <;> simp [hf, h]

theorem put_of_get? {fields : Fields α} {name : String} {value : α}
    (h : fields.get? name = some value) : fields.put name value = fields := by
  induction fields with
  | nil => cases h
  | cons f rest ih =>
    obtain ⟨n, v⟩ := f
    by_cases hn : n = name
    · simp_all [put, get?]
    · have hrest : Fields.get? rest name = some value := by simpa [get?, hn] using h
      simp only [put, beq_iff_eq, hn, if_false, ih hrest]

theorem mem_names_put {fields : Fields α} {name : String} {value : α} {key : String} :
    key ∈ (fields.put name value).map (·.1) ↔ key ∈ fields.map (·.1) ∨ key = name := by
  rw [map_fst_put]
  split
  · next hname => exact ⟨Or.inl, fun h => h.elim id fun hkey => hkey ▸ hname⟩
  · rw [List.mem_append, List.mem_singleton]

theorem not_mem_names_erase (fields : Fields α) (name : String) :
    name ∉ (fields.erase name).map (·.1) := by
  simp [erase]

theorem erase_of_not_mem {fields : Fields α} {name : String} (h : name ∉ fields.map (·.1)) :
    fields.erase name = fields := by
  refine List.filter_eq_self.2 fun f hf => bne_iff_ne.2 ?_
  rintro rfl
  exact h (List.mem_map_of_mem hf)

end ThemedSheets.Fields
