import ThemedSheets.Yaml.Value
/- Values that have a text. A text is missing only where a whole number in the value has too many
   digits, so a value all of whose whole numbers are short has one (`exists_text?`). The induction is
   on how many collections may still stand inside each other: what is inside a part of a value is
   inside the value. -/
namespace ThemedSheets.Yaml
open ThemedSheets.Text ThemedSheets.Number

def Shape.parts {α : Type} : Shape α → List α
  | .list items => items
  | .pair a b => [a, b]
  | .set members => members
  | .mapping entries => entries.flatMap fun (k, v) => [k, v]
  | _ => []

theorem Shape.parts_map {α β : Type} (f : α → β) (level : Shape α) :
    (level.map f).parts = level.parts.map f := by
  cases level with
  | mapping entries => simp [map, parts, List.flatMap_map, List.map_flatMap]
  | _ => rfl

namespace Value

/-- What stands inside a value, itself included. -/
inductive Within (v : Value) : Value → Prop where
  | self : Within v v
  | part {u p : Value} : Within v u → p ∈ u.shape.parts → Within v p

/-- A value whose whole numbers, however deep inside, all can be written. -/
def HasShortNumbers (v : Value) : Prop :=
  ∀ u, v.Within u → ∀ i, u.shape = .int i → (digitsOf 10 i.natAbs).length ≤ maxDecimalDigits

theorem Within.of_part {v p u : Value} (hp : p ∈ v.shape.parts) (h : p.Within u) : v.Within u := by
  induction h with
  | self => exact .part .self hp
  | part _ hmem ih => exact .part ih hmem

theorem HasShortNumbers.of_part {v p : Value} (h : v.HasShortNumbers)
    (hp : p ∈ v.shape.parts) : p.HasShortNumbers :=
  fun u hu => h u (.of_part hp hu)

theorem Within.cells_eq {v u : Value} (h : v.Within u) : u.cells = v.cells := by
  induction h with
  | self => rfl
  | part _ hmem ih =>
    rw [shape, Shape.parts_map, List.mem_map] at hmem
    obtain ⟨place, _, rfl⟩ := hmem
    exact ih

theorem mem_cells_of_shape {v : Value} {i : Int} (h : v.shape = .int i) :
    Shape.int i ∈ v.cells := by
  unfold shape at h
  cases hcell : v.cells[v.place]? with
  | none => simp [hcell, Shape.map] at h
  | some level =>
    have hlevel : level = .int i := by
      rw [hcell, Option.getD_some] at h
      cases level <;> simp_all [Shape.map]
    exact Array.mem_of_getElem? (hcell.trans (congrArg some hlevel))

theorem hasShortNumbers_of_cells {v : Value}
    (h : ∀ level ∈ v.cells, ∀ i, level = .int i →
      (digitsOf 10 i.natAbs).length ≤ maxDecimalDigits) : v.HasShortNumbers := by
  intro u hu i hi
  have hmem := mem_cells_of_shape hi
  rw [hu.cells_eq] at hmem
  exact h _ hmem i rfl

theorem hasShortNumbers_ofText (s : String) : (ofText s).HasShortNumbers :=
  hasShortNumbers_of_cells fun level hlevel i hi => by
    obtain rfl : level = .str s := by simpa [ofText] using hlevel
    cases hi

theorem exists_decimalText? {i : Int}
    (h : (digitsOf 10 i.natAbs).length ≤ maxDecimalDigits) : ∃ text, decimalText? i = some text := by
  refine ⟨intText i, ?_⟩
  rw [decimalText?]
  refine if_neg (Nat.not_lt.2 ?_)
  unfold intText
  split <;> simpa using h

theorem exists_mapM {α β : Type} {f : α → Option β} {as : List α}
    (h : ∀ a ∈ as, ∃ b, f a = some b) : ∃ bs, as.mapM f = some bs := by
  induction as with
  | nil => exact ⟨[], rfl⟩
  | cons a as ih =>
    obtain ⟨⟨b, hb⟩, hrest⟩ := List.forall_mem_cons.1 h
    obtain ⟨bs, hbs⟩ := ih hrest
    exact ⟨b :: bs, by rw [List.mapM_cons, hb, hbs]; rfl⟩

theorem exists_shownInside (n : Nat) (outer : List Nat) {v : Value} (h : v.HasShortNumbers) :
    ∃ text, shownInside n outer v = some text := by
  induction n generalizing outer v with
  | zero => exact ⟨[], rfl⟩
  | succ n ih =>
    have hparts : ∀ p ∈ v.shape.parts, ∃ text, shownInside n (v.place :: outer) p = some text :=
      fun p hp => ih _ (h.of_part hp)
    rw [shownInside]
    dsimp only
    split
    · exact ⟨_, rfl⟩
    · split
      case h_4 i hi => exact exists_decimalText? (h v .self i hi)
      case h_10 items hitems =>
        obtain ⟨ps, hps⟩ := exists_mapM (hitems ▸ hparts : ∀ p ∈ items, _)
        simp only [hps]
        exact ⟨_, rfl⟩
      case h_11 a b hpair =>
        obtain ⟨ps, hps⟩ := exists_mapM (hpair ▸ hparts : ∀ p ∈ [a, b], _)
        simp only [hps]
        exact ⟨_, rfl⟩
      case h_13 members _ hmembers =>
        obtain ⟨ps, hps⟩ := exists_mapM (hmembers ▸ hparts : ∀ p ∈ members, _)
        simp only [hps]
        exact ⟨_, rfl⟩
      case h_14 entries hentries =>
        have hentry : ∀ entry ∈ entries, ∃ text, (do
            let key ← shownInside n (v.place :: outer) entry.1
            let value ← shownInside n (v.place :: outer) entry.2
            pure (key ++ ':' :: ' ' :: value)) = some text := by
          intro entry hmem
          have hmember : ∀ p ∈ [entry.1, entry.2], p ∈ v.shape.parts := fun p hp => by
            rw [hentries]
            exact List.mem_flatMap.2 ⟨entry, hmem, hp⟩
          obtain ⟨key, hkey⟩ := hparts _ (hmember entry.1 (by simp))
          obtain ⟨value, hvalue⟩ := hparts _ (hmember entry.2 (by simp))
          exact ⟨_, by rw [hkey, hvalue]; rfl⟩
        obtain ⟨ps, hps⟩ := exists_mapM hentry
        exact ⟨_, by rw [hps]; rfl⟩
      all_goals exact ⟨_, rfl⟩

theorem exists_text? {v : Value} (h : v.HasShortNumbers) : ∃ text, v.text? = some text := by
  obtain ⟨text, htext⟩ := exists_shownInside (v.cells.size + 1) [] h
  unfold text?
  split
  · exact ⟨_, rfl⟩
  · exact ⟨_, rfl⟩
  · exact ⟨_, rfl⟩
  · exact ⟨String.ofList text, by rw [shown?, htext]; rfl⟩

end Value

end ThemedSheets.Yaml
