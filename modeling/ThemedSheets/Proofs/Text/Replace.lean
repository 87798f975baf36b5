import ThemedSheets.Proofs.Text.Split
/- Replacing in a text, piece by piece. An occurrence of what is replaced never goes over a character
   that it does not have, so a text cut at such a character can be replaced in before it is cut or
   after (`split_replaceAll`). -/
namespace ThemedSheets.Text
variable {sep : Char} {old new : List Char}

theorem isPrefixOf_append_cons (hold : sep ∉ old) (front back : List Char) :
    old.isPrefixOf (front ++ sep :: back) = old.isPrefixOf front := by
  induction old generalizing front with
  | nil => simp
  | cons o old ih =>
    rw [List.mem_cons, not_or] at hold
    cases front with
    | nil =>
      have ho : (o == sep) = false := by simpa using Ne.symm hold.1
      simp [List.isPrefixOf, ho]
    | cons c front => simp only [List.cons_append, List.isPrefixOf, ih hold.2]

/-- No occurrence goes over a character that the replaced text does not have behind its first. -/
theorem replaceFrom_append (hold : sep ∉ old.tail) (front back : List Char) {skip : Nat}
    (hskip : skip ≤ front.length) :
    replaceFrom old new skip (front ++ sep :: back)
      = replaceFrom old new skip front ++ replaceAll old new (sep :: back) := by
  induction front generalizing skip with
  | nil =>
    obtain rfl : skip = 0 := Nat.le_zero.1 hskip
    rfl
  | cons c front ih =>
    cases skip with
    | succ skip => exact ih (Nat.le_of_succ_le_succ hskip)
    | zero =>
      have hsame : old.isPrefixOf (c :: (front ++ sep :: back)) = old.isPrefixOf (c :: front) := by
        cases old with
        | nil => rfl
        | cons o old =>
          have htail : sep ∉ old := hold
          simp only [List.isPrefixOf, isPrefixOf_append_cons htail]
      rw [List.cons_append, replaceFrom, hsame, replaceFrom]
      split
      · next h =>
        -- an occurrence lies in front of the separator, so what is passed over does
        have hlength := (List.isPrefixOf_iff_prefix.1 h).length_le
        rw [List.length_cons] at hlength
        rw [ih (by omega), List.append_assoc]
      · rw [ih (Nat.zero_le _)]
        rfl

theorem replaceAll_append_cons (hne : old ≠ []) (hold : sep ∉ old) (front back : List Char) :
    replaceAll old new (front ++ sep :: back)
      = replaceAll old new front ++ sep :: replaceAll old new back := by
  have hnone : old.isPrefixOf (sep :: back) = false := by
    have h := isPrefixOf_append_cons hold [] back
    cases old with
    | nil => exact absurd rfl hne
    | cons o old => exact h
  have hkept : replaceAll old new (sep :: back) = sep :: replaceAll old new back := by
    show replaceFrom old new 0 (sep :: back) = _
    rw [replaceFrom, hnone]
    rfl
  rw [← hkept]
  exact replaceFrom_append (fun h => hold (List.mem_of_mem_tail h)) front back (Nat.zero_le _)

theorem replaceAll_join (hne : old ≠ []) (hold : sep ∉ old) {ps : List (List Char)} :
    replaceAll old new (join [sep] ps) = join [sep] (ps.map (replaceAll old new)) := by
  induction ps with
  | nil => rfl
  | cons p ps ih =>
    by_cases hps : ps = []
    · subst hps
      rfl
    · have hmap : ps.map (replaceAll old new) ≠ [] := fun h => hps (List.map_eq_nil_iff.1 h)
      calc replaceAll old new (join [sep] (p :: ps))
          = replaceAll old new (p ++ sep :: join [sep] ps) := by
            rw [join_cons [sep] p hps, List.append_assoc, List.singleton_append]
        _ = replaceAll old new p ++ sep :: replaceAll old new (join [sep] ps) :=
            replaceAll_append_cons hne hold p _
        _ = join [sep] ((p :: ps).map (replaceAll old new)) := by
            rw [ih, List.map_cons, join_cons [sep] _ hmap, List.append_assoc, List.singleton_append]

theorem mem_replaceFrom {c : Char} {skip : Nat} {cs : List Char}
    (h : c ∈ replaceFrom old new skip cs) : c ∈ new ∨ c ∈ cs := by
  induction cs generalizing skip with
  | nil => exact Or.inr h
  | cons d cs ih =>
    cases skip with
    | succ skip => exact (ih h).imp_right (List.mem_cons_of_mem d)
    | zero =>
      rw [replaceFrom] at h
      split at h
      · rcases List.mem_append.1 h with hnew | hrest
        · exact Or.inl hnew
        · exact (ih hrest).imp_right (List.mem_cons_of_mem d)
      · rcases List.mem_cons.1 h with rfl | hrest
        · exact Or.inr List.mem_cons_self
        · exact (ih hrest).imp_right (List.mem_cons_of_mem d)

theorem split_replaceAll (hne : old ≠ []) (hold : sep ∉ old) (hnew : sep ∉ new) (cs : List Char) :
    split sep (replaceAll old new cs) = (split sep cs).map (replaceAll old new) := by
  have hpieces : ∀ p ∈ (split sep cs).map (replaceAll old new), sep ∉ p := by
    rw [List.forall_mem_map]
    intro p hp hmem
    rcases mem_replaceFrom hmem with h | h
    · exact hnew h
    · exact not_mem_of_mem_split hp h
  have hsome : (split sep cs).map (replaceAll old new) ≠ [] :=
    fun h => split_ne_nil sep cs (List.map_eq_nil_iff.1 h)
  calc split sep (replaceAll old new cs)
      = split sep (replaceAll old new (join [sep] (split sep cs))) := by rw [join_split]
    _ = split sep (join [sep] ((split sep cs).map (replaceAll old new))) := by
        rw [replaceAll_join hne hold]
    _ = (split sep cs).map (replaceAll old new) := split_join hsome hpieces

end ThemedSheets.Text
