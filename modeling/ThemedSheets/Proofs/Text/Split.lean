import ThemedSheets.Text.Basic
/- Cutting a text at a character. There is one piece more than there are cuts (`length_split`), no
   piece holds the character it was cut at, and a text put together of two with the character between
   them is cut into the pieces of both (`split_append`). Together with `join_split` this makes cutting
   and joining inverse to each other on pieces without the character (`split_join`), and lets a proof
   about all texts go from cut to cut (`cut_induction`). A text can also be rid of a character at its
   end (`exists_trailing`). -/
namespace ThemedSheets.Text
variable {sep : Char}

theorem split_append (sep : Char) (xs ys : List Char) :
    split sep (xs ++ sep :: ys) = split sep xs ++ split sep ys := by
  induction xs with
  | nil => simp [split]
  | cons c xs ih =>
    by_cases h : c = sep
    · simp only [List.cons_append, split, h, if_true, ih]
    · simp only [List.cons_append, split, h, if_false, ih]
      cases hs : split sep xs with
      | nil => exact absurd hs (split_ne_nil sep xs)
      | cons p ps => rfl

theorem length_split (sep : Char) (cs : List Char) :
    (split sep cs).length = cs.count sep + 1 := by
  induction cs with
  | nil => rfl
  | cons c cs ih =>
    by_cases h : c = sep
    · rw [split, if_pos h, List.length_cons, ih, h, List.count_cons_self]
    · rw [split, if_neg h, List.count_cons_of_ne h, ← ih]
      cases hs : split sep cs with
      | nil => exact absurd hs (split_ne_nil sep cs)
      | cons p ps => rfl

theorem split_of_not_mem {cs : List Char} (h : sep ∉ cs) : split sep cs = [cs] := by
  induction cs with
  | nil => rfl
  | cons c cs ih =>
    rw [List.mem_cons, not_or] at h
    rw [split, if_neg (Ne.symm h.1), ih h.2]

theorem not_mem_of_mem_split {cs p : List Char} (hp : p ∈ split sep cs) : sep ∉ p := by
  induction cs generalizing p with
  | nil =>
    obtain rfl : p = [] := by simpa [split] using hp
    exact List.not_mem_nil
  | cons c cs ih =>
    by_cases h : c = sep
    · rw [split, if_pos h, List.mem_cons] at hp
      rcases hp with rfl | hp
      · exact List.not_mem_nil
      · exact ih hp
    · rw [split, if_neg h] at hp
      cases hs : split sep cs with
      | nil => exact absurd hs (split_ne_nil sep cs)
      | cons q qs =>
        rw [hs] at ih hp
        rcases List.mem_cons.1 hp with rfl | hp
        · rw [List.mem_cons, not_or]
          exact ⟨Ne.symm h, ih List.mem_cons_self⟩
        · exact ih (List.mem_cons_of_mem q hp)

theorem split_join {ps : List (List Char)} (hne : ps ≠ []) (h : ∀ p ∈ ps, sep ∉ p) :
    split sep (join [sep] ps) = ps := by
  induction ps with
  | nil => exact absurd rfl hne
  | cons p ps ih =>
    rw [List.forall_mem_cons] at h
    by_cases hps : ps = []
    · subst hps
      exact split_of_not_mem h.1
    · rw [join_cons [sep] p hps, List.append_assoc, List.singleton_append, split_append,
        split_of_not_mem h.1, ih hps h.2]
      rfl

theorem mem_of_mem_split {c : Char} {cs p : List Char} (hp : p ∈ split sep cs) (hc : c ∈ p) :
    c ∈ cs := by
  induction cs generalizing p with
  | nil =>
    obtain rfl : p = [] := by simpa [split] using hp
    exact hc
  | cons d ds ih =>
    by_cases h : d = sep
    · rw [split, if_pos h, List.mem_cons] at hp
      rcases hp with rfl | hp
      · simp at hc
      · exact List.mem_cons_of_mem d (ih hp hc)
    · rw [split, if_neg h] at hp
      cases hs : split sep ds with
      | nil => exact absurd hs (split_ne_nil sep ds)
      | cons q qs =>
        rw [hs] at ih hp
        rcases List.mem_cons.1 hp with rfl | hp
        · rcases List.mem_cons.1 hc with rfl | hc
          · exact List.mem_cons_self
          · exact List.mem_cons_of_mem d (ih List.mem_cons_self hc)
        · exact List.mem_cons_of_mem d (ih (List.mem_cons_of_mem q hp) hc)

/-- A text is a piece, or a piece before a cut and a text behind it. What holds of pieces, and of a
text with one more piece in front, holds of every text. -/
theorem cut_induction (sep : Char) {P : List Char → Prop} (piece : ∀ p, sep ∉ p → P p)
    (cut : ∀ p rest, sep ∉ p → P rest → P (p ++ sep :: rest)) (cs : List Char) : P cs := by
  have hpieces : ∀ ps : List (List Char), ps ≠ [] → (∀ p ∈ ps, sep ∉ p) → P (join [sep] ps) := by
    intro ps hne h
    induction ps with
    | nil => exact absurd rfl hne
    | cons p ps ih =>
      rw [List.forall_mem_cons] at h
      by_cases hps : ps = []
      · subst hps
        exact piece p h.1
      · rw [join_cons [sep] p hps, List.append_assoc, List.singleton_append]
        exact cut p _ h.1 (ih hps h.2)
  rw [← join_split sep cs]
  exact hpieces _ (split_ne_nil sep cs) fun p hp => not_mem_of_mem_split hp

theorem join_closed {P : List Char → Prop} (happend : ∀ xs ys, P xs → P ys → P (xs ++ ys))
    {sep : List Char} (hnil : P []) (hsep : P sep) {ps : List (List Char)} (h : ∀ p ∈ ps, P p) :
    P (join sep ps) := by
  induction ps with
  | nil => exact hnil
  | cons p ps ih =>
    rw [List.forall_mem_cons] at h
    cases ps with
    | nil => exact h.1
    | cons q ps => exact happend _ _ (happend _ _ h.1 hsep) (ih h.2)

theorem eq_or_mem_of_mem (sep : Char) {cs : List Char} :
    ∀ c ∈ cs, c = sep ∨ ∃ p ∈ split sep cs, c ∈ p := by
  have hjoin := join_closed (P := fun xs => ∀ c ∈ xs, c = sep ∨ ∃ p ∈ split sep cs, c ∈ p)
    (fun xs ys hxs hys => List.forall_mem_append.2 ⟨hxs, hys⟩) (by simp)
    (List.forall_mem_singleton.2 (.inl rfl)) fun p hp c hc => .inr ⟨p, hp, hc⟩
  rwa [join_split] at hjoin

theorem join_eq_nil {ps : List (List Char)} (h : join [sep] ps = []) :
    ps = [] ∨ ps = [[]] := by
  cases ps with
  | nil => exact Or.inl rfl
  | cons p ps =>
    cases ps with
    | nil => exact Or.inr (by rw [show p = [] from h])
    | cons q ps => simp [join] at h

theorem join_append (sep : List Char) {ps qs : List (List Char)} (hps : ps ≠ []) (hqs : qs ≠ []) :
    join sep (ps ++ qs) = join sep ps ++ (sep ++ join sep qs) := by
  induction ps with
  | nil => exact absurd rfl hps
  | cons p ps ih =>
    by_cases hnil : ps = []
    · subst hnil
      rw [List.cons_append, List.nil_append, join_cons sep p hqs, List.append_assoc]
      rfl
    · rw [List.cons_append, join_cons sep p (List.append_ne_nil_of_left_ne_nil hnil qs), ih hnil,
        join_cons sep p hnil, List.append_assoc (p ++ sep)]

/-! ## A character at the end -/

theorem exists_trailing (last : Char) (cs : List Char) :
    ∃ n, cs = (cs.reverse.dropWhile (· == last)).reverse ++ List.replicate n last := by
  have hcut := List.takeWhile_append_dropWhile (p := (· == last)) (l := cs.reverse)
  have hrun : cs.reverse.takeWhile (· == last)
      = List.replicate (cs.reverse.takeWhile (· == last)).length last := by
    refine List.eq_replicate_of_mem fun c hc => ?_
    have hall := List.all_eq_true.1 (List.all_takeWhile (p := (· == last)) (l := cs.reverse)) c hc
    simpa using hall
  refine ⟨(cs.reverse.takeWhile (· == last)).length, ?_⟩
  rw [← List.reverse_inj, List.reverse_append, List.reverse_reverse, List.reverse_replicate, ← hrun,
    hcut]

theorem getLast?_trimmed (last : Char) (cs : List Char) :
    (cs.reverse.dropWhile (· == last)).reverse.getLast? ≠ some last := by
  rw [List.getLast?_reverse]
  intro hfirst
  have hkept := List.head?_dropWhile_not (· == last) cs.reverse
  rw [hfirst] at hkept
  simp at hkept

end ThemedSheets.Text
