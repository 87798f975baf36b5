import ThemedSheets.Proofs.Text.Replace
/- Removing a mark from a text. The mark is taken to begin with a character that it does not have
   again, so that no two marks overlap and a text can be cut in front of a mark and behind it
   (`remove_append_mark`). What is left when all marks are removed holds a mark again if and only if
   the text has the pieces of one with whole marks between them (`mark_infix_remove_iff`); only then
   does removing a second time find something. -/
namespace ThemedSheets.Text

def remove (mark cs : List Char) : List Char := replaceAll mark [] cs

/-- Whether a text has the pieces of a mark with a whole mark between neighbours. No piece is all of
the mark, so there are two that are not empty. -/
def Nests (mark cs : List Char) : Prop :=
  ∃ before pieces after, cs = before ++ join mark pieces ++ after ∧ pieces.flatten = mark ∧
    mark ∉ pieces

/-! ## Texts without the mark -/

theorem replaceAll_of_absent {old : List Char} (new : List Char) {cs : List Char}
    (h : ¬ old <:+: cs) : replaceAll old new cs = cs := by
  induction cs with
  | nil => rfl
  | cons c cs ih =>
    have hnone : old.isPrefixOf (c :: cs) = false := by
      rw [Bool.eq_false_iff]
      exact fun hstart => h (List.isPrefixOf_iff_prefix.1 hstart).isInfix
    show replaceFrom old new 0 (c :: cs) = _
    rw [replaceFrom, hnone]
    exact congrArg (c :: ·) (ih fun hinside => h (hinside.trans (List.suffix_cons c cs).isInfix))

theorem remove_of_absent {mark cs : List Char} (h : ¬ mark <:+: cs) : remove mark cs = cs :=
  replaceAll_of_absent [] h

theorem length_remove_le (mark cs : List Char) : (remove mark cs).length ≤ cs.length := by
  suffices h : ∀ skip, (replaceFrom mark [] skip cs).length ≤ cs.length from h 0
  induction cs with
  | nil => exact fun skip => Nat.le_refl _
  | cons c cs ih =>
    intro skip
    cases skip with
    | succ skip => exact Nat.le_succ_of_le (ih skip)
    | zero =>
      rw [replaceFrom]
      split
      · exact Nat.le_succ_of_le (ih _)
      · exact Nat.succ_le_succ (ih 0)

theorem replaceAll_singleton (a b : Char) (cs : List Char) :
    replaceAll [a] [b] cs = cs.map fun c => if c = a then b else c := by
  induction cs with
  | nil => rfl
  | cons c cs ih =>
    show replaceFrom [a] [b] 0 (c :: cs) = _
    by_cases hc : c = a
    · subst hc
      rw [List.map_cons, if_pos rfl, ← ih]
      simp [replaceFrom, replaceAll]
    · have hnone : [a].isPrefixOf (c :: cs) = false := by simp [List.isPrefixOf, Ne.symm hc]
      rw [replaceFrom, hnone, List.map_cons, if_neg hc, ← ih]
      rfl

/-! ## Cutting at a mark -/

theorem replaceFrom_length_append (old new xs ys : List Char) :
    replaceFrom old new xs.length (xs ++ ys) = replaceAll old new ys := by
  induction xs with
  | nil => rfl
  | cons x xs ih => exact ih

variable {head : Char} {tail : List Char}

/-- Without the character that marks begin with there is nothing to remove, whatever follows. -/
theorem remove_append_of_not_mem {front : List Char} (hfront : head ∉ front) (back : List Char) :
    remove (head :: tail) (front ++ back) = front ++ remove (head :: tail) back := by
  induction front with
  | nil => rfl
  | cons c front ih =>
    rw [List.mem_cons, not_or] at hfront
    have hnone : (head :: tail).isPrefixOf (c :: (front ++ back)) = false := by
      simp [List.isPrefixOf, hfront.1]
    show replaceFrom (head :: tail) [] 0 (c :: (front ++ back)) = _
    rw [replaceFrom, hnone]
    exact congrArg (c :: ·) (ih hfront.2)

section
variable (h : head ∉ tail)
include h

theorem remove_append_head (front back : List Char) :
    remove (head :: tail) (front ++ head :: back)
      = remove (head :: tail) front ++ remove (head :: tail) (head :: back) :=
  replaceFrom_append h front back (Nat.zero_le _)

theorem remove_append_mark (front back : List Char) :
    remove (head :: tail) (front ++ (head :: tail ++ back))
      = remove (head :: tail) front ++ remove (head :: tail) back := by
  have hmark : remove (head :: tail) (head :: (tail ++ back)) = remove (head :: tail) back := by
    have hstart : (head :: tail).isPrefixOf (head :: (tail ++ back)) = true :=
      List.isPrefixOf_iff_prefix.2 (List.prefix_append (head :: tail) back)
    show replaceFrom (head :: tail) [] 0 (head :: (tail ++ back)) = _
    rw [replaceFrom, hstart]
    exact replaceFrom_length_append (head :: tail) [] tail back
  rw [List.cons_append, remove_append_head h, hmark]

/-- A text is the pieces between its marks, and these are what removing the marks leaves. -/
theorem exists_pieces (cs : List Char) :
    ∃ pieces, pieces ≠ [] ∧ cs = join (head :: tail) pieces ∧
      remove (head :: tail) cs = pieces.flatten ∧ ∀ p ∈ pieces, ¬ head :: tail <:+: p := by
  induction hlength : cs.length using Nat.strongRecOn generalizing cs with
  | ind n ih =>
    by_cases hmark : head :: tail <:+: cs
    · obtain ⟨front, back, rfl⟩ := hmark
      simp only [List.length_append, List.length_cons] at hlength
      obtain ⟨ps, hps, hfront, hfronts, hpure⟩ := ih front.length (by omega) front rfl
      obtain ⟨qs, hqs, hback, hbacks, hpure'⟩ := ih back.length (by omega) back rfl
      refine ⟨ps ++ qs, List.append_ne_nil_of_left_ne_nil hps qs, ?_, ?_,
        List.forall_mem_append.2 ⟨hpure, hpure'⟩⟩
      · rw [join_append _ hps hqs, ← hfront, ← hback, List.append_assoc]
      · rw [List.append_assoc, remove_append_mark h, hfronts, hbacks, List.flatten_append]
    · refine ⟨[cs], List.cons_ne_nil cs [], rfl, ?_, by simpa using hmark⟩
      rw [remove_of_absent hmark, List.flatten_singleton]

/-! ## Marks that removal makes -/

theorem remove_join_of_not_mem {pieces : List (List Char)} (hpieces : head ∉ pieces.flatten)
    (after : List Char) :
    remove (head :: tail) (join (head :: tail) pieces ++ after)
      = pieces.flatten ++ remove (head :: tail) after := by
  induction pieces with
  | nil => rfl
  | cons p pieces ih =>
    rw [List.flatten_cons, List.mem_append, not_or] at hpieces
    by_cases hnil : pieces = []
    · subst hnil
      simpa [join] using remove_append_of_not_mem hpieces.1 after
    · rw [join_cons _ _ hnil, List.append_assoc, List.append_assoc,
        remove_append_of_not_mem hpieces.1]
      have hmark := remove_append_mark h [] (join (head :: tail) pieces ++ after)
      rw [List.nil_append] at hmark
      rw [hmark, ih hpieces.2, List.flatten_cons, List.append_assoc]
      rfl

/-- The pieces of a mark with marks between them become a mark. -/
theorem remove_nested {pieces : List (List Char)} (hflat : pieces.flatten = head :: tail)
    (hpieces : head :: tail ∉ pieces) (before after : List Char) :
    remove (head :: tail) (before ++ join (head :: tail) pieces ++ after)
      = remove (head :: tail) before ++ (head :: tail) ++ remove (head :: tail) after := by
  induction pieces generalizing before with
  | nil => simp at hflat
  | cons p pieces ih =>
    rw [List.mem_cons, not_or] at hpieces
    have hnil : pieces ≠ [] := by
      rintro rfl
      exact hpieces.1 (by simpa using hflat.symm)
    rw [join_cons _ _ hnil]
    cases p with
    | nil =>
      -- an empty piece in front of the first character: the mark behind it is removed
      have hrest := ih (by simpa using hflat) hpieces.2 []
      rw [List.nil_append] at hrest
      rw [List.nil_append, List.append_assoc, List.append_assoc, remove_append_mark h, hrest]
      simp [remove, replaceAll, replaceFrom]
    | cons c p =>
      obtain ⟨hc, htail⟩ : c = head ∧ p ++ pieces.flatten = tail := List.cons.inj hflat
      obtain rfl := hc.symm
      have hrest : head ∉ pieces.flatten := fun hmem => h (htail ▸ List.mem_append_right p hmem)
      have hshort : ¬ head :: tail <:+: head :: p := by
        intro hinside
        have hle := hinside.length_le
        have hlength := congrArg List.length htail
        simp only [List.length_cons, List.length_append] at hle hlength
        have hempty : pieces.flatten = [] := List.eq_nil_of_length_eq_zero (by omega)
        rw [hempty, List.append_nil] at htail
        exact hpieces.1 (by rw [htail])
      calc remove (head :: tail)
            (before ++ (head :: p ++ (head :: tail) ++ join (head :: tail) pieces) ++ after)
          = remove (head :: tail)
              (before ++ head :: (p ++ (head :: tail ++ (join (head :: tail) pieces ++ after)))) := by
            simp only [List.append_assoc, List.cons_append]
        _ = remove (head :: tail) before ++ (remove (head :: tail) (head :: p)
              ++ remove (head :: tail) (join (head :: tail) pieces ++ after)) := by
            rw [remove_append_head h, ← List.cons_append, remove_append_mark h]
        _ = remove (head :: tail) before
              ++ (head :: p ++ (pieces.flatten ++ remove (head :: tail) after)) := by
            rw [remove_join_of_not_mem h hrest, remove_of_absent hshort]
        _ = remove (head :: tail) before ++ (head :: tail) ++ remove (head :: tail) after := by
            rw [← htail]
            simp only [List.append_assoc, List.cons_append]

end

theorem exists_cut {ps : List (List Char)} {u w : List Char} (hne : ps ≠ [])
    (h : ps.flatten = u ++ w) : ∃ front a b back, ps = front ++ (a ++ b) :: back ∧
      u = front.flatten ++ a ∧ w = b ++ back.flatten := by
  induction ps generalizing u with
  | nil => exact absurd rfl hne
  | cons p ps ih =>
    rw [List.flatten_cons] at h
    rcases List.append_eq_append_iff.1 h with ⟨u', rfl, hrest⟩ | ⟨b, rfl, rfl⟩
    · by_cases hps : ps = []
      · subst hps
        obtain ⟨rfl, rfl⟩ := List.append_eq_nil_iff.1 hrest.symm
        exact ⟨[], p, [], [], by simp⟩
      · obtain ⟨front, a, b, back, rfl, rfl, rfl⟩ := ih hps hrest
        exact ⟨p :: front, a, b, back, by simp⟩
    · exact ⟨[], u, b, ps, by simp⟩

theorem join_cut (sep : List Char) (front : List (List Char)) (a b : List Char)
    (back : List (List Char)) :
    join sep (front ++ (a ++ b) :: back) = join sep (front ++ [a]) ++ join sep (b :: back) := by
  have hlast : join sep ((a ++ b) :: back) = a ++ join sep (b :: back) := by
    cases back with
    | nil => rfl
    | cons q back => simp [join]
  by_cases hfront : front = []
  · subst hfront
    exact hlast
  · rw [join_append sep hfront (List.cons_ne_nil _ _),
      join_append sep hfront (List.cons_ne_nil _ _), hlast]
    simp [join]

/-- **What is left of a text without its marks holds a mark if and only if the text nests one.** -/
theorem mark_infix_remove_iff (h : head ∉ tail) (cs : List Char) :
    head :: tail <:+: remove (head :: tail) cs ↔ Nests (head :: tail) cs := by
  constructor
  · rintro ⟨u, w, huw⟩
    obtain ⟨ps, hps, rfl, hremoved, hpure⟩ := exists_pieces h cs
    rw [hremoved] at huw
    obtain ⟨front, a, b, back, rfl, rfl, hrest⟩ :=
      exists_cut hps (huw.symm.trans (List.append_assoc _ _ _))
    obtain ⟨inner, c, d, outer, hback, hmark, rfl⟩ :=
      exists_cut (List.cons_ne_nil b back) hrest.symm
    have hpieces : ∀ p ∈ b :: back, ¬ head :: tail <:+: p := by
      intro p hp hinside
      rcases List.mem_cons.1 hp with rfl | hp
      · exact hpure _ (by simp) (hinside.trans (List.suffix_append a p).isInfix)
      · exact hpure p (by simp [hp]) hinside
    rw [hback] at hpieces
    refine ⟨join (head :: tail) (front ++ [a]), inner ++ [c], join (head :: tail) (d :: outer), ?_,
      by simp [hmark], fun hmem => ?_⟩
    · rw [join_cut, hback, join_cut, List.append_assoc]
    · rcases List.mem_append.1 hmem with hmem | hmem
      · exact hpieces _ (List.mem_append_left _ hmem) List.infix_rfl
      · refine hpieces (c ++ d) (by simp) ?_
        rw [List.mem_singleton.1 hmem]
        exact (List.prefix_append c d).isInfix
  · rintro ⟨before, pieces, after, rfl, hflat, hpieces⟩
    rw [remove_nested h hflat hpieces]
    exact List.infix_append _ _ _

theorem remove_remove_iff (h : head ∉ tail) (cs : List Char) :
    remove (head :: tail) (remove (head :: tail) cs) = remove (head :: tail) cs ↔
      ¬ Nests (head :: tail) cs := by
  rw [← mark_infix_remove_iff h]
  constructor
  · rintro hsame ⟨u, w, huw⟩
    have hlength := congrArg List.length hsame
    rw [← huw, List.append_assoc, remove_append_mark h] at hlength
    have hu := length_remove_le (head :: tail) u
    have hw := length_remove_le (head :: tail) w
    simp only [List.length_append, List.length_cons] at hlength
    omega
  · exact remove_of_absent

/-! ## Texts that differ outside the mark, and texts put together -/

theorem mem_of_mem_nested {mark : List Char} {pieces : List (List Char)}
    (hflat : pieces.flatten = mark) : ∀ c ∈ join mark pieces, c ∈ mark := by
  refine join_closed (P := fun cs => ∀ c ∈ cs, c ∈ mark) (fun xs ys hx hy => ?_) (by simp)
    (fun c hc => hc) fun p hp c hc => ?_
  · exact List.forall_mem_append.2 ⟨hx, hy⟩
  · rw [← hflat]
    exact List.mem_flatten.2 ⟨p, hp, hc⟩

theorem nests_map_iff {mark : List Char} {f : Char → Char} (hmark : ∀ c ∈ mark, f c = c)
    (hother : ∀ c, f c ∈ mark → f c = c) (cs : List Char) :
    Nests mark (cs.map f) ↔ Nests mark cs := by
  constructor
  · rintro ⟨before, pieces, after, hcs, hflat, hpieces⟩
    obtain ⟨front, back', rfl, hfront, rfl⟩ := List.map_eq_append_iff.1 hcs
    obtain ⟨before', nested, rfl, rfl, hnested⟩ := List.map_eq_append_iff.1 hfront
    have hsame : nested.map f = nested := by
      refine (List.map_congr_left fun c hc => ?_).trans (List.map_id nested)
      exact hother c (mem_of_mem_nested hflat _ (hnested ▸ List.mem_map_of_mem hc))
    exact ⟨before', pieces, back', by rw [← hnested, hsame], hflat, hpieces⟩
  · rintro ⟨before, pieces, after, rfl, hflat, hpieces⟩
    refine ⟨before.map f, pieces, after.map f, ?_, hflat, hpieces⟩
    have hsame : (join mark pieces).map f = join mark pieces :=
      (List.map_congr_left fun c hc => hmark c (mem_of_mem_nested hflat c hc)).trans (List.map_id _)
    rw [List.map_append, List.map_append, hsame]

theorem isPrefixOf_map {mark : List Char} {f : Char → Char} (hmark : ∀ c ∈ mark, f c = c)
    (hother : ∀ c, f c ∈ mark → f c = c) (cs : List Char) :
    mark.isPrefixOf (cs.map f) = mark.isPrefixOf cs := by
  induction mark generalizing cs with
  | nil => rfl
  | cons m mark ih =>
    cases cs with
    | nil => rfl
    | cons c cs =>
      have hsame : (m == f c) = (m == c) := by
        rw [Bool.eq_iff_iff, beq_iff_eq, beq_iff_eq]
        constructor
        · rintro rfl
          exact hother c List.mem_cons_self
        · rintro rfl
          exact (hmark m List.mem_cons_self).symm
      rw [List.map_cons, List.isPrefixOf, List.isPrefixOf, hsame,
        ih (List.forall_mem_cons.1 hmark).2 fun c hc => hother c (List.mem_cons_of_mem m hc)]

theorem map_remove {mark : List Char} {f : Char → Char} (hmark : ∀ c ∈ mark, f c = c)
    (hother : ∀ c, f c ∈ mark → f c = c) (cs : List Char) :
    (remove mark cs).map f = remove mark (cs.map f) := by
  suffices h : ∀ skip, (replaceFrom mark [] skip cs).map f = replaceFrom mark [] skip (cs.map f) from
    h 0
  induction cs with
  | nil => exact fun _ => rfl
  | cons c cs ih =>
    intro skip
    cases skip with
    | succ skip => exact ih skip
    | zero =>
      have hfound := isPrefixOf_map hmark hother (c :: cs)
      rw [List.map_cons] at hfound ⊢
      rw [replaceFrom, replaceFrom, hfound]
      split
      · exact ih _
      · exact congrArg (f c :: ·) (ih 0)

theorem infix_append_cons_iff {sep : Char} {mark : List Char} (h : sep ∉ mark)
    (front back : List Char) :
    mark <:+: front ++ sep :: back ↔ mark <:+: front ∨ mark <:+: back := by
  constructor
  · rintro ⟨u, w, huw⟩
    rcases List.append_eq_append_iff.1 huw with ⟨more, rfl, -⟩ | ⟨rest, hover, hback⟩
    · exact Or.inl ⟨u, more, rfl⟩
    · cases rest with
      | nil => exact Or.inl ⟨u, [], by simpa using hover⟩
      | cons c rest =>
        obtain ⟨rfl, rfl⟩ : sep = c ∧ back = rest ++ w := List.cons.inj hback
        rcases List.append_eq_append_iff.1 hover with ⟨start, rfl, hmark⟩ | ⟨start, rfl, hmark⟩
        · exact absurd (hmark ▸ List.mem_append_right start List.mem_cons_self) h
        · cases start with
          | nil =>
            have hfirst : sep :: rest = mark := hmark
            exact absurd (hfirst ▸ List.mem_cons_self) h
          | cons d start =>
            obtain ⟨-, rfl⟩ := List.cons.inj hmark
            exact Or.inr ⟨start, w, rfl⟩
  · rintro (hfront | hback)
    · exact hfront.trans (List.prefix_append _ _).isInfix
    · exact hback.trans (List.suffix_append_of_suffix (List.suffix_cons sep back)).isInfix

theorem infix_join_iff {sep : Char} {mark : List Char} (hne : mark ≠ []) (h : sep ∉ mark)
    (ps : List (List Char)) : mark <:+: join [sep] ps ↔ ∃ p ∈ ps, mark <:+: p := by
  induction ps with
  | nil => simpa [join] using hne
  | cons p ps ih =>
    by_cases hps : ps = []
    · subst hps
      simp [join]
    · rw [join_cons [sep] p hps, List.append_assoc, List.singleton_append,
        infix_append_cons_iff h, ih]
      simp only [List.mem_cons, exists_eq_or_imp]

end ThemedSheets.Text
