import Mathlib.Data.List.TakeWhile
import ThemedSheets.Text.Blank
/- Beginnings and ends of texts. A run of characters stops at one that is none of them, whatever
   stands behind it, and so does trimming at a character that is no blank; a text that is not blank
   has a first such character (`blank_or_eq_append`). Trimming takes the blanks around a text and
   nothing else (`exists_blanks_trim`), the same with more blanks around it (`trim_append_blanks`).
   The given start of a text is found exactly where the text has it (`eq_append_of_afterStart?`). -/
namespace ThemedSheets.Text

/-! ## Runs -/

section
variable {p : Char → Bool} {c : Char} (hc : p c = false)
include hc

theorem takeWhile_append_cons (xs ys : List Char) :
    (xs ++ c :: ys).takeWhile p = xs.takeWhile p := by
  induction xs with
  | nil => simp [hc]
  | cons x xs ih => simp only [List.cons_append, List.takeWhile_cons, ih]

theorem dropWhile_append_cons (xs ys : List Char) :
    (xs ++ c :: ys).dropWhile p = xs.dropWhile p ++ c :: ys := by
  induction xs with
  | nil => simp [hc]
  | cons x xs ih =>
    simp only [List.cons_append, List.dropWhile_cons, ih]
    split <;> rfl

end

section
variable {p : Char → Bool}

theorem head?_dropWhile (cs : List Char) : ∀ c ∈ (cs.dropWhile p).head?, p c = false := by
  intro c hc
  have hfirst := List.head?_dropWhile_not p cs
  rwa [Option.mem_def.1 hc] at hfirst

variable {xs rest : List Char} (hrun : ∀ c ∈ xs, p c = true)
  (hend : ∀ c ∈ rest.head?, p c = false)
include hrun hend

theorem takeWhile_append_of_ended : (xs ++ rest).takeWhile p = xs := by
  rw [List.takeWhile_append_of_pos hrun]
  cases rest with
  | nil => simp
  | cons c rest => simp [hend c rfl]

theorem dropWhile_append_of_ended : (xs ++ rest).dropWhile p = rest := by
  rw [List.dropWhile_append_of_pos hrun]
  cases rest with
  | nil => rfl
  | cons c rest => simp [hend c rfl]

end

/-! ## Up to a character -/

theorem bne_of_not_mem {stop : Char} {cs : List Char} (h : stop ∉ cs) :
    ∀ c ∈ cs, (c != stop) = true := by
  intro c hc
  rw [bne_iff_ne]
  intro heq
  exact h (heq ▸ hc)

theorem not_mem_takeWhile_bne (stop : Char) (cs : List Char) :
    stop ∉ cs.takeWhile (· != stop) := by
  intro hmem
  simpa using List.mem_takeWhile_imp hmem

/-! ## Trimming -/

theorem trimLeft_append_cons {c : Char} (hc : isBlank c = false) (xs ys : List Char) :
    trimLeft (xs ++ c :: ys) = trimLeft xs ++ c :: ys :=
  dropWhile_append_cons hc xs ys

theorem trimRight_append_cons {c : Char} (hc : isBlank c = false) (xs ys : List Char) :
    trimRight (xs ++ c :: ys) = xs ++ c :: trimRight ys := by
  simp only [trimRight, List.reverse_append, List.reverse_cons, List.append_assoc,
    List.singleton_append, dropWhile_append_cons hc, List.reverse_reverse]

theorem trimLeft_append {xs : List Char} (h : ∃ c ∈ xs, isBlank c = false) (ys : List Char) :
    trimLeft (xs ++ ys) = trimLeft xs ++ ys := by
  obtain ⟨c, hmem, hc⟩ := h
  obtain ⟨before, after, rfl⟩ := List.append_of_mem hmem
  rw [List.append_assoc, List.cons_append, trimLeft_append_cons hc, trimLeft_append_cons hc,
    List.append_assoc, List.cons_append]

/-- A text is blank, or it has a first character that is no blank. -/
theorem blank_or_eq_append (cs : List Char) :
    (∀ c ∈ cs, isBlank c = true) ∨ ∃ blanks c rest, cs = blanks ++ c :: rest ∧
      (∀ b ∈ blanks, isBlank b = true) ∧ isBlank c = false := by
  have hcut := List.takeWhile_append_dropWhile (p := isBlank) (l := cs)
  have hblanks : ∀ b ∈ cs.takeWhile isBlank, isBlank b = true := fun _ => List.mem_takeWhile_imp
  cases hrest : cs.dropWhile isBlank with
  | nil => exact Or.inl (List.dropWhile_eq_nil_iff.1 hrest)
  | cons c rest =>
    have hc := head?_dropWhile (p := isBlank) cs c (by rw [hrest]; rfl)
    rw [hrest] at hcut
    exact Or.inr ⟨_, c, rest, hcut.symm, hblanks, hc⟩

theorem trimLeft_blanks_cons {blanks : List Char} {c : Char}
    (hblanks : ∀ b ∈ blanks, isBlank b = true) (hc : isBlank c = false) (rest : List Char) :
    trimLeft (blanks ++ c :: rest) = c :: rest := by
  rw [trimLeft_append_cons hc, trimLeft, List.dropWhile_eq_nil_iff.2 hblanks, List.nil_append]

theorem trimRight_of_blank {cs : List Char} (h : ∀ c ∈ cs, isBlank c = true) :
    trimRight cs = [] := by
  rw [trimRight, List.dropWhile_eq_nil_iff.2 fun c hc => h c (List.mem_reverse.1 hc),
    List.reverse_nil]

theorem trimRight_isPrefix (cs : List Char) : trimRight cs <+: cs := by
  have h := List.reverse_prefix.2 (List.dropWhile_suffix (l := cs.reverse) isBlank)
  rwa [List.reverse_reverse] at h

theorem exists_blanks_trimRight (cs : List Char) :
    ∃ blanks, cs = trimRight cs ++ blanks ∧ ∀ c ∈ blanks, isBlank c = true := by
  refine ⟨(cs.reverse.takeWhile isBlank).reverse, ?_, fun c hc => ?_⟩
  · rw [trimRight, ← List.reverse_append, List.takeWhile_append_dropWhile, List.reverse_reverse]
  · exact List.mem_takeWhile_imp (List.mem_reverse.1 hc)

theorem trimRight_append_blanks {blanks : List Char} (h : ∀ b ∈ blanks, isBlank b = true)
    (cs : List Char) : trimRight (cs ++ blanks) = trimRight cs := by
  have hblanks : ∀ b ∈ blanks.reverse, isBlank b = true := fun b hb => h b (List.mem_reverse.1 hb)
  rw [trimRight, List.reverse_append, List.dropWhile_append_of_pos hblanks, trimRight]

theorem trim_isInfix (cs : List Char) : trim cs <:+: cs :=
  (trimRight_isPrefix _).isInfix.trans (List.dropWhile_suffix _).isInfix

theorem trim_eq_nil_iff {cs : List Char} : trim cs = [] ↔ ∀ c ∈ cs, isBlank c = true := by
  constructor
  · intro h c hc
    cases hblank : isBlank c with
    | true => rfl
    | false =>
      obtain ⟨before, after, rfl⟩ := List.append_of_mem hc
      rw [trim, trimLeft_append_cons hblank, trimRight_append_cons hblank] at h
      simp at h
  · intro h
    rw [trim, trimLeft, List.dropWhile_eq_nil_iff.2 h]
    rfl

theorem trim_append_blanks {before after : List Char} (hbefore : ∀ b ∈ before, isBlank b = true)
    (hafter : ∀ b ∈ after, isBlank b = true) (cs : List Char) :
    trim (before ++ cs ++ after) = trim cs := by
  rcases blank_or_eq_append cs with hblank | ⟨blanks, c, rest, rfl, hblanks, hc⟩
  · have hall : ∀ b ∈ before ++ cs ++ after, isBlank b = true :=
      List.forall_mem_append.2 ⟨List.forall_mem_append.2 ⟨hbefore, hblank⟩, hafter⟩
    rw [trim_eq_nil_iff.2 hall, trim_eq_nil_iff.2 hblank]
  · have hfront : ∀ b ∈ before ++ blanks, isBlank b = true :=
      List.forall_mem_append.2 ⟨hbefore, hblanks⟩
    calc trim (before ++ (blanks ++ c :: rest) ++ after)
        = trim (before ++ blanks ++ c :: (rest ++ after)) := by simp
      _ = trimRight (c :: rest ++ after) := by rw [trim, trimLeft_blanks_cons hfront hc]; rfl
      _ = trim (blanks ++ c :: rest) := by
          rw [trimRight_append_blanks hafter, trim, trimLeft_blanks_cons hblanks hc]

def IsTrimmed (cs : List Char) : Prop :=
  (∀ c ∈ cs.head?, isBlank c = false) ∧ ∀ c ∈ cs.getLast?, isBlank c = false

instance (cs : List Char) : Decidable (IsTrimmed cs) :=
  decidable_of_iff (cs.head?.all (!isBlank ·) = true ∧ cs.getLast?.all (!isBlank ·) = true)
    (by simp [IsTrimmed, Option.all_eq_true])

theorem trim_of_isTrimmed {cs : List Char} (h : IsTrimmed cs) : trim cs = cs := by
  obtain ⟨hfirst, hlast⟩ := h
  rw [← List.head?_reverse] at hlast
  have hnone : ∀ c ∈ ([] : List Char), isBlank c = true := by simp
  have hleft : trimLeft cs = cs := dropWhile_append_of_ended hnone hfirst
  have hright : cs.reverse.dropWhile isBlank = cs.reverse := dropWhile_append_of_ended hnone hlast
  rw [trim, hleft, trimRight, hright, List.reverse_reverse]

/-- What trimming takes from a text. -/
theorem exists_blanks_trim (cs : List Char) :
    ∃ before after, cs = before ++ trim cs ++ after ∧ (∀ b ∈ before, isBlank b = true) ∧
      ∀ b ∈ after, isBlank b = true := by
  obtain ⟨after, hcut, hafter⟩ := exists_blanks_trimRight (trimLeft cs)
  refine ⟨cs.takeWhile isBlank, after, ?_, fun _ => List.mem_takeWhile_imp, hafter⟩
  rw [trim, List.append_assoc, ← hcut]
  exact List.takeWhile_append_dropWhile.symm

/-! ## Given starts -/

theorem isPrefix_append_iff {l xs ys : List Char} (h : ∀ c ∈ l, c ∉ ys) :
    l <+: xs ++ ys ↔ l <+: xs := by
  constructor
  · intro hl
    rcases List.prefix_or_prefix_of_prefix hl (List.prefix_append xs ys) with hshort | ⟨more, rfl⟩
    · exact hshort
    · -- what goes beyond the first text would begin the second
      rw [List.prefix_append_right_inj] at hl
      cases more with
      | nil => simp
      | cons c more =>
        have hmem : c ∈ ys := hl.mem List.mem_cons_self
        exact absurd hmem (h c (by simp))
  · exact fun hl => hl.trans (List.prefix_append xs ys)

theorem afterStart?_self_append (start more : List Char) :
    afterStart? start (start ++ more) = some more := by
  induction start with
  | nil => rfl
  | cons s start ih => rw [List.cons_append, afterStart?, if_pos rfl, ih]

theorem afterStart?_append {start cs : List Char} (h : start.length ≤ cs.length)
    (more : List Char) : afterStart? start (cs ++ more) = (afterStart? start cs).map (· ++ more) := by
  induction start generalizing cs with
  | nil => rfl
  | cons s start ih =>
    cases cs with
    | nil => simp at h
    | cons c cs =>
      simp only [List.cons_append, afterStart?]
      split
      · exact ih (by simpa using h)
      · rfl

theorem eq_append_of_afterStart? {start cs rest : List Char}
    (h : afterStart? start cs = some rest) : cs = start ++ rest := by
  induction start generalizing cs with
  | nil => exact Option.some.inj h
  | cons s start ih =>
    cases cs with
    | nil => simp [afterStart?] at h
    | cons c cs =>
      simp only [afterStart?] at h
      split at h
      · next heq => rw [heq, ih h, List.cons_append]
      · simp at h

end ThemedSheets.Text
