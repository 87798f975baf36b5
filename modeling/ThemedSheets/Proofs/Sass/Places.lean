import ThemedSheets.Proofs.Text.Ends
import ThemedSheets.Sass.Refusal
/- Places in the text of a refusal. A place stands at the start of a text if the text begins with its
   words, and its name goes as far as it can (`WrittenPlace.StandsAt`). That is what is read there
   (`placeAtStart?_eq_some_iff`), so what is read from a whole text is the place that stands first in
   it (`place?_eq_some_iff`), with or without the blanks around the text. -/
namespace ThemedSheets.Sass
open ThemedSheets.Text

/-! ## The words of a place -/

def beforeLine : List Char := "on line ".toList

def beforeName : List Char := " of ".toList

/-- The words for a column, if there is one. -/
def columnText (column : Option (List Char)) : List Char := column.elim [] (':' :: ·)

/-- A number that is written in digits. -/
def IsDigits (ds : List Char) : Prop := ds ≠ [] ∧ ∀ c ∈ ds, isDigit c = true

/-- A name of a file that can be read as one. -/
def IsFileName (name : List Char) : Prop := name ≠ [] ∧ ∀ c ∈ name, endsName c = false

/-- What follows a name: nothing, or a text that begins with a blank or a comma. -/
def EndsName (rest : List Char) : Prop := ∀ c ∈ rest.head?, endsName c = true

/-- A text begins with a place. -/
structure WrittenPlace.StandsAt (place : WrittenPlace) (cs : List Char) : Prop where
  line : IsDigits place.line
  column : ∀ ds ∈ place.column, IsDigits ds
  file : IsFileName place.file
  text : ∃ rest, EndsName rest ∧
    cs = beforeLine ++ place.line ++ columnText place.column ++ beforeName ++ (place.file ++ rest)

/-- A place stands in a text, and none stands before it. -/
def WrittenPlace.IsFirstIn (place : WrittenPlace) (cs : List Char) : Prop :=
  ∃ before after, cs = before ++ after ∧ place.StandsAt after ∧
    ∀ earlier later, before = earlier ++ later → later ≠ [] →
      ∀ other : WrittenPlace, ¬ other.StandsAt (later ++ after)

/-! ## Reading at the start of a text -/

theorem digitRun?_append {ds rest : List Char} (h : IsDigits ds)
    (hend : ∀ c ∈ rest.head?, isDigit c = false) : digitRun? (ds ++ rest) = some (ds, rest) := by
  obtain ⟨hne, hdigits⟩ := h
  rw [digitRun?, takeWhile_append_of_ended hdigits hend, dropWhile_append_of_ended hdigits hend]
  cases ds with
  | nil => exact absurd rfl hne
  | cons d ds => rfl

theorem digitRun?_spec {cs ds rest : List Char} (h : digitRun? cs = some (ds, rest)) :
    IsDigits ds ∧ cs = ds ++ rest := by
  unfold digitRun? at h
  split at h
  · simp at h
  · next hne =>
    obtain ⟨rfl, rfl⟩ := Prod.mk.inj (Option.some.inj h)
    exact ⟨⟨hne, fun _ => List.mem_takeWhile_imp⟩, List.takeWhile_append_dropWhile.symm⟩

theorem columnPart_append {column : Option (List Char)} (h : ∀ ds ∈ column, IsDigits ds)
    (more : List Char) :
    columnPart (columnText column ++ beforeName ++ more) = (column, beforeName ++ more) := by
  cases column with
  | none => rfl
  | some ds =>
    have hend : ∀ c ∈ (beforeName ++ more).head?, isDigit c = false := by
      intro c hc
      obtain rfl : ' ' = c := Option.some.inj hc
      decide
    rw [columnText, Option.elim_some, List.cons_append, List.cons_append, List.append_assoc,
      columnPart, digitRun?_append (h ds rfl) hend]

theorem columnPart_spec (cs : List Char) :
    (∀ ds ∈ (columnPart cs).1, IsDigits ds) ∧
      cs = columnText (columnPart cs).1 ++ (columnPart cs).2 := by
  unfold columnPart
  split
  · split
    · next ds rest hrun =>
      obtain ⟨hdigits, hcs⟩ := digitRun?_spec hrun
      refine ⟨fun ds' hds' => Option.some.inj hds' ▸ hdigits, ?_⟩
      rw [hcs]
      rfl
    · exact ⟨fun ds hds => absurd hds (Option.not_mem_none _), rfl⟩
  · exact ⟨fun ds hds => absurd hds (Option.not_mem_none _), rfl⟩

/-- The place whose file begins a text. -/
def placeIn (line : List Char) (column : Option (List Char)) (cs : List Char) :
    Option WrittenPlace :=
  match cs.takeWhile (!endsName ·) with
  | [] => none
  | file => some ⟨line, column, file⟩

theorem placeIn_append {name rest : List Char} (hname : IsFileName name) (hrest : EndsName rest)
    (line : List Char) (column : Option (List Char)) :
    placeIn line column (name ++ rest) = some ⟨line, column, name⟩ := by
  obtain ⟨hne, hunended⟩ := hname
  have htake : (name ++ rest).takeWhile (!endsName ·) = name :=
    takeWhile_append_of_ended (fun c hc => by simp [hunended c hc]) fun c hc => by
      simp [hrest c hc]
  obtain ⟨c, cs, rfl⟩ := List.exists_cons_of_ne_nil hne
  rw [placeIn, htake]

theorem placeIn_spec {line cs : List Char} {column : Option (List Char)} {place : WrittenPlace}
    (h : placeIn line column cs = some place) :
    place.line = line ∧ place.column = column ∧ IsFileName place.file ∧
      ∃ rest, EndsName rest ∧ cs = place.file ++ rest := by
  unfold placeIn at h
  split at h
  · simp at h
  · next hne =>
    rw [← Option.some.inj h]
    refine ⟨rfl, rfl, ⟨hne, fun c hc => ?_⟩, cs.dropWhile (!endsName ·), fun c hc => ?_,
      List.takeWhile_append_dropWhile.symm⟩
    · simpa using List.mem_takeWhile_imp hc
    · simpa using head?_dropWhile cs c hc

/-- The line and the column at the start of a text, and what follows them. -/
def lineAndColumn? (cs : List Char) : Option (List Char × Option (List Char) × List Char) :=
  ((afterStart? beforeLine cs).bind digitRun?).map fun (line, rest) =>
    (line, columnPart rest)

theorem placeAtStart?_eq (cs : List Char) :
    placeAtStart? cs = (lineAndColumn? cs).bind fun (line, column, rest) =>
      (afterStart? beforeName rest).bind (placeIn line column) := by
  rw [lineAndColumn?, Option.bind_map]
  rfl

theorem lineAndColumn?_append {line : List Char} {column : Option (List Char)}
    (hline : IsDigits line) (hcolumn : ∀ ds ∈ column, IsDigits ds) (more : List Char) :
    lineAndColumn? (beforeLine ++ line ++ columnText column ++ beforeName ++ more)
      = some (line, column, beforeName ++ more) := by
  have hend : ∀ c ∈ (columnText column ++ beforeName ++ more).head?, isDigit c = false := by
    intro c hc
    cases column with
    | none =>
      obtain rfl : ' ' = c := Option.some.inj hc
      decide
    | some ds =>
      obtain rfl : ':' = c := Option.some.inj hc
      decide
  have hrun := digitRun?_append hline hend
  simp only [List.append_assoc] at hrun ⊢
  rw [lineAndColumn?, afterStart?_self_append, Option.bind_some, hrun, Option.map_some]
  simp only [← List.append_assoc, columnPart_append hcolumn]

theorem lineAndColumn?_spec {cs line rest : List Char} {column : Option (List Char)}
    (h : lineAndColumn? cs = some (line, column, rest)) :
    IsDigits line ∧ (∀ ds ∈ column, IsDigits ds) ∧
      cs = beforeLine ++ line ++ columnText column ++ rest := by
  obtain ⟨⟨ds, after⟩, hrun, heq⟩ := Option.map_eq_some_iff.1 h
  obtain ⟨words, hwords, hdigits⟩ := Option.bind_eq_some_iff.1 hrun
  obtain ⟨hline, rfl⟩ := digitRun?_spec hdigits
  obtain ⟨rfl, hpart⟩ := Prod.mk.inj heq
  obtain ⟨hcolumn, hafter⟩ := columnPart_spec after
  rw [hpart] at hcolumn hafter
  refine ⟨hline, hcolumn, ?_⟩
  rw [eq_append_of_afterStart? hwords, List.append_assoc, List.append_assoc, ← hafter]

theorem placeAtStart?_eq_some_iff {cs : List Char} {place : WrittenPlace} :
    placeAtStart? cs = some place ↔ place.StandsAt cs := by
  rw [placeAtStart?_eq]
  constructor
  · intro h
    obtain ⟨⟨line, column, rest⟩, hread, hfile⟩ := Option.bind_eq_some_iff.1 h
    obtain ⟨name, hname, hplace⟩ := Option.bind_eq_some_iff.1 hfile
    obtain ⟨hline, hcolumn, rfl⟩ := lineAndColumn?_spec hread
    obtain ⟨rfl, rfl, hisname, more, hmore, rfl⟩ := placeIn_spec hplace
    refine ⟨hline, hcolumn, hisname, more, hmore, ?_⟩
    rw [eq_append_of_afterStart? hname, List.append_assoc _ beforeName]
  · rintro ⟨hline, hcolumn, hisname, more, hmore, rfl⟩
    rw [lineAndColumn?_append hline hcolumn, Option.bind_some]
    simp only [afterStart?_self_append, Option.bind_some]
    exact placeIn_append hisname hmore _ _

theorem placeAtStart?_eq_none_iff {cs : List Char} :
    placeAtStart? cs = none ↔ ∀ place : WrittenPlace, ¬ place.StandsAt cs := by
  simp only [Option.eq_none_iff_forall_ne_some, ne_eq, placeAtStart?_eq_some_iff]

theorem not_standsAt_nil (place : WrittenPlace) : ¬ place.StandsAt [] := by
  rintro ⟨-, -, -, more, -, htext⟩
  cases htext

/-! ## Reading a whole text -/

/-- **What is read from a text is the place that stands first in it.** -/
theorem place?_eq_some_iff {cs : List Char} {place : WrittenPlace} :
    place? cs = some place ↔ place.IsFirstIn cs := by
  induction cs with
  | nil =>
    constructor
    · intro h
      cases h
    · rintro ⟨before, after, hcs, hstands, -⟩
      obtain ⟨-, rfl⟩ := List.append_eq_nil_iff.1 hcs.symm
      exact absurd hstands (not_standsAt_nil place)
  | cons c cs ih =>
    rw [place?, Option.or_eq_some_iff, placeAtStart?_eq_some_iff, placeAtStart?_eq_none_iff, ih]
    constructor
    · rintro (hstands | ⟨hnone, before, after, rfl, hstands, hfirst⟩)
      · refine ⟨[], c :: cs, rfl, hstands, fun earlier later hnil hlater => ?_⟩
        exact absurd (List.append_eq_nil_iff.1 hnil.symm).2 hlater
      · refine ⟨c :: before, after, rfl, hstands, fun earlier later hcut hlater => ?_⟩
        cases earlier with
        | nil =>
          rw [List.nil_append] at hcut
          exact hcut ▸ hnone
        | cons e earlier => exact hfirst earlier later (List.cons.inj hcut).2 hlater
    · rintro ⟨before, after, hcs, hstands, hfirst⟩
      cases before with
      | nil => exact Or.inl (hcs ▸ hstands)
      | cons b before =>
        obtain ⟨rfl, rfl⟩ := List.cons.inj hcs
        refine Or.inr ⟨hfirst [] (c :: before) rfl (List.cons_ne_nil _ _), before, after, rfl,
          hstands, fun earlier later hcut hlater => ?_⟩
        exact hfirst (c :: earlier) later (congrArg (c :: ·) hcut) hlater

/-! ## The blanks around a text -/

theorem placeAtStart?_blank {c : Char} (hc : isBlank c = true) (cs : List Char) :
    placeAtStart? (c :: cs) = none := by
  rw [placeAtStart?_eq_none_iff]
  rintro place ⟨-, -, -, more, -, htext⟩
  obtain rfl : c = 'o' := (List.cons.inj htext).1
  exact absurd hc (by decide)

theorem place?_trimLeft (cs : List Char) : place? (trimLeft cs) = place? cs := by
  induction cs with
  | nil => rfl
  | cons c cs ih =>
    by_cases hc : isBlank c = true
    · rw [trimLeft, List.dropWhile_cons_of_pos hc, place?, placeAtStart?_blank hc, Option.none_or]
      exact ih
    · rw [trimLeft, List.dropWhile_cons_of_neg hc]

theorem endsName_of_isBlank {c : Char} (h : isBlank c = true) : endsName c = true := by
  rw [endsName, h, Bool.true_or]

section
variable {blanks : List Char} (hblanks : ∀ c ∈ blanks, isBlank c = true)
include hblanks

/-- The name of a place does not end in a blank, so blanks behind a text make no place longer. -/
theorem standsAt_append_blanks {place : WrittenPlace} {cs : List Char} :
    place.StandsAt (cs ++ blanks) ↔ place.StandsAt cs := by
  constructor
  · rintro ⟨hline, hcolumn, hisname, more, hmore, htext⟩
    refine ⟨hline, hcolumn, hisname, ?_⟩
    rw [← List.append_assoc] at htext
    rcases List.append_eq_append_iff.1 htext with ⟨inner, hname, rfl⟩ | ⟨inner, rfl, rfl⟩
    · rcases List.eq_nil_or_concat inner with rfl | ⟨front, last, rfl⟩
      · exact ⟨[], by simp [EndsName], by rw [List.append_nil, hname, List.append_nil]⟩
      · -- else the name would reach into the blanks
        have hlast : last ∈ place.file := by
          have hends := congrArg List.getLast? hname
          rw [List.concat_eq_append, ← List.append_assoc, List.getLast?_concat,
            List.getLast?_append, List.getLast?_eq_some_getLast hisname.1, Option.some_or] at hends
          exact Option.some.inj hends ▸ List.getLast_mem hisname.1
        have hblank := endsName_of_isBlank (hblanks last (by simp))
        rw [hisname.2 last hlast] at hblank
        cases hblank
    · refine ⟨inner, fun c hc => hmore c ?_, List.append_assoc _ _ _⟩
      rw [List.head?_append, Option.mem_def.1 hc, Option.some_or]
      rfl
  · rintro ⟨hline, hcolumn, hisname, more, hmore, rfl⟩
    refine ⟨hline, hcolumn, hisname, more ++ blanks, fun c hc => ?_, by simp⟩
    rw [List.head?_append, Option.mem_def, Option.or_eq_some_iff] at hc
    rcases hc with hc | ⟨-, hc⟩
    · exact hmore c hc
    · exact endsName_of_isBlank (hblanks c (List.mem_of_head? hc))

theorem place?_append_blanks (cs : List Char) : place? (cs ++ blanks) = place? cs := by
  induction cs with
  | nil =>
    have hnone : trimLeft (blanks ++ []) = [] :=
      dropWhile_append_of_ended hblanks fun c hc => absurd hc (Option.not_mem_none c)
    rw [List.nil_append, ← List.append_nil blanks, ← place?_trimLeft, hnone]
  | cons c cs ih =>
    have hstart : placeAtStart? (c :: cs ++ blanks) = placeAtStart? (c :: cs) := by
      refine Option.ext fun place => ?_
      rw [placeAtStart?_eq_some_iff, placeAtStart?_eq_some_iff, standsAt_append_blanks hblanks]
    rw [List.cons_append] at hstart ⊢
    rw [place?, place?, hstart, ih]

end

theorem place?_trim (cs : List Char) : place? (trim cs) = place? cs := by
  obtain ⟨blanks, hcs, hblanks⟩ := exists_blanks_trimRight (trimLeft cs)
  rw [trim, ← place?_append_blanks hblanks, ← hcs, place?_trimLeft]

end ThemedSheets.Sass
