import ThemedSheets.Proofs.Number.Digits
import ThemedSheets.Proofs.Sass.Places
/- Reading a refusal that tells of a place by the name of its file. The first written place counts, and
   where it ends only the name that stands in it matters: what is read up to the words before the name
   is read without looking further (`placeAtStart?_local`). So of two texts that differ in that name
   and behind it, both names standing for the source itself, the same failure is read
   (`PlacedRefusal.failureOf_text`). -/
namespace ThemedSheets.Sass
open ThemedSheets.Text ThemedSheets.Number

/-! ## Reading no further than a character -/

theorem digitRun?_append_cons {c : Char} (hc : isDigit c = false) (xs ys : List Char) :
    digitRun? (xs ++ c :: ys) = (digitRun? xs).map fun (ds, rest) => (ds, rest ++ c :: ys) := by
  simp only [digitRun?, takeWhile_append_cons hc, dropWhile_append_cons hc]
  split <;> rfl

theorem columnPart_append_cons {c : Char} (hdigit : isDigit c = false) (hcolon : c ≠ ':')
    (xs ys : List Char) :
    columnPart (xs ++ c :: ys) = ((columnPart xs).1, (columnPart xs).2 ++ c :: ys) := by
  cases xs with
  | nil => simp [columnPart, hcolon]
  | cons x xs =>
    by_cases hx : x = ':'
    · subst hx
      simp only [List.cons_append, columnPart, digitRun?_append_cons hdigit]
      cases digitRun? xs <;> rfl
    · simp [columnPart, hx]

/-! ## A place whose name is not looked at -/

theorem lineAndColumn?_append_cons {c : Char} (hdigit : isDigit c = false) (hcolon : c ≠ ':')
    {xs : List Char} (h : 8 ≤ xs.length) (ys : List Char) :
    lineAndColumn? (xs ++ c :: ys) =
      (lineAndColumn? xs).map fun (line, column, rest) => (line, column, rest ++ c :: ys) := by
  rw [lineAndColumn?, lineAndColumn?, afterStart?_append (Nat.le_trans (by decide) h)]
  cases afterStart? beforeLine xs with
  | none => rfl
  | some rest =>
    simp only [Option.map_some, Option.bind_some, digitRun?_append_cons hdigit]
    cases digitRun? rest with
    | none => rfl
    | some run => simp only [Option.map_some, columnPart_append_cons hdigit hcolon]

/-- Up to the words before a name, a place is read without looking at what follows them: either it is
read already, or the name is what follows. -/
theorem placeAtStart?_local {cs : List Char} (h : 8 ≤ cs.length) :
    (∃ found, ∀ more, placeAtStart? (cs ++ beforeName ++ more) = found) ∨
      ∃ line column, ∀ more,
        placeAtStart? (cs ++ beforeName ++ more) = placeIn line column more := by
  have hread : ∀ more, lineAndColumn? (cs ++ beforeName ++ more) =
      (lineAndColumn? cs).map fun (line, column, rest) =>
        (line, column, rest ++ beforeName ++ more) := by
    intro more
    simp only [List.append_assoc]
    exact lineAndColumn?_append_cons (by decide) (by decide) h _
  simp only [placeAtStart?_eq, hread]
  cases lineAndColumn? cs with
  | none => exact Or.inl ⟨none, fun more => rfl⟩
  | some found =>
    obtain ⟨line, column, rest⟩ := found
    simp only [Option.map_some, Option.bind_some]
    have hof : ∀ more, afterStart? beforeName (rest ++ beforeName ++ more) =
        (afterStart? beforeName (rest ++ beforeName)).map (· ++ more) :=
      fun more => afterStart?_append (by simp) more
    simp only [hof]
    cases hname : afterStart? beforeName (rest ++ beforeName) with
    | none => exact Or.inl ⟨none, fun more => rfl⟩
    | some name =>
      -- what is left of the text is nothing, or it ends with the blank that ends the words
      rcases List.eq_nil_or_concat name with rfl | ⟨name, last, rfl⟩
      · exact Or.inr ⟨line, column, fun more => rfl⟩
      · have hlast : last = ' ' := by
          have hends := congrArg List.getLast? (eq_append_of_afterStart? hname)
          simpa [beforeName, List.getLast?_cons] using hends.symm
        refine Or.inl ⟨placeIn line column name, fun more => ?_⟩
        simp only [Option.map_some, Option.bind_some, placeIn, hlast, List.append_assoc,
          List.singleton_append, List.concat_eq_append,
          takeWhile_append_cons (p := (!endsName ·)) (c := ' ') (by decide)]

/-! ## Refusals with a place -/

/-- What is told of a written place. -/
def WrittenPlace.told (place : WrittenPlace) : List Char × Option (List Char) × Option String :=
  (place.line, place.column, namedFile? place.file)

theorem failureOf_congr {text text' : String}
    (hmessage : refusalMessage (trim text.toList) = refusalMessage (trim text'.toList))
    (hplace : (place? (trim text.toList)).map WrittenPlace.told
      = (place? (trim text'.toList)).map WrittenPlace.told) :
    failureOf text = failureOf text' := by
  unfold failureOf
  simp only [hmessage]
  cases hread : place? (trim text.toList) with
  | none =>
    cases hread' : place? (trim text'.toList) with
    | none => rfl
    | some place' => simp [hread, hread'] at hplace
  | some place =>
    cases hread' : place? (trim text'.toList) with
    | none => simp [hread, hread'] at hplace
    | some place' =>
      simp only [hread, hread', Option.map_some, WrittenPlace.told, Option.some.injEq,
        Prod.mk.injEq] at hplace
      obtain ⟨hline, hcolumn, hfile⟩ := hplace
      simp only [hline, hcolumn, hfile]

/-- A name that can be read as one, and that stands for the source itself. -/
structure IsOwnName (name : List Char) : Prop where
  ne_nil : name ≠ []
  unended : ∀ c ∈ name, endsName c = false
  stem : (Path.ofString (String.ofList name)).stem = ownStem

theorem IsOwnName.namedFile?_eq_none {name : List Char} (h : IsOwnName name) :
    namedFile? name = none := by
  simp only [namedFile?, h.stem, if_true]

/-- A refusal with a place: a message, on a line below it the line and the column, the file unless it
is the source itself, and what follows, where the source may be called by its name again. A place in
the first line would be part of the message. -/
structure PlacedRefusal where
  message : List Char
  indent : List Char
  line : List Char
  column : Option (List Char)
  file : Option (List Char)
  rest : List Char → List Char
  message_shown : ∃ c ∈ message, isBlank c = false
  line_digits : line ≠ [] ∧ ∀ c ∈ line, isDigit c = true
  column_digits : ∀ ds ∈ column, ds ≠ [] ∧ ∀ c ∈ ds, isDigit c = true
  file_unended : ∀ name ∈ file, name ≠ [] ∧ ∀ c ∈ name, endsName c = false
  rest_ended : ∀ name, ∀ c ∈ (rest name).head?, endsName c = true

namespace PlacedRefusal

def position (r : PlacedRefusal) : List Char :=
  beforeLine ++ r.line ++ r.column.elim [] (':' :: ·)

def text (r : PlacedRefusal) (name : List Char) : List Char :=
  r.message ++ '\n' :: r.indent ++ r.position ++ beforeName ++ (r.file.getD name ++ r.rest name)

theorem length_position_le (r : PlacedRefusal) : 8 ≤ r.position.length := by
  have hwords : beforeLine.length = 8 := by decide
  rw [position, List.append_assoc, List.length_append, hwords]
  exact Nat.le_add_right 8 _

theorem placeAtStart?_position (r : PlacedRefusal) (more : List Char) :
    placeAtStart? (r.position ++ beforeName ++ more) = placeIn r.line r.column more := by
  have hread := lineAndColumn?_append r.line_digits r.column_digits more
  rw [placeAtStart?_eq, position]
  rw [columnText] at hread
  simp only [hread, Option.bind_some, afterStart?_self_append]

/-- What is told of the first place is the same for two texts that differ behind the position only, if
it is for the places that begin there. The first place is not behind the position, and one before it
is read without looking behind. -/
theorem told_place?_append (r : PlacedRefusal) {more more' : List Char}
    (hfound : ∀ line column, ∃ place, placeIn line column more = some place)
    (hfound' : ∀ line column, ∃ place, placeIn line column more' = some place)
    (htold : ∀ line column, (placeIn line column more).map WrittenPlace.told
      = (placeIn line column more').map WrittenPlace.told) (before : List Char) :
    (place? (before ++ r.position ++ beforeName ++ more)).map WrittenPlace.told
      = (place? (before ++ r.position ++ beforeName ++ more')).map WrittenPlace.told := by
  induction before with
  | nil =>
    have hfirst : ∀ more place, placeIn r.line r.column more = some place →
        place? (r.position ++ beforeName ++ more) = some place := by
      intro more place hplace
      have hstart := r.placeAtStart?_position more
      rw [hplace] at hstart
      obtain ⟨c, cs, hcs⟩ : ∃ c cs, r.position ++ beforeName ++ more = c :: cs := by
        refine List.exists_cons_of_ne_nil fun hnil => ?_
        have hlength := r.length_position_le
        simp only [List.append_eq_nil_iff] at hnil
        rw [hnil.1.1] at hlength
        exact absurd hlength (by decide)
      rw [hcs] at hstart ⊢
      rw [place?, hstart, Option.some_or]
    obtain ⟨place, hplace⟩ := hfound r.line r.column
    obtain ⟨place', hplace'⟩ := hfound' r.line r.column
    have hsame := htold r.line r.column
    rw [hplace, hplace'] at hsame
    rw [List.nil_append, hfirst more place hplace, hfirst more' place' hplace', hsame]
  | cons c before ih =>
    have hlength : 8 ≤ (c :: (before ++ r.position)).length := by
      have := r.length_position_le
      simp only [List.length_cons, List.length_append]
      omega
    have hstart : (placeAtStart? (c :: (before ++ r.position) ++ beforeName ++ more)).map
          WrittenPlace.told
        = (placeAtStart? (c :: (before ++ r.position) ++ beforeName ++ more')).map
          WrittenPlace.told := by
      rcases placeAtStart?_local hlength with ⟨found, hall⟩ | ⟨line, column, hall⟩
      · rw [hall, hall]
      · rw [hall, hall, htold]
    simp only [List.cons_append] at hstart ⊢
    rw [place?, place?, Option.map_or, Option.map_or, hstart, ih]

/-! ## The name of the source -/

theorem name_spec (r : PlacedRefusal) {name : List Char} (h : IsOwnName name) :
    IsFileName (r.file.getD name) := by
  cases hfile : r.file with
  | none => exact ⟨h.ne_nil, h.unended⟩
  | some file => exact r.file_unended file hfile

/-- Trimming leaves the line feed behind the message, for the words of the place are no blanks. -/
theorem exists_trim_text (r : PlacedRefusal) (name : List Char) :
    ∃ more, trim (r.text name) = trimLeft r.message ++ '\n' :: more := by
  have hwords : beforeLine = 'o' :: "n line ".toList := rfl
  obtain ⟨tail, htail⟩ : ∃ tail, r.text name = r.message ++ ('\n' :: r.indent ++ 'o' :: tail) := by
    simp only [text, position, hwords, List.append_assoc, List.cons_append]
    exact ⟨_, rfl⟩
  have hright := trimRight_append_cons (c := 'o') (by decide)
    (trimLeft r.message ++ '\n' :: r.indent) tail
  refine ⟨r.indent ++ 'o' :: trimRight tail, ?_⟩
  rw [trim, htail, trimLeft_append r.message_shown]
  simpa only [List.append_assoc, List.cons_append] using hright

/-- **The name of the source does not show in the failure.** Two names that stand for the source give
refusals that are read as the same failure. -/
theorem failureOf_text (r : PlacedRefusal) {name name' : List Char} (h : IsOwnName name)
    (h' : IsOwnName name') :
    failureOf (String.ofList (r.text name)) = failureOf (String.ofList (r.text name')) := by
  have hmessage : ∀ name, refusalMessage (trim (r.text name))
      = refusalMessage (trimLeft r.message ++ ['\n']) := by
    intro name
    obtain ⟨more, hmore⟩ := r.exists_trim_text name
    rw [hmore]
    simp only [refusalMessage, firstLine, takeWhile_append_cons (c := '\n')
      (p := (!isLineEnd ·)) (by decide), List.append_eq_nil_iff, List.cons_ne_nil, and_false,
      if_false]
  have hplace : ∀ {name}, IsOwnName name → ∀ line column,
      placeIn line column (r.file.getD name ++ r.rest name)
        = some ⟨line, column, r.file.getD name⟩ := fun hname =>
    placeIn_append (r.name_spec hname) (r.rest_ended _)
  have hfile : namedFile? (r.file.getD name) = namedFile? (r.file.getD name') := by
    cases r.file with
    | none => exact h.namedFile?_eq_none.trans h'.namedFile?_eq_none.symm
    | some file => rfl
  apply failureOf_congr
  · rw [String.toList_ofList, String.toList_ofList, hmessage, hmessage]
  · simp only [String.toList_ofList, place?_trim]
    refine r.told_place?_append (fun line column => ⟨_, hplace h line column⟩)
      (fun line column => ⟨_, hplace h' line column⟩) (fun line column => ?_) _
    rw [hplace h, hplace h', Option.map_some, Option.map_some]
    simp only [WrittenPlace.told, hfile]

end PlacedRefusal

/-! ## Numbers that can be read -/

/-- The digits of a number that stands somewhere in a text. -/
structure IsNumberIn (text ds : List Char) : Prop where
  ne_nil : ds ≠ []
  digits : ∀ c ∈ ds, isDigit c = true
  inside : ds <:+: text

/-- A text in which no number has too many digits to be read. -/
def HasShortNumbers (text : List Char) : Prop :=
  ∀ ds, IsNumberIn text ds → ds.length ≤ maxDecimalDigits

theorem IsNumberIn.mono {text text' ds : List Char} (h : IsNumberIn text ds)
    (hinside : text <:+: text') : IsNumberIn text' ds :=
  { h with inside := h.inside.trans hinside }

theorem numbers_of_place? {cs : List Char} {place : WrittenPlace} (h : place? cs = some place) :
    IsNumberIn cs place.line ∧ ∀ ds ∈ place.column, IsNumberIn cs ds := by
  obtain ⟨before, after, rfl, ⟨hline, hcolumn, -, more, -, rfl⟩, -⟩ := place?_eq_some_iff.1 h
  constructor
  · refine ⟨hline.1, hline.2, before ++ beforeLine, ?_⟩
    exact ⟨columnText place.column ++ beforeName ++ (place.file ++ more), by simp⟩
  · intro ds hds
    refine ⟨(hcolumn ds hds).1, (hcolumn ds hds).2, before ++ beforeLine ++ place.line ++ [':'], ?_⟩
    exact ⟨beforeName ++ (place.file ++ more), by simp [columnText, Option.mem_def.1 hds]⟩

theorem readNumber_of_short {text ds : List Char} (h : HasShortNumbers text)
    (hds : IsNumberIn text ds) : ∃ n, readNumber ds = .ok n := by
  exact ⟨_, by rw [readNumber, readInt?_of_digits hds.digits hds.ne_nil (h ds hds)]⟩

theorem failureOf_of_short {text : String} (h : HasShortNumbers text.toList) :
    ∃ e, failureOf text = .ok e := by
  unfold failureOf
  dsimp only
  cases hplace : place? (trim text.toList) with
  | none => exact ⟨_, rfl⟩
  | some place =>
    obtain ⟨hline, hcolumn⟩ := numbers_of_place? hplace
    obtain ⟨line, hread⟩ := readNumber_of_short h (hline.mono (trim_isInfix _))
    cases hcol : place.column with
    | none =>
      simp only [hread, hcol]
      exact ⟨_, rfl⟩
    | some ds =>
      obtain ⟨column, hread'⟩ :=
        readNumber_of_short h ((hcolumn ds (by simp [hcol])).mono (trim_isInfix _))
      simp only [hread, hcol, hread']
      exact ⟨_, rfl⟩

end ThemedSheets.Sass
