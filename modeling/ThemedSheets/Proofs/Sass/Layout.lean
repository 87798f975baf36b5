import ThemedSheets.Proofs.Sass.Located
import ThemedSheets.Proofs.Text.Replace
/- The layout of a refusal. Its first line announces the message; below it, indented, stand the words
   of the place, and behind them whatever the engine has to add. Reading such a text gives back what it
   was laid out from (`failureOf_refusalText`): a message without the first words of a place has no
   place in it (`place?_append_line`), and the place ends where the name of its file does, whatever
   follows. -/
namespace ThemedSheets.Sass
open ThemedSheets.Text ThemedSheets.Number

/-- A place with a line, perhaps a column, and a file, as it is written. -/
def writtenPlace (line : Nat) (column : Option Nat) (file : String) : WrittenPlace :=
  ⟨digitsOf 10 line, column.map (digitsOf 10), file.toList⟩

def WrittenPlace.words (place : WrittenPlace) : List Char :=
  beforeLine ++ place.line ++ columnText place.column ++ beforeName ++ place.file

def announcement : List Char := "Error: ".toList

/-- The text of a refusal: the announced message, and below it, indented, the words of the place and
what follows them. -/
def refusalText (message indent : String) (place : WrittenPlace) (rest : String) : String :=
  String.ofList (announcement ++ message.toList ++ '\n' ::
    (indent.toList ++ (place.words ++ rest.toList)))

example : refusalText "Undefined mixin." "        " (writtenPlace 3 (some 5) "a.scss") ", in mixin m"
    = "Error: Undefined mixin.\n        on line 3:5 of a.scss, in mixin m" := by decide +kernel

/-! ## Where the place is -/

theorem WrittenPlace.StandsAt.isPrefix {place : WrittenPlace} {cs : List Char}
    (h : place.StandsAt cs) : beforeLine <+: cs := by
  obtain ⟨-, -, -, rest, -, rfl⟩ := h
  simp only [List.append_assoc]
  exact List.prefix_append _ _

/-- In a line without the first words of a place there is none, nor does one go over the line's end. -/
theorem place?_append_line {front : List Char} (h : ¬ beforeLine <:+: front) (back : List Char) :
    place? (front ++ '\n' :: back) = place? back := by
  induction front with
  | nil => rw [List.nil_append, place?, placeAtStart?_blank (by decide), Option.none_or]
  | cons c front ih =>
    have hnone : placeAtStart? (c :: (front ++ '\n' :: back)) = none := by
      rw [placeAtStart?_eq_none_iff]
      intro place hstands
      have hstart := List.isPrefixOf_iff_prefix.2 hstands.isPrefix
      rw [← List.cons_append, isPrefixOf_append_cons (by decide)] at hstart
      exact h (List.isPrefixOf_iff_prefix.1 hstart).isInfix
    rw [List.cons_append, place?, hnone, Option.none_or]
    exact ih fun hinside => h (hinside.trans (List.suffix_cons c front).isInfix)

theorem place?_blanks_append {blanks : List Char} (h : ∀ c ∈ blanks, isBlank c = true)
    (cs : List Char) : place? (blanks ++ cs) = place? cs := by
  rw [← place?_trimLeft, trimLeft, List.dropWhile_append_of_pos h]
  exact place?_trimLeft cs

theorem isDigits_digitsOf (n : Nat) : IsDigits (digitsOf 10 n) :=
  ⟨Binary64.digitsOf_ne_nil n, fun _ hc => isSome_digitValue?_of_mem_digitsOf hc⟩

theorem place?_words {line : Nat} {column : Option Nat} {file : String} {rest : List Char}
    (hfile : IsFileName file.toList) (hrest : EndsName rest) :
    place? ((writtenPlace line column file).words ++ rest)
      = some (writtenPlace line column file) := by
  have hcolumn : ∀ ds ∈ column.map (digitsOf 10), IsDigits ds := by
    intro ds hds
    obtain ⟨c, -, rfl⟩ := Option.map_eq_some_iff.1 hds
    exact isDigits_digitsOf c
  have hstands : (writtenPlace line column file).StandsAt
      ((writtenPlace line column file).words ++ rest) :=
    ⟨isDigits_digitsOf line, hcolumn, hfile, rest, hrest, List.append_assoc _ _ _⟩
  refine place?_eq_some_iff.2 ⟨[], _, rfl, hstands, fun earlier later hnil hlater => ?_⟩
  exact absurd (List.append_eq_nil_iff.1 hnil.symm).2 hlater

theorem infix_of_infix_announced {message : List Char}
    (h : "on line".toList <:+: announcement ++ message) : "on line".toList <:+: message := by
  have hwords : "on line".toList = ['o', 'n', ' ', 'l', 'i', 'n', 'e'] := rfl
  have hfront : announcement ++ message = 'E' :: 'r' :: 'r' :: 'o' :: 'r' :: ':' :: ' ' :: message :=
    rfl
  rw [hwords, hfront] at h
  rw [hwords]
  simpa [List.infix_cons_iff, List.cons_prefix_cons] using h

/-! ## What is read -/

section
variable {message : String} (hmessage : ∀ c ∈ message.toList, isLineEnd c = false)
include hmessage

theorem refusalMessage_announced (more : List Char) :
    refusalMessage (announcement ++ message.toList ++ '\n' :: more) = message.toList := by
  have hfirst : firstLine (announcement ++ message.toList ++ '\n' :: more)
      = announcement ++ message.toList := by
    refine takeWhile_append_of_ended (fun c hc => ?_) fun c hc => ?_
    · rcases List.mem_append.1 hc with hc | hc
      · have hword : announcement.all (!isLineEnd ·) = true := by decide +kernel
        exact List.all_eq_true.1 hword c hc
      · rw [hmessage c hc]
        rfl
    · obtain rfl : '\n' = c := Option.some.inj hc
      decide
  have hstart : afterStart? announcement (announcement ++ message.toList) = some message.toList :=
    afterStart?_self_append _ _
  rw [refusalMessage, if_neg (by simp), hfirst]
  show (afterStart? announcement (announcement ++ message.toList)).getD _ = _
  rw [hstart, Option.getD_some]

/-- Neither the announcing word nor the words of the place begin with a blank, so trimming leaves the
first line. -/
theorem messageOf_refusalText (indent : String) (place : WrittenPlace) (rest : String) :
    messageOf (refusalText message indent place rest) = message := by
  have hwords : beforeLine = 'o' :: "n line ".toList := rfl
  obtain ⟨tail, htail⟩ : ∃ tail, place.words ++ rest.toList = 'o' :: tail := by
    rw [WrittenPlace.words, hwords]
    simp only [List.append_assoc, List.cons_append]
    exact ⟨_, rfl⟩
  have hfront : announcement = 'E' :: "rror: ".toList := rfl
  have hleft : trimLeft (announcement ++ (message.toList ++ '\n' :: (indent.toList ++ 'o' :: tail)))
      = announcement ++ (message.toList ++ '\n' :: (indent.toList ++ 'o' :: tail)) := by
    rw [hfront, List.cons_append]
    exact trimLeft_append_cons (c := 'E') (by decide) [] _
  have hright := trimRight_append_cons (c := 'o') (by decide)
    (announcement ++ (message.toList ++ '\n' :: indent.toList)) tail
  simp only [List.append_assoc, List.cons_append] at hright
  rw [messageOf, refusalText, String.toList_ofList, htail, trim, List.append_assoc, hleft, hright,
    ← List.append_assoc, refusalMessage_announced hmessage, String.ofList_toList]

/-- **Reading a refusal undoes its layout.** From a refusal that announces a message of one line,
without the first words of a place in it, and tells a line, perhaps a column, and a file, just that is
read, whatever indents the place and whatever follows the name of the file behind a blank or a comma.
A file with the stem of the source is not named. -/
theorem failureOf_refusalText (hplain : ¬ "on line".toList <:+: message.toList) {indent : String}
    (hindent : ∀ c ∈ indent.toList, isBlank c = true) {line : Nat} {column : Option Nat}
    (hline : (digitsOf 10 line).length ≤ maxDecimalDigits)
    (hcolumn : ∀ c ∈ column, (digitsOf 10 c).length ≤ maxDecimalDigits) {file rest : String}
    (hfile : IsFileName file.toList) (hrest : EndsName rest.toList) :
    failureOf (refusalText message indent (writtenPlace line column file) rest) = .ok {
      message, line := some line, column := column.map Nat.cast,
      file := if (Path.ofString file).stem = ownStem then none else some file } := by
  have hstart : "on line".toList <+: beforeLine := ⟨[' '], rfl⟩
  have habsent : ¬ beforeLine <:+: announcement ++ message.toList := fun hinside =>
    hplain (infix_of_infix_announced (hstart.isInfix.trans hinside))
  have hplace : place? (trim (refusalText message indent (writtenPlace line column file) rest).toList)
      = some (writtenPlace line column file) := by
    rw [place?_trim, refusalText, String.toList_ofList,
      place?_append_line habsent, place?_blanks_append hindent, place?_words hfile hrest]
  have hread := messageOf_refusalText hmessage indent (writtenPlace line column file) rest
  rw [messageOf] at hread
  have hname : namedFile? file.toList
      = if (Path.ofString file).stem = ownStem then none else some file := by
    rw [namedFile?, String.ofList_toList]
  unfold failureOf
  simp only [hplace, hread]
  simp only [writtenPlace, readNumber_digitsOf hline, hname]
  cases column with
  | none => rfl
  | some c =>
    simp only [Option.map_some, readNumber_digitsOf (hcolumn c rfl)]
    rfl

end

/-- A message that is itself an announcement and breaks off before a place, a place that is indented by a
tab, and, behind it, where it was called from and a line of the source. -/
theorem failureOf_refusalText_of_call :
    let message := "Error: no mixin on  "
    let rest := ", in mixin x\n  from line 1:2 of /w/m.scss\n>> on line 9 of b"
    (∀ c ∈ message.toList, isLineEnd c = false) ∧ ¬ "on line".toList <:+: message.toList ∧
      (∀ c ∈ "\t ".toList, isBlank c = true) ∧
      (digitsOf 10 12).length ≤ maxDecimalDigits ∧
      (∀ c ∈ some 0, (digitsOf 10 c).length ≤ maxDecimalDigits) ∧
      (digitsOf 10 3).length ≤ maxDecimalDigits ∧
      (∀ c ∈ (none : Option Nat), (digitsOf 10 c).length ≤ maxDecimalDigits) ∧
      IsFileName "/lib/stdin.scss".toList ∧ IsFileName "/lib/a.scss".toList ∧
      EndsName rest.toList ∧
      failureOf (refusalText message "\t " (writtenPlace 12 (some 0) "/lib/stdin.scss") rest)
        = .ok { message, line := some 12, column := some 0, file := none } ∧
      failureOf (refusalText message "\t " (writtenPlace 3 none "/lib/a.scss") rest)
        = .ok { message, line := some 3, column := none, file := some "/lib/a.scss" } := by
  intro message rest
  have hmessage : ∀ c ∈ message.toList, isLineEnd c = false := by
    have hall : message.toList.any isLineEnd = false := by decide +kernel
    simpa only [List.any_eq_false, Bool.not_eq_true] using hall
  have hplain : ¬ "on line".toList <:+: message.toList := by decide +kernel
  have hindent : ∀ c ∈ "\t ".toList, isBlank c = true := by
    have hall : "\t ".toList.all isBlank = true := by decide +kernel
    exact List.all_eq_true.1 hall
  have hzero : ∀ c ∈ some 0, (digitsOf 10 c).length ≤ maxDecimalDigits := by
    rintro c ⟨⟩
    decide
  have hnone : ∀ c ∈ (none : Option Nat), (digitsOf 10 c).length ≤ maxDecimalDigits := by simp
  have hname : ∀ name ∈ ["/lib/stdin.scss", "/lib/a.scss"], IsFileName name.toList := by
    have hall : ∀ name ∈ ["/lib/stdin.scss", "/lib/a.scss"],
        name.toList ≠ [] ∧ name.toList.any endsName = false := by decide +kernel
    simpa only [IsFileName, List.any_eq_false, Bool.not_eq_true] using hall
  have hown := hname "/lib/stdin.scss" (by simp)
  have hother := hname "/lib/a.scss" (by simp)
  have hrest : EndsName rest.toList := by
    have hfirst : rest.toList.head? = some ',' := by decide +kernel
    rw [EndsName, hfirst]
    rintro c ⟨⟩
    decide
  have htwelve : (digitsOf 10 12).length ≤ maxDecimalDigits := by decide
  have hthree : (digitsOf 10 3).length ≤ maxDecimalDigits := by decide
  have hsource := failureOf_refusalText hmessage hplain hindent htwelve hzero hown hrest
  have hfile := failureOf_refusalText hmessage hplain hindent hthree hnone hother hrest
  rw [if_pos (by decide +kernel)] at hsource
  rw [if_neg (by decide +kernel)] at hfile
  exact ⟨hmessage, hplain, hindent, htwelve, hzero, hthree, hnone, hown, hother, hrest, hsource, hfile⟩

end ThemedSheets.Sass
