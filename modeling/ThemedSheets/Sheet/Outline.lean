import ThemedSheets.Text.Basic
/- The rules of a stylesheet and the text between them. A rule is a run of characters without brace,
   slash, backslash or semicolon, an opening brace, and a block without braces up to its closing
   brace. A rule inside an at-rule is found because the at-rule's brace ends the run before it; the
   at-rule's own text stays between the rules. `flatten_ofText` says that the outline of a
   stylesheet is all of it. -/
namespace ThemedSheets
open ThemedSheets.Text

/-- A stylesheet cut at its rules: each rule with the text between it and the rule before, and the
text after the last one. -/
structure Outline where
  rules : List (List Char × List Char)
  tail : List Char
  deriving DecidableEq, Repr

namespace Outline

/-- The characters that end the run in front of a block. -/
def isBreak (c : Char) : Bool := c == '{' || c == '}' || c == '/' || c == '\\' || c == ';'

/-- The block after an opening brace, with its closing brace, and what follows it. There is none
when another brace opens first or none closes. -/
def block? : List Char → Option (List Char × List Char)
  | [] => none
  | c :: cs =>
    if c = '}' then some ([c], cs)
    else if c = '{' then none
    else (block? cs).map fun (b, rest) => (c :: b, rest)

theorem eq_append_of_block? {cs b rest : List Char} (h : block? cs = some (b, rest)) :
    cs = b ++ rest := by
  induction cs generalizing b with
  | nil => simp [block?] at h
  | cons c cs ih =>
    by_cases h1 : c = '}'
    · simp [block?, h1] at h
      simp [← h.1, ← h.2, h1]
    · by_cases h2 : c = '{'
      · simp [block?, h2] at h
      · rw [block?, if_neg h1, if_neg h2] at h
        obtain ⟨⟨b', rest'⟩, hb, he⟩ := Option.map_eq_some_iff.1 h
        simp only [Prod.mk.injEq] at he
        rw [← he.1, ih (he.2 ▸ hb), List.cons_append]

theorem length_of_block? {cs b rest : List Char} (h : block? cs = some (b, rest)) :
    rest.length ≤ cs.length := by
  rw [eq_append_of_block? h]; simp

/-- The outline with a rule in front. -/
def cons (gap rule : List Char) (o : Outline) : Outline :=
  { o with rules := (gap, rule) :: o.rules }

/-- The outline of a text, `gap` and `run` having been read since the last rule: the run has no
break in it. Both stand in reverse. -/
def scan (gap run : List Char) : List Char → Outline
  | [] => ⟨[], (run ++ gap).reverse⟩
  | c :: cs =>
    if c = '{' ∧ run ≠ [] then
      match _h : block? cs with
      | some (b, rest) => (scan [] [] rest).cons gap.reverse (run.reverse ++ '{' :: b)
      | none => scan (c :: (run ++ gap)) [] cs
    else if isBreak c then scan (c :: (run ++ gap)) [] cs
    else scan gap (c :: run) cs
termination_by cs => cs.length
decreasing_by
  · have := length_of_block? _h; simp; omega
  · simp
  · simp
  · simp

def ofText (css : List Char) : Outline := scan [] [] css

/-- The text that an outline cuts. -/
def flatten (o : Outline) : List Char := o.rules.flatMap (fun (gap, rule) => gap ++ rule) ++ o.tail

theorem flatten_cons (gap rule : List Char) (o : Outline) :
    (o.cons gap rule).flatten = gap ++ rule ++ o.flatten := by
  simp [cons, flatten]

theorem flatten_scan (gap run cs : List Char) :
    (scan gap run cs).flatten = (run ++ gap).reverse ++ cs := by
  fun_induction scan gap run cs with
  | case1 => simp [flatten]
  | case2 gap run c cs hc b rest hb ih =>
    rw [flatten_cons, ih, eq_append_of_block? hb, hc.1]; simp
  | case3 gap run c cs hc hb ih => rw [ih]; simp
  | case4 gap run c cs hc hb ih => rw [ih]; simp
  | case5 gap run c cs hc hb ih => rw [ih]; simp

/-- Cutting loses nothing. -/
theorem flatten_ofText (css : List Char) : (ofText css).flatten = css := by
  simp [ofText, flatten_scan]

def texts (o : Outline) : List (List Char) := o.rules.map (·.2)

/-- The texts between the rules: one more than there are rules. -/
def gaps (o : Outline) : List (List Char) := o.rules.map (·.1) ++ [o.tail]

/-- The outline with other texts in the place of its rules. -/
def replaceRules (o : Outline) (news : List (List Char)) : Outline :=
  { o with rules := (o.rules.zip news).map fun ((gap, _), new) => (gap, new) }

theorem replaceRules_texts (o : Outline) : o.replaceRules o.texts = o := by
  obtain ⟨rules, tail⟩ := o
  simp only [replaceRules, texts, mk.injEq, and_true]
  induction rules with
  | nil => rfl
  | cons r rules ih => simpa using ih

end Outline

end ThemedSheets
