import ThemedSheets.Merge
import ThemedSheets.Proofs.Run
import ThemedSheets.Proofs.Sheet.Places
/- What merging answers, said in terms of the stylesheets alone: of their rules, the selector lists
   of these, and the texts outside them. `outcome_merge` is the one place where the steps of a merge
   are followed. A merge that is given as many scopes as results ends in a mismatch if the
   verification finds one, and else in the text `weave` makes: the gaps of the first stylesheet with
   the copies of its rules between them. -/
namespace ThemedSheets
open ThemedSheets.Text

/-! ## Weaving -/

/-- Texts put between gaps in turn. There is one gap more than there are texts. -/
def Outline.weave : List (List Char) → List (List Char) → List Char
  | gaps, [] => gaps.flatten
  | [], t :: ts => t ++ weave [] ts
  | gap :: gaps, t :: ts => gap ++ t ++ weave gaps ts

theorem Outline.flatten_replaceRules {o : Outline} {news : List (List Char)}
    (h : news.length = o.rules.length) : (o.replaceRules news).flatten = weave o.gaps news := by
  obtain ⟨rules, tail⟩ := o
  induction rules generalizing news with
  | nil =>
    obtain rfl : news = [] := List.eq_nil_of_length_eq_zero h
    simp [replaceRules, flatten, gaps, weave]
  | cons p rules ih =>
    obtain ⟨gap, rule⟩ := p
    cases news with
    | nil => simp at h
    | cons new news =>
      have ih := @ih news (by simpa using h)
      rw [gaps_cons, weave, ← ih]
      exact flatten_cons gap new (replaceRules ⟨rules, tail⟩ news)

namespace Merge

/-! ## What goes into a merge -/

/-- The scopes by which results are merged: the given ones, else each result's own. -/
def scopesOf (results : List CompiledScope) (given : Option (List Scope)) : List Scope :=
  given.getD (results.map (·.scope))

/-- The selector lists of the rules of a stylesheet, without the blanks around them. -/
def selectors (css : String) : List (List Char) :=
  (Fragment.segment css).map fun f => trim f.selector.toList

/-- The copies of the rule at a place, one for every stylesheet that has a rule there: that rule
under the class of its scope. -/
def copies (sheets : List (Scope × CompiledScope)) (k : Nat) : List (List Char) :=
  sheets.filterMap fun (s, r) => (Fragment.segment r.css)[k]?.map fun f =>
    (f.underScope Exemption.defaults s.name).toList

/-- The copies of the first `n` rules, place by place. -/
def groups (sheets : List (Scope × CompiledScope)) (n : Nat) : List (List (List Char)) :=
  (List.range n).map (copies sheets)

/-- The merged stylesheet: the first stylesheet with the copies of its rules in their places. -/
def interleaved (base : CompiledScope) (sheets : List (Scope × CompiledScope)) : List Char :=
  let rules := Fragment.segment base.css
  Outline.weave (Fragment.outside base.css.toList 0 rules)
    ((groups sheets rules.length).map (join ['\n']))

/-- The names of scopes with their selector lists, the first scope left out. -/
def rivals (sheets : List (Scope × CompiledScope)) : List (String × List (List Char)) :=
  (sheets.map fun (s, r) => (s.name, selectors r.css)).tail

theorem length_groups (sheets : List (Scope × CompiledScope)) (n : Nat) :
    (groups sheets n).length = n := by simp [groups]

/-! ## The same on outlines -/

theorem selectors_eq (css : String) :
    selectors css = (Outline.ofText css.toList).texts.map selectorOf := by
  rw [selectors, ← Fragment.map_text_segment, List.map_map]
  apply List.map_congr_left
  intro f _
  simp only [Function.comp_apply, selectorOf, Fragment.toList_selector]

theorem zip_names_outlines (scopes : List Scope) (base : CompiledScope)
    (others : List CompiledScope) :
    (scopes.map (·.name)).zip
        (Outline.ofText base.css.toList :: others.map fun r => Outline.ofText r.css.toList)
      = (scopes.zip (base :: others)).map fun (s, r) =>
          (s.name, Outline.ofText r.css.toList) := by
  rw [← List.map_cons (f := fun r : CompiledScope => Outline.ofText r.css.toList), List.zip_map]
  rfl

theorem getElem?_scopedTexts (name css : String) (k : Nat) :
    (scopedTexts Exemption.defaults name (Outline.ofText css.toList))[k]?
      = (Fragment.segment css)[k]?.map fun f =>
          (f.underScope Exemption.defaults name).toList := by
  rw [scopedTexts, ← Fragment.map_text_segment, List.map_map, List.getElem?_map]
  simp [Function.comp_def, Fragment.underScope]

theorem copiesAt_eq (scopes : List Scope) (results : List CompiledScope) (k : Nat) :
    copiesAt (((scopes.zip results).map fun (s, r) =>
        (s.name, Outline.ofText r.css.toList)).map fun (name, o) =>
          scopedTexts Exemption.defaults name o) k
      = join ['\n'] (copies (scopes.zip results) k) := by
  rw [copiesAt, copies, List.map_map, List.filterMap_map]
  refine congrArg (fun g => join ['\n'] ((scopes.zip results).filterMap g)) (funext ?_)
  rintro ⟨s, r⟩
  exact getElem?_scopedTexts s.name r.css k

theorem mergedText_eq (base : CompiledScope) (scopes : List Scope) (results : List CompiledScope) :
    mergedText Exemption.defaults (Outline.ofText base.css.toList)
        ((scopes.zip results).map fun (s, r) => (s.name, Outline.ofText r.css.toList))
      = interleaved base (scopes.zip results) := by
  rw [mergedText, splice, Outline.flatten_replaceRules (by simp), interleaved,
    Fragment.outside_segment, Fragment.length_segment]
  refine congrArg _ ?_
  rw [groups, List.map_map (f := copies _)]
  exact List.map_congr_left fun k _ => copiesAt_eq scopes results k

/-! ## Merging -/

/-- How a merge ends. -/
theorem outcome_merge (base : CompiledScope) (others : List CompiledScope)
    (given : Option (List Scope)) (verify : Bool)
    (hlen : (scopesOf (base :: others) given).length = (base :: others).length) :
    (merge (base :: others) given verify).outcome =
      let scopes := scopesOf (base :: others) given
      let sheets := scopes.zip (base :: others)
      match if verify then mismatch? (selectors base.css) (rivals sheets) else none with
      | some m => .error (.mismatch m)
      | none => .ok {
          css := String.ofList (interleaved base sheets)
          sourceMap := base.sourceMap
          dependencyPaths := scopes.flatMap (·.paths) ++ base.dependencyPaths
          errors := (base :: others).flatMap (·.errors) } := by
  simp only [scopesOf] at hlen ⊢
  simp only [merge, hlen, ne_eq, not_true_eq_false, if_false]
  generalize given.getD ((base :: others).map (·.scope)) = scopes
  have hrivals : ((scopes.zip (base :: others)).map fun (s, r) =>
        (s.name, (Outline.ofText r.css.toList).texts.map selectorOf)).tail
      = rivals (scopes.zip (base :: others)) := by
    simp only [rivals, selectors_eq]
  rw [zip_names_outlines, mergedText_eq, List.map_map, ← selectors_eq]
  simp only [Function.comp_def, hrivals]
  generalize (if verify = true then
    mismatch? (selectors base.css) (rivals (scopes.zip (base :: others))) else none) = found
  cases found with
  | none => rfl
  | some m => rfl

theorem leaves_merge {P : Event → Prop} (hlog : ∀ record, P (.logged record false))
    (results : List CompiledScope) (given : Option (List Scope)) (verify : Bool) :
    (merge results given verify).Leaves P := by
  unfold merge
  split
  · exact .pure _
  · dsimp only
    split
    · exact .fail _
    · split
      · exact .fail _
      · exact .bind (.log hlog _ _ _) fun _ => .pure _

end Merge

end ThemedSheets
