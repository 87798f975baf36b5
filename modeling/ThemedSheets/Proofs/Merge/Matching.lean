import ThemedSheets.Proofs.Merge.Appended
import ThemedSheets.Proofs.Sheet.Trimmed
/- Copies of one rule. The check of a merge looks at the selectors as they were compiled, without
   the blanks around them and before any class is put in. That is enough: the trimmed selectors of
   a copy depend on the trimmed selectors of its rule and the name of the class alone, so the copies
   that all scopes have at one place are told apart by their classes, their blocks and outer blanks
   (`copies_line_up`). -/
namespace ThemedSheets
open ThemedSheets.Text

namespace Merge
open Selector

theorem selectors_eq_of_merge {results : List CompiledScope} {given : Option (List Scope)}
    {merged : MergeResult} (h : (merge results given true).outcome = .ok merged)
    {r r' : CompiledScope} (hr : r ∈ results) (hr' : r' ∈ results) :
    selectors r.css = selectors r'.css := by
  cases results with
  | nil => exact absurd hr List.not_mem_nil
  | cons base others =>
    have hothers := (css_of_merge (length_scopesOf_of_merge h) h).1 rfl
    have hall : ∀ q ∈ base :: others, selectors q.css = selectors base.css :=
      List.forall_mem_cons.2 ⟨rfl, hothers⟩
    rw [hall r hr, hall r' hr']

theorem exists_rule_of_selectors_eq {css css' : String} (h : selectors css = selectors css')
    {k : Nat} {f : Fragment} (hf : (Fragment.segment css)[k]? = some f) :
    ∃ f', (Fragment.segment css')[k]? = some f' ∧
      trim f'.selector.toList = trim f.selector.toList := by
  have hk : (selectors css')[k]? = some (trim f.selector.toList) := by
    rw [← h, selectors, List.getElem?_map, hf, Option.map_some]
  rw [selectors, List.getElem?_map] at hk
  exact Option.map_eq_some_iff.1 hk

/-- **The copies of one rule line up.** Trimming a list of selectors that was put under a class gives
what the trimmed list gives under the class. So let a merge be verified and some result have a rule
at a place. Then there are as many copies at this place as results, each that of the result's own
rule; and under any one name without a brace the rule of every result has the same trimmed selectors,
and still its own block. -/
theorem copies_line_up {results : List CompiledScope} {given : Option (List Scope)}
    {merged : MergeResult} (h : (merge results given true).outcome = .ok merged) :
    (∀ name list : List Char,
      trim (scopeList Exemption.defaults name list)
        = scopeList Exemption.defaults name (trim list)) ∧
    ∀ r ∈ results, ∀ (k : Nat) (f : Fragment), (Fragment.segment r.css)[k]? = some f →
      let scopes := scopesOf results given
      (copies (scopes.zip results) k).length = results.length ∧
      ∀ (i : Nat) (r' : CompiledScope), results[i]? = some r' →
        ∃ f', (Fragment.segment r'.css)[k]? = some f' ∧
          (∀ s, scopes[i]? = some s → (copies (scopes.zip results) k)[i]?
            = some (f'.underScope Exemption.defaults s.name).toList) ∧
          ∀ name : String, name ≠ "" → '{' ∉ name.toList →
            let copy : Fragment := { f' with text := f'.underScope Exemption.defaults name }
            trim copy.selector.toList
                = scopeList Exemption.defaults name.toList (trim f.selector.toList) ∧
              copy.block = f'.block := by
  refine ⟨trim_scopeList, fun r hr k f hf => ?_⟩
  intro scopes
  have hrule : ∀ r' ∈ results, ∃ f', (Fragment.segment r'.css)[k]? = some f' ∧
      trim f'.selector.toList = trim f.selector.toList := fun r' hr' =>
    exists_rule_of_selectors_eq (selectors_eq_of_merge h hr hr') hf
  have hlong : ∀ p ∈ scopes.zip results, k < (Fragment.segment p.2.css).length := by
    intro p hp
    obtain ⟨f', hf', -⟩ := hrule p.2 (List.of_mem_zip hp).2
    exact (List.getElem?_eq_some_iff.1 hf').1
  have hcount : scopes.length = results.length := by
    cases results with
    | nil => exact absurd hr List.not_mem_nil
    | cons base others => exact length_scopesOf_of_merge h
  obtain ⟨hlength, hget⟩ := getElem?_copies hlong
  refine ⟨by rw [hlength, List.length_zip, hcount, Nat.min_self], fun i r' hi => ?_⟩
  obtain ⟨f', hf', htrim⟩ := hrule r' (List.mem_of_getElem? hi)
  refine ⟨f', hf', fun s hs => ?_, fun name hname hbrace => ?_⟩
  · obtain ⟨g, hg, hcopy⟩ := hget i s r' (List.getElem?_zip_eq_some.2 ⟨hs, hi⟩)
    obtain rfl : f' = g := Option.some.inj (hf'.symm.trans hg)
    exact hcopy
  · rw [← htrim]
    exact Fragment.trim_selector_underScope hname hbrace f'

/-- Two scopes whose rules stand between other blanks, one of them no blank of ASCII. The first
selector is blank and the last one exempt. -/
theorem copies_line_up_of_outer_blanks :
    let a : CompiledScope := { scope := { name := "a" }, css := " ,.x,HTML p\x7btop:0\x7d" }
    let b : CompiledScope := { scope := { name := "b" }, css := "\u2003,.x,HTML p\n\x7btop:1\x7d" }
    ∃ merged, (merge [a, b] none true).outcome = .ok merged ∧
      merged.css = " ,.a .x,HTML p\x7btop:0\x7d\n\u2003,.b .x,HTML p\n\x7btop:1\x7d" ∧
      ∀ r ∈ [a, b], ∃ f, (Fragment.segment r.css)[0]? = some f ∧
        let copy : Fragment := { f with text := f.underScope Exemption.defaults "t" }
        trim copy.selector.toList = ",.t .x,HTML p".toList ∧ copy.block = f.block := by
  intro a b
  have hmerge : (merge [a, b] none true).outcome.toOption
      = some { css := " ,.a .x,HTML p\x7btop:0\x7d\n\u2003,.b .x,HTML p\n\x7btop:1\x7d" } := by
    decide +kernel
  have hmerged := Run.outcome_eq_ok hmerge
  have hfirst : (Fragment.segment a.css)[0]? = some ⟨" ,.x,HTML p\x7btop:0\x7d", 0, 18⟩ := by
    decide +kernel
  have hcommon : scopeList Exemption.defaults "t".toList (trim " ,.x,HTML p".toList)
      = ",.t .x,HTML p".toList := by
    decide +kernel
  obtain ⟨-, hcopies⟩ := copies_line_up hmerged
  obtain ⟨-, hline⟩ := hcopies a List.mem_cons_self 0 _ hfirst
  refine ⟨_, hmerged, rfl, fun r hr => ?_⟩
  obtain ⟨i, hi⟩ := List.mem_iff_getElem?.1 hr
  obtain ⟨f, hf, -, hscoped⟩ := hline i r hi
  obtain ⟨htrim, hblock⟩ := hscoped "t" (by decide) (by decide)
  exact ⟨f, hf, htrim.trans hcommon, hblock⟩

end Merge

end ThemedSheets
