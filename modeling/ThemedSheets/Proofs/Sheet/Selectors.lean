import ThemedSheets.Proofs.Sheet.Scoped
import ThemedSheets.Proofs.Text.Ends
import ThemedSheets.Proofs.Text.Letters
import ThemedSheets.Proofs.Text.Split
/- The selectors of a rule under a scope class, one by one. A name without comma and brace parts no
   selector and opens no block, so the copy of a rule has the rule's block and as many selectors as
   the rule (`split_scopeList`). A selector that is blank or exempt stays, and begins with no dot;
   every other one has the class in front, behind its own leading blanks. So the class can be told
   from what was there before and taken out again (`unscopeOne_scopeOne`), and copies of different
   rules under one name differ (`underScope_selectors`). -/
namespace ThemedSheets
open ThemedSheets.Text

/-! ## Selectors that stay -/

namespace Exemption

theorem startsWith_iff {same : Char → Char → Bool} {f : Char → Char} {literal : List Char}
    (h : ∀ p ∈ literal, ∀ c, same p c = true ↔ f c = p) (cs : List Char) :
    startsWith same literal cs = true ↔ literal <+: cs.map f := by
  induction literal generalizing cs with
  | nil => simp [startsWith]
  | cons p literal ih =>
    rw [List.forall_mem_cons] at h
    cases cs with
    | nil => simp [startsWith]
    | cons c cs =>
      rw [startsWith, Bool.and_eq_true, h.1, ih h.2, List.map_cons, List.cons_prefix_cons, eq_comm]

/-- What is exempt by default: `html` in capitals or small letters, and the at sign. -/
theorem covers_defaults (body : List Char) :
    defaults.any (·.covers body) = true ↔
      "html".toList <+: lowerAscii body ∨ ['@'] <+: body := by
  have hletters : rootLetters = ['h', 't', 'm', 'l'].map Char.toNat := rfl
  have hroot : covers ⟨"html", true⟩ body = true ↔ "html".toList <+: lowerAscii body :=
    startsWith_iff (fun p hp => sameLetter_iff (hletters ▸ List.mem_map_of_mem hp)) body
  have hat : covers ⟨"@", false⟩ body = true ↔ ['@'] <+: body := by
    have hsame : ∀ p ∈ ['@'], ∀ c : Char, (p == c) = true ↔ id c = p := fun p _ c => by
      rw [beq_iff_eq, id, eq_comm]
    have h := startsWith_iff hsame body
    rwa [List.map_id] at h
  simp only [defaults, List.any_cons, List.any_nil, Bool.or_false, Bool.or_eq_true, hroot, hat]

end Exemption

namespace Selector

/-- A selector that is left as it is: a blank one, and one that begins, behind its leading blanks, with
`html` in any case or with an at sign. -/
def Stays (segment : List Char) : Prop :=
  trimLeft segment = [] ∨ "html".toList <+: lowerAscii (trimLeft segment) ∨
    ['@'] <+: trimLeft segment

theorem scopeOne_of_stays {segment : List Char} (h : Stays segment) (name : List Char) :
    scopeOne Exemption.defaults name segment = segment :=
  if_pos (h.imp_right (Exemption.covers_defaults _).2)

theorem scopeOne_of_not_stays {segment : List Char} (h : ¬ Stays segment) (name : List Char) :
    scopeOne Exemption.defaults name segment
      = segment.takeWhile isBlank ++ '.' :: name ++ ' ' :: trimLeft segment :=
  if_neg fun hstays => h (hstays.imp_right (Exemption.covers_defaults _).1)

theorem head?_ne_dot_of_stays {segment : List Char} (h : Stays segment) :
    (trimLeft segment).head? ≠ some '.' := by
  rcases h with hblank | ⟨rest, hroot⟩ | ⟨rest, hat⟩
  · simp [hblank]
  · intro hdot
    have hfirst := congrArg List.head? hroot
    rw [lowerAscii, List.head?_map, hdot] at hfirst
    cases hfirst
  · rw [← hat]
    exact fun hdot => absurd (Option.some.inj hdot) (by decide)

theorem scopeOne_parts {segment : List Char} (h : ¬ Stays segment) (name : List Char) :
    (scopeOne Exemption.defaults name segment).takeWhile isBlank = segment.takeWhile isBlank ∧
      trimLeft (scopeOne Exemption.defaults name segment)
        = '.' :: name ++ ' ' :: trimLeft segment := by
  have hblanks : ∀ c ∈ segment.takeWhile isBlank, isBlank c = true := fun _ =>
    List.mem_takeWhile_imp
  have hend : ∀ c ∈ ('.' :: name ++ ' ' :: trimLeft segment).head?, isBlank c = false := by
    intro c hc
    obtain rfl : '.' = c := Option.some.inj hc
    decide
  rw [scopeOne_of_not_stays h, List.append_assoc]
  exact ⟨takeWhile_append_of_ended hblanks hend, dropWhile_append_of_ended hblanks hend⟩

/-! ## Lists of selectors -/

section
variable {name : List Char} (exemptions : List Exemption)

theorem not_mem_scopeOne {c : Char} (hname : c ∉ name) (hdot : c ≠ '.') (hspace : c ≠ ' ')
    {segment : List Char} (h : c ∉ segment) : c ∉ scopeOne exemptions name segment := by
  have hbody : c ∉ trimLeft segment := fun hc => h ((List.dropWhile_sublist _).mem hc)
  have hblanks : c ∉ segment.takeWhile isBlank := fun hc => h ((List.takeWhile_sublist _).mem hc)
  rw [scopeOne]
  split
  · exact h
  · simp [hname, hdot, hspace, hbody, hblanks]

/-- The selectors of a list under the class are those of the list, each under the class. -/
theorem split_scopeList (hcomma : ',' ∉ name) (selectors : List Char) :
    split ',' (scopeList exemptions name selectors)
      = (split ',' selectors).map (scopeOne exemptions name) := by
  refine split_join (fun h => split_ne_nil ',' selectors (List.map_eq_nil_iff.1 h)) ?_
  rw [List.forall_mem_map]
  exact fun segment hsegment => not_mem_scopeOne exemptions hcomma (by decide) (by decide)
    (not_mem_of_mem_split hsegment)

theorem not_mem_scopeList (hbrace : '{' ∉ name) {selectors : List Char} (h : '{' ∉ selectors) :
    '{' ∉ scopeList exemptions name selectors := by
  refine join_closed (P := ('{' ∉ ·)) (fun xs ys hx hy => ?_) List.not_mem_nil (by decide) ?_
  · rw [List.mem_append, not_or]
    exact ⟨hx, hy⟩
  · rw [List.forall_mem_map]
    exact fun segment hsegment => not_mem_scopeOne exemptions hbrace (by decide) (by decide)
      fun hc => h (mem_of_mem_split hsegment hc)

end

/-! ## Rules -/

theorem cutSelector_append {selectors block : List Char} (h : '{' ∉ selectors)
    (hblock : ∀ c ∈ block.head?, c = '{') :
    Fragment.cutSelector (selectors ++ block) = (selectors, block) := by
  have hall := bne_of_not_mem h
  have hend : ∀ c ∈ block.head?, (c != '{') = false := fun c hc => by simp [hblock c hc]
  rw [Fragment.cutSelector, takeWhile_append_of_ended hall hend, dropWhile_append_of_ended hall hend]

theorem not_mem_cutSelector (rule : List Char) : '{' ∉ (Fragment.cutSelector rule).1 :=
  not_mem_takeWhile_bne '{' rule

theorem head?_block (rule : List Char) : ∀ c ∈ (Fragment.cutSelector rule).2.head?, c = '{' := by
  intro c hc
  simpa using head?_dropWhile rule c hc

theorem cutSelector_replaced {selectors : List Char} (h : '{' ∉ selectors) (rule : List Char) :
    Fragment.cutSelector (selectors ++ (Fragment.cutSelector rule).2)
      = (selectors, (Fragment.cutSelector rule).2) :=
  cutSelector_append h (head?_block rule)

theorem cutSelector_scopeRule {name : List Char} (hname : name ≠ []) (hbrace : '{' ∉ name)
    (exemptions : List Exemption) (rule : List Char) :
    Fragment.cutSelector (scopeRule exemptions name rule)
      = (scopeList exemptions name (Fragment.cutSelector rule).1,
          (Fragment.cutSelector rule).2) := by
  rw [scopeRule, if_neg hname]
  exact cutSelector_replaced (not_mem_scopeList exemptions hbrace (not_mem_cutSelector rule)) rule

/-! ## Taking the class out again -/

def unscopeOne (name segment : List Char) : List Char :=
  match afterStart? ('.' :: name ++ [' ']) (trimLeft segment) with
  | some body => segment.takeWhile isBlank ++ body
  | none => segment

def unscopeRule (name rule : List Char) : List Char :=
  let (selectors, block) := Fragment.cutSelector rule
  join [','] ((split ',' selectors).map (unscopeOne name)) ++ block

theorem unscopeOne_scopeOne (name segment : List Char) :
    unscopeOne name (scopeOne Exemption.defaults name segment) = segment := by
  by_cases h : Stays segment
  · have hnone : afterStart? ('.' :: name ++ [' ']) (trimLeft segment) = none := by
      have hdot := head?_ne_dot_of_stays h
      cases hbody : trimLeft segment with
      | nil => rfl
      | cons c body =>
        have hc : ¬ '.' = c := fun heq => hdot (by rw [hbody, heq]; rfl)
        rw [List.cons_append, afterStart?, if_neg hc]
    rw [scopeOne_of_stays h, unscopeOne, hnone]
  · obtain ⟨hblanks, hbody⟩ := scopeOne_parts h name
    have hclass : '.' :: name ++ ' ' :: trimLeft segment
        = '.' :: name ++ [' '] ++ trimLeft segment := by simp
    rw [unscopeOne, hblanks, hbody, hclass, afterStart?_self_append]
    exact List.takeWhile_append_dropWhile

/-- A rule is what its copy is without the class. -/
theorem unscopeRule_scopeRule {name : List Char} (hname : name ≠ []) (hcomma : ',' ∉ name)
    (hbrace : '{' ∉ name) (rule : List Char) :
    unscopeRule name (scopeRule Exemption.defaults name rule) = rule := by
  have hback : (split ',' (Fragment.cutSelector rule).1).map
      (unscopeOne name ∘ scopeOne Exemption.defaults name) = split ',' (Fragment.cutSelector rule).1 :=
    List.map_id'' (unscopeOne_scopeOne name) _
  rw [unscopeRule, cutSelector_scopeRule hname hbrace]
  simp only [split_scopeList _ hcomma, List.map_map, hback, join_split]
  exact List.takeWhile_append_dropWhile

end Selector

namespace Fragment
open Selector

def selectorList (f : Fragment) : List (List Char) := split ',' f.selector.toList

def withoutScope (f : Fragment) (name : String) : String :=
  String.ofList (unscopeRule name.toList f.text.toList)

section
variable {name : String} (hname : name ≠ "") (hcomma : ',' ∉ name.toList)
  (hbrace : '{' ∉ name.toList)
include hname hcomma hbrace

theorem withoutScope_underScope (f : Fragment) :
    withoutScope { f with text := f.underScope Exemption.defaults name } name = f.text := by
  have hne : name.toList ≠ [] := fun h => hname (String.toList_eq_nil_iff.1 h)
  rw [withoutScope, underScope, String.toList_ofList, unscopeRule_scopeRule hne hcomma hbrace,
    String.ofList_toList]

/-- **A rule under a scope class is the rule with the class put in, and nothing else.** Under a name
without comma and brace a rule keeps its block and the number of its selectors. A selector that is
blank, or begins with `html` or an at sign, stays; every other one has the class between its leading
blanks and the rest of it. So the rule comes back when the class is taken out, and no other rule has
the same copy. -/
theorem underScope_selectors (f : Fragment) :
    let copy : Fragment := { f with text := f.underScope Exemption.defaults name }
    copy.block = f.block ∧
      copy.selectorList.length = f.selectorList.length ∧
      (∀ (i : Nat) (s : List Char), f.selectorList[i]? = some s →
        (Stays s → copy.selectorList[i]? = some s) ∧
        (¬ Stays s → copy.selectorList[i]?
          = some (s.takeWhile isBlank ++ '.' :: name.toList ++ ' ' :: trimLeft s))) ∧
      copy.withoutScope name = f.text ∧
      ∀ g : Fragment, g.underScope Exemption.defaults name = f.underScope Exemption.defaults name →
        g.text = f.text := by
  intro copy
  have hne : name.toList ≠ [] := fun h => hname (String.toList_eq_nil_iff.1 h)
  have hcut := cutSelector_scopeRule hne hbrace Exemption.defaults f.text.toList
  have hlist : copy.selectorList
      = f.selectorList.map (scopeOne Exemption.defaults name.toList) := by
    simp only [copy, selectorList, selector, underScope, String.toList_ofList, hcut]
    exact split_scopeList _ hcomma _
  refine ⟨?_, ?_, fun i s hs => ⟨fun hstays => ?_, fun hstays => ?_⟩,
    withoutScope_underScope hname hcomma hbrace f, fun g hg => ?_⟩
  · simp only [copy, block, underScope, String.toList_ofList, hcut]
  · rw [hlist, List.length_map]
  · rw [hlist, List.getElem?_map, hs, Option.map_some, scopeOne_of_stays hstays]
  · rw [hlist, List.getElem?_map, hs, Option.map_some, scopeOne_of_not_stays hstays]
  · have hback := withoutScope_underScope hname hcomma hbrace g
    rw [hg] at hback
    exact hback.symm.trans (withoutScope_underScope hname hcomma hbrace f)

end

/-- Of four selectors the first and the third stay, a capital root and a blank, and the last one, which
had the class already, has it twice. -/
theorem underScope_selectors_of_mixed_list :
    let f : Fragment := ⟨"HTML p,\n .a, ,.t b\x7btop:0\x7d", 0, 24⟩
    let copy : Fragment := { f with text := "HTML p,\n .t .a, ,.t .t b\x7btop:0\x7d" }
    "t" ≠ "" ∧ ',' ∉ "t".toList ∧ '{' ∉ "t".toList ∧
      f.underScope Exemption.defaults "t" = copy.text ∧
      copy.selectorList.length = f.selectorList.length ∧
      copy.withoutScope "t" = f.text ∧
      ∀ g : Fragment, g.underScope Exemption.defaults "t" = copy.text → g.text = f.text := by
  intro f copy
  have hname : "t" ≠ "" := by decide
  have hcomma : ',' ∉ "t".toList := by decide
  have hbrace : '{' ∉ "t".toList := by decide
  have hcopy : f.underScope Exemption.defaults "t" = copy.text := by decide +kernel
  obtain ⟨-, hlength, -, hback, hunique⟩ := underScope_selectors hname hcomma hbrace f
  rw [hcopy] at hlength hback hunique
  exact ⟨hname, hcomma, hbrace, hcopy, hlength, hback, hunique⟩

end Fragment
end ThemedSheets
