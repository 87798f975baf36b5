import Mathlib.Data.List.Forall2
import ThemedSheets.Proofs.Sheet.Selectors
/- Rules that are put under several scope classes, one after another. A later pass cuts the list that
   the pass before it has written. It finds the same selectors, since a plain name brings in no cut,
   behind the same leading blanks; and the same ones stay, since what begins with a class is neither
   blank nor exempt (`stays_scopeOne_iff`). So two passes do what one pass does under both names, the
   later one in front (`scopeRule_scopeRule`), and by induction over the passes so do any number of
   them (`underScope_passes`). -/
namespace ThemedSheets
open ThemedSheets.Text

namespace Selector

/-! ## One selector -/

theorem stays_scopeOne_iff {segment name : List Char} :
    Stays (scopeOne Exemption.defaults name segment) ↔ Stays segment := by
  constructor
  · intro hstays
    by_contra h
    apply head?_ne_dot_of_stays hstays
    rw [(scopeOne_parts h name).2]
    rfl
  · intro h
    rwa [scopeOne_of_stays h]

theorem scopeOne_scopeOne (outer inner segment : List Char) :
    scopeOne Exemption.defaults outer (scopeOne Exemption.defaults inner segment)
      = scopeOne Exemption.defaults (outer ++ ' ' :: '.' :: inner) segment := by
  by_cases h : Stays segment
  · rw [scopeOne_of_stays h, scopeOne_of_stays h, scopeOne_of_stays h]
  · obtain ⟨hblanks, hbody⟩ := scopeOne_parts h inner
    calc scopeOne Exemption.defaults outer (scopeOne Exemption.defaults inner segment)
        = segment.takeWhile isBlank ++ '.' :: outer
            ++ ' ' :: ('.' :: inner ++ ' ' :: trimLeft segment) := by
          rw [scopeOne_of_not_stays (mt stays_scopeOne_iff.1 h), hblanks, hbody]
      _ = segment.takeWhile isBlank ++ '.' :: (outer ++ ' ' :: '.' :: inner)
            ++ ' ' :: trimLeft segment := by simp
      _ = scopeOne Exemption.defaults (outer ++ ' ' :: '.' :: inner) segment :=
          (scopeOne_of_not_stays h _).symm

/-! ## Lists of selectors -/

section
variable {outer inner : List Char} (hcomma : ',' ∉ inner)
include hcomma

theorem scopeList_scopeList (selectors : List Char) :
    scopeList Exemption.defaults outer (scopeList Exemption.defaults inner selectors)
      = scopeList Exemption.defaults (outer ++ ' ' :: '.' :: inner) selectors := by
  have hboth : scopeOne Exemption.defaults outer ∘ scopeOne Exemption.defaults inner
      = scopeOne Exemption.defaults (outer ++ ' ' :: '.' :: inner) := by
    funext segment
    exact scopeOne_scopeOne outer inner segment
  rw [scopeList, split_scopeList _ hcomma, List.map_map, hboth, scopeList]

theorem scopeRule_scopeRule (houter : outer ≠ []) (hinner : inner ≠ []) (hbrace : '{' ∉ inner)
    (rule : List Char) :
    scopeRule Exemption.defaults outer (scopeRule Exemption.defaults inner rule)
      = scopeRule Exemption.defaults (outer ++ ' ' :: '.' :: inner) rule := by
  have hboth : outer ++ ' ' :: '.' :: inner ≠ [] := by simp
  rw [scopeRule, if_neg houter, cutSelector_scopeRule hinner hbrace, scopeRule, if_neg hboth]
  simp only [scopeList_scopeList hcomma]

end

/-- The parts that a list under the class is put together of, and what each is made from. -/
theorem exists_parts_scopeList (name selectors : List Char) :
    ∃ parts, scopeList Exemption.defaults name selectors = join [','] parts ∧
      List.Forall₂ (fun segment part => (Stays segment → part = segment) ∧
        (¬ Stays segment → ¬ Stays part ∧
          part = segment.takeWhile isBlank ++ '.' :: name ++ ' ' :: trimLeft segment))
        (split ',' selectors) parts := by
  refine ⟨_, rfl, ?_⟩
  rw [List.forall₂_map_right_iff, List.forall₂_same]
  intro segment _
  refine ⟨fun h => scopeOne_of_stays h name, fun h => ⟨?_, scopeOne_of_not_stays h name⟩⟩
  exact mt stays_scopeOne_iff.1 h

end Selector

/-! ## Rules -/

namespace Fragment
open Selector

/-- A name that is not empty, parts no selector and opens no block. -/
structure IsPlainName (name : String) : Prop where
  ne_empty : name ≠ ""
  no_comma : ',' ∉ name.toList
  no_brace : '{' ∉ name.toList

/-- A rule after passes under some names, each of them over the text that the one before has left. -/
def passes (f : Fragment) : List String → Fragment
  | [] => f
  | name :: names => passes { f with text := f.underScope Exemption.defaults name } names

/-- Several names as one, with the name of the last pass in front. -/
def nestedName : List String → String → String
  | [], last => last
  | name :: names, last => nestedName names last ++ " ." ++ name

theorem nestedName_ne_empty (names : List String) {last : String} (h : last ≠ "") :
    nestedName names last ≠ "" := by
  cases names with
  | nil => exact h
  | cons name names =>
    intro hempty
    have hnil := congrArg String.toList hempty
    simp [nestedName] at hnil

/-- Two passes do what one does under both names. -/
theorem underScope_nested {inner outer : String} (hinner : IsPlainName inner) (houter : outer ≠ "")
    (f : Fragment) :
    ({ f with text := f.underScope Exemption.defaults inner } : Fragment).underScope
        Exemption.defaults outer
      = f.underScope Exemption.defaults (outer ++ " ." ++ inner) := by
  have hne : ∀ {name : String}, name ≠ "" → name.toList ≠ [] := fun hname h =>
    hname (String.toList_eq_nil_iff.1 h)
  have hnames : (outer ++ " ." ++ inner).toList = outer.toList ++ ' ' :: '.' :: inner.toList := by
    simp
  simp only [underScope, String.toList_ofList, hnames]
  rw [scopeRule_scopeRule hinner.no_comma (hne houter) (hne hinner.ne_empty) hinner.no_brace]

theorem underScope_passes {names : List String} (h : ∀ name ∈ names, IsPlainName name)
    {last : String} (hlast : last ≠ "") (f : Fragment) :
    (f.passes names).underScope Exemption.defaults last
      = f.underScope Exemption.defaults (nestedName names last) := by
  induction names generalizing f with
  | nil => rfl
  | cons name names ih =>
    rw [List.forall_mem_cons] at h
    have hfirst := underScope_nested h.1 (nestedName_ne_empty names hlast) f
    rw [passes, ih h.2, nestedName, hfirst]

/-- **Scoping composes.** To put a rule under a class and the copy under another one is to put the rule
under both at once, the later one in front; the first name has to be plain, for the second pass cuts
what it is in. So it is with any number of passes of which all but the last have plain names. What
they make of a rule is the rule's own block behind one part for each selector of its list: a blank or
exempt selector is still what it was, and every other one has all the classes, between its leading
blanks and the rest of it, and is not exempt now either. -/
theorem underScope_composes (f : Fragment) :
    (∀ a b : String, a ≠ "" → b ≠ "" → ',' ∉ a.toList → '{' ∉ a.toList →
      ({ f with text := f.underScope Exemption.defaults a } : Fragment).underScope
          Exemption.defaults b
        = f.underScope Exemption.defaults (b ++ " ." ++ a)) ∧
    ∀ (names : List String) (last : String), (∀ name ∈ names, IsPlainName name) → last ≠ "" →
      (f.passes names).underScope Exemption.defaults last
          = f.underScope Exemption.defaults (nestedName names last) ∧
        ∃ parts, ((f.passes names).underScope Exemption.defaults last).toList
            = join [','] parts ++ f.block.toList ∧
          List.Forall₂ (fun segment part => (Stays segment → part = segment) ∧
            (¬ Stays segment → ¬ Stays part ∧
              part = segment.takeWhile isBlank ++ '.' :: (nestedName names last).toList
                ++ ' ' :: trimLeft segment))
            f.selectorList parts := by
  refine ⟨fun a b ha hb hcomma hbrace => underScope_nested ⟨ha, hcomma, hbrace⟩ hb f, ?_⟩
  intro names last hnames hlast
  have hpasses := underScope_passes hnames hlast f
  have hne : (nestedName names last).toList ≠ [] := fun h =>
    nestedName_ne_empty names hlast (String.toList_eq_nil_iff.1 h)
  obtain ⟨parts, hlist, hparts⟩ :=
    exists_parts_scopeList (nestedName names last).toList f.selector.toList
  refine ⟨hpasses, parts, ?_, hparts⟩
  have hselector : f.selector.toList = (cutSelector f.text.toList).1 := String.toList_ofList
  have hblock : f.block.toList = (cutSelector f.text.toList).2 := String.toList_ofList
  rw [hpasses, underScope, String.toList_ofList, scopeRule, if_neg hne, ← hlist, hselector, hblock]

/-- Two passes, and then a third, over a rule with a capital root behind a blank, a blank selector and
one that is neither. The last name would part selectors and open a block, were there another pass. -/
theorem underScope_composes_of_mixed_list :
    let f : Fragment := ⟨" HTML p, ,\n.x\x7btop:0\x7d", 0, 20⟩
    let once : Fragment := { f with text := " HTML p, ,\n.t .x\x7btop:0\x7d" }
    let last := "u,v\x7b"
    (∀ name ∈ ["t", "s"], IsPlainName name) ∧ last ≠ "" ∧
      f.underScope Exemption.defaults "t" = once.text ∧
      once.underScope Exemption.defaults last = f.underScope Exemption.defaults "u,v\x7b .t" ∧
      (f.passes ["t", "s"]).underScope Exemption.defaults last
        = f.underScope Exemption.defaults "u,v\x7b .s .t" ∧
      f.underScope Exemption.defaults "u,v\x7b .s .t"
        = " HTML p, ,\n.u,v\x7b .s .t .x\x7btop:0\x7d" := by
  intro f once last
  have hplain : ∀ name ∈ ["t", "s"], IsPlainName name := by
    intro name hmem
    have hall : ∀ name ∈ ["t", "s"], name ≠ "" ∧ ',' ∉ name.toList ∧ '{' ∉ name.toList := by decide
    obtain ⟨hne, hcomma, hbrace⟩ := hall name hmem
    exact ⟨hne, hcomma, hbrace⟩
  have hlast : last ≠ "" := by decide
  have honce : f.underScope Exemption.defaults "t" = once.text := by decide +kernel
  obtain ⟨htwo, hmany⟩ := underScope_composes f
  obtain ⟨ht, hcomma, hbrace⟩ := hplain "t" List.mem_cons_self
  have hboth := htwo "t" last ht hlast hcomma hbrace
  rw [honce] at hboth
  exact ⟨hplain, hlast, honce, hboth, (hmany ["t", "s"] last hplain hlast).1, by decide +kernel⟩

end Fragment

end ThemedSheets
