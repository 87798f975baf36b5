import ThemedSheets.Proofs.Sheet.Places
import ThemedSheets.Proofs.Sheet.Selectors
/- Selector lists with blanks around them. The class goes behind the leading blanks of each selector,
   and whether a selector is exempt is seen at its first letters, of which none is blank. So the
   blanks at either end of a list play no part: a list under the class, trimmed, is the trimmed list
   under the class (`trim_scopeList`). The list is followed selector by selector, from the first
   comma on: blanks at the start of the list belong to its first selector, those at the end to its
   last one. -/
namespace ThemedSheets
open ThemedSheets.Text

/-! ## Exempt selectors -/

namespace Exemption

theorem toLower_not_mem_root {c : Char} (h : isBlank c = true) : c.toLower ∉ "html".toList := by
  intro hmem
  have hroot : rootLetters = "html".toList.map Char.toNat := rfl
  have hletters : ∀ m ∈ rootLetters, (97 ≤ m ∧ m ≤ 122) ∧
      inRanges blankRanges m = false ∧ inRanges blankRanges (m - 32) = false := by decide +kernel
  obtain ⟨hbounds, hsmall, hcapital⟩ := hletters _ (hroot ▸ List.mem_map_of_mem hmem)
  have hblank : inRanges blankRanges c.toNat = true := h
  rcases (toLower_eq_iff hbounds c).1 rfl with heq | heq
  · rw [heq, hsmall] at hblank
    cases hblank
  · rw [← heq, Nat.add_sub_cancel, hblank] at hcapital
    cases hcapital

theorem any_covers_trimRight (body : List Char) :
    defaults.any (·.covers (trimRight body)) = defaults.any (·.covers body) := by
  obtain ⟨blanks, hbody, hblanks⟩ := exists_blanks_trimRight body
  have hroot : "html".toList <+: lowerAscii (trimRight body) ++ lowerAscii blanks
      ↔ "html".toList <+: lowerAscii (trimRight body) := by
    apply isPrefix_append_iff
    intro p hp hmem
    obtain ⟨c, hc, rfl⟩ := List.mem_map.1 hmem
    exact toLower_not_mem_root (hblanks c hc) hp
  have hat : ['@'] <+: trimRight body ++ blanks ↔ ['@'] <+: trimRight body := by
    apply isPrefix_append_iff
    intro p hp hmem
    obtain rfl := List.mem_singleton.1 hp
    exact absurd (hblanks _ hmem) (by decide)
  have hlower : lowerAscii (trimRight body) ++ lowerAscii blanks = lowerAscii body := by
    rw [lowerAscii, lowerAscii, ← List.map_append, ← hbody, lowerAscii]
  rw [hlower] at hroot
  rw [← hbody] at hat
  rw [Bool.eq_iff_iff, covers_defaults, covers_defaults, hroot, hat]

end Exemption

namespace Selector

section
variable (exemptions : List Exemption) (name : List Char)

/-! ## One selector -/

theorem scopeOne_of_blank {segment : List Char} (h : ∀ c ∈ segment, isBlank c = true) :
    scopeOne exemptions name segment = segment :=
  if_pos (Or.inl (List.dropWhile_eq_nil_iff.2 h))

/-- A selector that is not blank keeps its leading blanks; what follows them is all that counts. -/
theorem scopeOne_blanks_cons {blanks : List Char} {c : Char}
    (hblanks : ∀ b ∈ blanks, isBlank b = true) (hc : isBlank c = false) (rest : List Char) :
    scopeOne exemptions name (blanks ++ c :: rest)
      = blanks ++ (if exemptions.any (·.covers (c :: rest)) then c :: rest
          else '.' :: name ++ ' ' :: c :: rest) := by
  have hend : ∀ d ∈ (c :: rest).head?, isBlank d = false := by
    intro d hd
    rwa [← Option.some.inj hd]
  rw [scopeOne, trimLeft_blanks_cons hblanks hc, takeWhile_append_of_ended hblanks hend]
  by_cases hexempt : exemptions.any (·.covers (c :: rest)) = true
  · rw [if_pos (Or.inr hexempt), if_pos hexempt]
  · rw [if_neg (by simpa using hexempt), if_neg hexempt, List.append_assoc]

theorem trimLeft_scopeOne (segment : List Char) :
    trimLeft (scopeOne exemptions name segment) = scopeOne exemptions name (trimLeft segment) := by
  rcases blank_or_eq_append segment with hblank | ⟨blanks, c, rest, rfl, hblanks, hc⟩
  · have hnil : trimLeft segment = [] := List.dropWhile_eq_nil_iff.2 hblank
    rw [scopeOne_of_blank exemptions name hblank, hnil]
    rfl
  · have hnone : ∀ b ∈ ([] : List Char), isBlank b = true := by simp
    have hbare := scopeOne_blanks_cons exemptions name hnone hc rest
    rw [List.nil_append, List.nil_append] at hbare
    rw [scopeOne_blanks_cons exemptions name hblanks hc, trimLeft_blanks_cons hblanks hc, hbare]
    split
    · exact trimLeft_blanks_cons hblanks hc rest
    · exact trimLeft_blanks_cons hblanks (by decide) _

theorem trimRight_scopeOne (segment : List Char) :
    trimRight (scopeOne Exemption.defaults name segment)
      = scopeOne Exemption.defaults name (trimRight segment) := by
  rcases blank_or_eq_append segment with hblank | ⟨blanks, c, rest, rfl, hblanks, hc⟩
  · rw [scopeOne_of_blank _ name hblank, trimRight_of_blank hblank]
    rfl
  · have hbody : trimRight (c :: rest) = c :: trimRight rest := trimRight_append_cons hc [] rest
    have hcovers := Exemption.any_covers_trimRight (c :: rest)
    rw [hbody] at hcovers
    rw [trimRight_append_cons hc, scopeOne_blanks_cons _ name hblanks hc,
      scopeOne_blanks_cons _ name hblanks hc, hcovers]
    split
    · exact trimRight_append_cons hc blanks rest
    · have hfront := trimRight_append_cons hc (blanks ++ '.' :: name ++ [' ']) rest
      simpa using hfront

/-! ## Lists of selectors -/

theorem scopeList_of_not_mem {segment : List Char} (h : ',' ∉ segment) :
    scopeList exemptions name segment = scopeOne exemptions name segment := by
  rw [scopeList, split_of_not_mem h]
  rfl

theorem scopeList_cut {segment : List Char} (h : ',' ∉ segment) (rest : List Char) :
    scopeList exemptions name (segment ++ ',' :: rest)
      = scopeOne exemptions name segment ++ ',' :: scopeList exemptions name rest := by
  have hne : (split ',' rest).map (scopeOne exemptions name) ≠ [] := fun hnil =>
    split_ne_nil ',' rest (List.map_eq_nil_iff.1 hnil)
  rw [scopeList, split_append, split_of_not_mem h, List.map_append, List.map_singleton,
    List.singleton_append, join_cons [','] _ hne, List.append_assoc]
  rfl

theorem trimLeft_scopeList (selectors : List Char) :
    trimLeft (scopeList exemptions name selectors)
      = scopeList exemptions name (trimLeft selectors) := by
  have hshort : ∀ {segment : List Char}, ',' ∉ segment → ',' ∉ trimLeft segment := by
    intro segment h hmem
    exact h ((List.dropWhile_sublist _).mem hmem)
  induction selectors using cut_induction ',' with
  | piece segment h =>
    rw [scopeList_of_not_mem _ _ h, scopeList_of_not_mem _ _ (hshort h), trimLeft_scopeOne]
  | cut segment rest h =>
    rw [scopeList_cut _ _ h, trimLeft_append_cons (by decide), trimLeft_append_cons (by decide),
      scopeList_cut _ _ (hshort h), trimLeft_scopeOne]

theorem trimRight_scopeList (selectors : List Char) :
    trimRight (scopeList Exemption.defaults name selectors)
      = scopeList Exemption.defaults name (trimRight selectors) := by
  induction selectors using cut_induction ',' with
  | piece segment h =>
    have hshort : ',' ∉ trimRight segment := fun hmem => h ((trimRight_isPrefix segment).mem hmem)
    rw [scopeList_of_not_mem _ _ h, scopeList_of_not_mem _ _ hshort, trimRight_scopeOne]
  | cut segment rest h ih =>
    rw [scopeList_cut _ _ h, trimRight_append_cons (by decide), trimRight_append_cons (by decide),
      scopeList_cut _ _ h, ih]

/-- **Trimming and scoping can change places**, whatever the name of the class. -/
theorem trim_scopeList (selectors : List Char) :
    trim (scopeList Exemption.defaults name selectors)
      = scopeList Exemption.defaults name (trim selectors) := by
  rw [trim, trimLeft_scopeList, trimRight_scopeList, trim]

end

end Selector

/-! ## Rules -/

namespace Fragment
open Selector

section
variable {name : String} (hname : name ≠ "") (hbrace : '{' ∉ name.toList)
include hname hbrace

theorem cutSelector_underScope (exemptions : List Exemption) (f : Fragment) :
    cutSelector (f.underScope exemptions name).toList
      = (scopeList exemptions name.toList f.selector.toList, f.block.toList) := by
  have hne : name.toList ≠ [] := fun h => hname (String.toList_eq_nil_iff.1 h)
  rw [underScope, String.toList_ofList, cutSelector_scopeRule hne hbrace, selector, block,
    String.toList_ofList, String.toList_ofList]

theorem trim_selector_underScope (f : Fragment) :
    let copy : Fragment := { f with text := f.underScope Exemption.defaults name }
    trim copy.selector.toList
        = scopeList Exemption.defaults name.toList (trim f.selector.toList) ∧
      copy.block = f.block := by
  intro copy
  have hcut := cutSelector_underScope hname hbrace Exemption.defaults f
  constructor
  · rw [toList_selector, hcut]
    exact trim_scopeList name.toList f.selector.toList
  · rw [block, hcut, String.ofList_toList]

end

end Fragment

end ThemedSheets
