import ThemedSheets.Proofs.Sheet.Canonical
import ThemedSheets.Proofs.Text.Split
import ThemedSheets.Sheet.Selector
/- Rules under a scope class. The class goes into the selector list only, between pieces of it, so
   what holds of the name, of texts without breaks and of texts put together of such ones holds of
   the new list (`scopeList_closed`). With a name that ends no run the copy of a rule is a rule
   again (`isRule_scopeRule`). -/
namespace ThemedSheets
open ThemedSheets.Text

/-! ## Texts without breaks -/

namespace Outline

theorem NoBreak.append {xs ys : List Char} (hx : NoBreak xs) (hy : NoBreak ys) :
    NoBreak (xs ++ ys) := by
  intro c hc
  rcases List.mem_append.1 hc with hc | hc
  · exact hx c hc
  · exact hy c hc

theorem NoBreak.sublist {xs ys : List Char} (h : NoBreak ys) (hs : xs.Sublist ys) : NoBreak xs :=
  fun c hc => h c (hs.mem hc)

theorem cutSelector_rule {run : List Char} (h : NoBreak run) (block : List Char) :
    Fragment.cutSelector (run ++ '{' :: block) = (run, '{' :: block) := by
  have hrun : ∀ c ∈ run, (c != '{') = true := fun c hc => by simpa using (h.noBrace c hc).1
  simp [Fragment.cutSelector, List.takeWhile_append_of_pos hrun,
    List.dropWhile_append_of_pos hrun]

end Outline

/-! ## Selector lists -/

namespace Selector
open Outline

/-- What concatenation keeps and holds of the name and of all texts without breaks holds of a
selector under the class. -/
theorem scopeOne_closed {P : List Char → Prop} (happend : ∀ xs ys, P xs → P ys → P (xs ++ ys))
    (hplain : ∀ cs, NoBreak cs → P cs) {name : List Char} (hname : P name)
    (exemptions : List Exemption) {segment : List Char} (h : NoBreak segment) :
    P (scopeOne exemptions name segment) := by
  have hbody : P (trimLeft segment) := hplain _ (h.sublist (List.dropWhile_sublist _))
  have hblank : P (segment.takeWhile isBlank) := hplain _ (h.sublist (List.takeWhile_sublist _))
  have hdot : P ['.'] := hplain _ (by decide)
  have hspace : P [' '] := hplain _ (by decide)
  rw [scopeOne]
  split
  · exact hplain _ h
  · have hsplit : segment.takeWhile isBlank ++ '.' :: name ++ ' ' :: trimLeft segment
        = segment.takeWhile isBlank ++ ['.'] ++ name ++ ([' '] ++ trimLeft segment) := by simp
    rw [hsplit]
    exact happend _ _ (happend _ _ (happend _ _ hblank hdot) hname) (happend _ _ hspace hbody)

theorem scopeList_closed {P : List Char → Prop} (happend : ∀ xs ys, P xs → P ys → P (xs ++ ys))
    (hplain : ∀ cs, NoBreak cs → P cs) {name : List Char} (hname : P name)
    (exemptions : List Exemption) {selectors : List Char} (h : NoBreak selectors) :
    P (scopeList exemptions name selectors) := by
  refine join_closed happend (hplain [] noBreak_nil) (hplain [','] (by decide)) ?_
  rw [List.forall_mem_map]
  intro segment hs
  exact scopeOne_closed happend hplain hname exemptions fun c hc => h c (mem_of_mem_split hs hc)

theorem scopeOne_ne_nil (exemptions : List Exemption) (name : List Char) {segment : List Char}
    (h : segment ≠ []) : scopeOne exemptions name segment ≠ [] := by
  rw [scopeOne]
  split
  · exact h
  · simp

theorem scopeList_ne_nil (exemptions : List Exemption) (name : List Char) {selectors : List Char}
    (h : selectors ≠ []) : scopeList exemptions name selectors ≠ [] := by
  intro hnil
  -- joined pieces are empty only if there is one piece, which then is the whole list
  have hjoin := join_split ',' selectors
  rcases join_eq_nil hnil with hs | hs
  · exact split_ne_nil ',' selectors (List.map_eq_nil_iff.1 hs)
  · obtain ⟨segment, hsegs, hone⟩ : ∃ segment, split ',' selectors = [segment] ∧
        scopeOne exemptions name segment = [] := by
      cases hp : split ',' selectors with
      | nil => exact absurd hp (split_ne_nil ',' selectors)
      | cons p ps =>
        rw [hp, List.map_cons, List.cons.injEq, List.map_eq_nil_iff] at hs
        exact ⟨p, by rw [hs.2], hs.1⟩
    refine scopeOne_ne_nil exemptions name ?_ hone
    rw [hsegs] at hjoin
    rwa [show segment = selectors from hjoin]

/-- A rule under the class: its selector list is put under the class, its block stays. -/
theorem scopeRule_eq {run : List Char} (h : NoBreak run) (exemptions : List Exemption)
    {name : List Char} (hname : name ≠ []) (block : List Char) :
    scopeRule exemptions name (run ++ '{' :: block)
      = scopeList exemptions name run ++ '{' :: block := by
  rw [scopeRule, if_neg hname, cutSelector_rule h]

theorem isRule_scopeRule {name : List Char} (hname : NoBreak name) (exemptions : List Exemption)
    {rule : List Char} (h : IsRule rule) : IsRule (scopeRule exemptions name rule) := by
  by_cases hnil : name = []
  · rwa [scopeRule, if_pos hnil]
  · obtain ⟨run, body, hne, hrun, hbody, rfl⟩ := h
    rw [scopeRule_eq hrun exemptions hnil]
    exact ⟨_, body, scopeList_ne_nil exemptions name hne,
      scopeList_closed (fun _ _ => NoBreak.append) (fun _ h => h) hname exemptions hrun, hbody, rfl⟩

end Selector

theorem Fragment.isRule_of_mem_segment {css : String} {f : Fragment}
    (h : f ∈ Fragment.segment css) : Outline.IsRule f.text.toList := by
  have hmem : f.text.toList ∈ (Outline.ofText css.toList).texts := by
    rw [← Fragment.map_text_segment]
    exact List.mem_map_of_mem h
  obtain ⟨p, hp, hpt⟩ := List.mem_map.1 hmem
  rw [← hpt]
  exact (Outline.canonical_ofText css.toList).isRule p hp

end ThemedSheets
