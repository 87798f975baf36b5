import ThemedSheets.Sheet.Fragment
/- Where the rules of a stylesheet stand in it. A fragment carries positions, an outline carries
   gaps; this module says that both tell the same: the texts outside the fragments are the gaps of
   the outline (`outside_segment`), and the text in front of a fragment is made of the gaps and
   rules before it (`before_of_getElem?_segment`). -/
namespace ThemedSheets

namespace Outline

def before : List (List Char × List Char) → Nat → List Char
  | [], _ => []
  | (gap, _) :: _, 0 => gap
  | (gap, rule) :: rest, k + 1 => gap ++ rule ++ before rest k

theorem gaps_cons (gap rule : List Char) (rules : List (List Char × List Char))
    (tail : List Char) : gaps ⟨(gap, rule) :: rules, tail⟩ = gap :: gaps ⟨rules, tail⟩ := by
  simp [gaps]

theorem length_gaps (o : Outline) : o.gaps.length = o.rules.length + 1 := by simp [gaps]

theorem length_texts (o : Outline) : o.texts.length = o.rules.length := by simp [texts]

end Outline

namespace Fragment

/-- The texts of a stylesheet that stand outside fragments, from a position on: one before each
fragment, and one after the last. -/
def outside (css : List Char) : Nat → List Fragment → List (List Char)
  | pos, [] => [css.drop pos]
  | pos, f :: fs => (css.drop pos).take (f.start - pos) :: outside css f.stop fs

def before (css : String) (f : Fragment) : List Char := css.toList.take f.start

theorem length_segment (css : String) :
    (segment css).length = (Outline.ofText css.toList).rules.length := by
  have h := congrArg List.length (map_text_segment css)
  rwa [List.length_map, Outline.length_texts] at h

theorem toList_selector (f : Fragment) : f.selector.toList = (cutSelector f.text.toList).1 := by
  simp [selector]

theorem outside_spans (rules : List (List Char × List Char)) (tail read : List Char) :
    outside (read ++ Outline.flatten ⟨rules, tail⟩) read.length (spans read.length rules)
      = Outline.gaps ⟨rules, tail⟩ := by
  induction rules generalizing read with
  | nil => simp [spans, outside, Outline.gaps, Outline.flatten]
  | cons p rules ih =>
    obtain ⟨gap, rule⟩ := p
    have hflat : read ++ Outline.flatten ⟨(gap, rule) :: rules, tail⟩
        = read ++ gap ++ rule ++ Outline.flatten ⟨rules, tail⟩ := by
      simp [Outline.flatten]
    have hread : (read ++ gap ++ rule).length = read.length + gap.length + rule.length := by
      simp only [List.length_append]
    have ih := ih (read ++ gap ++ rule)
    rw [hread] at ih
    rw [spans, outside, Outline.gaps_cons, hflat, ih]
    congr 1
    rw [List.append_assoc, List.append_assoc, List.drop_left, Nat.add_sub_cancel_left,
      List.take_left]

/-- The texts outside the rules of a stylesheet are the gaps of its outline. -/
theorem outside_segment (css : String) :
    outside css.toList 0 (segment css) = (Outline.ofText css.toList).gaps := by
  have h := outside_spans (Outline.ofText css.toList).rules (Outline.ofText css.toList).tail []
  rw [List.nil_append] at h
  exact (congrArg (outside · 0 (segment css)) (Outline.flatten_ofText css.toList).symm).trans h

theorem take_start_spans {rules : List (List Char × List Char)} {tail read : List Char} {k : Nat}
    {f : Fragment} (h : (spans read.length rules)[k]? = some f) :
    (read ++ Outline.flatten ⟨rules, tail⟩).take f.start = read ++ Outline.before rules k := by
  induction rules generalizing read k with
  | nil => simp [spans] at h
  | cons p rules ih =>
    obtain ⟨gap, rule⟩ := p
    have hflat : read ++ Outline.flatten ⟨(gap, rule) :: rules, tail⟩
        = read ++ gap ++ (rule ++ Outline.flatten ⟨rules, tail⟩) := by
      simp [Outline.flatten]
    cases k with
    | zero =>
      simp only [spans, List.getElem?_cons_zero, Option.some.injEq] at h
      have hlen : f.start = (read ++ gap).length := by rw [← h]; simp
      rw [hflat, hlen, List.take_left, Outline.before]
    | succ k =>
      have hlen : (read ++ gap ++ rule).length = read.length + gap.length + rule.length := by
        simp only [List.length_append]
      rw [spans, List.getElem?_cons_succ, ← hlen] at h
      have ih := ih h
      rw [hflat, ← List.append_assoc, ih, Outline.before]
      simp

theorem before_of_getElem?_segment {css : String} {k : Nat} {f : Fragment}
    (h : (segment css)[k]? = some f) :
    before css f = Outline.before (Outline.ofText css.toList).rules k := by
  have := @take_start_spans _ (Outline.ofText css.toList).tail [] _ _ h
  rw [List.nil_append, List.nil_append] at this
  exact (congrArg (List.take f.start) (Outline.flatten_ofText css.toList).symm).trans this

end Fragment

end ThemedSheets
