import ThemedSheets.Proofs.Sheet.Spans
/- One stylesheet behind another. If the first is empty or ends with a closing brace, no run and no
   block goes over the seam, whatever braces are left open on either side. So the outline of both
   is that of the first with that of the second behind it, where the text around the seam is one
   gap (`ofText_append`), and the fragments of both are those of the first and, further on, those
   of the second (`segment_append`). -/
namespace ThemedSheets

namespace Outline

/-! ## Outlines one behind another -/

/-- An outline behind another one. The tail of the first is read on into the second. -/
def append (o p : Outline) : Outline :=
  match p.rules with
  | [] => ⟨o.rules, o.tail ++ p.tail⟩
  | (gap, rule) :: rest => ⟨o.rules ++ (o.tail ++ gap, rule) :: rest, p.tail⟩

theorem flatten_append (o p : Outline) : (o.append p).flatten = o.flatten ++ p.flatten := by
  obtain ⟨rules, tail⟩ := p
  cases rules <;> simp [append, flatten]

theorem texts_append (o p : Outline) : (o.append p).texts = o.texts ++ p.texts := by
  obtain ⟨rules, tail⟩ := p
  cases rules <;> simp [append, texts]

theorem append_cons (gap rule : List Char) (o p : Outline) :
    (o.cons gap rule).append p = (o.append p).cons gap rule := by
  obtain ⟨rules, tail⟩ := p
  cases rules <;> rfl

theorem replaceRules_append {o p : Outline} {news more : List (List Char)}
    (h : news.length = o.rules.length) (hmore : more.length = p.rules.length) :
    (o.append p).replaceRules (news ++ more) = (o.replaceRules news).append (p.replaceRules more) := by
  obtain ⟨rules, tail⟩ := p
  cases rules with
  | nil =>
    obtain rfl : more = [] := List.eq_nil_of_length_eq_zero hmore
    simp [append, replaceRules]
  | cons r rules =>
    obtain ⟨gap, rule⟩ := r
    cases more with
    | nil => simp at hmore
    | cons new more => simp [append, replaceRules, List.zip_append h.symm]

/-! ## The seam -/

/-- No text is left open at the end: it is empty, or a brace closes there. -/
def EndsClosed (text : List Char) : Prop := ∀ c ∈ text.getLast?, c = '}'

instance (text : List Char) : Decidable (EndsClosed text) :=
  decidable_of_iff (text.getLast?.all (· == '}') = true) (by simp [EndsClosed, Option.all_eq_true])

theorem EndsClosed.endsRun {text : List Char} (h : EndsClosed text) : EndsRun text := by
  intro c hc
  rw [h c hc]
  decide

theorem EndsClosed.of_append {xs ys : List Char} (h : EndsClosed (xs ++ ys)) : EndsClosed ys := by
  intro c hc
  exact h c (by rw [List.getLast?_append, hc, Option.some_or]; rfl)

theorem block?_append_of_close {cs : List Char} (h : block? cs = none) (hclose : '}' ∈ cs)
    (more : List Char) : block? (cs ++ more) = none := by
  induction cs with
  | nil => simp at hclose
  | cons c cs ih =>
    by_cases h1 : c = '}'
    · simp [block?, h1] at h
    · by_cases h2 : c = '{'
      · simp [block?, h2]
      · rw [block?, if_neg h1, if_neg h2, Option.map_eq_none_iff] at h
        have hclose := (List.mem_cons.1 hclose).resolve_left (Ne.symm h1)
        rw [List.cons_append, block?, if_neg h1, if_neg h2, ih h hclose]
        rfl

/-- No rule begins on one side of the seam and ends on the other. -/
theorem Bare.append {tail gap : List Char} (htail : Bare tail) (hclosed : EndsClosed tail)
    (hgap : Bare gap) : Bare (tail ++ gap) := by
  intro pre c post h hc
  rcases List.append_eq_append_iff.1 h with ⟨mid, rfl, hmid⟩ | ⟨mid, rfl, hmid⟩
  · exact hgap mid c post hmid hc
  · -- the run's last character and the brace stand behind the seam, around it, or before it
    match mid, hmid with
    | [], hmid => exact hgap [] c post hmid.symm hc
    | [d], hmid =>
      obtain ⟨rfl, -⟩ := List.cons.inj hmid
      obtain rfl : c = '}' := hclosed c (by simp)
      exact absurd hc (by decide)
    | d :: e :: mid, hmid =>
      simp only [List.cons_append, List.cons.injEq] at hmid
      obtain ⟨rfl, rfl, rfl⟩ := hmid
      have hnone := htail pre c mid rfl hc
      rw [List.append_nil] at hnone ⊢
      refine block?_append_of_close hnone ?_ gap
      rcases List.eq_nil_or_concat mid with rfl | ⟨init, last, rfl⟩
      · exact absurd (hclosed '{' (by simp)) (by decide)
      · rw [List.concat_eq_append] at hclosed ⊢
        have hlast : last = '}' :=
          hclosed last (by rw [← List.cons_append, ← List.cons_append, ← List.append_assoc,
            List.getLast?_concat]; rfl)
        simp [hlast]

theorem Canonical.append {o p : Outline} (ho : o.Canonical) (hp : p.Canonical)
    (hclosed : EndsClosed o.tail) : (o.append p).Canonical := by
  obtain ⟨rules, tail⟩ := p
  cases rules with
  | nil => exact ⟨ho.isRule, ho.gapEndsRun, ho.gapBare, ho.tailBare.append hclosed hp.tailBare⟩
  | cons r rules =>
    obtain ⟨gap, rule⟩ := r
    have hfirst : (gap, rule) ∈ (gap, rule) :: rules := List.mem_cons_self
    have hrest := hp.of_cons
    refine ⟨?_, ?_, ?_, hp.tailBare⟩
    · exact List.forall_mem_append.2
        ⟨ho.isRule, List.forall_mem_cons.2 ⟨hp.isRule (gap, rule) hfirst, hrest.isRule⟩⟩
    · exact List.forall_mem_append.2 ⟨ho.gapEndsRun, List.forall_mem_cons.2
        ⟨hclosed.endsRun.append (hp.gapEndsRun (gap, rule) hfirst), hrest.gapEndsRun⟩⟩
    · exact List.forall_mem_append.2 ⟨ho.gapBare, List.forall_mem_cons.2
        ⟨ho.tailBare.append hclosed (hp.gapBare (gap, rule) hfirst), hrest.gapBare⟩⟩

/-- Behind a closed text, a text is cut as if it stood alone. -/
theorem ofText_append {front : List Char} (h : EndsClosed front) (back : List Char) :
    ofText (front ++ back) = (ofText front).append (ofText back) := by
  have hclosed : EndsClosed (ofText front).tail := by
    rw [← flatten_ofText front, flatten] at h
    exact h.of_append
  have hcanonical := (canonical_ofText front).append (canonical_ofText back) hclosed
  rw [← ofText_flatten hcanonical, flatten_append, flatten_ofText, flatten_ofText]

end Outline

namespace Fragment
open Outline

/-! ## Fragments further on -/

def shift (f : Fragment) (n : Nat) : Fragment := { f with start := n + f.start, stop := n + f.stop }

theorem spans_add (n pos : Nat) (rules : List (List Char × List Char)) :
    spans (n + pos) rules = (spans pos rules).map (·.shift n) := by
  induction rules generalizing pos with
  | nil => rfl
  | cons p rules ih =>
    obtain ⟨gap, rule⟩ := p
    simp only [spans, List.map_cons, shift, Nat.add_assoc, ih]

theorem spans_append (pos : Nat) (o p : Outline) :
    spans pos (o.append p).rules
      = spans pos o.rules ++ spans (pos + o.flatten.length) p.rules := by
  obtain ⟨rules, tail⟩ := o
  induction rules generalizing pos with
  | nil =>
    obtain ⟨rules, tail'⟩ := p
    cases rules with
    | nil => rfl
    | cons r rules =>
      obtain ⟨gap, rule⟩ := r
      simp [append, spans, flatten, Nat.add_assoc]
  | cons r rules ih =>
    obtain ⟨gap, rule⟩ := r
    have hfront : append ⟨(gap, rule) :: rules, tail⟩ p = (append ⟨rules, tail⟩ p).cons gap rule :=
      append_cons gap rule ⟨rules, tail⟩ p
    have hflat : flatten ⟨(gap, rule) :: rules, tail⟩ = gap ++ rule ++ flatten ⟨rules, tail⟩ :=
      flatten_cons gap rule ⟨rules, tail⟩
    rw [hfront, Outline.cons, spans, spans, ih, hflat, List.length_append, List.length_append,
      List.cons_append, Nat.add_assoc, Nat.add_assoc, Nat.add_assoc]

/-- **Behind a closed stylesheet, another one has the fragments that it has alone.** -/
theorem segment_append {front : String} (h : EndsClosed front.toList) (back : String) :
    segment (front ++ back) = segment front ++ (segment back).map (·.shift front.length) := by
  rw [segment, String.toList_append, ofText_append h, spans_append, flatten_ofText,
    String.length_toList, Nat.zero_add, ← Nat.add_zero front.length, spans_add]
  rfl

end Fragment

end ThemedSheets
