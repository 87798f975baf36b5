import ThemedSheets.Proofs.Sheet.Places
import ThemedSheets.Proofs.Sheet.Canonical
/- Which spans of a stylesheet are its rules. Cutting reads a text from the left and goes on behind
   each rule that it finds, yet whether a span is a rule can be told on the spot: by the characters
   of the span and the one in front of it (`IsRuleSpan`). The reason is that a text with such a span
   is cut in front of it and behind it as if the parts stood alone (`ofText_around`).
   `segment_spans` says this of all spans at once. -/
namespace ThemedSheets

namespace Outline

/-! ## Cutting around a rule -/

def around (front : Outline) (rule : List Char) (back : Outline) : Outline :=
  ⟨front.rules ++ (front.tail, rule) :: back.rules, back.tail⟩

theorem flatten_around (front : Outline) (rule : List Char) (back : Outline) :
    (around front rule back).flatten = front.flatten ++ rule ++ back.flatten := by
  simp [around, flatten]

theorem forall_mem_around {front back : Outline} {rule : List Char}
    {P : List Char × List Char → Prop} :
    (∀ p ∈ (around front rule back).rules, P p) ↔
      (∀ p ∈ front.rules, P p) ∧ P (front.tail, rule) ∧ ∀ p ∈ back.rules, P p := by
  rw [around, List.forall_mem_append, List.forall_mem_cons]

theorem EndsRun.append {xs ys : List Char} (hx : EndsRun xs) (hy : EndsRun ys) :
    EndsRun (xs ++ ys) := by
  intro c hc
  rw [List.getLast?_append, Option.mem_def, Option.or_eq_some_iff] at hc
  rcases hc with hc | ⟨_, hc⟩
  · exact hy c hc
  · exact hx c hc

theorem EndsRun.of_append {xs ys : List Char} (h : EndsRun (xs ++ ys)) : EndsRun ys := by
  intro c hc
  refine h c ?_
  rw [List.getLast?_append, Option.mem_def.1 hc]
  exact Option.mem_some_self c

theorem IsRule.endsRun {rule : List Char} (h : IsRule rule) : EndsRun rule := by
  obtain ⟨run, body, _, _, _, rfl⟩ := h
  intro c hc
  obtain rfl : '}' = c := by
    rw [← List.cons_append, ← List.append_assoc, List.getLast?_concat] at hc
    exact Option.some.inj hc
  decide

theorem IsRule.length_pos {rule : List Char} (h : IsRule rule) : 0 < rule.length := by
  obtain ⟨run, body, hne, _, _, rfl⟩ := h
  exact List.length_pos_iff.2 (List.append_ne_nil_of_left_ne_nil hne _)

theorem Canonical.around {front back : Outline} (hfront : front.Canonical)
    (hback : back.Canonical) {rule : List Char} (hrule : IsRule rule)
    (hend : EndsRun front.flatten) : (around front rule back).Canonical where
  isRule := forall_mem_around.2 ⟨hfront.isRule, hrule, hback.isRule⟩
  -- what ended the first text is now the gap before the rule
  gapEndsRun := forall_mem_around.2 ⟨hfront.gapEndsRun, hend.of_append, hback.gapEndsRun⟩
  gapBare := forall_mem_around.2 ⟨hfront.gapBare, hfront.tailBare, hback.gapBare⟩
  tailBare := hback.tailBare

/-- A rule behind a text that ends runs is cut out, and the texts around it are cut as if they stood
alone. -/
theorem ofText_around {front rule : List Char} (hend : EndsRun front) (hrule : IsRule rule)
    (back : List Char) :
    ofText (front ++ rule ++ back) = around (ofText front) rule (ofText back) := by
  have hcanonical := (canonical_ofText front).around (canonical_ofText back) hrule
    (by rwa [flatten_ofText])
  rw [← ofText_flatten hcanonical, flatten_around, flatten_ofText, flatten_ofText]

/-- What stands in front of a rule of a canonical outline ends runs: a gap does, and where it is
empty the rule before does. -/
theorem endsRun_before {rules : List (List Char × List Char)}
    (hrule : ∀ p ∈ rules, IsRule p.2) (hgap : ∀ p ∈ rules, EndsRun p.1) (k : Nat) :
    EndsRun (before rules k) := by
  induction rules generalizing k with
  | nil => exact endsRun_nil
  | cons p rules ih =>
    rw [List.forall_mem_cons] at hrule hgap
    cases k with
    | zero => exact hgap.1
    | succ k => exact (hgap.1.append hrule.1.endsRun).append (ih hrule.2 hgap.2 k)

theorem exists_back_of_getElem? {rules : List (List Char × List Char)} {k : Nat}
    {gap rule : List Char} (h : rules[k]? = some (gap, rule)) (tail : List Char) :
    ∃ back, flatten ⟨rules, tail⟩ = before rules k ++ rule ++ back := by
  induction rules generalizing k with
  | nil => simp at h
  | cons p rules ih =>
    have hflat : flatten ⟨p :: rules, tail⟩ = p.1 ++ p.2 ++ flatten ⟨rules, tail⟩ :=
      flatten_cons p.1 p.2 ⟨rules, tail⟩
    cases k with
    | zero =>
      obtain rfl : p = (gap, rule) := by simpa using h
      exact ⟨flatten ⟨rules, tail⟩, hflat⟩
    | succ k =>
      obtain ⟨back, hback⟩ := ih (by simpa using h)
      exact ⟨back, by rw [hflat, hback]; simp [before]⟩

theorem before_around (front : Outline) (rule : List Char) (back : Outline) :
    before (around front rule back).rules front.rules.length = front.flatten := by
  obtain ⟨rules, tail⟩ := front
  induction rules with
  | nil => simp [around, before, flatten]
  | cons p rules ih =>
    exact (congrArg (p.1 ++ p.2 ++ ·) ih).trans (flatten_cons p.1 p.2 ⟨rules, tail⟩).symm

end Outline

namespace Fragment
open Outline

/-! ## Spans -/

/-- The form of a rule, told by positions: a run that begins the text or stands behind a break, the
brace that opens the block, and the brace at the end of the span, with none between the two. -/
def IsRuleSpan (css : List Char) (s e : Nat) : Prop :=
  s < e ∧ ∃ q, s < q ∧ NoBreak (css.extract s q) ∧
    (s = 0 ∨ ∃ c, css[s - 1]? = some c ∧ isBreak c = true) ∧ css[q]? = some '{' ∧
    NoBrace (css.extract (q + 1) (e - 1)) ∧ css[e - 1]? = some '}'

theorem extract_append (xs ys zs : List Char) :
    (xs ++ ys ++ zs).extract xs.length (xs.length + ys.length) = ys := by
  rw [List.append_assoc, List.extract_eq_take_drop, List.drop_left, Nat.add_sub_cancel_left,
    List.take_left]

theorem take_append_extract (css : List Char) {i j : Nat} (h : i ≤ j) :
    css.take i ++ css.extract i j = css.take j := by
  rw [List.extract_eq_take_drop, ← List.take_add, Nat.add_sub_cancel' h]

theorem mem_extract {css : List Char} {i j k : Nat} {c : Char} (h : css[k]? = some c) (hi : i ≤ k)
    (hj : k < j) : c ∈ css.extract i j := by
  refine List.mem_of_getElem? (i := k - i) ?_
  rw [List.extract_eq_take_drop, List.getElem?_take_of_lt (by omega), List.getElem?_drop,
    Nat.add_sub_cancel' hi, h]

theorem take_succ_of_getElem? {css : List Char} {i : Nat} {c : Char} (h : css[i]? = some c) :
    css.take (i + 1) = css.take i ++ [c] := by
  rw [List.take_add_one, h]
  rfl

theorem lt_close_of_spans {css : List Char} {s q e : Nat} (hse : s < e)
    (hrun : NoBreak (css.extract s q)) (hopen : css[q]? = some '{')
    (hclose : css[e - 1]? = some '}') : q < e - 1 := by
  refine Nat.lt_of_not_le fun hle => ?_
  rcases Nat.lt_or_eq_of_le hle with hlt | heq
  · exact absurd (hrun _ (mem_extract hclose (by omega) hlt)) (by decide)
  · rw [heq, hopen] at hclose
    exact absurd hclose (by decide)

theorem endsRun_take {css : List Char} {s : Nat}
    (h : s = 0 ∨ ∃ c, css[s - 1]? = some c ∧ isBreak c = true) : EndsRun (css.take s) := by
  cases s with
  | zero => exact endsRun_nil
  | succ s =>
    obtain ⟨c, hc, hbreak⟩ := h.resolve_left (Nat.succ_ne_zero s)
    intro d hd
    rw [take_succ_of_getElem? (show css[s]? = some c from hc), List.getLast?_concat] at hd
    rwa [← Option.some.inj hd]

/-- A span with the form of a rule cuts the text into what is in front, a rule, and the rest. -/
theorem IsRuleSpan.exists_parts {css : List Char} {s e : Nat} (h : IsRuleSpan css s e) :
    ∃ front rule back, css = front ++ rule ++ back ∧ EndsRun front ∧ IsRule rule ∧
      front.length = s ∧ s + rule.length = e := by
  obtain ⟨hse, q, hsq, hrun, hstart, hopen, hbody, hclose⟩ := h
  have hqe : q < e - 1 := lt_close_of_spans hse hrun hopen hclose
  have hend : e - 1 + 1 = e := by omega
  have hlen : e ≤ css.length := hend ▸ (List.getElem?_eq_some_iff.1 hclose).1
  let rule := css.extract s q ++ '{' :: (css.extract (q + 1) (e - 1) ++ ['}'])
  have hrule : css.take s ++ rule = css.take e := by
    calc css.take s ++ rule
        = (css.take s ++ css.extract s q ++ ['{']) ++ css.extract (q + 1) (e - 1) ++ ['}'] := by
          simp [rule]
      _ = css.take (q + 1) ++ css.extract (q + 1) (e - 1) ++ ['}'] := by
          rw [take_append_extract css (Nat.le_of_lt hsq), ← take_succ_of_getElem? hopen]
      _ = css.take e := by
          rw [take_append_extract css hqe, ← take_succ_of_getElem? hclose, hend]
  have hlength : s + rule.length = e := by
    have hsum := congrArg List.length hrule
    rw [List.length_append, List.length_take, List.length_take] at hsum
    omega
  refine ⟨css.take s, rule, css.drop e, ?_, endsRun_take hstart, ?_, ?_, hlength⟩
  · rw [hrule, List.take_append_drop]
  · refine ⟨css.extract s q, css.extract (q + 1) (e - 1), ?_, hrun, hbody, rfl⟩
    rw [← List.length_pos_iff, List.extract_eq_take_drop, List.length_take, List.length_drop]
    omega
  · rw [List.length_take]
    omega

theorem isRuleSpan_of_parts {front rule back : List Char} (hend : EndsRun front)
    (hrule : IsRule rule) :
    IsRuleSpan (front ++ rule ++ back) front.length (front.length + rule.length) := by
  have hpos := hrule.length_pos
  obtain ⟨run, body, hne, hrun, hbody, rfl⟩ := hrule
  have hrunPos : 0 < run.length := List.length_pos_iff.2 hne
  -- the text as the run, the opening brace, the body and the closing brace see it
  have hatRun : front ++ (run ++ '{' :: (body ++ ['}'])) ++ back
      = front ++ run ++ ('{' :: (body ++ '}' :: back)) := by simp
  have hatBody : front ++ (run ++ '{' :: (body ++ ['}'])) ++ back
      = (front ++ run ++ ['{']) ++ body ++ ('}' :: back) := by simp
  have hopen : front.length + run.length = (front ++ run).length := by simp
  have hclose : front.length + (run ++ '{' :: (body ++ ['}'])).length - 1
      = ((front ++ run ++ ['{']) ++ body).length := by
    simp only [List.length_append, List.length_cons, List.length_nil]
    omega
  refine ⟨by omega, front.length + run.length, by omega, ?_, ?_, ?_, ?_, ?_⟩
  · rw [hatRun, extract_append]
    exact hrun
  · rcases List.eq_nil_or_concat front with rfl | ⟨init, c, rfl⟩
    · exact Or.inl rfl
    · rw [List.concat_eq_append] at hend ⊢
      exact Or.inr ⟨c, by simp, hend c (by rw [List.getLast?_concat]; exact rfl)⟩
  · rw [hatRun, hopen, List.getElem?_append_right (Nat.le_refl _), Nat.sub_self]
    rfl
  · have hsucc : front.length + run.length + 1 = (front ++ run ++ ['{']).length := by
      rw [List.length_append, ← hopen, List.length_singleton]
    have hsum : ((front ++ run ++ ['{']) ++ body).length
        = (front ++ run ++ ['{']).length + body.length := List.length_append
    rw [hclose, hatBody, hsucc, hsum, extract_append]
    exact hbody
  · rw [hclose, hatBody, List.getElem?_append_right (Nat.le_refl _), Nat.sub_self]
    rfl

/-! ## The fragments of a stylesheet -/

/-- A fragment is the rule at its place, behind all that stands before. -/
theorem getElem?_spans (pos : Nat) (rules : List (List Char × List Char)) (k : Nat) :
    (spans pos rules)[k]? = rules[k]?.map fun (_, rule) =>
      ⟨String.ofList rule, pos + (Outline.before rules k).length,
        pos + (Outline.before rules k).length + rule.length⟩ := by
  induction rules generalizing pos k with
  | nil => rfl
  | cons p rules ih =>
    obtain ⟨gap, rule⟩ := p
    cases k with
    | zero => rfl
    | succ k =>
      have hpos : pos + gap.length + rule.length + (Outline.before rules k).length
          = pos + (Outline.before ((gap, rule) :: rules) (k + 1)).length := by
        simp only [Outline.before, List.length_append]
        omega
      rw [spans, List.getElem?_cons_succ, List.getElem?_cons_succ, ih, hpos]

/-- The fragments of a stylesheet are the rules that stand behind texts that end runs. -/
theorem mem_segment_iff {css : String} {f : Fragment} :
    f ∈ segment css ↔ ∃ front rule back, css.toList = front ++ rule ++ back ∧ EndsRun front ∧
      IsRule rule ∧ f = ⟨String.ofList rule, front.length, front.length + rule.length⟩ := by
  constructor
  · intro hf
    obtain ⟨k, hk⟩ := List.mem_iff_getElem?.1 hf
    rw [segment, getElem?_spans, Option.map_eq_some_iff] at hk
    obtain ⟨⟨gap, rule⟩, hget, rfl⟩ := hk
    have hcanonical := canonical_ofText css.toList
    obtain ⟨back, hback⟩ := exists_back_of_getElem? hget (ofText css.toList).tail
    refine ⟨Outline.before (ofText css.toList).rules k, rule, back, ?_,
      endsRun_before hcanonical.isRule hcanonical.gapEndsRun k,
      hcanonical.isRule (gap, rule) (List.mem_of_getElem? hget), by simp⟩
    exact (flatten_ofText css.toList).symm.trans hback
  · rintro ⟨front, rule, back, hcss, hend, hrule, rfl⟩
    refine List.mem_of_getElem? (i := (ofText front).rules.length) ?_
    rw [segment, getElem?_spans, hcss, ofText_around hend hrule, before_around, flatten_ofText,
      around, List.getElem?_append_right (Nat.le_refl _), Nat.sub_self]
    simp

theorem le_start_of_mem_spans {pos : Nat} {rules : List (List Char × List Char)} {f : Fragment}
    (h : f ∈ spans pos rules) : pos ≤ f.start := by
  obtain ⟨k, hk⟩ := List.mem_iff_getElem?.1 h
  rw [getElem?_spans, Option.map_eq_some_iff] at hk
  obtain ⟨p, _, rfl⟩ := hk
  exact Nat.le_add_right pos _

theorem pairwise_spans (pos : Nat) (rules : List (List Char × List Char)) :
    (spans pos rules).Pairwise fun f g => f.stop ≤ g.start := by
  induction rules generalizing pos with
  | nil => exact List.Pairwise.nil
  | cons p rules ih =>
    rw [spans, List.pairwise_cons]
    exact ⟨fun g hg => le_start_of_mem_spans hg, ih _⟩

theorem eq_or_apart_of_pairwise {fs : List Fragment}
    (h : fs.Pairwise fun f g => f.stop ≤ g.start) {f g : Fragment} (hf : f ∈ fs) (hg : g ∈ fs) :
    f = g ∨ f.stop ≤ g.start ∨ g.stop ≤ f.start := by
  induction fs with
  | nil => simp at hf
  | cons a fs ih =>
    rw [List.pairwise_cons] at h
    rcases List.mem_cons.1 hf with hfa | hf
    · rcases List.mem_cons.1 hg with hga | hg
      · exact Or.inl (hfa.trans hga.symm)
      · exact Or.inr (Or.inl (hfa ▸ h.1 g hg))
    · rcases List.mem_cons.1 hg with hga | hg
      · exact Or.inr (Or.inr (hga ▸ h.1 f hf))
      · exact ih h.2 hf hg

/-- The span of a fragment has the form of a rule, and its text is the text of the span. -/
theorem isRuleSpan_of_mem_segment {css : String} {f : Fragment} (h : f ∈ segment css) :
    IsRuleSpan css.toList f.start f.stop ∧ f.text.toList = css.toList.extract f.start f.stop := by
  obtain ⟨front, rule, back, hcss, hend, hrule, rfl⟩ := mem_segment_iff.1 h
  rw [hcss]
  exact ⟨isRuleSpan_of_parts hend hrule, by rw [extract_append, String.toList_ofList]⟩

theorem exists_mem_segment {css : String} {s e : Nat} (h : IsRuleSpan css.toList s e) :
    ∃ f ∈ segment css, f.start = s ∧ f.stop = e := by
  obtain ⟨front, rule, back, hcss, hend, hrule, rfl, rfl⟩ := h.exists_parts
  exact ⟨_, mem_segment_iff.2 ⟨front, rule, back, hcss, hend, hrule, rfl⟩, rfl, rfl⟩

/-- **The scan finds exactly the spans with the form of a rule.** The fragments of a stylesheet
stand in order and apart from each other, and the text of each is the text of its span. A pair of
positions is the span of a fragment if and only if it has the form of a rule, which no other span
has a part in; and two spans with that form are one or stand apart. -/
theorem segment_spans (css : String) :
    (segment css).Pairwise (fun f g => f.start < g.start ∧ f.stop < g.stop ∧ f.stop ≤ g.start) ∧
    (∀ f ∈ segment css, f.text.toList = css.toList.extract f.start f.stop) ∧
    (∀ s e, (s, e) ∈ (segment css).map (fun f => (f.start, f.stop)) ↔
      IsRuleSpan css.toList s e) ∧
    (∀ s e s' e', IsRuleSpan css.toList s e → IsRuleSpan css.toList s' e' →
      (s = s' ∧ e = e') ∨ e ≤ s' ∨ e' ≤ s) := by
  have hpairs : (segment css).Pairwise fun f g => f.stop ≤ g.start := pairwise_spans 0 _
  have hpos : ∀ f ∈ segment css, f.start < f.stop :=
    fun f hf => (isRuleSpan_of_mem_segment hf).1.1
  refine ⟨?_, fun f hf => (isRuleSpan_of_mem_segment hf).2, ?_, ?_⟩
  · refine hpairs.imp_of_mem ?_
    intro f g hf hg hle
    have hf := hpos f hf
    have hg := hpos g hg
    omega
  · intro s e
    rw [List.mem_map]
    constructor
    · rintro ⟨f, hf, hse⟩
      obtain ⟨rfl, rfl⟩ := Prod.mk.inj hse
      exact (isRuleSpan_of_mem_segment hf).1
    · intro h
      obtain ⟨f, hf, rfl, rfl⟩ := exists_mem_segment h
      exact ⟨f, hf, rfl⟩
  · intro s e s' e' h h'
    obtain ⟨f, hf, rfl, rfl⟩ := exists_mem_segment h
    obtain ⟨g, hg, rfl, rfl⟩ := exists_mem_segment h'
    rcases eq_or_apart_of_pairwise hpairs hf hg with rfl | hapart
    · exact Or.inl ⟨rfl, rfl⟩
    · exact Or.inr hapart

end Fragment

end ThemedSheets
