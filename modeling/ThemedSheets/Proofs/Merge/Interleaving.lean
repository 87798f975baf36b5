import ThemedSheets.Proofs.Merge.Alignment
import ThemedSheets.Proofs.Sheet.Scoped
/- The rules of a merged stylesheet. Between the gaps of the first stylesheet stand groups of
   copies, joined by line feeds. The line feed before a copy becomes the first character of its run,
   so each group is cut into its copies again, and the gaps hold no rule because they held none
   before: `ofText_regroup`. `segment_merge` says this of a merge as a whole. -/
namespace ThemedSheets
open ThemedSheets.Text

namespace Outline

/-! ## Groups of rules -/

/-- The texts of a group on lines of their own: each but the first begins with the line feed. -/
def ownLines : List (List Char) → List (List Char)
  | [] => []
  | c :: cs => c :: cs.map ('\n' :: ·)

/-- The rules that a group of texts behind a gap is cut into. -/
def grouped (gap : List Char) : List (List Char) → List (List Char × List Char)
  | [] => []
  | c :: cs => (gap, c) :: cs.map fun c => ([], '\n' :: c)

/-- The outline with a group of rules in the place of each rule. -/
def regroup (o : Outline) (groups : List (List (List Char))) : Outline :=
  { o with rules := (o.rules.zip groups).flatMap fun ((gap, _), cs) => grouped gap cs }

theorem isRule_newline {rule : List Char} (h : IsRule rule) : IsRule ('\n' :: rule) := by
  obtain ⟨run, body, _, hrun, hbody, rfl⟩ := h
  exact ⟨'\n' :: run, body, by simp, hrun.cons (by decide), hbody, rfl⟩

theorem mem_grouped {gap : List Char} {cs : List (List Char)} {p : List Char × List Char}
    (h : p ∈ grouped gap cs) : (p.1 = gap ∨ p.1 = []) ∧ ∃ c ∈ cs, p.2 = c ∨ p.2 = '\n' :: c := by
  cases cs with
  | nil => simp [grouped] at h
  | cons c cs =>
    rcases List.mem_cons.1 h with rfl | h
    · exact ⟨Or.inl rfl, c, List.mem_cons_self, Or.inl rfl⟩
    · obtain ⟨d, hd, rfl⟩ := List.mem_map.1 h
      exact ⟨Or.inr rfl, d, List.mem_cons_of_mem c hd, Or.inr rfl⟩

theorem canonical_regroup {o : Outline} (h : o.Canonical) {groups : List (List (List Char))}
    (hrules : ∀ cs ∈ groups, ∀ c ∈ cs, IsRule c) : (o.regroup groups).Canonical := by
  -- a gap of the new outline is an old gap or empty, so nothing begins in it that did not before
  have hmem : ∀ p ∈ (o.regroup groups).rules, IsRule p.2 ∧
      (p.1 = [] ∨ ∃ rule, (p.1, rule) ∈ o.rules) := by
    intro p hp
    obtain ⟨⟨⟨gap, rule⟩, cs⟩, hzip, hp⟩ := List.mem_flatMap.1 hp
    obtain ⟨hgap, c, hc, hrule⟩ := mem_grouped hp
    obtain ⟨hold, hcs⟩ := List.of_mem_zip hzip
    constructor
    · rcases hrule with hrule | hrule
      · rw [hrule]; exact hrules cs hcs c hc
      · rw [hrule]; exact isRule_newline (hrules cs hcs c hc)
    · rcases hgap with hgap | hgap
      · exact Or.inr ⟨rule, hgap ▸ hold⟩
      · exact Or.inl hgap
  refine ⟨fun p hp => (hmem p hp).1, fun p hp => ?_, fun p hp => ?_, h.tailBare⟩
  · rcases (hmem p hp).2 with hnil | ⟨rule, hold⟩
    · rw [hnil]; exact endsRun_nil
    · exact h.gapEndsRun (p.1, rule) hold
  · rcases (hmem p hp).2 with hnil | ⟨rule, hold⟩
    · rw [hnil]; exact bareBefore_nil []
    · exact h.gapBare (p.1, rule) hold

theorem flatMap_grouped (gap c : List Char) (cs : List (List Char)) :
    (grouped gap (c :: cs)).flatMap (fun (gap, rule) => gap ++ rule)
      = gap ++ join ['\n'] (c :: cs) := by
  induction cs generalizing gap c with
  | nil => simp [grouped, join]
  | cons d cs ih =>
    have ih := ih [] ('\n' :: d)
    simp only [grouped, List.flatMap_cons, List.map_cons, List.nil_append] at ih ⊢
    rw [ih, join, List.append_assoc, List.append_assoc]
    cases cs with
    | nil => rfl
    | cons e cs => rfl

/-- The text of an outline with groups of rules: each group stands joined in a rule's place. -/
theorem flatten_regroup {o : Outline} {groups : List (List (List Char))}
    (hne : ∀ cs ∈ groups, cs ≠ []) (hlen : groups.length = o.rules.length) :
    (o.regroup groups).flatten = weave o.gaps (groups.map (join ['\n'])) := by
  obtain ⟨rules, tail⟩ := o
  induction rules generalizing groups with
  | nil =>
    obtain rfl : groups = [] := List.eq_nil_of_length_eq_zero hlen
    simp [regroup, flatten, gaps, weave]
  | cons p rules ih =>
    obtain ⟨gap, rule⟩ := p
    cases groups with
    | nil => simp at hlen
    | cons cs groups =>
      rw [List.forall_mem_cons] at hne
      have ih := ih hne.2 (by simpa using hlen)
      obtain ⟨c, cs, rfl⟩ := List.exists_cons_of_ne_nil hne.1
      rw [gaps_cons, List.map_cons, weave, ← ih, ← flatMap_grouped]
      simp only [regroup, flatten, List.zip_cons_cons, List.flatMap_cons, List.flatMap_append,
        List.append_assoc]

/-- Between the gaps of a stylesheet, groups of rules are cut into their rules. -/
theorem ofText_regroup {css : List Char} {groups : List (List (List Char))}
    (hne : ∀ cs ∈ groups, cs ≠ []) (hrules : ∀ cs ∈ groups, ∀ c ∈ cs, IsRule c)
    (hlen : groups.length = (ofText css).rules.length) :
    ofText (weave (ofText css).gaps (groups.map (join ['\n']))) = (ofText css).regroup groups := by
  rw [← flatten_regroup hne hlen]
  exact ofText_flatten (canonical_regroup (canonical_ofText css) hrules)

theorem texts_regroup {o : Outline} {groups : List (List (List Char))}
    (hlen : groups.length = o.rules.length) :
    (o.regroup groups).texts = groups.flatMap ownLines := by
  obtain ⟨rules, tail⟩ := o
  have hone : ∀ gap cs, (grouped gap cs).map (·.2) = ownLines cs := by
    intro gap cs
    cases cs with
    | nil => rfl
    | cons c cs => simp [grouped, ownLines]
  induction rules generalizing groups with
  | nil =>
    obtain rfl : groups = [] := List.eq_nil_of_length_eq_zero hlen
    rfl
  | cons p rules ih =>
    cases groups with
    | nil => simp at hlen
    | cons cs groups =>
      have ih := ih (by simpa using hlen)
      simp only [regroup, texts, List.zip_cons_cons, List.flatMap_cons, List.map_append, hone]
        at ih ⊢
      rw [ih]

theorem gaps_regroup {o : Outline} {groups : List (List (List Char))}
    (hne : ∀ cs ∈ groups, cs ≠ []) (hlen : groups.length = o.rules.length) :
    (o.regroup groups).gaps
      = (o.gaps.zip groups).flatMap (fun (gap, cs) => gap :: cs.tail.map fun _ => [])
        ++ o.gaps.drop groups.length := by
  obtain ⟨rules, tail⟩ := o
  induction rules generalizing groups with
  | nil =>
    obtain rfl : groups = [] := List.eq_nil_of_length_eq_zero hlen
    rfl
  | cons p rules ih =>
    obtain ⟨gap, rule⟩ := p
    cases groups with
    | nil => simp at hlen
    | cons cs groups =>
      rw [List.forall_mem_cons] at hne
      have ih := ih hne.2 (by simpa using hlen)
      obtain ⟨c, cs, rfl⟩ := List.exists_cons_of_ne_nil hne.1
      rw [gaps_cons, List.zip_cons_cons, List.flatMap_cons, List.length_cons, List.drop_succ_cons,
        List.append_assoc, ← ih]
      simp [regroup, gaps, grouped, Function.comp_def]

end Outline

namespace Merge

/-! ## The rules of a merged stylesheet -/

theorem exists_rule_of_mem_copies {sheets : List (Scope × CompiledScope)} {k : Nat}
    {c : List Char} (h : c ∈ copies sheets k) :
    ∃ s r rule, (s, r) ∈ sheets ∧ Outline.IsRule rule ∧
      c = Selector.scopeRule Exemption.defaults s.name.toList rule := by
  obtain ⟨⟨s, r⟩, hp, hcopy⟩ := List.mem_filterMap.1 h
  obtain ⟨f, hf, rfl⟩ := Option.map_eq_some_iff.1 hcopy
  refine ⟨s, r, f.text.toList, hp, Fragment.isRule_of_mem_segment (List.mem_of_getElem? hf), ?_⟩
  rw [Fragment.underScope, String.toList_ofList]

theorem isRule_of_mem_groups {sheets : List (Scope × CompiledScope)} {n : Nat}
    (hnames : ∀ p ∈ sheets, Outline.NoBreak p.1.name.toList) :
    ∀ cs ∈ groups sheets n, ∀ c ∈ cs, Outline.IsRule c := by
  intro cs hcs c hc
  obtain ⟨k, _, rfl⟩ := List.mem_map.1 hcs
  obtain ⟨s, r, rule, hp, hrule, rfl⟩ := exists_rule_of_mem_copies hc
  exact Selector.isRule_scopeRule (hnames (s, r) hp) _ hrule

theorem ne_nil_of_mem_groups {s : Scope} {base : CompiledScope}
    {sheets : List (Scope × CompiledScope)} :
    ∀ cs ∈ groups ((s, base) :: sheets) (Fragment.segment base.css).length, cs ≠ [] := by
  intro cs hcs
  obtain ⟨k, hk, rfl⟩ := List.mem_map.1 hcs
  obtain ⟨f, hf⟩ : ∃ f, (Fragment.segment base.css)[k]? = some f :=
    ⟨_, List.getElem?_eq_getElem (List.mem_range.1 hk)⟩
  simp [copies, hf]

/-- The outline of interleaved copies: the first stylesheet's, with groups of copies. -/
theorem ofText_interleaved {s : Scope} {base : CompiledScope}
    {sheets : List (Scope × CompiledScope)}
    (hnames : ∀ p ∈ (s, base) :: sheets, Outline.NoBreak p.1.name.toList) :
    Outline.ofText (interleaved base ((s, base) :: sheets))
      = (Outline.ofText base.css.toList).regroup
          (groups ((s, base) :: sheets) (Fragment.segment base.css).length) := by
  rw [interleaved, Fragment.outside_segment]
  refine Outline.ofText_regroup ne_nil_of_mem_groups (isRule_of_mem_groups hnames) ?_
  rw [length_groups, Fragment.length_segment]

/-- **Cutting a merged stylesheet gives the interleaved copies back.** If no name of a scope holds
a character that ends runs, a merge that is not verified returns; and the rules of a merged
stylesheet are, place by place and scope by scope, the rules of the results under their scopes'
classes, each but the first of its place behind a line feed. Outside them stand the gaps of the
first result, one before each place. After a verified merge every place has a copy for every
scope. -/
theorem segment_merge (base : CompiledScope) (others : List CompiledScope)
    (given : Option (List Scope)) (verify : Bool)
    (hlen : (scopesOf (base :: others) given).length = (base :: others).length)
    (hnames : ∀ s ∈ scopesOf (base :: others) given, Outline.NoBreak s.name.toList) :
    let results := base :: others
    let sheets := (scopesOf results given).zip results
    let places := groups sheets (Fragment.segment base.css).length
    let gaps := Fragment.outside base.css.toList 0 (Fragment.segment base.css)
    (verify = false → ∃ merged, (merge results given verify).outcome = .ok merged) ∧
    ∀ merged, (merge results given verify).outcome = .ok merged →
      (Fragment.segment merged.css).map (·.text.toList) = places.flatMap Outline.ownLines ∧
      Fragment.outside merged.css.toList 0 (Fragment.segment merged.css)
        = (gaps.zip places).flatMap (fun (gap, cs) => gap :: cs.tail.map fun _ => [])
          ++ gaps.drop places.length ∧
      (verify = true → ∀ cs ∈ places, cs.length = results.length) := by
  intro results sheets places gaps
  constructor
  · rintro rfl
    obtain ⟨merged, hmerged, _⟩ := exists_merged base others given false hlen (by simp)
    exact ⟨merged, hmerged⟩
  intro merged hmerged
  obtain ⟨s, scopes, hscopes⟩ : ∃ s scopes, scopesOf results given = s :: scopes :=
    List.exists_cons_of_length_eq_add_one hlen
  have hsheets : sheets = (s, base) :: scopes.zip others := by
    simp only [sheets, results, hscopes, List.zip_cons_cons]
  have hplaces : places.length = (Outline.ofText base.css.toList).rules.length := by
    rw [length_groups, Fragment.length_segment]
  have hne : ∀ cs ∈ places, cs ≠ [] := by
    simp only [places, hsheets]
    exact ne_nil_of_mem_groups
  have houtline : Outline.ofText merged.css.toList
      = (Outline.ofText base.css.toList).regroup places := by
    rw [(css_of_merge hlen hmerged).2]
    simp only [places, sheets, results] at hsheets ⊢
    rw [hsheets]
    refine ofText_interleaved fun p hp => hnames p.1 ?_
    rw [← hsheets] at hp
    exact (List.of_mem_zip hp).1
  refine ⟨?_, ?_, ?_⟩
  · rw [Fragment.map_text_segment, houtline, Outline.texts_regroup hplaces]
  · rw [Fragment.outside_segment, houtline, Outline.gaps_regroup hne hplaces]
    simp only [gaps, Fragment.outside_segment]
  · rintro rfl cs hcs
    obtain ⟨k, hk, rfl⟩ := List.mem_map.1 hcs
    have hall := lt_length_of_merge hlen hmerged (List.mem_range.1 hk)
    rw [(getElem?_copies hall).1, List.length_zip, hlen, Nat.min_self]

/-- Stray braces and a half rule around the rules of the first scope, and a second scope that has
only one rule. -/
theorem segment_merge_of_stray_braces :
    let a : CompiledScope := {
      scope := { name := "a" }, css := "\x7d\x7b.x,html\x7btop:0\x7dp\x7b/.y\x7b\x7d q\x7b" }
    let b : CompiledScope := { scope := { name := "b" }, css := ".z\x7btop:1\x7d" }
    (scopesOf [a, b] none).length = [a, b].length ∧
      (∀ s ∈ scopesOf [a, b] none, Outline.NoBreak s.name.toList) ∧
      ∃ merged, (merge [a, b] none false).outcome = .ok merged ∧
        (Fragment.segment merged.css).map (·.text.toList)
          = [".a .x,html\x7btop:0\x7d".toList, "\n.b .z\x7btop:1\x7d".toList,
            ".a .y\x7b\x7d".toList] := by
  intro a b
  have hlen : (scopesOf [a, b] none).length = [a, b].length := rfl
  have hnames : ∀ s ∈ scopesOf [a, b] none, Outline.NoBreak s.name.toList := by decide +kernel
  obtain ⟨hreturns, hsegment⟩ := segment_merge a [b] none false hlen hnames
  obtain ⟨merged, hmerged⟩ := hreturns rfl
  refine ⟨hlen, hnames, merged, hmerged, ?_⟩
  rw [(hsegment merged hmerged).1]
  decide +kernel

end Merge

end ThemedSheets
