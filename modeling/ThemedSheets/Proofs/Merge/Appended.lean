import ThemedSheets.Proofs.Merge.Alignment
import ThemedSheets.Proofs.Sheet.Appended
/- Merging stylesheets that are put together of two parts. Behind closed stylesheets the rules of
   others are found as they are found alone, and if the first parts agree in number every rule of
   the second parts moves by the same number of places (`copies_followedBy`). So the copies fall
   into those of the two merges, and the merged stylesheet of the whole is that of the first parts
   with that of the second parts behind it (`merge_followedBy`). -/
namespace ThemedSheets
open ThemedSheets.Text

def CompiledScope.followedBy (r more : CompiledScope) : CompiledScope :=
  { r with css := r.css ++ more.css }

namespace Merge
open Outline

/-! ## Two parts of one stylesheet -/

theorem underScope_shift (f : Fragment) (n : Nat) (exemptions : List Exemption) (name : String) :
    (f.shift n).underScope exemptions name = f.underScope exemptions name := rfl

theorem selector_shift (f : Fragment) (n : Nat) : (f.shift n).selector = f.selector := rfl

theorem selectors_append {front : String} (h : EndsClosed front.toList) (back : String) :
    selectors (front ++ back) = selectors front ++ selectors back := by
  rw [selectors, selectors, selectors, Fragment.segment_append h, List.map_append, List.map_map]
  simp only [Function.comp_def, selector_shift]

/-- The interleaved stylesheet as an outline with other texts in the place of its rules. -/
theorem interleaved_eq (base : CompiledScope) (sheets : List (Scope × CompiledScope)) :
    let skeleton := ofText base.css.toList
    interleaved base sheets = (skeleton.replaceRules
      ((groups sheets skeleton.rules.length).map (join ['\n']))).flatten := by
  intro skeleton
  rw [flatten_replaceRules (by rw [List.length_map, length_groups]), interleaved,
    Fragment.outside_segment, Fragment.length_segment]

/-! ## The copies of two parts -/

section
variable {first second : List CompiledScope} {n : Nat} (hlen : first.length = second.length)
  (hclosed : ∀ r ∈ first, EndsClosed r.css.toList)
  (hcount : ∀ r ∈ first, (Fragment.segment r.css).length = n)
include hlen hclosed hcount

theorem copies_followedBy (scopes : List Scope) (k : Nat) :
    copies (scopes.zip (List.zipWith CompiledScope.followedBy first second)) k
      = if k < n then copies (scopes.zip first) k else copies (scopes.zip second) (k - n) := by
  induction first generalizing second scopes with
  | nil =>
    obtain rfl : second = [] := List.eq_nil_of_length_eq_zero hlen.symm
    simp [copies]
  | cons r first ih =>
    cases second with
    | nil => simp at hlen
    | cons r' second =>
      cases scopes with
      | nil => simp [copies]
      | cons s scopes =>
        rw [List.forall_mem_cons] at hclosed hcount
        have ih := ih (by simpa using hlen) hclosed.2 hcount.2 scopes
        have hrule : (Fragment.segment (r.followedBy r').css)[k]?
            = if k < n then (Fragment.segment r.css)[k]?
              else ((Fragment.segment r'.css)[k - n]?).map (·.shift r.css.length) := by
          rw [CompiledScope.followedBy, Fragment.segment_append hclosed.1, List.getElem?_append,
            hcount.1, List.getElem?_map]
        simp only [copies, List.zipWith_cons_cons, List.zip_cons_cons, List.filterMap_cons] at ih ⊢
        rw [hrule, ih]
        by_cases hk : k < n
        · simp only [if_pos hk]
        · simp only [if_neg hk, Option.map_map, Function.comp_def, underScope_shift]

theorem groups_followedBy (scopes : List Scope) (m : Nat) :
    groups (scopes.zip (List.zipWith CompiledScope.followedBy first second)) (n + m)
      = groups (scopes.zip first) n ++ groups (scopes.zip second) m := by
  rw [groups, List.range_add, List.map_append, List.map_map, groups, groups]
  congr 1
  · refine List.map_congr_left fun k hk => ?_
    rw [copies_followedBy hlen hclosed hcount, if_pos (List.mem_range.1 hk)]
  · refine List.map_congr_left fun k _ => ?_
    rw [Function.comp_apply, copies_followedBy hlen hclosed hcount, if_neg (by omega),
      Nat.add_sub_cancel_left]

end

/-- The interleaved stylesheets of two parts stand one behind the other. -/
theorem interleaved_followedBy {base base' : CompiledScope} {others others' : List CompiledScope}
    (hlen : (base :: others).length = (base' :: others').length)
    (hclosed : ∀ r ∈ base :: others, EndsClosed r.css.toList)
    (hcount : ∀ r ∈ base :: others,
      (Fragment.segment r.css).length = (Fragment.segment base.css).length) (scopes : List Scope) :
    interleaved (base.followedBy base')
        (scopes.zip (List.zipWith CompiledScope.followedBy (base :: others) (base' :: others')))
      = interleaved base (scopes.zip (base :: others))
        ++ interleaved base' (scopes.zip (base' :: others')) := by
  have hskeleton : ofText (base.followedBy base').css.toList
      = (ofText base.css.toList).append (ofText base'.css.toList) := by
    rw [CompiledScope.followedBy, String.toList_append]
    exact ofText_append (hclosed base List.mem_cons_self) _
  have hrules : (ofText (base.followedBy base').css.toList).rules.length
      = (Fragment.segment base.css).length + (ofText base'.css.toList).rules.length := by
    rw [← length_texts, hskeleton, texts_append, List.length_append, length_texts, length_texts,
      Fragment.length_segment]
  have hgroups := groups_followedBy hlen hclosed hcount scopes (ofText base'.css.toList).rules.length
  simp only [interleaved_eq]
  rw [hrules, hgroups, hskeleton, List.map_append, replaceRules_append, flatten_append,
    Fragment.length_segment]
  · rw [List.length_map, length_groups, Fragment.length_segment]
  · rw [List.length_map, length_groups]

/-! ## Merging -/

theorem length_scopesOf_of_merge {base : CompiledScope} {others : List CompiledScope}
    {given : Option (List Scope)} {verify : Bool} {merged : MergeResult}
    (h : (merge (base :: others) given verify).outcome = .ok merged) :
    (scopesOf (base :: others) given).length = (base :: others).length := by
  refine Decidable.byContradiction fun hne => ?_
  have hcount : (given.getD ((base :: others).map (·.scope))).length ≠ (base :: others).length := hne
  simp only [merge, if_pos hcount] at h
  cases h

theorem scopesOf_followedBy {first second : List CompiledScope}
    (hlen : first.length = second.length) (given : Option (List Scope)) :
    scopesOf (List.zipWith CompiledScope.followedBy first second) given = scopesOf first given := by
  have hmap : (List.zipWith CompiledScope.followedBy first second).map (·.scope)
      = first.map (·.scope) := by
    induction first generalizing second with
    | nil => rfl
    | cons r first ih =>
      cases second with
      | nil => simp at hlen
      | cons r' second => exact congrArg (r.scope :: ·) (ih (by simpa using hlen))
  rw [scopesOf, scopesOf, hmap]

theorem exists_parts_of_mem {first second : List CompiledScope} {r : CompiledScope}
    (h : r ∈ List.zipWith CompiledScope.followedBy first second) :
    ∃ a ∈ first, ∃ b ∈ second, r = a.followedBy b := by
  obtain ⟨i, hi⟩ := List.mem_iff_getElem?.1 h
  obtain ⟨a, b, ha, hb, rfl⟩ := List.getElem?_zipWith_eq_some.1 hi
  exact ⟨a, List.mem_of_getElem? ha, b, List.mem_of_getElem? hb, rfl⟩

/-- **Merging respects putting stylesheets together.** Let every stylesheet of the first results be
closed, and let the first and the second results be merged by the same scopes, both verified. Then the
merge of the stylesheets put together returns too, and its CSS is that of the first merge with that
of the second behind it. The fragments of each stylesheet put together are those of its first part,
and those of its second part by the length of the first further on. -/
theorem merge_followedBy {first second : List CompiledScope} {given : Option (List Scope)}
    {merged merged' : MergeResult} (hlen : first.length = second.length)
    (hscopes : scopesOf first given = scopesOf second given)
    (hclosed : ∀ r ∈ first, EndsClosed r.css.toList)
    (h : (merge first given true).outcome = .ok merged)
    (h' : (merge second given true).outcome = .ok merged') :
    (∃ both, (merge (List.zipWith CompiledScope.followedBy first second) given true).outcome
        = .ok both ∧ both.css = merged.css ++ merged'.css) ∧
      ∀ (i : Nat) (r r' : CompiledScope), first[i]? = some r → second[i]? = some r' →
        Fragment.segment (r.css ++ r'.css)
          = Fragment.segment r.css ++ (Fragment.segment r'.css).map (·.shift r.css.length) := by
  refine ⟨?_, fun i r r' hr _ => Fragment.segment_append (hclosed r (List.mem_of_getElem? hr)) _⟩
  cases first with
  | nil =>
    obtain rfl : second = [] := List.eq_nil_of_length_eq_zero hlen.symm
    obtain rfl : {} = merged := Except.ok.inj h
    obtain rfl : {} = merged' := Except.ok.inj h'
    exact ⟨{}, rfl, rfl⟩
  | cons base others =>
    cases second with
    | nil => simp at hlen
    | cons base' others' =>
      have hsame := length_scopesOf_of_merge h
      have hsame' := length_scopesOf_of_merge h'
      obtain ⟨hagree, hcss⟩ := css_of_merge hsame h
      obtain ⟨hagree', hcss'⟩ := css_of_merge hsame' h'
      have hcount := length_segment_of_merge hsame h
      let whole := List.zipWith CompiledScope.followedBy (base :: others) (base' :: others')
      have hwhole : scopesOf whole given = scopesOf (base :: others) given :=
        scopesOf_followedBy hlen given
      have hsameWhole : (scopesOf whole given).length = whole.length := by
        rw [hwhole, hsame, List.length_zipWith, ← hlen, Nat.min_self]
      have hagreeWhole : ∀ r ∈ List.zipWith CompiledScope.followedBy others others',
          selectors r.css = selectors (base.followedBy base').css := by
        intro r hr
        obtain ⟨a, ha, b, hb, rfl⟩ := exists_parts_of_mem hr
        rw [CompiledScope.followedBy, CompiledScope.followedBy,
          selectors_append (hclosed a (List.mem_cons_of_mem base ha)),
          selectors_append (hclosed base List.mem_cons_self), hagree rfl a ha, hagree' rfl b hb]
      obtain ⟨both, hboth, hcssBoth⟩ := exists_merged (base.followedBy base')
        (List.zipWith CompiledScope.followedBy others others') given true hsameWhole
        fun _ => hagreeWhole
      refine ⟨both, hboth, String.toList_inj.1 ?_⟩
      calc both.css.toList
          = interleaved (base.followedBy base') ((scopesOf whole given).zip whole) := hcssBoth
        _ = interleaved (base.followedBy base') ((scopesOf (base :: others) given).zip whole) :=
            congrArg (fun scopes => interleaved _ (scopes.zip whole)) hwhole
        _ = interleaved base ((scopesOf (base :: others) given).zip (base :: others))
              ++ interleaved base' ((scopesOf (base :: others) given).zip (base' :: others')) :=
            interleaved_followedBy hlen hclosed hcount _
        _ = (merged.css ++ merged'.css).toList := by
            rw [String.toList_append, hcss, hcss', hscopes]

/-- Blocks left open before the seam and a brace that closes one behind it, in both scopes. -/
theorem merge_followedBy_of_open_blocks :
    let sheet : String → String → CompiledScope := fun name css => { scope := { name }, css }
    let first := [sheet "a" "@media p\x7b.x\x7btop:0\x7d", sheet "b" "\x7b\x7b.x \x7btop:1\x7d"]
    let second := [sheet "a" "\x7d.y\x7btop:0\x7d/p\x7b", sheet "b" " .y\x7btop:1\x7d"]
    first.length = second.length ∧ scopesOf first none = scopesOf second none ∧
      (∀ r ∈ first, EndsClosed r.css.toList) ∧
      ∃ merged merged' both, (merge first none true).outcome = .ok merged ∧
        (merge second none true).outcome = .ok merged' ∧
        (merge (List.zipWith CompiledScope.followedBy first second) none true).outcome = .ok both ∧
        merged.css = "@media p\x7b.a .x\x7btop:0\x7d\n.b .x \x7btop:1\x7d" ∧
        merged'.css = "\x7d.a .y\x7btop:0\x7d\n .b .y\x7btop:1\x7d/p\x7b" ∧
        both.css = merged.css ++ merged'.css := by
  intro sheet first second
  have hclosed : ∀ r ∈ first, EndsClosed r.css.toList := by decide +kernel
  have hfirst : (merge first none true).outcome.toOption
      = some { css := "@media p\x7b.a .x\x7btop:0\x7d\n.b .x \x7btop:1\x7d" } := by decide +kernel
  have hsecond : (merge second none true).outcome.toOption
      = some { css := "\x7d.a .y\x7btop:0\x7d\n .b .y\x7btop:1\x7d/p\x7b" } := by decide +kernel
  have hlen : first.length = second.length := rfl
  have hscopes : scopesOf first none = scopesOf second none := rfl
  have hmerged := Run.outcome_eq_ok hfirst
  have hmerged' := Run.outcome_eq_ok hsecond
  obtain ⟨⟨both, hboth, hcss⟩, -⟩ := merge_followedBy hlen hscopes hclosed hmerged hmerged'
  exact ⟨hlen, hscopes, hclosed, _, _, both, hmerged, hmerged', hboth, rfl, rfl, hcss⟩

end Merge

end ThemedSheets
