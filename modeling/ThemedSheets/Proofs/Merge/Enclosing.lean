import ThemedSheets.Proofs.Merge.Interleaving
import ThemedSheets.Proofs.Sheet.Nesting
/- What encloses the copies in a merged stylesheet. The check of the rules compares selector lists
   and nothing between the rules, while the text between them is taken from the first result. So
   every copy stands where the first result has the rule (`preludes_merge`), whatever encloses the
   rule in the scope's own stylesheet; and scopes whose rules stand in different at-rules are merged
   into the first scope's (`verified_merge_changes_preludes`). -/
namespace ThemedSheets
open ThemedSheets.Text

/-! ## Texts up to a place -/

theorem Outline.weave_prefix {gaps texts : List (List Char)} {k : Nat} {t : List Char}
    (hgaps : k < gaps.length) (ht : texts[k]? = some t) :
    weave (gaps.take (k + 1)) (texts.take k) ++ t <+: weave gaps texts := by
  induction k generalizing gaps texts with
  | zero =>
    obtain ⟨gap, gaps, rfl⟩ := List.exists_cons_of_length_pos hgaps
    cases texts with
    | nil => simp at ht
    | cons u texts =>
      obtain rfl : u = t := by simpa using ht
      exact ⟨weave gaps texts, by simp [weave]⟩
  | succ k ih =>
    obtain ⟨gap, gaps, rfl⟩ := List.exists_cons_of_length_pos (Nat.zero_lt_of_lt hgaps)
    cases texts with
    | nil => simp at ht
    | cons u texts =>
      obtain ⟨rest, hrest⟩ := @ih gaps texts (by simpa using hgaps) (by simpa using ht)
      exact ⟨rest, by simp [weave, ← hrest]⟩

theorem join_prefix {cs : List (List Char)} {i : Nat} {c : List Char} (h : cs[i]? = some c) :
    (cs.take i).flatMap (· ++ ['\n']) ++ c <+: join ['\n'] cs := by
  induction i generalizing cs with
  | zero =>
    cases cs with
    | nil => simp at h
    | cons d cs =>
      obtain rfl : d = c := by simpa using h
      cases cs with
      | nil => exact ⟨[], by simp [join]⟩
      | cons e cs => exact ⟨['\n'] ++ join ['\n'] (e :: cs), by simp [join]⟩
  | succ i ih =>
    cases cs with
    | nil => simp at h
    | cons d cs =>
      rw [List.getElem?_cons_succ] at h
      obtain ⟨rest, hrest⟩ := ih h
      cases cs with
      | nil => simp at h
      | cons e cs => exact ⟨rest, by simp [join, ← hrest]⟩

namespace Merge
open Nesting

/-- The merged text in front of the copy that the scope at place `i` has of the rule at place `k`:
what stands before the copies of that rule, and the copies of the scopes before. -/
def beforeCopy (base : CompiledScope) (sheets : List (Scope × CompiledScope)) (k i : Nat) :
    List Char :=
  let gaps := Fragment.outside base.css.toList 0 (Fragment.segment base.css)
  Outline.weave (gaps.take (k + 1)) ((groups sheets k).map (join ['\n']))
    ++ ((copies sheets k).take i).flatMap (· ++ ['\n'])

/-- The interleaved text has the copy behind `beforeCopy`. -/
theorem beforeCopy_append_copy_prefix {base : CompiledScope}
    {sheets : List (Scope × CompiledScope)} {k i : Nat} {copy : List Char}
    (hk : k < (Fragment.segment base.css).length) (hcopy : (copies sheets k)[i]? = some copy) :
    beforeCopy base sheets k i ++ copy <+: interleaved base sheets := by
  have htext : ((groups sheets (Fragment.segment base.css).length).map (join ['\n']))[k]?
      = some (join ['\n'] (copies sheets k)) := by
    simp [groups, List.getElem?_range hk]
  have htake : ((groups sheets (Fragment.segment base.css).length).map (join ['\n'])).take k
      = (groups sheets k).map (join ['\n']) := by
    rw [← List.map_take, groups, ← List.map_take, List.take_range,
      Nat.min_eq_left (Nat.le_of_lt hk), groups]
  have hgaps : k < (Fragment.outside base.css.toList 0 (Fragment.segment base.css)).length := by
    rw [Fragment.outside_segment, Outline.length_gaps, ← Fragment.length_segment]
    omega
  have hweave := Outline.weave_prefix hgaps htext
  rw [htake] at hweave
  refine List.IsPrefix.trans ?_ hweave
  rw [beforeCopy, List.append_assoc, List.prefix_append_right_inj]
  exact join_prefix hcopy

theorem readAll_weave_take {rules : List (List Char × List Char)} (tail : List Char)
    (hrules : ∀ p ∈ rules, Outline.IsRule p.2) {texts : List (List Char)}
    (htexts : ∀ t ∈ texts, ClosesUp t) {k : Nat} (hk : texts.length = k) (hlt : k < rules.length)
    (n : Nesting) :
    readAll n (Outline.weave ((Outline.gaps ⟨rules, tail⟩).take (k + 1)) texts)
      = readAll n (Outline.before rules k) := by
  -- behind a rule and behind its copies the nesting is the same, so the two sides stay in step
  induction k generalizing rules texts n with
  | zero =>
    obtain rfl := List.eq_nil_of_length_eq_zero hk
    cases rules with
    | nil => simp at hlt
    | cons p rules => simp [Outline.gaps, Outline.weave, Outline.before]
  | succ k ih =>
    cases rules with
    | nil => simp at hlt
    | cons p rules =>
      obtain ⟨gap, rule⟩ := p
      obtain ⟨t, texts, rfl⟩ := List.exists_cons_of_length_eq_add_one hk
      rw [List.forall_mem_cons] at hrules htexts
      rw [Outline.gaps_cons, List.take_succ_cons, Outline.weave, Outline.before,
        readAll_append, readAll_append, readAll_append, readAll_append,
        htexts.1.readAll_eq, (closesUp_of_isRule hrules.1).readAll_eq]
      exact ih hrules.2 htexts.2 (by simpa using hk) (by simpa using hlt) _

theorem closesUp_of_mem_copies {sheets : List (Scope × CompiledScope)} {k : Nat}
    (hnames : ∀ p ∈ sheets, Balanced p.1.name.toList) :
    ∀ c ∈ copies sheets k, ClosesUp c := by
  intro c hc
  obtain ⟨s, r, rule, hp, hrule, rfl⟩ := exists_rule_of_mem_copies hc
  exact closesUp_scopeRule (hnames (s, r) hp) _ hrule

/-- Each copy of a rule is enclosed as the rule is in the first stylesheet. -/
theorem preludesAfter_beforeCopy {s : Scope} {base : CompiledScope}
    {sheets : List (Scope × CompiledScope)}
    (hnames : ∀ p ∈ (s, base) :: sheets, Balanced p.1.name.toList) {k : Nat} {f : Fragment}
    (hf : (Fragment.segment base.css)[k]? = some f) (i : Nat) :
    preludesAfter (beforeCopy base ((s, base) :: sheets) k i)
      = preludesAfter (Fragment.before base.css f) := by
  have hk : k < (Fragment.segment base.css).length := (List.getElem?_eq_some_iff.1 hf).1
  -- both the copies of the rules before and the copies of the scopes before leave no trace
  have hclose : ∀ t ∈ (groups ((s, base) :: sheets) k).map (join ['\n']), ClosesUp t := by
    rw [List.forall_mem_map]
    intro cs hcs
    obtain ⟨j, hj, rfl⟩ := List.mem_map.1 hcs
    refine closesUp_join ?_ (closesUp_of_mem_copies hnames)
    refine ne_nil_of_mem_groups _ (List.mem_map_of_mem ?_)
    exact List.mem_range.2 (Nat.lt_trans (List.mem_range.1 hj) hk)
  have hfront : Balanced (((copies ((s, base) :: sheets) k).take i).flatMap (· ++ ['\n'])) :=
    balanced_lines fun c hc =>
      (closesUp_of_mem_copies hnames c (List.mem_of_mem_take hc)).balanced
  rw [preludesAfter, beforeCopy, readAll_append, hfront.preludes_readAll, preludesAfter,
    Fragment.before_of_getElem?_segment hf, Fragment.outside_segment]
  rw [Fragment.length_segment] at hk
  exact congrArg preludes (readAll_weave_take _ (Outline.canonical_ofText base.css.toList).isRule
    hclose (by simp [groups]) hk {})

/-! ## Merging -/

/-- **A copy stands where the first result has the rule.** If the names of the scopes are balanced,
then after a verified merge the copy that any scope has of any rule is enclosed by the preludes that
enclose the rule in the first result. So it is enclosed as in the scope's own result if and only if
that result encloses the rule as the first does. -/
theorem preludes_merge (base : CompiledScope) (others : List CompiledScope)
    (given : Option (List Scope))
    (hlen : (scopesOf (base :: others) given).length = (base :: others).length)
    (hnames : ∀ s ∈ scopesOf (base :: others) given, Balanced s.name.toList)
    {merged : MergeResult} (hmerged : (merge (base :: others) given true).outcome = .ok merged)
    (k i : Nat) (s : Scope) (r : CompiledScope) (f : Fragment)
    (hs : (scopesOf (base :: others) given)[i]? = some s) (hr : (base :: others)[i]? = some r)
    (hf : (Fragment.segment r.css)[k]? = some f) :
    let front := beforeCopy base ((scopesOf (base :: others) given).zip (base :: others)) k i
    ∃ first, (Fragment.segment base.css)[k]? = some first ∧
      front ++ (f.underScope Exemption.defaults s.name).toList <+: merged.css.toList ∧
      preludesAfter front = preludesAfter (Fragment.before base.css first) ∧
      (preludesAfter (Fragment.before r.css f) = preludesAfter front ↔
        preludesAfter (Fragment.before r.css f)
          = preludesAfter (Fragment.before base.css first)) := by
  intro front
  have hk : k < (Fragment.segment base.css).length := by
    rw [← length_segment_of_merge hlen hmerged r (List.mem_of_getElem? hr)]
    exact (List.getElem?_eq_some_iff.1 hf).1
  obtain ⟨first, hfirst⟩ : ∃ first, (Fragment.segment base.css)[k]? = some first :=
    ⟨_, List.getElem?_eq_getElem hk⟩
  obtain ⟨f', hf', hcopy⟩ := (getElem?_copies (lt_length_of_merge hlen hmerged hk)).2 i s r
    (List.getElem?_zip_eq_some.2 ⟨hs, hr⟩)
  obtain rfl : f = f' := Option.some.inj (hf.symm.trans hf')
  have hpreludes : preludesAfter front = preludesAfter (Fragment.before base.css first) := by
    obtain ⟨s₀, scopes, hscopes⟩ : ∃ s₀ scopes, scopesOf (base :: others) given = s₀ :: scopes :=
      List.exists_cons_of_length_eq_add_one hlen
    have hzip : (scopesOf (base :: others) given).zip (base :: others)
        = (s₀, base) :: scopes.zip others := by rw [hscopes, List.zip_cons_cons]
    simp only [front, hzip]
    refine preludesAfter_beforeCopy (fun p hp => hnames p.1 ?_) hfirst i
    rw [← hzip] at hp
    exact (List.of_mem_zip hp).1
  refine ⟨first, hfirst, ?_, hpreludes, by rw [hpreludes]⟩
  rw [(css_of_merge hlen hmerged).2]
  exact beforeCopy_append_copy_prefix hk hcopy

/-- A rule that both scopes have in an at-rule of their own. -/
theorem preludes_merge_of_media :
    let a : CompiledScope := {
      scope := { name := "a" }, css := ".w\x7b\x7d@media a\x7b.x\x7btop:0\x7d\x7d" }
    let b : CompiledScope := {
      scope := { name := "b" }, css := ".w\x7b\x7d@media b\x7b.x\x7btop:1\x7d\x7d" }
    let front := beforeCopy a [(a.scope, a), (b.scope, b)] 1 1
    (scopesOf [a, b] none).length = [a, b].length ∧
      (∀ s ∈ scopesOf [a, b] none, Balanced s.name.toList) ∧
      ∃ merged f, (merge [a, b] none true).outcome = .ok merged ∧
        (scopesOf [a, b] none)[1]? = some b.scope ∧ [a, b][1]? = some b ∧
        (Fragment.segment b.css)[1]? = some f ∧
        preludesAfter front = ["@media a".toList] ∧
        preludesAfter (Fragment.before b.css f) ≠ preludesAfter front := by
  intro a b front
  have hlen : (scopesOf [a, b] none).length = [a, b].length := rfl
  have hnames : ∀ s ∈ scopesOf [a, b] none, Balanced s.name.toList := by decide +kernel
  obtain ⟨merged, hmerged, _⟩ :=
    exists_merged a [b] none true hlen
      fun _ => by decide +kernel
  have hf : (Fragment.segment b.css)[1]? = some ⟨".x\x7btop:1\x7d", 13, 22⟩ := by decide +kernel
  obtain ⟨first, hfirst, _, hfront, hiff⟩ :=
    preludes_merge a [b] none hlen hnames hmerged 1 1 b.scope b _ rfl rfl hf
  obtain rfl : ⟨".x\x7btop:0\x7d", 13, 22⟩ = first :=
    Option.some.inj ((show (Fragment.segment a.css)[1]? = _ by decide +kernel).symm.trans hfirst)
  refine ⟨hlen, hnames, merged, _, hmerged, rfl, rfl, hf, ?_, ?_⟩
  · exact hfront.trans (by decide +kernel)
  · intro h
    exact absurd (hiff.1 h) (by decide +kernel)

/-- Two verified merges that put a rule elsewhere. In the first the scopes have the rule in
different at-rules, and the copy of the second scope stands in the at-rule of the first. In the
second the name of the scope opens a block, which then encloses the copy of the next rule. -/
theorem verified_merge_changes_preludes :
    (let a : CompiledScope := { scope := { name := "a" }, css := "@media a\x7b.x\x7btop:0\x7d\x7d" }
     let b : CompiledScope := { scope := { name := "b" }, css := "@media b\x7b.x\x7btop:0\x7d\x7d" }
     let front := beforeCopy a [(a.scope, a), (b.scope, b)] 0 1
     ∃ merged f, (merge [a, b] none true).outcome = .ok merged ∧
       (Fragment.segment b.css)[0]? = some f ∧
       front ++ (f.underScope Exemption.defaults "b").toList <+: merged.css.toList ∧
       preludesAfter (Fragment.before b.css f) = ["@media b".toList] ∧
       preludesAfter front = ["@media a".toList]) ∧
    (let c : CompiledScope := {
       scope := { name := "c\x7b" }, css := ".x\x7btop:0\x7d.y\x7btop:0\x7d" }
     let front := beforeCopy c [(c.scope, c)] 1 0
     ∃ merged f, (merge [c] none true).outcome = .ok merged ∧
       (Fragment.segment c.css)[1]? = some f ∧
       front ++ (f.underScope Exemption.defaults "c\x7b").toList <+: merged.css.toList ∧
       preludesAfter (Fragment.before c.css f) = [] ∧
       preludesAfter front = [".c".toList]) := by
  constructor
  · intro a b front
    obtain ⟨merged, hmerged, hcss⟩ :=
      exists_merged a [b] none true rfl
        fun _ => by decide +kernel
    refine ⟨merged, ⟨".x\x7btop:0\x7d", 9, 18⟩, hmerged, by decide +kernel, ?_, by decide +kernel,
      by decide +kernel⟩
    rw [hcss]
    decide +kernel
  · intro c front
    obtain ⟨merged, hmerged, hcss⟩ :=
      exists_merged c [] none true rfl (by simp)
    refine ⟨merged, ⟨".y\x7btop:0\x7d", 9, 18⟩, hmerged, by decide +kernel, ?_, by decide +kernel,
      by decide +kernel⟩
    rw [hcss]
    decide +kernel

end Merge

end ThemedSheets
