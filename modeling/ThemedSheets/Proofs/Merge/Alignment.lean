import ThemedSheets.Proofs.Merge.Outcome
/- The check that all scopes compiled to the same rules. It compares every scope's list of selectors
   with the first scope's, scope by scope, and stops at the first difference.

   What is proved:
     1. `parting?_eq_none_iff` and `longestCommonPrefix_of_parting?`: two lists part if and only if
        they differ, and the place told is the length of their longest common prefix, also where
        one list is a prefix of the other.
     2. `mismatch?_eq_none_iff` and `mismatch?_eq_some`: the scope told is the first that differs.
     3. `lt_length_of_merge` and `getElem?_copies`: where no scope differs, every scope has a copy
        of every rule.
     4. `merge_mismatch`: the same about a verified merge as a whole. -/
namespace ThemedSheets
open ThemedSheets.Text

/-- A list is the longest one with which both lists begin. -/
structure LongestCommonPrefix {α : Type} (common xs ys : List α) : Prop where
  left : common <+: xs
  right : common <+: ys
  longest : ∀ l, l <+: xs → l <+: ys → l.length ≤ common.length

theorem LongestCommonPrefix.of_head_ne {α : Type} {common xs ys : List α}
    (h : xs.head? ≠ ys.head?) : LongestCommonPrefix common (common ++ xs) (common ++ ys) := by
  refine ⟨List.prefix_append common xs, List.prefix_append common ys, ?_⟩
  intro l hx hy
  refine Nat.le_of_not_lt fun hlen => ?_
  -- a longer common prefix would continue both lists with the same member
  have hc : common <+: l :=
    List.prefix_of_prefix_length_le (List.prefix_append common xs) hx (by omega)
  obtain ⟨more, rfl⟩ := hc
  cases more with
  | nil => simp at hlen
  | cons d more =>
    rw [List.prefix_append_right_inj] at hx hy
    obtain ⟨xs', rfl⟩ := hx
    obtain ⟨ys', rfl⟩ := hy
    simp at h

namespace Merge

/-! ## Two lists of selectors -/

theorem partingFrom_self (position : Nat) (total : Nat × Nat) (es : List (List Char)) :
    partingFrom position total es es = none := by
  induction es generalizing position with
  | nil => rfl
  | cons e es ih => rw [partingFrom, if_pos rfl, ih]

/-- Lists that part agree up to the place told, and go on differently from there. -/
theorem partingFrom_eq_some {position : Nat} {total : Nat × Nat} {es as : List (List Char)}
    {p : Nat} {how : Parting} (h : partingFrom position total es as = some (p, how)) :
    ∃ common es' as', es = common ++ es' ∧ as = common ++ as' ∧ es'.head? ≠ as'.head? ∧
      p = position + common.length := by
  induction es generalizing position as with
  | nil =>
    cases as with
    | nil => simp [partingFrom] at h
    | cons a as =>
      simp only [partingFrom, Option.some.injEq, Prod.mk.injEq] at h
      exact ⟨[], [], a :: as, rfl, rfl, by simp, by simp [h.1]⟩
  | cons e es ih =>
    cases as with
    | nil =>
      simp only [partingFrom, Option.some.injEq, Prod.mk.injEq] at h
      exact ⟨[], e :: es, [], rfl, rfl, by simp, by simp [h.1]⟩
    | cons a as =>
      by_cases heq : e = a
      · rw [partingFrom, if_pos heq] at h
        obtain ⟨common, es', as', rfl, rfl, hne, rfl⟩ := ih h
        exact ⟨e :: common, es', as', rfl, by rw [heq]; rfl, hne, by simp; omega⟩
      · rw [partingFrom, if_neg heq] at h
        simp only [Option.some.injEq, Prod.mk.injEq] at h
        exact ⟨[], e :: es, a :: as, rfl, rfl, by simp [heq], by simp [h.1]⟩

/-- The place at which lists part is the length of their longest common prefix. -/
theorem longestCommonPrefix_of_parting? {expected actual : List (List Char)} {p : Nat}
    {how : Parting} (h : parting? expected actual = some (p, how)) :
    expected ≠ actual ∧ ∃ common, LongestCommonPrefix common expected actual ∧
      p = common.length := by
  obtain ⟨common, es', as', rfl, rfl, hne, rfl⟩ := partingFrom_eq_some h
  refine ⟨?_, common, LongestCommonPrefix.of_head_ne hne, by simp⟩
  intro heq
  exact hne (congrArg List.head? (List.append_cancel_left heq))

theorem eq_of_partingFrom_eq_none {position : Nat} {total : Nat × Nat}
    {es as : List (List Char)} (h : partingFrom position total es as = none) : es = as := by
  induction es generalizing position as with
  | nil =>
    cases as with
    | nil => rfl
    | cons a as => simp [partingFrom] at h
  | cons e es ih =>
    cases as with
    | nil => simp [partingFrom] at h
    | cons a as =>
      by_cases heq : e = a
      · rw [partingFrom, if_pos heq] at h
        rw [heq, ih h]
      · rw [partingFrom, if_neg heq] at h
        simp at h

theorem parting?_eq_none_iff {expected actual : List (List Char)} :
    parting? expected actual = none ↔ actual = expected := by
  constructor
  · intro h
    exact (eq_of_partingFrom_eq_none h).symm
  · rintro rfl
    exact partingFrom_self 0 _ _

/-! ## All scopes -/

theorem mismatch?_eq_none_iff {expected : List (List Char)}
    {scopes : List (String × List (List Char))} :
    mismatch? expected scopes = none ↔ ∀ p ∈ scopes, p.2 = expected := by
  induction scopes with
  | nil => simp [mismatch?]
  | cons p scopes ih =>
    obtain ⟨name, actual⟩ := p
    cases hp : parting? expected actual with
    | none =>
      rw [mismatch?, hp, List.forall_mem_cons]
      exact ⟨fun h => ⟨parting?_eq_none_iff.1 hp, ih.1 h⟩, fun h => ih.2 h.2⟩
    | some q =>
      have hne := (longestCommonPrefix_of_parting? hp).1
      simp [mismatch?, hp, Ne.symm hne]

theorem mismatch?_eq_some {expected : List (List Char)}
    {scopes : List (String × List (List Char))} {m : Mismatch}
    (h : mismatch? expected scopes = some m) :
    ∃ before name actual after, scopes = before ++ (name, actual) :: after ∧
      (∀ p ∈ before, p.2 = expected) ∧ actual ≠ expected ∧ m.scope = name ∧
      ∃ common, LongestCommonPrefix common expected actual ∧ m.position = common.length := by
  induction scopes with
  | nil => simp [mismatch?] at h
  | cons p scopes ih =>
    obtain ⟨name, actual⟩ := p
    cases hp : parting? expected actual with
    | none =>
      rw [mismatch?, hp] at h
      obtain ⟨before, name', actual', after, rfl, hbefore, hrest⟩ := ih h
      refine ⟨(name, actual) :: before, name', actual', after, rfl, ?_, hrest⟩
      rw [List.forall_mem_cons]
      exact ⟨parting?_eq_none_iff.1 hp, hbefore⟩
    | some q =>
      obtain ⟨position, how⟩ := q
      obtain ⟨hne, common, hlcp, rfl⟩ := longestCommonPrefix_of_parting? hp
      rw [mismatch?, hp] at h
      obtain rfl := Option.some.inj h
      exact ⟨[], name, actual, scopes, rfl, by simp, hne.symm, rfl, common, hlcp, rfl⟩

/-! ## Aligned stylesheets -/

section Sheets
variable {base : CompiledScope} {others : List CompiledScope} {scopes : List Scope}

/-- Who is compared: all results but the first, each under the name of its scope. -/
theorem getElem?_rivals (sheets : List (Scope × CompiledScope)) (i : Nat) :
    (rivals sheets)[i]? = (sheets[i + 1]?).map fun (s, r) => (s.name, selectors r.css) := by
  rw [rivals, List.getElem?_tail, List.getElem?_map]

theorem forall_mem_rivals_iff (hlen : scopes.length = (base :: others).length)
    {P : List (List Char) → Prop} :
    (∀ p ∈ rivals (scopes.zip (base :: others)), P p.2) ↔ ∀ r ∈ others, P (selectors r.css) := by
  cases scopes with
  | nil => simp at hlen
  | cons s scopes =>
    have hmap : (scopes.zip others).map (·.2) = others :=
      List.map_snd_zip (by simpa using Nat.le_of_eq hlen.symm)
    rw [← hmap, List.forall_mem_map, rivals, List.zip_cons_cons, List.map_cons, List.tail_cons,
      List.forall_mem_map, hmap]

theorem length_segment_of_selectors_eq {r r' : CompiledScope}
    (h : selectors r.css = selectors r'.css) :
    (Fragment.segment r.css).length = (Fragment.segment r'.css).length := by
  have := congrArg List.length h
  simpa [selectors] using this

theorem getElem?_copies {sheets : List (Scope × CompiledScope)} {k : Nat}
    (h : ∀ p ∈ sheets, k < (Fragment.segment p.2.css).length) :
    (copies sheets k).length = sheets.length ∧
      ∀ (i : Nat) (s : Scope) (r : CompiledScope), sheets[i]? = some (s, r) →
        ∃ f, (Fragment.segment r.css)[k]? = some f ∧
          (copies sheets k)[i]? = some (f.underScope Exemption.defaults s.name).toList := by
  induction sheets with
  | nil => exact ⟨rfl, by simp⟩
  | cons p sheets ih =>
    obtain ⟨s, r⟩ := p
    rw [List.forall_mem_cons] at h
    obtain ⟨hlen, hget⟩ := ih h.2
    obtain ⟨f, hf⟩ : ∃ f, (Fragment.segment r.css)[k]? = some f :=
      ⟨_, List.getElem?_eq_getElem h.1⟩
    have hcons : copies ((s, r) :: sheets) k
        = (f.underScope Exemption.defaults s.name).toList :: copies sheets k := by
      simp [copies, hf]
    refine ⟨by rw [hcons, List.length_cons, hlen, List.length_cons], ?_⟩
    intro i s' r' hi
    cases i with
    | zero =>
      obtain ⟨rfl, rfl⟩ : s = s' ∧ r = r' := by simpa using hi
      exact ⟨f, hf, by rw [hcons, List.getElem?_cons_zero]⟩
    | succ i =>
      rw [List.getElem?_cons_succ] at hi
      rw [hcons, List.getElem?_cons_succ]
      exact hget i s' r' hi

/-- Nothing is told if and only if all other selector lists are the first one. -/
theorem mismatch?_rivals_eq_none_iff (hlen : scopes.length = (base :: others).length) :
    mismatch? (selectors base.css) (rivals (scopes.zip (base :: others))) = none ↔
      ∀ r ∈ others, selectors r.css = selectors base.css := by
  rw [mismatch?_eq_none_iff]
  exact forall_mem_rivals_iff hlen (P := (· = selectors base.css))

theorem mismatch?_rivals_eq_some (hlen : scopes.length = (base :: others).length) {m : Mismatch}
    (h : mismatch? (selectors base.css) (rivals (scopes.zip (base :: others))) = some m) :
    ∃ i s r common, 0 < i ∧ scopes[i]? = some s ∧ (base :: others)[i]? = some r ∧
      selectors r.css ≠ selectors base.css ∧
      (∀ j < i, ∀ r', (base :: others)[j]? = some r' → selectors r'.css = selectors base.css) ∧
      m.scope = s.name ∧
      LongestCommonPrefix common (selectors base.css) (selectors r.css) ∧
      m.position = common.length := by
  obtain ⟨front, name, actual, back, heq, hfront, hne, hname, common, hlcp, hpos⟩ :=
    mismatch?_eq_some h
  have hget : (rivals (scopes.zip (base :: others)))[front.length]? = some (name, actual) := by
    rw [heq]; simp
  rw [getElem?_rivals, Option.map_eq_some_iff] at hget
  obtain ⟨⟨s, r⟩, hsr, hp⟩ := hget
  obtain ⟨hs, hr⟩ := List.getElem?_zip_eq_some.1 hsr
  simp only [Prod.mk.injEq] at hp
  obtain ⟨rfl, rfl⟩ := hp
  refine ⟨front.length + 1, s, r, common, by omega, hs, hr, hne, ?_, hname, hlcp, hpos⟩
  intro j hj r' hr'
  cases j with
  | zero =>
    obtain rfl : base = r' := by simpa using hr'
    rfl
  | succ j =>
    -- a result before the one told stands among those that were compared and found equal
    obtain ⟨s', hs'⟩ : ∃ s', scopes[j + 1]? = some s' := by
      have hlt := (List.getElem?_eq_some_iff.1 hr').1
      exact ⟨_, List.getElem?_eq_getElem (hlen ▸ hlt)⟩
    have hj' : (rivals (scopes.zip (base :: others)))[j]? = some (s'.name, selectors r'.css) := by
      have hzip : (scopes.zip (base :: others))[j + 1]? = some (s', r') :=
        List.getElem?_zip_eq_some.2 ⟨hs', hr'⟩
      rw [getElem?_rivals, hzip, Option.map_some]
    rw [heq, List.getElem?_append_left (by omega)] at hj'
    exact hfront _ (List.mem_of_getElem? hj')

end Sheets

/-! ## Merging -/

section Merging
variable {base : CompiledScope} {others : List CompiledScope} {given : Option (List Scope)}
  {verify : Bool}

/-- A merge that returns has the interleaved copies; if it was verified, all selectors agree. -/
theorem css_of_merge (hlen : (scopesOf (base :: others) given).length = (base :: others).length)
    {merged : MergeResult} (h : (merge (base :: others) given verify).outcome = .ok merged) :
    (verify = true → ∀ r ∈ others, selectors r.css = selectors base.css) ∧
      merged.css.toList
        = interleaved base ((scopesOf (base :: others) given).zip (base :: others)) := by
  rw [outcome_merge base others given verify hlen] at h
  dsimp only at h
  split at h
  · simp at h
  · rename_i hnone
    simp only [Except.ok.injEq] at h
    refine ⟨?_, by rw [← h, String.toList_ofList]⟩
    rintro rfl
    exact (mismatch?_rivals_eq_none_iff hlen).1 hnone

theorem exists_merged (base : CompiledScope) (others : List CompiledScope)
    (given : Option (List Scope)) (verify : Bool)
    (hlen : (scopesOf (base :: others) given).length = (base :: others).length)
    (h : verify = true → ∀ r ∈ others, selectors r.css = selectors base.css) :
    ∃ merged, (merge (base :: others) given verify).outcome = .ok merged ∧
      merged.css.toList
        = interleaved base ((scopesOf (base :: others) given).zip (base :: others)) := by
  have hrun := outcome_merge base others given verify hlen
  dsimp only at hrun
  have hnone : (if verify = true then mismatch? (selectors base.css)
      (rivals ((scopesOf (base :: others) given).zip (base :: others))) else none) = none := by
    cases verify with
    | false => rfl
    | true => exact (mismatch?_rivals_eq_none_iff hlen).2 (h rfl)
  rw [hnone] at hrun
  exact ⟨_, hrun, (css_of_merge hlen hrun).2⟩

theorem length_segment_of_merge
    (hlen : (scopesOf (base :: others) given).length = (base :: others).length)
    {merged : MergeResult} (h : (merge (base :: others) given true).outcome = .ok merged) :
    ∀ r ∈ base :: others,
      (Fragment.segment r.css).length = (Fragment.segment base.css).length := by
  rw [List.forall_mem_cons]
  exact ⟨rfl, fun r hr => length_segment_of_selectors_eq ((css_of_merge hlen h).1 rfl r hr)⟩

theorem lt_length_of_merge
    (hlen : (scopesOf (base :: others) given).length = (base :: others).length)
    {merged : MergeResult} (h : (merge (base :: others) given true).outcome = .ok merged) {k : Nat}
    (hk : k < (Fragment.segment base.css).length) :
    ∀ p ∈ (scopesOf (base :: others) given).zip (base :: others),
      k < (Fragment.segment p.2.css).length := by
  intro p hp
  rw [length_segment_of_merge hlen h p.2 (List.of_mem_zip hp).2]
  exact hk

/-- **The check is exact.** A verified merge ends in a mismatch if and only if some result has other
selectors than the first. The mismatch names the first such scope and, as the place, the length of
the longest common prefix of the two lists of selectors. Otherwise the merge returns, all results
have equally many rules, and at every place each scope has its copy. -/
theorem merge_mismatch (base : CompiledScope) (others : List CompiledScope)
    (given : Option (List Scope))
    (hlen : (scopesOf (base :: others) given).length = (base :: others).length) :
    let results := base :: others
    let scopes := scopesOf results given
    let run := merge results given true
    ((∃ m, run.outcome = .error (.mismatch m)) ↔
      ∃ i r, 0 < i ∧ results[i]? = some r ∧ selectors r.css ≠ selectors base.css) ∧
    (∀ m, run.outcome = .error (.mismatch m) →
      ∃ i s r common, 0 < i ∧ scopes[i]? = some s ∧ results[i]? = some r ∧
        selectors r.css ≠ selectors base.css ∧
        (∀ j < i, ∀ r', results[j]? = some r' → selectors r'.css = selectors base.css) ∧
        m.scope = s.name ∧
        LongestCommonPrefix common (selectors base.css) (selectors r.css) ∧
        m.position = common.length) ∧
    ((¬ ∃ m, run.outcome = .error (.mismatch m)) →
      ∃ merged, run.outcome = .ok merged ∧
        (∀ r ∈ results, (Fragment.segment r.css).length = (Fragment.segment base.css).length) ∧
        merged.css.toList = interleaved base (scopes.zip results) ∧
        ∀ k < (Fragment.segment base.css).length,
          (copies (scopes.zip results) k).length = results.length ∧
          ∀ (i : Nat) (s : Scope) (r : CompiledScope), scopes[i]? = some s →
            results[i]? = some r → ∃ f, (Fragment.segment r.css)[k]? = some f ∧
              (copies (scopes.zip results) k)[i]?
                = some (f.underScope Exemption.defaults s.name).toList) := by
  intro results scopes run
  have hrun : run.outcome = _ := outcome_merge base others given true hlen
  simp only [if_true] at hrun
  cases hm : mismatch? (selectors base.css) (rivals (scopes.zip results)) with
  | some m =>
    simp only [results, scopes] at hm
    rw [hm] at hrun
    have hfirst := mismatch?_rivals_eq_some hlen hm
    refine ⟨⟨fun _ => ?_, fun _ => ⟨m, hrun⟩⟩, ?_, fun hno => absurd ⟨m, hrun⟩ hno⟩
    · obtain ⟨i, _, r, _, hi, _, hr, hne, _⟩ := hfirst
      exact ⟨i, r, hi, hr, hne⟩
    · intro m' hm'
      rw [hrun] at hm'
      obtain rfl : m = m' := by simpa using hm'
      exact hfirst
  | none =>
    have heq := (mismatch?_rivals_eq_none_iff hlen).1 hm
    obtain ⟨merged, hmerged, hcss⟩ := exists_merged base others given true hlen fun _ => heq
    have hno : ∀ m, run.outcome ≠ .error (.mismatch m) := by
      intro m h
      rw [show run.outcome = .ok merged from hmerged] at h
      simp at h
    refine ⟨⟨fun ⟨m, h⟩ => absurd h (hno m), ?_⟩, fun m h => absurd h (hno m), fun _ => ?_⟩
    -- a result at a place above 0 is one of the others, and these were found equal
    · rintro ⟨i, r, hi, hr, hne⟩
      obtain ⟨j, rfl⟩ : ∃ j, i = j + 1 := ⟨i - 1, by omega⟩
      exact absurd (heq r (List.mem_of_getElem? hr)) hne
    · refine ⟨merged, hmerged, length_segment_of_merge hlen hmerged, hcss, ?_⟩
      intro k hk
      obtain ⟨hlength, hget⟩ := getElem?_copies (lt_length_of_merge hlen hmerged hk)
      refine ⟨by rw [hlength, List.length_zip, hlen, Nat.min_self], ?_⟩
      intro i s r hs hr
      exact hget i s r (List.getElem?_zip_eq_some.2 ⟨hs, hr⟩)

/-- The second scope agrees, and the third lacks the second rule. -/
theorem merge_mismatch_of_missing_rule :
    let a : CompiledScope := { scope := { name := "a" }, css := ".x\x7btop:0\x7d .y \x7btop:0\x7d" }
    let b : CompiledScope := { scope := { name := "b" }, css := " .x \x7btop:1\x7d.y\x7btop:1\x7d" }
    let c : CompiledScope := { scope := { name := "c" }, css := ".x\x7btop:2\x7d" }
    (scopesOf [a, b, c] none).length = [a, b, c].length ∧
      ∃ m, (merge [a, b, c] none true).outcome = .error (.mismatch m) ∧
        m.scope = "c" ∧ m.position = 1 := by
  intro a b c
  have hlen : (scopesOf [a, b, c] none).length = [a, b, c].length := rfl
  obtain ⟨hiff, hfirst, _⟩ := merge_mismatch a [b, c] none hlen
  have hb : selectors b.css = selectors a.css := by decide +kernel
  have hc : selectors c.css ≠ selectors a.css := by decide +kernel
  obtain ⟨m, hm⟩ := hiff.2 ⟨2, c, by decide, rfl, hc⟩
  obtain ⟨i, s, r, common, hi, hs, hr, hne, _, hname, hlcp, hposition⟩ := hfirst m hm
  refine ⟨hlen, m, hm, ?_⟩
  -- the first scope that differs is neither the first nor the second
  match i, hi, hs, hr with
  | 1, _, _, hr =>
    obtain rfl : b = r := Option.some.inj hr
    exact absurd hb hne
  | 2, _, hs, hr =>
    obtain rfl : c.scope = s := Option.some.inj hs
    obtain rfl : c = r := Option.some.inj hr
    have hle : common.length ≤ 1 := by
      have h1 : (selectors c.css).length = 1 := by decide +kernel
      have := hlcp.right.length_le
      omega
    have hge : 1 ≤ common.length :=
      hlcp.longest [".x".toList] (by decide +kernel) (by decide +kernel)
    exact ⟨hname, by omega⟩
  | i + 3, _, hs, _ => simp [scopesOf] at hs

end Merging

end Merge

end ThemedSheets
