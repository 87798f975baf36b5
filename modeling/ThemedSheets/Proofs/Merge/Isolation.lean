import ThemedSheets.Proofs.Merge.Alignment
/- Two verified merges for the same scopes whose results differ in one place only. Each is made of
   the gaps of its first result and of groups of copies (`layout_of_merge`), and a scope's copy in a
   group is made of the scope's own result (`copy?_places`). So the two merges have as many groups,
   the same copies of all other scopes, and if the results differ behind the first, the same gaps
   (`isolated_of_merge`). -/
namespace ThemedSheets
namespace Merge

/-- The texts outside the groups: the gaps of the first stylesheet. -/
def gaps : List CompiledScope → List (List Char)
  | [] => []
  | base :: _ => Fragment.outside base.css.toList 0 (Fragment.segment base.css)

/-- The groups of copies: for every rule of the first stylesheet the copies of all scopes. -/
def places (scopes : List Scope) : List CompiledScope → List (List (List Char))
  | [] => []
  | base :: others => groups (scopes.zip (base :: others)) (Fragment.segment base.css).length

/-- The copy at a place of the group at a place. -/
def copy? (groups : List (List (List Char))) (k i : Nat) : Option (List Char) :=
  groups[k]?.bind fun group => group[i]?

/-- The rule of a stylesheet at a place, under the class of its scope. -/
def ownCopy? (k : Nat) (sheet : Scope × CompiledScope) : Option (List Char) :=
  (Fragment.segment sheet.2.css)[k]?.map fun f =>
    (f.underScope Exemption.defaults sheet.1.name).toList

theorem getElem?_copies_eq {sheets : List (Scope × CompiledScope)} {k : Nat}
    (h : ∀ p ∈ sheets, k < (Fragment.segment p.2.css).length) (i : Nat) :
    (copies sheets k)[i]? = sheets[i]?.bind (ownCopy? k) := by
  obtain ⟨hlen, hget⟩ := getElem?_copies h
  cases hsheet : sheets[i]? with
  | none =>
    have hout := List.getElem?_eq_none_iff.1 hsheet
    exact List.getElem?_eq_none_iff.2 (hlen ▸ hout)
  | some p =>
    obtain ⟨f, hf, hcopy⟩ := hget i p.1 p.2 hsheet
    rw [hcopy, Option.bind_some, ownCopy?, hf, Option.map_some]

/-! ## One merge -/

section
variable {scopes : List Scope} {base : CompiledScope} {others : List CompiledScope}
  {merged : MergeResult} (hlen : scopes.length = (base :: others).length)
  (h : (merge (base :: others) (some scopes) true).outcome = .ok merged)
include hlen h

/-- A verified merge is made of gaps and of groups in which every scope has its copy. -/
theorem layout_of_merge :
    merged.css.toList
        = Outline.weave (gaps (base :: others))
            ((places scopes (base :: others)).map (Text.join ['\n'])) ∧
      ∀ group ∈ places scopes (base :: others), group.length = scopes.length := by
  refine ⟨(@css_of_merge base others (some scopes) true hlen merged h).2, fun group hgroup => ?_⟩
  obtain ⟨k, hk, rfl⟩ := List.mem_map.1 hgroup
  have hall := @lt_length_of_merge base others (some scopes) hlen merged h k (List.mem_range.1 hk)
  refine (getElem?_copies hall).1.trans ?_
  rw [List.length_zip, scopesOf, Option.getD_some, ← hlen, Nat.min_self]

theorem rest_of_merge :
    merged.sourceMap = base.sourceMap ∧
      merged.dependencyPaths = scopes.flatMap (·.paths) ++ base.dependencyPaths := by
  rw [outcome_merge base others (some scopes) true hlen] at h
  dsimp only at h
  split at h
  · simp at h
  · simp only [scopesOf, Option.getD_some, Except.ok.injEq] at h
    rw [← h]
    exact ⟨rfl, rfl⟩

/-- In a group of a verified merge a scope's copy is made of the scope's own result. -/
theorem copy?_places (k i : Nat) :
    copy? (places scopes (base :: others)) k i =
      if k < (Fragment.segment base.css).length then
        (scopes.zip (base :: others))[i]?.bind (ownCopy? k)
      else none := by
  split
  · next hk =>
    have hall := @lt_length_of_merge base others (some scopes) hlen merged h k hk
    have hgroup : (places scopes (base :: others))[k]?
        = some (copies (scopes.zip (base :: others)) k) := by
      simp [places, groups, hk]
    rw [copy?, hgroup, Option.bind_some]
    exact getElem?_copies_eq hall i
  · next hk => simp [copy?, places, groups, hk]

end

/-! ## Two merges -/

/-- Two verified merges whose results agree but in one place, of at least two. -/
theorem isolated_of_merge {scopes : List Scope} {base base' : CompiledScope}
    {others others' : List CompiledScope} {merged merged' : MergeResult} {j : Nat}
    (hlen : scopes.length = (base :: others).length)
    (hlen' : scopes.length = (base' :: others').length)
    (h : (merge (base :: others) (some scopes) true).outcome = .ok merged)
    (h' : (merge (base' :: others') (some scopes) true).outcome = .ok merged')
    (htwo : 2 ≤ scopes.length)
    (hsame : ∀ i, i ≠ j → (base :: others)[i]? = (base' :: others')[i]?) :
    (places scopes (base :: others)).length = (places scopes (base' :: others')).length ∧
      (∀ k i, i ≠ j → copy? (places scopes (base :: others)) k i
        = copy? (places scopes (base' :: others')) k i) ∧
      (j ≠ 0 → gaps (base :: others) = gaps (base' :: others') ∧
        merged.sourceMap = merged'.sourceMap ∧
        merged.dependencyPaths = merged'.dependencyPaths) := by
  have hrules : (Fragment.segment base.css).length = (Fragment.segment base'.css).length := by
    -- a result that both merges have was found aligned with the first in both of them
    obtain ⟨i, hi, hij⟩ : ∃ i, i < scopes.length ∧ i ≠ j := by
      by_cases hj : j = 0
      · exact ⟨1, htwo, by omega⟩
      · exact ⟨0, by omega, Ne.symm hj⟩
    obtain ⟨r, hr⟩ : ∃ r, (base :: others)[i]? = some r :=
      ⟨_, List.getElem?_eq_getElem (hlen ▸ hi)⟩
    have hr' : (base' :: others')[i]? = some r := (hsame i hij).symm.trans hr
    have hrule := @length_segment_of_merge base others (some scopes) hlen merged h r
      (List.mem_of_getElem? hr)
    have hrule' := @length_segment_of_merge base' others' (some scopes) hlen' merged' h' r
      (List.mem_of_getElem? hr')
    exact hrule.symm.trans hrule'
  refine ⟨?_, ?_, ?_⟩
  · simp only [places, length_groups, hrules]
  · intro k i hij
    have hsheet : (scopes.zip (base :: others))[i]? = (scopes.zip (base' :: others'))[i]? := by
      simp only [List.zip, List.getElem?_zipWith, hsame i hij]
    rw [copy?_places hlen h, copy?_places hlen' h', hrules, hsheet]
  · intro hj
    -- all the rest comes from the first result, which is the same
    obtain rfl : base = base' := by simpa using hsame 0 (Ne.symm hj)
    obtain ⟨hmap, hpaths⟩ := rest_of_merge hlen h
    obtain ⟨hmap', hpaths'⟩ := rest_of_merge hlen' h'
    exact ⟨rfl, hmap.trans hmap'.symm, hpaths.trans hpaths'.symm⟩

end Merge
end ThemedSheets
