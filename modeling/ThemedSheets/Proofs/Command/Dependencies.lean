import Mathlib.Data.List.Basic
import ThemedSheets.Command.ScopeArgument
import ThemedSheets.Proofs.Path.Normal
/- Which paths are listed as dependencies, and in which order: the normal forms that are absolute
   (`mem_dependencyPaths`), each once, where it occurs first. So a path that is absolute and normal
   already is listed as it is, whatever stands beside it; a list that was made so is made again without
   a change; and what more paths add stands behind what was listed without them
   (`dependencyPaths_normal_form`). -/
namespace ThemedSheets

/-! ## Each member where it occurs first -/

namespace Text
variable {α : Type} [DecidableEq α] {a : α} {as : List α}

theorem mem_distinct : a ∈ distinct as ↔ a ∈ as := by
  induction as with
  | nil => rfl
  | cons b as ih =>
    rw [distinct, List.mem_cons, List.mem_cons, List.mem_filter, ih]
    by_cases h : a = b <;> simp [h]

theorem nodup_distinct (as : List α) : (distinct as).Nodup := by
  induction as with
  | nil => exact List.nodup_nil
  | cons b as ih =>
    rw [distinct, List.nodup_cons]
    exact ⟨by simp, ih.filter _⟩

theorem distinct_of_nodup (h : as.Nodup) : distinct as = as := by
  induction as with
  | nil => rfl
  | cons b as ih =>
    obtain ⟨hb, has⟩ := List.nodup_cons.1 h
    rw [distinct, ih has]
    refine congrArg (b :: ·) (List.filter_eq_self.2 fun c hc => ?_)
    have hne : c ≠ b := fun heq => hb (heq ▸ hc)
    simpa using hne

theorem filter_distinct (p : α → Bool) (as : List α) :
    (distinct as).filter p = distinct (as.filter p) := by
  induction as with
  | nil => rfl
  | cons b as ih =>
    by_cases hb : p b = true
    · rw [distinct, List.filter_cons_of_pos hb, List.filter_cons_of_pos hb, distinct, ← ih,
        List.filter_comm]
    · -- the members that are dropped as repetitions of the first would not be chosen either
      rw [distinct, List.filter_cons_of_neg hb, List.filter_cons_of_neg hb, ← ih,
        List.filter_filter]
      refine List.filter_congr fun c _ => ?_
      by_cases hc : c = b
      · subst hc
        simp [hb]
      · simp [hc]

theorem distinct_append (as bs : List α) :
    distinct (as ++ bs) = distinct as ++ (distinct bs).filter (· ∉ distinct as) := by
  induction as with
  | nil => simp [distinct, List.filter_true]
  | cons b as ih =>
    rw [List.cons_append, distinct, ih, distinct, List.filter_append, List.cons_append,
      List.filter_filter]
    refine congrArg (fun more => b :: (_ ++ more)) (List.filter_congr fun c _ => ?_)
    by_cases hc : c = b <;> simp [hc]

theorem pairwise_distinct (as : List α) :
    (distinct as).Pairwise fun a b => as.idxOf a < as.idxOf b := by
  induction as with
  | nil => exact List.Pairwise.nil
  | cons b as ih =>
    have hshift : ∀ c ∈ (distinct as).filter (· ≠ b), (b :: as).idxOf c = as.idxOf c + 1 := by
      intro c hc
      have hne : c ≠ b := by simpa using (List.mem_filter.1 hc).2
      exact List.idxOf_cons_ne as hne.symm
    rw [distinct, List.pairwise_cons]
    constructor
    · intro c hc
      rw [List.idxOf_cons_self, hshift c hc]
      exact Nat.succ_pos _
    · refine (ih.filter (· ≠ b)).imp_of_mem fun hc hd hlt => ?_
      rw [hshift _ hc, hshift _ hd]
      exact Nat.succ_lt_succ hlt

end Text

/-! ## Dependencies -/

namespace Command
open ThemedSheets.Path

theorem mem_dependencyPaths {paths : List String} {p : String} :
    p ∈ dependencyPaths paths ↔ isAbsolute p = true ∧ ∃ q ∈ paths, normalize q = p := by
  rw [dependencyPaths, Text.mem_distinct, List.mem_filter, List.mem_map, and_comm]

theorem mem_dependencyPaths_of_normal {paths : List String} {p : String} (hp : p ∈ paths)
    (habsolute : isAbsolute p = true) (hnormal : normalize p = p) : p ∈ dependencyPaths paths :=
  mem_dependencyPaths.2 ⟨habsolute, p, hp, hnormal⟩

theorem normalize_of_mem_dependencyPaths {paths : List String} :
    ∀ p ∈ dependencyPaths paths, normalize p = p := by
  intro p hp
  obtain ⟨-, q, -, rfl⟩ := mem_dependencyPaths.1 hp
  exact normalize_normalize q

theorem dependencyPaths_dependencyPaths (paths : List String) :
    dependencyPaths (dependencyPaths paths) = dependencyPaths paths := by
  have hmap : (dependencyPaths paths).map normalize = dependencyPaths paths :=
    (List.map_congr_left normalize_of_mem_dependencyPaths).trans (List.map_id _)
  have hfilter : (dependencyPaths paths).filter isAbsolute = dependencyPaths paths :=
    List.filter_eq_self.2 fun p hp => (mem_dependencyPaths.1 hp).1
  calc dependencyPaths (dependencyPaths paths)
      = Text.distinct (((dependencyPaths paths).map normalize).filter isAbsolute) := rfl
    _ = Text.distinct (dependencyPaths paths) := by rw [hmap, hfilter]
    _ = dependencyPaths paths := Text.distinct_of_nodup (Text.nodup_distinct _)

/-- The order is that of the first paths with these normal forms. -/
theorem pairwise_dependencyPaths (paths : List String) :
    (dependencyPaths paths).Pairwise fun p q =>
      (paths.map normalize).idxOf p < (paths.map normalize).idxOf q := by
  rw [dependencyPaths, ← Text.filter_distinct]
  exact (Text.pairwise_distinct _).filter isAbsolute

/-- **The listed dependencies are a normal form of the paths.** No path is listed twice; listed are the
normal forms that are absolute, in the order in which they occur first. Each is its own normal form,
so a list of dependencies is listed as it is, and what more paths add to a list is what was not in it,
in the order of those paths and behind it. -/
theorem dependencyPaths_normal_form (xs ys : List String) :
    (dependencyPaths xs).Nodup ∧
    (∀ p, p ∈ dependencyPaths xs ↔ isAbsolute p = true ∧ ∃ q ∈ xs, normalize q = p) ∧
    ((dependencyPaths xs).Pairwise fun p q =>
      (xs.map normalize).idxOf p < (xs.map normalize).idxOf q) ∧
    (∀ p ∈ dependencyPaths xs, normalize p = p) ∧
    dependencyPaths (dependencyPaths xs) = dependencyPaths xs ∧
    dependencyPaths (xs ++ ys)
      = dependencyPaths xs ++ (dependencyPaths ys).filter (· ∉ dependencyPaths xs) := by
  refine ⟨Text.nodup_distinct _, fun p => mem_dependencyPaths, pairwise_dependencyPaths xs,
    normalize_of_mem_dependencyPaths, dependencyPaths_dependencyPaths xs, ?_⟩
  simp only [dependencyPaths, List.map_append, List.filter_append]
  exact Text.distinct_append _ _

example : dependencyPaths ["/b/../a", "c", "/a/", "//x/..", "/b", ""] = ["/a", "//", "/b"] := by
  decide +kernel

end Command
end ThemedSheets
