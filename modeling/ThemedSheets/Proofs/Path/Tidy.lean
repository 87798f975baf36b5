import ThemedSheets.Host
import ThemedSheets.Proofs.Path.Normal
/- Tidy paths: at most two slashes in front, and no component that reading would drop. Every path
   that is read is tidy, and what the operations on paths make of tidy ones is tidy again. A tidy path
   is what its text is read as (`ofString_toString`), so nothing is lost where a path is written and
   read again, and its text is absolute exactly where the path begins at the root. -/
namespace ThemedSheets
open ThemedSheets.Text

namespace Path

/-- A path that reading could have given. -/
structure IsTidy (p : Path) : Prop where
  slashes_le : p.slashes ≤ 2
  isComponent : ∀ part ∈ p.parts, IsComponent part.toList

theorem isTidy_ofString (text : String) : (ofString text).IsTidy where
  slashes_le := rootSlashes_le _
  isComponent := by
    intro part hpart
    obtain ⟨comp, hcomp, rfl⟩ := List.mem_map.1 hpart
    obtain ⟨hmem, hkept⟩ := List.mem_filter.1 hcomp
    rw [String.toList_ofList]
    simp only [ne_eq, decide_not, Bool.and_eq_true, Bool.not_eq_eq_eq_not, Bool.not_true,
      decide_eq_false_iff_not] at hkept
    exact ⟨hkept.1, hkept.2, not_mem_of_mem_split hmem⟩

namespace IsTidy
variable {p q : Path}

theorem below (hp : p.IsTidy) (hq : ∀ part ∈ q.parts, IsComponent part.toList) :
    (⟨p.slashes, p.parts ++ q.parts⟩ : Path).IsTidy :=
  ⟨hp.slashes_le, List.forall_mem_append.2 ⟨hp.isComponent, hq⟩⟩

theorem append (hp : p.IsTidy) (hq : q.IsTidy) : (p.append q).IsTidy := by
  unfold Path.append
  split
  · exact hq
  · exact hp.below hq.isComponent

theorem parent (hp : p.IsTidy) : p.parent.IsTidy :=
  ⟨hp.slashes_le, fun part h => hp.isComponent part ((List.dropLast_prefix _).subset h)⟩

end IsTidy

theorem mem_of_mem_climb {part : String} {parts : List String} (h : part ∈ climb parts) :
    part ∈ parts := by
  suffices hfold : ∀ done : List String,
      part ∈ parts.foldl (fun done part => if part = ".." then done.tail else part :: done) done →
        part ∈ done ∨ part ∈ parts by
    simpa using hfold [] (List.mem_reverse.1 h)
  intro done hmem
  clear h
  induction parts generalizing done with
  | nil => exact Or.inl hmem
  | cons first parts ih =>
    rw [List.foldl_cons] at hmem
    rcases ih _ hmem with hdone | hrest
    · split at hdone
      · exact Or.inl (List.mem_of_mem_tail hdone)
      · exact (List.mem_cons.1 hdone).symm.imp_right fun hfirst => by simp [hfirst]
    · exact Or.inr (List.mem_cons_of_mem _ hrest)

theorem isTidy_resolve {directory p : Path} (hdirectory : directory.IsTidy) (hp : p.IsTidy) :
    (resolve directory p).IsTidy where
  slashes_le := Nat.le_succ 1
  isComponent part hpart := by
    have hmem := mem_of_mem_climb hpart
    split at hmem
    · exact hp.isComponent part hmem
    · exact List.forall_mem_append.2 ⟨hdirectory.isComponent, hp.isComponent⟩ part hmem

/-! ## The text of a tidy path -/

section
variable {p : Path} (h : p.IsTidy)
include h

theorem IsTidy.comps : ∀ comp ∈ p.parts.map String.toList, IsComponent comp :=
  List.forall_mem_map.2 h.isComponent

theorem rootSlashes_toString : rootSlashes p.toString.toList = p.slashes := by
  rw [toString, String.toList_ofList]
  by_cases hne : p.slashes ≠ 0 ∨ p.parts.map String.toList ≠ []
  · rw [assemble_of_components h.comps hne]
    exact rootSlashes_replicate h.slashes_le (head?_join_ne_slash h.comps)
  · obtain ⟨hslashes, hparts⟩ : p.slashes = 0 ∧ p.parts.map String.toList = [] := by
      simpa using hne
    rw [hslashes, hparts]
    rfl

theorem kept_toString :
    (split '/' p.toString.toList).filter (fun comp => comp ≠ [] && comp ≠ ['.'])
      = p.parts.map String.toList := by
  let kept := List.filter (fun comp : List Char => comp ≠ [] && comp ≠ ['.'])
  have hempty : ∀ n, kept (List.replicate n []) = [] := fun n => by
    simp [kept]
  have hall : kept (p.parts.map String.toList) = p.parts.map String.toList := by
    refine List.filter_eq_self.2 fun comp hcomp => ?_
    obtain ⟨hne, hdot, -⟩ := h.comps comp hcomp
    simp [hne, hdot]
  rw [toString, String.toList_ofList]
  by_cases hparts : p.parts.map String.toList = []
  · rw [hparts]
    by_cases hslashes : p.slashes = 0
    · rw [hslashes]
      rfl
    · rw [assemble_of_components (by simp) (Or.inl hslashes), join, List.append_nil,
        split_replicate, List.filter_append]
      exact congrArg (· ++ []) (hempty _)
  · rw [assemble_of_components h.comps (Or.inr hparts), split_replicate_join h.comps hparts,
      List.filter_append]
    calc _ = [] ++ p.parts.map String.toList := congr (congrArg _ (hempty _)) hall
      _ = _ := List.nil_append _

theorem ofString_toString : ofString p.toString = p := by
  have hparts : (p.parts.map String.toList).map String.ofList = p.parts := by
    rw [List.map_map]
    exact List.map_id'' (fun part => String.ofList_toList) _
  rw [ofString, rootSlashes_toString h, kept_toString h, hparts]

theorem isAbsolute_toString : isAbsolute p.toString = p.isRooted := by
  rw [isAbsolute, Bool.eq_iff_iff, ← rootSlashes_pos_iff, rootSlashes_toString h]
  simp [isRooted]

end

end Path

/-! ## Paths on a host -/

namespace Host
variable {host : Host} {p q : Path}

/-- Only a path that begins at no root is taken from a home directory. -/
theorem expand_of_isRooted (h : p.isRooted) : host.expand p = .ok p := by
  unfold expand
  split
  · next hslashes _ => simp [Path.isRooted, hslashes] at h
  · rfl

theorem isTidy_expand (hp : p.IsTidy) (h : host.expand p = .ok q) : q.IsTidy := by
  unfold expand at h
  split at h
  · next part parts hslashes hparts =>
    split at h
    · cases hhome : host.homeOf part with
      | error e =>
        rw [hhome] at h
        cases h
      | ok dir =>
        rw [hhome] at h
        obtain rfl := Except.ok.inj h
        have hrest : ∀ part ∈ parts, Path.IsComponent part.toList := fun part hpart =>
          hp.isComponent part (hparts ▸ List.mem_cons_of_mem _ hpart)
        exact (Path.isTidy_ofString dir).below (q := ⟨0, parts⟩) hrest
    · obtain rfl := Except.ok.inj h
      exact hp
  · obtain rfl := Except.ok.inj h
    exact hp

theorem isTidy_resolve (hp : p.IsTidy) (h : host.resolve p = .ok q) : q.IsTidy ∧ q.isRooted := by
  unfold resolve at h
  split at h
  · cases h
  · obtain rfl := Except.ok.inj h
    exact ⟨Path.isTidy_resolve (Path.isTidy_ofString _) hp, rfl⟩

end Host

end ThemedSheets
