import ThemedSheets.Proofs.Disk.Places
import ThemedSheets.Proofs.Path.Tidy
/- A file beside another. The text of a tidy path is followed along the path's components, so a path
   whose last component has an ending behind it is followed along the same directories
   (`exists_step_of_leadsTo`), and leads to another place in the end (`ne_beside`). -/
namespace ThemedSheets
open ThemedSheets.Text

namespace Path
variable {p : Path}

/-- The path with an ending behind its last component. -/
def extended (p : Path) (ending : String) : Path :=
  p.parent.append ⟨0, [p.name ++ ending]⟩

theorem extended_eq (p : Path) (ending : String) :
    p.extended ending = ⟨p.slashes, p.parts.dropLast ++ [p.name ++ ending]⟩ := rfl

theorem parts_eq (hne : p.parts ≠ []) : p.parts = p.parts.dropLast ++ [p.name] := by
  rw [name, List.getLast?_eq_some_getLast hne]
  exact (List.dropLast_concat_getLast hne).symm

theorem parts_ne_nil (h : p.name ≠ "") : p.parts ≠ [] := by
  intro hnil
  rw [name, hnil] at h
  exact h rfl

theorem join_concat (sep last ending : List Char) (comps : List (List Char)) :
    join sep (comps ++ [last ++ ending]) = join sep (comps ++ [last]) ++ ending := by
  induction comps with
  | nil => rfl
  | cons comp comps ih =>
    rw [List.cons_append, List.cons_append, join_cons sep comp (by simp),
      join_cons sep comp (by simp), ih, List.append_assoc _ _ ending]

namespace IsTidy

theorem extended (h : p.IsTidy) (hne : p.parts ≠ []) {ending : String}
    (hending : '/' ∉ ending.toList) (hlong : ending ≠ "") : (p.extended ending).IsTidy := by
  rw [extended_eq]
  refine ⟨h.slashes_le, ?_⟩
  rw [List.forall_mem_append, List.forall_mem_singleton]
  refine ⟨fun part hpart => h.isComponent part ((List.dropLast_prefix _).subset hpart), ?_⟩
  have hname : p.name ∈ p.parts := by
    rw [parts_eq hne]
    simp
  obtain ⟨hsome, -, hslash⟩ := h.isComponent _ hname
  have htext : ending.toList ≠ [] := fun hnil => hlong (by simpa using hnil)
  rw [String.toList_append]
  refine ⟨List.append_ne_nil_of_left_ne_nil hsome _, ?_, ?_⟩
  · intro hdot
    -- both parts have a character, so the whole has two
    have hlength := congrArg List.length hdot
    rw [List.length_append, List.length_singleton] at hlength
    have hleft := List.length_pos_iff.2 hsome
    have hright := List.length_pos_iff.2 htext
    omega
  · rw [List.mem_append, not_or]
    exact ⟨hslash, hending⟩

theorem toString_extended (h : p.IsTidy) (hne : p.parts ≠ []) {ending : String}
    (hending : '/' ∉ ending.toList) (hlong : ending ≠ "") :
    (p.extended ending).toString = p.toString ++ ending := by
  have hcomps : p.parts.map String.toList ≠ [] := fun hnil => hne (List.map_eq_nil_iff.1 hnil)
  have htidy := h.extended hne hending hlong
  apply String.toList_inj.1
  rw [String.toList_append, toString, toString, String.toList_ofList, String.toList_ofList,
    assemble_of_components h.comps (Or.inr hcomps),
    assemble_of_components htidy.comps (Or.inr (by simp [extended_eq])), List.append_assoc]
  refine congrArg (List.replicate p.slashes '/' ++ ·) ?_
  calc join ['/'] ((p.extended ending).parts.map String.toList)
      = join ['/'] (p.parts.dropLast.map String.toList ++ [p.name.toList ++ ending.toList]) := by
        rw [extended_eq, List.map_append, List.map_singleton, String.toList_append]
    _ = join ['/'] ((p.parts.dropLast ++ [p.name]).map String.toList) ++ ending.toList := by
        rw [join_concat, List.map_append, List.map_singleton]
    _ = join ['/'] (p.parts.map String.toList) ++ ending.toList := by rw [← parts_eq hne]

theorem components_toString (h : p.IsTidy) (hne : p.parts ≠ []) :
    Disk.components p.toString = List.replicate p.slashes "" ++ p.parts := by
  have hcomps : p.parts.map String.toList ≠ [] := fun hnil => hne (List.map_eq_nil_iff.1 hnil)
  rw [Disk.components, toString, String.toList_ofList,
    assemble_of_components h.comps (Or.inr hcomps), split_replicate_join h.comps hcomps,
    List.map_append, List.map_replicate, List.map_map]
  exact congrArg _ (List.map_id'' (fun part => String.ofList_toList) _)

end IsTidy
end Path

namespace Disk
variable {disk : Disk} {directory : String} {p : Path} {place place' found : List String}

/-- The names that come before the components of a path with so many slashes in front. -/
def namesBefore (directory : String) (slashes : Nat) : List String :=
  (if slashes = 0 then components directory else []) ++ List.replicate slashes ""

theorem names_toString (h : p.IsTidy) (hne : p.parts ≠ []) :
    names directory p.toString = namesBefore directory p.slashes ++ p.parts := by
  rw [names, Path.isAbsolute_toString h, h.components_toString hne, namesBefore, Path.isRooted]
  by_cases hslashes : p.slashes = 0
  · simp [hslashes]
  · simp [hslashes]

/-- A path leads to the directory above it first, and from there one component further. -/
theorem exists_step_of_leadsTo (h : p.IsTidy) (hne : p.parts ≠ [])
    (hleads : disk.LeadsTo directory p.toString place) :
    ∃ found, (namesBefore directory p.slashes ++ p.parts.dropLast).foldlM (step disk)
        (disk.placeAt []) = .ok (disk.placeAt found) ∧
      disk.step (disk.placeAt found) p.name = .ok (disk.placeAt place) := by
  have hsteps := (follow_eq_ok.1 hleads).2.2.2
  rw [names_toString h hne, Path.parts_eq hne, ← List.append_assoc, List.foldlM_append] at hsteps
  obtain ⟨above, habove, hlast⟩ := Outcome.bind_eq_ok.1 hsteps
  have hplace := (steps_mono habove (KeepsDirectories.refl disk)).1
  rw [hplace] at habove hlast
  obtain ⟨next, hnext, hend⟩ := Outcome.bind_eq_ok.1 hlast
  obtain rfl := Except.ok.inj hend
  exact ⟨above.location, habove, hnext⟩

theorem location_of_step {name : String} (hname : Path.IsComponent name.toList)
    (h : disk.step (disk.placeAt found) name = .ok (disk.placeAt place)) :
    place = if name = ".." then found.dropLast else found ++ [name] := by
  have hmove : ¬ (name = "" ∨ name = ".") := by
    rintro (rfl | rfl)
    · exact hname.1 rfl
    · exact hname.2.1 rfl
  obtain ⟨-, hnext⟩ := step_eq_ok.1 h
  rw [if_neg hmove] at hnext
  split at hnext
  · next hup =>
    rw [if_pos hup]
    exact congrArg Place.location hnext
  · next hdown =>
    rw [if_neg hdown]
    exact congrArg Place.location hnext.2

/-- A path and the same with an ending lead to different places. -/
theorem ne_beside (h : p.IsTidy) (hne : p.parts ≠ []) {ending : String}
    (hending : '/' ∉ ending.toList) (hlong : 2 < ending.length)
    (hleads : disk.LeadsTo directory p.toString place)
    (hleads' : disk.LeadsTo directory (p.toString ++ ending) place') : place ≠ place' := by
  have hsome : ending ≠ "" := by
    rintro rfl
    simp at hlong
  have htidy := h.extended hne hending hsome
  rw [← h.toString_extended hne hending hsome] at hleads'
  obtain ⟨found, hfound, hstep⟩ := exists_step_of_leadsTo h hne hleads
  have hne' : (p.extended ending).parts ≠ [] := by simp [Path.extended_eq]
  obtain ⟨found', hfound', hstep'⟩ := exists_step_of_leadsTo htidy hne' hleads'
  -- the two are followed along the same directories
  have hdirs : (p.extended ending).parts.dropLast = p.parts.dropLast := by
    rw [Path.extended_eq, List.dropLast_concat]
  have hname : (p.extended ending).name = p.name ++ ending := by
    rw [Path.extended_eq, Path.name, List.getLast?_concat]
    rfl
  rw [hdirs] at hfound'
  obtain rfl : found = found' := congrArg Place.location (Except.ok.inj (hfound.symm.trans hfound'))
  rw [hname] at hstep'
  have hcomponent : Path.IsComponent p.name.toList := by
    apply h.isComponent
    rw [Path.parts_eq hne]
    simp
  have hcomponent' : Path.IsComponent (p.name ++ ending).toList := by
    apply htidy.isComponent
    rw [Path.extended_eq]
    simp
  have hlength : (p.name ++ ending).length = p.name.length + ending.length :=
    String.length_append _ _
  have hdown : p.name ++ ending ≠ ".." := by
    intro heq
    rw [heq] at hlength
    have htwo : "..".length = 2 := by decide
    omega
  rw [location_of_step hcomponent hstep, location_of_step hcomponent' hstep', if_neg hdown]
  intro heq
  split at heq
  · have hlengths := congrArg List.length heq
    rw [List.length_dropLast, List.length_append, List.length_singleton] at hlengths
    omega
  · have hnames := (List.append_inj_right' heq rfl)
    have hsame := congrArg String.length (List.singleton_inj.1 hnames)
    omega

end Disk
end ThemedSheets
