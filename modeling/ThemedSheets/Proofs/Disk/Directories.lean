import ThemedSheets.Proofs.Disk.Places
/- What making a directory with the missing ones above it changes. Each step makes one directory
   where nothing was, at a place that the path or a path above it leads to; so in the end the tree
   has grown along the path and is the same elsewhere (`makeDirectories_growsAlong`). -/
namespace ThemedSheets
namespace Disk
variable {directory : String} {path : Path} {disk after last : Disk}

/-- A path is another one or stands above it. -/
def IsAtOrAbove (above path : Path) : Prop :=
  above.slashes = path.slashes ∧ above.parts <+: path.parts

/-- A place where nothing was is a directory now, and a path at or above the given one leads there. -/
def IsNewAlong (directory : String) (path : Path) (disk after : Disk) (place : List String) : Prop :=
  disk.lookup place = none ∧ after.lookup place = some .directory ∧
    ∃ above : Path, IsAtOrAbove above path ∧ after.LeadsTo directory above.toString place

theorem IsNewAlong.mono {place : List String} (h : IsNewAlong directory path disk after place)
    (hkeeps : after.KeepsDirectories last) : IsNewAlong directory path disk last place := by
  obtain ⟨hnone, hdirectory, above, habove, hleads⟩ := h
  exact ⟨hnone, hkeeps place hdirectory, above, habove, hleads.mono hkeeps⟩

/-- Every place that changed is a new directory along a path. -/
def GrowsAlong (directory : String) (path : Path) (disk after : Disk) : Prop :=
  ∀ place, after.lookup place ≠ disk.lookup place → IsNewAlong directory path disk after place

namespace GrowsAlong

theorem refl (directory : String) (path : Path) (disk : Disk) :
    GrowsAlong directory path disk disk := fun _ h => absurd rfl h

theorem keepsDirectories (h : GrowsAlong directory path disk after) :
    disk.KeepsDirectories after := by
  intro place hplace
  apply Classical.byContradiction
  intro hchanged
  have hnew := h place fun heq => hchanged (heq.trans hplace)
  rw [hnew.1] at hplace
  cases hplace

theorem trans (h : GrowsAlong directory path disk after)
    (h' : GrowsAlong directory path after last) : GrowsAlong directory path disk last := by
  intro place hchanged
  by_cases hsame : last.lookup place = after.lookup place
  · -- the place changed in the first part, and paths lead there still
    rw [hsame] at hchanged
    exact (h place hchanged).mono h'.keepsDirectories
  · obtain ⟨hnone, hdirectory, above, habove, hleads⟩ := h' place hsame
    refine ⟨?_, hdirectory, above, habove, hleads⟩
    rw [← hnone]
    apply Classical.byContradiction
    intro hfirst
    rw [(h place (Ne.symm hfirst)).2.1] at hnone
    cases hnone

theorem of_parent (h : GrowsAlong directory path.parent disk after) :
    GrowsAlong directory path disk after := by
  intro place hchanged
  obtain ⟨hnone, hdirectory, above, ⟨hslashes, hparts⟩, hleads⟩ := h place hchanged
  exact ⟨hnone, hdirectory, above, ⟨hslashes, hparts.trans (List.dropLast_prefix _)⟩, hleads⟩

theorem of_makeDirectory (h : disk.makeDirectory directory path.toString = .ok after) :
    GrowsAlong directory path disk after := by
  obtain ⟨place, hleads, hnone, rfl⟩ := makeDirectory_eq_ok h
  have hfile : disk.lookup place ≠ some .directory := by
    rw [hnone]
    simp
  intro other hchanged
  have hother : other = place := by
    apply Classical.byContradiction
    intro hne
    exact hchanged (lookup_put_of_ne disk hne .directory)
  subst hother
  exact ⟨hnone, lookup_put_self disk (ne_nil_of_lookup_ne hfile) .directory, path,
    ⟨rfl, List.prefix_refl _⟩, hleads.mono (keepsDirectories_put hfile)⟩

end GrowsAlong

/-- Where a directory could not be made but is there, the tree stays as it was before. -/
theorem keep_eq_ok {made : Except FileFailure Disk}
    (h : makeDirectories.keep directory disk made path = .ok after) :
    made = .ok after ∨ after = disk := by
  unfold makeDirectories.keep at h
  split at h
  · exact Or.inl h
  · split at h
    · cases h
    · split at h
      · exact Or.inr (Except.ok.inj h).symm
      · cases h
      · cases h

theorem makeDirectories_growsAlong (h : disk.makeDirectories directory path = .ok after) :
    GrowsAlong directory path disk after := by
  suffices hgo : ∀ n path after, makeDirectories.go disk directory n path = .ok after →
      GrowsAlong directory path disk after from hgo _ _ _ h
  intro n
  -- each turn makes the directories above first, if the path leads to none
  induction n with
  | zero =>
    intro path after h
    unfold makeDirectories.go at h
    split at h
    · next d hmade =>
      obtain rfl := Except.ok.inj h
      exact .of_makeDirectory hmade
    · cases h
    · rcases keep_eq_ok h with hmade | rfl
      · cases hmade
      · exact .refl directory path after
  | succ n ih =>
    intro path after h
    unfold makeDirectories.go at h
    split at h
    · next d hmade =>
      obtain rfl := Except.ok.inj h
      exact .of_makeDirectory hmade
    · dsimp only at h
      split at h
      · cases h
      · next grown hgrown =>
        have habove : GrowsAlong directory path disk grown := (ih path.parent grown hgrown).of_parent
        rcases keep_eq_ok h with hmade | rfl
        · exact habove.trans (.of_makeDirectory hmade)
        · exact habove
    · rcases keep_eq_ok h with hmade | rfl
      · cases hmade
      · exact .refl directory path after

end Disk
end ThemedSheets
