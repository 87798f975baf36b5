import ThemedSheets.Disk
import ThemedSheets.Proofs.Outcome
/- What an operation on files changes. A path is followed through directories only, so it leads to
   the same place in every tree that has at least the same directories (`LeadsTo.mono`), whatever
   became of the files. An operation that succeeds sets the entry of one place, the one that its
   path leads to (`write_eq_ok`, `append_of_leadsTo`, `makeDirectory_eq_ok`), and leaves every other
   place as it was. -/
namespace ThemedSheets
namespace Disk
variable {disk after : Disk}

/-! ## Places -/

theorem lookup_put_self (disk : Disk) {place : List String} (h : place ≠ []) (entry : Entry) :
    (disk.put place entry).lookup place = some entry := by
  have hnone : (disk.entries.filter (·.1 != place)).find? (·.1 == place) = none := by
    rw [List.find?_eq_none]
    intro e he
    simpa using (List.mem_filter.1 he).2
  simp only [lookup, put, if_neg h, List.find?_append, hnone]
  simp

theorem lookup_put_of_ne (disk : Disk) {place other : List String} (h : other ≠ place)
    (entry : Entry) : (disk.put place entry).lookup other = disk.lookup other := by
  have hkept : (fun e : List String × Entry =>
      decide ((e.1 != place) = true ∧ (e.1 == other) = true)) = fun e => e.1 == other := by
    funext e
    by_cases he : e.1 = other
    · simp [he, h]
    · simp [he]
  have hlast : [(place, entry)].find? (·.1 == other) = none := by simp [Ne.symm h]
  simp only [lookup, put, List.find?_append, List.find?_filter, hkept, hlast, Option.or_none]

/-- The second tree has every directory of the first. -/
def KeepsDirectories (disk after : Disk) : Prop :=
  ∀ place, disk.lookup place = some .directory → after.lookup place = some .directory

theorem KeepsDirectories.refl (disk : Disk) : disk.KeepsDirectories disk := fun _ h => h

theorem KeepsDirectories.trans {last : Disk} (h : disk.KeepsDirectories after)
    (h' : after.KeepsDirectories last) : disk.KeepsDirectories last :=
  fun place hplace => h' place (h place hplace)

theorem keepsDirectories_put {place : List String} {entry : Entry}
    (h : disk.lookup place ≠ some .directory) : disk.KeepsDirectories (disk.put place entry) := by
  intro other hother
  have hne : other ≠ place := by
    rintro rfl
    exact h hother
  rwa [lookup_put_of_ne disk hne]

/-! ## Following a path -/

def placeAt (disk : Disk) (place : List String) : Place := ⟨place, disk.lookup place⟩

/-- What one step can do: stay, go up, or go down, and each only from a directory. -/
theorem step_eq_ok {place next : Place} {name : String} :
    disk.step place name = .ok next ↔ place.entry = some .directory ∧
      if name = "" ∨ name = "." then next = place
      else if name = ".." then next = disk.placeAt place.location.dropLast
      else name.utf8ByteSize ≤ maxNameBytes ∧ next = disk.placeAt (place.location ++ [name]) := by
  obtain ⟨location, entry⟩ := place
  match entry with
  | none => simp [step]
  | some (.file content) => simp [step]
  | some .directory =>
    simp only [step, true_and]
    split
    · rw [Except.ok.injEq, eq_comm]
    · split
      · rw [Except.ok.injEq, eq_comm]
        rfl
      · split
        · next hlong =>
          constructor
          · intro h
            cases h
          · rintro ⟨hshort, -⟩
            omega
        · next hlong =>
          have hshort : name.utf8ByteSize ≤ maxNameBytes := by omega
          rw [Except.ok.injEq, eq_comm]
          exact (and_iff_right hshort).symm

/-- A step from a place of the tree leads to a place of the tree, and to the same one in every tree
with the same directories: a step can only be taken from a directory. -/
theorem step_mono {place : List String} {name : String} {next : Place}
    (h : disk.step (disk.placeAt place) name = .ok next) (hkeeps : disk.KeepsDirectories after) :
    next = disk.placeAt next.location ∧
      after.step (after.placeAt place) name = .ok (after.placeAt next.location) := by
  obtain ⟨hdirectory, hnext⟩ := step_eq_ok.1 h
  have hafter : after.lookup place = some .directory := hkeeps place hdirectory
  rw [step_eq_ok]
  split at hnext
  · next hstay =>
    subst hnext
    exact ⟨rfl, hafter, by rw [if_pos hstay]; rfl⟩
  · next hmove =>
    rw [if_neg hmove]
    split at hnext
    · next hup =>
      subst hnext
      exact ⟨rfl, hafter, by rw [if_pos hup]; rfl⟩
    · next hdown =>
      obtain ⟨hshort, rfl⟩ := hnext
      rw [if_neg hdown]
      exact ⟨rfl, hafter, hshort, rfl⟩

theorem steps_mono {names : List String} {place : List String} {last : Place}
    (h : names.foldlM (step disk) (disk.placeAt place) = .ok last)
    (hkeeps : disk.KeepsDirectories after) :
    last = disk.placeAt last.location ∧
      names.foldlM (step after) (after.placeAt place) = .ok (after.placeAt last.location) := by
  induction names generalizing place with
  | nil =>
    obtain rfl := Except.ok.inj h
    exact ⟨rfl, rfl⟩
  | cons name names ih =>
    rw [List.foldlM_cons] at h
    obtain ⟨next, hstep, hrest⟩ := Outcome.bind_eq_ok.1 h
    obtain ⟨hnext, hstep'⟩ := step_mono hstep hkeeps
    rw [hnext] at hrest
    obtain ⟨hlast, hrest'⟩ := ih hrest
    refine ⟨hlast, ?_⟩
    rw [List.foldlM_cons]
    exact Outcome.bind_eq_ok.2 ⟨_, hstep', hrest'⟩

def LeadsTo (disk : Disk) (directory path : String) (place : List String) : Prop :=
  disk.follow directory path = .ok (disk.placeAt place)

variable {directory path : String} {place : List String}

/-- The names that a path has to be followed along. -/
def names (directory path : String) : List String :=
  if Path.isAbsolute path then components path else components directory ++ components path

theorem follow_eq_ok {found : Place} :
    disk.follow directory path = .ok found ↔
      path ≠ "" ∧ '\x00' ∉ path.toList ∧ path.utf8ByteSize ≤ maxPathBytes ∧
        (names directory path).foldlM (step disk) (disk.placeAt []) = .ok found := by
  unfold follow
  split
  · next hempty => simp [hempty]
  · next hempty =>
    split
    · next hnull => simp [List.contains_iff_mem.1 hnull]
    · next hnull =>
      split
      · next hlong =>
        constructor
        · intro h
          cases h
        · rintro ⟨-, -, hshort, -⟩
          omega
      · next hlong =>
        have hshort : path.utf8ByteSize ≤ maxPathBytes := by omega
        constructor
        · intro h
          exact ⟨hempty, fun hmem => hnull (List.contains_iff_mem.2 hmem), hshort, h⟩
        · rintro ⟨-, -, -, h⟩
          exact h

theorem leadsTo_of_follow {entry : Option Entry}
    (h : disk.follow directory path = .ok ⟨place, entry⟩) :
    disk.LeadsTo directory path place ∧ disk.lookup place = entry := by
  have hfound := (steps_mono (follow_eq_ok.1 h).2.2.2 (KeepsDirectories.refl disk)).1
  exact ⟨h.trans (congrArg _ hfound), (congrArg Place.entry hfound).symm⟩

/-- Trees with the same directories agree on where paths lead. -/
theorem LeadsTo.mono (h : disk.LeadsTo directory path place)
    (hkeeps : disk.KeepsDirectories after) : after.LeadsTo directory path place := by
  obtain ⟨hempty, hnull, hshort, hsteps⟩ := follow_eq_ok.1 h
  exact follow_eq_ok.2 ⟨hempty, hnull, hshort, (steps_mono hsteps hkeeps).2⟩

theorem LeadsTo.unique {other : List String} (h : disk.LeadsTo directory path place)
    (h' : disk.LeadsTo directory path other) : place = other :=
  congrArg Place.location (Except.ok.inj (h.symm.trans h'))

theorem ne_nil_of_lookup_ne (h : disk.lookup place ≠ some .directory) : place ≠ [] := by
  rintro rfl
  exact h rfl

/-! ## What operations change -/

theorem write_eq_ok {content : ByteArray} :
    disk.write directory path content = .ok after ↔
      ∃ place, disk.LeadsTo directory path place ∧ disk.lookup place ≠ some .directory ∧
        after = disk.put place (.file content) := by
  unfold write
  constructor
  · intro h
    split at h
    · cases h
    · cases h
    · next found entry hdirectory hfollow =>
      obtain ⟨hleads, hentry⟩ := leadsTo_of_follow hfollow
      obtain rfl := Except.ok.inj h
      refine ⟨found, hleads, ?_, rfl⟩
      rw [hentry]
      intro h
      exact hdirectory h
  · rintro ⟨place, hleads, hfile, rfl⟩
    rw [hleads, placeAt]
    split
    · next h => cases h
    · next h => exact absurd (congrArg Place.entry (Except.ok.inj h)) hfile
    · next h =>
      obtain ⟨rfl, -⟩ := Place.mk.inj (Except.ok.inj h)
      rfl

def bytesAt (disk : Disk) (place : List String) : ByteArray :=
  match disk.lookup place with
  | some (.file content) => content
  | _ => ByteArray.empty

theorem bytesAt_put_file {content : ByteArray} (hplace : place ≠ []) (other : List String) :
    (disk.put place (.file content)).bytesAt other
      = if other = place then content else disk.bytesAt other := by
  by_cases h : other = place
  · rw [if_pos h, h, bytesAt, lookup_put_self disk hplace]
  · rw [if_neg h, bytesAt, bytesAt, lookup_put_of_ne disk h]

/-- Two trees with the same directories: paths lead to the same places in both. -/
def SameDirectories (disk after : Disk) : Prop :=
  disk.KeepsDirectories after ∧ after.KeepsDirectories disk

theorem SameDirectories.refl (disk : Disk) : disk.SameDirectories disk :=
  ⟨KeepsDirectories.refl disk, KeepsDirectories.refl disk⟩

theorem SameDirectories.trans {last : Disk} (h : disk.SameDirectories after)
    (h' : after.SameDirectories last) : disk.SameDirectories last :=
  ⟨h.1.trans h'.1, h'.2.trans h.2⟩

theorem sameDirectories_put_file {content : ByteArray} (h : disk.lookup place ≠ some .directory) :
    disk.SameDirectories (disk.put place (.file content)) := by
  refine ⟨keepsDirectories_put h, ?_⟩
  intro other hother
  by_cases hsame : other = place
  · rw [hsame, lookup_put_self disk (ne_nil_of_lookup_ne h)] at hother
    cases hother
  · rwa [lookup_put_of_ne disk hsame] at hother

/-- Bytes added to a file stand behind those that were there, in the one place that the path leads
to. -/
theorem append_of_leadsTo (hleads : disk.LeadsTo directory path place)
    (hfile : disk.lookup place ≠ some .directory) (more : ByteArray) :
    ∃ after, disk.append directory path more = .ok after ∧ disk.SameDirectories after ∧
      ∀ other, after.bytesAt other
        = disk.bytesAt other ++ if other = place then more else ByteArray.empty := by
  refine ⟨disk.put place (.file (disk.bytesAt place ++ more)), ?_, sameDirectories_put_file hfile,
    ?_⟩
  · rw [append, hleads, placeAt, bytesAt]
    match hentry : disk.lookup place with
    | none => simp only [ByteArray.empty_append]
    | some (.file content) => rfl
    | some .directory => exact absurd hentry hfile
  · intro other
    rw [bytesAt_put_file (ne_nil_of_lookup_ne hfile)]
    split
    · next h => rw [h]
    · exact ByteArray.append_empty.symm

theorem leadsTo_of_append {more : ByteArray} (h : disk.append directory path more = .ok after) :
    ∃ place, disk.LeadsTo directory path place ∧ disk.lookup place ≠ some .directory := by
  unfold append at h
  split at h
  · cases h
  · cases h
  · next found content hfollow =>
    obtain ⟨hleads, hentry⟩ := leadsTo_of_follow hfollow
    refine ⟨found, hleads, ?_⟩
    rw [hentry]
    simp
  · next found hfollow =>
    obtain ⟨hleads, hentry⟩ := leadsTo_of_follow hfollow
    refine ⟨found, hleads, ?_⟩
    rw [hentry]
    simp

theorem makeDirectory_eq_ok (h : disk.makeDirectory directory path = .ok after) :
    ∃ place, disk.LeadsTo directory path place ∧ disk.lookup place = none ∧
      after = disk.put place .directory := by
  unfold makeDirectory at h
  split at h
  · cases h
  · cases h
  · next found hfollow =>
    obtain ⟨hleads, hentry⟩ := leadsTo_of_follow hfollow
    exact ⟨found, hleads, hentry, (Except.ok.inj h).symm⟩

end Disk
end ThemedSheets
