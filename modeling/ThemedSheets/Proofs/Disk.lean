import ThemedSheets.Host
/- Where files come from. A path is followed from the root, and what stands at each place that it
   passes is looked up in the tree (`held_step`); so a file that a path leads to is one of the tree's
   (`mem_of_stat`), and it can be read if the bytes of every file of the tree stand for a text
   (`exists_readText`). -/
namespace ThemedSheets
namespace Disk
variable {disk : Disk}

/-- What stands at the place, if it is a file, is one of the tree's. -/
def Held (disk : Disk) (place : Place) : Prop :=
  ∀ content, place.entry = some (.file content) → ∃ location, (location, .file content) ∈ disk.entries

theorem held_lookup (disk : Disk) (location found : List String) :
    Held disk ⟨location, disk.lookup found⟩ := by
  intro content h
  unfold lookup at h
  split at h
  · simp at h
  · obtain ⟨⟨place, entry⟩, hfind, hentry⟩ := Option.map_eq_some_iff.1 h
    obtain rfl : entry = .file content := hentry
    exact ⟨place, List.mem_of_find?_eq_some hfind⟩

theorem held_step {place place' : Place} {name : String} (h : disk.step place name = .ok place')
    (hplace : Held disk place) : Held disk place' := by
  unfold step at h
  split at h
  · simp at h
  · simp at h
  · split at h
    · rwa [← Except.ok.inj h]
    · split at h
      · rw [← Except.ok.inj h]
        exact held_lookup disk _ _
      · split at h
        · simp at h
        · rw [← Except.ok.inj h]
          exact held_lookup disk _ _

theorem held_steps {names : List String} {place place' : Place}
    (h : names.foldlM (step disk) place = .ok place') (hplace : Held disk place) :
    Held disk place' := by
  induction names generalizing place with
  | nil =>
    obtain rfl : place = place' := Except.ok.inj h
    exact hplace
  | cons name names ih =>
    rw [List.foldlM_cons] at h
    cases hstep : disk.step place name with
    | error e => rw [hstep] at h; cases h
    | ok next =>
      rw [hstep] at h
      exact ih h (held_step hstep hplace)

theorem mem_of_stat {directory path : String} {content : ByteArray}
    (h : disk.stat directory path = .ok (.file content)) :
    ∃ location, (location, .file content) ∈ disk.entries := by
  unfold stat at h
  split at h
  · simp at h
  · simp at h
  · next location entry hfollow =>
    obtain rfl : entry = .file content := Except.ok.inj h
    unfold follow at hfollow
    split at hfollow
    · simp at hfollow
    · split at hfollow
      · simp at hfollow
      · split at hfollow
        · simp at hfollow
        · exact held_steps hfollow (fun content h => by simp at h) content rfl

theorem exists_stat_of_test {directory path : String}
    (h : disk.test directory path Entry.isFile = .ok true) :
    ∃ content, disk.stat directory path = .ok (.file content) := by
  unfold test at h
  split at h
  · next entry hstat =>
    cases entry with
    | directory => cases Except.ok.inj h
    | file content => exact ⟨content, hstat⟩
  · split at h <;> simp at h

/-- What the test for a file passes can be read, if the bytes of every file of the tree stand for a
text. -/
theorem exists_readText {encoding : Text.Encoding}
    (hfiles : ∀ location content, (location, .file content) ∈ disk.entries →
      (encoding.decode? content).isSome = true)
    {directory path : String} (h : disk.test directory path Entry.isFile = .ok true) :
    ∃ text, disk.readText directory encoding path = .ok text := by
  obtain ⟨content, hstat⟩ := exists_stat_of_test h
  obtain ⟨location, hmem⟩ := mem_of_stat hstat
  obtain ⟨text, htext⟩ := Option.isSome_iff_exists.1 (hfiles location content hmem)
  refine ⟨String.ofList (Text.unifyNewlines text.toList), ?_⟩
  rw [readText, readBytes, hstat]
  simp only [htext]

end Disk

theorem Host.readText_of_hasFile {host : Host} {encoding : Text.Encoding}
    (hfiles : ∀ location content, (location, .file content) ∈ host.disk.entries →
      (encoding.decode? content).isSome = true)
    {p : String} (h : (host.files encoding).hasFile p = .ok true) :
    ∃ text, (host.files encoding).readText p = .ok text := by
  simp only [files] at h ⊢
  split at h
  · simp at h
  · split at h
    · simp at h
    · exact Disk.exists_readText hfiles h

end ThemedSheets
