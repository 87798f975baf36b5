import ThemedSheets.Text.CaseMap
/- Letters of ASCII when case is ignored. Some share their capital with letters of other scripts; those
   in the name of a document's root do not, so a letter is the same as one of them if and only if it
   is it or its capital (`sameLetter_iff`). -/
namespace ThemedSheets.Text

/-- The letters in the name of a document's root, as code points. -/
def rootLetters : List Nat := [0x68, 0x74, 0x6d, 0x6c]

theorem lowerCode_eq_iff {m : Nat} (hm : m ∈ rootLetters) (n : Nat) :
    lowerCode n = m ↔ n = m ∨ n + 32 = m := by
  -- of all runs of capitals only the one of ASCII leads to one of these letters
  have hrun : ∀ m ∈ rootLetters, ∀ r ∈ lowerRuns, (r.1 : Int) + r.2.2.2 ≤ m →
      m ≤ (r.2.1 : Int) + r.2.2.2 → r.2.2.2 = 32 := by decide +kernel
  have hfixed : ∀ m ∈ rootLetters, lowerCode m = m ∧ lowerCode (m - 32) = m ∧ 0 < m := by
    decide +kernel
  obtain ⟨hself, hcapital, hpos⟩ := hfixed m hm
  constructor
  · intro h
    unfold lowerCode at h
    split at h
    · next r hfind =>
      have hin := List.find?_some hfind
      simp only [Bool.and_eq_true, decide_eq_true_eq] at hin
      have hsum : (n : Int) + r.2.2.2 = m := by
        rw [Int.ofNat_eq_natCast] at h
        omega
      have hdistance := hrun m hm r (List.mem_of_find?_eq_some hfind) (by omega) (by omega)
      exact Or.inr (by omega)
    · exact Or.inl h
  · rintro (rfl | hn)
    · exact hself
    · obtain rfl : n = m - 32 := by omega
      exact hcapital

theorem toLower_eq_iff {p : Char} (hp : 97 ≤ p.toNat ∧ p.toNat ≤ 122) (c : Char) :
    c.toLower = p ↔ c.toNat = p.toNat ∨ c.toNat + 32 = p.toNat := by
  have hrange : c.val ≥ 'A'.val ∧ c.val ≤ 'Z'.val ↔ 65 ≤ c.toNat ∧ c.toNat ≤ 90 := by
    rw [ge_iff_le, UInt32.le_iff_toNat_le, UInt32.le_iff_toNat_le]
    rfl
  rw [← Char.toNat_inj]
  unfold Char.toLower
  split
  · next h =>
    have hbounds := hrange.1 h
    have hsum : (c.val + ('a'.val - 'A'.val)).toNat = c.toNat + 32 := by
      rw [UInt32.toNat_add]
      show (c.toNat + 32) % 2 ^ 32 = _
      omega
    show (c.val + ('a'.val - 'A'.val)).toNat = p.toNat ↔ _
    omega
  · next h =>
    have hbounds := mt hrange.2 h
    omega

/-- No letter but its own capital is the same as one of these letters. -/
theorem sameLetter_iff {p : Char} (hp : p.toNat ∈ rootLetters) (c : Char) :
    sameLetter p c = true ↔ c.toLower = p := by
  have hgroups : ∀ m ∈ rootLetters, ∀ g ∈ smallLetterGroups, m ∉ g := by decide +kernel
  have hsmall : ∀ m ∈ rootLetters, 97 ≤ m ∧ m ≤ 122 := by decide
  have hself : lowerCode p.toNat = p.toNat := (lowerCode_eq_iff hp _).2 (Or.inl rfl)
  have hnone : smallLetterGroups.any
      (fun g => g.contains p.toNat && g.contains (lowerCode c.toNat)) = false := by
    rw [List.any_eq_false]
    intro g hg
    simp [hgroups _ hp g hg]
  simp only [sameLetter, hself, hnone, Bool.or_false, beq_iff_eq]
  rw [toLower_eq_iff (hsmall _ hp), eq_comm, lowerCode_eq_iff hp]

end ThemedSheets.Text
